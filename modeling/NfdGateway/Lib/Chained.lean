import Mathlib

/-! Tables of chains: linking, unlinking and rehashing, and what they do to a single
chain and to the table as a whole. -/
namespace Chained

open List

variable {α : Type} {bs : List (List α)} {i j n : ℕ} {x y : α} {index index' : α → ℕ}

def chain (bs : List (List α)) (i : ℕ) : List α := bs.getD i []

def push (bs : List (List α)) (i : ℕ) (x : α) : List (List α) :=
  bs.modify i (· ++ [x])

def unlink [DecidableEq α] (bs : List (List α)) (i : ℕ) (x : α) : List (List α) :=
  bs.modify i (·.erase x)

def rehash (index : α → ℕ) (n : ℕ) (xs : List α) : List (List α) :=
  xs.foldl (fun bs x => push bs (index x) x) (List.replicate n [])

def Placed (index : α → ℕ) (bs : List (List α)) : Prop :=
  ∀ i, ∀ x ∈ chain bs i, index x = i

lemma chain_eq_getElem (hi : i < bs.length) : chain bs i = bs[i] := by
  simp [chain, List.getD, hi]

lemma mem_flatten_iff : x ∈ bs.flatten ↔ ∃ i < bs.length, x ∈ chain bs i := by
  rw [mem_flatten]
  constructor
  · rintro ⟨l, hl, hx⟩
    obtain ⟨i, hi⟩ := mem_iff_getElem?.mp hl
    have hlt : i < bs.length := (List.getElem?_eq_some_iff.mp hi).1
    exact ⟨i, hlt, by simpa [chain, List.getD, hi] using hx⟩
  · rintro ⟨i, hi, hx⟩
    exact ⟨bs[i], getElem_mem hi, chain_eq_getElem hi ▸ hx⟩

lemma chain_eq_nil (hi : bs.length ≤ i) : chain bs i = [] := by
  simp [chain, List.getD, hi]

lemma lt_length_of_mem_chain (h : x ∈ chain bs i) : i < bs.length := by
  by_contra hle
  simp [chain_eq_nil (Nat.le_of_not_lt hle)] at h

lemma mem_flatten_of_mem_chain (h : x ∈ chain bs i) : x ∈ bs.flatten :=
  mem_flatten_iff.mpr ⟨i, lt_length_of_mem_chain h, h⟩

lemma Placed.mem_flatten (h : Placed index bs) : x ∈ bs.flatten ↔ x ∈ chain bs (index x) := by
  refine ⟨fun hx => ?_, mem_flatten_of_mem_chain⟩
  obtain ⟨i, -, hi⟩ := mem_flatten_iff.mp hx
  rwa [h i x hi]

lemma Placed.congr (h : Placed index bs)
    (he : ∀ x ∈ bs.flatten, index x = index' x) : Placed index' bs := by
  intro i x hx
  rw [← he x (mem_flatten_of_mem_chain hx)]
  exact h i x hx

lemma Placed.pairwise_flatten {R : α → α → Prop} (h : Placed index bs)
    (hR : ∀ x y, index x ≠ index y → R x y) (hc : ∀ i, (chain bs i).Pairwise R) :
    bs.flatten.Pairwise R := by
  rw [List.pairwise_flatten]
  constructor
  · intro l hl
    obtain ⟨i, hi, rfl⟩ := mem_iff_getElem.mp hl
    rw [← chain_eq_getElem hi]
    exact hc i
  rw [pairwise_iff_getElem]
  intro i j hi hj hij x hx y hy
  rw [← chain_eq_getElem hi] at hx
  rw [← chain_eq_getElem hj] at hy
  apply hR
  rw [h i x hx, h j y hy]
  omega

section Modify

variable {f : List α → List α}

lemma chain_modify (hi : i < bs.length) :
    chain (bs.modify i f) j = if j = i then f (chain bs i) else chain bs j := by
  simp only [chain, List.getD, getElem?_modify]
  by_cases hj : j = i
  · subst hj
    simp [hi]
  · simp [hj, Ne.symm hj]

lemma flatten_modify_perm {l : List α} (hi : i < bs.length)
    (hf : (f (chain bs i)).Perm (l ++ chain bs i)) :
    (bs.modify i f).flatten.Perm (l ++ bs.flatten) := by
  induction bs generalizing i with
  | nil => simp at hi
  | cons b bs ih =>
    cases i with
    | zero =>
      have hf' : (f b).Perm (l ++ b) := hf
      simpa using hf'.append_right bs.flatten
    | succ i =>
      have ih' := ih (by simpa using hi) hf
      exact (ih'.append_left b).trans (perm_append_comm_assoc _ _ _)

lemma flatten_modify_rel {R : List α → List α → Prop} (hrefl : ∀ l, R l l)
    (happend : ∀ {a b c d}, R a b → R c d → R (a ++ c) (b ++ d)) (hf : ∀ l, R l (f l)) :
    R bs.flatten (bs.modify i f).flatten := by
  induction bs generalizing i with
  | nil => simpa using hrefl []
  | cons b bs ih =>
    cases i with
    | zero => exact happend (hf b) (hrefl _)
    | succ i => exact happend (hrefl b) ih

end Modify

@[simp] lemma length_push : (push bs i x).length = bs.length := length_modify ..

lemma chain_push (hi : i < bs.length) :
    chain (push bs i x) j = if j = i then chain bs i ++ [x] else chain bs j :=
  chain_modify hi

lemma flatten_push (hi : i < bs.length) : (push bs i x).flatten.Perm (x :: bs.flatten) :=
  flatten_modify_perm (l := [x]) hi perm_append_comm

lemma sublist_push : bs.flatten.Sublist (push bs i x).flatten :=
  flatten_modify_rel List.Sublist.refl List.Sublist.append fun l => sublist_append_left l [x]

lemma Placed.push (h : Placed index bs) (hi : index x < bs.length) :
    Placed index (push bs (index x) x) := by
  intro j y hy
  rw [chain_push hi] at hy
  split at hy
  next hj =>
    rcases mem_append.mp hy with hy | hy
    · exact hj ▸ h _ y hy
    · rw [mem_singleton.mp hy, hj]
  · exact h j y hy

section Unlink

variable [DecidableEq α]

lemma Placed.findIdx? (h : Placed index bs) (hx : x ∈ bs.flatten) :
    bs.findIdx? (x ∈ ·) = some (index x) := by
  have hmem := h.mem_flatten.mp hx
  have hi := lt_length_of_mem_chain hmem
  rw [findIdx?_eq_some_iff_getElem]
  refine ⟨hi, by simpa [← chain_eq_getElem hi] using hmem, ?_⟩
  intro j hj hxj
  have hxj' : x ∈ chain bs j := by
    rw [chain_eq_getElem (Nat.lt_trans hj hi)]
    simpa using hxj
  exact absurd (h j x hxj') (by omega)

@[simp] lemma length_unlink : (unlink bs i x).length = bs.length := length_modify ..

lemma chain_unlink (hi : i < bs.length) :
    chain (unlink bs i x) j = if j = i then (chain bs i).erase x else chain bs j :=
  chain_modify hi

lemma unlink_sublist : (unlink bs i x).flatten.Sublist bs.flatten :=
  flatten_modify_rel (R := fun l l' => l'.Sublist l) List.Sublist.refl List.Sublist.append
    fun _ => erase_sublist

lemma Placed.unlink (h : Placed index bs) (hi : i < bs.length) : Placed index (unlink bs i x) := by
  intro j y hy
  rw [chain_unlink hi] at hy
  split at hy
  next hj =>
    exact hj ▸ h i y (mem_of_mem_erase hy)
  · exact h j y hy

lemma flatten_unlink (hx : x ∈ chain bs i) : bs.flatten.Perm (x :: (unlink bs i x).flatten) := by
  have hi := lt_length_of_mem_chain hx
  have hback : (unlink bs i x).modify i (x :: ·) = bs.modify i (fun l => x :: l.erase x) := by
    simp [unlink, modify_modify_eq, Function.comp_def]
  have h1 : (bs.modify i (fun l => x :: l.erase x)).flatten.Perm bs.flatten :=
    flatten_modify_perm (l := []) hi (perm_cons_erase hx).symm
  have h2 : ((unlink bs i x).modify i (x :: ·)).flatten.Perm (x :: (unlink bs i x).flatten) :=
    flatten_modify_perm (l := [x]) (by simpa using hi) (.refl _)
  exact h1.symm.trans (hback ▸ h2)

end Unlink

section Rehash

variable {xs : List α}

lemma rehash_foldl (xs : List α) (bs : List (List α)) (hx : ∀ x ∈ xs, index x < bs.length) :
    let bs' := xs.foldl (fun bs x => push bs (index x) x) bs
    bs'.length = bs.length ∧ bs'.flatten.Perm (xs ++ bs.flatten) ∧
      ∀ i < bs.length, chain bs' i = chain bs i ++ xs.filter (index · = i) := by
  induction xs generalizing bs with
  | nil => simp
  | cons x xs ih =>
    have hlt : index x < bs.length := hx x (by simp)
    have hrest : ∀ y ∈ xs, index y < (push bs (index x) x).length := by
      intro y hy
      rw [length_push]
      exact hx y (by simp [hy])
    obtain ⟨hl, hp, hc⟩ := ih (push bs (index x) x) hrest
    rw [length_push] at hl hc
    refine ⟨hl, ?_, ?_⟩
    · exact hp.trans (((flatten_push hlt).append_left xs).trans perm_middle)
    intro i hi
    rw [foldl_cons, hc i hi, chain_push hlt]
    by_cases h : i = index x
    · simp [h]
    · simp [h, Ne.symm h]

section

variable (hx : ∀ x ∈ xs, index x < n)
include hx

lemma chain_rehash (hi : i < n) : chain (rehash index n xs) i = xs.filter (index · = i) := by
  obtain ⟨-, -, hc⟩ := rehash_foldl xs (List.replicate n []) (by simpa using hx)
  rw [rehash, hc i (by simpa using hi)]
  simp [chain, List.getD, hi]

lemma length_rehash : (rehash index n xs).length = n := by
  obtain ⟨hl, -, -⟩ := rehash_foldl xs (List.replicate n []) (by simpa using hx)
  simpa [rehash] using hl

lemma flatten_rehash : (rehash index n xs).flatten.Perm xs := by
  obtain ⟨-, hp, -⟩ := rehash_foldl xs (List.replicate n []) (by simpa using hx)
  simpa [rehash] using hp

lemma placed_rehash (he : ∀ x ∈ xs, index x = index' x) : Placed index' (rehash index n xs) := by
  intro i x hxi
  have hi := lt_length_of_mem_chain hxi
  rw [length_rehash hx] at hi
  rw [chain_rehash hx hi] at hxi
  obtain ⟨hmem, hidx⟩ := mem_filter.mp hxi
  rw [← he x hmem]
  simpa using hidx

end

end Rehash

lemma find?_of_unique {l : List α} {p : α → Bool} (hx : x ∈ l) (hp : p x = true)
    (hu : ∀ y ∈ l, p y = true → y = x) : l.find? p = some x := by
  cases hf : l.find? p with
  | none => exact absurd hp (find?_eq_none.mp hf x hx)
  | some y => rw [hu y (mem_of_find?_eq_some hf) (find?_some hf)]

end Chained
