import NfdGateway.Lib.HandDown
import NfdGateway.Lib.PrefixOrder
import NfdGateway.Rib.Rib

/-! The tree of the RIB: the parent of an entry is the entry with the longest proper prefix of
its name, and the child lists are the inverse of the parent links. Insertion and erasure keep
it so. -/
namespace NfdGateway.Rib

open List Option Function

open HandDown (Under)
open PrefixOrder

variable {C : Type} {R : Rib C} {n x y : Name C}

def Nearest (R : Rib C) (n : Name C) : Option (Name C) → Prop
  | none => ∀ y ∈ R.names, ¬ Under y n
  | some p => p ∈ R.names ∧ Under p n ∧ ∀ y ∈ R.names, Under y n → y <+: p

def parentOf (R : Rib C) (x : Name C) : Option (Name C) := (R.entries x).parent

def childrenOf (R : Rib C) (x : Name C) : List (Name C) := (R.entries x).children

def unlinked (e : RibEntry C) : RibEntry C := { e with parent := none, children := [] }

def dataOf (R : Rib C) (x : Name C) : RibEntry C := unlinked (R.entries x)

lemma Nearest.congr {R' : Rib C} {P : Option (Name C)} (h : R.Nearest n P)
    (hmem : ∀ y, Under y n → (y ∈ R'.names ↔ y ∈ R.names)) : R'.Nearest n P := by
  cases P with
  | none => exact fun y hy hyn => h y ((hmem y hyn).mp hy) hyn
  | some p =>
    refine ⟨(hmem p h.2.1).mpr h.1, h.2.1, fun y hy hyn => ?_⟩
    exact h.2.2 y ((hmem y hyn).mp hy) hyn

lemma Nearest.unique {p q : Option (Name C)} (hp : R.Nearest n p) (hq : R.Nearest n q) : p = q := by
  cases p with
  | none =>
    cases q with
    | none => rfl
    | some q => exact absurd hq.2.1 (hp q hq.1)
  | some p =>
    cases q with
    | none => exact absurd hp.2.1 (hq p hp.1)
    | some q =>
      have hpq := hq.2.2 p hp.1 hp.2.1
      exact congrArg some (hpq.eq_of_length_le (hp.2.2 q hq.1 hq.2.1).length_le)

def Kid (R : Rib C) (n x : Name C) : Prop :=
  x ∈ R.names ∧ Under n x ∧ ∀ y ∈ R.names, Under n y → ¬ Under y x

lemma exists_kid (hx : x ∈ R.names) (hnx : Under n x) : ∃ k, R.Kid n k ∧ k <+: x := by
  induction hl : x.length using Nat.strong_induction_on generalizing x with
  | _ l ih =>
    by_cases hk : ∃ y ∈ R.names, Under n y ∧ Under y x
    · obtain ⟨y, hy, hny, hyx⟩ := hk
      obtain ⟨k, hkid, hky⟩ := ih y.length (hl ▸ hyx.length_lt) hy hny rfl
      exact ⟨k, hkid, hky.trans hyx.1⟩
    · exact ⟨x, ⟨hx, hnx, fun y hy hny hyx => hk ⟨y, hy, hny, hyx⟩⟩, prefix_rfl⟩

lemma Kid.eq_of_isPrefix {k k' : Name C} (hk : R.Kid n k) (hk' : R.Kid n k')
    (h : k <+: x) (h' : k' <+: x) : k = k' := by
  rcases Under.total h h' with hp | hu
  · by_contra hne
    exact hk'.2.2 k hk.1 hk.2.1 ⟨hp, hne⟩
  · exact absurd hu (hk.2.2 k' hk'.1 hk'.2.1)

section Moved

variable {R₁ R₂ : Rib C} {M M' : Name C → Prop} {Q Q' : Option (Name C)}

structure Moved (R R' : Rib C) (M : Name C → Prop) (Q Q' : Option (Name C)) : Prop where
  names : R'.names = R.names
  faceMap : R'.faceMap = R.faceMap
  data : R'.dataOf = R.dataOf
  parent_moved : ∀ x, M x → R'.parentOf x = Q'
  parent_other : ∀ x, ¬ M x → R'.parentOf x = R.parentOf x
  children : ∀ y x, x ∈ R'.childrenOf y ↔
    (x ∈ R.childrenOf y ∧ ¬ (M x ∧ Q = some y)) ∨ (M x ∧ Q' = some y)

lemma moved_nothing (h : ∀ x, ¬ M x) : Moved R R M Q Q' where
  names := rfl
  faceMap := rfl
  data := rfl
  parent_moved x hx := absurd hx (h x)
  parent_other _ _ := rfl
  children y x := by simp [h x]

lemma Moved.then_in (h : Moved R R₁ M Q none) (h' : Moved R₁ R₂ M none Q') :
    Moved R R₂ M Q Q' where
  names := h'.names.trans h.names
  faceMap := h'.faceMap.trans h.faceMap
  data := h'.data.trans h.data
  parent_moved := h'.parent_moved
  parent_other x hx := (h'.parent_other x hx).trans (h.parent_other x hx)
  children y x := by
    rw [h'.children, h.children]
    simp

lemma Moved.trans (h : Moved R R₁ M Q Q') (h' : Moved R₁ R₂ M' Q Q') (hQ : Q ≠ Q') :
    Moved R R₂ (fun x => M x ∨ M' x) Q Q' where
  names := h'.names.trans h.names
  faceMap := h'.faceMap.trans h.faceMap
  data := h'.data.trans h.data
  parent_moved x hx := by
    by_cases hm : M' x
    · exact h'.parent_moved x hm
    · exact (h'.parent_other x hm).trans (h.parent_moved x (hx.resolve_right hm))
  parent_other x hx :=
    (h'.parent_other x fun hm => hx (.inr hm)).trans (h.parent_other x fun hm => hx (.inl hm))
  children y x := by
    rw [h'.children, h.children]
    by_cases hy : Q' = some y
    · have hq : Q ≠ some y := fun hq => hQ (hq.trans hy.symm)
      simp only [hy, hq, and_false, not_false_eq_true, and_true]
      tauto
    · simp only [hy, and_false, or_false]
      tauto

lemma Moved.congr (h : Moved R R₁ M Q Q') (hM : ∀ x, M x ↔ M' x) : Moved R R₁ M' Q Q' := by
  rwa [show M = M' from funext fun x => propext (hM x)] at h

end Moved

variable [LinearOrder C]

structure TreeInv (R : Rib C) : Prop where
  sorted : R.names.Pairwise (· < ·)
  name_eq : ∀ n ∈ R.names, (R.entries n).name = n
  parent : ∀ n ∈ R.names, R.Nearest n (R.parentOf n)
  children : ∀ n ∈ R.names, ∀ x, x ∈ R.childrenOf n ↔ x ∈ R.names ∧ R.parentOf x = some n

lemma treeInv_empty : TreeInv ({} : Rib C) where
  sorted := List.Pairwise.nil
  name_eq _ h := absurd h not_mem_nil
  parent _ h := absurd h not_mem_nil
  children _ h := absurd h not_mem_nil

lemma findParentBelow_spec {i : ℕ} (hi : i ≤ n.length) :
    match R.findParentBelow n i with
    | none => ∀ y ∈ R.names, y <+: n → i ≤ y.length
    | some p => p ∈ R.names ∧ p <+: n ∧ p.length < i ∧
        ∀ y ∈ R.names, y <+: n → y.length < i → y <+: p := by
  induction i with
  | zero => exact fun y _ _ => Nat.zero_le _
  | succ i ih =>
    have hi' : i ≤ n.length := Nat.le_of_succ_le hi
    have hlen : (n.take i).length = i := by simpa using hi'
    rw [findParentBelow]
    by_cases ht : n.take i ∈ R.names
    · rw [if_pos ht]
      refine ⟨ht, take_prefix i n, by omega, fun y _ hyn hy => ?_⟩
      exact prefix_of_prefix_length_le hyn ⟨n.drop i, take_append_drop i n⟩ (by omega)
    rw [if_neg ht]
    have hne : ∀ y ∈ R.names, y <+: n → y.length ≠ i := by
      intro y hy hyn he
      rw [prefix_iff_eq_take.mp hyn, he] at hy
      exact ht hy
    specialize ih hi'
    split at ih
    · intro y hy hyn
      have := ih y hy hyn
      have := hne y hy hyn
      omega
    · obtain ⟨hp, hpn, hlt, hmax⟩ := ih
      refine ⟨hp, hpn, by omega, fun y hy hyn hyi => hmax y hy hyn ?_⟩
      have := hne y hy hyn
      omega

lemma findParent_nearest : R.Nearest n (R.findParent n) := by
  have h := findParentBelow_spec (R := R) (le_refl n.length)
  rw [findParent]
  split at h
  next he =>
    rw [he]
    exact fun y hy hyn => absurd (h y hy hyn.1) (Nat.not_le.mpr hyn.length_lt)
  rename_i p he
  rw [he]
  obtain ⟨hp, hpn, hlt, hmax⟩ := h
  refine ⟨hp, ⟨hpn, ?_⟩, fun y hy hyn => hmax y hy hyn.1 hyn.length_lt⟩
  rintro rfl
  exact lt_irrefl _ hlt

lemma TreeInv.kid_iff (h : TreeInv R) (hn : n ∈ R.names) : x ∈ R.childrenOf n ↔ R.Kid n x := by
  rw [h.children n hn]
  constructor
  · rintro ⟨hx, hp⟩
    have hnear := h.parent x hx
    rw [hp] at hnear
    exact ⟨hx, hnear.2.1, fun y hy hny hyx => hny.not_isPrefix (hnear.2.2 y hy hyx)⟩
  · rintro ⟨hx, hnx, hmin⟩
    refine ⟨hx, (h.parent x hx).unique ⟨hn, hnx, fun y hy hyx => ?_⟩⟩
    exact (Under.total hyx.1 hnx.1).resolve_right fun hu => hmin y hy hu hyx

lemma TreeInv.kid_of_new_iff (h : TreeInv R) (hn : n ∉ R.names) (hx : x ∈ R.names)
    (hnx : Under n x) : R.parentOf x = R.findParent n ↔ R.Kid n x := by
  have hnear := findParent_nearest (R := R) (n := n)
  have hpx := h.parent x hx
  constructor
  · intro he
    rw [he] at hpx
    refine ⟨hx, hnx, fun y hy hny hyx => ?_⟩
    cases hf : R.findParent n with
    | none =>
      rw [hf] at hpx
      exact hpx y hy hyx
    | some q =>
      rw [hf] at hpx hnear
      exact hnear.2.1.not_isPrefix (hny.1.trans (hpx.2.2 y hy hyx))
  rintro ⟨-, -, hmin⟩
  refine hpx.unique ?_
  have hle : ∀ y ∈ R.names, Under y x → Under y n := by
    intro y hy hyx
    refine ⟨(Under.total hyx.1 hnx.1).resolve_right fun hu => hmin y hy hu hyx, ?_⟩
    rintro rfl
    exact hn hy
  cases hf : R.findParent n with
  | none =>
    rw [hf] at hnear
    exact fun y hy hyx => hnear y hy (hle y hy hyx)
  | some q =>
    rw [hf] at hnear
    exact ⟨hnear.1, hnear.2.1.trans_isPrefix hnx.1, fun y hy hyx => hnear.2.2 y hy (hle y hy hyx)⟩

lemma findDescendants_spec (hs : R.names.Pairwise (· < ·)) (hn : n ∈ R.names) :
    (∀ x, x ∈ R.findDescendants n ↔ x ∈ R.names ∧ Under n x) ∧ (R.findDescendants n).Nodup := by
  obtain ⟨l, l', he⟩ := append_of_mem hn
  rw [he] at hs
  obtain ⟨-, hl', hll⟩ := pairwise_append.mp hs
  obtain ⟨hnl, hl'⟩ := pairwise_cons.mp hl'
  have hd : R.findDescendants n = l'.takeWhile (n.isPrefixOf ·) := by
    rw [findDescendants, he, dropWhile_append_of_pos fun a ha => ?_,
      dropWhile_cons_of_neg (by simp), drop_one, tail_cons]
    simpa using (hll a ha n (by simp)).ne
  rw [hd]
  refine ⟨fun x => ?_, (hl'.sublist (takeWhile_sublist _)).imp fun h => ne_of_lt h⟩
  rw [mem_takeWhile_isPrefix hl' hnl, he]
  constructor
  · rintro ⟨hx, hp⟩
    exact ⟨by simp [hx], hp, (hnl x hx).ne⟩
  rintro ⟨hx, hnx⟩
  refine ⟨?_, hnx.1⟩
  rcases mem_append.mp hx with hx | hx
  · exact absurd (hll x hx n (by simp)) (not_lt_of_isPrefix hnx.1)
  · exact (mem_cons.mp hx).resolve_left hnx.2.symm

section Links

variable {c : Name C} {e : RibEntry C} {M : Name C → Prop} {P : Option (Name C)}
  {D : List (Name C)}

lemma parentOf_setEntry : (R.setEntry n e).parentOf = update R.parentOf n e.parent :=
  Function.comp_update RibEntry.parent R.entries n e

lemma childrenOf_setEntry : (R.setEntry n e).childrenOf = update R.childrenOf n e.children :=
  Function.comp_update RibEntry.children R.entries n e

lemma dataOf_setEntry : (R.setEntry n e).dataOf = update R.dataOf n (unlinked e) :=
  Function.comp_update unlinked R.entries n e

@[simp] lemma parentOf_addChild :
    (R.addChild n c).parentOf = update R.parentOf c (some n) := by
  rw [addChild, parentOf_setEntry]
  exact (update_eq_self n _).trans parentOf_setEntry

@[simp] lemma childrenOf_addChild :
    (R.addChild n c).childrenOf = update R.childrenOf n (R.childrenOf n ++ [c]) := by
  have hc : (R.setEntry c { R.entries c with parent := some n }).childrenOf = R.childrenOf :=
    childrenOf_setEntry.trans (update_eq_self c _)
  rw [addChild, childrenOf_setEntry, hc]
  exact congrArg (fun f => update R.childrenOf n (f n ++ [c])) hc

@[simp] lemma dataOf_addChild : (R.addChild n c).dataOf = R.dataOf := by
  rw [addChild, dataOf_setEntry]
  exact (update_eq_self n _).trans (dataOf_setEntry.trans (update_eq_self c _))

@[simp] lemma parentOf_removeChild :
    (R.removeChild n c).parentOf = update R.parentOf c none := by
  rw [removeChild, parentOf_setEntry]
  exact (update_eq_self n _).trans parentOf_setEntry

@[simp] lemma childrenOf_removeChild : (R.removeChild n c).childrenOf =
    update R.childrenOf n ((R.childrenOf n).filter (· != c)) := by
  have hc : (R.setEntry c { R.entries c with parent := none }).childrenOf = R.childrenOf :=
    childrenOf_setEntry.trans (update_eq_self c _)
  rw [removeChild, childrenOf_setEntry, hc]
  exact congrArg (fun f => update R.childrenOf n ((f n).filter (· != c))) hc

@[simp] lemma dataOf_removeChild : (R.removeChild n c).dataOf = R.dataOf := by
  rw [removeChild, dataOf_setEntry]
  exact (update_eq_self n _).trans (dataOf_setEntry.trans (update_eq_self c _))

section

variable (h : ∀ x, M x ↔ x = c)
include h

lemma moved_addChild : Moved R (R.addChild n c) M none (some n) where
  names := rfl
  faceMap := rfl
  data := dataOf_addChild
  parent_moved x hx := by simp [(h x).mp hx]
  parent_other x hx := by simp [mt (h x).mpr hx]
  children y x := by
    by_cases hy : y = n
    · subst hy
      simp [h x]
    · simp [hy, Ne.symm hy]

lemma moved_removeChild :
    Moved R (R.removeChild n c) M (some n) none where
  names := rfl
  faceMap := rfl
  data := dataOf_removeChild
  parent_moved x hx := by simp [(h x).mp hx]
  parent_other x hx := by simp [mt (h x).mpr hx]
  children y x := by
    by_cases hy : y = n
    · subst hy
      simp [h x]
    · simp [hy, Ne.symm hy]

lemma addToParent_moved (hc : R.parentOf c = none) : Moved R (R.addToParent P c) M none P := by
  cases P with
  | none =>
    refine ⟨rfl, rfl, rfl, fun x hx => ?_, fun _ _ => rfl, fun y x => by simp [addToParent]⟩
    rw [(h x).mp hx]
    exact hc
  | some p => exact moved_addChild h

lemma removeFromParent_moved (hc : R.parentOf c = P) :
    Moved R (R.removeFromParent P c) M P none := by
  cases P with
  | none =>
    refine ⟨rfl, rfl, rfl, fun x hx => ?_, fun _ _ => rfl, fun y x => by simp [removeFromParent]⟩
    rw [(h x).mp hx]
    exact hc
  | some p => exact moved_removeChild h

end

lemma adopt_moved : Moved R (adopt P n R c) (fun x => x = c ∧ R.parentOf x = P) P (some n) := by
  unfold adopt
  split
  next hc =>
    have hM : ∀ x, x = c ∧ R.parentOf x = P ↔ x = c := fun x =>
      ⟨And.left, fun hx => ⟨hx, hx ▸ hc⟩⟩
    exact (removeFromParent_moved hM hc).then_in (moved_addChild hM)
  next hc =>
    exact moved_nothing fun x hx => hc (hx.1 ▸ hx.2)

lemma foldl_adopt_moved (hD : D.Nodup) (hP : P ≠ some n) :
    Moved R (D.foldl (adopt P n) R) (fun x => x ∈ D ∧ R.parentOf x = P) P (some n) := by
  induction D generalizing R with
  | nil => exact moved_nothing fun x hx => not_mem_nil hx.1
  | cons c D ih =>
    obtain ⟨hc, hD⟩ := nodup_cons.mp hD
    have hstep := adopt_moved (R := R) (P := P) (n := n) (c := c)
    refine (hstep.trans (ih hD) hP).congr fun x => ?_
    by_cases hx : x = c
    · simp [hx, hc]
    · simp [hx, hstep.parent_other x fun h => hx h.1]

lemma moveUp_moved : Moved R (moveUp P n R c) (· = c) (some n) P :=
  (moved_removeChild fun _ => Iff.rfl).then_in
    (addToParent_moved (fun _ => Iff.rfl) (by simp))

lemma foldl_moveUp_moved (hP : P ≠ some n) :
    Moved R (D.foldl (moveUp P n) R) (· ∈ D) (some n) P := by
  induction D generalizing R with
  | nil => exact moved_nothing fun x hx => not_mem_nil hx
  | cons c D ih => exact (moveUp_moved.trans ih hP.symm).congr fun x => by simp

end Links

lemma orderedInsert_pairwise {l : List (Name C)} (hl : l.Pairwise (· < ·)) (hn : n ∉ l) :
    (l.orderedInsert (· ≤ ·) n).Pairwise (· < ·) := by
  induction l with
  | nil => simp
  | cons b l ih =>
    obtain ⟨hb, hl'⟩ := pairwise_cons.mp hl
    obtain ⟨hnb, hnl⟩ := not_or.mp (mt mem_cons.mpr hn)
    rw [orderedInsert_cons]
    split
    next hle =>
      have hlt : n < b := lt_of_le_of_ne hle hnb
      refine pairwise_cons.mpr ⟨fun y hy => ?_, hl⟩
      rcases mem_cons.mp hy with rfl | hy
      · exact hlt
      · exact hlt.trans (hb y hy)
    next hle =>
      refine pairwise_cons.mpr ⟨fun y hy => ?_, ih hl' hnl⟩
      rcases (mem_orderedInsert _).mp hy with rfl | hy
      · exact not_le.mp hle
      · exact hb y hy

structure Inserted (R R' : Rib C) (n : Name C) (route : Route) : Prop where
  mem_names : ∀ x, x ∈ R'.names ↔ x = n ∨ x ∈ R.names
  data_self : R'.dataOf n = ({ name := n } : RibEntry C).insertRoute route
  data_other : ∀ x, x ≠ n → R'.dataOf x = R.dataOf x
  faceMap : R'.faceMap = update R.faceMap route.faceId (R.faceMap route.faceId ++ [n])

structure PutBetween (R R' : Rib C) (n : Name C) : Prop where
  parent_self : R'.parentOf n = R.findParent n
  parent_kid : ∀ x, R.Kid n x → R'.parentOf x = some n
  parent_other : ∀ x ∈ R.names, ¬ R.Kid n x → R'.parentOf x = R.parentOf x
  children_self : ∀ x, x ∈ R'.childrenOf n ↔ R.Kid n x
  children_other : ∀ y ∈ R.names, ∀ x, x ∈ R'.childrenOf y ↔
    (x ∈ R.childrenOf y ∧ ¬ (R.Kid n x ∧ R.findParent n = some y)) ∨
      (x = n ∧ R.findParent n = some y)

lemma findParent_ne_self : R.findParent n ≠ some n := by
  intro he
  have hnear := findParent_nearest (R := R) (n := n)
  rw [he] at hnear
  exact hnear.2.1.2 rfl

lemma mem_withEntry {route : Route} : x ∈ (R.withEntry n route).names ↔ x = n ∨ x ∈ R.names :=
  mem_orderedInsert _

lemma findParent_withEntry {route : Route} : (R.withEntry n route).findParent n = R.findParent n :=
  findParent_nearest.unique (findParent_nearest.congr fun y hy => by simp [mem_withEntry, hy.2])

lemma insertEntry_spec (h : TreeInv R) (hn : n ∉ R.names) (route : Route) :
    Inserted R (R.insertEntry n route) n route ∧ PutBetween R (R.insertEntry n route) n ∧
      (R.insertEntry n route).names.Pairwise (· < ·) := by
  set P := R.findParent n with hP
  set R₁ := R.withEntry n route with hR₁
  set R₂ := R₁.addToParent P n with hR₂
  set R₃ := (R₂.findDescendants n).foldl (adopt P n) R₂ with hR₃
  have hsorted := orderedInsert_pairwise h.sorted hn
  have hpar₁ : R₁.parentOf = update R.parentOf n none :=
    Function.comp_update RibEntry.parent R.entries n _
  have hkids₁ : R₁.childrenOf = update R.childrenOf n [] :=
    Function.comp_update RibEntry.children R.entries n _
  have hdata₁ : R₁.dataOf =
      update R.dataOf n (({ name := n } : RibEntry C).insertRoute route) :=
    Function.comp_update unlinked R.entries n _
  have hlink : Moved R₁ R₂ (· = n) none P := addToParent_moved (fun _ => Iff.rfl) (by simp [hpar₁])
  obtain ⟨hdesc, hnodup⟩ := findDescendants_spec
    (by rw [hlink.names]; exact hsorted) (by rw [hlink.names]; exact mem_withEntry.mpr (.inl rfl))
  have hadopt : Moved R₂ R₃ _ P (some n) := foldl_adopt_moved hnodup (findParent_ne_self (n := n))
  have hpar₂ : ∀ x, x ≠ n → R₂.parentOf x = R.parentOf x := fun x hx =>
    (hlink.parent_other x hx).trans (by rw [hpar₁, update_of_ne hx])
  -- the adopted entries are the kids of the new one
  have hkid : ∀ x, x ∈ R₂.findDescendants n ∧ R₂.parentOf x = P ↔ R.Kid n x := by
    intro x
    rw [hdesc, hlink.names, mem_withEntry]
    constructor
    · rintro ⟨⟨hx, hnx⟩, hp⟩
      have hx' := hx.resolve_left hnx.2.symm
      exact (h.kid_of_new_iff hn hx' hnx).mp ((hpar₂ x hnx.2.symm).symm.trans hp)
    · rintro hk
      refine ⟨⟨.inr hk.1, hk.2.1⟩, (hpar₂ x hk.2.1.2.symm).trans ?_⟩
      exact (h.kid_of_new_iff hn hk.1 hk.2.1).mpr hk
  have hadopt := hadopt.congr hkid
  have hself : ¬ R.Kid n n := fun hk => hk.2.1.2 rfl
  have heq : R.insertEntry n route = { R₃ with
      faceMap := update R₃.faceMap route.faceId (R₃.faceMap route.faceId ++ [n]) } := by
    rw [insertEntry, ← hR₁, hR₁, findParent_withEntry]
  have hface : R₃.faceMap = R.faceMap := hadopt.faceMap.trans hlink.faceMap
  have hdata : R₃.dataOf = _ := hadopt.data.trans (hlink.data.trans hdata₁)
  rw [heq]
  refine ⟨⟨fun x => ?_, ?_, fun x hx => ?_, by simp only [hface]⟩,
    ⟨?_, fun x hk => ?_, fun x hx hk => ?_, fun x => ?_, fun y hy x => ?_⟩, ?_⟩
  · change x ∈ R₃.names ↔ _
    rw [hadopt.names, hlink.names, mem_withEntry]
  · change R₃.dataOf n = _
    rw [hdata, update_self]
  · change R₃.dataOf x = _
    rw [hdata, update_of_ne hx]
  · exact (hadopt.parent_other n hself).trans (hlink.parent_moved n rfl)
  · exact hadopt.parent_moved x hk
  · refine (hadopt.parent_other x hk).trans (hpar₂ x ?_)
    rintro rfl
    exact hn hx
  · change x ∈ R₃.childrenOf n ↔ _
    rw [hadopt.children, hlink.children, hkids₁]
    have hPn : P ≠ some n := findParent_ne_self
    simp [hPn]
  · change x ∈ R₃.childrenOf y ↔ _
    have hyn : y ≠ n := fun he => hn (he ▸ hy)
    rw [hadopt.children, hlink.children, hkids₁, update_of_ne hyn]
    simp only [some.injEq, Ne.symm hyn, and_false, or_false, reduceCtorEq, not_false_eq_true,
      and_true]
    rw [← hP]
    by_cases hx : x = n
    · simp [hx, hself]
    · simp [hx]
  · change R₃.names.Pairwise _
    rw [hadopt.names, hlink.names]
    exact hsorted

lemma TreeInv.insertEntry (h : TreeInv R) (hn : n ∉ R.names) (route : Route) :
    TreeInv (R.insertEntry n route) := by
  obtain ⟨hins, hlinks, hsorted⟩ := insertEntry_spec h hn route
  set R' := R.insertEntry n route
  have hnear := findParent_nearest (R := R) (n := n)
  refine ⟨hsorted, fun x hx => ?_, fun x hx => ?_, fun y hy x => ?_⟩
  · rcases (hins.mem_names x).mp hx with rfl | hx
    · exact congrArg RibEntry.name hins.data_self
    by_cases hxn : x = n
    · exact absurd (hxn ▸ hx) hn
    · exact (congrArg RibEntry.name (hins.data_other x hxn)).trans (h.name_eq x hx)
  · rcases (hins.mem_names x).mp hx with rfl | hx
    · rw [hlinks.parent_self]
      exact hnear.congr fun y hy => by simp [hins.mem_names, hy.2]
    by_cases hk : R.Kid n x
    · rw [hlinks.parent_kid x hk]
      refine ⟨(hins.mem_names n).mpr (.inl rfl), hk.2.1, fun y hy hyx => ?_⟩
      rcases (hins.mem_names y).mp hy with rfl | hy
      · exact prefix_rfl
      · exact (Under.total hyx.1 hk.2.1.1).resolve_right fun hu => hk.2.2 y hy hu hyx
    rw [hlinks.parent_other x hx hk]
    have hpx := h.parent x hx
    by_cases hnx : Under n x
    · -- some entry lies between, and the parent is not above it
      obtain ⟨y, hy, hny, hyx⟩ : ∃ y ∈ R.names, Under n y ∧ Under y x := by
        by_contra hno
        exact hk ⟨hx, hnx, fun y hy hny hyx => hno ⟨y, hy, hny, hyx⟩⟩
      cases hq : R.parentOf x with
      | none =>
        rw [hq] at hpx
        exact absurd hyx (hpx y hy)
      | some q =>
        rw [hq] at hpx
        refine ⟨(hins.mem_names q).mpr (.inr hpx.1), hpx.2.1, fun z hz hzx => ?_⟩
        rcases (hins.mem_names z).mp hz with rfl | hz
        · exact hny.1.trans (hpx.2.2 y hy hyx)
        · exact hpx.2.2 z hz hzx
    · refine hpx.congr fun y hy => ?_
      rw [hins.mem_names, or_iff_right]
      rintro rfl
      exact hnx hy
  · rcases (hins.mem_names y).mp hy with rfl | hy
    · rw [hlinks.children_self, hins.mem_names]
      constructor
      · exact fun hk => ⟨.inr hk.1, hlinks.parent_kid x hk⟩
      rintro ⟨rfl | hx, hp⟩
      · exact absurd (hlinks.parent_self.symm.trans hp) findParent_ne_self
      by_contra hk
      rw [hlinks.parent_other x hx hk] at hp
      have hpx := h.parent x hx
      rw [hp] at hpx
      exact hn hpx.1
    have hyn : y ≠ n := fun he => hn (he ▸ hy)
    rw [hlinks.children_other y hy, hins.mem_names, h.children y hy]
    constructor
    · rintro (⟨⟨hx, hp⟩, hk⟩ | ⟨rfl, hp⟩)
      · refine ⟨.inr hx, (hlinks.parent_other x hx fun hkid => hk ⟨hkid, ?_⟩).trans hp⟩
        exact ((h.kid_of_new_iff hn hx hkid.2.1).mpr hkid).symm.trans hp
      · exact ⟨.inl rfl, hlinks.parent_self.trans hp⟩
    rintro ⟨rfl | hx, hp⟩
    · exact .inr ⟨rfl, hlinks.parent_self.symm.trans hp⟩
    by_cases hk : R.Kid n x
    · rw [hlinks.parent_kid x hk] at hp
      exact absurd (some.inj hp).symm hyn
    · rw [hlinks.parent_other x hx hk] at hp
      exact .inl ⟨⟨hx, hp⟩, fun hkid => hk hkid.1⟩

lemma TreeInv.setEntry (h : TreeInv R) {e : RibEntry C} (hname : e.name = (R.entries n).name)
    (hp : e.parent = R.parentOf n) (hc : e.children = R.childrenOf n) :
    TreeInv (R.setEntry n e) := by
  have hpar : (R.setEntry n e).parentOf = R.parentOf := by
    rw [parentOf_setEntry, hp, update_eq_self]
  have hkids : (R.setEntry n e).childrenOf = R.childrenOf := by
    rw [childrenOf_setEntry, hc, update_eq_self]
  refine ⟨h.sorted, fun x hx => ?_, fun x hx => ?_, fun y hy x => ?_⟩
  · refine Eq.trans ?_ (h.name_eq x hx)
    by_cases hxn : x = n
    · simp [Rib.setEntry, hxn, hname]
    · simp [Rib.setEntry, hxn]
  · rw [hpar]
    exact h.parent x hx
  · rw [hpar, hkids]
    exact h.children y hy x

lemma TreeInv.nodup (h : TreeInv R) : R.names.Nodup := h.sorted.imp fun hlt => ne_of_lt hlt

lemma TreeInv.parent_ne_self (h : TreeInv R) (hn : n ∈ R.names) : R.parentOf n ≠ some n := by
  intro he
  have hnear := h.parent n hn
  rw [he] at hnear
  exact hnear.2.1.2 rfl

structure Erased (R R' : Rib C) (n : Name C) : Prop where
  names : R'.names = R.names.erase n
  data : R'.dataOf = R.dataOf
  faceMap : R'.faceMap = R.faceMap
  parent_kid : ∀ x ∈ R.childrenOf n, R'.parentOf x = R.parentOf n
  parent_other : ∀ x, x ≠ n → x ∉ R.childrenOf n → R'.parentOf x = R.parentOf x
  children : ∀ y, y ≠ n → ∀ x, x ∈ R'.childrenOf y ↔
    (x ∈ R.childrenOf y ∧ ¬ (x = n ∧ R.parentOf n = some y)) ∨
      (x ∈ R.childrenOf n ∧ R.parentOf n = some y)

lemma eraseEntry_spec (h : TreeInv R) (hn : n ∈ R.names) : Erased R (R.eraseEntry n) n := by
  have hcut : Moved R (R.removeFromParent (R.parentOf n) n) (· = n) (R.parentOf n) none :=
    removeFromParent_moved (fun _ => Iff.rfl) rfl
  have hup := foldl_moveUp_moved (R := R.removeFromParent (R.parentOf n) n)
    (D := R.childrenOf n) (h.parent_ne_self hn)
  set R₂ := (R.childrenOf n).foldl (moveUp (R.parentOf n) n) (R.removeFromParent (R.parentOf n) n)
  refine ⟨?_, hup.data.trans hcut.data, hup.faceMap.trans hcut.faceMap,
    hup.parent_moved, fun x hx hc => ?_, fun y hy x => ?_⟩
  · change R₂.names.erase n = _
    rw [hup.names, hcut.names]
  · exact (hup.parent_other x hc).trans (hcut.parent_other x hx)
  change x ∈ R₂.childrenOf y ↔ _
  rw [hup.children, hcut.children]
  simp [Ne.symm hy]

lemma Erased.mem_names {R' : Rib C} (her : Erased R R' n) (h : TreeInv R) (x : Name C) :
    x ∈ R'.names ↔ x ≠ n ∧ x ∈ R.names := by
  rw [her.names, h.nodup.mem_erase_iff]

lemma TreeInv.eraseEntry (h : TreeInv R) (hn : n ∈ R.names) : TreeInv (R.eraseEntry n) := by
  have her := eraseEntry_spec h hn
  have hmem := her.mem_names h
  have hnear := h.parent n hn
  have hself : n ∉ R.childrenOf n := fun hc =>
    h.parent_ne_self hn ((h.children n hn n).mp hc).2
  refine ⟨?_, fun x hx => ?_, fun x hx => ?_, fun y hy x => ?_⟩
  · rw [her.names]
    exact h.sorted.sublist erase_sublist
  · exact (congrArg RibEntry.name (congrFun her.data x)).trans (h.name_eq x ((hmem x).mp hx).2)
  · obtain ⟨hxn, hx'⟩ := (hmem x).mp hx
    have hpx := h.parent x hx'
    by_cases hc : x ∈ R.childrenOf n
    · rw [her.parent_kid x hc]
      rw [((h.children n hn x).mp hc).2] at hpx
      have hup : ∀ y ∈ (R.eraseEntry n).names, Under y x → y ∈ R.names ∧ Under y n := by
        intro y hy hyx
        obtain ⟨hyn, hy⟩ := (hmem y).mp hy
        exact ⟨hy, hpx.2.2 y hy hyx, hyn⟩
      cases hp : R.parentOf n with
      | none =>
        rw [hp] at hnear
        exact fun y hy hyx => hnear y (hup y hy hyx).1 (hup y hy hyx).2
      | some p =>
        rw [hp] at hnear
        refine ⟨(hmem p).mpr ⟨hnear.2.1.2, hnear.1⟩, hnear.2.1.trans_isPrefix hpx.2.1.1,
          fun y hy hyx => hnear.2.2 y (hup y hy hyx).1 (hup y hy hyx).2⟩
    · rw [her.parent_other x hxn hc]
      cases hp : R.parentOf x with
      | none =>
        rw [hp] at hpx
        exact fun y hy hyx => hpx y ((hmem y).mp hy).2 hyx
      | some q =>
        rw [hp] at hpx
        have hqn : q ≠ n := by
          rintro rfl
          exact hc ((h.children q hn x).mpr ⟨hx', hp⟩)
        exact ⟨(hmem q).mpr ⟨hqn, hpx.1⟩, hpx.2.1, fun y hy hyx => hpx.2.2 y ((hmem y).mp hy).2 hyx⟩
  · obtain ⟨hyn, hy⟩ := (hmem y).mp hy
    rw [her.children y hyn, hmem, h.children y hy, h.children n hn]
    constructor
    · rintro (⟨⟨hx, hp⟩, hno⟩ | ⟨⟨hx, hp⟩, hy'⟩)
      · have hxn : x ≠ n := fun he => hno ⟨he, he ▸ hp⟩
        refine ⟨⟨hxn, hx⟩, (her.parent_other x hxn fun hc => ?_).trans hp⟩
        exact hyn (some.inj (hp.symm.trans ((h.children n hn x).mp hc).2))
      · have hc := (h.children n hn x).mpr ⟨hx, hp⟩
        exact ⟨⟨fun he => hself (he ▸ hc), hx⟩, (her.parent_kid x hc).trans hy'⟩
    · rintro ⟨⟨hxn, hx⟩, hp⟩
      by_cases hc : x ∈ R.childrenOf n
      · exact .inr ⟨(h.children n hn x).mp hc, (her.parent_kid x hc).symm.trans hp⟩
      · exact .inl ⟨⟨hx, (her.parent_other x hxn hc).symm.trans hp⟩, fun hno => hxn hno.1⟩

end NfdGateway.Rib
