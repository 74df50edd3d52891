import NfdGateway.NameTree.Refinement

/-! Longest prefix match: what the search by prefix hashes returns, when that is the longest
selected prefix, and what the iterator over all matches makes of it. -/
namespace NfdGateway

open List Transition

section Hashes

variable {C : Type} (hash : C → Hash)

lemma computeHashSet_eq (name : Name C) :
    computeHashSet hash name =
      (List.range (name.length + 1)).map fun i => computeHash hash (name.take i) := by
  suffices hboth : name.foldl (fun s c => (s.1 ^^^ hash c, s.2 ++ [s.1 ^^^ hash c]))
      ((0 : Hash), [0]) = (computeHash hash name,
        (List.range (name.length + 1)).map fun i => computeHash hash (name.take i)) by
    rw [computeHashSet, hboth]
  induction name using List.reverseRecOn with
  | nil => simp [computeHash]
  | append_singleton l c ih =>
    rw [foldl_append, ih, foldl_cons, foldl_nil]
    have hlast : computeHash hash (l ++ [c]) = computeHash hash l ^^^ hash c := by
      simp [computeHash]
    have hfirst : (List.range (l.length + 1)).map (fun i => computeHash hash ((l ++ [c]).take i)) =
        (List.range (l.length + 1)).map fun i => computeHash hash (l.take i) := by
      refine map_congr_left fun i hi => ?_
      rw [take_append_of_le_length (Nat.lt_succ_iff.mp (mem_range.mp hi))]
    have htake : (l ++ [c]).take (l.length + 1) = l ++ [c] := take_of_length_le (by simp)
    rw [length_append, length_singleton, range_succ (n := l.length + 1), map_append, hfirst, hlast]
    simp [htake, hlast]

lemma findSome?_range_reverse {α : Type} (f : ℕ → Option α) (n : ℕ) :
    ((List.range n).reverse.findSome? f = none ∧ ∀ i < n, f i = none) ∨
    ∃ i < n, ∃ x, (List.range n).reverse.findSome? f = some x ∧ f i = some x ∧
      ∀ j, i < j → j < n → f j = none := by
  induction n with
  | zero => simp
  | succ n ih =>
    rw [range_succ, reverse_append, reverse_singleton, singleton_append, findSome?_cons]
    cases hf : f n with
    | some x => exact .inr ⟨n, by omega, x, rfl, hf, fun j h1 h2 => by omega⟩
    | none =>
      rcases ih with ⟨he, hall⟩ | ⟨i, hi, x, he, hx, hall⟩
      · refine .inl ⟨he, fun i hi => ?_⟩
        rcases Nat.lt_succ_iff_lt_or_eq.mp hi with hi | rfl
        · exact hall i hi
        · exact hf
      · refine .inr ⟨i, by omega, x, he, hx, fun j h1 h2 => ?_⟩
        rcases Nat.lt_succ_iff_lt_or_eq.mp h2 with h2 | rfl
        · exact hall j h1 h2
        · exact hf

end Hashes

namespace NameTree

variable {C : Type} {hash : C → Hash} {T : NameTree C} {name : Name C}
  {entrySelector : TreeEntry C → Bool} {x y z : EntryId}

structure Candidate (T : NameTree C) (entrySelector : TreeEntry C → Bool) (name : Name C)
    (x : EntryId) : Prop where
  linked : x ∈ T.linked
  pfx : (T.entries x).pfx <+: name
  selected : entrySelector (T.entries x) = true

def IsLongest (T : NameTree C) (entrySelector : TreeEntry C → Bool) (name : Name C) :
    Option EntryId → Prop
  | none => ∀ y, ¬ T.Candidate entrySelector name y
  | some x => T.Candidate entrySelector name x ∧ ∀ y, T.Candidate entrySelector name y →
      (T.entries y).pfx.length ≤ (T.entries x).pfx.length

lemma eq_of_length_eq {p q : Name C} (hp : p <+: name) (hq : q <+: name)
    (h : p.length = q.length) : p = q :=
  (prefix_of_prefix_length_le hp hq h.le).eq_of_length h

lemma isLongest_unique (h : TreeInv hash T) {r r' : Option EntryId}
    (hr : T.IsLongest entrySelector name r) (hr' : T.IsLongest entrySelector name r') :
    r = r' := by
  cases r with
  | none =>
    cases r' with
    | none => rfl
    | some y => exact absurd hr'.1 (hr y)
  | some x =>
    cases r' with
    | none => exact absurd hr.1 (hr' x)
    | some y =>
      have hlen := le_antisymm (hr'.2 x hr.1) (hr.2 y hr'.1)
      have hpfx := eq_of_length_eq hr.1.pfx hr'.1.pfx hlen
      rw [h.unique x hr.1.linked y hr'.1.linked hpfx]

lemma exists_isLongest (hc : T.Candidate entrySelector name y) :
    ∃ x, T.IsLongest entrySelector name (some x) := by
  classical
  obtain ⟨x, hx, hmax⟩ := Finset.exists_max_image
    (T.linked.toFinset.filter fun z => T.Candidate entrySelector name z)
    (fun z => (T.entries z).pfx.length) ⟨y, by simp [hc, hc.linked]⟩
  refine ⟨x, (Finset.mem_filter.mp hx).2, fun z hz => hmax z ?_⟩
  simp [hz, hz.linked]

lemma matchAt_none [DecidableEq C] (h : Inv hash T) {k : Hash}
    (hm : T.matchAt name entrySelector k = none) (hc : T.Candidate entrySelector name y) :
    (T.entries y).hash ≠ k := by
  rintro rfl
  have hy := h.placed.mem_flatten.mp hc.linked
  have hno := find?_eq_none.mp hm y hy
  simp [hc.pfx, hc.selected] at hno

lemma matchAt_some [DecidableEq C] (h : Inv hash T) {k : Hash}
    (hm : T.matchAt name entrySelector k = some x) :
    T.Candidate entrySelector name x ∧ (T.entries x).hash = k ∧
      ∀ y, T.Candidate entrySelector name y → (T.entries y).hash = k →
        (T.entries x).pfx.length ≤ (T.entries y).pfx.length := by
  obtain ⟨hx, as, bs, hb, has⟩ := find?_eq_some_iff_append.mp hm
  obtain ⟨rfl, hpfx, hsel⟩ : (T.entries x).hash = k ∧ (T.entries x).pfx <+: name ∧
    entrySelector (T.entries x) = true := by simpa using hx
  have hxl : x ∈ T.linked := mem_linked_of_bucket (mem_of_find?_eq_some hm)
  refine ⟨⟨hxl, hpfx, hsel⟩, rfl, ?_⟩
  intro y hy hhash
  have hyb : y ∈ T.bucket (T.entries x).hash := by
    rw [← hhash]
    exact h.placed.mem_flatten.mp hy.linked
  have hord : (as ++ x :: bs).Pairwise T.Before := hb ▸ h.ordered _
  rw [hb] at hyb
  rcases mem_append.mp hyb with hya | hyx
  · have hno := has y hya
    simp [hhash, hy.pfx, hy.selected] at hno
  rcases mem_cons.mp hyx with rfl | hyb
  · exact le_refl _
  -- behind `x` in the chain, so no prefix of it
  by_contra hlt
  have hbefore := rel_of_pairwise_cons (pairwise_append.mp hord).2.1 hyb
  exact hbefore hhash.symm (prefix_of_prefix_length_le hy.pfx hpfx (by omega))

lemma findLongestPrefixMatch_spec [DecidableEq C] (h : Inv hash T) (name : Name C)
    (entrySelector : TreeEntry C → Bool) :
    (T.findLongestPrefixMatch hash name entrySelector = none ∧
      ∀ y, ¬ T.Candidate entrySelector name y) ∨
    ∃ x i, T.findLongestPrefixMatch hash name entrySelector = some x ∧ i ≤ name.length ∧
      T.Candidate entrySelector name x ∧ (T.entries x).hash = computeHash hash (name.take i) ∧
      (∀ y, T.Candidate entrySelector name y → (T.entries y).hash = (T.entries x).hash →
        (T.entries x).pfx.length ≤ (T.entries y).pfx.length) ∧
      ∀ y, T.Candidate entrySelector name y → ∀ j, i < j → j ≤ name.length →
        (T.entries y).hash ≠ computeHash hash (name.take j) := by
  have hsearch : T.findLongestPrefixMatch hash name entrySelector =
      (List.range (name.length + 1)).reverse.findSome?
        fun i => T.matchAt name entrySelector (computeHash hash (name.take i)) := by
    rw [findLongestPrefixMatch, computeHashSet_eq, ← map_reverse, findSome?_map]
    rfl
  rw [hsearch]
  rcases findSome?_range_reverse
      (fun i => T.matchAt name entrySelector (computeHash hash (name.take i)))
      (name.length + 1) with ⟨he, hall⟩ | ⟨i, hi, x, he, hx, hall⟩
  · refine .inl ⟨he, fun y hy => ?_⟩
    have hlen := Nat.lt_succ_of_le hy.pfx.length_le
    refine matchAt_none h (hall _ hlen) hy ?_
    rw [← prefix_iff_eq_take.mp hy.pfx]
    exact h.hash_eq y hy.linked
  obtain ⟨hc, hhash, hshort⟩ := matchAt_some h hx
  refine .inr ⟨x, i, he, by omega, hc, hhash, ?_, ?_⟩
  · intro y hy hyx
    exact hshort y hy (hyx.trans hhash)
  · intro y hy j hij hj
    exact matchAt_none h (hall j hij (by omega)) hy

/-- Wherever a prefix of the name has the hash of a candidate that is not the longest, a
longer prefix has the hash of the longest. -/
def HashesTell (hash : C → Hash) (T : NameTree C) (entrySelector : TreeEntry C → Bool)
    (name : Name C) : Prop :=
  ∀ x, T.IsLongest entrySelector name (some x) → ∀ y, T.Candidate entrySelector name y →
    (T.entries y).pfx.length < (T.entries x).pfx.length →
    ∀ i ≤ name.length, computeHash hash (name.take i) = (T.entries y).hash →
      ∃ j, i < j ∧ j ≤ name.length ∧ computeHash hash (name.take j) = (T.entries x).hash

lemma isLongest_findLongestPrefixMatch_iff [DecidableEq C] (h : Inv hash T) :
    T.IsLongest entrySelector name (T.findLongestPrefixMatch hash name entrySelector) ↔
      T.HashesTell hash entrySelector name := by
  rcases findLongestPrefixMatch_spec h name entrySelector with
    ⟨he, hno⟩ | ⟨x, i, he, hi, hc, hhash, hshort, hhigh⟩
  · rw [he]
    exact iff_of_true hno fun x hx => absurd hx.1 (hno x)
  rw [he]
  constructor
  · intro hx x' hx' y hy hlt k hk hky
    obtain rfl : x' = x := Option.some.inj (isLongest_unique h.toTreeInv hx' hx)
    rcases lt_trichotomy k i with hki | rfl | hik
    · exact ⟨i, hki, hi, hhash.symm⟩
    · have := hshort y hy (hky.symm.trans hhash.symm)
      omega
    · exact absurd hky.symm (hhigh y hy k hik hk)
  · intro htell
    obtain ⟨l, hl⟩ := exists_isLongest hc
    refine ⟨hc, fun y hy => ?_⟩
    by_contra hlt
    have hyl := hl.2 y hy
    obtain ⟨j, hij, hj, hjl⟩ := htell l hl x hc (by omega) i hi hhash.symm
    exact hhigh l hl.1 j hij hj hjl.symm

lemma walkUp_isLongest (h : TreeInv hash T) (fuel : ℕ) (hx : x ∈ T.linked)
    (hp : (T.entries x).pfx <+: name) (hfuel : (T.entries x).pfx.length < fuel)
    (hmax : ∀ y, T.Candidate entrySelector name y →
      (T.entries y).pfx.length ≤ (T.entries x).pfx.length) :
    T.IsLongest entrySelector name (walkUp T.entries entrySelector fuel (some x)) := by
  induction fuel generalizing x with
  | zero => omega
  | succ fuel ih =>
    rw [walkUp]
    split
    · exact ⟨⟨hx, hp, ‹_›⟩, hmax⟩
    rename_i hsel
    -- `x` is not selected, so a candidate is strictly shorter
    have hlt : ∀ y, T.Candidate entrySelector name y →
        (T.entries y).pfx.length < (T.entries x).pfx.length := by
      intro y hy
      refine lt_of_le_of_ne (hmax y hy) fun hlen => hsel ?_
      rw [← h.unique y hy.linked x hx (eq_of_length_eq hy.pfx hp hlen)]
      exact hy.selected
    have hh := h.hangs x hx
    cases hq : (T.entries x).parent with
    | none =>
      rw [hq] at hh
      have hroot : (T.entries x).pfx = [] := hh
      cases fuel <;> exact fun y hy => by simpa [hroot] using hlt y hy
    | some q =>
      rw [hq] at hh
      obtain ⟨hql, c, hc⟩ := hh
      rw [hc, length_append, length_singleton] at hfuel hlt
      rw [hc] at hp
      refine ih hql ((prefix_append _ _).trans hp) (by omega) fun y hy => ?_
      exact Nat.lt_succ_iff.mp (hlt y hy)

lemma isLongest_from (h : TreeInv hash T) {entry : Option EntryId}
    (entrySelector : TreeEntry C → Bool) (hs : T.IsLongest (fun _ => true) name entry) :
    T.IsLongest entrySelector name (T.findLongestPrefixMatchFrom entry entrySelector) := by
  cases entry with
  | none => exact fun y hy => hs y ⟨hy.linked, hy.pfx, rfl⟩
  | some x =>
    refine walkUp_isLongest h _ hs.1.linked hs.1.pfx (Nat.lt_succ_self _) fun y hy => ?_
    exact hs.2 y ⟨hy.linked, hy.pfx, rfl⟩

/-- The search by hashes returns the longest selected prefix, and agrees with the walk up
from the longest stored prefix, exactly when the hashes of the prefixes tell it apart. -/
theorem longest_prefix_match_iff [DecidableEq C] {n : ℕ} (hn : 0 < n) {A : Names C}
    (h : Reach (step hash) (fun s ev => ev.Ok hash s) (new n, {}) (T, A))
    (name : Name C) (entrySelector : TreeEntry C → Bool) :
    (T.IsLongest entrySelector name (T.findLongestPrefixMatch hash name entrySelector) ↔
      T.HashesTell hash entrySelector name) ∧
    ∀ entry, T.IsLongest (fun _ => true) name entry →
      (T.findLongestPrefixMatch hash name entrySelector =
          T.findLongestPrefixMatchFrom entry entrySelector ↔
        T.HashesTell hash entrySelector name) := by
  have hinv : Inv hash T := (refines_run hn h).inv
  refine ⟨isLongest_findLongestPrefixMatch_iff hinv, fun entry hentry => ?_⟩
  rw [← isLongest_findLongestPrefixMatch_iff hinv]
  have hfrom := isLongest_from hinv.toTreeInv entrySelector hentry
  exact ⟨fun he => he ▸ hfrom, fun hs => isLongest_unique hinv.toTreeInv hs hfrom⟩

/-- /A/A has the hash of the root, which comes first in their bucket. -/
theorem repeated_component_missed :
    ∃ T A, Reach (step wideHash) Any (new 8, {}) (T, A) ∧
      ¬ T.IsLongest (fun _ => true) [(), ()]
        (T.findLongestPrefixMatch wideHash [(), ()] fun _ => true) := by
  refine ⟨_, _, .step (a := .lookup [(), ()]) .init trivial rfl, ?_⟩
  intro hlong
  have hroot : ((new 8).lookup wideHash [(), ()]).1.findLongestPrefixMatch wideHash [(), ()]
      (fun _ => true) = some 0 := by decide
  exact absurd (hlong.2 2 ⟨by decide, by decide, rfl⟩) (by decide)

/-- For /A the two prefixes have different hashes. -/
theorem longest_prefix_match_single :
    ((new 8).lookup wideHash [()]).1.HashesTell wideHash (fun _ => true) [()] := by
  refine (longest_prefix_match_iff (by decide) (A := ({} : Names Unit).lookup [()])
    (.step (a := .lookup [()]) .init ?_ rfl) [()] fun _ => true).1.mp ?_
  · exact growthOk_of_room (by decide)
  have hfound : ((new 8).lookup wideHash [()]).1.findLongestPrefixMatch wideHash [()]
      (fun _ => true) = some 1 := by decide
  exact ⟨⟨by decide, by decide, rfl⟩, fun y hy => hy.pfx.length_le⟩

lemma mem_selectedAncestors (h : TreeInv hash T) (fuel : ℕ) (hx : x ∈ T.linked)
    (hfuel : (T.entries x).pfx.length ≤ fuel) :
    z ∈ selectedAncestors T.entries entrySelector fuel x ↔ z ∈ T.linked ∧
      (T.entries z).pfx <+: (T.entries x).pfx ∧
      (T.entries z).pfx.length < (T.entries x).pfx.length ∧
      entrySelector (T.entries z) = true := by
  induction fuel generalizing x with
  | zero =>
    simp only [selectedAncestors, not_mem_nil, false_iff, not_and]
    omega
  | succ fuel ih =>
    have hh := h.hangs x hx
    rw [selectedAncestors]
    cases hq : (T.entries x).parent with
    | none =>
      rw [hq] at hh
      simp [show (T.entries x).pfx = [] from hh]
    | some q =>
      rw [hq] at hh
      obtain ⟨hql, c, hc⟩ := hh
      rw [hc, length_append, length_singleton] at hfuel
      have ihq := ih hql (by omega)
      have hproper : (T.entries z).pfx <+: (T.entries x).pfx ∧
          (T.entries z).pfx.length < (T.entries x).pfx.length ↔
            (T.entries z).pfx <+: (T.entries q).pfx := by
        rw [hc, prefix_concat_iff, length_append, length_singleton]
        constructor
        · rintro ⟨he | hp, hlt⟩
          · rw [he, length_append, length_singleton] at hlt
            omega
          · exact hp
        · exact fun hp => ⟨.inr hp, Nat.lt_succ_of_le hp.length_le⟩
      rw [← and_assoc (a := _ <+: _), hproper]
      have hlt : z ∈ T.linked → (T.entries z).pfx <+: (T.entries q).pfx → z ≠ q →
          (T.entries z).pfx.length < (T.entries q).pfx.length := by
        intro hz hp hne
        refine lt_of_le_of_ne hp.length_le fun he => hne ?_
        exact h.unique z hz q hql (hp.eq_of_length he)
      by_cases hzq : z = q
      · subst hzq
        by_cases hs : entrySelector (T.entries z) = true <;> simp [hs, hql, ihq]
      have hrest : z ∈ selectedAncestors T.entries entrySelector fuel q ↔ z ∈ T.linked ∧
          (T.entries z).pfx <+: (T.entries q).pfx ∧ entrySelector (T.entries z) = true := by
        rw [ihq]
        exact ⟨fun hz => ⟨hz.1, hz.2.1, hz.2.2.2⟩,
          fun hz => ⟨hz.1, hz.2.1, hlt hz.1 hz.2.1 hzq, hz.2.2⟩⟩
      by_cases hs : entrySelector (T.entries q) = true <;> simp [hs, hzq, hrest]

lemma selectedAncestors_nodup (h : TreeInv hash T) (fuel : ℕ) (hx : x ∈ T.linked)
    (hfuel : (T.entries x).pfx.length ≤ fuel) :
    (selectedAncestors T.entries entrySelector fuel x).Nodup := by
  induction fuel generalizing x with
  | zero => exact nodup_nil
  | succ fuel ih =>
    have hh := h.hangs x hx
    rw [selectedAncestors]
    cases hq : (T.entries x).parent with
    | none => exact nodup_nil
    | some q =>
      rw [hq] at hh
      obtain ⟨hql, c, hc⟩ := hh
      rw [hc, length_append, length_singleton] at hfuel
      have hlen : (T.entries q).pfx.length ≤ fuel := by omega
      simp only
      split
      · refine nodup_cons.mpr ⟨fun hmem => ?_, ih hql hlen⟩
        exact lt_irrefl _ ((mem_selectedAncestors h fuel hql hlen).mp hmem).2.2.1
      · exact ih hql hlen

lemma findAllMatches_spec [DecidableEq C] (h : Inv hash T) {name : Name C}
    (hx : T.findLongestPrefixMatch hash name entrySelector = some x)
    (hc : T.Candidate entrySelector name x) :
    (T.findAllMatches hash name entrySelector).Nodup ∧
      ∀ z, z ∈ T.findAllMatches hash name entrySelector ↔
        T.Candidate entrySelector name z ∧
          (T.entries z).pfx.length ≤ (T.entries x).pfx.length := by
  have hmem : ∀ z, z ∈ selectedAncestors T.entries entrySelector (T.entries x).pfx.length x ↔ _ :=
    fun z => mem_selectedAncestors h.toTreeInv _ hc.linked (le_refl _)
  simp only [findAllMatches, hx]
  constructor
  · refine nodup_cons.mpr ⟨fun hxm => ?_, selectedAncestors_nodup h.toTreeInv _ hc.linked le_rfl⟩
    exact lt_irrefl _ ((hmem x).mp hxm).2.2.1
  intro z
  rw [mem_cons, hmem z]
  constructor
  · rintro (rfl | ⟨hz, hp, hlt, hs⟩)
    · exact ⟨hc, le_refl _⟩
    · exact ⟨⟨hz, hp.trans hc.pfx, hs⟩, hlt.le⟩
  rintro ⟨hz, hle⟩
  have hp := prefix_of_prefix_length_le hz.pfx hc.pfx hle
  rcases lt_or_eq_of_le hle with hlt | he
  · exact .inr ⟨hz.linked, hp, hlt, hz.selected⟩
  · exact .inl (h.unique z hz.linked x hc.linked (hp.eq_of_length he))

end NameTree

end NfdGateway
