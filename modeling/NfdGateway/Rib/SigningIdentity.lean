import NfdGateway.Rib.PropagatedPrefixes

/-! Which prefix is propagated for a name: when it is the shortest one that an identity can sign
for. The loop compares the identities, with the component that is ignored. -/
namespace NfdGateway

open List Option

variable {x i j : Name String}

def EndsIgnored (i : Name String) : Prop := i.getLast? = some ignoreComponent

instance (i : Name String) : Decidable (EndsIgnored i) := by
  unfold EndsIgnored; infer_instance

lemma EndsIgnored.length (h : EndsIgnored i) : (identityPrefix i).length + 1 = i.length := by
  have hne : i ≠ [] := by
    rintro rfl
    cases h
  have hpos := length_pos_of_ne_nil hne
  rw [identityPrefix, if_pos ⟨hne, h⟩, length_dropLast]
  omega

lemma identityPrefix_of_not_endsIgnored (h : ¬ EndsIgnored i) : identityPrefix i = i :=
  if_neg fun hi => h hi.2

lemma length_identityPrefix (i : Name String) :
    (identityPrefix i).length = i.length - if EndsIgnored i then 1 else 0 := by
  split
  next h =>
    have hlen := h.length
    omega
  next h =>
    rw [identityPrefix_of_not_endsIgnored h, Nat.sub_zero]

namespace KeyChain

variable {k k' : KeyChain}

def all (k : KeyChain) : List (Name String) := k.identities ++ [k.defaultIdentity]

lemma mem_matching : i ∈ k.matching x ↔ i ∈ k.all ∧ identityPrefix i <+: x := by
  rw [matching, mem_filter, decide_eq_true_iff, all]

def FirstEndsIgnored (k : KeyChain) (x : Name String) : Prop :=
  ∀ i ∈ (k.matching x).argmin List.length,
    (∃ j ∈ k.matching x, j.length = i.length ∧ EndsIgnored j) → EndsIgnored i

lemma shortest_iff (hi : (k.matching x).argmin List.length = some i) :
    (∀ j ∈ k.matching x, (identityPrefix i).length ≤ (identityPrefix j).length) ↔
      ((∃ j ∈ k.matching x, j.length = i.length ∧ EndsIgnored j) → EndsIgnored i) := by
  constructor
  · rintro hshort ⟨j, hj, hlen, hends⟩
    by_contra hnot
    have hle := hshort j hj
    have hj' := hends.length
    rw [identityPrefix_of_not_endsIgnored hnot] at hle
    omega
  intro hfirst j hj
  have hle : i.length ≤ j.length := le_of_mem_argmin hj hi
  rw [length_identityPrefix i, length_identityPrefix j]
  by_cases hends : EndsIgnored j
  · by_cases hlen : j.length = i.length
    · rw [if_pos hends, if_pos (hfirst ⟨j, hj, hlen, hends⟩)]
      omega
    · rw [if_pos hends]
      split <;> omega
  · rw [if_neg hends]
    split <;> omega

end KeyChain

namespace AutoPrefixPropagator

variable {s s' : AutoPrefixPropagator}

/-- What the class comment says: the shortest prefix that an identity can sign for, if there is
one. -/
structure PropagatesShortest (s : AutoPrefixPropagator) (x : Name String) : Prop where
  valid_iff : (s.getPrefixPropagationParameters x).isValid = true ↔
    ∃ i ∈ s.keyChain.all, identityPrefix i <+: x
  shortest : (s.getPrefixPropagationParameters x).isValid = true →
    (∃ i ∈ s.keyChain.all, identityPrefix i <+: x ∧
      (s.getPrefixPropagationParameters x).parameters.name = identityPrefix i) ∧
    ∀ j ∈ s.keyChain.all, identityPrefix j <+: x →
      (s.getPrefixPropagationParameters x).parameters.name.length ≤ (identityPrefix j).length

lemma PropagatesShortest.name_eq (h : s.PropagatesShortest x) (h' : s'.PropagatesShortest x)
    (hperm : s.keyChain.all.Perm s'.keyChain.all)
    (hv : (s.getPrefixPropagationParameters x).isValid = true) :
    (s'.getPrefixPropagationParameters x).isValid = true ∧
      (s'.getPrefixPropagationParameters x).parameters.name =
        (s.getPrefixPropagationParameters x).parameters.name := by
  obtain ⟨⟨i, hi, hix, hname⟩, hmin⟩ := h.shortest hv
  have hv' := h'.valid_iff.mpr ⟨i, hperm.mem_iff.mp hi, hix⟩
  obtain ⟨⟨j, hj, hjx, hname'⟩, hmin'⟩ := h'.shortest hv'
  refine ⟨hv', ?_⟩
  have hle := hmin j (hperm.mem_iff.mpr hj) hjx
  have hle' := hmin' i (hperm.mem_iff.mp hi) hix
  rw [hname, hname'] at *
  exact (prefix_of_prefix_length_le hjx hix hle').eq_of_length (Nat.le_antisymm hle' hle)

lemma propagatesShortest_iff : s.PropagatesShortest x ↔ s.keyChain.FirstEndsIgnored x := by
  cases hm : (s.keyChain.matching x).argmin List.length with
  | none =>
    have hnone : s.keyChain.shortestMatch x = none := by
      rw [KeyChain.shortestMatch_eq, hm, map_none]
    have hno : ∀ i ∈ s.keyChain.all, ¬ identityPrefix i <+: x := by
      intro i hi hix
      have hmem := KeyChain.mem_matching.mpr ⟨hi, hix⟩
      rw [argmin_eq_none.mp hm] at hmem
      cases hmem
    refine iff_of_true ⟨?_, ?_⟩ ?_
    · rw [parameters_of_no_match hnone]
      exact ⟨nofun, fun ⟨i, hi, hix⟩ => absurd hix (hno i hi)⟩
    · rw [parameters_of_no_match hnone]
      exact nofun
    intro i hi
    rw [hm] at hi
    cases hi
  | some i =>
    have hsome : s.keyChain.shortestMatch x = some (identityPrefix i, i) := by
      rw [KeyChain.shortestMatch_eq, hm, map_some]
    obtain ⟨hi, hix⟩ := KeyChain.mem_matching.mp (argmin_mem hm)
    have hfirst : s.keyChain.FirstEndsIgnored x ↔
        ∀ j ∈ s.keyChain.matching x, (identityPrefix i).length ≤ (identityPrefix j).length := by
      rw [KeyChain.shortest_iff hm, KeyChain.FirstEndsIgnored, hm]
      simp
    rw [hfirst]
    constructor
    · intro h j hj
      obtain ⟨hjall, hjx⟩ := KeyChain.mem_matching.mp hj
      have hshort := (h.shortest (by rw [parameters_of_match hsome])).2 j hjall hjx
      rwa [parameters_of_match hsome] at hshort
    intro h
    refine ⟨?_, ?_⟩ <;> rw [parameters_of_match hsome]
    · exact iff_of_true rfl ⟨i, hi, hix⟩
    · exact fun _ => ⟨⟨i, hi, hix, rfl⟩, fun j hj hjx => h j (KeyChain.mem_matching.mpr ⟨hj, hjx⟩)⟩

/-- The shortest prefix is propagated exactly when the first identity of least length ends in the
ignored component if any of them does. In all such orders of the identities it is the same. -/
theorem shortest_prefix_iff (s : AutoPrefixPropagator) (x : Name String) :
    (s.PropagatesShortest x ↔ s.keyChain.FirstEndsIgnored x) ∧
      ∀ s' : AutoPrefixPropagator, s.keyChain.all.Perm s'.keyChain.all →
        s.keyChain.FirstEndsIgnored x → s'.keyChain.FirstEndsIgnored x →
        (s.getPrefixPropagationParameters x).isValid = true →
        (s'.getPrefixPropagationParameters x).isValid = true ∧
          (s'.getPrefixPropagationParameters x).parameters.name =
            (s.getPrefixPropagationParameters x).parameters.name :=
  ⟨propagatesShortest_iff, fun _ hperm hs hs' hv =>
    (propagatesShortest_iff.mpr hs).name_eq (propagatesShortest_iff.mpr hs') hperm hv⟩

/-- The identities `/a/b` and `/a/nrd` are equally long, so the first one is taken, although the
second one signs for a shorter prefix; the other way round it is found. -/
theorem longer_prefix_propagated : let s : AutoPrefixPropagator :=
      { keyChain := { identities := [["a", "b"]], defaultIdentity := ["a", "nrd"] } }
    let s' : AutoPrefixPropagator :=
      { keyChain := { identities := [["a", "nrd"]], defaultIdentity := ["a", "b"] } }
    (s.getPrefixPropagationParameters ["a", "b", "c"]).parameters.name = ["a", "b"] ∧
      (s'.getPrefixPropagationParameters ["a", "b", "c"]).parameters.name = ["a"] ∧
      ¬ s.PropagatesShortest ["a", "b", "c"] := by
  refine ⟨by decide, by decide, fun h => ?_⟩
  have hle := (h.shortest (by decide)).2 ["a", "nrd"] (by decide) (by decide)
  exact absurd hle (by decide)

end AutoPrefixPropagator

end NfdGateway
