import Mathlib

/-! Values for names that hold for everything below, up to a longer name with a value of its own. -/
namespace PrefixMap

open List Option

variable {C V : Type} {A A' : List C → Option V} {p f : List C}

def lookup (A : List C → Option V) (f : List C) : Option V := f.inits.reverse.findSome? A

lemma lookup_nil (A : List C → Option V) : lookup A [] = A [] := by
  simp only [lookup, List.inits, reverse_singleton, findSome?_cons, findSome?_nil]
  cases A [] <;> rfl

lemma lookup_concat (A : List C → Option V) (f : List C) (c : C) :
    lookup A (f ++ [c]) = (A (f ++ [c])).or (lookup A f) := by
  have hinits : (f ++ [c]).inits = f.inits ++ [f ++ [c]] := by simp [inits_append]
  rw [lookup, hinits, reverse_append, reverse_singleton, singleton_append, findSome?_cons, lookup]
  cases A (f ++ [c]) <;> rfl

lemma lookup_ne_none (h : A p ≠ none) (hp : p <+: f) : lookup A f ≠ none := by
  have hsome : (f.inits.reverse.findSome? A).isSome := by
    rw [findSome?_isSome_iff]
    refine ⟨p, ?_, isSome_iff_ne_none.mpr h⟩
    rwa [mem_reverse, mem_inits]
  exact isSome_iff_ne_none.mp hsome

structure Covers (A : List C → Option V) (p f : List C) : Prop where
  pfx : p <+: f
  none : ∀ q, p <+: q → q <+: f → q ≠ p → A q = none

lemma covers_self (A : List C → Option V) (p : List C) : Covers A p p :=
  ⟨prefix_rfl, fun _ hp hq hne => absurd (hq.eq_of_length_le hp.length_le) hne⟩

lemma covers_congr (h : ∀ q, q ≠ p → A q = A' q) : Covers A p f ↔ Covers A' p f := by
  refine ⟨fun hc => ⟨hc.pfx, fun q hp hq hne => ?_⟩, fun hc => ⟨hc.pfx, fun q hp hq hne => ?_⟩⟩
  · rw [← h q hne]
    exact hc.none q hp hq hne
  · rw [h q hne]
    exact hc.none q hp hq hne

lemma covers_concat {c : C} (hne : f ++ [c] ≠ p) :
    Covers A p (f ++ [c]) ↔ Covers A p f ∧ A (f ++ [c]) = none := by
  constructor
  · intro h
    have hpf : p <+: f := (prefix_concat_iff.mp h.pfx).resolve_left (Ne.symm hne)
    refine ⟨⟨hpf, fun q hp hq => h.none q hp (hq.trans (prefix_append _ _))⟩, ?_⟩
    exact h.none _ h.pfx prefix_rfl hne
  rintro ⟨h, hnone⟩
  refine ⟨h.pfx.trans (prefix_append _ _), fun q hp hq hqp => ?_⟩
  rcases prefix_concat_iff.mp hq with rfl | hq
  · exact hnone
  · exact h.none q hp hq hqp

lemma lookup_of_covers (h : Covers A p f) : lookup A f = lookup A p := by
  induction f using List.reverseRecOn with
  | nil => rw [prefix_nil.mp h.pfx]
  | append_singleton f c ih =>
    by_cases hp : f ++ [c] = p
    · rw [hp]
    · obtain ⟨hf, hnone⟩ := (covers_concat hp).mp h
      rw [lookup_concat, hnone, none_or, ih hf]

lemma lookup_of_not_covers (h : ∀ q, q ≠ p → A q = A' q) (hc : ¬ Covers A p f) :
    lookup A f = lookup A' f := by
  induction f using List.reverseRecOn with
  | nil =>
    have hne : [] ≠ p := by
      rintro rfl
      exact hc (covers_self A [])
    rw [lookup_nil, lookup_nil, h [] hne]
  | append_singleton f c ih =>
    have hne : f ++ [c] ≠ p := by
      rintro rfl
      exact hc (covers_self A _)
    rw [lookup_concat, lookup_concat, ← h _ hne]
    cases hA : A (f ++ [c]) with
    | some v => rfl
    | none =>
      rw [none_or, none_or]
      exact ih fun hf => hc ((covers_concat hne).mpr ⟨hf, hA⟩)

lemma lookup_ne_iff (h : ∀ q, q ≠ p → A q = A' q) :
    lookup A f ≠ lookup A' f ↔ Covers A p f ∧ lookup A p ≠ lookup A' p := by
  by_cases hc : Covers A p f
  · rw [lookup_of_covers hc, lookup_of_covers ((covers_congr h).mp hc)]
    simp [hc]
  · simp [hc, lookup_of_not_covers h hc]

end PrefixMap
