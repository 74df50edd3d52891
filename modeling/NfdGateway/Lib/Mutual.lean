import Mathlib

/-! Objects that point at each other: two optional pointers of which each is the way back of the
other. -/

def Mutual {α β : Type} (f : α → Option β) (g : β → Option α) : Prop :=
  ∀ a b, f a = some b ↔ g b = some a

namespace Mutual

open Option Function

variable {α β : Type} {f : α → Option β} {g : β → Option α} {a : α} {b : β}

lemma ne_none_iff (h : Mutual f g) : g b ≠ none ↔ ∃ a, f a = some b := by
  rw [ne_none_iff_exists']
  exact exists_congr fun a => (h a b).symm

variable [DecidableEq α] [DecidableEq β]

lemma attach (h : Mutual f g) (ha : f a = none) (hb : g b = none) :
    Mutual (update f a (some b)) (update g b (some a)) := by
  intro x y
  by_cases hx : x = a
  · by_cases hy : y = b
    · simp [hx, hy]
    · have hno : g y ≠ some a := fun hc => by simp [(h a y).mpr hc] at ha
      simp [hx, hy, hno, Ne.symm hy]
  · by_cases hy : y = b
    · have hno : f x ≠ some b := fun hc => by simp [(h x b).mp hc] at hb
      simp [hx, hy, hno, Ne.symm hx]
    · simpa [hx, hy] using h x y

lemma detach (h : Mutual f g) (hab : f a = some b) :
    Mutual (update f a none) (update g b none) := by
  intro x y
  by_cases hx : x = a
  · by_cases hy : y = b
    · simp [hx, hy]
    have hno : g y ≠ some a := fun hc => by
      rw [← h a y, hab] at hc
      exact hy (some.inj hc).symm
    simp [hx, hy, hno]
  · by_cases hy : y = b
    · have hno : f x ≠ some b := fun hc => by
        rw [h x b, (h a b).mp hab] at hc
        exact hx (some.inj hc).symm
      simp [hx, hy, hno]
    · simpa [hx, hy] using h x y

end Mutual
