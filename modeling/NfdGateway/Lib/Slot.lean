import Mathlib

/-! A list used as a slot for one value: a script of additions and removals works as long as it
adds to an empty slot and removes from a full one, and then the last step says what is left. -/
namespace Slot

variable {V : Type} {s t : List (Option V)} {l : List V} {o : Option V}

def replay : List (Option V) → List V → Option (List V)
  | [], l => some l
  | some v :: s, l => replay s (l ++ [v])
  | none :: _, [] => none
  | none :: s, _ :: l => replay s l

def Orderly : Bool → List (Option V) → Prop
  | _, [] => True
  | full, some _ :: s => full = false ∧ Orderly true s
  | full, none :: s => full = true ∧ Orderly false s

@[simp] lemma replay_nil : replay [] l = some l := rfl

@[simp] lemma orderly_nil {b : Bool} : Orderly b ([] : List (Option V)) := trivial

lemma replay_of_orderly (h : Orderly o.isSome s) :
    replay s o.toList = some ((s.getLast?.getD o).toList) := by
  induction s generalizing o with
  | nil => rfl
  | cons a s ih =>
    have hlast : (a :: s).getLast?.getD o = s.getLast?.getD a := by
      rw [List.getLast?_cons]
      rfl
    rw [hlast]
    cases a with
    | some v =>
      obtain ⟨ho, hs⟩ := h
      obtain rfl : o = none := by simpa using ho
      exact ih (o := some v) hs
    | none =>
      obtain ⟨ho, hs⟩ := h
      obtain ⟨v, rfl⟩ := Option.isSome_iff_exists.mp ho
      exact ih (o := none) hs

end Slot
