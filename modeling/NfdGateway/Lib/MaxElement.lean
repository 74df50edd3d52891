import Mathlib

/-! The element an algorithm in the manner of `std::max_element` returns: the first one that
no later element is preferred to. The comparison need not be an order. -/
namespace MaxElement

open List

variable {α β : Type}

def better (lt : α → α → Bool) (a b : α) : α := if lt a b then b else a

def maxElement (lt : α → α → Bool) : List α → Option α
  | [] => none
  | a :: l => some (l.foldl (better lt) a)

variable {lt : α → α → Bool} {l : List α} {m : α}

lemma maxElement_isSome (h : l ≠ []) : ∃ m, maxElement lt l = some m := by
  cases l with
  | nil => exact absurd rfl h
  | cons a l => exact ⟨_, rfl⟩

lemma foldl_better_mem (a : α) (l : List α) : l.foldl (better lt) a ∈ a :: l := by
  induction l generalizing a with
  | nil => exact mem_singleton.mpr rfl
  | cons b l ih =>
    rcases mem_cons.mp (ih (better lt a b)) with heq | hl
    · rw [foldl_cons, heq]
      unfold better
      split
      · exact .tail _ (.head _)
      · exact .head _
    · exact .tail _ (.tail _ hl)

lemma maxElement_mem (h : maxElement lt l = some m) : m ∈ l := by
  cases l with
  | nil => cases h
  | cons a l =>
    cases h
    exact foldl_better_mem a l

section Key

variable [LinearOrder β] {key : α → β}

def keyLt (key : α → β) (a b : α) : Bool := decide (key a < key b)

lemma le_better (key : α → β) (a b : α) :
    key a ≤ key (better (keyLt key) a b) ∧ key b ≤ key (better (keyLt key) a b) := by
  unfold better keyLt
  split
  next h =>
    exact ⟨(of_decide_eq_true h).le, le_refl _⟩
  next h =>
    exact ⟨le_refl _, not_lt.mp (mt decide_eq_true h)⟩

lemma le_foldl_better (key : α → β) (a : α) (l : List α) :
    ∀ x ∈ a :: l, key x ≤ key (l.foldl (better (keyLt key)) a) := by
  induction l generalizing a with
  | nil =>
    intro x hx
    rw [mem_singleton.mp hx]
    exact le_refl _
  | cons b l ih =>
    intro x hx
    have hle := ih (better (keyLt key) a b)
    have hfirst := hle _ (.head _)
    rcases mem_cons.mp hx with rfl | hx
    · exact (le_better key x b).1.trans hfirst
    rcases mem_cons.mp hx with rfl | hx
    · exact (le_better key a x).2.trans hfirst
    · exact hle x (.tail _ hx)

lemma le_maxElement (h : maxElement (keyLt key) l = some m) {x : α} (hx : x ∈ l) :
    key x ≤ key m := by
  cases l with
  | nil => cases h
  | cons a l =>
    cases h
    exact le_foldl_better key a l x hx

end Key

/-- The least element of a list is the least of each part of it that has this element. -/
lemma argmin_filter {P Q : α → Bool} {length : α → ℕ} {a : α}
    (hPQ : ∀ b, P b = true → Q b = true) (ha : P a = true)
    (h : (l.filter Q).argmin length = some a) : (l.filter P).argmin length = some a := by
  induction l using List.reverseRecOn with
  | nil => cases h
  | append_singleton l b ih =>
    rw [filter_append, filter_singleton] at h ⊢
    by_cases hQ : Q b = true
    · rw [hQ, Bool.cond_true, argmin_concat] at h
      by_cases hP : P b = true
      · rw [hP, Bool.cond_true, argmin_concat]
        cases hc : (l.filter Q).argmin length with
        | none =>
          have hnil : l.filter P = [] := by
            rw [argmin_eq_none, filter_eq_nil_iff] at hc
            exact filter_eq_nil_iff.mpr fun b hb hPb => hc b hb (hPQ b hPb)
          rw [hc] at h
          rw [hnil]
          exact h
        | some c =>
          simp only [hc] at h
          split at h
          · -- the new element is less than all before it
            rename_i hlt
            cases h
            cases hd : (l.filter P).argmin length with
            | none => rfl
            | some d =>
              obtain ⟨hdl, hPd⟩ := mem_filter.mp (argmin_mem hd)
              have hle := le_of_mem_argmin (mem_filter.mpr ⟨hdl, hPQ d hPd⟩) hc
              simp only
              rw [if_pos (by omega)]
          next hlt =>
            cases h
            simp only [ih hc]
            rw [if_neg hlt]
      · rw [Bool.eq_false_of_not_eq_true hP, Bool.cond_false, append_nil]
        cases hc : (l.filter Q).argmin length with
        | none =>
          rw [hc] at h
          exact absurd (Option.some_inj.mp h ▸ ha) hP
        | some c =>
          simp only [hc] at h
          split at h
          · exact absurd (Option.some_inj.mp h ▸ ha) hP
          · exact ih (hc.trans h)
    · have hP : ¬ P b = true := fun hP => hQ (hPQ b hP)
      rw [Bool.eq_false_of_not_eq_true hQ, Bool.cond_false, append_nil] at h
      rw [Bool.eq_false_of_not_eq_true hP, Bool.cond_false, append_nil]
      exact ih h

end MaxElement
