import Mathlib

/-! Lists in lexicographic order: what extends a list follows it without a gap. -/
namespace PrefixOrder

open List

variable {C : Type} [LinearOrder C] {l m n : List C} {a b : C}

lemma not_lt_of_isPrefix {y : List C} (h : n <+: y) : ¬ y < n := by
  induction n generalizing y with
  | nil => exact not_lt_nil y
  | cons a n ih =>
    obtain ⟨l, rfl⟩ := h
    intro hlt
    rcases cons_lt_cons_iff.mp hlt with ha | ⟨-, hlt⟩
    · exact lt_irrefl a ha
    · exact ih (prefix_append n l) hlt

lemma prefix_of_between {z y : List C} (hnz : ¬ z < n) (hzy : ¬ y < z) (h : n <+: y) : n <+: z := by
  induction n generalizing z y with
  | nil => exact nil_prefix
  | cons a n ih =>
    obtain ⟨l, rfl⟩ := h
    cases z with
    | nil => exact absurd (nil_lt_cons a n) hnz
    | cons b z =>
      simp only [cons_append, cons_lt_cons_iff, not_or, not_and] at hnz hzy
      obtain rfl : a = b := le_antisymm (not_lt.mp hnz.1) (not_lt.mp hzy.1)
      exact cons_prefix_cons.mpr ⟨rfl, ih (hnz.2 rfl) (hzy.2 rfl) (prefix_append n l)⟩

lemma mem_takeWhile_isPrefix {l : List (List C)} {x : List C} (hl : l.Pairwise (· < ·))
    (hn : ∀ z ∈ l, n < z) : x ∈ l.takeWhile (n.isPrefixOf ·) ↔ x ∈ l ∧ n <+: x := by
  induction l with
  | nil => simp
  | cons z l ih =>
    obtain ⟨hz, hl⟩ := pairwise_cons.mp hl
    specialize ih hl fun y hy => hn y (by simp [hy])
    by_cases hp : n <+: z
    · rw [takeWhile_cons_of_pos (by simpa using hp)]
      simp only [mem_cons, ih]
      constructor
      · rintro (rfl | ⟨hx, hnx⟩)
        · exact ⟨.inl rfl, hp⟩
        · exact ⟨.inr hx, hnx⟩
      · rintro ⟨rfl | hx, hnx⟩
        · exact .inl rfl
        · exact .inr ⟨hx, hnx⟩
    · rw [takeWhile_cons_of_neg (by simpa using hp)]
      refine iff_of_false not_mem_nil ?_
      rintro ⟨hx, hnx⟩
      rcases mem_cons.mp hx with rfl | hx
      · exact hp hnx
      · exact hp (prefix_of_between (hn z (by simp)).asymm (hz x hx).asymm hnx)

lemma lt_append (hlt : l < m) (rest : List C) : l < m ++ rest :=
  (lt_iff_lex_lt ..).mpr (List.Lex.append_right _ rest ((lt_iff_lex_lt ..).mp hlt))

lemma append_lt_append_iff {rest rest' : List C} : l ++ rest < l ++ rest' ↔ rest < rest' := by
  induction l with
  | nil => rfl
  | cons c l ih =>
    rw [cons_append, cons_append, cons_lt_cons_iff, ih]
    simp

lemma lt_append_singleton (l : List C) (c : C) : l < l ++ [c] := by
  have h : l ++ [] < l ++ [c] ↔ [] < [c] := append_lt_append_iff
  rw [append_nil] at h
  exact h.mpr (nil_lt_cons ..)

lemma append_singleton_lt_iff : l ++ [a] < l ++ [b] ↔ a < b := by
  rw [append_lt_append_iff, cons_lt_cons_iff]
  simp

end PrefixOrder
