import Mathlib

/-! Histories of uses, and queues in the order of last use.

`dedup` keeps the last occurrence of each element, so that a history without its duplicates is in
the order of last use. -/
namespace Recency

open List

variable {α : Type} {past queue l : List α}

lemma filter_eq_of_sublist {p : α → Bool} (h : queue.Sublist l) (hl : l.Nodup)
    (hp : ∀ x ∈ l, p x = true ↔ x ∈ queue) : l.filter p = queue := by
  induction h with
  | slnil => rfl
  | cons b h ih =>
    obtain ⟨hb, hl⟩ := nodup_cons.mp hl
    have hnot : ¬ p b = true := fun hpb => hb (h.subset ((hp b (.head _)).mp hpb))
    rw [filter_cons_of_neg hnot]
    exact ih hl fun x hx => hp x (.tail _ hx)
  | cons_cons b h ih =>
    obtain ⟨hb, hl⟩ := nodup_cons.mp hl
    rw [filter_cons_of_pos ((hp b (.head _)).mpr (.head _)), ih hl]
    intro x hx
    have hne : x ≠ b := fun heq => hb (heq ▸ hx)
    rw [hp x (.tail _ hx), mem_cons]
    exact or_iff_right hne

lemma eq_rtake_of_suffix {n : ℕ} (h : queue <:+ l)
    (hlength : queue = l ∧ l.length ≤ n ∨ queue.length = n) : queue = l.rtake n := by
  unfold List.rtake
  rcases hlength with ⟨rfl, hle⟩ | rfl
  · rw [Nat.sub_eq_zero_of_le hle, drop_zero]
  · exact suffix_iff_eq_drop.mp h

variable [DecidableEq α]

lemma dedup_concat (past : List α) (a : α) : (past ++ [a]).dedup = past.dedup.erase a ++ [a] := by
  induction past with
  | nil => rfl
  | cons b past ih =>
    rw [cons_append]
    by_cases hb : b ∈ past
    · rw [dedup_cons_of_mem (mem_append_left _ hb), dedup_cons_of_mem hb, ih]
    rw [dedup_cons_of_notMem hb]
    by_cases hba : b = a
    · subst hba
      rw [dedup_cons_of_mem (mem_append_right _ (.head _)), ih, erase_cons_head,
        erase_of_not_mem (mem_dedup.not.mpr hb)]
    · have hmem : b ∉ past ++ [a] := by simp [hb, hba]
      rw [dedup_cons_of_notMem hmem, ih, erase_cons_tail (by simpa using hba)]
      rfl

lemma use_sublist (h : queue.Sublist past.dedup) (a : α) :
    (queue.erase a ++ [a]).Sublist (past ++ [a]).dedup := by
  rw [dedup_concat]
  exact (h.erase a).append_right [a]

end Recency
