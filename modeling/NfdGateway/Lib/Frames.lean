import Mathlib

/-! Frames that are recognised at the front of a buffer, and how they split a stream of which
more and more is known. -/

/-- A code of non-empty frames, with the function that finds the frame a buffer starts with.
No frame is a prefix of another one, since the function has one answer. -/
structure FrameCode (α : Type) where
  IsFrame : List α → Prop
  first : List α → Option (List α)
  first_eq_some : ∀ buffer frame, first buffer = some frame ↔ IsFrame frame ∧ frame <+: buffer
  ne_nil : ∀ frame, IsFrame frame → frame ≠ []

namespace FrameCode

open List Option

variable {α : Type} {C : FrameCode α} {b c rest rest' frame : List α} {es es' : List (List α)}

lemma first_eq_none : C.first b = none ↔ ∀ frame, C.IsFrame frame → ¬ frame <+: b := by
  rw [eq_none_iff_forall_not_mem]
  refine forall_congr' fun frame => ?_
  rw [mem_def, C.first_eq_some, not_and]

lemma first_nil : C.first [] = none := by
  refine first_eq_none.mpr fun frame hframe hpre => ?_
  exact C.ne_nil frame hframe (prefix_nil.mp hpre)

lemma first_append (h : C.IsFrame frame) (rest : List α) : C.first (frame ++ rest) = some frame :=
  (C.first_eq_some _ _).mpr ⟨h, prefix_append ..⟩

structure Splits (C : FrameCode α) (b : List α) (es : List (List α)) (rest : List α) : Prop where
  eq : b = es.flatten ++ rest
  frames : ∀ e ∈ es, C.IsFrame e
  rest : C.first rest = none

lemma splits_nil (C : FrameCode α) : C.Splits [] [] [] := ⟨rfl, nofun, first_nil⟩

lemma splits_flatten (h : ∀ e ∈ es, C.IsFrame e) : C.Splits es.flatten es [] :=
  ⟨(append_nil _).symm, h, first_nil⟩

lemma Splits.cons (h : C.Splits b es rest) (hframe : C.IsFrame frame) :
    C.Splits (frame ++ b) (frame :: es) rest := by
  refine ⟨?_, ?_, h.rest⟩
  · rw [h.eq, flatten_cons, append_assoc]
  intro e he
  rcases mem_cons.mp he with rfl | he
  · exact hframe
  · exact h.frames e he

lemma Splits.append (h : C.Splits b es rest) (h' : C.Splits (rest ++ c) es' rest') :
    C.Splits (b ++ c) (es ++ es') rest' := by
  refine ⟨?_, ?_, h'.rest⟩
  · rw [h.eq, append_assoc, h'.eq, flatten_append, append_assoc]
  intro e he
  rcases mem_append.mp he with he | he
  · exact h.frames e he
  · exact h'.frames e he

lemma Splits.extend (h : C.Splits b es rest) (h' : C.Splits (b ++ c) es' rest') :
    ∃ more, es' = es ++ more ∧ C.Splits (rest ++ c) more rest' := by
  induction es generalizing b es' with
  | nil =>
    have hb : b = rest := h.eq
    exact ⟨es', rfl, hb ▸ h'⟩
  | cons e es ih =>
    have he := h.frames e (.head _)
    have hb : b ++ c = e ++ (es.flatten ++ rest ++ c) := by
      simp only [h.eq, flatten_cons, append_assoc]
    have hfirst : C.first (b ++ c) = some e := hb ▸ first_append he _
    cases es' with
    | nil =>
      have hnone : C.first (b ++ c) = none := by
        rw [h'.eq]
        exact h'.rest
      exact absurd (hfirst.symm.trans hnone) nofun
    | cons e' es' =>
      have hb' : b ++ c = e' ++ (es'.flatten ++ rest') := by rw [h'.eq, flatten_cons, append_assoc]
      obtain rfl : e' = e := by
        have hfirst' := first_append (h'.frames e' (.head _)) (es'.flatten ++ rest')
        rw [← hb', hfirst] at hfirst'
        exact (some.inj hfirst').symm
      obtain ⟨more, rfl, hmore⟩ := ih ⟨rfl, fun f hf => h.frames f (.tail _ hf), h.rest⟩
        ⟨append_cancel_left (hb.symm.trans hb'), fun f hf => h'.frames f (.tail _ hf), h'.rest⟩
      exact ⟨more, rfl, hmore⟩

lemma Splits.lt_length (h : C.Splits (rest ++ c) (frame :: es) rest')
    (hrest : C.first rest = none) : rest <+: frame ∧ rest.length < frame.length := by
  have hframe : frame <+: rest ++ c := by
    rw [h.eq, flatten_cons, append_assoc]
    exact prefix_append ..
  have hnot := first_eq_none.mp hrest frame (h.frames frame (.head _))
  have hlt : rest.length < frame.length := by
    refine Nat.lt_of_not_le fun hle => hnot ?_
    exact prefix_of_prefix_length_le hframe (prefix_append ..) hle
  exact ⟨prefix_of_prefix_length_le (prefix_append ..) hframe (Nat.le_of_lt hlt), hlt⟩

lemma Splits.unique (h : C.Splits b es rest) (h' : C.Splits b es' rest') :
    es = es' ∧ rest = rest' := by
  obtain ⟨more, rfl, hmore⟩ := h.extend (by rwa [append_nil])
  cases more with
  | nil =>
    have hrest := hmore.eq
    simp only [append_nil, flatten_nil, nil_append] at hrest
    exact ⟨(append_nil es).symm, hrest⟩
  | cons e more =>
    obtain ⟨hpre, hlt⟩ := hmore.lt_length h.rest
    have hlength := congrArg List.length hmore.eq
    simp only [append_nil, flatten_cons, length_append] at hlength
    omega

end FrameCode
