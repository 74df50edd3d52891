import Mathlib

/-! Partial step functions, the states reached by runs whose steps meet a condition, runs with
the actions they take, and induction along such runs. -/
namespace Transition

variable {S A : Type} {step : S → A → Option S} {Ok : S → A → Prop} {s₀ s t : S}

inductive Reach (step : S → A → Option S) (Ok : S → A → Prop) (s₀ : S) : S → Prop
  | init : Reach step Ok s₀ s₀
  | step {s t : S} {a : A} (hr : Reach step Ok s₀ s) (ho : Ok s a)
      (hs : step s a = some t) : Reach step Ok s₀ t

def Any (_ : S) (_ : A) : Prop := True

lemma Reach.invariant {I : S → Prop} (h0 : I s₀)
    (hstep : ∀ s a t, I s → Ok s a → step s a = some t → I t)
    (h : Reach step Ok s₀ s) : I s := by
  induction h with
  | init => exact h0
  | step _ ho hs ih => exact hstep _ _ _ ih ho hs

def run (step : S → A → Option S) : S → List A → Option S
  | s, [] => some s
  | s, a :: as => (step s a).bind fun t => run step t as

lemma run_append (s : S) (l l' : List A) :
    run step s (l ++ l') = (run step s l).bind fun t => run step t l' := by
  induction l generalizing s with
  | nil => rfl
  | cons a l ih =>
    rw [List.cons_append, run, run, Option.bind_assoc]
    exact congrArg _ (funext ih)

lemma reach_of_run_of_ok {l : List A} (h : Reach step Ok s₀ s)
    (hok : ∀ a ∈ l, ∀ u, Ok u a) (hr : run step s l = some t) : Reach step Ok s₀ t := by
  induction l generalizing s with
  | nil =>
    obtain rfl : s = t := by simpa [run] using hr
    exact h
  | cons a l ih =>
    obtain ⟨u, hu, ht⟩ := Option.bind_eq_some_iff.mp hr
    exact ih (.step h (hok a (.head _) s) hu) (fun b hb => hok b (.tail _ hb)) ht

lemma reach_of_run {l : List A} (h : Reach step Any s₀ s)
    (hr : run step s l = some t) : Reach step Any s₀ t :=
  reach_of_run_of_ok h (fun _ _ _ => trivial) hr

inductive Path (step : S → A → Option S) (Ok : S → A → Prop) : S → List A → S → Prop
  | nil {s : S} : Path step Ok s [] s
  | cons {s t u : S} {a : A} {l : List A} (ho : Ok s a) (hs : step s a = some t)
      (h : Path step Ok t l u) : Path step Ok s (a :: l) u

variable {u : S} {a : A} {l l' : List A}

lemma Path.single (ho : Ok s a) (hs : step s a = some t) : Path step Ok s [a] t :=
  .cons ho hs .nil

lemma Path.append (h : Path step Ok s l t) (h' : Path step Ok t l' u) :
    Path step Ok s (l ++ l') u := by
  induction h with
  | nil => exact h'
  | cons ho hs _ ih => exact .cons ho hs (ih h')

lemma Path.split (h : Path step Ok s (l ++ l') u) :
    ∃ t, Path step Ok s l t ∧ Path step Ok t l' u := by
  induction l generalizing s with
  | nil => exact ⟨s, .nil, h⟩
  | cons a l ih =>
    cases h with
    | cons ho hs h =>
      obtain ⟨t, hl, hl'⟩ := ih h
      exact ⟨t, .cons ho hs hl, hl'⟩

lemma Path.run_eq (h : Path step Ok s l t) : run step s l = some t := by
  induction h with
  | nil => rfl
  | cons _ hs _ ih => exact Option.bind_eq_some_iff.mpr ⟨_, hs, ih⟩

lemma path_of_run (hok : ∀ u a, Ok u a) (h : run step s l = some t) : Path step Ok s l t := by
  induction l generalizing s with
  | nil =>
    obtain rfl : s = t := by simpa [run] using h
    exact .nil
  | cons a l ih =>
    obtain ⟨u, hu, ht⟩ := Option.bind_eq_some_iff.mp h
    exact .cons (hok s a) hu (ih ht)

lemma Path.reach (h : Path step Ok s l t) (hs : Reach step Ok s₀ s) : Reach step Ok s₀ t := by
  induction h with
  | nil => exact hs
  | cons ho hst _ ih => exact ih (.step hs ho hst)

lemma Path.invariant {I : List A → S → Prop} (h0 : I [] s)
    (hstep : ∀ l s a t, I l s → Ok s a → step s a = some t → I (l ++ [a]) t)
    (h : Path step Ok s l t) : I l t := by
  have hgen : ∀ done, I done s → I (done ++ l) t := by
    clear h0
    induction h with
    | nil =>
      intro done hd
      rwa [List.append_nil]
    | cons ho hs _ ih =>
      intro done hd
      have hnext := ih (done ++ [_]) (hstep done _ _ _ hd ho hs)
      rwa [List.append_assoc] at hnext
  exact hgen [] h0

def trace (step : S → A → Option S) : S → List A → List (S × A)
  | _, [] => []
  | s, a :: l =>
    (s, a) ::
      match step s a with
      | some t => trace step t l
      | none => []

lemma Path.trace_invariant {I : List (S × A) → S → Prop} {past before after : List (S × A)}
    (hstep : ∀ past s a t, I past s → Ok s a → step s a = some t → I (past ++ [(s, a)]) t)
    (h : Path step Ok s l t) (h0 : I past s) (hpos : trace step s l = before ++ (u, a) :: after) :
    I (past ++ before) u ∧ Ok u a := by
  induction h generalizing past before with
  | nil => simp [trace] at hpos
  | cons ho hs _ ih =>
    rw [trace, hs] at hpos
    cases before with
    | nil =>
      obtain ⟨⟨rfl, rfl⟩, -⟩ : (_ = u ∧ _ = a) ∧ _ = after := by simpa using hpos
      rw [List.append_nil]
      exact ⟨h0, ho⟩
    | cons p before =>
      obtain ⟨rfl, hrest⟩ := List.cons.inj hpos
      have hrest := ih (hstep past _ _ _ h0 ho hs) hrest
      rwa [List.append_assoc] at hrest

end Transition
