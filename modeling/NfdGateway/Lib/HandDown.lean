import Mathlib

/-! Values handed down a tree of names. Every name is a gate: it passes on what comes from
above, stops it, or sends down a value of its own. -/
namespace HandDown

open List

variable {α V W : Type}

inductive Gate (V : Type)
  | pass
  | stop
  | emit (v : V)

namespace Gate

def through : Gate V → Option V → Option V
  | pass, v => v
  | stop, _ => none
  | emit v, _ => some v

@[simp] lemma through_pass (v : Option V) : pass.through v = v := rfl

@[simp] lemma through_stop (v : Option V) : stop.through v = none := rfl

@[simp] lemma through_emit (v : V) (w : Option V) : (emit v).through w = some v := rfl

lemma through_eq_of_ne_pass {g : Gate V} (h : g ≠ pass) (v w : Option V) :
    g.through v = g.through w := by
  cases g with
  | pass => exact absurd rfl h
  | stop | emit v => rfl

def map (f : V → W) : Gate V → Gate W
  | pass => pass
  | stop => stop
  | emit v => emit (f v)

lemma map_through (f : V → W) (g : Gate V) (v : Option V) :
    (g.map f).through (v.map f) = (g.through v).map f := by
  cases g <;> rfl

end Gate

def Under (n x : List α) : Prop := n <+: x ∧ n ≠ x

lemma Under.trans_isPrefix {n x y : List α} (h : Under n x) (hxy : x <+: y) : Under n y := by
  refine ⟨h.1.trans hxy, fun he => h.2 ?_⟩
  subst he
  exact h.1.eq_of_length_le hxy.length_le

lemma Under.of_isPrefix {n x y : List α} (hnx : n <+: x) (h : Under x y) : Under n y := by
  refine ⟨hnx.trans h.1, fun he => h.2 ?_⟩
  subst he
  exact h.1.eq_of_length_le hnx.length_le

lemma Under.length_lt {n x : List α} (h : Under n x) : n.length < x.length :=
  lt_of_le_of_ne h.1.length_le fun he => h.2 (h.1.eq_of_length he)

lemma Under.not_isPrefix {n x : List α} (h : Under n x) : ¬ x <+: n := fun hp =>
  absurd hp.length_le (Nat.not_le.mpr h.length_lt)

lemma under_concat {n x : List α} {c : α} : Under n (x ++ [c]) ↔ n <+: x := by
  constructor
  · rintro ⟨hp, hne⟩
    exact (prefix_concat_iff.mp hp).resolve_left (by simpa using hne)
  · intro h
    exact Under.of_isPrefix h ⟨prefix_append _ _, by simp⟩

lemma Under.total {n m x : List α} (hn : n <+: x) (hm : m <+: x) : n <+: m ∨ Under m n := by
  rcases prefix_or_prefix_of_prefix hn hm with h | h
  · exact .inl h
  by_cases he : m = n
  · exact .inl (he ▸ prefix_rfl)
  · exact .inr ⟨h, he⟩

variable (gate : List α → Gate V)

def below (n : List α) : ℕ → Option V
  | 0 => none
  | i + 1 => (gate (n.take i)).through (below n i)

def arrives (n : List α) : Option V := below gate n n.length

def leaves (n : List α) : Option V := (gate n).through (arrives gate n)

def Open (n x : List α) : Prop :=
  Under n x ∧ ∀ y, Under n y → Under y x → gate y = .pass

variable {gate} {gate' : List α → Gate V} {n x : List α} {c : α}

lemma below_append {l : List α} {i : ℕ} (h : i ≤ n.length) :
    below gate (n ++ l) i = below gate n i := by
  induction i with
  | zero => rfl
  | succ i ih =>
    rw [below, below, ih (Nat.le_of_succ_le h), take_append_of_le_length (Nat.le_of_succ_le h)]

@[simp] lemma arrives_concat : arrives gate (n ++ [c]) = leaves gate n := by
  rw [arrives, length_append, length_singleton, below, below_append (le_refl _), take_left]
  rfl

lemma open_concat : Open gate n (x ++ [c]) ↔ n = x ∨ (Open gate n x ∧ gate x = .pass) := by
  constructor
  · rintro ⟨hu, hp⟩
    by_cases he : n = x
    · exact .inl he
    have hx : Under n x := ⟨under_concat.mp hu, he⟩
    refine .inr ⟨⟨hx, fun y hy hyx => hp y hy (under_concat.mpr hyx.1)⟩, ?_⟩
    exact hp x hx (under_concat.mpr prefix_rfl)
  rintro (rfl | ⟨⟨hu, hp⟩, hx⟩)
  · exact ⟨under_concat.mpr prefix_rfl,
      fun y hy hyx => absurd (under_concat.mp hyx) hy.not_isPrefix⟩
  refine ⟨under_concat.mpr hu.1, fun y hy hyx => ?_⟩
  by_cases he : y = x
  · exact he ▸ hx
  · exact hp y hy ⟨under_concat.mp hyx, he⟩

lemma arrives_of_open (h : Open gate n x) : arrives gate x = leaves gate n := by
  induction x using List.reverseRecOn with
  | nil => exact absurd (prefix_nil.mp h.1.1) h.1.2
  | append_singleton x c ih =>
    rw [arrives_concat]
    rcases open_concat.mp h with rfl | ⟨hx, hp⟩
    · rfl
    · rw [leaves, hp, Gate.through_pass, ih hx]

lemma arrives_of_above (h : ∀ y, Under y n → gate' y = gate y) :
    arrives gate' n = arrives gate n := by
  induction n using List.reverseRecOn with
  | nil => rfl
  | append_singleton n c ih =>
    rw [arrives_concat, arrives_concat, leaves, leaves, h n (under_concat.mpr prefix_rfl),
      ih fun y hy => h y (under_concat.mpr hy.1)]

lemma arrives_eq_none (h : ∀ y, Under y n → gate y = .pass) : arrives gate n = none := by
  induction n using List.reverseRecOn with
  | nil => rfl
  | append_singleton n c ih =>
    rw [arrives_concat, leaves, h n (under_concat.mpr prefix_rfl), Gate.through_pass]
    exact ih fun y hy => h y (under_concat.mpr hy.1)

lemma arrives_of_silent (h : ∀ y v, gate y ≠ .emit v) : arrives gate n = none := by
  induction n using List.reverseRecOn with
  | nil => rfl
  | append_singleton n c ih =>
    rw [arrives_concat, leaves, ih]
    cases hg : gate n with
    | pass | stop => rfl
    | emit v => exact absurd hg (h n v)

lemma arrives_congr (h : ∀ y, y ≠ n → gate' y = gate y) (ho : ¬ Open gate n x) :
    arrives gate' x = arrives gate x := by
  induction x using List.reverseRecOn with
  | nil => rfl
  | append_singleton x c ih =>
    obtain ⟨hx, hn⟩ := not_or.mp (mt open_concat.mpr ho)
    rw [arrives_concat, arrives_concat, leaves, leaves, h x (Ne.symm hx)]
    by_cases hp : gate x = .pass
    · rw [hp, Gate.through_pass, Gate.through_pass, ih fun hox => hn ⟨hox, hp⟩]
    · exact Gate.through_eq_of_ne_pass hp _ _

lemma Open.congr (h : ∀ y, y ≠ n → gate' y = gate y) (ho : Open gate n x) : Open gate' n x :=
  ⟨ho.1, fun y hy hyx => (h y hy.2.symm).trans (ho.2 y hy hyx)⟩

lemma arrives_map (f : V → W) : arrives (fun y => (gate y).map f) n = (arrives gate n).map f := by
  induction n using List.reverseRecOn with
  | nil => rfl
  | append_singleton n c ih =>
    rw [arrives_concat, arrives_concat, leaves, leaves, ih, Gate.map_through]

end HandDown
