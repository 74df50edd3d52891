import Mathlib

/-! Division of polynomials over GF(2) by a shift register.

The register holds the remainder of the bits that were shifted in, most significant one first,
times `X ^ w`; its feedback is the modulus without its leading term. -/
namespace ShiftRegister

open Polynomial List

variable {w n : ℕ} {x y : BitVec w} {feedback : BitVec w} {f : BitVec n → BitVec w}

def step (feedback x : BitVec w) (b : Bool) : BitVec w :=
  if x.msb ^^ b then (x <<< 1) ^^^ feedback else x <<< 1

def bits (b : BitVec n) : List Bool := (List.ofFn fun i : Fin n => b.getLsbD i).reverse

lemma step_xor (feedback x y : BitVec w) (b c : Bool) :
    step feedback (x ^^^ y) (b ^^ c) = step feedback x b ^^^ step feedback y c := by
  have hcancel : ∀ a d e : BitVec w, a ^^^ e ^^^ (d ^^^ e) = a ^^^ d := by
    intro a d e
    rw [BitVec.xor_comm d e, BitVec.xor_assoc, ← BitVec.xor_assoc e e d, BitVec.xor_self,
      BitVec.zero_xor]
  simp only [step, BitVec.msb_xor, BitVec.shiftLeft_xor_distrib]
  cases x.msb <;> cases y.msb <;> cases b <;> cases c <;>
    simp [hcancel, BitVec.xor_assoc, BitVec.xor_comm feedback]

lemma eq_zero_of_twoPow (hf : ∀ x y, f (x ^^^ y) = f x ^^^ f y)
    (h : ∀ i < n, f (BitVec.twoPow n i) = 0) (x : BitVec n) : f x = 0 := by
  have hzero : f 0 = 0 := by simpa using hf 0 0
  -- the bits from `k` on are clear
  have hlow : ∀ k ≤ n, ∀ x : BitVec n, (∀ i, k ≤ i → x.getLsbD i = false) → f x = 0 := by
    intro k
    induction k with
    | zero =>
      intro _ x hx
      obtain rfl : x = 0 := BitVec.eq_of_getLsbD_eq fun i _ => by simp [hx i (Nat.zero_le i)]
      exact hzero
    | succ k ih =>
      intro hk x hx
      cases hbit : x.getLsbD k with
      | false =>
        refine ih (by omega) x fun i hi => ?_
        rcases Nat.eq_or_lt_of_le hi with rfl | hi
        · exact hbit
        · exact hx i hi
      | true =>
        have hrest : f (x ^^^ BitVec.twoPow n k) = 0 := by
          refine ih (by omega) _ fun i hi => ?_
          rcases Nat.eq_or_lt_of_le hi with rfl | hi
          · simp [hbit, show k < n by omega]
          · simp [hx i hi, show k ≠ i by omega]
        rw [hf, h k (by omega)] at hrest
        simpa using hrest
  exact hlow n le_rfl x fun i hi => BitVec.getLsbD_of_ge x i hi

lemma ext_twoPow {g : BitVec n → BitVec w} (hf : ∀ x y, f (x ^^^ y) = f x ^^^ f y)
    (hg : ∀ x y, g (x ^^^ y) = g x ^^^ g y)
    (h : ∀ i < n, f (BitVec.twoPow n i) = g (BitVec.twoPow n i)) (x : BitVec n) : f x = g x := by
  have hzero := eq_zero_of_twoPow (f := fun x => f x ^^^ g x) ?_ ?_ x
  · exact BitVec.xor_eq_zero_iff.mp hzero
  · intro x y
    simp only [hf, hg]
    ac_rfl
  · intro i hi
    simp [h i hi]

def coefficient (b : Bool) : ZMod 2 := b.toNat

@[simp] lemma coefficient_false : coefficient false = 0 := rfl

@[simp] lemma coefficient_true : coefficient true = 1 := rfl

noncomputable def toPoly (x : BitVec w) : (ZMod 2)[X] :=
  ∑ i ∈ Finset.range w, C (coefficient (x.getLsbD i)) * X ^ i

noncomputable def ofBits (l : List Bool) : (ZMod 2)[X] :=
  l.foldl (fun p b => X * p + C (coefficient b)) 0

noncomputable def modulus (feedback : BitVec w) : (ZMod 2)[X] := X ^ w + toPoly feedback

lemma coeff_toPoly (x : BitVec w) (k : ℕ) : (toPoly x).coeff k = coefficient (x.getLsbD k) := by
  simp only [toPoly, finsetSum_coeff, coeff_C_mul, coeff_X_pow, mul_ite, mul_one, mul_zero,
    Finset.sum_ite_eq, Finset.mem_range]
  split
  · rfl
  next hk =>
    rw [BitVec.getLsbD_of_ge x k (Nat.not_lt.mp hk), coefficient_false]

lemma degree_toPoly_lt (x : BitVec w) : (toPoly x).degree < w := by
  rw [degree_lt_iff_coeff_zero]
  intro k hk
  rw [coeff_toPoly, BitVec.getLsbD_of_ge x k hk, coefficient_false]

lemma toPoly_xor (x y : BitVec w) : toPoly (x ^^^ y) = toPoly x + toPoly y := by
  ext k
  rw [coeff_add, coeff_toPoly, coeff_toPoly, coeff_toPoly, BitVec.getLsbD_xor]
  cases x.getLsbD k <;> cases y.getLsbD k <;> decide

lemma toPoly_shiftLeft (hw : 0 < w) (x : BitVec w) :
    toPoly (x <<< 1) = X * toPoly x + C (coefficient x.msb) * X ^ w := by
  ext k
  rw [coeff_add, coeff_toPoly, coeff_C_mul, coeff_X_pow, BitVec.getLsbD_shiftLeft,
    BitVec.msb_eq_getLsbD_last]
  cases k with
  | zero => simp [Nat.ne_of_lt hw]
  | succ k =>
    rw [coeff_X_mul, coeff_toPoly]
    by_cases hk : k + 1 = w
    · subst hk
      rw [Nat.add_sub_cancel, if_pos rfl, mul_one, CharTwo.add_self_eq_zero]
      simp
    · by_cases hlt : k + 1 < w
      · simp [hlt, hk]
      · simp [hlt, hk, BitVec.getLsbD_of_ge x k (by omega)]

lemma toPoly_step (hw : 0 < w) (feedback x : BitVec w) (b : Bool) :
    toPoly (step feedback x b) = X * toPoly x + C (coefficient b) * X ^ w +
      C (coefficient (x.msb ^^ b)) * modulus feedback := by
  have htwo : X ^ w + X ^ w = (0 : (ZMod 2)[X]) := CharTwo.add_self_eq_zero _
  have hshift := toPoly_shiftLeft hw x
  unfold step modulus
  cases hmsb : x.msb <;> cases b <;> rw [hmsb] at hshift <;>
    simp only [Bool.xor_false, Bool.xor_true, Bool.not_false, Bool.not_true, Bool.false_eq_true,
      if_true, if_false, toPoly_xor, hshift, coefficient_false, coefficient_true, C_0, C_1]
  · ring
  · linear_combination -htwo
  · ring
  · ring

lemma toPoly_foldl_step (hw : 0 < w) (feedback : BitVec w) (l : List Bool) :
    toPoly (l.foldl (step feedback) 0) = (ofBits l * X ^ w) %ₘ modulus feedback := by
  have hdvd : modulus feedback ∣ toPoly (l.foldl (step feedback) 0) - ofBits l * X ^ w := by
    induction l using List.reverseRecOn with
    | nil => simp [ofBits, toPoly]
    | append_singleton l b ih =>
      obtain ⟨q, hq⟩ := ih
      rw [ofBits, foldl_append, foldl_append, foldl_cons, foldl_cons,
        foldl_nil, foldl_nil, ← ofBits, toPoly_step hw]
      refine ⟨X * q + C (coefficient ((l.foldl (step feedback) 0).msb ^^ b)), ?_⟩
      linear_combination X * hq
  have hmonic : (modulus feedback).Monic := monic_X_pow_add (degree_toPoly_lt feedback)
  have hdegree : (modulus feedback).degree = w := by
    rw [modulus, degree_add_eq_left_of_degree_lt, degree_X_pow]
    rw [degree_X_pow]
    exact degree_toPoly_lt feedback
  rw [← modByMonic_eq_of_dvd_sub hmonic hdvd, eq_comm, modByMonic_eq_self_iff hmonic, hdegree]
  exact degree_toPoly_lt _

end ShiftRegister
