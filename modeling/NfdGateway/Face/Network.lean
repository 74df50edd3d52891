import NfdGateway.Lib.StdString

/-! Ranges of addresses, read from an address and the length of a prefix. -/
namespace NfdGateway.Ip

open List

/-- `boost::asio::ip::address` with `to_bytes()`. -/
structure Address where
  isV4 : Bool
  bytes : List (BitVec 8)
  size : bytes.length = if isV4 then 4 else 16

/-- `operator<` compares the family and then the bytes. -/
def Address.less (a b : Address) : Prop :=
  a.isV4 ∧ ¬ b.isV4 ∨ a.isV4 = b.isV4 ∧ a.bytes < b.bytes

structure Network where
  minAddress : Address
  maxAddress : Address

def Network.doesContain (n : Network) (address : Address) : Prop :=
  ¬ address.less n.minAddress ∧ ¬ n.maxAddress.less address

/-- The loop that sets the first `mask` bits. `none` is an access outside of the array. -/
def maskBytes (size : ℕ) : ℕ → Option (List (BitVec 8))
  | 0 => some (replicate size 0)
  | i + 1 => (maskBytes size i).bind fun bytes =>
    if i / 8 < size then some (bytes.modify (i / 8) (· ||| 1#8 <<< (7 - i % 8))) else none

/-- The loop over the bytes of the address. -/
def Address.combine (a : Address) (f : BitVec 8 → BitVec 8 → BitVec 8) (mask : List (BitVec 8)) :
    Address where
  isV4 := a.isV4
  bytes := a.bytes.mapIdx fun i b => f b (mask.getD i 0)
  size := length_mapIdx.trans a.size

inductive Reading
  | error
  | outOfBounds
  | network (n : Network)

/-- `operator>>` for the word `networkStr`, given `ip::address::from_string`. -/
def readNetwork (fromString : List Char → Option Address) (networkStr : List Char) : Reading :=
  let position := StdString.find networkStr '/' 0
  if position = StdString.npos then
    match fromString networkStr with
    | none => .error
    | some address => .network ⟨address, address⟩
  else
    match fromString (networkStr.take position),
      StdString.lexicalCast 64 (networkStr.drop (position + 1)) with
    | some address, some mask =>
      match maskBytes address.bytes.length mask with
      | none => .outOfBounds
      | some bytes => .network ⟨address.combine (· &&& ·) bytes,
          address.combine (fun b m => b ||| ~~~ m) bytes⟩
    | _, _ => .error

/-- The bits from the highest one of the first byte on. -/
def bit (bytes : List (BitVec 8)) (i : ℕ) : Bool := (bytes.getD (i / 8) 0).getMsbD (i % 8)

variable {x y : List (BitVec 8)} {u v : BitVec 8} {i m : ℕ}

lemma bit_cons_of_lt (hi : i < 8) : bit (u :: x) i = u.getMsbD i := by
  rw [bit, Nat.div_eq_of_lt hi, Nat.mod_eq_of_lt hi, getD_cons_zero]

lemma bit_cons_add (i : ℕ) : bit (u :: x) (i + 8) = bit x i := by
  rw [bit, bit, Nat.add_div_right _ (by decide), Nat.add_mod_right, getD_cons_succ]

lemma byte_lt (hi : i < 8) (hsame : ∀ j < i, u.getMsbD j = v.getMsbD j)
    (hu : u.getMsbD i = false) (hv : v.getMsbD i = true) : u < v := by
  have hlsb : ∀ w : BitVec 8, ∀ j < 8, w.toNat.testBit (7 - j) = w.getMsbD j := fun w j hj => by
    rw [BitVec.getMsbD_eq_getLsbD, decide_eq_true hj, Bool.true_and]
    rfl
  refine Nat.lt_of_testBit (7 - i) ((hlsb u i hi).trans hu) ((hlsb v i hi).trans hv) ?_
  intro j hj
  by_cases hj8 : j < 8
  · have := hsame (7 - j) (by omega)
    rw [← hlsb u _ (by omega), ← hlsb v _ (by omega)] at this
    rwa [show 7 - (7 - j) = j by omega] at this
  · rw [BitVec.testBit_toNat, BitVec.testBit_toNat, BitVec.getLsbD_of_ge u _ (by omega),
      BitVec.getLsbD_of_ge v _ (by omega)]

lemma byte_lt_iff : u < v ↔ ∃ i < 8, (∀ j < i, u.getMsbD j = v.getMsbD j) ∧
    u.getMsbD i = false ∧ v.getMsbD i = true := by
  constructor
  · intro h
    have hdiff : ∃ i, i < 8 ∧ u.getMsbD i ≠ v.getMsbD i := by
      by_contra hnone
      push Not at hnone
      exact absurd (BitVec.eq_of_getMsbD_eq hnone) (BitVec.ne_of_lt h)
    obtain ⟨hi, hne⟩ := Nat.find_spec hdiff
    have hsame : ∀ j < Nat.find hdiff, u.getMsbD j = v.getMsbD j := fun j hj =>
      not_not.mp fun hj' => Nat.find_min hdiff hj ⟨by omega, hj'⟩
    refine ⟨_, hi, hsame, ?_⟩
    cases hu : u.getMsbD (Nat.find hdiff) with
    | false => exact ⟨rfl, Bool.eq_true_of_not_eq_false fun hv => hne (hu.trans hv.symm)⟩
    | true =>
      have hv := Bool.eq_false_of_not_eq_true fun hv => hne (hu.trans hv.symm)
      have hgt := byte_lt hi (fun j hj => (hsame j hj).symm) hv hu
      exact absurd (Nat.lt_trans h hgt) (Nat.lt_irrefl _)
  · rintro ⟨i, hi, hsame, hu, hv⟩
    exact byte_lt hi hsame hu hv

/-- The order of byte strings is that of the first bit in which they differ. -/
lemma lt_iff_bit (hlen : x.length = y.length) :
    x < y ↔ ∃ i, (∀ j < i, bit x j = bit y j) ∧ bit x i = false ∧ bit y i = true := by
  induction x generalizing y with
  | nil =>
    obtain rfl := length_eq_zero_iff.mp hlen.symm
    simp [bit]
  | cons u x ih =>
    obtain _ | ⟨v, y⟩ := y
    · cases hlen
    rw [cons_lt_cons_iff, byte_lt_iff, ih (Nat.succ.inj hlen)]
    constructor
    · rintro (⟨i, hi, hsame, hu, hv⟩ | ⟨rfl, i, hsame, hx, hy⟩)
      · refine ⟨i, fun j hj => ?_, ?_, ?_⟩
        · rw [bit_cons_of_lt (hj.trans hi), bit_cons_of_lt (hj.trans hi), hsame j hj]
        · rw [bit_cons_of_lt hi, hu]
        · rw [bit_cons_of_lt hi, hv]
      refine ⟨i + 8, fun j hj => ?_, (bit_cons_add i).trans hx, (bit_cons_add i).trans hy⟩
      by_cases hj8 : j < 8
      · rw [bit_cons_of_lt hj8, bit_cons_of_lt hj8]
      · obtain ⟨k, rfl⟩ := Nat.exists_eq_add_of_le' (Nat.le_of_not_lt hj8)
        rw [bit_cons_add, bit_cons_add, hsame k (by omega)]
    rintro ⟨i, hsame, hx, hy⟩
    by_cases hi : i < 8
    · rw [bit_cons_of_lt hi] at hx hy
      refine .inl ⟨i, hi, fun j hj => ?_, hx, hy⟩
      have := hsame j hj
      rwa [bit_cons_of_lt (hj.trans hi), bit_cons_of_lt (hj.trans hi)] at this
    obtain ⟨k, rfl⟩ := Nat.exists_eq_add_of_le' (Nat.le_of_not_lt hi)
    rw [bit_cons_add] at hx hy
    refine .inr ⟨BitVec.eq_of_getMsbD_eq fun j hj => ?_, k, fun j hj => ?_, hx, hy⟩
    · have := hsame j (by omega)
      rwa [bit_cons_of_lt hj, bit_cons_of_lt hj] at this
    · have := hsame (j + 8) (by omega)
      rwa [bit_cons_add, bit_cons_add] at this

lemma bit_modify {k : ℕ} (hk : k / 8 < x.length) :
    bit (x.modify (k / 8) (· ||| 1#8 <<< (7 - k % 8))) i = (bit x i || decide (i = k)) := by
  have hone : ∀ j, (1#8).getMsbD j = decide (j = 7) := by
    intro j
    by_cases hj : j < 8
    · have hall : ∀ j < 8, (1#8).getMsbD j = decide (j = 7) := by decide
      exact hall j hj
    · rw [BitVec.getMsbD_of_ge _ _ (by omega), decide_eq_false (by omega)]
  have hpos : i = k ↔ k / 8 = i / 8 ∧ i % 8 + (7 - k % 8) = 7 := by omega
  rw [bit, bit, getD_eq_getElem?_getD, getElem?_modify, getD_eq_getElem?_getD]
  by_cases hi : k / 8 = i / 8
  · have hsome : x[i / 8]? = some (x.get ⟨i / 8, by omega⟩) := getElem?_eq_getElem (by omega)
    simp [hsome, hi, hpos, BitVec.getMsbD_or, BitVec.getMsbD_shiftLeft, hone]
  · simp [hi, hpos]

lemma maskBytes_eq_none (size : ℕ) (h : 8 * size < m) : maskBytes size m = none := by
  induction m with
  | zero => omega
  | succ i ih =>
    by_cases hi : 8 * size < i
    · rw [maskBytes, ih hi, Option.bind_none]
    have hout : ¬ i / 8 < size := by omega
    rw [maskBytes]
    cases maskBytes size i <;> simp [hout]

lemma maskBytes_spec (size : ℕ) (h : m ≤ 8 * size) :
    ∃ mask, maskBytes size m = some mask ∧ mask.length = size ∧
      ∀ i, bit mask i = decide (i < m) := by
  induction m with
  | zero =>
    refine ⟨_, rfl, length_replicate, fun i => ?_⟩
    simp [bit, getD_eq_getElem?_getD, getElem?_replicate]
    split <;> simp
  | succ k ih =>
    obtain ⟨mask, hmask, hlen, hbit⟩ := ih (by omega)
    have hk : k / 8 < size := by omega
    refine ⟨_, by rw [maskBytes, hmask, Option.bind_some, if_pos hk], ?_, fun i => ?_⟩
    · rw [length_modify, hlen]
    · rw [bit_modify (hlen.symm ▸ hk), hbit, ← Bool.decide_or, decide_eq_decide]
      omega

variable {a b : Address} {mask : List (BitVec 8)}

def Address.width (a : Address) : ℕ := 8 * a.bytes.length

lemma bit_eq_false (h : 8 * x.length ≤ i) : bit x i = false := by
  rw [bit, getD_eq_default _ _ (by omega)]
  simp

lemma bit_combine {f : BitVec 8 → BitVec 8 → BitVec 8} (hi : i < a.width) :
    bit (a.combine f mask).bytes i =
      (f (a.bytes.getD (i / 8) 0) (mask.getD (i / 8) 0)).getMsbD (i % 8) := by
  have hlt : i / 8 < a.bytes.length := by
    rw [Address.width] at hi
    omega
  simp [bit, Address.combine, getD_eq_getElem?_getD, getElem?_mapIdx, getElem?_eq_getElem hlt]

/-- An address of the family is in the range if it begins with the same `m` bits. -/
lemma between_iff (hm : m ≤ a.width) (hmask : ∀ i, bit mask i = decide (i < m))
    (hlen : b.bytes.length = a.bytes.length) :
    (¬ b.bytes < (a.combine (· &&& ·) mask).bytes ∧
      ¬ (a.combine (fun b m => b ||| ~~~ m) mask).bytes < b.bytes) ↔
      ∀ i < m, bit b.bytes i = bit a.bytes i := by
  have hlow : ∀ i < a.width, bit (a.combine (· &&& ·) mask).bytes i =
      (bit a.bytes i && decide (i < m)) := fun i hi => by
    rw [bit_combine hi, BitVec.getMsbD_and, ← hmask]
    rfl
  have hhigh : ∀ i < a.width, bit (a.combine (fun b m => b ||| ~~~ m) mask).bytes i =
      (bit a.bytes i || !decide (i < m)) := fun i hi => by
    rw [bit_combine hi, BitVec.getMsbD_or, BitVec.getMsbD_not, ← hmask]
    simp [bit, Nat.mod_lt]
  have hsize : ∀ f, (a.combine f mask).bytes.length = a.bytes.length := fun f => length_mapIdx
  rw [lt_iff_bit (hlen.trans (hsize _).symm), lt_iff_bit ((hsize _).trans hlen.symm)]
  constructor
  · rintro ⟨hmin, hmax⟩ i
    -- The first bit that is not the same would put the address below or above the range.
    induction i using Nat.strong_induction_on with
    | _ i ih =>
      intro hi
      by_contra hne
      cases hb : bit b.bytes i with
      | false =>
        refine hmin ⟨i, fun j hj => ?_, hb, ?_⟩
        · rw [ih j hj (hj.trans hi), hlow j (by omega), decide_eq_true (hj.trans hi), Bool.and_true]
        · rw [hlow i (by omega), decide_eq_true hi, Bool.and_true]
          exact Bool.eq_true_of_not_eq_false fun ha => hne (hb.trans ha.symm)
      | true =>
        refine hmax ⟨i, fun j hj => ?_, ?_, hb⟩
        · rw [ih j hj (hj.trans hi), hhigh j (by omega), decide_eq_true (hj.trans hi)]
          simp
        · rw [hhigh i (by omega), decide_eq_true hi, Bool.not_true, Bool.or_false]
          exact Bool.eq_false_of_not_eq_true fun ha => hne (hb.trans ha.symm)
  · intro hagree
    constructor
    · rintro ⟨i, -, hb, hmin⟩
      by_cases hi : i < a.width
      · rw [hlow i hi, Bool.and_eq_true, decide_eq_true_iff] at hmin
        rw [hagree i hmin.2, hmin.1] at hb
        cases hb
      · rw [bit_eq_false ((hsize _).symm ▸ Nat.le_of_not_lt hi)] at hmin
        cases hmin
    · rintro ⟨i, -, hmax, hb⟩
      by_cases hi : i < a.width
      · rw [hhigh i hi, Bool.or_eq_false_iff, Bool.not_eq_false', decide_eq_true_iff] at hmax
        rw [hagree i hmax.2, hmax.1] at hb
        cases hb
      · rw [bit_eq_false (hlen.symm ▸ Nat.le_of_not_lt hi)] at hb
        cases hb

/-- What reading `a/m` has to give. -/
def Reading.IsRange (a : Address) (m : ℕ) : Reading → Prop
  | .error => a.width < m
  | .outOfBounds => False
  | .network n => ∀ x : Address, n.doesContain x ↔
      x.isV4 = a.isV4 ∧ ∀ i < m, bit x.bytes i = bit a.bytes i

lemma doesContain_iff (hm : m ≤ a.width) (hmask : ∀ i, bit mask i = decide (i < m)) :
    Network.doesContain ⟨a.combine (· &&& ·) mask, a.combine (fun b m => b ||| ~~~ m) mask⟩ b ↔
      b.isV4 = a.isV4 ∧ ∀ i < m, bit b.bytes i = bit a.bytes i := by
  by_cases hv : b.isV4 = a.isV4
  · have hlen : b.bytes.length = a.bytes.length := by rw [b.size, a.size, hv]
    rw [← between_iff hm hmask hlen]
    simp [Network.doesContain, Address.less, Address.combine, hv]
  refine iff_of_false (fun h => ?_) fun h => hv h.1
  have : ¬ b.less _ ∧ ¬ Address.less _ b := h
  simp only [Address.less, Address.combine] at this
  cases hb : b.isV4 <;> cases ha : a.isV4 <;> simp_all

/-- A length above the width is only found out if it does not fit into a `size_t`. -/
theorem network_range_iff {fromString : List Char → Option Address} {text : List Char}
    (hslash : '/' ∉ text) (hsize : text.length < StdString.npos)
    (haddress : fromString text = some a) (m : ℕ) :
    (readNetwork fromString (text ++ '/' :: Nat.toDigits 10 m)).IsRange a m ↔
      m ≤ a.width ∨ 2 ^ 64 ≤ m := by
  have hfind := StdString.find_append_cons hslash [] (Nat.toDigits 10 m)
  rw [nil_append, length_nil, Nat.zero_add] at hfind
  have hwidth : a.width ≤ 128 := by
    rw [Address.width, a.size]
    split <;> decide
  simp only [readNetwork, hfind, hsize.ne, if_false, take_left, haddress,
    StdString.drop_append_cons, StdString.lexicalCast_toDigits]
  by_cases hm : m < 2 ^ 64
  · rw [if_pos hm]
    by_cases hw : m ≤ a.width
    · obtain ⟨mask, hmask, -, hbit⟩ := maskBytes_spec a.bytes.length hw
      refine iff_of_true ?_ (.inl hw)
      simp only [hmask]
      exact fun x => doesContain_iff hw hbit
    · refine iff_of_false ?_ (by omega)
      simp only [maskBytes_eq_none a.bytes.length (Nat.lt_of_not_le hw)]
      exact id
  · rw [if_neg hm]
    refine iff_of_true ?_ (.inr (by omega))
    show a.width < m
    omega

/-- 10.0.0.1. -/
def sampleAddress : Address := ⟨true, [10, 0, 0, 1], rfl⟩

def sampleText : List Char := ['1', '0', '.', '0', '.', '0', '.', '1']

/-- `10.0.0.1/33` sets a bit behind the last byte. -/
theorem mask_out_of_bounds :
    ¬ (readNetwork (fun _ => some sampleAddress) (sampleText ++ ['/', '3', '3'])).IsRange
      sampleAddress 33 := by
  have hout : readNetwork (fun _ => some sampleAddress) (sampleText ++ ['/', '3', '3']) =
      .outOfBounds := rfl
  rw [hout]
  exact id

/-- `10.0.0.1/8` is the range of the addresses that begin with 10. -/
theorem network_range_iff_class :
    (readNetwork (fun _ => some sampleAddress) (sampleText ++ '/' :: Nat.toDigits 10 8)).IsRange
      sampleAddress 8 :=
  (network_range_iff (by decide) (by decide) rfl 8).mpr (.inl (by decide))

end NfdGateway.Ip
