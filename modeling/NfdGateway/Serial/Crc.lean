import NfdGateway.Lib.ShiftRegister

/-! The checksum of the frames that are written to the serial port. -/
namespace NfdGateway.Serial

open Polynomial ShiftRegister List

def swapBytes (crc : BitVec 16) : BitVec 16 :=
  (((crc.setWidth 32 >>> 8).setWidth 8).setWidth 32 ||| crc.setWidth 32 <<< 8).setWidth 16

def xorAssign (crc : BitVec 16) (v : BitVec 32) : BitVec 16 := (crc.setWidth 32 ^^^ v).setWidth 16

def crcByte (crc : BitVec 16) (b : BitVec 8) : BitVec 16 :=
  let crc := swapBytes crc
  let crc := xorAssign crc (b.setWidth 32)
  let crc := xorAssign crc (((crc.setWidth 32 &&& 0xff).setWidth 8).setWidth 32 >>> 4)
  let crc := xorAssign crc (crc.setWidth 32 <<< 12)
  xorAssign crc ((crc.setWidth 32 &&& 0xff) <<< 5)

def crccal (buf : List (BitVec 8)) : BitVec 16 := buf.foldl crcByte 0

lemma swapBytes_xor (c d : BitVec 16) : swapBytes (c ^^^ d) = swapBytes c ^^^ swapBytes d := by
  unfold swapBytes
  refine BitVec.eq_of_getLsbD_eq fun i hi => ?_
  by_cases hlow : i < 8 <;> simp [hi, hlow]

lemma xorAssign_xor (c d : BitVec 16) (v w : BitVec 32) :
    xorAssign (c ^^^ d) (v ^^^ w) = xorAssign c v ^^^ xorAssign d w := by
  simp only [xorAssign, BitVec.setWidth_xor]
  ac_rfl

lemma and_xor (x y z : BitVec 32) : (x ^^^ y) &&& z = (x &&& z) ^^^ (y &&& z) := by
  ext i
  simp [Bool.and_xor_distrib_right]

lemma crcByte_xor (c d : BitVec 16) (b e : BitVec 8) :
    crcByte (c ^^^ d) (b ^^^ e) = crcByte c b ^^^ crcByte d e := by
  simp only [crcByte, swapBytes_xor, xorAssign_xor, and_xor, BitVec.setWidth_xor,
    BitVec.ushiftRight_xor_distrib, BitVec.shiftLeft_xor_distrib]

def crcFeedback : BitVec 16 := 0x1021

def crcBits (crc : BitVec 16) (b : BitVec 8) : BitVec 16 := (bits b).foldl (step crcFeedback) crc

lemma crcBits_xor (c d : BitVec 16) (b e : BitVec 8) :
    crcBits (c ^^^ d) (b ^^^ e) = crcBits c b ^^^ crcBits d e := by
  simp only [crcBits, bits, ofFn_succ, ofFn_zero, reverse_cons, reverse_nil,
    nil_append, cons_append, foldl_cons, foldl_nil, BitVec.getLsbD_xor,
    step_xor]

lemma crcByte_eq_crcBits (crc : BitVec 16) (b : BitVec 8) : crcByte crc b = crcBits crc b := by
  have hcrc : crcByte crc 0 = crcBits crc 0 := by
    refine ext_twoPow (f := (crcByte · 0)) (g := (crcBits · 0)) ?_ ?_ (by decide) crc
    · exact fun c d => crcByte_xor c d 0 0
    · exact fun c d => crcBits_xor c d 0 0
  have hb : crcByte 0 b = crcBits 0 b := by
    refine ext_twoPow ?_ ?_ (by decide) b
    · exact fun b e => crcByte_xor 0 0 b e
    · exact fun b e => crcBits_xor 0 0 b e
  calc crcByte crc b = crcByte crc 0 ^^^ crcByte 0 b := by simpa using crcByte_xor crc 0 0 b
    _ = crcBits crc 0 ^^^ crcBits 0 b := by rw [hcrc, hb]
    _ = crcBits crc b := by simpa using (crcBits_xor crc 0 0 b).symm

lemma modulus_crcFeedback : modulus crcFeedback = X ^ 16 + X ^ 12 + X ^ 5 + 1 := by
  have hsum : toPoly crcFeedback = ∑ i ∈ Finset.range 16,
      C (coefficient (decide (i = 0 ∨ i = 5 ∨ i = 12))) * X ^ i := by
    refine Finset.sum_congr rfl fun i hi => ?_
    have hbit : ∀ i < 16, crcFeedback.getLsbD i = decide (i = 0 ∨ i = 5 ∨ i = 12) := by decide
    rw [hbit i (Finset.mem_range.mp hi)]
  rw [modulus, hsum]
  simp [Finset.sum_range_succ]
  ring

def bufferBits (buf : List (BitVec 8)) : List Bool := buf.flatMap bits

/-- The code's bytewise computation shifts the bits through the register one by one. -/
lemma crccal_eq_foldl_step (buf : List (BitVec 8)) :
    crccal buf = (bufferBits buf).foldl (step 0x1021) 0 := by
  unfold crccal bufferBits
  rw [foldl_flatMap]
  exact congrArg (fun f => buf.foldl f 0) (funext₂ crcByte_eq_crcBits)

/-- The checksum of a buffer is the remainder of its bits times `X ^ 16`. -/
theorem crccal_remainder (buf : List (BitVec 8)) :
    toPoly (crccal buf) =
        (ofBits (bufferBits buf) * X ^ 16) %ₘ (X ^ 16 + X ^ 12 + X ^ 5 + 1 : (ZMod 2)[X]) ∧
      crccal buf = (bufferBits buf).foldl (step 0x1021) 0 := by
  refine ⟨?_, crccal_eq_foldl_step buf⟩
  rw [crccal_eq_foldl_step, ← modulus_crcFeedback]
  exact toPoly_foldl_step (by decide) crcFeedback _

/-- The check value of this CRC. -/
example : crccal [0x31, 0x32, 0x33, 0x34, 0x35, 0x36, 0x37, 0x38, 0x39] = 0x31c3 := by
  decide +kernel

end NfdGateway.Serial
