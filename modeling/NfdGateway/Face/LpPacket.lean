import Mathlib

/-! NDNLPv2 link-layer packets, as far as fragmentation and reassembly look at them. -/
namespace NfdGateway.Face

abbrev Bytes := List UInt8

def isElement : Bytes → Bool
  | _ :: length :: value => value.length = length.toNat
  | _ => false

abbrev Sequence := BitVec 64

abbrev EndpointId := BitVec 64

/-- `lp::Packet`. Fields are `none` when absent, `headers` are the other header fields, of type
`H`, and the default packet has no field at all. -/
structure LpPacket (H : Type) where
  sequence : Option Sequence := none
  fragIndex : Option ℕ := none
  fragCount : Option ℕ := none
  headers : List H := []
  fragment : Option Bytes := none
deriving DecidableEq

def sizeOfVarNumber (n : ℕ) : ℕ :=
  if n < 253 then 1 else if n ≤ 0xffff then 3 else if n ≤ 0xffffffff then 5 else 9

def sizeOfNonNegativeInteger (n : ℕ) : ℕ :=
  if n ≤ 0xff then 1 else if n ≤ 0xffff then 2 else if n ≤ 0xffffffff then 4 else 8

def sizeOfElement (length : ℕ) : ℕ := 1 + sizeOfVarNumber length + length

def sizeOfNumberField (field : Option ℕ) : ℕ :=
  (field.map fun n => sizeOfElement (sizeOfNonNegativeInteger n)).getD 0

namespace LpPacket

variable {H : Type}

def isBare (p : LpPacket H) : Bool :=
  p.sequence.isNone && p.fragIndex.isNone && p.fragCount.isNone && p.headers.isEmpty

def sizeOfHeaders (headerSize : H → ℕ) (p : LpPacket H) : ℕ :=
  sizeOfNumberField (p.sequence.map BitVec.toNat) + sizeOfNumberField p.fragIndex +
    sizeOfNumberField p.fragCount + (p.headers.map headerSize).sum

def wireSize (headerSize : H → ℕ) (p : LpPacket H) : ℕ :=
  let payload := (p.fragment.map List.length).getD 0
  if p.isBare then payload
  else sizeOfElement (p.sizeOfHeaders headerSize + sizeOfElement payload)

end LpPacket

lemma sizeOfElement_le (n : ℕ) : sizeOfElement n ≤ 10 + n := by
  unfold sizeOfElement sizeOfVarNumber
  split
  · omega
  split
  · omega
  · split <;> omega

lemma sizeOfNumberField_le (field : Option ℕ) :
    sizeOfNumberField field ≤ if field.isSome then 10 else 0 := by
  cases field with
  | none => exact Nat.le_refl 0
  | some n =>
    have hsize : ∀ k ≤ 8, sizeOfElement k ≤ 10 := by
      intro k hk
      unfold sizeOfElement sizeOfVarNumber
      rw [if_pos (by omega)]
      omega
    refine hsize _ ?_
    unfold sizeOfNonNegativeInteger
    split
    · omega
    split
    · omega
    · split <;> omega

lemma LpPacket.wireSize_le {H : Type} (headerSize : H → ℕ) (p : LpPacket H) :
    p.wireSize headerSize ≤ 20 + (if p.sequence.isSome then 10 else 0) +
      (if p.fragIndex.isSome then 10 else 0) + (if p.fragCount.isSome then 10 else 0) +
      (p.headers.map headerSize).sum + (p.fragment.map List.length).getD 0 := by
  unfold wireSize
  dsimp only
  split
  · omega
  have houter := sizeOfElement_le (p.sizeOfHeaders headerSize +
    sizeOfElement ((p.fragment.map List.length).getD 0))
  have hinner := sizeOfElement_le ((p.fragment.map List.length).getD 0)
  have hseq := sizeOfNumberField_le (p.sequence.map BitVec.toNat)
  have hindex := sizeOfNumberField_le p.fragIndex
  have hcount := sizeOfNumberField_le p.fragCount
  rw [Option.isSome_map] at hseq
  unfold sizeOfHeaders at houter ⊢
  omega

end NfdGateway.Face
