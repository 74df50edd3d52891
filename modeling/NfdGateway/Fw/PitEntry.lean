import NfdGateway.Lib.MaxElement
import NfdGateway.Pit.Pit

/-! PIT entries as the forwarding pipelines see them: packets, in-records, out-records and
the questions of `pit-algorithm.cpp`. -/
namespace NfdGateway.Fw

open MaxElement

abbrev FaceId := ℕ

abbrev Nonce := BitVec 32

def milliseconds (n : ℕ) : ℕ := n * 1000000

def defaultInterestLifetime : ℕ := 4000

structure InterestPacket (C S : Type) extends Interest C S where
  nonce : Nonce
  lifetime : Option ℕ := none
deriving DecidableEq

structure Data (C : Type) where
  name : Name C
  freshnessPeriod : Option ℕ := none
deriving DecidableEq

inductive NackReason
  | none | congestion | duplicate | noRoute
deriving DecidableEq

structure FaceRecord where
  face : FaceId
  lastNonce : Nonce
  lastRenewed : ℕ
  expiry : ℕ
deriving DecidableEq

structure InRecord (C S : Type) extends FaceRecord where
  interest : InterestPacket C S
deriving DecidableEq

structure OutRecord extends FaceRecord where
  incomingNack : Option NackReason := none
deriving DecidableEq

structure StragglerTimer where
  expiresAt : ℕ
  isSatisfied : Bool
  dataFreshnessPeriod : Option ℕ
deriving DecidableEq

structure Entry (C S : Type) where
  interest : InterestPacket C S
  inRecords : List (InRecord C S) := []
  outRecords : List OutRecord := []
  unsatisfyTimer : Option ℕ := none
  stragglerTimer : Option StragglerTimer := none
deriving DecidableEq

structure Setting (C S : Type) where
  localhost : C
  localhop : C
  isLocal : FaceId → Bool
  isMultiAccess : FaceId → Bool
  mustBeFresh : S → Bool
  matchesData : Interest C S → Data C → Bool
  /-- `DeadNonceList::getLifetime()`, in milliseconds. -/
  deadNonceLifetime : ℕ

section Records

variable {C S : Type}

def FaceRecord.update (face : FaceId) (now : ℕ) (interest : InterestPacket C S) :
    FaceRecord where
  face := face
  lastNonce := interest.nonce
  lastRenewed := now
  expiry := now + milliseconds (interest.lifetime.getD defaultInterestLifetime)

namespace Entry

def hasInRecords (e : Entry C S) : Bool := !e.inRecords.isEmpty

def getInRecord (e : Entry C S) (face : FaceId) : Option (InRecord C S) :=
  e.inRecords.find? (·.face = face)

def insertOrUpdateInRecord (e : Entry C S) (now : ℕ) (face : FaceId)
    (interest : InterestPacket C S) : Entry C S :=
  let record : InRecord C S := ⟨.update face now interest, interest⟩
  { e with
    inRecords := match e.inRecords.findIdx? (·.face = face) with
      | some i => e.inRecords.set i record
      | none => record :: e.inRecords }

def deleteInRecord (e : Entry C S) (face : FaceId) : Entry C S :=
  { e with inRecords := e.inRecords.eraseP (·.face = face) }

def clearInRecords (e : Entry C S) : Entry C S := { e with inRecords := [] }

def getOutRecord (e : Entry C S) (face : FaceId) : Option OutRecord :=
  e.outRecords.find? (·.face = face)

def insertOrUpdateOutRecord (e : Entry C S) (now : ℕ) (face : FaceId)
    (interest : InterestPacket C S) : Entry C S :=
  { e with
    outRecords := match e.outRecords.findIdx? (·.face = face) with
      | some i =>
        e.outRecords.modify i fun r => { r with toFaceRecord := .update face now interest }
      | none => { FaceRecord.update face now interest with } :: e.outRecords }

def deleteOutRecord (e : Entry C S) (face : FaceId) : Entry C S :=
  { e with outRecords := e.outRecords.eraseP (·.face = face) }

def setIncomingNack (e : Entry C S) (face : FaceId) (reason : NackReason) : Entry C S :=
  { e with
    outRecords := match e.outRecords.findIdx? (·.face = face) with
      | some i => e.outRecords.modify i fun r => { r with incomingNack := some reason }
      | none => e.outRecords }

def hasPendingOutRecords (e : Entry C S) (now : ℕ) : Bool :=
  e.outRecords.any fun r => decide (now ≤ r.expiry)

structure DuplicateNonce where
  inSame : Bool := false
  inOther : Bool := false
  outSame : Bool := false
  outOther : Bool := false
deriving DecidableEq

def findDuplicateNonce (e : Entry C S) (nonce : Nonce) (face : FaceId) : DuplicateNonce where
  inSame := e.inRecords.any fun r => r.lastNonce = nonce ∧ r.face = face
  inOther := e.inRecords.any fun r => r.lastNonce = nonce ∧ r.face ≠ face
  outSame := e.outRecords.any fun r => r.lastNonce = nonce ∧ r.face = face
  outOther := e.outRecords.any fun r => r.lastNonce = nonce ∧ r.face ≠ face

end Entry

def comparePickInterest (outFace : FaceId) (a b : InRecord C S) : Bool :=
  if a.face ≠ outFace ∧ b.face = outFace then false
  else if a.face = outFace ∧ b.face ≠ outFace then true
  else decide (b.lastRenewed < a.lastRenewed)

def Entry.pickInterest (e : Entry C S) (outFace : FaceId) : Option (InRecord C S) :=
  maxElement (comparePickInterest outFace) e.inRecords

def Entry.lastExpiring (e : Entry C S) : Option (InRecord C S) :=
  maxElement (keyLt fun r => r.expiry) e.inRecords

variable [DecidableEq C]

def Setting.violatesLocalhost (E : Setting C S) (face : FaceId) (name : Name C) : Bool :=
  !E.isLocal face && [E.localhost].isPrefixOf name

def violatesScope (E : Setting C S) (e : Entry C S) (outFace : FaceId) : Bool :=
  if E.isLocal outFace then false
  else if [E.localhost].isPrefixOf e.interest.name then true
  else if [E.localhop].isPrefixOf e.interest.name then e.inRecords.all fun r => !E.isLocal r.face
  else false

end Records

end NfdGateway.Fw
