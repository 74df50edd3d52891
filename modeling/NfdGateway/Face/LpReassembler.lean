import NfdGateway.Face.LpPacket
import NfdGateway.Lib.Transition

/-! The reassembler of link-layer fragments, for packets of any shape from any endpoint.

The map of partial packets is a function, and so is the scheduler's queue of drop timers. An
assignment to `dropTimer` and the end of a partial packet cancel the event it holds. -/
namespace NfdGateway.Face

open Transition Function

variable {H : Type}

abbrev Key := EndpointId × Sequence

abbrev EventId := ℕ

structure PartialPacket (H : Type) where
  fragments : List (LpPacket H) := []
  fragCount : ℕ := 0
  nReceivedFragments : ℕ := 0
  dropTimer : Option EventId := none

structure LpReassembler (H : Type) where
  nMaxFragments : ℕ := 400
  partialPackets : Key → Option (PartialPacket H) := fun _ => none
  /-- The drop timers that are pending, with the key each of them is bound to. -/
  scheduled : EventId → Option Key := fun _ => none
  nextEvent : EventId := 0

inductive Received (H : Type)
  | incomplete
  | complete (netPkt : Bytes) (firstFrag : LpPacket H)
  | malformed

def PartialPacket.doReassembly (pp : PartialPacket H) : Option Bytes :=
  (pp.fragments.mapM LpPacket.fragment).map List.flatten

namespace LpReassembler

def store (r : LpReassembler H) (key : Key) (pp : PartialPacket H) : LpReassembler H :=
  { r with partialPackets := update r.partialPackets key (some pp) }

def cancel (r : LpReassembler H) (event : Option EventId) : LpReassembler H :=
  { r with scheduled := fun id => if event = some id then none else r.scheduled id }

def setDropTimer (r : LpReassembler H) (key : Key) (pp : PartialPacket H) : LpReassembler H :=
  let id := r.nextEvent
  let r := { r with
    nextEvent := id + 1
    scheduled := update r.scheduled id (some key) }
  (r.cancel pp.dropTimer).store key { pp with dropTimer := some id }

def erase (r : LpReassembler H) (key : Key) : LpReassembler H :=
  let r := r.cancel ((r.partialPackets key).bind fun pp => pp.dropTimer)
  { r with partialPackets := update r.partialPackets key none }

def addFragment (isBlock : Bytes → Bool) (r : LpReassembler H) (key : Key) (pp : PartialPacket H)
    (fragIndex : ℕ) (packet : LpPacket H) : Option (LpReassembler H × Received H) :=
  match pp.fragments[fragIndex]? with
  | none => none
  | some slot =>
    if slot.sequence.isSome then some (r.store key pp, .incomplete)
    else
      let pp := { pp with
        fragments := pp.fragments.set fragIndex packet
        nReceivedFragments := pp.nReceivedFragments + 1 }
      if pp.nReceivedFragments = pp.fragCount then
        match pp.doReassembly, pp.fragments[0]? with
        | some reassembled, some firstFrag =>
          if isBlock reassembled then
            some ((r.store key pp).erase key, .complete reassembled firstFrag)
          else some (r.store key pp, .malformed)
        | _, _ => none
      else some (r.setDropTimer key pp, .incomplete)

/-- `isBlock` tells whether bytes are one TLV element, so that `Block` does not throw. `none` where
an assertion fails or an index is out of bounds. -/
def receiveFragment (isBlock : Bytes → Bool) (r : LpReassembler H) (remoteEndpoint : EndpointId)
    (packet : LpPacket H) : Option (LpReassembler H × Received H) :=
  match packet.fragment with
  | none => none
  | some payload =>
    let fragIndex := packet.fragIndex.getD 0
    let fragCount := packet.fragCount.getD 1
    if fragCount ≤ fragIndex then some (r, .incomplete)
    else if r.nMaxFragments < fragCount then some (r, .incomplete)
    else if fragIndex = 0 ∧ fragCount = 1 then
      some (r, if isBlock payload then .complete payload packet else .malformed)
    else
      match packet.sequence with
      | none => some (r, .incomplete)
      | some sequence =>
        let key := (remoteEndpoint, sequence - BitVec.ofNat 64 fragIndex)
        let pp := (r.partialPackets key).getD {}
        if pp.fragCount = 0 then
          r.addFragment isBlock key { pp with
            fragCount := fragCount
            nReceivedFragments := 0
            fragments := List.replicate fragCount {} } fragIndex packet
        else if fragCount ≠ pp.fragCount then some (r, .incomplete)
        else r.addFragment isBlock key pp fragIndex packet

def timeoutPartialPacket (r : LpReassembler H) (key : Key) : LpReassembler H :=
  match r.partialPackets key with
  | none => r
  | some _ => r.erase key

inductive Event (H : Type)
  | receive (remoteEndpoint : EndpointId) (packet : LpPacket H)
  | dropTimer (id : EventId)

def step (isBlock : Bytes → Bool) (r : LpReassembler H) : Event H → Option (LpReassembler H)
  | .receive remoteEndpoint packet => (r.receiveFragment isBlock remoteEndpoint packet).map (·.1)
  | .dropTimer id => do
    let key ← r.scheduled id
    return (r.cancel (some id)).timeoutPartialPacket key

end LpReassembler

end NfdGateway.Face
