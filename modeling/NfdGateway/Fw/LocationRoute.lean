import NfdGateway.Fw.Forwarder
import NfdGateway.Location.Strategy

/-! `LocationRouteStrategy` in the forwarder: which PIT entry each of its one-second timers
holds, and what it sends. -/
namespace NfdGateway.Fw

open Location (Coordinate Params NeighborsList RouteTable calNexthos routingtableUpdate)

structure ExpiryTimer where
  pitEntry : PitEntryId
  expiresAt : ℕ
deriving DecidableEq

structure LocationRoute where
  neighbors : NeighborsList := []
  table : RouteTable := []
  incoming : FaceId := 0
  timers : List ExpiryTimer := []
deriving DecidableEq

def LocationRoute.gateway (st : LocationRoute) : Location.State where
  neighbors := st.neighbors
  table := st.table
  incoming := st.incoming

namespace LocationRoute

inductive Event
  | ndpRound (ns : NeighborsList)
  | interestExpiry (t : ExpiryTimer)

variable {C S : Type} (P : Params) (destOf : Name C → Option Coordinate)

def destination (fw : Forwarder C S) (e : PitEntryId) : Option Coordinate :=
  fw.entries[e]?.bind fun x => destOf x.interest.name

def sendAll (e : PitEntryId) (faces : List FaceId) : List Action :=
  faces.map fun f => .sendInterest e f none

def afterReceiveInterest (fw : Forwarder C S) (inFace : FaceId) (interest : InterestPacket C S)
    (e : PitEntryId) (st : LocationRoute) : Option (LocationRoute × List Action) := do
  let x ← fw.entries[e]?
  if x.hasPendingOutRecords fw.now then return (st, [])
  else
    let st := { st with incoming := inFace }
    let dest ← destOf interest.name
    let o ← (calNexthos P st.gateway dest).toOption
    let faces ← o.faces.mapM id
    let timers := if o.timer then ⟨e, fw.now + milliseconds 1000⟩ :: st.timers else st.timers
    return ({ st with table := o.table, timers := timers }, sendAll e faces)

def beforeSatisfyInterest (fw : Forwarder C S) (e : PitEntryId) (inFace : FaceId) (_ : Data C)
    (st : LocationRoute) : Option (LocationRoute × List Action) := do
  if st.neighbors.any fun n => n.2 = inFace then
    let dest ← destination destOf fw e
    return ({ st with table := Location.beforeSatisfyInterest st.gateway inFace dest }, [])
  else return (st, [])

def beforeExpirePendingInterest (fw : Forwarder C S) (e : PitEntryId) (st : LocationRoute) :
    Option (LocationRoute × List Action) := do
  let dest ← destination destOf fw e
  return ({ st with table := Location.beforeExpirePendingInterest st.table dest }, [])

def interestExpiry (fw : Forwarder C S) (t : ExpiryTimer) (st : LocationRoute) :
    Option (LocationRoute × List Action) := do
  let dest ← destination destOf fw t.pitEntry
  let r := Location.interestExpiry st.gateway dest
  return ({ st with table := r.1, timers := st.timers.erase t }, sendAll t.pitEntry r.2)

def ndpRound (ns : NeighborsList) (st : LocationRoute) : LocationRoute :=
  { st with neighbors := ns, table := routingtableUpdate P st.table ns }

def strategy : Strategy C S LocationRoute Event where
  afterReceiveInterest := afterReceiveInterest P destOf
  beforeSatisfyInterest := beforeSatisfyInterest destOf
  beforeExpirePendingInterest := beforeExpirePendingInterest destOf
  afterReceiveNack := fun _ _ _ _ _ st => some (st, [])
  own := fun fw ev st =>
    match ev with
    | .ndpRound ns => some (ndpRound P ns st, [])
    | .interestExpiry t =>
      if t ∈ st.timers ∧ t.expiresAt ≤ fw.now then interestExpiry destOf fw t st else none

end LocationRoute

end NfdGateway.Fw
