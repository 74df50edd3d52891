import NfdGateway.Lib.Transition
import NfdGateway.Location.RouteTable

/-! `LocationRouteStrategy`: next hop calculation, the four callbacks that rewrite the
route table, and the gateway as a transition system. Each event runs to completion. -/
namespace NfdGateway.Location

open Transition

inductive Fault
  | endIterator | nullFace | invalidIterator
deriving DecidableEq

/-- The locals of `cal_Nexthos` that its final part reads. `itr` is `route_table_itr`,
as a position in the table; `none` is the end iterator. -/
structure Choice where
  minweight : ℚ := maxWeight
  minface : Option FaceId := none
  minnexthop : Coordinate := {}
  itr : Option ℕ

def Choice.start (t : RouteTable) : Choice := { itr := if t.isEmpty then none else some 0 }

structure Outcome where
  faces : List (Option FaceId)
  table : RouteTable
  timer : Bool

structure State where
  neighbors : NeighborsList := []
  table : RouteTable := []
  incoming : FaceId := 0
  timers : List Coordinate := []
deriving DecidableEq

def unknownEntry (P : Params) (dest : Coordinate) (n : Coordinate × FaceId) : RouteTableEntry :=
  ⟨n.1, P.distance n.1 dest, .unknown, .notsending, n.2⟩

def Choice.shift (i : ℕ) (c : Choice) : Choice :=
  { c with itr := c.itr.map fun j => if i ≤ j then j + 1 else j }

/-- The lookup branch keeps the table split at `range.first`: an element linked before it
is not seen by later walks over `range`. -/
structure Walk where
  pre : RouteTable
  post : RouteTable
  choice : Choice

def Walk.table (w : Walk) : RouteTable := w.pre ++ w.post

def Walk.insert (P : Params) (dest : Coordinate) (e : RouteTableEntry) (w : Walk) : Walk :=
  let i := w.table.place P dest
  if i ≤ w.pre.length then ⟨w.pre.insertIdx i (dest, e), w.post, w.choice.shift i⟩
  else ⟨w.pre, w.post.insertIdx (i - w.pre.length) (dest, e), w.choice.shift i⟩

def addMissing (P : Params) (dest : Coordinate) (w : Walk) (n : Coordinate × FaceId) : Walk :=
  if (w.post.equalRange dest).any (·.nexthop = n.1) then w
  else w.insert P dest (unknownEntry P dest n)

def refresh (P : Params) (s : State) (dest : Coordinate) : Walk :=
  s.neighbors.foldl (addMissing P dest)
    ⟨s.table.takeWhile (·.1 ≠ dest), s.table.dropWhile (·.1 ≠ dest), .start s.table⟩

def forgetMinlocal (e : RouteTableEntry) : RouteTableEntry :=
  if e.reach = .minlocal then { e with reach := .unknown } else e

def Choice.consider (dest : Coordinate) (c : Choice)
    (p : (Coordinate × RouteTableEntry) × ℕ) : Choice :=
  if p.1.1 = dest ∧ p.1.2.weight < c.minweight ∧ p.1.2.reach ≠ .unreachable then
    ⟨p.1.2.weight, some p.1.2.face, p.1.2.nexthop, some p.2⟩
  else c

def search (t : RouteTable) (dest : Coordinate) (c : Choice) : Choice :=
  t.zipIdx.foldl (Choice.consider dest) c

def addNeighbor (P : Params) (dest : Coordinate) (incoming : FaceId)
    (r : RouteTable × Choice) (n : Coordinate × FaceId) : RouteTable × Choice :=
  let e := unknownEntry P dest n
  let i := r.1.place P dest
  (r.1.insert P dest e,
    if e.weight < r.2.minweight ∧ n.2 ≠ incoming then ⟨e.weight, some n.2, n.1, some i⟩
    else r.2.shift i)

def firstLookup (P : Params) (s : State) (dest : Coordinate) : RouteTable × Choice :=
  s.neighbors.foldl (addNeighbor P dest s.incoming) (s.table, .start s.table)

def markFlood (dest n : Coordinate) (t : RouteTable) : RouteTable :=
  t.modify (t.findIdx fun p => p.1 = dest ∧ p.2.nexthop = n)
    fun p => (p.1, { p.2 with send := .flood })

def floodTargets (s : State) (minnexthop : Coordinate) : NeighborsList :=
  s.neighbors.filter fun n => n.1 ≠ minnexthop ∧ n.2 ≠ s.incoming

def sendChoice (P : Params) (s : State) (dest : Coordinate) (t : RouteTable) (c : Choice) :
    Except Fault Outcome :=
  if c.minnexthop = P.self then
    let targets := floodTargets s c.minnexthop
    let t := targets.foldl (fun t n => markFlood dest n.1 t) t
    match c.itr with
    | none => .error .endIterator
    | some i =>
      .ok ⟨targets.map fun n => some n.2,
        t.modify i fun p => (p.1, { p.2 with reach := .minlocal }), false⟩
  else
    match c.itr with
    | none => .error .endIterator
    | some i =>
      .ok ⟨[c.minface], t.modify i fun p => (p.1, { p.2 with send := .sending }), true⟩

def lookupBranch (P : Params) (s : State) (dest : Coordinate) : Except Fault Outcome :=
  let w := refresh P s dest
  let range := w.post.equalRange dest
  if range.all (·.reach = .unreachable) then .ok ⟨[], w.table, false⟩
  else
    match range.find? (·.reach = .reachable) with
    | some e =>
      match neighborFace s.neighbors e.nexthop with
      | some f => .ok ⟨[some f], w.table, false⟩
      | none => .error .endIterator
    | none =>
      let t := w.pre ++ w.post.mapDest dest forgetMinlocal
      sendChoice P s dest t (search t dest w.choice)

/-- Whether an insertion of the lookup branch rehashes the table: `range`, taken before, is walked
again after each insertion. -/
def refreshRehashes (P : Params) (dest : Coordinate) : NeighborsList → Walk → Bool
  | [], _ => false
  | n :: ns, w =>
    !(w.post.equalRange dest).any (·.nexthop = n.1) && P.rehashes w.table ||
      refreshRehashes P dest ns (addMissing P dest w n)

/-- Whether the table has been rehashed since `route_table_itr` was last set, when the first lookup
is over. -/
def itrOutdated (P : Params) (dest : Coordinate) (incoming : FaceId) :
    NeighborsList → RouteTable × Choice → Bool → Bool
  | [], _, outdated => outdated
  | n :: ns, r, outdated =>
    itrOutdated P dest incoming ns (addNeighbor P dest incoming r n)
      (!decide (P.distance n.1 dest < r.2.minweight ∧ n.2 ≠ incoming) &&
        (outdated || P.rehashes r.1))

/-- `cal_Nexthos` uses an iterator that one of its insertions has invalidated. -/
def usesInvalid (P : Params) (s : State) (dest : Coordinate) : Bool :=
  match s.table.find dest with
  | some e => e.reach ≠ .neighbor && refreshRehashes P dest s.neighbors
      ⟨s.table.takeWhile (·.1 ≠ dest), s.table.dropWhile (·.1 ≠ dest), .start s.table⟩
  | none => itrOutdated P dest s.incoming s.neighbors (s.table, .start s.table) false

def calNexthos (P : Params) (s : State) (dest : Coordinate) : Except Fault Outcome :=
  if usesInvalid P s dest then .error .invalidIterator
  else
    match s.table.find dest with
    | some e =>
      if e.reach = .neighbor then .ok ⟨[some e.face], s.table, false⟩
      else lookupBranch P s dest
    | none =>
      let r := firstLookup P s dest
      sendChoice P s dest r.1 r.2

/-- `afterReceiveInterest`: an Interest with pending out-records is not forwarded again;
printing the chosen faces dereferences them. -/
def afterReceiveInterest (P : Params) (s : State) (inFace : FaceId) (dest : Coordinate)
    (hasPendingOutRecords : Bool) : Except Fault State :=
  if hasPendingOutRecords then .ok s
  else
    let s := { s with incoming := inFace }
    match calNexthos P s dest with
    | .error e => .error e
    | .ok o =>
      if none ∈ o.faces then .error .nullFace
      else .ok { s with
        table := o.table
        timers := if o.timer then dest :: s.timers else s.timers }

def sendingCd (es : List RouteTableEntry) : Coordinate :=
  es.foldl (fun c e => if e.send = .sending then e.nexthop else c) {}

def giveUpOrFlood (e : RouteTableEntry) : RouteTableEntry :=
  if e.send = .sending then { e with reach := .unreachable, send := .notsending }
  else { e with send := .flood }

def alreadyFlooded (t : RouteTable) (dest : Coordinate) : Bool :=
  (t.equalRange dest).any fun e => e.reach = .minlocal ∨ e.send = .received

def interestExpiry (s : State) (dest : Coordinate) : RouteTable × List FaceId :=
  if alreadyFlooded s.table dest then (s.table, [])
  else
    (s.table.mapDest dest giveUpOrFlood,
      (s.neighbors.filter (·.1 ≠ sendingCd (s.table.equalRange dest))).map Prod.snd)

def RouteTableEntry.Waiting (e : RouteTableEntry) : Prop :=
  e.send = .flood ∨ e.send = .sending

instance (e : RouteTableEntry) : Decidable e.Waiting := by
  unfold RouteTableEntry.Waiting; infer_instance

def expireEntry (e : RouteTableEntry) : RouteTableEntry :=
  if e.Waiting then { e with reach := .unreachable, send := .notsending } else e

def beforeExpirePendingInterest (t : RouteTable) (dest : Coordinate) : RouteTable :=
  t.mapDest dest expireEntry

def satisfyEntry (n : Coordinate) (e : RouteTableEntry) : RouteTableEntry :=
  if e.nexthop = n ∧ e.reach ≠ .neighbor then { e with reach := .reachable, send := .received }
  else if e.Waiting then { e with reach := .unknown, send := .notsending }
  else e

def beforeSatisfyInterest (s : State) (inFace : FaceId) (dest : Coordinate) : RouteTable :=
  (s.neighbors.filter (·.2 = inFace)).foldl
    (fun t n => t.mapDest dest (satisfyEntry n.1)) s.table

inductive Event
  | ndpRound (ns : NeighborsList)
  | interest (inFace : FaceId) (dest : Coordinate) (hasPendingOutRecords : Bool)
  | data (inFace : FaceId) (dest : Coordinate)
  | pitExpiry (dest : Coordinate)
  | floodTimer (dest : Coordinate)

/-- One event of the gateway; `none` when it runs into a fault or is not enabled. A timer
fires once for every time it was started. -/
def step (P : Params) (s : State) : Event → Option State
  | .ndpRound ns =>
    some { s with neighbors := ns, table := routingtableUpdate P s.table ns }
  | .interest f dest p => (afterReceiveInterest P s f dest p).toOption
  | .data f dest => some { s with table := beforeSatisfyInterest s f dest }
  | .pitExpiry dest => some { s with table := beforeExpirePendingInterest s.table dest }
  | .floodTimer dest =>
    if dest ∈ s.timers then
      some { s with table := (interestExpiry s dest).1, timers := s.timers.erase dest }
    else none

abbrev Reachable (P : Params) (s : State) : Prop :=
  Reach (step P) Any {} s

end NfdGateway.Location
