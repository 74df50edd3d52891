import Mathlib

/-! The neighbor list and the route table of the gateway, which are unordered multimaps. They are
modelled as lists in iteration order; the place of a new element is a parameter, so that no result
depends on how equal keys are ordered, and so is whether an insertion rehashes the table. Iterators
stay on their element when another one is inserted, unless the table is rehashed: then they must
not be used any more. -/
namespace NfdGateway.Location

structure Coordinate where
  longitude : ℚ := 0
  latitude : ℚ := 0
deriving DecidableEq

instance : Inhabited Coordinate := ⟨{}⟩

abbrev FaceId := ℕ

inductive ReachStatus
  | neighbor | unreachable | reachable | unknown | minlocal
deriving DecidableEq

inductive SendStatus
  | flood | sending | notsending | received
deriving DecidableEq

structure RouteTableEntry where
  nexthop : Coordinate
  weight : ℚ
  reach : ReachStatus
  send : SendStatus
  face : FaceId
deriving DecidableEq

abbrev RouteTable := List (Coordinate × RouteTableEntry)

abbrev NeighborsList := List (Coordinate × FaceId)

/-- What the tables depend on besides their content: the gateway's own position, the
distance function, the place where the multimap links a new element for a key and whether the
insertion into a table rehashes it. -/
structure Params where
  self : Coordinate
  distance : Coordinate → Coordinate → ℚ
  slot : RouteTable → Coordinate → ℕ
  rehashes : RouteTable → Bool

/-- The gateway at (10, 10), every distance 1, and a multimap as in the C++ library in use: a new
element goes before its equals, and the first element and the 14th rehash the table. -/
def frontParams : Params where
  self := ⟨10, 10⟩
  distance _ _ := 1
  slot t k := t.findIdx (·.1 = k)
  rehashes t := t.length == 0 || t.length == 13

def maxWeight : ℚ := ((2 ^ 1024 - 2 ^ 971 : ℕ) : ℚ)

namespace RouteTable

def equalRange (t : RouteTable) (dest : Coordinate) : List RouteTableEntry :=
  (t.filter (·.1 = dest)).map Prod.snd

def find (t : RouteTable) (dest : Coordinate) : Option RouteTableEntry :=
  (t.equalRange dest).head?

def mapDest (t : RouteTable) (dest : Coordinate) (f : RouteTableEntry → RouteTableEntry) :
    RouteTable :=
  t.map fun p => if p.1 = dest then (p.1, f p.2) else p

def place (P : Params) (t : RouteTable) (k : Coordinate) : ℕ := min (P.slot t k) t.length

def insert (P : Params) (t : RouteTable) (k : Coordinate) (e : RouteTableEntry) : RouteTable :=
  t.insertIdx (place P t k) (k, e)

end RouteTable

def neighborFace (ns : NeighborsList) (n : Coordinate) : Option FaceId :=
  (ns.find? (·.1 = n)).map Prod.snd

def neighborEntry (n : Coordinate × FaceId) : Coordinate × RouteTableEntry :=
  (n.1, ⟨n.1, 0, .neighbor, .notsending, n.2⟩)

def routingtableUpdate (P : Params) (t : RouteTable) (ns : NeighborsList) : RouteTable :=
  ns.foldl (fun t n => t.insert P n.1 (neighborEntry n).2)
    (t.filter fun p => p.2.reach ≠ .neighbor)

end NfdGateway.Location
