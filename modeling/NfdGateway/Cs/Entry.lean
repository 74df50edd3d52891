import Mathlib

/-! Content store entries: the Data, when it becomes stale, and the order of the table. -/
namespace NfdGateway.Cs

abbrev Name (C : Type) := List C

abbrev Time := ℤ

/-- The name components of ndn-cxx, in canonical order: implicit digests are below all others, and
nothing is between a component and its successor. -/
structure Components (C : Type) [LinearOrder C] where
  isImplicitSha256Digest : C → Bool
  getSuccessor : C → C
  digest_lt : ∀ a b, isImplicitSha256Digest a = true → isImplicitSha256Digest b = false → a < b
  lt_getSuccessor : ∀ a b, b < getSuccessor a ↔ b ≤ a

def numberComponents : Components ℕ where
  isImplicitSha256Digest c := c < 100
  getSuccessor c := c + 1
  digest_lt := by
    intro a b ha hb
    simp only [decide_eq_true_eq, decide_eq_false_iff_not] at ha hb
    omega
  lt_getSuccessor _ _ := Nat.lt_succ_iff

/-- A Data packet. `noCache` tells whether it has the CachePolicy tag with NO_CACHE; `content` is
what else an Interest may look at. -/
structure Data (C X : Type) where
  name : Name C
  digest : C
  freshnessPeriod : ℤ := -1
  noCache : Bool := false
  content : X

def Data.getFullName {C X : Type} (data : Data C X) : Name C := data.name ++ [data.digest]

structure Interest (C S : Type) where
  name : Name C
  childSelector : ℤ := 0
  mustBeFresh : Bool := false
  selectors : S

def matchesName (interest : Interest ℕ Unit) (data : Data ℕ Unit) : Bool :=
  interest.name.isPrefixOf data.getFullName

abbrev EntryId := ℕ

structure Entry (C X : Type) where
  id : EntryId
  data : Data C X
  isUnsolicited : Bool
  staleTime : Option Time := none

namespace Entry

variable {C X S : Type}

def isStale (e : Entry C X) (now : Time) : Bool := e.staleTime.any (· < now)

def canStale (e : Entry C X) : Bool := e.staleTime.isSome

def updateStaleTime (e : Entry C X) (now : Time) : Entry C X :=
  { e with
    staleTime := if 0 ≤ e.data.freshnessPeriod then some (now + e.data.freshnessPeriod) else none }

def setData (e : Entry C X) (data : Data C X) (isUnsolicited : Bool) (now : Time) : Entry C X :=
  { e with data := data, isUnsolicited := isUnsolicited }.updateStaleTime now

def unsetUnsolicited (e : Entry C X) (now : Time) : Entry C X := e.setData e.data false now

def canSatisfy (matchesData : Interest C S → Data C X → Bool) (e : Entry C X)
    (interest : Interest C S) (now : Time) : Bool :=
  if !matchesData interest e.data then false
  else if interest.mustBeFresh && e.isStale now then false
  else true

end Entry

def canonicalCompare {α : Type} [LinearOrder α] (a b : α) : Ordering := compare a b

variable {C X : Type} [LinearOrder C]

def compareQueryWithData (K : Components C) (queryName : Name C) (data : Data C X) : Ordering :=
  let queryIsFullName := queryName.getLast?.any K.isImplicitSha256Digest
  let cmp :=
    if queryIsFullName then canonicalCompare queryName.dropLast data.name
    else canonicalCompare queryName data.name
  if cmp ≠ .eq then cmp
  else
    match queryIsFullName, queryName.getLast? with
    | true, some last => canonicalCompare last data.digest
    | _, _ => .lt

def compareDataWithData (lhs rhs : Data C X) : Ordering :=
  let cmp := canonicalCompare lhs.name rhs.name
  if cmp ≠ .eq then cmp else canonicalCompare lhs.digest rhs.digest

inductive EntryImpl (C X : Type)
  | query (name : Name C)
  | stored (data : Data C X)

def EntryImpl.less (K : Components C) : EntryImpl C X → EntryImpl C X → Bool
  | .query name, .query name' => name < name'
  | .query name, .stored data => compareQueryWithData K name data == .lt
  | .stored data, .query name => compareQueryWithData K name data == .gt
  | .stored data, .stored data' => compareDataWithData data data' == .lt

end NfdGateway.Cs
