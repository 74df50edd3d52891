import NfdGateway.NameTree.Tree

/-! The routing information base: routes under name prefixes, the tree of the prefixes, and
the table of the prefixes that have routes on a face. -/
namespace NfdGateway

open List Function

abbrev FaceId := ℕ

structure Route where
  faceId : FaceId := 0
  origin : ℕ := 0
  flags : ℕ := 0
  cost : ℕ := 0
  expires : ℕ := 0
deriving DecidableEq

namespace Route

def flagChildInherit : ℕ := 1

def flagCapture : ℕ := 2

def isChildInherit (r : Route) : Bool := r.flags &&& flagChildInherit != 0

def isCapture (r : Route) : Bool := r.flags &&& flagCapture != 0

def compareFaceIdAndOrigin (lhs rhs : Route) : Bool :=
  lhs.faceId == rhs.faceId && lhs.origin == rhs.origin

end Route

lemma sorted_nil : ([] : List Route).Pairwise (·.faceId < ·.faceId) := .nil

structure RouteSet where
  routes : List Route := []
  sorted : routes.Pairwise (·.faceId < ·.faceId) := by exact sorted_nil

namespace RouteSet

def insertInto (r : Route) : List Route → List Route
  | [] => [r]
  | w :: l =>
    if r.faceId < w.faceId then r :: w :: l
    else if w.faceId < r.faceId then w :: insertInto r l
    else w :: l

lemma mem_insertInto {r x : Route} {l : List Route} (h : x ∈ insertInto r l) : x = r ∨ x ∈ l := by
  induction l with
  | nil => exact .inl (by simpa [insertInto] using h)
  | cons w l ih =>
    simp only [insertInto] at h
    split at h
    · simpa using h
    split at h
    · rcases mem_cons.mp h with rfl | hx
      · exact .inr (by simp)
      · exact (ih hx).imp_right fun hx => by simp [hx]
    · exact .inr h

lemma insertInto_sorted (r : Route) {l : List Route} (h : l.Pairwise (·.faceId < ·.faceId)) :
    (insertInto r l).Pairwise (·.faceId < ·.faceId) := by
  induction l with
  | nil => simp [insertInto]
  | cons w l ih =>
    have hw := pairwise_cons.mp h
    simp only [insertInto]
    split
    next hr =>
      refine pairwise_cons.mpr ⟨fun x hx => ?_, h⟩
      rcases mem_cons.mp hx with rfl | hx
      · exact hr
      · exact hr.trans (hw.1 x hx)
    split
    next hr =>
      refine pairwise_cons.mpr ⟨fun x hx => ?_, ih hw.2⟩
      rcases mem_insertInto hx with rfl | hx
      · exact hr
      · exact hw.1 x hx
    · exact h

def insert (s : RouteSet) (r : Route) : RouteSet :=
  ⟨insertInto r s.routes, insertInto_sorted r s.sorted⟩

def single (r : Route) : RouteSet := ({} : RouteSet).insert r

def filter (s : RouteSet) (p : Route → Bool) : RouteSet := ⟨s.routes.filter p, s.sorted.filter p⟩

def find (s : RouteSet) (f : FaceId) : Option Route := s.routes.find? (·.faceId == f)

end RouteSet

/-- `std::nth_element` up to the second position, by cost: some rearrangement that leaves no
dearer route before that position and no cheaper one after it. -/
structure NthElement where
  rearrange : List Route → List Route
  perm : ∀ l, (rearrange l).Perm l
  second : ∀ l a b rest, rearrange l = a :: b :: rest →
    a.cost ≤ b.cost ∧ ∀ c ∈ rest, b.cost ≤ c.cost

def NthElement.sorting : NthElement where
  rearrange l := l.insertionSort (·.cost ≤ ·.cost)
  perm l := perm_insertionSort _ l
  second l a b rest h := by
    have : Std.Total fun a b : Route => a.cost ≤ b.cost := ⟨fun a b => Nat.le_total _ _⟩
    have : IsTrans Route fun a b => a.cost ≤ b.cost := ⟨fun a b c => Nat.le_trans⟩
    have hs := pairwise_insertionSort (fun a b : Route => a.cost ≤ b.cost) l
    rw [h] at hs
    obtain ⟨ha, hb⟩ := pairwise_cons.mp hs
    exact ⟨ha b (by simp), (pairwise_cons.mp hb).1⟩

structure RibEntry (C : Type) where
  name : Name C := []
  parent : Option (Name C) := none
  children : List (Name C) := []
  routes : List Route := []
  inheritedRoutes : List Route := []
  nRoutesWithCaptureSet : ℕ := 0

namespace RibEntry

variable {C : Type} (e : RibEntry C)

def findRoute (route : Route) : Option Route := e.routes.find? (·.compareFaceIdAndOrigin route)

def insertRoute (route : Route) : RibEntry C :=
  match e.findRoute route with
  | none =>
    { e with
      nRoutesWithCaptureSet :=
        if route.isCapture then (e.nRoutesWithCaptureSet + 1) % 2 ^ 64
        else e.nRoutesWithCaptureSet
      routes := e.routes ++ [route] }
  | some _ => e

def eraseRoute (route : Route) : RibEntry C :=
  match e.findRoute route with
  | none => e
  | some existing =>
    { e with
      nRoutesWithCaptureSet :=
        if existing.isCapture then (e.nRoutesWithCaptureSet + (2 ^ 64 - 1)) % 2 ^ 64
        else e.nRoutesWithCaptureSet
      routes := e.routes.eraseP (·.compareFaceIdAndOrigin route) }

def overwrite (route : Route) : List Route → List Route
  | [] => []
  | r :: l =>
    if r.compareFaceIdAndOrigin route then
      { r with flags := route.flags, cost := route.cost, expires := route.expires } :: l
    else r :: overwrite route l

def updateRoute (route : Route) : RibEntry C := { e with routes := overwrite route e.routes }

def hasFaceId (f : FaceId) : Bool := e.routes.any (·.faceId == f)

def getNRoutes : ℕ := e.routes.length

def addInheritedRoute (route : Route) : RibEntry C :=
  { e with inheritedRoutes := e.inheritedRoutes ++ [route] }

def hasInheritedRoute (f : FaceId) : Bool := e.inheritedRoutes.any (·.faceId == f)

def removeInheritedRoute (route : Route) : Option (RibEntry C) :=
  if e.hasInheritedRoute route.faceId then
    some { e with inheritedRoutes := e.inheritedRoutes.eraseP (·.faceId == route.faceId) }
  else none

def hasCapture : Bool := e.nRoutesWithCaptureSet > 0

def hasChildInheritOnFaceId (f : FaceId) : Bool :=
  e.routes.any fun r => r.faceId == f && r.isChildInherit

def pickCheaper (p : Route → Bool) (candidate : Option Route) (r : Route) : Option Route :=
  if p r then
    match candidate with
    | none => some r
    | some c => if r.cost < c.cost then some r else some c
  else candidate

def lowestCost (p : Route → Bool) (routes : List Route) : Option Route :=
  routes.foldl (pickCheaper p) none

def getRouteWithLowestCostByFaceId (f : FaceId) : Option Route :=
  lowestCost (·.faceId == f) e.routes

def getRouteWithLowestCostAndChildInheritByFaceId (f : FaceId) : Option Route :=
  lowestCost (fun r => r.faceId == f && r.isChildInherit) e.routes

def getRouteWithSecondLowestCostByFaceId (nth : NthElement) (f : FaceId) : Option Route :=
  let matching := e.routes.filter (·.faceId == f)
  if matching.length < 2 then none else (nth.rearrange matching)[1]?

end RibEntry

inductive RibAction
  | register
  | unregister
  | removeFace
deriving DecidableEq

structure RibUpdate (C : Type) where
  action : RibAction
  name : Name C
  route : Route

/-- The entries are objects known by their name; `names` are the keys of `m_rib` in canonical
order. A pointer to an entry is its name. -/
structure Rib (C : Type) where
  names : List (Name C) := []
  entries : Name C → RibEntry C := fun _ => {}
  faceMap : FaceId → List (Name C) := fun _ => []
  nItems : ℕ := 0

namespace Rib

variable {C : Type} [LinearOrder C] (R : Rib C)

scoped instance lawfulNames : LawfulBEq (Name C) := inferInstance

def find (name : Name C) : Option (RibEntry C) :=
  if name ∈ R.names then some (R.entries name) else none

def size : ℕ := R.nItems

def setEntry (name : Name C) (e : RibEntry C) : Rib C :=
  { R with entries := update R.entries name e }

def findParentBelow (name : Name C) : ℕ → Option (Name C)
  | 0 => none
  | i + 1 => if name.take i ∈ R.names then some (name.take i) else findParentBelow name i

def findParent (name : Name C) : Option (Name C) := R.findParentBelow name name.length

def findDescendants (name : Name C) : List (Name C) :=
  ((R.names.dropWhile (· != name)).drop 1).takeWhile (name.isPrefixOf ·)

def findDescendantsForNonInsertedName (name : Name C) : List (Name C) :=
  R.names.filter (name.isPrefixOf ·)

def addChild (parent child : Name C) : Rib C :=
  let R := R.setEntry child { R.entries child with parent := some parent }
  R.setEntry parent { R.entries parent with children := (R.entries parent).children ++ [child] }

def removeChild (parent child : Name C) : Rib C :=
  let R := R.setEntry child { R.entries child with parent := none }
  R.setEntry parent
    { R.entries parent with children := (R.entries parent).children.filter (· != child) }

def addToParent (parent : Option (Name C)) (child : Name C) : Rib C :=
  match parent with
  | some p => R.addChild p child
  | none => R

def removeFromParent (parent : Option (Name C)) (child : Name C) : Rib C :=
  match parent with
  | some p => R.removeChild p child
  | none => R

def adopt (parent : Option (Name C)) (name : Name C) (R : Rib C) (child : Name C) : Rib C :=
  if (R.entries child).parent = parent then (R.removeFromParent parent child).addChild name child
  else R

def withEntry (name : Name C) (route : Route) : Rib C :=
  { R with
    names := R.names.orderedInsert (· ≤ ·) name
    entries := update R.entries name (({ name := name } : RibEntry C).insertRoute route)
    nItems := R.nItems + 1 }

def insertEntry (name : Name C) (route : Route) : Rib C :=
  let R := R.withEntry name route
  let parent := R.findParent name
  let R := R.addToParent parent name
  let R := (R.findDescendants name).foldl (adopt parent name) R
  { R with
    faceMap := update R.faceMap route.faceId (R.faceMap route.faceId ++ [name]) }

def insert (name : Name C) (route : Route) : Rib C :=
  match R.find name with
  | some entry =>
    match entry.findRoute route with
    | none =>
      { R.setEntry name (entry.insertRoute route) with
        nItems := R.nItems + 1
        faceMap := update R.faceMap route.faceId (R.faceMap route.faceId ++ [name]) }
    | some _ => R.setEntry name (entry.updateRoute route)
  | none => R.insertEntry name route

def moveUp (parent : Option (Name C)) (name : Name C) (R : Rib C) (child : Name C) : Rib C :=
  (R.removeChild name child).addToParent parent child

def eraseEntry (name : Name C) : Rib C :=
  let entry := R.entries name
  let R := R.removeFromParent entry.parent name
  let R := entry.children.foldl (moveUp entry.parent name) R
  { R with names := R.names.erase name }

def erase (name : Name C) (route : Route) : Rib C :=
  match R.find name with
  | none => R
  | some entry =>
    match entry.findRoute route with
    | none => R
    | some _ =>
      let entry := entry.eraseRoute route
      let R : Rib C :=
        { R.setEntry name entry with
          nItems := R.nItems - 1
          faceMap :=
            if entry.hasFaceId route.faceId then R.faceMap
            else update R.faceMap route.faceId
              ((R.faceMap route.faceId).filter (· != name)) }
      if entry.getNRoutes = 0 then R.eraseEntry name else R

/-- The walk up from a parent pointer: every ancestor adds its routes on faces not seen so far,
and one with CAPTURE ends the walk. -/
def ancestorRoutesFrom : ℕ → Option (Name C) → RouteSet → RouteSet
  | 0, _, s => s
  | _ + 1, none, s => s
  | fuel + 1, some p, s =>
    let parent := R.entries p
    let s := parent.routes.foldl (fun s r => if r.isChildInherit then s.insert r else s) s
    if parent.hasCapture then s else ancestorRoutesFrom fuel parent.parent s

def getAncestorRoutes (entry : RibEntry C) : RouteSet :=
  R.ancestorRoutesFrom entry.name.length entry.parent {}

def getAncestorRoutesOfName (name : Name C) : RouteSet :=
  R.ancestorRoutesFrom name.length (R.findParent name) {}

def modifyInheritedRoutes : List (RibUpdate C) → Rib C → Option (Rib C)
  | [], R => some R
  | u :: us, R =>
    if u.name ∈ R.names then
      match u.action with
      | .register =>
        modifyInheritedRoutes us (R.setEntry u.name ((R.entries u.name).addInheritedRoute u.route))
      | .unregister =>
        ((R.entries u.name).removeInheritedRoute u.route).bind fun e =>
          modifyInheritedRoutes us (R.setEntry u.name e)
      | .removeFace => modifyInheritedRoutes us R
    else none

def findRoutesWithFaceId (f : FaceId) : List (Name C × Route) :=
  (R.faceMap f).flatMap fun name =>
    ((R.entries name).routes.filter (·.faceId == f)).map (name, ·)

def beginRemoveFace (f : FaceId) : List (RibUpdate C) :=
  (R.findRoutesWithFaceId f).map fun (name, route) => ⟨.removeFace, name, route⟩

inductive Op (C : Type)
  | insert (name : Name C) (route : Route)
  | erase (name : Name C) (route : Route)

def Op.name : Op C → Name C
  | .insert name _ => name
  | .erase name _ => name

def apply : Op C → Rib C
  | .insert name route => R.insert name route
  | .erase name route => R.erase name route

end Rib

end NfdGateway
