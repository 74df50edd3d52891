import NfdGateway.Lib.Transition
import NfdGateway.Lib.UpdateLog
import NfdGateway.Rib.Rib

/-! The FIB updater: what a RIB update changes in the FIB, and the RIB processing its update
batches one after the other while every FIB command succeeds. -/
namespace NfdGateway

inductive FibAction
  | addNextHop
  | removeNextHop
deriving DecidableEq

structure FibUpdate (C : Type) where
  name : Name C
  faceId : FaceId
  cost : ℕ := 0
  action : FibAction

namespace FibUpdate

variable {C : Type}

def createAddUpdate (name : Name C) (faceId : FaceId) (cost : ℕ) : FibUpdate C :=
  { name, faceId, cost, action := .addNextHop }

def createRemoveUpdate (name : Name C) (faceId : FaceId) : FibUpdate C :=
  { name, faceId, action := .removeNextHop }

def key (u : FibUpdate C) : Name C × FaceId := (u.name, u.faceId)

def nexthop (u : FibUpdate C) : Option ℕ :=
  match u.action with
  | .addNextHop => some u.cost
  | .removeNextHop => none

end FibUpdate

abbrev Fib (C : Type) := Name C × FaceId → Option ℕ

/-- The two update lists and the inherited routes of a batch. An update of the batch's face is
in the first list, any other in the second, and no list has two for a name and a face. -/
structure FibUpdater (C : Type) where
  batchFaceId : FaceId
  updatesForBatchFaceId : List (FibUpdate C) := []
  updatesForNonBatchFaceId : List (FibUpdate C) := []
  inheritedRoutes : List (RibUpdate C) := []
  batch_face : ∀ u ∈ updatesForBatchFaceId, u.faceId = batchFaceId := by simp
  nonBatch_face : ∀ u ∈ updatesForNonBatchFaceId, u.faceId ≠ batchFaceId := by simp
  batch_nodup : (updatesForBatchFaceId.map FibUpdate.key).Nodup := by simp
  nonBatch_nodup : (updatesForNonBatchFaceId.map FibUpdate.key).Nodup := by simp

namespace FibUpdater

/-- What is computed for a batch depends on the RIB alone, so the functions that compute it
return the calls they make, in order: `addFibUpdate` with a FIB update, and
`addInheritedRoute` or `removeInheritedRoute` with the RIB update these record. -/
inductive Call (C : Type)
  | fibUpdate (u : FibUpdate C)
  | inheritedRoute (u : RibUpdate C)

variable {C : Type} [LinearOrder C]

def addFibUpdate (F : FibUpdater C) (u : FibUpdate C) : FibUpdater C :=
  if h : u.faceId = F.batchFaceId then
    { F with
      updatesForBatchFaceId := UpdateLog.put FibUpdate.key u F.updatesForBatchFaceId
      batch_face := fun w hw => by
        rcases UpdateLog.mem_put hw with rfl | hw
        · exact h
        · exact F.batch_face w hw
      batch_nodup := UpdateLog.nodup_put F.batch_nodup }
  else
    { F with
      updatesForNonBatchFaceId := UpdateLog.put FibUpdate.key u F.updatesForNonBatchFaceId
      nonBatch_face := fun w hw => by
        rcases UpdateLog.mem_put hw with rfl | hw
        · exact h
        · exact F.nonBatch_face w hw
      nonBatch_nodup := UpdateLog.nodup_put F.nonBatch_nodup }

def exec (F : FibUpdater C) : Call C → FibUpdater C
  | .fibUpdate u => F.addFibUpdate u
  | .inheritedRoute u => { F with inheritedRoutes := F.inheritedRoutes ++ [u] }

def clearUpdatesForBatchFaceId (F : FibUpdater C) : FibUpdater C :=
  { F with
    updatesForBatchFaceId := []
    batch_face := by simp
    batch_nodup := by simp }

def sendUpdates (F : FibUpdater C) (fib : Fib C) : Fib C :=
  UpdateLog.write FibUpdate.key FibUpdate.nexthop F.updatesForNonBatchFaceId
    (UpdateLog.write FibUpdate.key FibUpdate.nexthop F.updatesForBatchFaceId fib)

def addInheritedNexthop (name : Name C) (route : Route) : List (Call C) :=
  [.inheritedRoute ⟨.register, name, route⟩,
    .fibUpdate (.createAddUpdate name route.faceId route.cost)]

def removeInheritedNexthop (name : Name C) (route : Route) : List (Call C) :=
  [.inheritedRoute ⟨.unregister, name, route⟩,
    .fibUpdate (.createRemoveUpdate name route.faceId)]

def addInheritedRoutes (entry : RibEntry C) (routesToAdd : RouteSet) : List (Call C) :=
  routesToAdd.routes.flatMap fun route =>
    if !entry.hasFaceId route.faceId then addInheritedNexthop entry.name route else []

def addInheritedRoutesIgnoring (name : Name C) (routesToAdd : RouteSet) (ignore : Route) :
    List (Call C) :=
  routesToAdd.routes.flatMap fun route =>
    if route.faceId != ignore.faceId then addInheritedNexthop name route else []

def removeInheritedRoutes (entry : RibEntry C) (routesToRemove : RouteSet) : List (Call C) :=
  routesToRemove.routes.flatMap fun route =>
    if entry.hasInheritedRoute route.faceId then removeInheritedNexthop entry.name route else []

variable (R : Rib C)

/-- Routes on a face on which an entry has a CHILD_INHERIT route go no further down; an entry
with CAPTURE is skipped with all below it. -/
def traverseSubTree : ℕ → RouteSet → RouteSet → Name C → List (Call C)
  | 0, _, _, _ => []
  | fuel + 1, routesToAdd, routesToRemove, name =>
    let entry := R.entries name
    if entry.hasCapture then []
    else
      let routesToRemove := routesToRemove.filter (!entry.hasChildInheritOnFaceId ·.faceId)
      let routesToAdd := routesToAdd.filter (!entry.hasChildInheritOnFaceId ·.faceId)
      removeInheritedRoutes entry routesToRemove ++ addInheritedRoutes entry routesToAdd ++
        entry.children.flatMap (traverseSubTree fuel routesToAdd routesToRemove)

def height : ℕ := (R.names.map List.length).foldr max 0

def modifyChildrensInheritedRoutes (children : List (Name C))
    (routesToAdd routesToRemove : RouteSet) : List (Call C) :=
  children.flatMap (traverseSubTree R (height R + 1) routesToAdd routesToRemove)

def createFibUpdatesForNewRibEntry (name : Name C) (route : Route) (children : List (Name C)) :
    List (Call C) :=
  let ancestorRoutes := R.getAncestorRoutesOfName name
  .fibUpdate (.createAddUpdate name route.faceId route.cost) ::
    if !route.isChildInherit && !route.isCapture then
      addInheritedRoutesIgnoring name ancestorRoutes route
    else if route.isChildInherit && route.isCapture then
      modifyChildrensInheritedRoutes R children (.single route) ancestorRoutes
    else if route.isChildInherit then
      addInheritedRoutesIgnoring name ancestorRoutes route ++
        modifyChildrensInheritedRoutes R children
          ((ancestorRoutes.filter (·.faceId != route.faceId)).insert route) {}
    else modifyChildrensInheritedRoutes R children {} ancestorRoutes

def notDearer (route : Route) (other : Option Route) : Bool :=
  other.all (route.cost ≤ ·.cost)

def createFibUpdatesForNewRoute (entry : RibEntry C) (route : Route) (captureWasTurnedOn : Bool) :
    List (Call C) :=
  let prevRoute := entry.getRouteWithLowestCostAndChildInheritByFaceId route.faceId
  let routesToAdd : RouteSet :=
    if route.isChildInherit && notDearer route prevRoute then .single route else {}
  let routesToRemove : RouteSet := if captureWasTurnedOn then R.getAncestorRoutes entry else {}
  (if captureWasTurnedOn then removeInheritedRoutes entry routesToRemove else []) ++
    modifyChildrensInheritedRoutes R entry.children routesToAdd routesToRemove ++
    if notDearer route (entry.getRouteWithLowestCostByFaceId route.faceId) then
      [.fibUpdate (.createAddUpdate entry.name route.faceId route.cost)]
    else []

def ownUpdateForUpdatedRoute (entry : RibEntry C) (route existingRoute : Route) :
    Option (List (Call C)) :=
  (entry.getRouteWithLowestCostByFaceId route.faceId).bind fun lowest =>
    if route.cost ≤ lowest.cost then
      some [.fibUpdate (.createAddUpdate entry.name route.faceId route.cost)]
    else if existingRoute.cost < lowest.cost then
      (entry.getRouteWithLowestCostAndChildInheritByFaceId route.faceId).map fun prevRoute =>
        [.fibUpdate (.createAddUpdate entry.name prevRoute.faceId prevRoute.cost)]
    else some []

def childInheritUpdates (entry : RibEntry C) (route existingRoute : Route) : List (Call C) :=
  let prevRoute := entry.getRouteWithLowestCostAndChildInheritByFaceId route.faceId
  if !existingRoute.isChildInherit && route.isChildInherit then
    if notDearer route prevRoute then
      modifyChildrensInheritedRoutes R entry.children (.single route) {}
    else []
  else if existingRoute.isChildInherit && !route.isChildInherit then
    let routesToAdd : RouteSet :=
      match prevRoute.or ((R.getAncestorRoutes entry).find route.faceId) with
      | some r => .single r
      | none => {}
    modifyChildrensInheritedRoutes R entry.children routesToAdd (.single route)
  else []

def captureUpdates (entry : RibEntry C) (route existingRoute : Route) : List (Call C) :=
  let ancestorRoutes := R.getAncestorRoutes entry
  if !existingRoute.isCapture && route.isCapture then
    removeInheritedRoutes entry ancestorRoutes ++
      modifyChildrensInheritedRoutes R entry.children {} ancestorRoutes
  else if existingRoute.isCapture && !route.isCapture then
    addInheritedRoutes entry ancestorRoutes ++
      modifyChildrensInheritedRoutes R entry.children ancestorRoutes {}
  else []

def createFibUpdatesForUpdatedRoute (entry : RibEntry C) (route existingRoute : Route) :
    Option (List (Call C)) :=
  let costDidChange := route.cost != existingRoute.cost
  let prevRoute := entry.getRouteWithLowestCostAndChildInheritByFaceId route.faceId
  if route.flags == existingRoute.flags && !costDidChange then some []
  else
    (if costDidChange then ownUpdateForUpdatedRoute entry route existingRoute else some []).map
      fun own =>
        own ++
          if costDidChange && notDearer route prevRoute && route.flags == existingRoute.flags &&
              route.isChildInherit then
            modifyChildrensInheritedRoutes R entry.children (.single route) {}
          else
            childInheritUpdates R entry route existingRoute ++
              captureUpdates R entry route existingRoute

def erasedRouteUpdates (entry : RibEntry C) (route : Route) (captureWasTurnedOff : Bool) :
    List (Call C) :=
  let addsAncestors := captureWasTurnedOff && entry.getNRoutes != 0
  let ancestorRoutes := R.getAncestorRoutes entry
  if route.isChildInherit && route.isCapture then
    let routesToAdd : RouteSet := if addsAncestors then ancestorRoutes else {}
    (if addsAncestors then addInheritedRoutes entry routesToAdd else []) ++
      modifyChildrensInheritedRoutes R entry.children routesToAdd (.single route)
  else if route.isChildInherit then
    let routesToAdd : RouteSet := if !entry.hasCapture then ancestorRoutes else {}
    modifyChildrensInheritedRoutes R entry.children routesToAdd (.single route)
  else if route.isCapture then
    let routesToAdd : RouteSet := if addsAncestors then ancestorRoutes else {}
    (if addsAncestors then addInheritedRoutes entry routesToAdd else []) ++
      modifyChildrensInheritedRoutes R entry.children routesToAdd {}
  else []

def createFibUpdatesForErasedRoute (entry : RibEntry C) (route : Route)
    (captureWasTurnedOff : Bool) : List (Call C) :=
  .fibUpdate (.createRemoveUpdate entry.name route.faceId) ::
    (erasedRouteUpdates R entry route captureWasTurnedOff ++
      if !entry.hasCapture && entry.getNRoutes != 0 then
        match (R.getAncestorRoutes entry).find route.faceId with
        | some r => addInheritedNexthop entry.name r
        | none => []
      else [])

def createFibUpdatesForErasedRibEntry (entry : RibEntry C) : List (Call C) :=
  entry.inheritedRoutes.map fun route =>
    .fibUpdate (.createRemoveUpdate entry.name route.faceId)

def computeUpdatesForRegistration (name : Name C) (route : Route) : Option (List (Call C)) :=
  match R.find name with
  | some entry =>
    match entry.findRoute route with
    | none =>
      some (createFibUpdatesForNewRoute R entry route (!entry.hasCapture && route.isCapture))
    | some existingRoute =>
      createFibUpdatesForUpdatedRoute R (entry.updateRoute route) route existingRoute
  | none =>
    let parent := R.findParent name
    let children := (R.findDescendantsForNonInsertedName name).filter fun descendant =>
      (R.entries descendant).parent = parent
    some (createFibUpdatesForNewRibEntry R name route children)

def computeUpdatesForUnregistration (nth : NthElement) (name : Name C) (route : Route) :
    List (Call C) :=
  match R.find name with
  | none => []
  | some entry =>
    match entry.findRoute route with
    | none => []
    | some existing =>
      let temp := entry.eraseRoute route
      createFibUpdatesForErasedRoute R temp existing (entry.hasCapture && !temp.hasCapture) ++
        (match entry.getRouteWithSecondLowestCostByFaceId nth route.faceId with
        | some next => createFibUpdatesForNewRoute R temp next false
        | none => []) ++
        if entry.getNRoutes = 1 then createFibUpdatesForErasedRibEntry entry else []

/-- One turn of the loop over the updates of a batch. Updates for a destroyed face are not sent,
the FIB would reject them. -/
def computeUpdate (nth : NthElement) (F : FibUpdater C) (u : RibUpdate C) : Option (FibUpdater C) :=
  match u.action with
  | .register =>
    (computeUpdatesForRegistration R u.name u.route).map fun calls => calls.foldl exec F
  | .unregister => some ((computeUpdatesForUnregistration R nth u.name u.route).foldl exec F)
  | .removeFace =>
    let calls := computeUpdatesForUnregistration R nth u.name u.route
    some (calls.foldl exec F).clearUpdatesForBatchFaceId

def computeBatch (nth : NthElement) (faceId : FaceId) (batch : List (RibUpdate C)) :
    Option (FibUpdater C) :=
  batch.foldlM (computeUpdate R nth) { batchFaceId := faceId }

/-- The batches that the RIB makes have one update. -/
def computeUpdates (nth : NthElement) (u : RibUpdate C) : Option (FibUpdater C) :=
  computeUpdate R nth { batchFaceId := u.route.faceId } u

end FibUpdater

/-- The RIB, the FIB and the batches not yet completed; the first of them is the one in
progress. -/
structure RibState (C : Type) where
  rib : Rib C := {}
  fib : Fib C := fun _ => none
  updateBatches : List (RibUpdate C) := []

namespace RibState

variable {C : Type}

/-- `batch` is the end of the batch in progress, all its commands having succeeded. -/
inductive Event (C : Type)
  | register (name : Name C) (route : Route)
  | unregister (name : Name C) (route : Route)
  | removeFace (faceId : FaceId)
  | batch

def opOf (u : RibUpdate C) : Rib.Op C :=
  match u.action with
  | .register => .insert u.name u.route
  | .unregister => .erase u.name u.route
  | .removeFace => .erase u.name u.route

variable [LinearOrder C]

def onFibUpdateSuccess (R : Rib C) (u : RibUpdate C) (inheritedRoutes : List (RibUpdate C)) :
    Option (Rib C) :=
  Rib.modifyInheritedRoutes inheritedRoutes (R.apply (opOf u))

/-- The RIB changes only at the end of the batch in progress, so that what the batch computed when
it was sent is what it computes from the RIB now. -/
def sendBatchFromQueue (nth : NthElement) (s : RibState C) : Option (RibState C) :=
  match s.updateBatches with
  | [] => none
  | u :: us =>
    (FibUpdater.computeUpdates s.rib nth u).bind fun F =>
      (onFibUpdateSuccess s.rib u F.inheritedRoutes).map fun R =>
        { rib := R, fib := F.sendUpdates s.fib, updateBatches := us }

def dropFace (fib : Fib C) (f : FaceId) : Fib C := fun k => if k.2 = f then none else fib k

/-- Batches are queued behind those that wait. -/
def begin (s : RibState C) (batches : List (RibUpdate C)) : RibState C :=
  { s with updateBatches := s.updateBatches ++ batches }

/-- The routes of a destroyed face are collected when it is destroyed, not when their batches are
sent. -/
def step (nth : NthElement) (s : RibState C) : Event C → Option (RibState C)
  | .register name route => some (s.begin [⟨.register, name, route⟩])
  | .unregister name route => some (s.begin [⟨.unregister, name, route⟩])
  | .removeFace f => some ({ s with fib := dropFace s.fib f }.begin (s.rib.beginRemoveFace f))
  | .batch => s.sendBatchFromQueue nth

/-- No batch that removes a route of the face `f` waits. -/
def Settled (s : RibState C) (f : FaceId) : Prop :=
  ∀ u ∈ s.updateBatches, u.action = .removeFace → u.route.faceId ≠ f

end RibState

end NfdGateway
