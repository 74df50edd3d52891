import NfdGateway.Rib.FibUpdater

/-! The RIB manager: its commands, the queue of update batches, the FIB commands in flight with
the replies to them, and the expiration of routes. -/
namespace NfdGateway

open List Function

deriving instance DecidableEq for FibUpdate

namespace FibUpdater

variable {C : Type} [LinearOrder C] (F : FibUpdater C) (u : FibUpdate C)

def removeForBatchFaceId : FibUpdater C :=
  { F with
    updatesForBatchFaceId := F.updatesForBatchFaceId.filter (· ≠ u)
    batch_face := fun w hw => F.batch_face w (mem_of_mem_filter hw)
    batch_nodup := (filter_sublist.map FibUpdate.key).nodup F.batch_nodup }

def removeForNonBatchFaceId : FibUpdater C :=
  { F with
    updatesForNonBatchFaceId := F.updatesForNonBatchFaceId.filter (· ≠ u)
    nonBatch_face := fun w hw => F.nonBatch_face w (mem_of_mem_filter hw)
    nonBatch_nodup := (filter_sublist.map FibUpdate.key).nodup F.nonBatch_nodup }

def maxNumTimeouts : ℕ := 10

end FibUpdater

/-- A batch that waits in the queue, with the event of the route that it registers. The number
stands for its two callbacks; `isExpiration` says that `onRouteExpiration` began it. -/
structure UpdateQueueItem (C : Type) where
  id : ℕ
  update : RibUpdate C
  expirationEvent : Option ℕ := none
  isExpiration : Bool := false

structure FibCommand (C : Type) where
  update : FibUpdate C
  item : UpdateQueueItem C
  nTimeouts : ℕ := 0

inductive Reply
  | success
  | timeout
  | faceNotFound
deriving DecidableEq

structure Expiration (C : Type) where
  id : ℕ
  due : ℕ
  name : Name C
  route : Route

inductive Note (C : Type)
  | sent (id : ℕ)
  | succeeded (id : ℕ)
  | failed (id : ℕ)
  | expired (route : Route) (now : ℕ)

def Note.callback? {C : Type} : Note C → Option ℕ
  | .succeeded id => some id
  | .failed id => some id
  | _ => none

def timePointMax : ℕ := 2 ^ 63 - 1

abbrev RouteId (C : Type) := Name C × FaceId × ℕ

structure RibManager (C : Type) where
  rib : Rib C := {}
  /-- The expiration event of each route in the RIB. -/
  expirationEvents : RouteId C → Option ℕ := fun _ => none
  updateBatches : List (UpdateQueueItem C) := []
  isUpdateInProgress : Bool := false
  fibUpdater : FibUpdater C := { batchFaceId := 0 }
  commands : List (FibCommand C) := []
  now : ℕ := 0
  scheduled : List (Expiration C) := []
  nBatches : ℕ := 0
  history : List (Note C) := []
  /-- An exception was thrown. -/
  isStopped : Bool := false

def RibUpdate.routeId {C : Type} (u : RibUpdate C) : RouteId C :=
  (u.name, u.route.faceId, u.route.origin)

namespace RibManager

variable {C : Type} [LinearOrder C]

inductive Event (C : Type)
  | registerEntry (name : Name C) (route : Route) (expirationPeriod : Option ℕ)
  | unregisterEntry (name : Name C) (faceId : FaceId) (origin : ℕ)
  | removeFace (faceId : FaceId)
  | reply (i : ℕ) (r : Reply)
  | expiration (i : ℕ)
  | wait (time : ℕ)

def existing (m : RibManager C) (u : RibUpdate C) : Option Route :=
  (m.rib.find u.name).bind (·.findRoute u.route)

def cancel (m : RibManager C) : Option ℕ → RibManager C
  | none => m
  | some id => { m with scheduled := m.scheduled.filter (·.id != id) }

def cancelExisting (m : RibManager C) (u : RibUpdate C) : RibManager C :=
  match m.existing u with
  | none => m
  | some _ => m.cancel (m.expirationEvents u.routeId)

def updateEvents (m : RibManager C) (item : UpdateQueueItem C) : RibManager C :=
  let m' := m.cancelExisting item.update
  match item.update.action with
  | .register =>
    { m' with
      expirationEvents :=
        update m'.expirationEvents item.update.routeId item.expirationEvent }
  | _ =>
    { m' with
      expirationEvents := update m'.expirationEvents item.update.routeId none
      history := m'.history ++
        match m.existing item.update, item.isExpiration with
        | some route, true => [.expired route m.now]
        | _, _ => [] }

def succeeded (m : RibManager C) (item : UpdateQueueItem C) (rib : Rib C) : RibManager C :=
  let m' := m.updateEvents item
  { m' with
    rib
    isUpdateInProgress := false
    history := m'.history ++ [.succeeded item.id] }

def failed (m : RibManager C) (item : UpdateQueueItem C) : RibManager C :=
  { m with isUpdateInProgress := false, history := m.history ++ [.failed item.id] }

def onFibUpdateSuccess (resume : RibManager C → Option (RibManager C)) (item : UpdateQueueItem C)
    (m : RibManager C) : Option (RibManager C) :=
  (RibState.onFibUpdateSuccess m.rib item.update m.fibUpdater.inheritedRoutes).bind fun rib =>
    resume (m.succeeded item rib)

def onFibUpdateFailure (resume : RibManager C → Option (RibManager C)) (item : UpdateQueueItem C)
    (m : RibManager C) : Option (RibManager C) :=
  resume (m.failed item)

def sendUpdates (updates : List (FibUpdate C)) (item : UpdateQueueItem C) (m : RibManager C) :
    RibManager C :=
  { m with commands := m.commands ++ updates.map fun update => { update, item } }

def sendUpdatesForNonBatchFaceId (resume : RibManager C → Option (RibManager C))
    (item : UpdateQueueItem C) (m : RibManager C) : Option (RibManager C) :=
  if m.fibUpdater.updatesForNonBatchFaceId.length > 0 then
    some (m.sendUpdates m.fibUpdater.updatesForNonBatchFaceId item)
  else onFibUpdateSuccess resume item m

def sendUpdatesForBatchFaceId (resume : RibManager C → Option (RibManager C))
    (item : UpdateQueueItem C) (m : RibManager C) : Option (RibManager C) :=
  if m.fibUpdater.updatesForBatchFaceId.length > 0 then
    some (m.sendUpdates m.fibUpdater.updatesForBatchFaceId item)
  else sendUpdatesForNonBatchFaceId resume item m

def taken (m : RibManager C) (item : UpdateQueueItem C) (items : List (UpdateQueueItem C)) :
    RibManager C :=
  { m with
    updateBatches := items
    isUpdateInProgress := true
    history := m.history ++ [.sent item.id] }

def computed (m : RibManager C) (item : UpdateQueueItem C) (fibUpdater : FibUpdater C) :
    RibManager C :=
  match item.update.action with
  | .register => { m with fibUpdater }
  | _ => { m.cancelExisting item.update with fibUpdater }

def computeAndSendFibUpdates (nth : NthElement) (resume : RibManager C → Option (RibManager C))
    (item : UpdateQueueItem C) (m : RibManager C) : Option (RibManager C) :=
  (FibUpdater.computeUpdates m.rib nth item.update).bind fun fibUpdater =>
    sendUpdatesForBatchFaceId resume item (m.computed item fibUpdater)

def sendBatches (nth : NthElement) : ℕ → RibManager C → Option (RibManager C)
  | 0, m => some m
  | fuel + 1, m =>
    match m.updateBatches, m.isUpdateInProgress with
    | item :: items, false =>
      computeAndSendFibUpdates nth (sendBatches nth fuel) item (m.taken item items)
    | _, _ => some m

def sendBatchFromQueue (nth : NthElement) (m : RibManager C) : Option (RibManager C) :=
  sendBatches nth (m.updateBatches.length + 1) m

def onUpdateSuccess (resume : RibManager C → Option (RibManager C)) (c : FibCommand C)
    (m : RibManager C) : Option (RibManager C) :=
  if c.update.faceId = m.fibUpdater.batchFaceId then
    let m := { m with fibUpdater := m.fibUpdater.removeForBatchFaceId c.update }
    if m.fibUpdater.updatesForBatchFaceId.length = 0 then
      sendUpdatesForNonBatchFaceId resume c.item m
    else some m
  else
    let m := { m with fibUpdater := m.fibUpdater.removeForNonBatchFaceId c.update }
    if m.fibUpdater.updatesForNonBatchFaceId.length = 0 then onFibUpdateSuccess resume c.item m
    else some m

/-- `Controller::ERROR_TIMEOUT`: the command is sent again, as an add command in any case, or an
exception ends the process. -/
def onUpdateTimeout (c : FibCommand C) (m : RibManager C) : RibManager C :=
  if c.nTimeouts < FibUpdater.maxNumTimeouts then
    { m with commands := m.commands ++ [{ c with nTimeouts := c.nTimeouts + 1 }] }
  else { m with isStopped := true }

def onFaceNotFound (resume : RibManager C → Option (RibManager C)) (c : FibCommand C)
    (m : RibManager C) : Option (RibManager C) :=
  if c.update.faceId = m.fibUpdater.batchFaceId then onFibUpdateFailure resume c.item m
  else
    let m := { m with fibUpdater := m.fibUpdater.removeForNonBatchFaceId c.update }
    if m.fibUpdater.updatesForNonBatchFaceId.length = 0 then onFibUpdateSuccess resume c.item m
    else some m

section

variable (resume : RibManager C → Option (RibManager C))

def onReply (c : FibCommand C) (m : RibManager C) : Reply → Option (RibManager C)
  | .success => onUpdateSuccess resume c m
  | .timeout => some (onUpdateTimeout c m)
  | .faceNotFound => onFaceNotFound resume c m

def addUpdateToQueue (m : RibManager C) (u : RibUpdate C) (expirationEvent : Option ℕ)
    (isExpiration : Bool) : RibManager C :=
  { m with
    updateBatches := m.updateBatches ++ [⟨m.nBatches, u, expirationEvent, isExpiration⟩]
    nBatches := m.nBatches + 1 }

def beginApplyUpdate (m : RibManager C) (u : RibUpdate C)
    (expirationEvent : Option ℕ) (isExpiration : Bool) : Option (RibManager C) :=
  resume (m.addUpdateToQueue u expirationEvent isExpiration)

def registerEntry (m : RibManager C) (name : Name C) (route : Route) :
    Option ℕ → Option (RibManager C)
  | some period =>
    let route := { route with expires := m.now + period }
    let event : Expiration C := { id := m.nBatches, due := m.now + period, name, route }
    { m with scheduled := m.scheduled ++ [event] }.beginApplyUpdate resume
      ⟨.register, name, route⟩ (some event.id) false
  | none =>
    m.beginApplyUpdate resume ⟨.register, name, { route with expires := timePointMax }⟩ none false

def unregisterEntry (m : RibManager C) (name : Name C) (faceId : FaceId)
    (origin : ℕ) : Option (RibManager C) :=
  m.beginApplyUpdate resume ⟨.unregister, name, { faceId, origin }⟩ none false

def onRouteExpiration (m : RibManager C) (e : Expiration C) : Option (RibManager C) :=
  m.beginApplyUpdate resume ⟨.unregister, e.name, e.route⟩ none true

def beginRemoveFace (m : RibManager C) (faceId : FaceId) : Option (RibManager C) :=
  resume ((m.rib.beginRemoveFace faceId).foldl (fun m u => m.addUpdateToQueue u none false) m)

def onEvent (m : RibManager C) : Event C → Option (RibManager C)
  | .registerEntry name route period => m.registerEntry resume name route period
  | .unregisterEntry name faceId origin => m.unregisterEntry resume name faceId origin
  | .removeFace faceId => m.beginRemoveFace resume faceId
  | .reply i r =>
    m.commands[i]?.bind fun c => onReply resume c { m with commands := m.commands.eraseIdx i } r
  | .expiration i =>
    m.scheduled[i]?.bind fun e =>
      if e.due ≤ m.now then
        { m with scheduled := m.scheduled.eraseIdx i }.onRouteExpiration resume e
      else none
  | .wait time =>
    if m.now + time < timePointMax then some { m with now := m.now + time } else none

end

def step (nth : NthElement) (m : RibManager C) (ev : Event C) : Option (RibManager C) :=
  if m.isStopped then none else m.onEvent (sendBatchFromQueue nth) ev

end RibManager

end NfdGateway
