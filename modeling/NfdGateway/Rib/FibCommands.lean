import NfdGateway.Rib.Manager
import NfdGateway.Rib.Updates

/-! The FIB commands of a batch: that their order does not matter, what they tell the FIB, and
what becomes of those that time out. -/
namespace NfdGateway

open List Option Function Transition

variable {C : Type} [LinearOrder C]

/-! ### The updates of a batch -/

namespace FibUpdater

variable {R : Rib C} {nth : NthElement} {F F' : FibUpdater C} {u : RibUpdate C} {faceId : FaceId}

lemma computeUpdates_eq_computeBatch :
    computeUpdates R nth u = computeBatch R nth u.route.faceId [u] := by
  simp [computeBatch, computeUpdates]

lemma batchFaceId_computeUpdate (h : computeUpdate R nth F u = some F') :
    F'.batchFaceId = F.batchFaceId := by
  unfold computeUpdate at h
  split at h
  · obtain ⟨calls, -, rfl⟩ := map_eq_some_iff.mp h
    exact batchFaceId_foldl
  · cases h
    exact batchFaceId_foldl
  · cases h
    exact batchFaceId_foldl

lemma batchFaceId_computeBatch {batch : List (RibUpdate C)}
    (h : batch.foldlM (computeUpdate R nth) F = some F') : F'.batchFaceId = F.batchFaceId := by
  induction batch generalizing F with
  | nil =>
    cases h
    rfl
  | cons u batch ih =>
    rw [foldlM_cons] at h
    obtain ⟨F₁, hF₁, h⟩ := bind_eq_some_iff.mp h
    exact (ih h).trans (batchFaceId_computeUpdate hF₁)

omit [LinearOrder C] in
lemma keys_nodup (F : FibUpdater C) :
    ((F.updatesForBatchFaceId ++ F.updatesForNonBatchFaceId).map FibUpdate.key).Nodup := by
  rw [map_append]
  refine List.Nodup.append F.batch_nodup F.nonBatch_nodup fun k hk hk' => ?_
  obtain ⟨w, hw, rfl⟩ := List.mem_map.mp hk
  obtain ⟨w', hw', hkey⟩ := List.mem_map.mp hk'
  have hface : w'.faceId = w.faceId := congrArg Prod.snd hkey
  exact F.nonBatch_face w' hw' (hface.trans (F.batch_face w hw))

/-- The lists of a batch have one update for a name and a face, and the FIB does not depend on the
order in which the commands of a list are executed. -/
theorem batch_order_irrelevant (R : Rib C) (nth : NthElement) (faceId : FaceId)
    (batch : List (RibUpdate C)) (h : computeBatch R nth faceId batch = some F) :
    ((F.updatesForBatchFaceId ++ F.updatesForNonBatchFaceId).map FibUpdate.key).Nodup ∧
      (∀ w ∈ F.updatesForBatchFaceId, w.faceId = faceId) ∧
      (∀ w ∈ F.updatesForNonBatchFaceId, w.faceId ≠ faceId) ∧
      ∀ (l l' : List (FibUpdate C)) (fib : Fib C), l.Perm F.updatesForBatchFaceId →
        l'.Perm F.updatesForNonBatchFaceId →
        UpdateLog.write FibUpdate.key FibUpdate.nexthop l'
          (UpdateLog.write FibUpdate.key FibUpdate.nexthop l fib) = F.sendUpdates fib := by
  have hface : F.batchFaceId = faceId := batchFaceId_computeBatch h
  refine ⟨F.keys_nodup, ?_, ?_, fun l l' fib hl hl' => ?_⟩
  · exact hface ▸ F.batch_face
  · exact hface ▸ F.nonBatch_face
  · rw [sendUpdates, ← UpdateLog.write_perm F.batch_nodup hl.symm,
      ← UpdateLog.write_perm F.nonBatch_nodup hl'.symm]

/-- A route on face 1 is registered for `/1` while `/` hands down one on face 2. -/
theorem batch_order_irrelevant_two : ∃ F : FibUpdater ℕ,
    F.updatesForBatchFaceId.length = 1 ∧ F.updatesForNonBatchFaceId.length = 1 ∧
      ((F.updatesForBatchFaceId ++ F.updatesForNonBatchFaceId).map FibUpdate.key).Nodup := by
  let R : Rib ℕ := ({} : Rib ℕ).insert [] ⟨2, 0, 1, 10, 0⟩
  have hF : ∃ F, computeBatch R .sorting 1 [⟨.register, [1], ⟨1, 0, 0, 5, 0⟩⟩] = some F ∧
      F.updatesForBatchFaceId.length = 1 ∧ F.updatesForNonBatchFaceId.length = 1 :=
    ⟨_, rfl, by decide +kernel, by decide +kernel⟩
  obtain ⟨F, hF, hone, hone'⟩ := hF
  exact ⟨F, hone, hone', (batch_order_irrelevant R .sorting 1 _ hF).1⟩

def updates (F : FibUpdater C) : List (FibUpdate C) :=
  F.updatesForBatchFaceId ++ F.updatesForNonBatchFaceId

lemma mem_updates_removeForBatchFaceId {w v : FibUpdate C} (hface : w.faceId = F.batchFaceId) :
    v ∈ (F.removeForBatchFaceId w).updates ↔ v ∈ F.updates ∧ v ≠ w := by
  have hnot : v ∈ F.updatesForNonBatchFaceId → v ≠ w := by
    rintro hv rfl
    exact F.nonBatch_face v hv hface
  simp only [updates, removeForBatchFaceId, mem_append, mem_filter, decide_eq_true_eq]
  tauto

lemma mem_updates_removeForNonBatchFaceId {w v : FibUpdate C} (hface : w.faceId ≠ F.batchFaceId) :
    v ∈ (F.removeForNonBatchFaceId w).updates ↔ v ∈ F.updates ∧ v ≠ w := by
  have hnot : v ∈ F.updatesForBatchFaceId → v ≠ w := by
    rintro hv rfl
    exact hface (F.batch_face v hv)
  simp only [updates, removeForNonBatchFaceId, mem_append, mem_filter, decide_eq_true_eq]
  tauto

end FibUpdater

/-! ### Sending the commands -/

structure FibParameters (C : Type) where
  name : Name C
  faceId : FaceId
  cost : Option ℕ := none

structure SentCommand (C : Type) where
  update : FibUpdate C
  action : FibAction
  parameters : FibParameters C
  nTimeouts : ℕ

def sendAddNextHopUpdate (update : FibUpdate C) (nTimeouts : ℕ) : SentCommand C where
  update := update
  action := .addNextHop
  parameters := { name := update.name, faceId := update.faceId, cost := some update.cost }
  nTimeouts := nTimeouts

def sendRemoveNextHopUpdate (update : FibUpdate C) (nTimeouts : ℕ) : SentCommand C where
  update := update
  action := .removeNextHop
  parameters := { name := update.name, faceId := update.faceId }
  nTimeouts := nTimeouts

def sendUpdate (update : FibUpdate C) : SentCommand C :=
  match update.action with
  | .addNextHop => sendAddNextHopUpdate update 0
  | .removeNextHop => sendRemoveNextHopUpdate update 0

structure SentCommand.Carries (c : SentCommand C) : Prop where
  action : c.action = c.update.action
  name : c.parameters.name = c.update.name
  faceId : c.parameters.faceId = c.update.faceId
  cost : c.action = .addNextHop → c.parameters.cost = some c.update.cost

omit [LinearOrder C] in
lemma carries_sendUpdate (u : FibUpdate C) :
    (sendUpdate u).Carries ∧ (sendUpdate u).update = u := by
  unfold sendUpdate
  split
  next hu =>
    exact ⟨⟨hu.symm, rfl, rfl, fun _ => rfl⟩, rfl⟩
  next hu =>
    exact ⟨⟨hu.symm, rfl, rfl, nofun⟩, rfl⟩

omit [LinearOrder C] in
lemma carries_sendAddNextHopUpdate_iff {u : FibUpdate C} {n : ℕ} :
    (sendAddNextHopUpdate u n).Carries ↔ u.action = .addNextHop :=
  ⟨fun h => h.action.symm, fun h => ⟨h.symm, rfl, rfl, fun _ => rfl⟩⟩

structure FibTable (C : Type) where
  nexthops : Fib C := fun _ => none
  hasFace : FaceId → Bool := fun _ => true
  on_face : ∀ name f, hasFace f = false → nexthops (name, f) = none := by simp

namespace FibTable

def set (T : FibTable C) (name : Name C) (f : FaceId) (v : Option ℕ) (hf : T.hasFace f = true) :
    FibTable C where
  nexthops := update T.nexthops (name, f) v
  hasFace := T.hasFace
  on_face := fun n g hg => by
    have hne : (n, g) ≠ (name, f) := by
      intro he
      obtain rfl : g = f := congrArg Prod.snd he
      rw [hf] at hg
      cases hg
    rw [update_of_ne hne]
    exact T.on_face n g hg

/-- `FibManager::addNextHop` and `FibManager::removeNextHop`: the FIB and the code of the response.
Only an add command minds that there is no such face. -/
def execute (T : FibTable C) (c : SentCommand C) : FibTable C × Reply :=
  let p := c.parameters
  if hf : T.hasFace p.faceId = true then
    match c.action with
    | .addNextHop => (T.set p.name p.faceId (some (p.cost.getD 0)) hf, .success)
    | .removeNextHop => (T.set p.name p.faceId none hf, .success)
  else
    match c.action with
    | .addNextHop => (T, .faceNotFound)
    | .removeNextHop => (T, .success)

def changeFace (T : FibTable C) (f : FaceId) (isThere : Bool) : FibTable C where
  nexthops := fun k => if k.2 = f ∧ isThere = false then none else T.nexthops k
  hasFace := update T.hasFace f isThere
  on_face := fun n g hg => by
    by_cases h : g = f
    · subst h
      rw [update_self] at hg
      simp [hg]
    · rw [update_of_ne h] at hg
      simp [h, T.on_face n g hg]

variable {T : FibTable C} {c : SentCommand C} {k : Name C × FaceId}

lemma execute_of_ne (h : k ≠ (c.parameters.name, c.parameters.faceId)) :
    (T.execute c).1.nexthops k = T.nexthops k := by
  simp only [execute]
  split
  · cases c.action
    · exact update_of_ne h ..
    · exact update_of_ne h ..
  · cases c.action <;> rfl

lemma execute_remove (h : c.action = .removeNextHop) :
    (T.execute c).1.nexthops (c.parameters.name, c.parameters.faceId) = none := by
  simp only [execute, h]
  split
  · exact update_self ..
  next hf =>
    exact T.on_face _ _ (Bool.eq_false_of_not_eq_true hf)

lemma action_of_faceNotFound (h : (T.execute c).2 = .faceNotFound) : c.action = .addNextHop := by
  simp only [execute] at h
  split at h
  · cases ha : c.action <;> simp [ha] at h
  cases ha : c.action with
  | addNextHop => rfl
  | removeNextHop => simp [ha] at h

lemma execute_ne_timeout : (T.execute c).2 ≠ .timeout := by
  simp only [execute]
  split <;> cases c.action <;> nofun

end FibTable

inductive BatchResult
  | succeeded
  | failed
  /-- An exception was thrown. -/
  | thrown
deriving DecidableEq

/-- A batch on its way: what is left of its lists, the commands without a response, all commands
sent so far, and the FIB at the other end. -/
structure BatchRun (C : Type) where
  fibUpdater : FibUpdater C
  commands : List (SentCommand C) := []
  sent : List (SentCommand C) := []
  result : Option BatchResult := none
  fib : FibTable C

namespace BatchRun

def send (b : BatchRun C) (cs : List (SentCommand C)) : BatchRun C :=
  { b with commands := b.commands ++ cs, sent := b.sent ++ cs }

def sendUpdatesForNonBatchFaceId (b : BatchRun C) : BatchRun C :=
  if b.fibUpdater.updatesForNonBatchFaceId.length > 0 then
    b.send (b.fibUpdater.updatesForNonBatchFaceId.map sendUpdate)
  else { b with result := some .succeeded }

def sendUpdatesForBatchFaceId (b : BatchRun C) : BatchRun C :=
  if b.fibUpdater.updatesForBatchFaceId.length > 0 then
    b.send (b.fibUpdater.updatesForBatchFaceId.map sendUpdate)
  else b.sendUpdatesForNonBatchFaceId

def removeForNonBatchFaceId (b : BatchRun C) (u : FibUpdate C) : BatchRun C :=
  let b := { b with fibUpdater := b.fibUpdater.removeForNonBatchFaceId u }
  if b.fibUpdater.updatesForNonBatchFaceId.length = 0 then { b with result := some .succeeded }
  else b

def onUpdateSuccess (b : BatchRun C) (u : FibUpdate C) : BatchRun C :=
  if u.faceId = b.fibUpdater.batchFaceId then
    let b := { b with fibUpdater := b.fibUpdater.removeForBatchFaceId u }
    if b.fibUpdater.updatesForBatchFaceId.length = 0 then b.sendUpdatesForNonBatchFaceId else b
  else b.removeForNonBatchFaceId u

def onUpdateTimeout (b : BatchRun C) (c : SentCommand C) : BatchRun C :=
  if c.nTimeouts < FibUpdater.maxNumTimeouts then
    b.send [sendAddNextHopUpdate c.update (c.nTimeouts + 1)]
  else { b with result := some .thrown }

def onFaceNotFound (b : BatchRun C) (u : FibUpdate C) : BatchRun C :=
  if u.faceId = b.fibUpdater.batchFaceId then { b with result := some .failed }
  else b.removeForNonBatchFaceId u

def onReply (b : BatchRun C) (c : SentCommand C) : Reply → BatchRun C
  | .success => b.onUpdateSuccess c.update
  | .timeout => b.onUpdateTimeout c
  | .faceNotFound => b.onFaceNotFound c.update

/-- A command is executed and answered, or it times out after it was executed or not, or there is
another error; faces come and go. -/
inductive Event
  | reply (i : ℕ)
  | timeout (i : ℕ) (isExecuted : Bool)
  | error (i : ℕ)
  | face (f : FaceId) (isThere : Bool)

def take (b : BatchRun C) (i : ℕ) : BatchRun C := { b with commands := b.commands.eraseIdx i }

def step (b : BatchRun C) (ev : Event) : Option (BatchRun C) :=
  if b.result.isSome then none
  else
    match ev with
    | .reply i => b.commands[i]?.map fun c =>
      let r := b.fib.execute c
      ({ b.take i with fib := r.1 }).onReply c r.2
    | .timeout i isExecuted => b.commands[i]?.map fun c =>
      ({ b.take i with
        fib := if isExecuted then (b.fib.execute c).1 else b.fib }).onReply c .timeout
    | .error i => b.commands[i]?.map fun _ => { b.take i with result := some .thrown }
    | .face f isThere => some { b with fib := b.fib.changeFace f isThere }

def start (F : FibUpdater C) (fib : FibTable C) : BatchRun C :=
  sendUpdatesForBatchFaceId { fibUpdater := F, fib := fib }

/-! ### The batch in progress of the RIB manager -/

def toFibCommand (item : UpdateQueueItem C) (c : SentCommand C) : FibCommand C :=
  { update := c.update, item := item, nTimeouts := c.nTimeouts }

def embed (b : BatchRun C) (item : UpdateQueueItem C) (m : RibManager C) : RibManager C :=
  { m with fibUpdater := b.fibUpdater, commands := b.commands.map (toFibCommand item) }

def finish (nth : NthElement) (b : BatchRun C) (item : UpdateQueueItem C) (m : RibManager C) :
    Option (RibManager C) :=
  match b.result with
  | none => some (b.embed item m)
  | some .succeeded =>
    RibManager.onFibUpdateSuccess (RibManager.sendBatchFromQueue nth) item (b.embed item m)
  | some .failed =>
    RibManager.onFibUpdateFailure (RibManager.sendBatchFromQueue nth) item (b.embed item m)
  | some .thrown => some { b.embed item m with isStopped := true }

omit [LinearOrder C] in
lemma embed_send (b : BatchRun C) (item : UpdateQueueItem C) (m : RibManager C)
    (l : List (FibUpdate C)) : (b.embed item m).sendUpdates l item =
      (b.send (l.map sendUpdate)).embed item m := by
  have hmap : l.map (fun update => ({ update, item } : FibCommand C)) =
      (l.map sendUpdate).map (toFibCommand item) := by
    rw [List.map_map]
    refine map_congr_left fun u _ => ?_
    unfold Function.comp sendUpdate
    split <;> rfl
  rw [RibManager.sendUpdates, embed, embed, send, hmap, map_append]

section Handlers

variable {b : BatchRun C} (nth : NthElement) (item : UpdateQueueItem C) (m : RibManager C)

section

variable (hb : b.result = none)
include hb

lemma finish_none : b.finish nth item m = some (b.embed item m) := by
  rw [finish, hb]

lemma sendUpdatesForNonBatchFaceId_embed :
    RibManager.sendUpdatesForNonBatchFaceId (RibManager.sendBatchFromQueue nth) item
      (b.embed item m) = b.sendUpdatesForNonBatchFaceId.finish nth item m := by
  unfold RibManager.sendUpdatesForNonBatchFaceId sendUpdatesForNonBatchFaceId
  by_cases hlen : b.fibUpdater.updatesForNonBatchFaceId.length > 0
  · rw [if_pos hlen, finish_none nth item m (show (b.send _).result = none from hb), ← embed_send]
    exact if_pos hlen
  · rw [if_neg hlen]
    exact if_neg hlen

lemma removeForNonBatchFaceId_embed (u : FibUpdate C) :
    (if (b.fibUpdater.removeForNonBatchFaceId u).updatesForNonBatchFaceId.length = 0 then
        RibManager.onFibUpdateSuccess (RibManager.sendBatchFromQueue nth) item
          { b.embed item m with fibUpdater := b.fibUpdater.removeForNonBatchFaceId u }
      else some { b.embed item m with fibUpdater := b.fibUpdater.removeForNonBatchFaceId u }) =
      (b.removeForNonBatchFaceId u).finish nth item m := by
  simp only [removeForNonBatchFaceId]
  split
  · rfl
  · exact (finish_none (b := { b with fibUpdater := b.fibUpdater.removeForNonBatchFaceId u })
      nth item m hb).symm

lemma onReply_embed (c : SentCommand C) (r : Reply) :
    RibManager.onReply (RibManager.sendBatchFromQueue nth) (toFibCommand item c) (b.embed item m)
        r =
      (b.onReply c r).finish nth item m := by
  cases r with
  | success =>
    change RibManager.onUpdateSuccess _ _ _ = (b.onUpdateSuccess c.update).finish nth item m
    unfold RibManager.onUpdateSuccess onUpdateSuccess
    by_cases hface : c.update.faceId = b.fibUpdater.batchFaceId
    · rw [if_pos hface]
      refine (if_pos hface).trans ?_
      let b₁ : BatchRun C := { b with fibUpdater := b.fibUpdater.removeForBatchFaceId c.update }
      have hb₁ : b₁.result = none := hb
      change (if b₁.fibUpdater.updatesForBatchFaceId.length = 0 then
        RibManager.sendUpdatesForNonBatchFaceId _ item (b₁.embed item m)
          else some (b₁.embed item m)) = _
      dsimp only
      split
      · exact sendUpdatesForNonBatchFaceId_embed nth item m hb₁
      · exact (finish_none nth item m hb₁).symm
    · rw [if_neg hface]
      exact (if_neg hface).trans (removeForNonBatchFaceId_embed nth item m hb c.update)
  | timeout =>
    change some (RibManager.onUpdateTimeout _ _) = (b.onUpdateTimeout c).finish nth item m
    unfold RibManager.onUpdateTimeout onUpdateTimeout
    by_cases hlt : c.nTimeouts < FibUpdater.maxNumTimeouts
    · rw [if_pos hlt, finish_none nth item m (show (b.send _).result = none from hb)]
      refine congrArg some ((if_pos hlt).trans ?_)
      simp only [embed, send, map_append]
      rfl
    · rw [if_neg hlt]
      exact congrArg some (if_neg hlt)
  | faceNotFound =>
    change RibManager.onFaceNotFound _ _ _ = (b.onFaceNotFound c.update).finish nth item m
    unfold RibManager.onFaceNotFound onFaceNotFound
    by_cases hface : c.update.faceId = b.fibUpdater.batchFaceId
    · rw [if_pos hface]
      exact if_pos hface
    · rw [if_neg hface]
      exact (if_neg hface).trans (removeForNonBatchFaceId_embed nth item m hb c.update)

end

variable {m}

lemma step_embed {c : SentCommand C} {i : ℕ} (hb : b.result = none) (hm : m.isStopped = false)
    (hc : b.commands[i]? = some c) (fib : FibTable C) (r : Reply) :
    (b.embed item m).step nth (.reply i r) =
      ({ b.take i with fib }.onReply c r).finish nth item m := by
  have hcommand : (b.embed item m).commands[i]? = some (toFibCommand item c) := by simp [embed, hc]
  have herase : (b.embed item m).commands.eraseIdx i =
      (b.take i).commands.map (toFibCommand item) := eraseIdx_map ..
  rw [RibManager.step, if_neg (by simp [embed, hm])]
  simp only [RibManager.onEvent, hcommand, herase]
  exact onReply_embed (b := { b.take i with fib }) nth item m hb c r

/-- The manager gets where a run of its batch against the FIB ends, by the replies to the commands
alone; other errors are not among them. -/
theorem batch_run_managed {b₀ : BatchRun C} {m' : RibManager C}
    (h : Reach step (fun _ ev => ∀ i, ev ≠ .error i) b₀ b) (h₀ : b₀.result = none)
    (hm : m.isStopped = false) (hm' : b.finish nth item m = some m') :
    Reach (RibManager.step nth) (fun _ ev => ∃ i r, ev = .reply i r) (b₀.embed item m) m' := by
  induction h generalizing m' with
  | init =>
    cases (finish_none nth item m h₀).symm.trans hm'
    exact .init
  | @step b b' ev _ hok hs ih =>
    unfold step at hs
    split at hs
    · cases hs
    have hb : b.result = none := not_isSome_iff_eq_none.mp ‹_›
    have hreach := ih (finish_none nth item m hb)
    cases ev with
    | reply i | timeout i isExecuted =>
      obtain ⟨c, hc, rfl⟩ := map_eq_some_iff.mp hs
      exact .step hreach ⟨i, _, rfl⟩ ((step_embed nth item hb hm hc _ _).trans hm')
    | error i => exact absurd rfl (hok i)
    | face f isThere =>
      cases hs
      cases (finish_none nth item m hb).symm.trans hm'
      exact hreach

end Handlers

/-! ### What a run keeps -/

variable {F : FibUpdater C} {b b' : BatchRun C} {c : SentCommand C} {i : ℕ}

/-- Every command sent is the one its update asks for, and every update that removes a nexthop is
on its list until the FIB has no such nexthop. The commands in flight are for different updates of
the list that is worked off. -/
structure Sound (F : FibUpdater C) (b : BatchRun C) : Prop where
  carries : ∀ c ∈ b.sent, c.Carries
  sent : ∀ c ∈ b.commands, c ∈ b.sent
  face : b.fibUpdater.batchFaceId = F.batchFaceId
  sub : ∀ u ∈ b.fibUpdater.updates, u ∈ F.updates
  nodup : (b.commands.map SentCommand.update).Nodup
  list : (∀ c ∈ b.commands, c.update ∈ b.fibUpdater.updatesForBatchFaceId) ∨
    b.fibUpdater.updatesForBatchFaceId = [] ∧
      ∀ c ∈ b.commands, c.update ∈ b.fibUpdater.updatesForNonBatchFaceId
  removed : ∀ u ∈ F.updates, u.action = .removeNextHop →
    u ∈ b.fibUpdater.updates ∨ b.fib.nexthops u.key = none
  done : b.result = some .succeeded → b.fibUpdater.updates = []

omit [LinearOrder C] in
lemma Sound.mem_updates (h : Sound F b) (hc : c ∈ b.commands) :
    c.update ∈ b.fibUpdater.updates := by
  rcases h.list with hl | ⟨-, hl⟩
  · exact mem_append_left _ (hl c hc)
  · exact mem_append_right _ (hl c hc)

lemma Sound.execute (h : Sound F b) (hc : c ∈ b.commands) :
    Sound F { b with fib := (b.fib.execute c).1 } := by
  refine { h with removed := fun u hu hrem => ?_ }
  rcases h.removed u hu hrem with hmem | hnone
  · exact .inl hmem
  right
  have hcarries := h.carries c (h.sent c hc)
  have hkey : (c.parameters.name, c.parameters.faceId) = c.update.key := by
    rw [hcarries.name, hcarries.faceId]
    rfl
  by_cases hk : u.key = c.update.key
  · -- the update has the key to itself, so the command removes too
    have hsame : u = c.update := inj_on_of_nodup_map F.keys_nodup hu (h.sub _ (h.mem_updates hc)) hk
    rw [hk, ← hkey]
    exact FibTable.execute_remove (hcarries.action.trans (hsame ▸ hrem))
  · change (b.fib.execute c).1.nexthops u.key = none
    rw [FibTable.execute_of_ne (hkey ▸ hk), hnone]

section

omit [LinearOrder C]

lemma Sound.update_ne (h : Sound F b) (hc : b.commands[i]? = some c) :
    ∀ c' ∈ b.commands.eraseIdx i, c'.update ≠ c.update := by
  obtain ⟨hi, hci⟩ := List.getElem?_eq_some_iff.mp hc
  have hperm := (getElem_cons_eraseIdx_perm hi).map SentCommand.update
  have hnodup := hperm.nodup_iff.mpr h.nodup
  rw [map_cons, hci, nodup_cons] at hnodup
  intro c' hc' heq
  exact hnodup.1 (heq ▸ List.mem_map_of_mem hc')

lemma Sound.take (h : Sound F b) (i : ℕ) : Sound F (b.take i) := by
  have hmem : ∀ c ∈ b.commands.eraseIdx i, c ∈ b.commands := fun c => mem_of_mem_eraseIdx
  refine { h with
    sent := fun c hc => h.sent c (hmem c hc)
    nodup := h.nodup.sublist ((eraseIdx_sublist _ i).map _)
    list := ?_ }
  exact h.list.imp (fun hl c hc => hl c (hmem c hc)) (And.imp_right fun hl c hc => hl c (hmem c hc))

lemma Sound.send_list {l : List (FibUpdate C)} (h : Sound F b) (hcommands : b.commands = [])
    (hnodup : l.Nodup) (hl : l = b.fibUpdater.updatesForBatchFaceId ∨
      b.fibUpdater.updatesForBatchFaceId = [] ∧ l = b.fibUpdater.updatesForNonBatchFaceId) :
    Sound F (b.send (l.map sendUpdate)) := by
  have hnew : (b.send (l.map sendUpdate)).commands = l.map sendUpdate := by
    rw [send, hcommands, nil_append]
  have hupdate : (l.map sendUpdate).map SentCommand.update = l := by
    rw [List.map_map]
    exact (map_congr_left fun u _ => (carries_sendUpdate u).2).trans (List.map_id _)
  have hmem : ∀ c ∈ (b.send (l.map sendUpdate)).commands, c.update ∈ l := by
    intro c hc
    rw [hnew] at hc
    exact hupdate ▸ List.mem_map_of_mem hc
  refine { h with carries := ?_, sent := ?_, nodup := ?_, list := ?_ }
  · intro c hc
    rcases mem_append.mp hc with hc | hc
    · exact h.carries c hc
    · obtain ⟨u, -, rfl⟩ := List.mem_map.mp hc
      exact (carries_sendUpdate u).1
  · intro c hc
    rw [hnew] at hc
    exact mem_append_right _ hc
  · rwa [hnew, hupdate]
  rcases hl with rfl | ⟨hnil, rfl⟩
  · exact .inl hmem
  · exact .inr ⟨hnil, hmem⟩

lemma Sound.sendUpdatesForNonBatchFaceId (h : Sound F b) (hcommands : b.commands = [])
    (hnil : b.fibUpdater.updatesForBatchFaceId = []) :
    Sound F b.sendUpdatesForNonBatchFaceId := by
  unfold BatchRun.sendUpdatesForNonBatchFaceId
  split
  · exact h.send_list hcommands (b.fibUpdater.nonBatch_nodup.of_map _) (.inr ⟨hnil, rfl⟩)
  rename_i hlen
  refine { h with done := fun _ => ?_ }
  rw [FibUpdater.updates, hnil, nil_append]
  simpa using hlen

end

lemma Sound.shrink {F' : FibUpdater C} (h : Sound F b) (hface : F'.batchFaceId = F.batchFaceId)
    (hmem : ∀ u, u ∈ F'.updates ↔ u ∈ b.fibUpdater.updates ∧ u ≠ c.update)
    (hlist : (∀ c' ∈ (b.take i).commands, c'.update ∈ F'.updatesForBatchFaceId) ∨
      F'.updatesForBatchFaceId = [] ∧
        ∀ c' ∈ (b.take i).commands, c'.update ∈ F'.updatesForNonBatchFaceId)
    (hgone : c.update.action = .removeNextHop → b.fib.nexthops c.update.key = none) :
    Sound F { b.take i with fibUpdater := F' } := by
  refine { h.take i with
    face := hface
    sub := fun u hu => h.sub u ((hmem u).mp hu).1
    list := hlist
    removed := fun u hu hrem => ?_
    done := fun hr => ?_ }
  · by_cases hsame : u = c.update
    · exact .inr (hsame ▸ hgone (hsame ▸ hrem))
    · exact (h.removed u hu hrem).imp_left fun hin => (hmem u).mpr ⟨hin, hsame⟩
  refine eq_nil_iff_forall_not_mem.mpr fun u hu => ?_
  have hin := ((hmem u).mp hu).1
  rw [h.done hr] at hin
  exact not_mem_nil hin

section

variable (h : Sound F b) (hc : b.commands[i]? = some c)
include h hc

lemma Sound.removeForNonBatchFaceId (hface : c.update.faceId ≠ b.fibUpdater.batchFaceId)
    (hgone : c.update.action = .removeNextHop → b.fib.nexthops c.update.key = none) :
    Sound F ((b.take i).removeForNonBatchFaceId c.update) := by
  obtain ⟨hnil, hin⟩ : b.fibUpdater.updatesForBatchFaceId = [] ∧
      ∀ c ∈ b.commands, c.update ∈ b.fibUpdater.updatesForNonBatchFaceId := by
    rcases h.list with hl | hl
    · exact absurd (b.fibUpdater.batch_face _ (hl c (mem_of_getElem? hc))) hface
    · exact hl
  have hsound : Sound F
      { b.take i with fibUpdater := b.fibUpdater.removeForNonBatchFaceId c.update } := by
    refine h.shrink h.face (fun u => FibUpdater.mem_updates_removeForNonBatchFaceId hface) ?_ hgone
    exact .inr ⟨hnil, fun c' hc' => mem_filter.mpr
      ⟨hin c' (mem_of_mem_eraseIdx hc'), decide_eq_true (h.update_ne hc c' hc')⟩⟩
  unfold BatchRun.removeForNonBatchFaceId
  dsimp only
  split
  next hlen =>
    refine { hsound with done := fun _ => ?_ }
    exact append_eq_nil_iff.mpr ⟨hnil, length_eq_zero_iff.mp hlen⟩
  · exact hsound

lemma Sound.onUpdateSuccess
    (hgone : c.update.action = .removeNextHop → b.fib.nexthops c.update.key = none) :
    Sound F ((b.take i).onUpdateSuccess c.update) := by
  unfold BatchRun.onUpdateSuccess
  split
  next hface =>
    have hin : ∀ c ∈ b.commands, c.update ∈ b.fibUpdater.updatesForBatchFaceId := by
      rcases h.list with hl | ⟨-, hl⟩
      · exact hl
      · exact absurd hface (b.fibUpdater.nonBatch_face _ (hl c (mem_of_getElem? hc)))
    have hleft : ∀ c' ∈ (b.take i).commands,
        c'.update ∈ (b.fibUpdater.removeForBatchFaceId c.update).updatesForBatchFaceId :=
      fun c' hc' => mem_filter.mpr ⟨hin c' (mem_of_mem_eraseIdx hc'),
        decide_eq_true (h.update_ne hc c' hc')⟩
    have hsound : Sound F
        { b.take i with fibUpdater := b.fibUpdater.removeForBatchFaceId c.update } :=
      h.shrink h.face (fun u => FibUpdater.mem_updates_removeForBatchFaceId hface) (.inl hleft)
        hgone
    dsimp only
    split
    next hlen =>
      have hnil := length_eq_zero_iff.mp hlen
      refine hsound.sendUpdatesForNonBatchFaceId ?_ hnil
      refine eq_nil_iff_forall_not_mem.mpr fun c' hc' => ?_
      exact not_mem_nil (hnil ▸ hleft c' hc')
    · exact hsound
  next hface =>
    exact h.removeForNonBatchFaceId hc hface hgone

omit [LinearOrder C] in
lemma Sound.onUpdateTimeout
    (hadd : c.nTimeouts < FibUpdater.maxNumTimeouts → c.update.action = .addNextHop) :
    Sound F ((b.take i).onUpdateTimeout c) := by
  have htake := h.take i
  have hmem := mem_of_getElem? hc
  unfold BatchRun.onUpdateTimeout
  split
  next hlt =>
    refine { htake with carries := ?_, sent := ?_, nodup := ?_, list := ?_ }
    · intro c' hc'
      rcases mem_append.mp hc' with hc' | hc'
      · exact htake.carries c' hc'
      · rw [mem_singleton.mp hc']
        exact carries_sendAddNextHopUpdate_iff.mpr (hadd hlt)
    · intro c' hc'
      rcases mem_append.mp hc' with hc' | hc'
      · exact mem_append_left _ (htake.sent c' hc')
      · exact mem_append_right _ hc'
    · rw [send, map_append]
      refine List.Nodup.append htake.nodup (nodup_singleton _) fun u hu hu' => ?_
      obtain ⟨c', hc', rfl⟩ := List.mem_map.mp hu
      exact h.update_ne hc c' hc' (mem_singleton.mp hu')
    refine h.list.imp (fun hl c' hc' => ?_) (And.imp_right fun hl c' hc' => ?_)
    all_goals
      rcases mem_append.mp hc' with hc' | hc'
      · exact hl c' (mem_of_mem_eraseIdx hc')
      · rw [mem_singleton.mp hc']
        exact hl c hmem
  · exact { htake with done := nofun }

lemma Sound.onFaceNotFound
    (hadd : c.action = .addNextHop) : Sound F ((b.take i).onFaceNotFound c.update) := by
  have haction := (h.carries c (h.sent c (mem_of_getElem? hc))).action
  unfold BatchRun.onFaceNotFound
  split
  · exact { h.take i with done := nofun }
  rename_i hface
  refine h.removeForNonBatchFaceId hc hface fun hrem => ?_
  rw [← haction, hadd] at hrem
  cases hrem

end

def RetriesAdds (b : BatchRun C) : Event → Prop
  | .timeout i _ => ∀ c, b.commands[i]? = some c → c.nTimeouts < FibUpdater.maxNumTimeouts →
    c.update.action = .addNextHop
  | _ => True

lemma Sound.reply (h : Sound F b) (hc : b.commands[i]? = some c) :
    Sound F (({ b.take i with fib := (b.fib.execute c).1 }).onReply c (b.fib.execute c).2) := by
  have hmem := mem_of_getElem? hc
  have hexec := h.execute hmem
  have hcarries := h.carries c (h.sent c hmem)
  cases hr : (b.fib.execute c).2 with
  | success =>
    refine hexec.onUpdateSuccess hc fun hrem => ?_
    have hkey : c.update.key = (c.parameters.name, c.parameters.faceId) := by
      rw [hcarries.name, hcarries.faceId]
      rfl
    rw [hkey]
    exact FibTable.execute_remove (hcarries.action.trans hrem)
  | timeout => exact absurd hr FibTable.execute_ne_timeout
  | faceNotFound => exact hexec.onFaceNotFound hc (FibTable.action_of_faceNotFound hr)

lemma Sound.timeout (h : Sound F b) (hc : b.commands[i]? = some c) (isExecuted : Bool)
    (hadd : c.nTimeouts < FibUpdater.maxNumTimeouts → c.update.action = .addNextHop) :
    Sound F (({ b.take i with
      fib := if isExecuted then (b.fib.execute c).1 else b.fib }).onReply c .timeout) := by
  cases isExecuted with
  | true => exact (h.execute (mem_of_getElem? hc)).onUpdateTimeout hc hadd
  | false => exact h.onUpdateTimeout hc hadd

lemma Sound.step {ev : Event} (h : Sound F b) (hcond : b.RetriesAdds ev)
    (hstep : b.step ev = some b') : Sound F b' := by
  unfold BatchRun.step at hstep
  split at hstep
  · cases hstep
  cases ev with
  | reply i =>
    obtain ⟨c, hc, rfl⟩ := map_eq_some_iff.mp hstep
    exact h.reply hc
  | timeout i isExecuted =>
    obtain ⟨c, hc, rfl⟩ := map_eq_some_iff.mp hstep
    exact h.timeout hc isExecuted (hcond c hc)
  | error i =>
    obtain ⟨c, hc, rfl⟩ := map_eq_some_iff.mp hstep
    exact { h.take i with done := nofun }
  | face f isThere =>
    cases hstep
    refine { h with removed := fun u hu hrem => (h.removed u hu hrem).imp_right fun hnone => ?_ }
    change (if u.key.2 = f ∧ isThere = false then none else b.fib.nexthops u.key) = none
    split
    · rfl
    · exact hnone

omit [LinearOrder C] in
lemma sound_start (F : FibUpdater C) (fib : FibTable C) : Sound F (start F fib) := by
  have hinit : Sound F { fibUpdater := F, fib := fib } :=
    ⟨nofun, nofun, rfl, fun u hu => hu, nodup_nil, .inl nofun, fun u hu _ => .inl hu, nofun⟩
  unfold start sendUpdatesForBatchFaceId
  split
  · exact hinit.send_list rfl (F.batch_nodup.of_map _) (.inl rfl)
  next hlen =>
    exact hinit.sendUpdatesForNonBatchFaceId rfl (by simpa using hlen)

/-- In every run in which only commands of updates that add a nexthop time out, all commands are
those that their updates ask for, and a batch that succeeds leaves no nexthop that it was to
remove. A command of another update that times out is sent again as something else. -/
theorem commands_carry_updates {F : FibUpdater C} {fib : FibTable C} {b : BatchRun C}
    (h : Reach BatchRun.step RetriesAdds (start F fib) b) :
    (∀ c ∈ b.sent, c.Carries) ∧
      (b.result = some .succeeded → ∀ u ∈ F.updates, u.action = .removeNextHop →
        b.fib.nexthops u.key = none) ∧
      ∀ ev b', b.step ev = some b' → ((∀ c ∈ b'.sent, c.Carries) ↔ b.RetriesAdds ev) := by
  have hsound : Sound F b := h.invariant (sound_start F fib) fun _ _ _ hs hc ht => hs.step hc ht
  refine ⟨hsound.carries, fun hr u hu hrem => ?_, fun ev b' hstep => ⟨fun hall => ?_, fun hc =>
    (hsound.step hc hstep).carries⟩⟩
  · rcases hsound.removed u hu hrem with hin | hnone
    · rw [hsound.done hr] at hin
      exact absurd hin not_mem_nil
    · exact hnone
  cases ev with
  | timeout i isExecuted =>
    intro c hc hlt
    simp only [BatchRun.step, hc, map_some] at hstep
    split at hstep
    · cases hstep
    cases hstep
    rw [onReply, onUpdateTimeout, if_pos hlt] at hall
    exact carries_sendAddNextHopUpdate_iff.mp (hall _ (mem_append_right _ (mem_singleton.mpr rfl)))
  | _ => trivial

def lostRemoval : BatchRun ℕ :=
  start
    { batchFaceId := 1
      updatesForBatchFaceId := [.createRemoveUpdate [1] 1]
      batch_face := by simp [FibUpdate.createRemoveUpdate] }
    { nexthops := fun k => if k = ([1], 1) then some 10 else none }

/-- The removal is sent again as an addition, the batch succeeds, and the nexthop is there with
the cost that the update does not have. -/
theorem removal_retried_as_addition :
    ∃ b, run BatchRun.step lostRemoval [.timeout 0 false, .reply 0] = some b ∧
      b.result = some .succeeded ∧ b.sent.map SentCommand.action = [.removeNextHop, .addNextHop] ∧
      b.fib.nexthops ([1], 1) = some 0 :=
  ⟨_, rfl, rfl, rfl, rfl⟩

/-- Without the loss the nexthop is removed. -/
theorem removal_carried :
    ∃ b, Reach BatchRun.step RetriesAdds lostRemoval b ∧
      b.result = some .succeeded ∧ b.fib.nexthops ([1], 1) = none := by
  have hreach : ∃ b, Reach BatchRun.step RetriesAdds lostRemoval b ∧
      b.result = some .succeeded :=
    ⟨_, .step (a := .reply 0) .init trivial rfl, rfl⟩
  obtain ⟨b, hb, hr⟩ := hreach
  exact ⟨b, hb, hr, (commands_carry_updates hb).2.1 hr (.createRemoveUpdate [1] 1)
    (mem_singleton.mpr rfl) rfl⟩

/-- For the manager that waits for this batch, the loss is a timeout and then a success. -/
theorem batch_run_managed_lost : ∃ m : RibManager ℕ, m.isUpdateInProgress = false ∧
    Reach (RibManager.step .sorting) (fun _ ev => ∃ i r, ev = .reply i r)
      (lostRemoval.embed ⟨0, ⟨.unregister, [1], { faceId := 1 }⟩, none, false⟩
        { isUpdateInProgress := true }) m :=
  ⟨_, rfl, batch_run_managed .sorting _ (.step (a := .reply 0)
    (.step (a := .timeout 0 false) .init nofun rfl) nofun rfl) rfl rfl rfl⟩

end BatchRun

end NfdGateway
