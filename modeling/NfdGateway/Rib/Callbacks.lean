import NfdGateway.Rib.UpdatedRoute

/-! The callbacks of the update batches: when each batch gets exactly one of its two, and no
batch is sent before the one in progress got its own. -/
namespace NfdGateway

open FibUpdater List Option Transition

variable {C : Type} [LinearOrder C] {nth : NthElement} {m m' : RibManager C}
  {item : UpdateQueueItem C} {items : List (UpdateQueueItem C)} {F : FibUpdater C} {u : RibUpdate C}
  {rib : Rib C} {n : ℕ} {Idle Done : RibManager C → Prop}

namespace RibManager

/-! What the parts of a step leave as it is. -/

lemma cancelExisting_eq :
    m.cancelExisting u = { m with scheduled := (m.cancelExisting u).scheduled } := by
  rw [cancelExisting]
  split
  · rfl
  · cases m.expirationEvents u.routeId <;> rfl

lemma computed_eq : m.computed item F =
    { m with fibUpdater := F, scheduled := (m.computed item F).scheduled } := by
  rw [computed]
  split
  · rfl
  · rw [cancelExisting_eq]

def expiredNotes (m : RibManager C) (item : UpdateQueueItem C) : List (Note C) :=
  match item.update.action, m.existing item.update, item.isExpiration with
  | .register, _, _ => []
  | _, some route, true => [.expired route m.now]
  | _, _, _ => []

lemma succeeded_eq : m.succeeded item rib =
    { m with
      rib
      isUpdateInProgress := false
      scheduled := (m.succeeded item rib).scheduled
      expirationEvents := (m.succeeded item rib).expirationEvents
      history := m.history ++ m.expiredNotes item ++ [.succeeded item.id] } := by
  rw [succeeded, updateEvents, expiredNotes, cancelExisting_eq]
  cases item.update.action <;> cases m.existing item.update <;> cases item.isExpiration <;> simp

def Sends (F : FibUpdater C) (updates : List (FibUpdate C)) : Prop :=
  updates ≠ [] ∧ (updates = F.updatesForBatchFaceId ∨
    F.updatesForBatchFaceId = [] ∧ updates = F.updatesForNonBatchFaceId)

/-- What holds between two batches, and is kept by a batch without FIB updates, leads to what
holds when a batch was sent or the queue is empty. -/
structure QueueRule (nth : NthElement) (Idle Done : RibManager C → Prop) : Prop where
  idle : ∀ {m}, Idle m → m.isUpdateInProgress = false
  done : ∀ {m}, Idle m → m.updateBatches = [] → Done m
  send : ∀ {m item items F updates}, Idle m → m.updateBatches = item :: items →
    computeUpdates m.rib nth item.update = some F → Sends F updates →
    Done (((m.taken item items).computed item F).sendUpdates updates item)
  skip : ∀ {m item items F rib}, Idle m → m.updateBatches = item :: items →
    computeUpdates m.rib nth item.update = some F → F.updatesForBatchFaceId = [] →
    F.updatesForNonBatchFaceId = [] →
    RibState.onFibUpdateSuccess m.rib item.update F.inheritedRoutes = some rib →
    Idle (((m.taken item items).computed item F).succeeded item rib)

lemma QueueRule.sendBatches (hrule : QueueRule nth Idle Done)
    {fuel : ℕ} (hm : Idle m) (hlen : m.updateBatches.length < fuel)
    (h : RibManager.sendBatches nth fuel m = some m') : Done m' := by
  induction fuel generalizing m with
  | zero => exact absurd hlen (Nat.not_lt_zero _)
  | succ fuel ih =>
    rw [RibManager.sendBatches, hrule.idle hm] at h
    cases hq : m.updateBatches with
    | nil =>
      rw [hq] at h
      cases h
      exact hrule.done hm hq
    | cons item items =>
      rw [hq] at h
      obtain ⟨F, hF, h⟩ := bind_eq_some_iff.mp h
      have hlists : ((m.taken item items).computed item F).fibUpdater = F := by rw [computed_eq]
      have hrib : ((m.taken item items).computed item F).rib = m.rib := by
        rw [computed_eq]
        rfl
      rw [sendUpdatesForBatchFaceId, hlists] at h
      split at h
      next hpos =>
        cases h
        exact hrule.send hm hq hF ⟨ne_nil_of_length_pos hpos, .inl rfl⟩
      rename_i hnone
      have hnil : F.updatesForBatchFaceId = [] := by simpa using hnone
      rw [sendUpdatesForNonBatchFaceId, hlists] at h
      split at h
      next hpos =>
        cases h
        exact hrule.send hm hq hF ⟨ne_nil_of_length_pos hpos, .inr ⟨hnil, rfl⟩⟩
      rename_i hnone'
      rw [onFibUpdateSuccess, hlists, hrib] at h
      obtain ⟨rib, hR, h⟩ := bind_eq_some_iff.mp h
      refine ih (hrule.skip hm hq hF hnil (by simpa using hnone') hR) ?_ h
      rw [succeeded_eq, computed_eq]
      rw [hq, length_cons] at hlen
      exact Nat.lt_of_succ_lt_succ hlen

lemma QueueRule.sendBatchFromQueue
    (hrule : QueueRule nth Idle Done) (hm : Idle m) (h : m.sendBatchFromQueue nth = some m') :
    Done m' :=
  hrule.sendBatches hm (Nat.lt_succ_self _) h

lemma sendBatchFromQueue_busy (hm : m.isUpdateInProgress = true) :
    m.sendBatchFromQueue nth = some m := by
  rw [RibManager.sendBatchFromQueue, RibManager.sendBatches, hm]
  cases m.updateBatches <;> rfl

/-! A batch in progress. -/

/-- The batch `item` is in progress: the commands in flight are its own, one for each update left
in the list it is at. -/
structure Busy (m : RibManager C) (item : UpdateQueueItem C) : Prop where
  busy : m.isUpdateInProgress = true
  own : ∀ c ∈ m.commands, c.item = item
  awaited : m.commands ≠ []
  list : (m.commands.map FibCommand.update).Perm m.fibUpdater.updatesForBatchFaceId ∨
    m.fibUpdater.updatesForBatchFaceId = [] ∧
      (m.commands.map FibCommand.update).Perm m.fibUpdater.updatesForNonBatchFaceId

/-- What a reply to the command `c` leads to: the batch goes on, or it ends with one of its
callbacks and the manager resumes. -/
inductive Replied (resume : RibManager C → Option (RibManager C)) (m : RibManager C)
    (item : UpdateQueueItem C) (c : FibCommand C) (m' : RibManager C) : Reply → Prop
  | waits {r : Reply} (commands : List (FibCommand C)) (F : FibUpdater C)
      (hF : F.inheritedRoutes = m.fibUpdater.inheritedRoutes)
      (hm : m' = { m with commands, fibUpdater := F }) (hb : Busy m' item) :
    Replied resume m item c m' r
  | succeeds {r : Reply} (F : FibUpdater C) (rib : Rib C)
      (hrib : RibState.onFibUpdateSuccess m.rib item.update m.fibUpdater.inheritedRoutes = some rib)
      (h : resume ({ m with commands := [], fibUpdater := F }.succeeded item rib) = some m') :
    Replied resume m item c m' r
  | fails (hface : c.update.faceId = m.fibUpdater.batchFaceId)
      (h : resume ({ m with commands := [] }.failed item) = some m') :
    Replied resume m item c m' .faceNotFound

variable {resume : RibManager C → Option (RibManager C)} {i now : ℕ} {c : FibCommand C} {r : Reply}
  {event : Option ℕ} {scheduled : List (Expiration C)} {b : Bool} {ev : Event C} {m₁ : RibManager C}

omit [LinearOrder C] in
lemma nodup_of_keys {l : List (FibUpdate C)} (h : (l.map FibUpdate.key).Nodup) : l.Nodup :=
  h.of_map _

lemma perm_reply {l : List (FibUpdate C)} (hc : m.commands[i]? = some c)
    (hperm : (m.commands.map FibCommand.update).Perm l) (hl : (l.map FibUpdate.key).Nodup) :
    ((m.commands.eraseIdx i).map FibCommand.update).Perm (l.filter (· ≠ c.update)) := by
  obtain ⟨hi, hci⟩ := List.getElem?_eq_some_iff.mp hc
  have hsplit : (c.update :: (m.commands.eraseIdx i).map FibCommand.update).Perm l := by
    refine List.Perm.trans ?_ hperm
    rw [← map_cons, ← hci]
    exact (getElem_cons_eraseIdx_perm hi).map _
  have hnodup := hsplit.nodup_iff.mpr (nodup_of_keys hl)
  have hnot := (nodup_cons.mp hnodup).1
  have hfilter := hsplit.filter (· ≠ c.update)
  rw [filter_cons_of_neg (by simp)] at hfilter
  refine List.Perm.trans ?_ hfilter
  rw [filter_eq_self.mpr]
  intro w hw
  have hne : w ≠ c.update := fun he => hnot (he ▸ hw)
  simpa using hne

omit [LinearOrder C] in
lemma Busy.batchFace (hb : Busy m item) (hc : m.commands[i]? = some c)
    (hface : c.update.faceId = m.fibUpdater.batchFaceId) :
    (m.commands.map FibCommand.update).Perm m.fibUpdater.updatesForBatchFaceId := by
  rcases hb.list with hperm | ⟨-, hperm⟩
  · exact hperm
  have hmem : c.update ∈ m.commands.map FibCommand.update :=
    List.mem_map_of_mem (mem_of_getElem? hc)
  exact absurd hface (m.fibUpdater.nonBatch_face _ (hperm.mem_iff.mp hmem))

omit [LinearOrder C] in
lemma Busy.nonBatchFace (hb : Busy m item) (hc : m.commands[i]? = some c)
    (hface : c.update.faceId ≠ m.fibUpdater.batchFaceId) :
    m.fibUpdater.updatesForBatchFaceId = [] ∧
      (m.commands.map FibCommand.update).Perm m.fibUpdater.updatesForNonBatchFaceId := by
  rcases hb.list with hperm | hlist
  · have hmem : c.update ∈ m.commands.map FibCommand.update :=
      List.mem_map_of_mem (mem_of_getElem? hc)
    exact absurd (m.fibUpdater.batch_face _ (hperm.mem_iff.mp hmem)) hface
  · exact hlist

omit [LinearOrder C] in
lemma Busy.own_erased (hb : Busy m item) : ∀ c ∈ m.commands.eraseIdx i, c.item = item :=
  fun c hc => hb.own c (mem_of_mem_eraseIdx hc)

section

variable (hb : Busy m item) (hc : m.commands[i]? = some c)
include hb hc

lemma Busy.replied_nonBatch (hface : c.update.faceId ≠ m.fibUpdater.batchFaceId) (h : (if
      (m.fibUpdater.removeForNonBatchFaceId c.update).updatesForNonBatchFaceId.length = 0 then
        onFibUpdateSuccess resume c.item
          { m with
            commands := m.commands.eraseIdx i
            fibUpdater := m.fibUpdater.removeForNonBatchFaceId c.update }
      else some { m with
        commands := m.commands.eraseIdx i
        fibUpdater := m.fibUpdater.removeForNonBatchFaceId c.update }) = some m') :
    Replied resume m item c m' r := by
  obtain ⟨hnil, hperm⟩ := hb.nonBatchFace hc hface
  have hleft := perm_reply hc hperm m.fibUpdater.nonBatch_nodup
  have hitem := hb.own c (mem_of_getElem? hc)
  split at h
  next hlen =>
    have hnone : m.commands.eraseIdx i = [] := by
      have hzero := hleft.length_eq.trans hlen
      simpa using hzero
    rw [onFibUpdateSuccess, hitem, hnone] at h
    obtain ⟨rib, hrib, h⟩ := bind_eq_some_iff.mp h
    exact .succeeds _ rib hrib h
  next hlen =>
    cases h
    refine .waits (m.commands.eraseIdx i) (m.fibUpdater.removeForNonBatchFaceId c.update) rfl rfl
      ⟨hb.busy, hb.own_erased, fun hnone => hlen ?_, .inr ⟨hnil, hleft⟩⟩
    have hlength := hleft.length_eq
    rw [length_map, show m.commands.eraseIdx i = [] from hnone] at hlength
    exact hlength.symm

lemma Busy.replied_success (h : onUpdateSuccess resume c
      { m with commands := m.commands.eraseIdx i } = some m') : Replied resume m item c m' r := by
  simp only [onUpdateSuccess] at h
  split at h
  next hface =>
    have hleft := perm_reply hc (hb.batchFace hc hface) m.fibUpdater.batch_nodup
    have hitem := hb.own c (mem_of_getElem? hc)
    split at h
    · -- the other updates of the batch come now
      rename_i hlen
      have hlist := length_eq_zero_iff.mp hlen
      have hnone : m.commands.eraseIdx i = [] := by
        have hzero := hleft.length_eq.trans hlen
        simpa using hzero
      rw [sendUpdatesForNonBatchFaceId, hitem, hnone] at h
      split at h
      next hpos =>
        cases h
        refine .waits (m.fibUpdater.updatesForNonBatchFaceId.map fun update => { update, item })
          (m.fibUpdater.removeForBatchFaceId c.update) rfl rfl
          ⟨hb.busy, fun k hk => ?_, fun hnil => ?_, .inr ⟨hlist, ?_⟩⟩
        · obtain ⟨w, -, rfl⟩ := List.mem_map.mp hk
          rfl
        · have hempty := map_eq_nil_iff.mp
            (show m.fibUpdater.updatesForNonBatchFaceId.map _ = [] from hnil)
          exact ne_nil_of_length_pos hpos hempty
        · rw [sendUpdates, nil_append, List.map_map]
          exact List.Perm.of_eq (List.map_id _)
      · rw [onFibUpdateSuccess] at h
        obtain ⟨rib, hrib, h⟩ := bind_eq_some_iff.mp h
        exact .succeeds _ rib hrib h
    next hlen =>
      cases h
      refine .waits (m.commands.eraseIdx i) (m.fibUpdater.removeForBatchFaceId c.update) rfl rfl
        ⟨hb.busy, hb.own_erased, fun hnone => hlen ?_, .inl hleft⟩
      have hlength := hleft.length_eq
      rw [length_map, show m.commands.eraseIdx i = [] from hnone] at hlength
      exact hlength.symm
  next hface =>
    exact hb.replied_nonBatch hc hface h

lemma Busy.replied (htime : r = .timeout → c.nTimeouts < maxNumTimeouts)
    (honly : r = .faceNotFound → c.update.faceId = m.fibUpdater.batchFaceId →
      m.commands.length = 1)
    (h : onReply resume c { m with commands := m.commands.eraseIdx i } r = some m') :
    Replied resume m item c m' r := by
  have hmem := mem_of_getElem? hc
  cases r with
  | success => exact hb.replied_success hc h
  | timeout =>
    have hm' := some.inj h
    rw [onUpdateTimeout, if_pos (htime rfl)] at hm'
    have hperm : ((m.commands.eraseIdx i ++ [{ c with nTimeouts := c.nTimeouts + 1 }]).map
        FibCommand.update).Perm (m.commands.map FibCommand.update) := by
      obtain ⟨hi, hci⟩ := List.getElem?_eq_some_iff.mp hc
      have hsplit := (getElem_cons_eraseIdx_perm hi).map FibCommand.update
      rw [hci] at hsplit
      rw [map_append]
      exact (perm_append_comm).trans hsplit
    subst hm'
    refine .waits _ m.fibUpdater rfl rfl ⟨hb.busy, fun k hk => ?_, by simp, ?_⟩
    · rcases mem_append.mp hk with hk | hk
      · exact hb.own_erased k hk
      · obtain rfl := mem_singleton.mp hk
        exact hb.own c hmem
    · exact hb.list.imp hperm.trans (And.imp_right hperm.trans)
  | faceNotFound =>
    have h : onFaceNotFound resume c { m with commands := m.commands.eraseIdx i } = some m' := h
    rw [onFaceNotFound] at h
    split at h
    next hface =>
      have hnone : m.commands.eraseIdx i = [] := by
        obtain ⟨hi, -⟩ := List.getElem?_eq_some_iff.mp hc
        have hlen := length_eraseIdx_of_lt hi
        rw [honly rfl hface] at hlen
        exact length_eq_zero_iff.mp hlen
      rw [onFibUpdateFailure, hb.own c hmem, hnone] at h
      exact .fails hface h
    next hface =>
      exact hb.replied_nonBatch hc hface h

end

/-! The history: each batch is sent after the callback of the one before. -/

/-- The batches are sent in the order of their numbers and `n` of them got one callback each,
before the next was sent; the last one sent waits for its own if there is one in progress. -/
inductive Serial : ℕ → Bool → List (Note C) → Prop
  | nil : Serial 0 false []
  | sent {n : ℕ} {l : List (Note C)} (h : Serial n false l) : Serial n true (l ++ [.sent n])
  | succeeded {n : ℕ} {l : List (Note C)} (h : Serial n true l) :
    Serial (n + 1) false (l ++ [.succeeded n])
  | failed {n : ℕ} {l : List (Note C)} (h : Serial n true l) :
    Serial (n + 1) false (l ++ [.failed n])
  | expired {n : ℕ} {b : Bool} {l : List (Note C)} {route : Route} {now : ℕ} (h : Serial n b l) :
    Serial n b (l ++ [.expired route now])

omit [LinearOrder C] in
lemma Serial.callbacks {l : List (Note C)} (h : Serial n b l) :
    l.filterMap Note.callback? = List.range n := by
  induction h with
  | nil => rfl
  | sent _ ih => simp [filterMap_cons, Note.callback?, ih]
  | succeeded _ ih | failed _ ih => simp [Note.callback?, ih, range_succ]
  | expired _ ih => simp [filterMap_cons, Note.callback?, ih]

lemma Serial.expiredNotes {l : List (Note C)} (h : Serial n b l) :
    Serial n b (l ++ m.expiredNotes item) := by
  rw [RibManager.expiredNotes]
  split
  · rwa [append_nil]
  · exact .expired h
  · rwa [append_nil]

structure Numbered (m : RibManager C) (n : ℕ) : Prop where
  ids : m.updateBatches.map (·.id) = List.range' n m.updateBatches.length
  count : m.nBatches = n + m.updateBatches.length

structure Ready (m : RibManager C) (n : ℕ) : Prop where
  idle : m.isUpdateInProgress = false
  commands : m.commands = []
  serial : Serial n false m.history
  numbered : Numbered m n
  running : m.isStopped = false

structure InProgress (m : RibManager C) (n : ℕ) (item : UpdateQueueItem C) : Prop where
  busy : Busy m item
  id : item.id = n
  serial : Serial n true m.history
  numbered : Numbered m (n + 1)
  running : m.isStopped = false

def InOrder (m : RibManager C) : Prop :=
  (∃ n, Ready m n ∧ m.updateBatches = []) ∨ ∃ n item, InProgress m n item

omit [LinearOrder C] in
lemma Numbered.taken (h : Numbered m n) (hq : m.updateBatches = item :: items) :
    item.id = n ∧ items.map (·.id) = List.range' (n + 1) items.length ∧
      m.nBatches = n + 1 + items.length := by
  have hids := h.ids
  have hcount := h.count
  rw [hq, map_cons, length_cons, range'_succ] at hids
  rw [hq, length_cons] at hcount
  obtain ⟨hid, hrest⟩ := List.cons.inj hids
  exact ⟨hid, hrest, by omega⟩

lemma Ready.send {updates : List (FibUpdate C)} (h : Ready m n)
    (hq : m.updateBatches = item :: items) (hs : Sends F updates) :
    InProgress (((m.taken item items).computed item F).sendUpdates updates item) n item := by
  obtain ⟨hid, hids, hcount⟩ := h.numbered.taken hq
  rw [computed_eq]
  have hcommands : ∀ l : List (FibCommand C), m.commands ++ l = l := by simp [h.commands]
  have hmap : (updates.map fun update => ({ update, item } : FibCommand C)).map
      FibCommand.update = updates := by simp [Function.comp_def]
  refine ⟨⟨rfl, fun c hc => ?_, ?_, ?_⟩, hid, ?_, ⟨hids, hcount⟩, h.running⟩
  · change c ∈ m.commands ++ _ at hc
    rw [hcommands] at hc
    obtain ⟨w, -, rfl⟩ := List.mem_map.mp hc
    rfl
  · change m.commands ++ _ ≠ []
    rw [hcommands]
    simpa using hs.1
  · change ((m.commands ++ _).map _).Perm _ ∨ _ ∧ ((m.commands ++ _).map _).Perm _
    rw [hcommands, hmap]
    rcases hs.2 with rfl | ⟨hnil, rfl⟩
    · exact .inl (List.Perm.refl _)
    · exact .inr ⟨hnil, List.Perm.refl _⟩
  · change Serial n true (m.history ++ [.sent item.id])
    rw [hid]
    exact .sent h.serial

lemma Ready.skip (h : Ready m n) (hq : m.updateBatches = item :: items) :
    Ready (((m.taken item items).computed item F).succeeded item rib) (n + 1) := by
  obtain ⟨hid, hids, hcount⟩ := h.numbered.taken hq
  rw [succeeded_eq, computed_eq]
  refine ⟨rfl, h.commands, ?_, ⟨hids, hcount⟩, h.running⟩
  change Serial (n + 1) false (m.history ++ [.sent item.id] ++ _ ++ [.succeeded item.id])
  rw [hid]
  exact .succeeded (.expiredNotes (.sent h.serial))

lemma InProgress.succeeded (h : InProgress m n item) :
    Ready ({ m with commands := [], fibUpdater := F }.succeeded item rib) (n + 1) := by
  rw [succeeded_eq]
  refine ⟨rfl, rfl, ?_, ⟨h.numbered.ids, h.numbered.count⟩, h.running⟩
  change Serial (n + 1) false (m.history ++ _ ++ [.succeeded item.id])
  rw [h.id]
  exact .succeeded (.expiredNotes h.serial)

omit [LinearOrder C] in
lemma InProgress.failed (h : InProgress m n item) :
    Ready ({ m with commands := [] }.failed item) (n + 1) := by
  refine ⟨rfl, rfl, ?_, ⟨h.numbered.ids, h.numbered.count⟩, h.running⟩
  change Serial (n + 1) false (m.history ++ [.failed item.id])
  rw [h.id]
  exact .failed h.serial

omit [LinearOrder C] in
lemma InProgress.waits {commands : List (FibCommand C)} (h : InProgress m n item)
    (hb : Busy { m with commands, fibUpdater := F } item) :
    InProgress { m with commands, fibUpdater := F } n item :=
  ⟨hb, h.id, h.serial, ⟨h.numbered.ids, h.numbered.count⟩, h.running⟩

/-! The events. -/

/-- The batch in progress will find the records that it removes. -/
def Finds (m : RibManager C) : Prop :=
  ∀ c ∈ m.commands, (RibState.onFibUpdateSuccess m.rib c.item.update
    m.fibUpdater.inheritedRoutes).isSome

/-- What an event leaves before the next batch is taken. -/
def Received (m m₁ : RibManager C) : Prop :=
  (∃ n, Ready m₁ n) ∨ (∃ n item, InProgress m₁ n item) ∧ (Finds m → Finds m₁)

lemma InOrder.received_self (h : InOrder m) : Received m m :=
  h.imp (fun ⟨n, h, _⟩ => ⟨n, h⟩) fun h => ⟨h, id⟩

section

omit [LinearOrder C]

lemma Numbered.add (h : Numbered m n) : Numbered (m.addUpdateToQueue u event b) n := by
  have hcount := h.count
  refine ⟨?_, ?_⟩
  · simp [addUpdateToQueue, h.ids, range'_concat, hcount]
  · simp [addUpdateToQueue, hcount]
    omega

lemma Ready.add (h : Ready m n) : Ready (m.addUpdateToQueue u event b) n :=
  ⟨h.idle, h.commands, h.serial, h.numbered.add, h.running⟩

lemma InProgress.add (h : InProgress m n item) : InProgress (m.addUpdateToQueue u event b) n item :=
  ⟨⟨h.busy.busy, h.busy.own, h.busy.awaited, h.busy.list⟩, h.id, h.serial, h.numbered.add,
    h.running⟩

lemma Ready.schedule (h : Ready m n) : Ready { m with scheduled, now } n :=
  ⟨h.idle, h.commands, h.serial, ⟨h.numbered.ids, h.numbered.count⟩, h.running⟩

lemma InProgress.schedule (h : InProgress m n item) : InProgress { m with scheduled, now } n item :=
  ⟨⟨h.busy.busy, h.busy.own, h.busy.awaited, h.busy.list⟩, h.id, h.serial,
    ⟨h.numbered.ids, h.numbered.count⟩, h.running⟩

end

lemma Received.add (h : Received m m₁) : Received m (m₁.addUpdateToQueue u event b) :=
  h.imp (fun ⟨n, h⟩ => ⟨n, h.add⟩) fun ⟨⟨n, item, h⟩, hf⟩ => ⟨⟨n, item, h.add⟩, hf⟩

lemma Received.schedule (h : Received m m₁) : Received m { m₁ with scheduled, now } :=
  h.imp (fun ⟨n, h⟩ => ⟨n, h.schedule⟩) fun ⟨⟨n, item, h⟩, hf⟩ => ⟨⟨n, item, h.schedule⟩, hf⟩

lemma Received.foldl_add (h : Received m m₁) (us : List (RibUpdate C)) :
    Received m (us.foldl (fun m u => m.addUpdateToQueue u none false) m₁) := by
  induction us generalizing m₁ with
  | nil => exact h
  | cons u us ih => exact ih h.add

/-- The condition: a command that times out has not done so ten times before, and a command on
the batch's face that fails is the only one in flight. -/
def RepliesInTurn (m : RibManager C) : Event C → Prop
  | .reply i .timeout => ∀ c, m.commands[i]? = some c → c.nTimeouts < maxNumTimeouts
  | .reply i .faceNotFound => ∀ c, m.commands[i]? = some c →
      c.update.faceId = m.fibUpdater.batchFaceId → m.commands.length = 1
  | _ => True

lemma InOrder.replied (h : InOrder m)
    (hc : m.commands[i]? = some c) (hk : m.RepliesInTurn (.reply i r))
    (hm : onReply resume c { m with commands := m.commands.eraseIdx i } r = some m') :
    ∃ n item, InProgress m n item ∧ Replied resume m item c m' r := by
  rcases h with ⟨n, h, -⟩ | ⟨n, item, h⟩
  · rw [h.commands] at hc
    cases hc
  refine ⟨n, item, h, h.busy.replied hc (fun hr => ?_) (fun hr => ?_) hm⟩
  · subst hr
    exact hk c hc
  · subst hr
    exact hk c hc

/-- A reply ends the batch, unless the records are not found, and the manager resumes, or it leaves
the batch in progress. -/
lemma onReply_resume (resume : RibManager C → Option (RibManager C)) (c : FibCommand C)
    (m : RibManager C) (r : Reply) :
    ((RibState.onFibUpdateSuccess m.rib c.item.update m.fibUpdater.inheritedRoutes).isSome →
      (onReply some c m r).isSome) ∧
    (onReply resume c m r = (onReply some c m r).bind resume ∨
      onReply resume c m r = onReply some c m r ∧ ∀ m₁, onReply some c m r = some m₁ →
        m₁.isUpdateInProgress = m.isUpdateInProgress) := by
  have hresume : ∀ m : RibManager C, onFibUpdateSuccess resume c.item m =
      (onFibUpdateSuccess some c.item m).bind resume := by
    intro m
    rw [onFibUpdateSuccess, onFibUpdateSuccess, Option.bind_assoc]
    rfl
  have hends : (RibState.onFibUpdateSuccess m.rib c.item.update
      m.fibUpdater.inheritedRoutes).isSome → ∀ F, F.inheritedRoutes = m.fibUpdater.inheritedRoutes →
      (onFibUpdateSuccess some c.item { m with fibUpdater := F }).isSome := by
    intro h F hF
    obtain ⟨rib, hrib⟩ := isSome_iff_exists.mp h
    rw [onFibUpdateSuccess]
    dsimp only
    rw [hF, hrib]
    rfl
  have hwaits : ∀ {m₁ m₂ : RibManager C}, m₁.isUpdateInProgress = m.isUpdateInProgress →
      some m₁ = some m₂ → m₂.isUpdateInProgress = m.isUpdateInProgress := by
    rintro m₁ m₂ h ⟨⟩
    exact h
  cases r with
  | success =>
    simp only [onReply, onUpdateSuccess, sendUpdatesForNonBatchFaceId]
    split
    · split
      · split
        · exact ⟨fun _ => rfl, .inr ⟨rfl, fun _ => hwaits rfl⟩⟩
        · exact ⟨fun h => hends h _ rfl, .inl (hresume _)⟩
      · exact ⟨fun _ => rfl, .inr ⟨rfl, fun _ => hwaits rfl⟩⟩
    · split
      · exact ⟨fun h => hends h _ rfl, .inl (hresume _)⟩
      · exact ⟨fun _ => rfl, .inr ⟨rfl, fun _ => hwaits rfl⟩⟩
  | timeout =>
    refine ⟨fun _ => rfl, .inr ⟨rfl, fun _ => hwaits ?_⟩⟩
    rw [onUpdateTimeout]
    split <;> rfl
  | faceNotFound =>
    simp only [onReply, onFaceNotFound, onFibUpdateFailure]
    split
    · exact ⟨fun _ => rfl, .inl rfl⟩
    split
    · exact ⟨fun h => hends h _ rfl, .inl (hresume _)⟩
    · exact ⟨fun _ => rfl, .inr ⟨rfl, fun _ => hwaits rfl⟩⟩

/-- An event does its own work and then takes the next batch from the queue; while a batch is in
progress, and where the event ends none, there is nothing to take. -/
lemma InOrder.onEvent_eq (h : InOrder m) (ev : Event C) :
    m.onEvent (RibManager.sendBatchFromQueue nth) ev =
      (m.onEvent some ev).bind (RibManager.sendBatchFromQueue nth) := by
  cases ev with
  | registerEntry name route period => cases period <;> rfl
  | unregisterEntry name faceId origin | removeFace faceId => rfl
  | reply i r =>
    rw [onEvent, onEvent]
    cases hc : m.commands[i]? with
    | none => rfl
    | some c =>
      rcases (onReply_resume (RibManager.sendBatchFromQueue nth) c
        { m with commands := m.commands.eraseIdx i } r).2 with heq | ⟨heq, hsame⟩
      · exact heq
      have hbusy : m.isUpdateInProgress = true := by
        rcases h with ⟨n, h, -⟩ | ⟨n, item, h⟩
        · rw [h.commands] at hc
          cases hc
        · exact h.busy.busy
      rw [bind_some, heq, bind_some]
      cases hm : onReply some c { m with commands := m.commands.eraseIdx i } r with
      | none => rfl
      | some m₁ => exact (sendBatchFromQueue_busy ((hsame m₁ hm).trans hbusy)).symm
  | expiration i =>
    rw [onEvent, onEvent]
    cases m.scheduled[i]? with
    | none => rfl
    | some e =>
      simp only [bind_some]
      split <;> rfl
  | wait time =>
    rw [onEvent, onEvent]
    split
    · rcases h with ⟨n, h, hq⟩ | ⟨n, item, h⟩
      · rw [bind_some, RibManager.sendBatchFromQueue, RibManager.sendBatches]
        simp only [hq]
      · exact (sendBatchFromQueue_busy (m := { m with now := m.now + time }) h.busy.busy).symm
    · rfl

lemma InOrder.received (h : InOrder m) (hk : m.RepliesInTurn ev)
    (hm : m.onEvent some ev = some m₁) : Received m m₁ := by
  cases ev with
  | registerEntry name route period =>
    cases period with
    | none =>
      cases hm
      exact h.received_self.add
    | some p =>
      cases hm
      exact h.received_self.schedule.add
  | unregisterEntry name faceId origin =>
    cases hm
    exact h.received_self.add
  | removeFace faceId =>
    cases hm
    exact h.received_self.foldl_add _
  | reply i r =>
    obtain ⟨c, hc, hreply⟩ := bind_eq_some_iff.mp hm
    obtain ⟨n, item, hin, hr⟩ := h.replied hc hk hreply
    clear hm hreply
    cases hr with
    | waits commands F hF hm hb =>
      subst hm
      refine .inr ⟨⟨n, item, hin.waits hb⟩, fun hf c' hc' => ?_⟩
      rw [hb.own c' hc', ← hin.busy.own c (mem_of_getElem? hc)]
      dsimp only
      rw [hF]
      exact hf c (mem_of_getElem? hc)
    | succeeds F rib _ hm =>
      cases hm
      exact .inl ⟨n + 1, hin.succeeded⟩
    | fails _ hm =>
      cases hm
      exact .inl ⟨n + 1, hin.failed⟩
  | expiration i =>
    obtain ⟨e, -, hm⟩ := bind_eq_some_iff.mp hm
    split at hm
    · cases hm
      exact h.received_self.schedule.add
    · cases hm
  | wait time =>
    rw [onEvent] at hm
    split at hm
    · cases hm
      exact h.received_self.schedule
    · cases hm

omit [LinearOrder C] in
lemma inOrder_init : InOrder ({} : RibManager C) :=
  .inl ⟨0, ⟨rfl, rfl, .nil, ⟨rfl, rfl⟩, rfl⟩, rfl⟩

/-! Steps are defined. -/

/-- No null pointer is followed for the update, and every record that it removes is found. -/
structure Computable (nth : NthElement) (R : Rib C) (u : RibUpdate C) : Prop where
  notOvertaken : u.action = .register → ∀ e existing, R.find u.name = some e →
    e.findRoute u.route = some existing → ¬ Overtaken e u.route existing
  records : ∀ F, computeUpdates R nth u = some F →
    (RibState.onFibUpdateSuccess R u F.inheritedRoutes).isSome

lemma Computable.computed {R : Rib C} (h : Computable nth R u) :
    ∃ F, computeUpdates R nth u = some F := by
  rw [computeUpdates, computeUpdate]
  cases ha : u.action with
  | unregister | removeFace => exact ⟨_, rfl⟩
  | register =>
    obtain ⟨calls, hcalls⟩ := ne_none_iff_exists'.mp
      ((registrationUpdates_iff R u.name u.route).mpr (h.notOvertaken ha))
    exact ⟨_, by rw [hcalls, map_some]⟩

/-- The batches that are taken from the queue one after the other, up to the first that has FIB
updates to send, are computable in the RIB that they find. -/
def Sendable (nth : NthElement) : Rib C → List (UpdateQueueItem C) → Prop
  | _, [] => True
  | R, item :: items => Computable nth R item.update ∧ ∀ F R',
      computeUpdates R nth item.update = some F → F.updatesForBatchFaceId = [] →
      F.updatesForNonBatchFaceId = [] →
      RibState.onFibUpdateSuccess R item.update F.inheritedRoutes = some R' → Sendable nth R' items

lemma sendBatches_isSome {fuel : ℕ}
    (h : m.isUpdateInProgress = false → Sendable nth m.rib m.updateBatches) :
    (RibManager.sendBatches nth fuel m).isSome := by
  induction fuel generalizing m with
  | zero => rfl
  | succ fuel ih =>
    rw [RibManager.sendBatches]
    cases hq : m.updateBatches with
    | nil => rfl
    | cons item items =>
      cases hidle : m.isUpdateInProgress with
      | true => rfl
      | false =>
        have hsend := h hidle
        rw [hq] at hsend
        obtain ⟨F, hF⟩ := hsend.1.computed
        obtain ⟨R', hR'⟩ := isSome_iff_exists.mp (hsend.1.records F hF)
        change ((computeUpdates m.rib nth item.update).bind _).isSome
        rw [hF, bind_some, computed_eq, sendUpdatesForBatchFaceId]
        split
        · rfl
        rename_i hbatch
        rw [sendUpdatesForNonBatchFaceId]
        split
        · rfl
        rename_i hnon
        rw [onFibUpdateSuccess]
        change ((RibState.onFibUpdateSuccess m.rib item.update F.inheritedRoutes).bind _).isSome
        rw [hR', bind_some]
        refine ih fun _ => ?_
        rw [succeeded_eq]
        exact hsend.2 F R' hF (by simpa using hbatch) (by simpa using hnon) hR'

lemma steady_rule : QueueRule nth
    (fun m : RibManager C => (∃ n, Ready m n) ∧ Sendable nth m.rib m.updateBatches)
    (fun m => InOrder m ∧ Finds m) where
  idle := fun ⟨⟨_, h⟩, _⟩ => h.idle
  done := by
    rintro m ⟨⟨n, h⟩, -⟩ hq
    refine ⟨.inl ⟨n, h, hq⟩, fun c hc => ?_⟩
    rw [h.commands] at hc
    cases hc
  send := by
    rintro m item items F updates ⟨⟨n, h⟩, hsend⟩ hq hF hs
    refine ⟨.inr ⟨n, item, h.send hq hs⟩, fun c hc => ?_⟩
    have hitem := (h.send hq hs).busy.own c hc
    rw [hq] at hsend
    rw [computed_eq, hitem]
    exact hsend.1.records F hF
  skip := by
    rintro m item items F rib ⟨⟨n, h⟩, hsend⟩ hq hF hbatch hnon hrib
    refine ⟨⟨n + 1, h.skip hq⟩, ?_⟩
    rw [hq] at hsend
    rw [succeeded_eq, computed_eq]
    exact hsend.2 F rib hF hbatch hnon hrib

/-- The condition: replies come in turn, and the batches that an event makes the manager take from
the queue are computable. -/
def Steady (nth : NthElement) (m : RibManager C) (ev : Event C) : Prop :=
  m.RepliesInTurn ev ∧ ∀ m₁, m.onEvent some ev = some m₁ → m₁.isUpdateInProgress = false →
    Sendable nth m₁.rib m₁.updateBatches

def Enabled (m : RibManager C) : Event C → Prop
  | .reply i _ => i < m.commands.length
  | .expiration i => ∃ e, m.scheduled[i]? = some e ∧ e.due ≤ m.now
  | .wait time => m.now + time < timePointMax
  | _ => True

lemma Finds.onEvent_isSome (h : Finds m) (henabled : m.Enabled ev) :
    (m.onEvent some ev).isSome := by
  cases ev with
  | registerEntry name route period => cases period <;> rfl
  | unregisterEntry name faceId origin | removeFace faceId => rfl
  | reply i r =>
    have hc := List.getElem?_eq_getElem henabled
    rw [onEvent, hc, bind_some]
    exact (onReply_resume some _ _ r).1 (h _ (mem_of_getElem? hc))
  | expiration i =>
    obtain ⟨e, he, hdue⟩ := henabled
    rw [onEvent, he, bind_some, if_pos hdue]
    rfl
  | wait time =>
    have hnow : m.now + time < timePointMax := henabled
    rw [onEvent, if_pos hnow]
    rfl

lemma InOrder.step (h : InOrder m) (hf : Finds m) (hk : m.Steady nth ev)
    (hm : m.step nth ev = some m') : InOrder m' ∧ Finds m' := by
  rw [RibManager.step] at hm
  split at hm
  · cases hm
  rw [h.onEvent_eq] at hm
  obtain ⟨m₁, hm₁, hm⟩ := bind_eq_some_iff.mp hm
  rcases h.received hk.1 hm₁ with ⟨n, hready⟩ | ⟨⟨n, item, hin⟩, hfinds⟩
  · exact steady_rule.sendBatchFromQueue ⟨⟨n, hready⟩, hk.2 m₁ hm₁ hready.idle⟩ hm
  rw [sendBatchFromQueue_busy hin.busy.busy] at hm
  cases hm
  exact ⟨.inr ⟨n, item, hin⟩, hfinds hf⟩

lemma InOrder.step_isSome (h : InOrder m) (hf : Finds m) (hk : m.Steady nth ev)
    (henabled : m.Enabled ev) : (m.step nth ev).isSome := by
  have hrunning : m.isStopped = false := by
    rcases h with ⟨n, h, -⟩ | ⟨n, item, h⟩ <;> exact h.running
  obtain ⟨m₁, hm₁⟩ := isSome_iff_exists.mp (hf.onEvent_isSome henabled)
  rw [RibManager.step, hrunning, h.onEvent_eq, hm₁, bind_some]
  exact sendBatches_isSome (hk.2 m₁ hm₁)

/-- The batches numbered below `n` got one callback each, and no other batch got any; each was
sent after the callback of the one before. The batch `n` is in progress and waits for replies,
or nothing is left to do. -/
structure OneCallbackEach (m : RibManager C) (n : ℕ) : Prop where
  running : m.isStopped = false
  once : m.history.filterMap Note.callback? = List.range n
  serial : Serial n m.isUpdateInProgress m.history
  awaited : m.isUpdateInProgress = true → m.commands ≠ [] ∧ n < m.nBatches ∧
    m.updateBatches.map (·.id) = List.range' (n + 1) (m.nBatches - (n + 1))
  done : m.isUpdateInProgress = false → m.commands = [] ∧ m.updateBatches = [] ∧ n = m.nBatches

omit [LinearOrder C] in
lemma InOrder.oneCallbackEach (h : InOrder m) : ∃ n, m.OneCallbackEach n := by
  rcases h with ⟨n, h, hq⟩ | ⟨n, item, h⟩
  · have hcount := h.numbered.count
    rw [hq] at hcount
    refine ⟨n, h.running, h.serial.callbacks, h.idle ▸ h.serial, fun hb => ?_,
      fun _ => ⟨h.commands, hq, hcount.symm⟩⟩
    rw [h.idle] at hb
    cases hb
  have hcount := h.numbered.count
  refine ⟨n, h.running, h.serial.callbacks, h.busy.busy ▸ h.serial,
    fun _ => ⟨h.busy.awaited, by omega, ?_⟩, fun hb => ?_⟩
  · rw [h.numbered.ids, hcount]
    congr 1
    omega
  · rw [h.busy.busy] at hb
    cases hb

/-- In every run that meets the condition, every batch that was sent and is not in progress got one
callback, one batch at a time is in progress, and every event that can come and meets the condition
has a step. -/
theorem one_callback_of_run (h : Reach (step nth) (Steady nth) {} m) : (∃ n, m.OneCallbackEach n) ∧
      ∀ ev, m.Enabled ev → m.Steady nth ev → (m.step nth ev).isSome := by
  have hinv : InOrder m ∧ Finds m := by
    refine h.invariant (I := fun m => InOrder m ∧ Finds m)
      ⟨inOrder_init, fun c hc => absurd hc not_mem_nil⟩ ?_
    rintro m ev m' ⟨hm, hf⟩ hk hs
    exact hm.step hf hk hs
  exact ⟨hinv.1.oneCallbackEach, fun ev henabled hk => hinv.1.step_isSome hinv.2 hk henabled⟩

/-- A registration for an entry with one below it: the two commands on the face of the route are
both answered that there is no such face. The batch fails twice. -/
theorem callback_repeated : ∃ m : RibManager ℕ,
    Reach (step .sorting) Any {} m ∧
      m.history.filterMap Note.callback? = [0, 1, 1] ∧ ∀ n, ¬ m.OneCallbackEach n := by
  have hrun : (run (step .sorting) ({} : RibManager ℕ)
      [.registerEntry [1] ⟨2, 0, 0, 7, 0⟩ none, .reply 0 .success,
        .registerEntry [] ⟨1, 0, 1, 10, 0⟩ none, .reply 0 .faceNotFound,
        .reply 0 .faceNotFound]).map
      (fun m => decide (m.history.filterMap Note.callback? = [0, 1, 1])) = some true := by
    decide +kernel
  obtain ⟨m, hm, hview⟩ := map_eq_some_iff.mp hrun
  have hview : m.history.filterMap Note.callback? = [0, 1, 1] := by simpa using hview
  refine ⟨m, reach_of_run .init hm, hview, fun n h => ?_⟩
  have hnodup : ([0, 1, 1] : List ℕ).Nodup := by
    rw [← hview, h.once]
    exact nodup_range
  exact absurd hnodup (by decide)

lemma sendable_new {R : Rib C} (hnew : R.find item.update.name = none)
    (hrecords : ((computeUpdates R nth item.update).bind fun F =>
      RibState.onFibUpdateSuccess R item.update F.inheritedRoutes).isSome) :
    Sendable nth R [item] := by
  refine ⟨⟨fun _ e _ he => ?_, fun F hF => ?_⟩, fun _ _ _ _ _ _ => trivial⟩
  · rw [hnew] at he
    cases he
  · rwa [hF, bind_some] at hrecords

/-- Two routes are registered one behind the other; the FIB accepts the first, and the face of the
second is not found. -/
theorem one_callback_of_run_two : ∃ m : RibManager ℕ,
    m.history.filterMap Note.callback? = [0, 1] ∧ ∃ n, m.OneCallbackEach n := by
  have h : ∃ m : RibManager ℕ, Reach (step .sorting) (Steady .sorting) {} m ∧
      m.history.filterMap Note.callback? = [0, 1] := by
    refine ⟨_, .step (a := .reply 0 .faceNotFound) (.step (a := .reply 0 .success)
      (.step (a := .registerEntry [2] ⟨3, 0, 0, 8, 0⟩ none)
        (.step (a := .registerEntry [1] ⟨2, 0, 0, 7, 0⟩ none) .init ⟨trivial, ?_⟩ rfl)
        ⟨trivial, ?_⟩ rfl) ⟨trivial, ?_⟩ rfl) ⟨fun _ _ _ => rfl, ?_⟩ rfl, by decide +kernel⟩
    · rintro m₁ ⟨⟩ -
      exact sendable_new rfl rfl
    · rintro m₁ ⟨⟩ ⟨⟩
    · rintro m₁ ⟨⟩ -
      exact sendable_new (by decide +kernel) (by decide +kernel)
    · rintro m₁ ⟨⟩ -
      trivial
  obtain ⟨m, hm, hview⟩ := h
  exact ⟨m, hview, (one_callback_of_run hm).1⟩

end RibManager

end NfdGateway
