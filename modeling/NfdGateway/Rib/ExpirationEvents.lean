import NfdGateway.Rib.Expiration

/-! The expiration events of the routes along the runs of the RIB manager. -/
namespace NfdGateway

open FibUpdater Rib RibState List Option Transition

variable {C : Type} [LinearOrder C] {nth : NthElement} {m m' : RibManager C}
  {item : UpdateQueueItem C} {items W : List (UpdateQueueItem C)} {F : FibUpdater C}
  {u : RibUpdate C} {rib : Rib C} {E : RouteId C → Option ℕ} {S : List (Expiration C)} {now : ℕ}
  {e : Expiration C}

namespace RibManager

/-! The events that an update cancels. -/

lemma existing_eq : m.existing u = m.rib.routeAt u.routeId := by
  rw [existing, routeAt, Rib.find, content, u.routeId_eq]
  split
  · exact find?_routeKey.symm
  · rfl

omit [LinearOrder C] in
lemma cancel_scheduled {o : Option ℕ} : (m.cancel o).scheduled = without m.scheduled o := by
  cases o <;> rfl

lemma cancelExisting_scheduled
    (habsent : ∀ k, m.rib.routeAt k = none → m.expirationEvents k = none) :
    (m.cancelExisting u).scheduled = without m.scheduled (m.expirationEvents u.routeId) := by
  rw [cancelExisting]
  split
  next hnone =>
    rw [existing_eq] at hnone
    rw [habsent _ hnone]
    rfl
  · exact cancel_scheduled

lemma computed_scheduled : (m.computed item F).scheduled =
    if item.update.action = .register then m.scheduled
    else (m.cancelExisting item.update).scheduled := by
  rw [computed]
  cases item.update.action <;> rfl

lemma succeeded_scheduled :
    (m.succeeded item rib).scheduled = (m.cancelExisting item.update).scheduled := by
  rw [succeeded, updateEvents]
  cases item.update.action <;> rfl

lemma succeeded_expirationEvents : (m.succeeded item rib).expirationEvents =
    Function.update m.expirationEvents item.update.routeId
      (if item.update.action = .register then item.expirationEvent else none) := by
  rw [succeeded, updateEvents, cancelExisting_eq]
  cases item.update.action <;> rfl

/-- The routes, their events and the batches that are in progress or wait; no route was removed
by its event before it expired. -/
structure OnTime (m : RibManager C) (W : List (UpdateQueueItem C)) : Prop where
  timed : Timed m.rib m.expirationEvents m.scheduled m.now m.nBatches W
  late : ∀ r t, Note.expired r t ∈ m.history → r.expires ≤ t

lemma OnTime.taken (h : OnTime m W) : OnTime (m.taken item items) W := by
  refine ⟨h.timed, fun r t hmem => h.late r t ?_⟩
  simpa [RibManager.taken] using hmem

lemma OnTime.computed (h : OnTime m (item :: items)) :
    OnTime (m.computed item F) (item :: items) := by
  have hsched : (m.computed item F).scheduled = _ := computed_scheduled
  rw [computed_eq]
  refine ⟨?_, h.late⟩
  change Timed m.rib m.expirationEvents (m.computed item F).scheduled m.now m.nBatches _
  rw [hsched]
  split
  · exact h.timed
  rename_i ha
  rw [cancelExisting_scheduled h.timed.absent]
  exact h.timed.computed ha

lemma OnTime.expiredNotes (h : OnTime m (item :: items)) {r : Route} {t : ℕ}
    (hmem : Note.expired r t ∈ m.expiredNotes item) : r.expires ≤ t := by
  rw [RibManager.expiredNotes] at hmem
  split at hmem
  · cases hmem
  next hex hisExp _ =>
    obtain ⟨rfl, rfl⟩ : r = _ ∧ t = m.now := by simpa using hmem
    obtain ⟨-, -, ⟨_, hnil, -⟩ | hlast⟩ := h.timed.expiring [] item items rfl hisExp
    · cases hnil
    · rw [existing_eq] at hex
      exact hlast _ hex
  · cases hmem

lemma OnTime.succeeded {us : List (RibUpdate C)} (h : OnTime m (item :: items))
    (hrib : RibState.onFibUpdateSuccess m.rib item.update us = some rib) :
    OnTime (m.succeeded item rib) items := by
  obtain ⟨htree, hunique, hat⟩ := onFibUpdateSuccess_spec h.timed.tree h.timed.unique hrib
  have hsched : (m.succeeded item rib).scheduled = _ := succeeded_scheduled
  have hevents : (m.succeeded item rib).expirationEvents = _ := succeeded_expirationEvents
  rw [cancelExisting_scheduled h.timed.absent] at hsched
  rw [succeeded_eq]
  constructor
  · change Timed rib (m.succeeded item rib).expirationEvents (m.succeeded item rib).scheduled
      m.now m.nBatches items
    rw [hsched, hevents]
    by_cases ha : item.update.action = .register
    · simp only [ha, if_true] at hat ⊢
      exact h.timed.succeeded htree hunique (.inl ⟨ha, rfl, rfl⟩) hat
    · simp only [ha, if_false] at hat ⊢
      exact h.timed.succeeded htree hunique (.inr ⟨ha, rfl, rfl⟩) hat
  · intro r t hmem
    have hmem : Note.expired r t ∈ m.history ∨ Note.expired r t ∈ m.expiredNotes item := by
      simpa using hmem
    exact hmem.elim (h.late r t) h.expiredNotes

lemma OnTime.failed (h : OnTime m (item :: items)) (hno : item.NeedsNoEvent m.rib) :
    OnTime (m.failed item) items := by
  refine ⟨h.timed.failed hno, fun r t hmem => h.late r t ?_⟩
  simpa [RibManager.failed] using hmem

/-! The queue. -/

inductive Waiting (m : RibManager C) : List (UpdateQueueItem C) → Prop
  | ready {n : ℕ} (h : Ready m n) : Waiting m m.updateBatches
  | busy {n : ℕ} {item : UpdateQueueItem C} (h : InProgress m n item) :
    Waiting m (item :: m.updateBatches)

def Settled (m : RibManager C) : Prop :=
  (∃ n, Ready m n ∧ m.updateBatches = [] ∧ OnTime m []) ∨
    ∃ n item, InProgress m n item ∧ OnTime m (item :: m.updateBatches)

lemma settled_rule : QueueRule nth
    (fun m : RibManager C => ∃ n, Ready m n ∧ OnTime m m.updateBatches) Settled where
  idle := fun ⟨_, h, _⟩ => h.idle
  done := fun ⟨n, h, ht⟩ hq => .inl ⟨n, h, hq, hq ▸ ht⟩
  send := by
    rintro m item items F updates ⟨n, h, ht⟩ hq - hs
    rw [hq] at ht
    have hqueue : (((m.taken item items).computed item F).sendUpdates updates item).updateBatches =
        items := by
      rw [computed_eq]
      rfl
    have hcomputed : OnTime ((m.taken item items).computed item F) (item :: items) :=
      ht.taken.computed
    refine .inr ⟨n, item, h.send hq hs, ?_⟩
    rw [hqueue]
    exact ⟨hcomputed.timed, hcomputed.late⟩
  skip := by
    rintro m item items F rib ⟨n, h, ht⟩ hq - - - hrib
    rw [hq] at ht
    have hqueue : (((m.taken item items).computed item F).succeeded item rib).updateBatches =
        items := by
      rw [succeeded_eq, computed_eq]
      rfl
    have hbefore : ((m.taken item items).computed item F).rib = m.rib := by
      rw [computed_eq]
      rfl
    refine ⟨n + 1, h.skip hq, ?_⟩
    rw [hqueue]
    rw [← hbefore] at hrib
    exact ht.taken.computed.succeeded hrib

lemma Waiting.sendBatchFromQueue (hw : Waiting m W) (ht : OnTime m W)
    (h : m.sendBatchFromQueue nth = some m') : Settled m' := by
  cases hw with
  | ready hr => exact settled_rule.sendBatchFromQueue ⟨_, hr, ht⟩ h
  | busy hb =>
    rw [sendBatchFromQueue_busy hb.busy.busy] at h
    cases h
    exact .inr ⟨_, _, hb, ht⟩

lemma Settled.waiting (h : Settled m) : ∃ W, Waiting m W ∧ OnTime m W := by
  rcases h with ⟨n, h, hq, ht⟩ | ⟨n, item, h, ht⟩
  · exact ⟨_, .ready h, hq ▸ ht⟩
  · exact ⟨_, .busy h, ht⟩

lemma Settled.inOrder (h : Settled m) : InOrder m :=
  h.imp (fun ⟨n, h, hq, _⟩ => ⟨n, h, hq⟩) fun ⟨n, item, h, _⟩ => ⟨n, item, h⟩

omit [LinearOrder C] in
lemma Waiting.add {event : Option ℕ} {b : Bool} (hw : Waiting m W) :
    Waiting (m.addUpdateToQueue u event b) (W ++ [⟨m.nBatches, u, event, b⟩]) := by
  cases hw with
  | ready h => exact .ready h.add
  | busy h => exact .busy h.add

omit [LinearOrder C] in
lemma Waiting.schedule {scheduled : List (Expiration C)} (hw : Waiting m W) :
    Waiting { m with scheduled, now } W := by
  cases hw with
  | ready h => exact .ready h.schedule
  | busy h => exact .busy h.schedule

/-! The events. -/

lemma OnTime.add (h : OnTime m W) (ha : u.action = .register → u.route.expires = timePointMax) :
    OnTime (m.addUpdateToQueue u none false) (W ++ [⟨m.nBatches, u, none, false⟩]) where
  timed := h.timed.add rfl (fun _ => .inl) h.timed.once (fun _ => .inl)
    (fun hreg => .inl ⟨ha hreg, rfl⟩) nofun
  late := h.late

lemma Timed.event_lt {R : Rib C} {N : ℕ} (h : Timed R E S now N W) : ∀ e ∈ S, e.id < N := by
  intro e he
  rcases h.scheduled e he with ⟨hE, -⟩ | ⟨w, hw, -, hid, -⟩
  · exact (h.apart _ _ hE).1
  · rw [← hid]
    exact h.fresh w hw

lemma OnTime.register {name : Name C} {route : Route} (h : OnTime m W)
    (hclock : route.expires < timePointMax) :
    OnTime (addUpdateToQueue
      { m with scheduled := m.scheduled ++ [⟨m.nBatches, route.expires, name, route⟩] }
      ⟨.register, name, route⟩ (some m.nBatches) false)
      (W ++ [⟨m.nBatches, ⟨.register, name, route⟩, some m.nBatches, false⟩]) where
  timed := by
    refine h.timed.add rfl (fun e he => .inl (mem_append_left _ he)) ?_ (fun e he => ?_)
      (fun _ => .inr ⟨hclock, rfl, _, mem_append_right _ (mem_singleton_self _), rfl, rfl,
        rfl⟩) nofun
    · change (List.map Expiration.id (m.scheduled ++ [_])).Nodup
      rw [map_append, map_singleton, ← concat_eq_append, nodup_concat]
      refine ⟨fun hmem => ?_, h.timed.once⟩
      obtain ⟨e, he, hid⟩ := List.mem_map.mp hmem
      exact Nat.ne_of_lt (h.timed.event_lt e he) hid
    · rcases mem_append.mp he with he | he
      · exact .inl he
      · obtain rfl := mem_singleton.mp he
        exact .inr ⟨⟨rfl, rfl⟩, rfl, rfl, rfl⟩
  late := h.late

def Alone (W : List (UpdateQueueItem C)) (e : Expiration C) : Prop :=
  ∀ item ∈ W, item.Registers e.routeId → item.expirationEvent = some e.id

lemma Timed.expires_of_alone {R : Rib C}
    {N : ℕ} (h : Timed R E S now N W) (he : e ∈ S) (hnow : e.due ≤ now)
    (halone : Alone W e) :
    (∀ item ∈ W, item.Registers e.routeId → item.update.route.expires ≤ now) ∧
      ((∃ item ∈ W, item.Registers e.routeId) ∨
        ∀ r, R.routeAt e.routeId = some r → r.expires ≤ now) := by
  have hid : ∀ item ∈ W, item.Registers e.routeId → item.id = e.id := by
    intro item hitem hreg
    obtain ⟨A, B, rfl⟩ := append_of_mem hitem
    have hev := halone item hitem hreg
    rcases h.registered A item B rfl hreg.1 with ⟨-, hnone⟩ | ⟨-, hown, -⟩
    · rw [hnone] at hev
      cases hev
    · rw [hown] at hev
      exact some.inj hev
  rcases h.scheduled e he with ⟨hE, r, hr, hdue⟩ | ⟨w, hw, hreg, hwid, -, hdue⟩
  · refine ⟨fun item hitem hreg => ?_, .inr fun r' hr' => ?_⟩
    · exact absurd (hid item hitem hreg) ((h.apart _ _ hE).2 item hitem)
    rw [hr] at hr'
    cases hr'
    omega
  · refine ⟨fun item hitem hreg' => ?_, .inl ⟨w, hw, hreg⟩⟩
    have heq : item = w :=
      inj_on_of_nodup_map h.nodup hitem hw ((hid item hitem hreg').trans hwid.symm)
    rw [heq]
    omega

lemma OnTime.expire {i : ℕ} (h : OnTime m W) (he : m.scheduled[i]? = some e)
    (hnow : e.due ≤ m.now) (halone : Alone W e) :
    OnTime (addUpdateToQueue { m with scheduled := m.scheduled.eraseIdx i }
      ⟨.unregister, e.name, e.route⟩ none true)
      (W ++ [⟨m.nBatches, ⟨.unregister, e.name, e.route⟩, none, true⟩]) where
  timed := by
    have hmem := mem_of_getElem? he
    refine h.timed.add rfl (fun e' he' => ?_) ?_ (fun e' he' => ?_) nofun fun _ =>
      ⟨nofun, h.timed.expires_of_alone hmem hnow halone⟩
    · by_cases hee : e' = e
      · exact .inr ⟨nofun, by rw [hee]; rfl⟩
      refine .inl ((mem_eraseIdx_iff_getElem? ..).mpr ?_)
      obtain ⟨j, hj⟩ := getElem?_of_mem he'
      refine ⟨j, fun hji => hee ?_, hj⟩
      rw [hji, he] at hj
      exact (some.inj hj).symm
    · exact ((eraseIdx_sublist _ _).map _).nodup h.timed.once
    · exact .inl (mem_of_mem_eraseIdx he')
  late := h.late

lemma OnTime.wait {time : ℕ} (h : OnTime m W) (hclock : m.now + time < timePointMax) :
    OnTime { m with now := m.now + time } W where
  timed := h.timed.wait hclock
  late := h.late

def Outstanding (m : RibManager C) (item : UpdateQueueItem C) : Prop :=
  item ∈ m.updateBatches ∨ ∃ c ∈ m.commands, c.item = item

omit [LinearOrder C] in
lemma Waiting.outstanding (hw : Waiting m W) : ∀ item ∈ W, m.Outstanding item := by
  intro w hmem
  cases hw with
  | ready h => exact .inl hmem
  | busy h =>
    rcases mem_cons.mp hmem with rfl | hmem
    · obtain ⟨c, hc⟩ := exists_mem_of_ne_nil _ h.busy.awaited
      exact .inr ⟨c, hc, h.busy.own c hc⟩
    · exact .inl hmem

/-- The condition: replies come in turn; a command on the batch's face that fails is that of a
batch that needs no event; a period ends before the end of time; and an event does not fire while
another registration of its route is outstanding. -/
def KeepsTime (m : RibManager C) (ev : Event C) : Prop :=
  m.RepliesInTurn ev ∧
    match ev with
    | .registerEntry _ _ (some period) => m.now + period < timePointMax
    | .reply i .faceNotFound => ∀ c, m.commands[i]? = some c →
        c.update.faceId = m.fibUpdater.batchFaceId → c.item.NeedsNoEvent m.rib
    | .expiration i => ∀ e, m.scheduled[i]? = some e → ∀ item, m.Outstanding item →
        item.Registers e.routeId → item.expirationEvent = some e.id
    | _ => True

lemma Settled.beginRemoveFace {f : FaceId} (h : Settled m)
    (hm : m.beginRemoveFace (sendBatchFromQueue nth) f = some m') : Settled m' := by
  have hadded : ∀ us : List (RibUpdate C), (∀ u ∈ us, u.action ≠ .register) →
      ∀ m : RibManager C, (∃ W, Waiting m W ∧ OnTime m W) →
      ∃ W, Waiting (us.foldl (fun m u => m.addUpdateToQueue u none false) m) W ∧
        OnTime (us.foldl (fun m u => m.addUpdateToQueue u none false) m) W := by
    intro us
    induction us with
    | nil => exact fun _ _ h => h
    | cons u us ih =>
      rintro hus m ⟨W, hw, ht⟩
      have hu : u.action ≠ .register := hus u (by simp)
      exact ih (fun v hv => hus v (mem_cons_of_mem _ hv)) _
        ⟨_, hw.add, ht.add fun ha => absurd ha hu⟩
  obtain ⟨W, hw, ht⟩ := hadded (m.rib.beginRemoveFace f) (fun u hu => by
    obtain ⟨x, -, rfl⟩ := List.mem_map.mp hu
    nofun) m h.waiting
  exact hw.sendBatchFromQueue ht hm

lemma Settled.reply {i : ℕ} {r : Reply} {c : FibCommand C} (h : Settled m)
    (hc : m.commands[i]? = some c) (hk : m.KeepsTime (.reply i r))
    (hm : onReply (sendBatchFromQueue nth) c { m with commands := m.commands.eraseIdx i } r =
      some m') : Settled m' := by
  obtain ⟨n, item, hin, hr⟩ := h.inOrder.replied hc hk.1 hm
  have ht : OnTime m (item :: m.updateBatches) := by
    rcases h with ⟨_, h, -⟩ | ⟨_, w, h, ht⟩
    · exact absurd h.idle (by rw [hin.busy.busy]; nofun)
    have hmem := mem_of_getElem? hc
    rw [← hin.busy.own c hmem, h.busy.own c hmem]
    exact ht
  cases hr with
  | waits commands F _ hm hb =>
    subst hm
    exact .inr ⟨n, item, hin.waits hb, ht.timed, ht.late⟩
  | succeeds F rib hrib hsend =>
    have ht' : OnTime { m with commands := [], fibUpdater := F } (item :: m.updateBatches) :=
      ⟨ht.timed, ht.late⟩
    refine settled_rule.sendBatchFromQueue ⟨n + 1, hin.succeeded, ?_⟩ hsend
    have hqueue : ({ m with commands := [], fibUpdater := F }.succeeded item rib).updateBatches =
        m.updateBatches := by
      rw [succeeded_eq]
    rw [hqueue]
    exact ht'.succeeded hrib
  | fails hface hsend =>
    have ht' : OnTime { m with commands := [] } (item :: m.updateBatches) := ⟨ht.timed, ht.late⟩
    have hno := hk.2 c hc hface
    rw [hin.busy.own c (mem_of_getElem? hc)] at hno
    exact settled_rule.sendBatchFromQueue ⟨n + 1, hin.failed, ht'.failed hno⟩ hsend

lemma Settled.step {ev : Event C} (h : Settled m) (hk : m.KeepsTime ev)
    (hm : m.step nth ev = some m') : Settled m' := by
  rw [RibManager.step] at hm
  split at hm
  · cases hm
  obtain ⟨W, hw, ht⟩ := h.waiting
  cases ev with
  | registerEntry name route period =>
    cases period with
    | none => exact hw.add.sendBatchFromQueue (ht.add fun _ => rfl) hm
    | some p => exact hw.schedule.add.sendBatchFromQueue (ht.register hk.2) hm
  | unregisterEntry name faceId origin =>
    have hadded : OnTime (m.addUpdateToQueue ⟨.unregister, name, { faceId, origin }⟩ none false)
      _ := ht.add (by simp)
    exact hw.add.sendBatchFromQueue hadded hm
  | removeFace faceId => exact h.beginRemoveFace hm
  | reply i r =>
    obtain ⟨c, hc, hm⟩ := bind_eq_some_iff.mp hm
    exact h.reply hc hk hm
  | expiration i =>
    obtain ⟨e, he, hm⟩ := bind_eq_some_iff.mp hm
    split at hm
    next hnow =>
      have halone : Alone W e := fun item hitem => hk.2 e he item (hw.outstanding item hitem)
      exact hw.schedule.add.sendBatchFromQueue (ht.expire he hnow halone) hm
    · cases hm
  | wait time =>
    replace hm : (if m.now + time < timePointMax then some { m with now := m.now + time }
      else none) = some m' := hm
    split at hm
    next hclock =>
      cases hm
      rcases h with ⟨n, h, hq, ht⟩ | ⟨n, item, h, ht⟩
      · exact .inl ⟨n, h.schedule, hq, ht.wait hclock⟩
      · exact .inr ⟨n, item, h.schedule, ht.wait hclock⟩
    · cases hm

lemma settled_init : Settled ({} : RibManager C) := by
  refine .inl ⟨0, ⟨rfl, rfl, .nil, ⟨rfl, rfl⟩, rfl⟩, rfl, ?_, nofun⟩
  have hnone : ∀ k, ({} : Rib C).routeAt k = none := fun k => rfl
  exact
    { clock := by
        change 0 < timePointMax
        decide
      tree := treeInv_empty
      unique := fun x hx => nomatch hx
      nodup := nodup_nil
      fresh := nofun
      apart := nofun
      inj := nofun
      once := nodup_nil
      absent := fun _ _ => rfl
      route := fun k r hr => by
        rw [hnone] at hr
        cases hr
      registered := fun A item B h => by simp at h
      scheduled := nofun
      expiring := fun A item B h => by simp at h }

/-- While no batch waits or is in progress, a route that expires has exactly one event, due when
it expires, and there are no other events. A route that an event removed had expired. -/
structure EventsMatch (m : RibManager C) : Prop where
  one : m.updateBatches = [] → m.isUpdateInProgress = false → ∀ x ∈ m.rib.names,
    ∀ r ∈ (m.rib.entries x).routes, r.expires ≠ timePointMax →
      ∃ e, m.scheduled.filter (·.routeId = (x, routeKey r)) = [e] ∧ e.due = r.expires
  noOther : m.updateBatches = [] → m.isUpdateInProgress = false → ∀ e ∈ m.scheduled,
    e.name ∈ m.rib.names ∧ ∃ r ∈ (m.rib.entries e.name).routes, routeKey r = routeKey e.route ∧
      r.expires = e.due ∧ r.expires ≠ timePointMax
  late : ∀ r t, Note.expired r t ∈ m.history → r.expires ≤ t

lemma Settled.eventsMatch (h : Settled m) : m.EventsMatch := by
  rcases h with ⟨n, h, -, ht⟩ | ⟨n, item, h, ht⟩
  · obtain ⟨hone, hother⟩ := ht.timed.quiet
    refine ⟨fun _ _ x hx r hr hfinite => ?_, fun _ _ e he => ?_, ht.late⟩
    · exact hone _ r ((routeAt_eq_some ht.timed.unique).mpr ⟨hx, hr, rfl⟩) hfinite
    obtain ⟨r, hr, hdue, hfinite⟩ := hother e he
    obtain ⟨hname, hmem, hkey⟩ := (routeAt_eq_some ht.timed.unique).mp hr
    exact ⟨hname, r, hmem, hkey, hdue, hfinite⟩
  · have hbusy : m.isUpdateInProgress ≠ false := by simp [h.busy.busy]
    exact ⟨fun _ hidle => absurd hidle hbusy, fun _ hidle => absurd hidle hbusy, ht.late⟩

/-- In every run whose steps meet the condition, the events are those of the routes whenever the
queue is empty and no batch is in progress, and no event removes a route before it expires. -/
theorem events_match_of_run (h : Reach (step nth) KeepsTime {} m) : m.EventsMatch :=
  (h.invariant settled_init fun _ _ _ hm hk hs => hm.step hk hs).eventsMatch

/-- A route that expires at 5 is renewed at 4, until 14. The FIB answers after the event of 5
fired, and the route is removed at 5. -/
theorem renewed_route_removed : ∃ m : RibManager ℕ,
    Reach (step .sorting) Any {} m ∧
      Note.expired ⟨2, 0, 1, 1, 14⟩ 5 ∈ m.history ∧ ¬ m.EventsMatch := by
  have hrun : (run (step .sorting) ({} : RibManager ℕ)
      [.registerEntry [1] ⟨2, 0, 0, 7, 0⟩ (some 5), .reply 0 .success, .wait 4,
        .registerEntry [1] ⟨2, 0, 1, 1, 0⟩ (some 10), .wait 1, .expiration 0, .reply 0 .success,
        .reply 0 .success]).map
      (fun m => m.history.any fun
        | .expired r t => r = ⟨2, 0, 1, 1, 14⟩ ∧ t = 5
        | _ => false) = some true := by
    decide +kernel
  obtain ⟨m, hm, hview⟩ := map_eq_some_iff.mp hrun
  have hnote : Note.expired ⟨2, 0, 1, 1, 14⟩ 5 ∈ m.history := by
    obtain ⟨note, hmem, hnote⟩ := List.any_eq_true.mp hview
    cases note with
    | expired r t =>
      obtain ⟨rfl, rfl⟩ : r = ⟨2, 0, 1, 1, 14⟩ ∧ t = 5 := by simpa using hnote
      exact hmem
    | _ => cases hnote
  refine ⟨m, reach_of_run .init hm, hnote, fun h => ?_⟩
  have hlate := h.late _ _ hnote
  exact absurd hlate (by decide)

/-- Two routes are registered for a while and the FIB accepts them: their events are due. -/
theorem events_match_of_run_two : ∃ m : RibManager ℕ,
    m.scheduled.map (·.due) = [5, 9] ∧ m.isUpdateInProgress = false ∧ m.EventsMatch := by
  have h : ∃ m : RibManager ℕ, Reach (step .sorting) KeepsTime {} m ∧
      m.scheduled.map (·.due) = [5, 9] ∧ m.isUpdateInProgress = false :=
    ⟨_, .step (a := .reply 0 .success) (.step (a := .reply 0 .success)
      (.step (a := .registerEntry [2] ⟨3, 0, 0, 8, 0⟩ (some 9))
        (.step (a := .registerEntry [1] ⟨2, 0, 0, 7, 0⟩ (some 5)) .init
          ⟨trivial, by decide⟩ rfl) ⟨trivial, by decide⟩ rfl) ⟨trivial, trivial⟩ rfl)
      ⟨trivial, trivial⟩ rfl, by decide +kernel, by decide +kernel⟩
  obtain ⟨m, hm, hview⟩ := h
  exact ⟨m, hview.1, hview.2, events_match_of_run hm⟩

end RibManager

end NfdGateway
