import NfdGateway.Cs.Entries
import NfdGateway.Cs.PriorityFifo
import NfdGateway.Lib.Transition

/-! The queues, the records and the events of the priority FIFO policy agree with the table. -/
namespace NfdGateway.Cs

open Store Transition List Option Function

variable {C X S : Type} {e : Entry C X}

namespace PriorityFifo

/-- The queue that `attachQueue` chooses. -/
def queueFor (e : Entry C X) (now : Time) : QueueType :=
  if e.isUnsolicited then .unsolicited else if e.isStale now then .stale else .fifo

lemma queueFor_eq_unsolicited {now : Time} :
    queueFor e now = .unsolicited ↔ e.isUnsolicited = true := by
  unfold queueFor
  split
  next hunsolicited =>
    exact iff_of_true rfl hunsolicited
  rename_i hsolicited
  refine iff_of_false ?_ hsolicited
  split <;> exact nofun

/-- Each entry of `A` has a record and is in the queue that it names, once; an event is pending
only for an entry in the FIFO queue. -/
structure Consistent (q : PriorityFifo) (A : EntryId → Prop) : Prop where
  record : ∀ i, (q.entryInfoMap i).isSome = true ↔ A i
  queued : ∀ type i, (q.queues type).count i =
    if (q.entryInfoMap i).any (·.queueType = type) then 1 else 0
  event : ∀ id i, q.scheduled id = some i →
    ∃ info, q.entryInfoMap i = some info ∧ info.queueType = .fifo ∧ info.moveStaleEventId = some id
  future : ∀ id ≥ q.nextEvent, q.scheduled id = none

variable {q q' : PriorityFifo} {A B : EntryId → Prop} {i : EntryId} {info : EntryInfo}
  {id : EventId} {type : QueueType}

lemma scheduled_cancel {event : Option EventId} {j : EntryId} :
    (q.cancel event).scheduled id = some j ↔ event ≠ some id ∧ q.scheduled id = some j := by
  unfold PriorityFifo.cancel
  dsimp only
  split
  next heq =>
    simp [heq]
  next hne =>
    simp [hne]

section Consistent

variable (h : q.Consistent A)
include h

lemma Consistent.mem_queue_iff (hinfo : q.entryInfoMap i = some info) (type : QueueType) :
    i ∈ q.queues type ↔ info.queueType = type := by
  have hcount := h.queued type i
  rw [hinfo, any_some] at hcount
  rw [← count_pos_iff, hcount]
  by_cases htype : info.queueType = type <;> simp [htype]

lemma Consistent.congr (hAB : ∀ j, A j ↔ B j) : q.Consistent B :=
  ⟨fun j => (h.record j).trans (hAB j), h.queued, h.event, h.future⟩

lemma Consistent.none_iff : q.entryInfoMap i = none ↔ ¬ A i := by
  rw [← h.record, not_isSome_iff_eq_none]

lemma Consistent.update {o : Option EntryInfo} (hmap : q'.entryInfoMap = update q.entryInfoMap i o)
    (hB : ∀ j, B j ↔ if j = i then o.isSome = true else A j)
    (hself : ∀ type, (q'.queues type).count i = if o.any (·.queueType = type) then 1 else 0)
    (hother : ∀ type, ∀ j ≠ i, (q'.queues type).count j = (q.queues type).count j)
    (hevent : ∀ id j, q'.scheduled id = some j → q.scheduled id = some j ∧ j ≠ i ∨ j = i ∧
      ∃ info, o = some info ∧ info.queueType = .fifo ∧ info.moveStaleEventId = some id)
    (hfuture : ∀ id ≥ q'.nextEvent, q'.scheduled id = none) : q'.Consistent B := by
  refine ⟨?_, ?_, ?_, hfuture⟩
  · intro j
    rw [hB, hmap]
    by_cases hj : j = i
    · rw [hj, update_self, if_pos rfl]
    · rw [update_of_ne hj, if_neg hj, h.record]
  · intro type j
    rw [hmap]
    by_cases hj : j = i
    · rw [hj, update_self, hself]
    · rw [update_of_ne hj, hother type j hj, h.queued]
  intro id j hid
  rw [hmap]
  rcases hevent id j hid with ⟨hold, hj⟩ | ⟨rfl, hinfo⟩
  · rw [update_of_ne hj]
    exact h.event id j hold
  · rw [update_self]
    exact hinfo

lemma Consistent.link (hi : ¬ A i) (hqueues : q'.queues = q.queues)
    (hmap : q'.entryInfoMap = q.entryInfoMap)
    (hevent : ∀ id j, q'.scheduled id = some j →
      q.scheduled id = some j ∨ j = i ∧ info.queueType = .fifo ∧ info.moveStaleEventId = some id)
    (hfuture : ∀ id ≥ q'.nextEvent, q'.scheduled id = none) :
    (q'.link i info).Consistent fun j => A j ∨ j = i := by
  have hnone := h.none_iff.mpr hi
  refine h.update (by rw [← hmap]; rfl) ?_ ?_ ?_ ?_ hfuture
  · intro j
    by_cases hj : j = i <;> simp [hj]
  · intro type
    have hold := h.queued type i
    rw [hnone] at hold
    by_cases htype : type = info.queueType
    · subst htype
      simpa [PriorityFifo.link, hqueues, count_append] using hold
    · have htype' : info.queueType ≠ type := Ne.symm htype
      simpa [PriorityFifo.link, hqueues, update_of_ne htype, htype'] using hold
  · intro type j hj
    by_cases htype : type = info.queueType
    · subst htype
      simp [PriorityFifo.link, hqueues, count_append, Ne.symm hj]
    · simp [PriorityFifo.link, hqueues, update_of_ne htype]
  intro id j hid
  rcases hevent id j hid with hold | ⟨rfl, hnew⟩
  · refine .inl ⟨hold, ?_⟩
    rintro rfl
    obtain ⟨info', hinfo', -⟩ := h.event id j hold
    exact absurd (hnone.symm.trans hinfo') nofun
  · exact .inr ⟨rfl, info, rfl, hnew⟩

lemma Consistent.unlink (hinfo : q.entryInfoMap i = some info)
    (hqueues : q'.queues = q.queues) (hmap : q'.entryInfoMap = q.entryInfoMap)
    (hevent : ∀ id j, q'.scheduled id = some j → q.scheduled id = some j ∧ j ≠ i)
    (hfuture : ∀ id ≥ q'.nextEvent, q'.scheduled id = none) :
    (q'.unlink i info).Consistent fun j => A j ∧ j ≠ i := by
  refine h.update (by rw [← hmap]; rfl) ?_ ?_ ?_ ?_ hfuture
  · intro j
    by_cases hj : j = i <;> simp [hj]
  · intro type
    have hold := h.queued type i
    rw [hinfo] at hold
    by_cases htype : type = info.queueType
    · subst htype
      simp [PriorityFifo.unlink, hqueues, hold]
    · have htype' : info.queueType ≠ type := Ne.symm htype
      simpa [PriorityFifo.unlink, hqueues, update_of_ne htype, htype'] using hold
  · intro type j hj
    by_cases htype : type = info.queueType
    · subst htype
      simp [PriorityFifo.unlink, hqueues, count_erase_of_ne hj]
    · simp [PriorityFifo.unlink, hqueues, update_of_ne htype]
  · exact fun id j hid => .inl (hevent id j hid)

lemma Consistent.attachQueue (he : ¬ A e.id) (now : Time) :
    ∃ q' info, q.attachQueue e now = some q' ∧
      q'.entryInfoMap = Function.update q.entryInfoMap e.id (some info) ∧
      info.queueType = queueFor e now ∧ q'.Consistent fun j => A j ∨ j = e.id := by
  have hlink : ∀ info, (q.link e.id info).Consistent fun j => A j ∨ j = e.id :=
    fun info => h.link he rfl rfl (fun id j hid => .inl hid) h.future
  unfold PriorityFifo.attachQueue queueFor
  rw [h.none_iff.mpr he]
  dsimp only
  split
  · exact ⟨_, _, rfl, rfl, rfl, hlink _⟩
  split
  · exact ⟨_, _, rfl, rfl, rfl, hlink _⟩
  split
  · refine ⟨_, _, rfl, rfl, rfl, h.link he rfl rfl ?_ ?_⟩
    · intro id j hid
      dsimp only at hid
      by_cases hnew : id = q.nextEvent
      · rw [hnew, update_self] at hid
        exact .inr ⟨(some.inj hid).symm, rfl, congrArg some hnew.symm⟩
      · rw [update_of_ne hnew] at hid
        exact .inl hid
    · intro id hid
      have hne : id ≠ q.nextEvent := Nat.ne_of_gt hid
      dsimp only
      rw [update_of_ne hne]
      exact h.future id (Nat.le_of_succ_le hid)
  · exact ⟨_, _, rfl, rfl, rfl, hlink _⟩

lemma Consistent.future_cancel (event : Option EventId) :
    ∀ id ≥ q.nextEvent, (q.cancel event).scheduled id = none := by
  intro id hid
  unfold PriorityFifo.cancel
  dsimp only
  rw [h.future id hid, ite_self]

lemma Consistent.event_of_cancel (hinfo : q.entryInfoMap i = some info) {j : EntryId}
    (hid : (q.cancel info.moveStaleEventId).scheduled id = some j) :
    q.scheduled id = some j ∧ j ≠ i := by
  obtain ⟨hne, hold⟩ := scheduled_cancel.mp hid
  refine ⟨hold, ?_⟩
  rintro rfl
  obtain ⟨info', hinfo', -, hevent⟩ := h.event id j hold
  obtain rfl := some.inj (hinfo'.symm.trans hinfo)
  exact hne hevent

lemma Consistent.detachQueue (hi : A i) :
    ∃ q', q.detachQueue i = some q' ∧
      q'.entryInfoMap = Function.update q.entryInfoMap i none ∧
      q'.Consistent fun j => A j ∧ j ≠ i := by
  obtain ⟨info, hinfo⟩ := isSome_iff_exists.mp ((h.record i).mpr hi)
  unfold PriorityFifo.detachQueue
  rw [hinfo]
  dsimp only
  split
  · refine ⟨_, rfl, rfl, h.unlink hinfo rfl rfl ?_ (h.future_cancel _)⟩
    exact fun id j hid => h.event_of_cancel hinfo hid
  rename_i hfifo
  refine ⟨_, rfl, rfl, h.unlink hinfo rfl rfl ?_ h.future⟩
  intro id j hid
  refine ⟨hid, ?_⟩
  rintro rfl
  obtain ⟨info', hinfo', hfifo', -⟩ := h.event id j hid
  obtain rfl := some.inj (hinfo'.symm.trans hinfo)
  exact hfifo hfifo'

lemma Consistent.moveToStaleQueue (hid : q.scheduled id = some i) :
    ∃ q' info, (q.cancel (some id)).moveToStaleQueue i = some q' ∧ q.entryInfoMap i = some info ∧
      info.queueType = .fifo ∧
      q'.entryInfoMap = Function.update q.entryInfoMap i (some { info with queueType := .stale }) ∧
      q'.Consistent A := by
  obtain ⟨info, hinfo, hfifo, hevent⟩ := h.event id i hid
  have hcancel : q.cancel (some id) = q.cancel info.moveStaleEventId := by rw [hevent]
  rw [hcancel]
  -- taking the entry out of one queue and putting it into the other
  have hmove : (q.cancel info.moveStaleEventId).moveToStaleQueue i =
      some (((q.cancel info.moveStaleEventId).unlink i info).link i
        { info with queueType := .stale }) := by
    unfold PriorityFifo.moveToStaleQueue
    rw [show (q.cancel info.moveStaleEventId).entryInfoMap i = some info from hinfo]
    dsimp only
    rw [if_pos hfifo]
    simp only [PriorityFifo.link, PriorityFifo.unlink, hfifo, update_idem]
  have hout : ((q.cancel info.moveStaleEventId).unlink i info).Consistent fun j => A j ∧ j ≠ i :=
    h.unlink hinfo rfl rfl (fun id j hid => h.event_of_cancel hinfo hid) (h.future_cancel _)
  have hin : (((q.cancel info.moveStaleEventId).unlink i info).link i
      { info with queueType := .stale }).Consistent fun j => (A j ∧ j ≠ i) ∨ j = i :=
    hout.link (fun hi => hi.2 rfl) rfl rfl (fun id j hid => .inl hid) hout.future
  refine ⟨_, info, hmove, hinfo, hfifo, ?_, hin.congr fun j => ?_⟩
  · simp only [PriorityFifo.link, PriorityFifo.unlink, update_idem]
    rfl
  have hi : A i := (h.record i).mp (by rw [hinfo]; rfl)
  by_cases hj : j = i
  · simp [hj, hi]
  · simp [hj]

/-! ### The front of the queues -/

lemma Consistent.of_mem (hi : i ∈ q.queues type) : A i := by
  have hcount := h.queued type i
  have hpos := count_pos_iff.mpr hi
  rw [← h.record]
  cases hmap : q.entryInfoMap i with
  | none =>
    rw [hmap] at hcount
    simp only [any_none, Bool.false_eq_true, if_false] at hcount
    omega
  | some info => rfl

lemma Consistent.exists_mem (hi : A i) : ∃ type, i ∈ q.queues type := by
  obtain ⟨info, hinfo⟩ := isSome_iff_exists.mp ((h.record i).mpr hi)
  have hcount := h.queued info.queueType i
  rw [hinfo] at hcount
  refine ⟨info.queueType, count_pos_iff.mp ?_⟩
  simp [hcount]

end Consistent

lemma mem_of_front (h : q.front = some i) : ∃ type, i ∈ q.queues type := by
  unfold front at h
  split at h <;> simp only [some.injEq, reduceCtorEq] at h
  next hqueue =>
    exact ⟨.unsolicited, by simp [hqueue, h]⟩
  next hqueue =>
    exact ⟨.stale, by simp [hqueue, h]⟩
  next hqueue =>
    exact ⟨.fifo, by simp [hqueue, h]⟩

lemma front_ne_none (hi : i ∈ q.queues type) : q.front ≠ none := by
  unfold front
  split
  · exact nofun
  · exact nofun
  · exact nofun
  next hunsolicited hstale hfifo =>
    cases type <;> simp_all

/-! ### The store -/

variable {s t : Store C X PriorityFifo} {table : List (Entry C X)}

/-- The unsolicited queue holds the entries that are flagged unsolicited. -/
def Flagged (s : Store C X PriorityFifo) : Prop :=
  ∀ e ∈ s.table, ∀ info, s.policy.entryInfoMap e.id = some info →
    (info.queueType = .unsolicited ↔ e.isUnsolicited = true)

lemma Flagged.detached (h : Flagged s)
    (hmap : t.policy.entryInfoMap = update s.policy.entryInfoMap i none)
    (hothers : ∀ e ∈ t.table, e.id ≠ i → e ∈ s.table) : Flagged t := by
  intro e he info hinfo
  rw [hmap] at hinfo
  by_cases hid : e.id = i
  · rw [hid, update_self] at hinfo
    cases hinfo
  · rw [update_of_ne hid] at hinfo
    exact h e (hothers e he hid) info hinfo

/-- What every operation of the store keeps; the limit is met again by the eviction at its end. -/
structure WellFormed (s : Store C X PriorityFifo) : Prop where
  nodup : s.entryIds.Nodup
  fresh : ∀ i ∈ s.entryIds, i < s.nextId
  consistent : s.policy.Consistent (· ∈ s.entryIds)
  flagged : Flagged s

lemma attachEntry_eq_some (hnodup : s.entryIds.Nodup) (h : s.policy.Consistent A)
    (hflagged : Flagged s) (hi : i ∈ s.entryIds) (hA : ¬ A i) (now : Time) :
    ∃ q, attachEntry s i now = some { s with policy := q } ∧
      (q.Consistent fun j => A j ∨ j = i) ∧ Flagged { s with policy := q } := by
  obtain ⟨e, he, rfl, hentry⟩ := exists_entry? hi
  obtain ⟨q, info, hq, hmap, hqueue, hconsistent⟩ := h.attachQueue hA now
  unfold attachEntry
  rw [hentry]
  dsimp only
  rw [hq]
  refine ⟨q, rfl, hconsistent, ?_⟩
  intro e' he' info' hinfo'
  rw [hmap] at hinfo'
  by_cases hid : e'.id = e.id
  · obtain rfl := eq_of_id_eq hnodup he' he hid
    rw [update_self] at hinfo'
    cases hinfo'
    rw [hqueue]
    exact queueFor_eq_unsolicited
  · rw [update_of_ne hid] at hinfo'
    exact hflagged e' he' info' hinfo'

section

variable (h : WellFormed s)
include h

lemma WellFormed.evictOne (hlt : s.limit < s.size) :
    ∃ i q, i ∈ s.entryIds ∧ evictOne s = some ({ s with policy := q }.eraseEntry i) ∧
      WellFormed ({ s with policy := q }.eraseEntry i) := by
  obtain ⟨i, hfront, hi⟩ : ∃ i, s.policy.front = some i ∧ i ∈ s.entryIds := by
    have hne : s.entryIds ≠ [] := by
      intro hnil
      have hlength := s.length_entryIds
      rw [hnil, length_nil] at hlength
      omega
    obtain ⟨j, hj⟩ := exists_mem_of_ne_nil _ hne
    obtain ⟨type, hqueue⟩ := h.consistent.exists_mem hj
    obtain ⟨i, hi⟩ := ne_none_iff_exists'.mp (front_ne_none hqueue)
    obtain ⟨type', hmem⟩ := mem_of_front hi
    exact ⟨i, hi, h.consistent.of_mem hmem⟩
  obtain ⟨q, hq, hmap, hconsistent⟩ := h.consistent.detachQueue hi
  unfold PriorityFifo.evictOne
  rw [hfront]
  dsimp only
  rw [hq]
  have hids : ({ s with policy := q }.eraseEntry i).entryIds = s.entryIds.erase i :=
    entryIds_eraseEntry _ i
  refine ⟨i, q, hi, rfl, ?_, ?_, ?_, ?_⟩
  · rw [hids]
    exact h.nodup.erase i
  · rw [hids]
    exact fun j hj => h.fresh j (mem_of_mem_erase hj)
  · refine hconsistent.congr fun j => ?_
    rw [hids, h.nodup.mem_erase_iff]
    exact and_comm
  · exact h.flagged.detached hmap fun e he _ => List.mem_of_mem_eraseP he

lemma WellFormed.evictEntries : ∃ t, evictEntries s = some t ∧ WellFormed t ∧ t.size ≤ t.limit := by
  have hone : ∀ t : Store C X PriorityFifo, WellFormed t → t.limit < t.size →
      ∃ u, PriorityFifo.evictOne t = some u ∧ WellFormed u ∧ u.size + 1 = t.size ∧
        u.limit = t.limit := by
    intro t hwf hlt
    obtain ⟨i, q, hi, ht, hwf'⟩ := hwf.evictOne hlt
    exact ⟨_, ht, hwf', size_eraseEntry hi, rfl⟩
  obtain ⟨t, ht, hwf, hle, -⟩ := evictWhile_eq_some hone (Nat.le_add_right s.size s.limit) h
  exact ⟨t, ht, hwf, hle⟩

lemma WellFormed.doAfterInsert (hothers : ∀ e ∈ table, e.id ≠ s.nextId → e ∈ s.table)
    (hids : (table.map (·.id)).Perm (s.nextId :: s.entryIds)) (now : Time) :
    ∃ q, attachEntry { s with table := table, nextId := s.nextId + 1 } s.nextId now =
        some { s with table := table, nextId := s.nextId + 1, policy := q } ∧
      WellFormed { s with table := table, nextId := s.nextId + 1, policy := q } := by
  have hnew : s.nextId ∉ s.entryIds := fun hi => Nat.lt_irrefl _ (h.fresh _ hi)
  have hnodup : (table.map (·.id)).Nodup := hids.nodup_iff.mpr (nodup_cons.mpr ⟨hnew, h.nodup⟩)
  have hflagged : Flagged { s with table := table, nextId := s.nextId + 1 } := by
    intro e he info hinfo
    by_cases hid : e.id = s.nextId
    · have hmem := (h.consistent.record e.id).mp (by rw [hinfo]; rfl)
      exact absurd (hid ▸ hmem) hnew
    · exact h.flagged e (hothers e he hid) info hinfo
  obtain ⟨q, hattach, hq, hflagged'⟩ :=
    attachEntry_eq_some (s := { s with table := table, nextId := s.nextId + 1 }) hnodup h.consistent
      hflagged (hids.mem_iff.mpr (.head _)) hnew now
  refine ⟨q, hattach, hnodup, ?_, hq.congr fun j => ?_, hflagged'⟩
  · intro j hj
    rcases mem_cons.mp (hids.mem_iff.mp hj) with rfl | hj
    · exact Nat.lt_succ_self _
    · exact Nat.lt_succ_of_lt (h.fresh j hj)
  · exact or_comm.trans (mem_cons.symm.trans hids.mem_iff.symm)

lemma WellFormed.doAfterRefresh (hi : i ∈ s.entryIds)
    (hothers : ∀ e ∈ table, e.id ≠ i → e ∈ s.table) (hids : table.map (·.id) = s.entryIds)
    (now : Time) :
    ∃ q, policy.doAfterRefresh { s with table := table, nextId := s.nextId + 1 } i now =
        some { s with table := table, nextId := s.nextId + 1, policy := q } ∧
      WellFormed { s with table := table, nextId := s.nextId + 1, policy := q } := by
  obtain ⟨q, hdetach, hmap, hq⟩ := h.consistent.detachQueue hi
  have hflagged : Flagged { s with table := table, nextId := s.nextId + 1, policy := q } :=
    h.flagged.detached hmap hothers
  have hnodup : (table.map (·.id)).Nodup := hids ▸ h.nodup
  have hmem : i ∈ table.map (·.id) := hids.symm ▸ hi
  obtain ⟨q', hattach, hq', hflagged'⟩ :=
    attachEntry_eq_some (s := { s with table := table, nextId := s.nextId + 1, policy := q })
      hnodup hq hflagged hmem (fun hA => hA.2 rfl) now
  refine ⟨q', ?_, hnodup, ?_, hq'.congr fun j => ?_, hflagged'⟩
  · dsimp only [policy]
    rw [hdetach, bind_some, hattach]
  · intro j hj
    exact Nat.lt_succ_of_lt (h.fresh j (hids ▸ hj))
  change _ ↔ j ∈ table.map (·.id)
  rw [hids]
  by_cases hj : j = i
  · simp [hj, hi]
  · simp [hj]

lemma WellFormed.fire (hid : s.policy.scheduled id = some i) :
    ∃ q, fire s id = some { s with policy := q } ∧ WellFormed { s with policy := q } := by
  obtain ⟨q, info, hq, hinfo, hfifo, hmap, hconsistent⟩ := h.consistent.moveToStaleQueue hid
  unfold PriorityFifo.fire
  rw [hid]
  dsimp only
  rw [hq]
  refine ⟨q, rfl, h.nodup, h.fresh, hconsistent, ?_⟩
  intro e he info' hinfo'
  rw [hmap] at hinfo'
  by_cases heid : e.id = i
  · rw [heid, update_self] at hinfo'
    cases hinfo'
    have hold := h.flagged e he info (heid ▸ hinfo)
    rw [hfifo] at hold
    exact iff_of_false nofun fun hflag => nomatch hold.mpr hflag
  · rw [update_of_ne heid] at hinfo'
    exact h.flagged e he info' hinfo'

end

lemma WellFormed.insert [LinearOrder C] {K : Components C} (h : WellFormed s)
    (hsize : s.size ≤ s.limit) (data : Data C X) (isUnsolicited : Bool) (now : Readings) :
    ∃ t, s.insert K policy data isUnsolicited now = some t ∧ WellFormed t ∧ t.size ≤ t.limit := by
  unfold Store.insert
  split
  · exact ⟨s, rfl, h, hsize⟩
  split
  · exact ⟨s, rfl, h, hsize⟩
  obtain ⟨table, i, isNewEntry, hinsert, hothers, -, hcases⟩ :=
    insertData_cases K s.table s.nextId data isUnsolicited now
  rw [hinsert]
  rcases hcases with ⟨rfl, rfl, hids⟩ | ⟨rfl, hi, hids⟩
  · obtain ⟨q, hq, hwf⟩ := h.doAfterInsert hothers hids now.isStale
    obtain ⟨t, ht, hresult⟩ := hwf.evictEntries
    refine ⟨t, ?_, hresult⟩
    exact (congrArg (Option.bind · PriorityFifo.evictEntries) hq).trans ht
  · obtain ⟨q, hq, hwf⟩ := h.doAfterRefresh hi hothers hids now.isStale
    have hlength : table.length = s.size := by
      rw [← s.length_entryIds, entryIds, ← hids, length_map]
    exact ⟨_, hq, hwf, hlength.trans_le hsize⟩

lemma wellFormed_empty (limit : ℕ) :
    WellFormed ({ limit := limit, policy := {} } : Store C X PriorityFifo) := by
  refine ⟨nodup_nil, nofun, ⟨?_, ?_, ?_, ?_⟩, nofun⟩
  · intro i
    exact iff_of_false nofun nofun
  · intro type i
    rfl
  · intro id i hid
    cases hid
  · intro id _
    rfl

/-- Queues, records and events say the same as the table. -/
structure Agrees (s : Store C X PriorityFifo) : Prop where
  one_queue : ∀ e ∈ s.table, ∃ type, (s.policy.queues type).count e.id = 1 ∧
    ∀ type', type' ≠ type → e.id ∉ s.policy.queues type'
  one_record : ∀ e ∈ s.table, (s.policy.entryInfoMap e.id).isSome
  in_table : ∀ i, (∃ type, i ∈ s.policy.queues type) ∨ (s.policy.entryInfoMap i).isSome →
    i ∈ s.entryIds
  unsolicited : ∀ e ∈ s.table, e.id ∈ s.policy.queues .unsolicited ↔ e.isUnsolicited = true
  events : ∀ id i, s.policy.scheduled id = some i → i ∈ s.policy.queues .fifo
  size_le : s.size ≤ s.limit

lemma WellFormed.exists_record (h : WellFormed s) (he : e ∈ s.table) :
    ∃ info, s.policy.entryInfoMap e.id = some info :=
  isSome_iff_exists.mp ((h.consistent.record e.id).mpr (List.mem_map_of_mem he))

lemma WellFormed.mem_unsolicited (h : WellFormed s) (he : e ∈ s.table) :
    e.id ∈ s.policy.queues .unsolicited ↔ e.isUnsolicited = true := by
  obtain ⟨info, hinfo⟩ := h.exists_record he
  rw [h.consistent.mem_queue_iff hinfo]
  exact h.flagged e he info hinfo

lemma WellFormed.agrees (h : WellFormed s) (hsize : s.size ≤ s.limit) : Agrees s := by
  refine ⟨?_, ?_, ?_, ?_, ?_, hsize⟩
  · intro e he
    obtain ⟨info, hinfo⟩ := h.exists_record he
    refine ⟨info.queueType, ?_, ?_⟩
    · rw [h.consistent.queued, hinfo]
      simp
    · intro type hne hmem
      exact hne ((h.consistent.mem_queue_iff hinfo type).mp hmem).symm
  · intro e he
    exact isSome_iff_exists.mpr (h.exists_record he)
  · rintro i (⟨type, hmem⟩ | hsome)
    · exact h.consistent.of_mem hmem
    · exact (h.consistent.record i).mp hsome
  · exact fun e he => h.mem_unsolicited he
  intro id i hid
  obtain ⟨info, hinfo, hfifo, -⟩ := h.consistent.event id i hid
  exact (h.consistent.mem_queue_iff hinfo .fifo).mpr hfifo

/-! ### Runs -/

variable [LinearOrder C] {K : Components C} {matchesData : Interest C S → Data C X → Bool}

/-- A lookup needs a search with a result, a firing a pending event. -/
def Enabled (K : Components C) (matchesData : Interest C S → Data C X → Bool)
    (s : Store C X PriorityFifo) : Event C X S → Prop
  | .operation (.find interest now) => (search K matchesData s.table interest now).isSome
  | .operation _ => True
  | .moveToStale id => (s.policy.scheduled id).isSome

lemma WellFormed.step (h : WellFormed s) (hsize : s.size ≤ s.limit) {event : Event C X S}
    (henabled : Enabled K matchesData s event) :
    ∃ t, step K matchesData s event = some t ∧ WellFormed t ∧ t.size ≤ t.limit := by
  cases event with
  | moveToStale id =>
    obtain ⟨i, hi⟩ := isSome_iff_exists.mp henabled
    obtain ⟨q, hq, hwf⟩ := h.fire hi
    exact ⟨_, hq, hwf, hsize⟩
  | operation op =>
    cases op with
    | insert data isUnsolicited now => exact h.insert hsize data isUnsolicited now
    | find interest now =>
      obtain ⟨found, hfound⟩ := isSome_iff_exists.mp henabled
      have hfind : (s.find K policy matchesData interest now).map (·.1) = some s := by
        unfold Store.find
        rw [hfound]
        cases found with
        | none => rfl
        | some e =>
          have hrecord := (h.consistent.record e.id).mpr (List.mem_map_of_mem (search_mem hfound))
          dsimp only [policy]
          rw [if_pos hrecord]
          rfl
      exact ⟨s, hfind, h, hsize⟩
    | setLimit n =>
      have hwf : WellFormed { s with limit := n } := ⟨h.nodup, h.fresh, h.consistent, h.flagged⟩
      exact hwf.evictEntries

lemma enabled_of_step {event : Event C X S}
    (h : PriorityFifo.step K matchesData s event = some t) : Enabled K matchesData s event := by
  cases event with
  | moveToStale id =>
    refine isSome_iff_ne_none.mpr fun hnone => ?_
    rw [PriorityFifo.step, PriorityFifo.fire, hnone] at h
    cases h
  | operation op =>
    cases op with
    | insert data isUnsolicited now | setLimit n => trivial
    | find interest now =>
      refine isSome_iff_ne_none.mpr fun hnone => ?_
      rw [PriorityFifo.step, Store.operate, Store.find, hnone] at h
      cases h

lemma wellFormed_reach {limit : ℕ} (h : Reach (PriorityFifo.step K matchesData) Any
    { limit := limit, policy := {} } s) : WellFormed s ∧ s.size ≤ s.limit := by
  refine Reach.invariant (I := fun s => WellFormed s ∧ s.size ≤ s.limit)
    ⟨wellFormed_empty limit, Nat.zero_le _⟩ ?_ h
  rintro s event t ⟨hwf, hsize⟩ - hstep
  obtain ⟨t', ht', hresult⟩ := hwf.step hsize (enabled_of_step hstep)
  obtain rfl := some.inj (ht'.symm.trans hstep)
  exact hresult

/-- In every state of a store with this policy the queues, the records and the events agree with
the table, and no assertion of the policy can fail. -/
theorem queues_agree {limit : ℕ} (h : Reach (PriorityFifo.step K matchesData) Any
    { limit := limit, policy := {} } s) :
    Agrees s ∧ s.entryIds.Nodup ∧
      ∀ event, Enabled K matchesData s event →
        (PriorityFifo.step K matchesData s event).isSome := by
  obtain ⟨hwf, hsize⟩ := wellFormed_reach h
  refine ⟨hwf.agrees hsize, hwf.nodup, fun event henabled => ?_⟩
  obtain ⟨t, ht, -⟩ := hwf.step hsize henabled
  rw [ht]
  rfl

/-- Two Data are inserted, the second of them unsolicited, and the first one becomes stale. -/
theorem queues_agree_satisfied :
    ∃ s : Store ℕ Unit PriorityFifo,
      Reach (PriorityFifo.step numberComponents matchesName) Any { limit := 2, policy := {} } s ∧
      s.policy.queues .stale = [0] ∧ s.policy.queues .unsolicited = [1] ∧ Agrees s := by
  obtain ⟨s, hreach, hstale, hunsolicited⟩ : ∃ s : Store ℕ Unit PriorityFifo,
      Reach (PriorityFifo.step numberComponents matchesName) Any { limit := 2, policy := {} } s ∧
      s.policy.queues .stale = [0] ∧ s.policy.queues .unsolicited = [1] := by
    refine ⟨_, reach_of_run (l := [.operation (.insert ⟨[200], 7, 3, false, ()⟩ false ⟨0, 0, 0, 1⟩),
      .operation (.insert ⟨[300], 7, 3, false, ()⟩ true ⟨2, 2, 2, 2⟩), .moveToStale 0]) .init rfl,
      rfl, rfl⟩
  exact ⟨s, hreach, hstale, hunsolicited, (queues_agree hreach).1⟩

end PriorityFifo

end NfdGateway.Cs
