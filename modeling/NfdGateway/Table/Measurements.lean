import NfdGateway.Lib.Mutual
import NfdGateway.NameTree.Attach
import NfdGateway.Pit.Pit

/-! The Measurements table. Its entries live for a time that can be extended; each has a cleanup
event that takes it off its name tree node. -/
namespace NfdGateway

open List Option Function Transition

namespace Measurements

abbrev MeasurementsId := ℕ

abbrev EventId := ℕ

structure Entry (C : Type) where
  name : Name C := []
  expiry : ℤ := 0
  cleanup : EventId := 0
  nameTreeEntry : Option EntryId := none

structure Scheduled where
  id : EventId
  entry : MeasurementsId
  due : ℤ
deriving DecidableEq

end Measurements

open Measurements

structure Measurements (C : Type) where
  tree : NameTree C
  entryOf : EntryId → Option MeasurementsId := fun _ => none
  entries : MeasurementsId → Entry C := fun _ => {}
  fresh : MeasurementsId := 0
  scheduled : List Scheduled := []
  nextEvent : EventId := 0
  nItems : ℕ := 0

namespace Measurements

def initialLifetime : ℤ := 4 * 10 ^ 9

variable {C S : Type}

def getAt (M : Measurements C) (now : ℤ) (nte : EntryId) : Measurements C × MeasurementsId :=
  match M.entryOf nte with
  | some e => (M, e)
  | none =>
    ({ tree := M.tree.setHolds .measurements nte true
       entryOf := update M.entryOf nte (some M.fresh)
       entries := update M.entries M.fresh
        { name := (M.tree.entries nte).pfx
          expiry := now + initialLifetime
          cleanup := M.nextEvent
          nameTreeEntry := some nte }
       fresh := M.fresh + 1
       scheduled := M.scheduled ++ [⟨M.nextEvent, M.fresh, now + initialLifetime⟩]
       nextEvent := M.nextEvent + 1
       nItems := M.nItems + 1 }, M.fresh)

def getNode (M : Measurements C) (now : ℤ) (r : NameTree C × Option EntryId) :
    Option (Measurements C × MeasurementsId) :=
  r.2.map fun nte => { M with tree := r.1 }.getAt now nte

def extendLifetime (M : Measurements C) (now : ℤ) (e : MeasurementsId) (lifetime : ℤ) :
    Measurements C :=
  match (M.entries e).nameTreeEntry with
  | none => M
  | some nte =>
    -- otherwise the entry is gone, and the reference to it is dangling
    if M.entryOf nte = some e then
      if now + lifetime ≤ (M.entries e).expiry then M
      else
        { M with
          entries := update M.entries e
            { M.entries e with expiry := now + lifetime, cleanup := M.nextEvent }
          scheduled := M.scheduled.filter (·.id ≠ (M.entries e).cleanup) ++
            [⟨M.nextEvent, e, now + lifetime⟩]
          nextEvent := M.nextEvent + 1 }
    else M

def unset (M : Measurements C) (nte : EntryId) : Measurements C :=
  match M.entryOf nte with
  | none => M
  | some e =>
    { M with
      entryOf := update M.entryOf nte none
      entries := update M.entries e { M.entries e with nameTreeEntry := none } }

/-- `none` is undefined behaviour in the name tree. -/
def cleanup (M : Measurements C) (e : MeasurementsId) : Option (Measurements C) :=
  match (M.entries e).nameTreeEntry with
  | none => some M
  | some nte =>
    (M.tree.release .measurements nte).map fun T =>
      { M.unset nte with tree := T, nItems := M.nItems - 1 }

variable [DecidableEq C] (hash : C → Hash) {T : NameTree C}

def get (M : Measurements C) (now : ℤ) (name : Name C) : Option (Measurements C × MeasurementsId) :=
  M.getNode now (M.tree.lookup hash name)

def getFib (M : Measurements C) (now : ℤ) (nte : Option EntryId) (fibPrefix : Name C) :
    Option (Measurements C × MeasurementsId) :=
  match nte with
  | some nte => some (M.getAt now nte)
  | none => if fibPrefix = [] then M.get hash now fibPrefix else none

def getPit (M : Measurements C) (now : ℤ) (pitEntry : PitEntry C S) :
    Option (Measurements C × MeasurementsId) :=
  M.getNode now (Pit.get hash M.tree pitEntry)

def getParent (M : Measurements C) (now : ℤ) (child : MeasurementsId) :
    Option (Measurements C × Option MeasurementsId) :=
  if (M.entries child).name = [] then some (M, none)
  else
    (M.entries child).nameTreeEntry.bind fun nte =>
      (M.tree.entries nte).parent.map fun parent =>
        let r := M.getAt now parent
        (r.1, some r.2)

def findExactMatch (M : Measurements C) (name : Name C) : Measurements C × Option MeasurementsId :=
  let r := M.tree.lookup hash name
  ({ M with tree := r.1 }, r.2.bind M.entryOf)

def findLongestPrefixMatchPit (M : Measurements C) (pitEntry : PitEntry C S)
    (pred : TreeEntry C → Bool) : Option (Measurements C × Option MeasurementsId) :=
  let r := Pit.get hash M.tree pitEntry
  r.2.map fun nte =>
    ({ M with tree := r.1 },
      (r.1.findLongestPrefixMatchFrom (some nte) fun entry =>
        entry.tables.measurementsEntry && pred entry).bind M.entryOf)

/-! ### Runs -/

/-- The calls; `cleanup` is a pending event that the scheduler runs, and `others` is what the
other tables do to the name tree. -/
inductive Call (C S : Type)
  | get (name : Name C)
  | getFib (nte : Option EntryId) (fibPrefix : Name C)
  | getPit (pitEntry : PitEntry C S)
  | getParent (child : MeasurementsId)
  | extendLifetime (e : MeasurementsId) (lifetime : ℤ)
  | cleanup (event : EventId)
  | others (tree : NameTree C)

/-- The table at the time of the last call, with all ends of lifetimes that were asked for each
entry. -/
structure Recorded (C : Type) where
  table : Measurements C
  now : ℤ
  requested : MeasurementsId → List ℤ := fun _ => []

omit [DecidableEq C] in
def Recorded.got (s : Recorded C) (now : ℤ) (M : Measurements C) : Recorded C where
  table := M
  now := now
  requested :=
    if M.fresh = s.table.fresh then s.requested
    else update s.requested s.table.fresh [now + initialLifetime]

omit [DecidableEq C] in
def runEvent (M : Measurements C) (now : ℤ) (event : EventId) : Option (Measurements C) :=
  (M.scheduled.find? (·.id = event)).bind fun ev =>
    if ev.due ≤ now then
      { M with scheduled := M.scheduled.filter (·.id ≠ event) }.cleanup ev.entry
    else none

def Recorded.call (s : Recorded C) (now : ℤ) : Call C S → Option (Recorded C)
  | .get name => (s.table.get hash now name).map fun r => s.got now r.1
  | .getFib nte fibPrefix => (s.table.getFib hash now nte fibPrefix).map fun r => s.got now r.1
  | .getPit pitEntry => (s.table.getPit hash now pitEntry).map fun r => s.got now r.1
  | .getParent child => (s.table.getParent now child).map fun r => s.got now r.1
  | .extendLifetime e lifetime =>
    some { table := s.table.extendLifetime now e lifetime, now := now
           requested := update s.requested e ((now + lifetime) :: s.requested e) }
  | .cleanup event => (s.table.runEvent now event).map fun M => { s with table := M, now := now }
  | .others tree => some { s with table := { s.table with tree := tree }, now := now }

def Recorded.step (s : Recorded C) (a : ℤ × Call C S) : Option (Recorded C) :=
  if s.now ≤ a.1 then s.call hash a.1 a.2 else none

/-! ### The invariant -/

section Invariant

omit [DecidableEq C]

variable {M : Measurements C} {requested : MeasurementsId → List ℤ} {e e' x : MeasurementsId}
  {nte : EntryId} {now lifetime : ℤ}

def Attached (M : Measurements C) (e : MeasurementsId) : Prop :=
  (M.entries e).nameTreeEntry ≠ none

instance (M : Measurements C) : DecidablePred M.Attached := fun e =>
  inferInstanceAs (Decidable ((M.entries e).nameTreeEntry ≠ none))

def eventOf (M : Measurements C) (e : MeasurementsId) : Scheduled :=
  ⟨(M.entries e).cleanup, e, (M.entries e).expiry⟩

def attachedCount (M : Measurements C) : ℕ := (List.range M.fresh).countP (M.Attached ·)

structure Inv (M : Measurements C) (requested : MeasurementsId → List ℤ) : Prop where
  entryOf_iff : ∀ nte e, M.entryOf nte = some e ↔ (M.entries e).nameTreeEntry = some nte
  lt_fresh : ∀ e, M.Attached e → e < M.fresh
  mem_scheduled : ∀ ev, ev ∈ M.scheduled ↔ M.Attached ev.entry ∧ ev = M.eventOf ev.entry
  nodup : M.scheduled.Nodup
  cleanup_lt : ∀ e, M.Attached e → (M.entries e).cleanup < M.nextEvent
  cleanup_inj : ∀ e e', M.Attached e → M.Attached e' →
    (M.entries e).cleanup = (M.entries e').cleanup → e = e'
  expiry : ∀ e, M.Attached e → IsGreatest {t | t ∈ requested e} (M.entries e).expiry
  count : M.nItems = M.attachedCount

lemma Inv.tree (h : Inv M requested) (T : NameTree C) : Inv { M with tree := T } requested :=
  ⟨h.entryOf_iff, h.lt_fresh, h.mem_scheduled, h.nodup, h.cleanup_lt, h.cleanup_inj, h.expiry,
    h.count⟩

lemma Inv.pointers (h : Inv M requested) :
    Mutual M.entryOf fun e => (M.entries e).nameTreeEntry := h.entryOf_iff

lemma Inv.not_attached_fresh (h : Inv M requested) : ¬ M.Attached M.fresh := fun ha =>
  Nat.lt_irrefl _ (h.lt_fresh _ ha)

/-- One entry has a new event, in the place of the one it may have had, and the expiry time of that
event; the other entries are as they were. -/
structure Rescheduled (M M' : Measurements C) (e : MeasurementsId) (t : ℤ) : Prop where
  attached : ∀ x, M'.Attached x ↔ x = e ∨ M.Attached x
  cleanup : (M'.entries e).cleanup = M.nextEvent
  expiry : (M'.entries e).expiry = t
  others : ∀ x, x ≠ e → M'.entries x = M.entries x
  nextEvent : M'.nextEvent = M.nextEvent + 1
  scheduled : ∃ l, M'.scheduled = l ++ [⟨M.nextEvent, e, t⟩] ∧ l.Nodup ∧
    ∀ ev, ev ∈ l ↔ ev.entry ≠ e ∧ ev ∈ M.scheduled

section Rescheduled

variable {M' : Measurements C} {t : ℤ}

lemma Inv.mem_rescheduled (h : Inv M requested) (hr : Rescheduled M M' e t) (ev : Scheduled) :
    ev ∈ M'.scheduled ↔ M'.Attached ev.entry ∧ ev = M'.eventOf ev.entry := by
  obtain ⟨l, hl, -, hmem⟩ := hr.scheduled
  rw [hl, mem_append, mem_singleton, hmem, hr.attached, h.mem_scheduled]
  by_cases he : ev.entry = e
  · have hevent : M'.eventOf e = ⟨M.nextEvent, e, t⟩ := by rw [eventOf, hr.cleanup, hr.expiry]
    rw [he, hevent]
    simp
  have hne : ev ≠ ⟨M.nextEvent, e, t⟩ := fun hc => he (by rw [hc])
  have hevent : M'.eventOf ev.entry = M.eventOf ev.entry := by rw [eventOf, eventOf, hr.others _ he]
  rw [hevent]
  simp [he, hne]

lemma Rescheduled.nodup (hr : Rescheduled M M' e t) : M'.scheduled.Nodup := by
  obtain ⟨l, hl, hnodup, hmem⟩ := hr.scheduled
  rw [hl]
  refine nodup_append.mpr ⟨hnodup, nodup_singleton _, ?_⟩
  rintro ev hev _ hlast rfl
  rw [mem_singleton.mp hlast, hmem] at hev
  exact hev.1 rfl

section

variable (h : Inv M requested) (hr : Rescheduled M M' e t)
include h hr

lemma Inv.cleanup_others (hx : M'.Attached x) (hxe : x ≠ e) :
    M.Attached x ∧ (M'.entries x).cleanup = (M.entries x).cleanup ∧
      (M'.entries x).cleanup < M.nextEvent := by
  have ha := ((hr.attached x).mp hx).resolve_left hxe
  rw [hr.others x hxe]
  exact ⟨ha, rfl, h.cleanup_lt x ha⟩

lemma Inv.cleanup_lt_rescheduled
    (x : MeasurementsId) (hx : M'.Attached x) : (M'.entries x).cleanup < M'.nextEvent := by
  rw [hr.nextEvent]
  by_cases hxe : x = e
  · rw [hxe, hr.cleanup]
    exact Nat.lt_succ_self _
  · exact Nat.lt_succ_of_lt (h.cleanup_others hr hx hxe).2.2

lemma Inv.cleanup_inj_rescheduled (x y : MeasurementsId) (hx : M'.Attached x) (hy : M'.Attached y)
    (heq : (M'.entries x).cleanup = (M'.entries y).cleanup) : x = y := by
  by_cases hxe : x = e <;> by_cases hye : y = e
  · exact hxe.trans hye.symm
  · have hlt := (h.cleanup_others hr hy hye).2.2
    rw [← heq, hxe, hr.cleanup] at hlt
    exact absurd hlt (Nat.lt_irrefl _)
  · have hlt := (h.cleanup_others hr hx hxe).2.2
    rw [heq, hye, hr.cleanup] at hlt
    exact absurd hlt (Nat.lt_irrefl _)
  · obtain ⟨hx, hcx, -⟩ := h.cleanup_others hr hx hxe
    obtain ⟨hy, hcy, -⟩ := h.cleanup_others hr hy hye
    exact h.cleanup_inj x y hx hy (hcx.symm.trans (heq.trans hcy))

end

end Rescheduled

/-! ### Getting an entry -/

lemma getAt_some (he : M.entryOf nte = some e) : M.getAt now nte = (M, e) := by
  simp only [getAt, he]

section

variable (hn : M.entryOf nte = none)
include hn

lemma entries_getAt (hne : e ≠ M.fresh) : (M.getAt now nte).1.entries e = M.entries e := by
  simp [getAt, hn, hne]

lemma entryOf_getAt : (M.getAt now nte).1.entryOf = update M.entryOf nte (some M.fresh) := by
  simp only [getAt, hn]

lemma nameTreeEntry_getAt : ((M.getAt now nte).1.entries e).nameTreeEntry =
      update (fun e => (M.entries e).nameTreeEntry) M.fresh (some nte) e := by
  by_cases he : e = M.fresh
  · simp [getAt, hn, he]
  · simp [entries_getAt hn he, he]

lemma attached_getAt : (M.getAt now nte).1.Attached e ↔ e = M.fresh ∨ M.Attached e := by
  by_cases he : e = M.fresh
  · subst he
    simp [Attached, getAt, hn]
  · simp [Attached, entries_getAt hn he, he]

lemma attachedCount_getAt : (M.getAt now nte).1.attachedCount = M.attachedCount + 1 := by
  have hfresh : (M.getAt now nte).1.fresh = M.fresh + 1 := by simp [getAt, hn]
  have hsame : ∀ e ∈ List.range M.fresh,
      (decide ((M.getAt now nte).1.Attached e) = true ↔ decide (M.Attached e) = true) := by
    intro e he
    have hne : e ≠ M.fresh := (mem_range.mp he).ne
    simp [attached_getAt hn, hne]
  have hlast : (M.getAt now nte).1.Attached M.fresh := (attached_getAt hn).mpr (.inl rfl)
  rw [attachedCount, hfresh, range_succ, countP_append, countP_congr hsame]
  simp [attachedCount, hlast]

end

lemma Inv.rescheduled_getAt (h : Inv M requested) (hn : M.entryOf nte = none) (now : ℤ) :
    Rescheduled M (M.getAt now nte).1 M.fresh (now + initialLifetime) := by
  refine ⟨fun x => attached_getAt hn, by simp [getAt, hn], by simp [getAt, hn],
    fun x hx => entries_getAt hn hx, by simp [getAt, hn],
    M.scheduled, by simp [getAt, hn], h.nodup, fun ev => ?_⟩
  refine ⟨fun hev => ⟨fun he => ?_, hev⟩, fun hev => hev.2⟩
  have ha := ((h.mem_scheduled ev).mp hev).1
  rw [he] at ha
  exact h.not_attached_fresh ha

lemma Inv.getAt_new (h : Inv M requested) (hn : M.entryOf nte = none) :
    Inv (M.getAt now nte).1
      (update requested M.fresh [now + initialLifetime]) := by
  have hr := h.rescheduled_getAt hn now
  refine ⟨?_, ?_, h.mem_rescheduled hr, hr.nodup, h.cleanup_lt_rescheduled hr,
    h.cleanup_inj_rescheduled hr, ?_, ?_⟩
  · intro n e
    rw [entryOf_getAt hn, nameTreeEntry_getAt hn]
    exact h.pointers.attach hn (by simpa [Attached] using h.not_attached_fresh) n e
  · intro e he
    have hfresh : (M.getAt now nte).1.fresh = M.fresh + 1 := by simp [getAt, hn]
    rw [hfresh]
    rcases (attached_getAt hn).mp he with rfl | he
    · exact Nat.lt_succ_self _
    · exact Nat.lt_succ_of_lt (h.lt_fresh e he)
  · intro e he
    rcases (attached_getAt hn).mp he with rfl | he
    · rw [hr.expiry]
      simp [IsGreatest, upperBounds]
    have hold : e ≠ M.fresh := (h.lt_fresh e he).ne
    rw [hr.others e hold, update_of_ne hold]
    exact h.expiry e he
  · rw [attachedCount_getAt hn, ← h.count]
    simp [getAt, hn]

/-! ### Extending a lifetime -/

lemma Inv.request (h : Inv M requested) {t : ℤ} (hle : M.Attached e → t ≤ (M.entries e).expiry) :
    Inv M (update requested e (t :: requested e)) := by
  refine ⟨h.entryOf_iff, h.lt_fresh, h.mem_scheduled, h.nodup, h.cleanup_lt, h.cleanup_inj, ?_,
    h.count⟩
  intro x hx
  by_cases hxe : x = e
  · subst hxe
    obtain ⟨hmem, hub⟩ := h.expiry x hx
    rw [update_self]
    refine ⟨mem_cons_of_mem _ hmem, ?_⟩
    rintro u hu
    rcases mem_cons.mp hu with rfl | hu
    · exact hle hx
    · exact hub hu
  · rw [update_of_ne hxe]
    exact h.expiry x hx

def extended (M : Measurements C) (e : MeasurementsId) (t : ℤ) : Measurements C :=
  { M with
    entries := update M.entries e
      { M.entries e with expiry := t, cleanup := M.nextEvent }
    scheduled := M.scheduled.filter (·.id ≠ (M.entries e).cleanup) ++ [⟨M.nextEvent, e, t⟩]
    nextEvent := M.nextEvent + 1 }

lemma Inv.extendLifetime_cases (h : Inv M requested) (now : ℤ) (e : MeasurementsId) (lifetime : ℤ) :
    (M.extendLifetime now e lifetime = M ∧
      (M.Attached e → now + lifetime ≤ (M.entries e).expiry)) ∨
    M.extendLifetime now e lifetime = M.extended e (now + lifetime) ∧ M.Attached e ∧
      (M.entries e).expiry < now + lifetime := by
  cases hn : (M.entries e).nameTreeEntry with
  | none =>
    left
    simp [extendLifetime, Attached, hn]
  | some nte =>
    have hentry := (h.entryOf_iff nte e).mpr hn
    by_cases hle : now + lifetime ≤ (M.entries e).expiry
    · left
      simp [extendLifetime, hn, hentry, hle]
    right
    refine ⟨?_, by simp [Attached, hn], Int.not_le.mp hle⟩
    simp only [extendLifetime, extended, hn]
    rw [if_pos hentry, if_neg hle]

lemma entries_extended {t : ℤ} (x : MeasurementsId) : (M.extended e t).entries x =
    if x = e then { M.entries e with expiry := t, cleanup := M.nextEvent } else M.entries x := by
  simp [extended, update_apply]

lemma nameTreeEntry_extended {t : ℤ} (x : MeasurementsId) :
    ((M.extended e t).entries x).nameTreeEntry = (M.entries x).nameTreeEntry := by
  rw [entries_extended]
  split
  next hx =>
    rw [hx]
  · rfl

lemma attached_extended {t : ℤ} (x : MeasurementsId) :
    (M.extended e t).Attached x ↔ M.Attached x := by
  rw [Attached, Attached, nameTreeEntry_extended]

section

variable (h : Inv M requested) (he : M.Attached e)
include h he

lemma Inv.mem_filter_iff (ev : Scheduled) :
    ev ∈ M.scheduled.filter (·.id ≠ (M.entries e).cleanup) ↔
      ev.entry ≠ e ∧ ev ∈ M.scheduled := by
  rw [mem_filter, and_comm]
  refine and_congr_left fun hmem => ?_
  obtain ⟨ha, hev⟩ := (h.mem_scheduled ev).mp hmem
  have hid : ev.id = (M.entries ev.entry).cleanup := congrArg Scheduled.id hev
  rw [decide_eq_true_eq, hid]
  exact not_congr ⟨h.cleanup_inj _ _ ha he, fun hc => by rw [hc]⟩

lemma Inv.rescheduled_extended (t : ℤ) : Rescheduled M (M.extended e t) e t := by
  refine ⟨fun x => ?_, ?_, ?_, fun x hx => ?_, rfl, _, rfl, h.nodup.filter _, h.mem_filter_iff he⟩
  · rw [attached_extended]
    exact ⟨.inr, fun hx => hx.elim (fun hx => hx ▸ he) id⟩
  · rw [entries_extended, if_pos rfl]
  · rw [entries_extended, if_pos rfl]
  · rw [entries_extended, if_neg hx]

lemma Inv.extended {t : ℤ} (hlt : (M.entries e).expiry < t) :
    Inv (M.extended e t) (update requested e (t :: requested e)) := by
  have hr := h.rescheduled_extended he t
  refine ⟨?_, ?_, h.mem_rescheduled hr, hr.nodup, h.cleanup_lt_rescheduled hr,
    h.cleanup_inj_rescheduled hr, ?_, ?_⟩
  · intro nte x
    rw [nameTreeEntry_extended]
    exact h.entryOf_iff nte x
  · intro x hx
    exact h.lt_fresh x ((attached_extended x).mp hx)
  · intro x hx
    rw [attached_extended] at hx
    by_cases hxe : x = e
    · subst hxe
      rw [hr.expiry, update_self]
      refine ⟨mem_cons_self, ?_⟩
      rintro u hu
      rcases mem_cons.mp hu with rfl | hu
      · exact le_rfl
      · exact ((h.expiry x hx).2 hu).trans hlt.le
    · rw [hr.others x hxe, update_of_ne hxe]
      exact h.expiry x hx
  · rw [show (M.extended e t).nItems = M.nItems from rfl, h.count, attachedCount, attachedCount]
    exact countP_congr fun x _ => by simp [attached_extended]

end

lemma Inv.extendLifetime (h : Inv M requested) (now : ℤ) (e : MeasurementsId) (lifetime : ℤ) :
    Inv (M.extendLifetime now e lifetime)
      (update requested e ((now + lifetime) :: requested e)) := by
  rcases h.extendLifetime_cases now e lifetime with ⟨heq, hle⟩ | ⟨heq, he, hlt⟩
  · rw [heq]
    exact h.request hle
  · rw [heq]
    exact h.extended he hlt

/-! ### Cleaning up -/

def removed (M : Measurements C) (e : MeasurementsId) (nte : EntryId) (T : NameTree C) :
    Measurements C :=
  { M with
    tree := T
    entryOf := update M.entryOf nte none
    entries := update M.entries e { M.entries e with nameTreeEntry := none }
    scheduled := M.scheduled.filter (·.id ≠ (M.entries e).cleanup)
    nItems := M.nItems - 1 }

lemma Inv.runEvent_spec (h : Inv M requested) {event : EventId} {M' : Measurements C}
    (hr : M.runEvent now event = some M') :
    ∃ e nte T, M.Attached e ∧ (M.entries e).expiry ≤ now ∧
      (M.entries e).nameTreeEntry = some nte ∧ M' = M.removed e nte T := by
  obtain ⟨ev, hfind, hev⟩ := bind_eq_some_iff.mp hr
  have hid : ev.id = event := by simpa using find?_some hfind
  obtain ⟨ha, heq⟩ := (h.mem_scheduled ev).mp (mem_of_find?_eq_some hfind)
  obtain rfl : (M.entries ev.entry).cleanup = event := (congrArg Scheduled.id heq).symm.trans hid
  have hdue : ev.due = (M.entries ev.entry).expiry := congrArg Scheduled.due heq
  obtain ⟨nte, hn⟩ := ne_none_iff_exists'.mp ha
  have hentry := (h.entryOf_iff nte _).mpr hn
  split at hev
  next hle =>
    simp only [cleanup, hn, unset, hentry] at hev
    obtain ⟨T, -, rfl⟩ := map_eq_some_iff.mp hev
    exact ⟨ev.entry, nte, T, ha, hdue ▸ hle, hn, rfl⟩
  · cases hev

lemma attached_removed (x : MeasurementsId) :
    (M.removed e nte T).Attached x ↔ x ≠ e ∧ M.Attached x := by
  by_cases hx : x = e
  · subst hx
    simp [removed, Attached]
  · simp [removed, Attached, hx]

lemma entries_removed (hx : x ≠ e) : (M.removed e nte T).entries x = M.entries x := by
  simp [removed, hx]

lemma nameTreeEntry_removed (x : MeasurementsId) : ((M.removed e nte T).entries x).nameTreeEntry =
      update (fun e => (M.entries e).nameTreeEntry) e none x := by
  by_cases hx : x = e <;> simp [removed, hx]

lemma Inv.removed (h : Inv M requested) (ha : M.Attached e)
    (hn : (M.entries e).nameTreeEntry = some nte) (T : NameTree C) :
    Inv (M.removed e nte T) requested := by
  refine ⟨?_, ?_, ?_, h.nodup.filter _, ?_, ?_, ?_, ?_⟩
  · intro n x
    rw [nameTreeEntry_removed]
    exact h.pointers.detach ((h.entryOf_iff nte e).mpr hn) n x
  · intro x hx
    exact h.lt_fresh x ((attached_removed x).mp hx).2
  · intro ev
    have hmem : ev ∈ (M.removed e nte T).scheduled ↔ ev.entry ≠ e ∧ ev ∈ M.scheduled :=
      h.mem_filter_iff ha ev
    rw [hmem, attached_removed, h.mem_scheduled, and_assoc]
    refine and_congr_right fun hx => ?_
    rw [show (M.removed e nte T).eventOf ev.entry = _ by rw [eventOf, entries_removed hx]]
    rfl
  · intro x hx
    rw [attached_removed] at hx
    rw [entries_removed hx.1]
    exact h.cleanup_lt x hx.2
  · intro x y hx hy heq
    rw [attached_removed] at hx hy
    rw [entries_removed hx.1, entries_removed hy.1] at heq
    exact h.cleanup_inj x y hx.2 hy.2 heq
  · intro x hx
    rw [attached_removed] at hx
    rw [entries_removed hx.1]
    exact h.expiry x hx.2
  have hnodup : ((List.range M.fresh).filter (M.Attached ·)).Nodup := nodup_range.filter _
  have hmem : e ∈ (List.range M.fresh).filter (M.Attached ·) := by simp [h.lt_fresh e ha, ha]
  have hcount : (M.removed e nte T).attachedCount =
      (((List.range M.fresh).filter (M.Attached ·)).erase e).length := by
    rw [hnodup.erase_eq_filter, List.filter_filter, attachedCount, countP_eq_length_filter]
    refine congrArg List.length (filter_congr fun x _ => ?_)
    by_cases hx : x = e <;> simp [attached_removed, hx]
  rw [hcount, length_erase_of_mem hmem, ← countP_eq_length_filter]
  exact congrArg (· - 1) h.count

/-! ### Whole runs -/

variable {s t : Recorded C}

lemma Recorded.inv_got (h : Inv s.table s.requested) (T : NameTree C) (now : ℤ) (nte : EntryId) :
    Inv (({ s.table with tree := T } : Measurements C).getAt now nte).1
      (s.got now (({ s.table with tree := T } : Measurements C).getAt now nte).1).requested := by
  cases hn : s.table.entryOf nte with
  | some e =>
    rw [getAt_some (M := { s.table with tree := T }) hn, Recorded.got, if_pos rfl]
    exact h.tree T
  | none =>
    have hfresh : (({ s.table with tree := T } : Measurements C).getAt now nte).1.fresh =
        s.table.fresh + 1 := by simp [getAt, hn]
    rw [Recorded.got, if_neg (by rw [hfresh]; exact Nat.succ_ne_self _)]
    exact (h.tree T).getAt_new hn

lemma attached_getAt_of_attached (T : NameTree C) (ha : M.Attached e) :
    (({ M with tree := T } : Measurements C).getAt now nte).1.Attached e := by
  cases hn : M.entryOf nte with
  | some x =>
    rw [getAt_some (M := { M with tree := T }) hn]
    exact ha
  | none => exact (attached_getAt (M := { M with tree := T }) hn).mpr (.inr ha)

end Invariant

variable {s t : Recorded C} {hash} {a : ℤ × Call C S}

lemma Recorded.step_cases (h : s.step hash a = some t) :
    (∃ T nte, t.table = (({ s.table with tree := T } : Measurements C).getAt a.1 nte).1 ∧
      t.requested = (s.got a.1 t.table).requested) ∨
    (∃ e lifetime, a.2 = .extendLifetime e lifetime ∧
      t.table = s.table.extendLifetime a.1 e lifetime ∧
      t.requested = update s.requested e ((a.1 + lifetime) :: s.requested e)) ∨
    (∃ event, a.2 = .cleanup event ∧ s.table.runEvent a.1 event = some t.table ∧
      t.requested = s.requested) ∨
    ∃ T, t.table = { s.table with tree := T } ∧ t.requested = s.requested := by
  obtain ⟨now, call⟩ := a
  unfold Recorded.step at h
  split at h
  · cases call with
    | get name =>
      obtain ⟨r, hr, rfl⟩ := map_eq_some_iff.mp h
      obtain ⟨nte, -, rfl⟩ := map_eq_some_iff.mp hr
      exact .inl ⟨_, nte, rfl, rfl⟩
    | getFib nte fibPrefix =>
      obtain ⟨r, hr, rfl⟩ := map_eq_some_iff.mp h
      cases nte with
      | some nte =>
        cases hr
        exact .inl ⟨s.table.tree, nte, rfl, rfl⟩
      | none =>
        simp only [getFib] at hr
        split at hr
        · obtain ⟨nte, -, rfl⟩ := map_eq_some_iff.mp hr
          exact .inl ⟨_, nte, rfl, rfl⟩
        · cases hr
    | getPit pitEntry =>
      obtain ⟨r, hr, rfl⟩ := map_eq_some_iff.mp h
      obtain ⟨nte, -, rfl⟩ := map_eq_some_iff.mp hr
      exact .inl ⟨_, nte, rfl, rfl⟩
    | getParent child =>
      obtain ⟨r, hr, rfl⟩ := map_eq_some_iff.mp h
      unfold getParent at hr
      split at hr
      · cases hr
        exact .inr (.inr (.inr ⟨s.table.tree, rfl, if_pos rfl⟩))
      obtain ⟨nte, -, hr⟩ := bind_eq_some_iff.mp hr
      obtain ⟨parent, -, rfl⟩ := map_eq_some_iff.mp hr
      exact .inl ⟨s.table.tree, parent, rfl, rfl⟩
    | extendLifetime e lifetime =>
      cases h
      exact .inr (.inl ⟨e, lifetime, rfl, rfl, rfl⟩)
    | cleanup event =>
      obtain ⟨M, hM, rfl⟩ := map_eq_some_iff.mp h
      exact .inr (.inr (.inl ⟨event, rfl, hM, rfl⟩))
    | others tree =>
      cases h
      exact .inr (.inr (.inr ⟨tree, rfl, rfl⟩))
  · cases h

lemma Recorded.inv_step (h : Inv s.table s.requested) (hs : s.step hash a = some t) :
    Inv t.table t.requested := by
  rcases Recorded.step_cases hs with ⟨T, nte, htab, hreq⟩ | ⟨e, lifetime, -, htab, hreq⟩ |
    ⟨event, -, hrun, hreq⟩ | ⟨T, htab, hreq⟩
  · rw [hreq, htab]
    exact Recorded.inv_got h T a.1 nte
  · rw [hreq, htab]
    exact h.extendLifetime a.1 e lifetime
  · obtain ⟨e, nte, T, ha, -, hn, heq⟩ := h.runEvent_spec hrun
    rw [hreq, heq]
    exact h.removed ha hn T
  · rw [hreq, htab]
    exact h.tree T

lemma Recorded.removed_of_step (h : Inv s.table s.requested) (hs : s.step hash a = some t)
    {e : MeasurementsId} (ha : s.table.Attached e) (hgone : ¬ t.table.Attached e) :
    ∀ u ∈ s.requested e, u ≤ a.1 := by
  rcases Recorded.step_cases hs with ⟨T, nte, htab, -⟩ | ⟨x, lifetime, -, htab, -⟩ |
    ⟨event, -, hrun, -⟩ | ⟨T, htab, -⟩
  · rw [htab] at hgone
    exact absurd (attached_getAt_of_attached T ha) hgone
  · refine absurd ?_ hgone
    rw [htab]
    rcases h.extendLifetime_cases a.1 x lifetime with ⟨heq, -⟩ | ⟨heq, -⟩
    · rwa [heq]
    · rw [heq]
      exact (attached_extended e).mpr ha
  · obtain ⟨x, nte, T, -, hle, -, heq⟩ := h.runEvent_spec hrun
    obtain rfl : e = x := by
      by_contra hne
      exact hgone (heq ▸ (attached_removed e).mpr ⟨hne, ha⟩)
    intro u hu
    exact ((h.expiry e ha).2 hu).trans hle
  · rw [htab] at hgone
    exact absurd ha hgone

omit [DecidableEq C] in
lemma inv_new (T : NameTree C) : Inv ({ tree := T } : Measurements C) fun _ => [] := by
  refine ⟨?_, ?_, ?_, nodup_nil, ?_, ?_, ?_, rfl⟩ <;> simp [Attached]

lemma Recorded.inv_run {now : ℤ} (h : Reach
    (Recorded.step (S := S) hash) Any { table := { tree := T }, now := now } s) :
    Inv s.table s.requested :=
  h.invariant (I := fun s => Inv s.table s.requested) (inv_new T)
    fun _ _ _ hi _ hs => Recorded.inv_step hi hs

omit [DecidableEq C] in
lemma Inv.filter_scheduled {M : Measurements C} {requested : MeasurementsId → List ℤ}
    {e : MeasurementsId} (h : Inv M requested) (ha : M.Attached e) :
    M.scheduled.filter (·.entry = e) = [M.eventOf e] := by
  have hall : ∀ ev ∈ M.scheduled.filter (·.entry = e), ev = M.eventOf e := by
    intro ev hev
    obtain ⟨hmem, hentry⟩ := mem_filter.mp hev
    have heq := ((h.mem_scheduled ev).mp hmem).2
    rwa [of_decide_eq_true hentry] at heq
  have hmem : M.eventOf e ∈ M.scheduled.filter (·.entry = e) :=
    mem_filter.mpr ⟨(h.mem_scheduled _).mpr ⟨ha, rfl⟩, by simp [eventOf]⟩
  exact perm_singleton.mp
    ((perm_ext_iff_of_nodup (h.nodup.filter _) (nodup_singleton _)).mpr fun ev =>
      ⟨fun hev => mem_singleton.mpr (hall ev hev),
        fun hev => mem_singleton.mp hev ▸ hmem⟩)

/-- In every run, each attached entry has exactly one pending event, due at its expiry time, which
is the latest end of a lifetime asked for it; no event is pending for another entry; the entries
are counted; and no entry is removed before the end of a lifetime granted to it. -/
theorem expiry_of_run {T : NameTree C} {now : ℤ} (h : Reach
    (Recorded.step (S := S) hash) Any { table := { tree := T }, now := now } s) :
    (∀ e, s.table.Attached e →
      s.table.scheduled.filter (·.entry = e) =
        [⟨(s.table.entries e).cleanup, e, (s.table.entries e).expiry⟩] ∧
      IsGreatest {u | u ∈ s.requested e} (s.table.entries e).expiry) ∧
    (∀ ev ∈ s.table.scheduled, s.table.Attached ev.entry) ∧
    s.table.nItems = s.table.attachedCount ∧
    ∀ (a : ℤ × Call C S) t e, s.step hash a = some t → s.table.Attached e →
      ¬ t.table.Attached e → ∀ u ∈ s.requested e, u ≤ a.1 := by
  have hinv := Recorded.inv_run h
  refine ⟨fun e ha => ⟨hinv.filter_scheduled ha, hinv.expiry e ha⟩, ?_, hinv.count, ?_⟩
  · intro ev hev
    exact ((hinv.mem_scheduled ev).mp hev).1
  · intro a t e hs ha hgone
    exact Recorded.removed_of_step hinv hs ha hgone

def sampleCalls : List (ℤ × Call Unit Unit) :=
  [(0, .get []), (10 ^ 9, .extendLifetime 0 (10 ^ 10))]

theorem expiry_of_run_extended :
    ∃ s, run (Recorded.step (S := Unit) NameTree.wideHash)
        { table := { tree := .new 4 }, now := 0 } sampleCalls = some s ∧
      s.table.scheduled.filter (·.entry = 0) = [⟨1, 0, 11 * 10 ^ 9⟩] := by
  have hreach : Reach (Recorded.step NameTree.wideHash) Any
      { table := { tree := .new 4 }, now := 0 } _ :=
    reach_of_run (l := sampleCalls) .init rfl
  exact ⟨_, rfl, ((expiry_of_run hreach).1 0 (by decide)).1⟩

end Measurements

end NfdGateway
