import NfdGateway.Table.DeadNonceList

/-! The events of a Dead Nonce List: two callbacks that schedule themselves again, and the ids by
which the destructor cancels them. -/
namespace NfdGateway.DeadNonceList

open Transition List Option

inductive Callback
  | mark
  | adjustCapacity
deriving DecidableEq

structure Live where
  list : DeadNonceList
  scheduled : List (ℕ × Callback)
  nextEvent : ℕ
  markEvent : ℕ
  adjustCapacityEvent : ℕ

namespace Live

def new : Live where
  list := .new
  scheduled := [(0, .mark), (1, .adjustCapacity)]
  nextEvent := 2
  markEvent := 0
  adjustCapacityEvent := 1

def schedule (s : Live) (callback : Callback) : Live :=
  { s with
    scheduled := s.scheduled ++ [(s.nextEvent, callback)]
    nextEvent := s.nextEvent + 1 }

def call (s : Live) : Callback → Option Live
  | .mark => some { s.schedule .mark with list := s.list.mark }
  | .adjustCapacity => s.list.adjustCapacity.map fun list =>
      { s.schedule .adjustCapacity with list := list, adjustCapacityEvent := s.nextEvent }

def destroy (s : Live) : List (ℕ × Callback) :=
  s.scheduled.filter fun e => e.1 ≠ s.markEvent ∧ e.1 ≠ s.adjustCapacityEvent

inductive Action (N : Type)
  | add (name : N) (nonce : BitVec 32)
  | fire (event : ℕ × Callback)

variable {N : Type} {makeEntry : N → BitVec 32 → BitVec 64} {s t : Live} {l : List (Action N)}
  {a : Action N} {id m : ℕ}

def step (makeEntry : N → BitVec 32 → BitVec 64) (s : Live) : Action N → Option Live
  | .add name nonce => (s.list.add makeEntry name nonce).map fun list => { s with list := list }
  | .fire event =>
    if event ∈ s.scheduled then
      { s with scheduled := s.scheduled.erase event }.call event.2
    else none

structure EventsHeld (s : Live) : Prop where
  scheduled : s.scheduled.Perm [(s.markEvent, .mark), (s.adjustCapacityEvent, .adjustCapacity)]
  cancelled : s.destroy = []

structure Armed (l : List (Action N)) (s : Live) (m : ℕ) : Prop where
  scheduled : s.scheduled.Perm [(m, .mark), (s.adjustCapacityEvent, .adjustCapacity)]
  markEvent_lt : s.markEvent < s.nextEvent
  held_iff : m = s.markEvent ↔ ∀ id, .fire (id, .mark) ∉ l

lemma armed_new : Armed ([] : List (Action N)) new 0 :=
  ⟨.rfl, by decide, iff_of_true rfl fun _ => not_mem_nil⟩

section

variable (h : Armed l s m)
include h

lemma Armed.keep (ht : t.scheduled.Perm [(m, .mark), (t.adjustCapacityEvent, .adjustCapacity)])
    (hid : t.markEvent = s.markEvent) (hnext : s.nextEvent ≤ t.nextEvent)
    (ha : ∀ id, a ≠ .fire (id, .mark)) : Armed (l ++ [a]) t m := by
  refine ⟨ht, hid ▸ h.markEvent_lt.trans_le hnext, ?_⟩
  rw [hid, h.held_iff]
  simp [fun id => (ha id).symm]

lemma Armed.mark (hm : (id, .mark) ∈ s.scheduled)
    (hst : { s with scheduled := s.scheduled.erase (id, .mark) }.call .mark = some t) :
    Armed (l ++ [.fire (id, .mark)]) t s.nextEvent := by
  obtain rfl := some.inj hst
  obtain rfl : id = m := by simpa using h.scheduled.mem_iff.mp hm
  refine ⟨?_, h.markEvent_lt.trans (Nat.lt_succ_self _), iff_of_false h.markEvent_lt.ne' ?_⟩
  · refine (perm_append_singleton _ _).trans (.cons _ ?_)
    simpa [schedule] using h.scheduled.erase (id, Callback.mark)
  · intro hall
    exact hall id (mem_append_right _ (.head _))

lemma Armed.adjustCapacity (hm : (id, .adjustCapacity) ∈ s.scheduled)
    (hst : { s with scheduled := s.scheduled.erase (id, .adjustCapacity) }.call .adjustCapacity =
      some t) : Armed (l ++ [.fire (id, .adjustCapacity)]) t m := by
  obtain ⟨list, -, rfl⟩ := map_eq_some_iff.mp hst
  obtain rfl : id = s.adjustCapacityEvent := by simpa using h.scheduled.mem_iff.mp hm
  refine h.keep ?_ rfl (Nat.le_succ _) (by simp)
  have herase := h.scheduled.erase (s.adjustCapacityEvent, Callback.adjustCapacity)
  exact (by simpa using herase : (s.scheduled.erase _).Perm [(m, Callback.mark)]).append_right _

lemma Armed.step (hst : s.step makeEntry a = some t) : ∃ m', Armed (l ++ [a]) t m' := by
  cases a with
  | add name nonce =>
    obtain ⟨list, -, rfl⟩ := map_eq_some_iff.mp hst
    exact ⟨m, h.keep h.scheduled rfl (Nat.le_refl _) (by simp)⟩
  | fire event =>
    obtain ⟨id, callback⟩ := event
    obtain ⟨hmem, hst⟩ := ite_none_right_eq_some.mp hst
    cases callback with
    | mark => exact ⟨_, h.mark hmem hst⟩
    | adjustCapacity => exact ⟨m, h.adjustCapacity hmem hst⟩

lemma Armed.eventsHeld_iff : s.EventsHeld ↔ m = s.markEvent := by
  constructor
  · intro hheld
    simpa using (h.scheduled.symm.trans hheld.scheduled).subset (.head _)
  rintro rfl
  refine ⟨h.scheduled, filter_eq_nil_iff.mpr fun e he => ?_⟩
  have := h.scheduled.subset he
  aesop

end

/-- The list holds its events, and loses them at destruction, until the first mark fires. -/
theorem eventsHeld_iff_unmarked (h : Path (step makeEntry) Any new l s) :
    s.EventsHeld ↔ ∀ id, .fire (id, .mark) ∉ l := by
  obtain ⟨m, hm⟩ := h.invariant (I := fun l s => ∃ m, Armed l s m) ⟨0, armed_new⟩ <| by
    rintro l s a t ⟨m, hm⟩ - hst
    exact hm.step hst
  rw [hm.eventsHeld_iff, hm.held_iff]

def sampleActions : List (Action ℕ) := [.add 7 1, .fire (1, .adjustCapacity)]

theorem eventsHeld_iff_unmarked_adjusted :
    ∃ s, run (step sampleEntry) new sampleActions = some s ∧ s.EventsHeld := by
  obtain ⟨s, hs⟩ := isSome_iff_exists.mp
    (show (run (step sampleEntry) new sampleActions).isSome from rfl)
  refine ⟨s, hs, (eventsHeld_iff_unmarked (path_of_run (fun _ _ => trivial) hs)).mpr ?_⟩
  simp [sampleActions]

/-- The second mark is still scheduled when the list is gone. -/
theorem mark_after_destroy : ∃ s,
    run (step sampleEntry) new [.fire (0, .mark)] = some s ∧
    s.destroy = [(2, .mark)] ∧ ¬ s.EventsHeld := by
  refine ⟨_, rfl, by decide, fun h => ?_⟩
  have := h.cancelled
  revert this
  decide

end Live

end NfdGateway.DeadNonceList
