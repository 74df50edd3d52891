import NfdGateway.Cs.Store

/-! The priority FIFO policy: three queues of iterators, a record for each entry, and the events
that move entries to the stale queue. A record's `queueIt` is the place of its entry in the queue,
where it is only once. Records are found by the entries that iterators refer to, of which the set
has no two that are equivalent. -/
namespace NfdGateway.Cs

open Store Function

variable {C X : Type}

inductive QueueType
  | unsolicited | stale | fifo
deriving DecidableEq

abbrev EventId := ℕ

structure EntryInfo where
  queueType : QueueType
  moveStaleEventId : Option EventId := none

structure PriorityFifo where
  queues : QueueType → List EntryId := fun _ => []
  entryInfoMap : EntryId → Option EntryInfo := fun _ => none
  /-- The events of the scheduler that are pending, with the iterator each of them is bound to. -/
  scheduled : EventId → Option EntryId := fun _ => none
  nextEvent : EventId := 0

namespace PriorityFifo

def cancel (q : PriorityFifo) (event : Option EventId) : PriorityFifo :=
  { q with scheduled := fun id => if event = some id then none else q.scheduled id }

def link (q : PriorityFifo) (i : EntryId) (entryInfo : EntryInfo) : PriorityFifo :=
  { q with
    queues := update q.queues entryInfo.queueType (q.queues entryInfo.queueType ++ [i])
    entryInfoMap := update q.entryInfoMap i (some entryInfo) }

def unlink (q : PriorityFifo) (i : EntryId) (entryInfo : EntryInfo) : PriorityFifo :=
  { q with
    queues := update q.queues entryInfo.queueType
      ((q.queues entryInfo.queueType).erase i)
    entryInfoMap := update q.entryInfoMap i none }

/-- `none` where the assertion fails. -/
def attachQueue (q : PriorityFifo) (e : Entry C X) (now : Time) : Option PriorityFifo :=
  match q.entryInfoMap e.id with
  | some _ => none
  | none =>
    if e.isUnsolicited then some (q.link e.id { queueType := .unsolicited })
    else if e.isStale now then some (q.link e.id { queueType := .stale })
    else if e.canStale then
      let event := q.nextEvent
      let q := { q with
        nextEvent := event + 1
        scheduled := update q.scheduled event (some e.id) }
      some (q.link e.id { queueType := .fifo, moveStaleEventId := some event })
    else some (q.link e.id { queueType := .fifo })

def detachQueue (q : PriorityFifo) (i : EntryId) : Option PriorityFifo :=
  match q.entryInfoMap i with
  | none => none
  | some entryInfo =>
    let q := if entryInfo.queueType = .fifo then q.cancel entryInfo.moveStaleEventId else q
    some (q.unlink i entryInfo)

def moveToStaleQueue (q : PriorityFifo) (i : EntryId) : Option PriorityFifo :=
  match q.entryInfoMap i with
  | none => none
  | some entryInfo =>
    if entryInfo.queueType = .fifo then
      let q := { q with queues := update q.queues .fifo ((q.queues .fifo).erase i) }
      some (q.link i { entryInfo with queueType := .stale })
    else none

def front (q : PriorityFifo) : Option EntryId :=
  match q.queues .unsolicited, q.queues .stale, q.queues .fifo with
  | i :: _, _, _ => some i
  | [], i :: _, _ => some i
  | [], [], i :: _ => some i
  | [], [], [] => none

def evictOne (s : Store C X PriorityFifo) : Option (Store C X PriorityFifo) :=
  match s.policy.front with
  | none => none
  | some i =>
    (s.policy.detachQueue i).map fun q => { s with policy := q }.eraseEntry i

def evictEntries (s : Store C X PriorityFifo) : Option (Store C X PriorityFifo) :=
  evictWhile evictOne s.size s

def attachEntry (s : Store C X PriorityFifo) (i : EntryId) (now : Time) :
    Option (Store C X PriorityFifo) :=
  match s.entry? i with
  | none => none
  | some e => (s.policy.attachQueue e now).map fun q => { s with policy := q }

def policy : Policy C X PriorityFifo where
  doAfterInsert s i now := (attachEntry s i now).bind evictEntries
  doAfterRefresh s i now :=
    (s.policy.detachQueue i).bind fun q => attachEntry { s with policy := q } i now
  doBeforeUse s i := if (s.policy.entryInfoMap i).isSome then some s else none
  evictEntries := evictEntries

def fire (s : Store C X PriorityFifo) (event : EventId) : Option (Store C X PriorityFifo) :=
  match s.policy.scheduled event with
  | none => none
  | some i =>
    ((s.policy.cancel (some event)).moveToStaleQueue i).map fun q => { s with policy := q }

inductive Event (C X S : Type)
  | operation (op : Operation C X S)
  | moveToStale (event : EventId)

def step [LinearOrder C] {S : Type} (K : Components C)
    (matchesData : Interest C S → Data C X → Bool) (s : Store C X PriorityFifo) :
    Event C X S → Option (Store C X PriorityFifo)
  | .operation op => s.operate K policy matchesData op
  | .moveToStale event => fire s event

end PriorityFifo

end NfdGateway.Cs
