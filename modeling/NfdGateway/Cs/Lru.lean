import NfdGateway.Cs.Store

/-! The LRU policy: one queue of iterators, which has no iterator twice. -/
namespace NfdGateway.Cs

open Store

variable {C X : Type}

structure Lru where
  queue : List EntryId := []

namespace Lru

/-- `none` where the assertion fails. -/
def insertToQueue (q : Lru) (i : EntryId) (isNewEntry : Bool) : Option Lru :=
  let isNew : Bool := i ∉ q.queue
  let queue := if isNew then q.queue ++ [i] else q.queue
  if isNew ≠ isNewEntry then none
  else if !isNewEntry then some { queue := queue.erase i ++ [i] }
  else some { queue := queue }

def evictOne (s : Store C X Lru) : Option (Store C X Lru) :=
  match s.policy.queue with
  | [] => none
  | i :: queue => some (eraseEntry { s with policy := { queue := queue } } i)

def evictEntries (s : Store C X Lru) : Option (Store C X Lru) := evictWhile evictOne s.size s

def touch (s : Store C X Lru) (i : EntryId) (isNewEntry : Bool) : Option (Store C X Lru) :=
  (s.policy.insertToQueue i isNewEntry).map fun q => { s with policy := q }

def policy : Policy C X Lru where
  doAfterInsert s i _ := (touch s i true).bind evictEntries
  doAfterRefresh s i _ := touch s i false
  doBeforeUse s i := touch s i false
  evictEntries := evictEntries

end Lru

end NfdGateway.Cs
