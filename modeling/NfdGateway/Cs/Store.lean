import NfdGateway.Cs.Entry

/-! The content store, over any replacement policy. -/
namespace NfdGateway.Cs

variable {C X S P : Type} [LinearOrder C]

def lowerBound (K : Components C) (table : List (Entry C X)) (key : EntryImpl C X) : ℕ :=
  (table.takeWhile fun e => EntryImpl.less K (.stored e.data) key).length

def insertEntry (K : Components C) (table : List (Entry C X)) (e : Entry C X) :
    List (Entry C X) × EntryId × Bool :=
  let position := lowerBound K table (.stored e.data)
  let inserted := (table.take position ++ e :: table.drop position, e.id, true)
  match table[position]? with
  | none => inserted
  | some other =>
    if EntryImpl.less K (.stored e.data) (.stored other.data) then inserted
    else (table, other.id, false)

def modifyEntry (table : List (Entry C X)) (i : EntryId) (f : Entry C X → Entry C X) :
    List (Entry C X) :=
  table.map fun e => if e.id = i then f e else e

structure Readings where
  construct : Time
  updateStaleTime : Time
  unsetUnsolicited : Time
  isStale : Time

def insertData (K : Components C) (table : List (Entry C X)) (id : EntryId) (data : Data C X)
    (isUnsolicited : Bool) (now : Readings) : List (Entry C X) × EntryId × Bool :=
  let e := Entry.setData ⟨id, data, isUnsolicited, none⟩ data isUnsolicited now.construct
  let (table, i, isNewEntry) := insertEntry K table e
  let table := modifyEntry table i fun e => e.updateStaleTime now.updateStaleTime
  if !isNewEntry then
    let table := modifyEntry table i fun e =>
      if e.isUnsolicited && !isUnsolicited then e.unsetUnsolicited now.unsetUnsolicited else e
    (table, i, isNewEntry)
  else (table, i, isNewEntry)

def findIf (p : Entry C X → Bool) (table : List (Entry C X)) (first last : ℕ) : Option ℕ :=
  if first ≤ last then some (first + ((table.take last).drop first).findIdx p) else none

def findLastIf (p : Entry C X → Bool) (table : List (Entry C X)) (first last : ℕ) : Option ℕ :=
  if first ≤ last then
    match ((table.take last).drop first).reverse.findIdx? p with
    | none => some last
    | some i => some (last - 1 - i)
  else none

def findRightmostLoop (K : Components C) (canSatisfy : Entry C X → Bool)
    (table : List (Entry C X)) (interestNameLength first last : ℕ) :
    (fuel right : ℕ) → Option ℕ
  | 0, _ => none
  | fuel + 1, right =>
    if right = first then some last
    else if right = 0 then none
    else
      match table[right - 1]? with
      | none => none
      | some prev =>
        if prev.data.name.length = interestNameLength then
          (findLastIf canSatisfy table first right).map fun matchExact =>
            if matchExact = right then last else matchExact
        else
          let left := lowerBound K table (.query (prev.data.name.take (interestNameLength + 1)))
          match findIf canSatisfy table left right with
          | none => none
          | some found =>
            if found ≠ right then some found
            else findRightmostLoop K canSatisfy table interestNameLength first last fuel left

def getSuccessor (K : Components C) (name : Name C) : Name C :=
  match name.getLast? with
  | none => []
  | some last => name.dropLast ++ [K.getSuccessor last]

/-- The lookup of `Cs::find`: the matching entry, if there is one. `now` gives the clock reading for
each entry that is looked at. -/
def search (K : Components C) (matchesData : Interest C S → Data C X → Bool)
    (table : List (Entry C X)) (interest : Interest C S) (now : EntryId → Time) :
    Option (Option (Entry C X)) :=
  let canSatisfy (e : Entry C X) : Bool := e.canSatisfy matchesData interest (now e.id)
  let first := lowerBound K table (.query interest.name)
  let last :=
    if 0 < interest.name.length then lowerBound K table (.query (getSuccessor K interest.name))
    else table.length
  let found :=
    if interest.childSelector = 1 then
      findRightmostLoop K canSatisfy table interest.name.length first last (table.length + 1) last
    else findIf canSatisfy table first last
  found.bind fun position =>
    if position = last then some none else table[position]?.map some

structure Store (C X P : Type) where
  table : List (Entry C X) := []
  nextId : EntryId := 0
  limit : ℕ
  policy : P

namespace Store

def size (s : Store C X P) : ℕ := s.table.length

def entryIds (s : Store C X P) : List EntryId := s.table.map (·.id)

def entry? (s : Store C X P) (i : EntryId) : Option (Entry C X) := s.table.find? (·.id = i)

def eraseEntry (s : Store C X P) (i : EntryId) : Store C X P :=
  { s with table := s.table.eraseP (·.id = i) }

end Store

/-- The virtual functions of `Policy` that the store calls; `none` where an assertion fails. The
time is the clock reading that `isStale` makes. -/
structure Policy (C X P : Type) where
  doAfterInsert : Store C X P → EntryId → Time → Option (Store C X P)
  doAfterRefresh : Store C X P → EntryId → Time → Option (Store C X P)
  doBeforeUse : Store C X P → EntryId → Option (Store C X P)
  evictEntries : Store C X P → Option (Store C X P)

def evictWhile (evictOne : Store C X P → Option (Store C X P)) :
    (fuel : ℕ) → Store C X P → Option (Store C X P)
  | fuel, s =>
    if s.limit < s.size then
      match fuel with
      | 0 => none
      | fuel + 1 => (evictOne s).bind (evictWhile evictOne fuel)
    else some s

namespace Store

def insert (K : Components C) (policy : Policy C X P) (s : Store C X P) (data : Data C X)
    (isUnsolicited : Bool) (now : Readings) : Option (Store C X P) :=
  if s.limit = 0 then some s
  else if data.noCache then some s
  else
    let inserted := insertData K s.table s.nextId data isUnsolicited now
    let s := { s with table := inserted.1, nextId := s.nextId + 1 }
    if !inserted.2.2 then policy.doAfterRefresh s inserted.2.1 now.isStale
    else policy.doAfterInsert s inserted.2.1 now.isStale

/-- The store, and the Data of a hit. -/
def find (K : Components C) (policy : Policy C X P)
    (matchesData : Interest C S → Data C X → Bool) (s : Store C X P) (interest : Interest C S)
    (now : EntryId → Time) : Option (Store C X P × Option (Data C X)) :=
  match search K matchesData s.table interest now with
  | none => none
  | some none => some (s, none)
  | some (some e) => (policy.doBeforeUse s e.id).map (·, some e.data)

def setLimit (policy : Policy C X P) (s : Store C X P) (nMaxPackets : ℕ) : Option (Store C X P) :=
  policy.evictEntries { s with limit := nMaxPackets }

end Store

inductive Operation (C X S : Type)
  | insert (data : Data C X) (isUnsolicited : Bool) (now : Readings)
  | find (interest : Interest C S) (now : EntryId → Time)
  | setLimit (nMaxPackets : ℕ)

def Store.operate (K : Components C) (policy : Policy C X P)
    (matchesData : Interest C S → Data C X → Bool) (s : Store C X P) :
    Operation C X S → Option (Store C X P)
  | .insert data isUnsolicited now => s.insert K policy data isUnsolicited now
  | .find interest now => (s.find K policy matchesData interest now).map (·.1)
  | .setLimit nMaxPackets => s.setLimit policy nMaxPackets

end NfdGateway.Cs
