import NfdGateway.Lib.Chained

/-! The name tree: a hash table of all stored names whose entries also form a tree. Entries
are heap objects known by their id; the nodes of a bucket are a chain of ids. -/
namespace NfdGateway

open Function

abbrev Name (C : Type) := List C

abbrev Hash := BitVec 64

abbrev EntryId := ℕ

abbrev PitEntryId := ℕ

/-- What the other tables attach to a name tree entry; of FIB, measurements and strategy
choice entries the tree only asks whether they are there. -/
structure TableEntries where
  fibEntry : Bool := false
  pitEntries : List PitEntryId := []
  measurementsEntry : Bool := false
  strategyChoiceEntry : Bool := false
deriving DecidableEq

def TableEntries.isEmpty (t : TableEntries) : Bool :=
  !t.fibEntry && t.pitEntries.isEmpty && !t.measurementsEntry && !t.strategyChoiceEntry

structure TreeEntry (C : Type) where
  hash : Hash := 0
  pfx : Name C := []
  parent : Option EntryId := none
  children : List EntryId := []
  tables : TableEntries := {}
deriving DecidableEq

def TreeEntry.isEmpty {C : Type} (e : TreeEntry C) : Bool :=
  e.children.isEmpty && e.tables.isEmpty

def TreeEntry.hasPitEntries {C : Type} (e : TreeEntry C) : Bool := !e.tables.pitEntries.isEmpty

structure NameTree (C : Type) where
  entries : EntryId → TreeEntry C := fun _ => {}
  fresh : EntryId := 0
  buckets : List (List EntryId)
  nItems : ℕ := 0
  minNBuckets : ℕ

section Hashing

variable {C : Type} (hash : C → Hash)

def computeHash (name : Name C) : Hash := name.foldl (fun h c => h ^^^ hash c) 0

def computeHashSet (name : Name C) : List Hash :=
  (name.foldl (fun s c => (s.1 ^^^ hash c, s.2 ++ [s.1 ^^^ hash c])) ((0 : Hash), [0])).2

end Hashing

def swapRemove {α : Type} [DecidableEq α] (l : List α) (x : α) : List α :=
  if x ∈ l then (l.set (l.idxOf x) (l.getLastD x)).dropLast else l

namespace NameTree

variable {C : Type} [DecidableEq C] (hash : C → Hash)

def new (nBuckets : ℕ) : NameTree C where
  buckets := List.replicate nBuckets []
  minNBuckets := nBuckets

def nBuckets (T : NameTree C) : ℕ := T.buckets.length

/-- `size_t(0.5 * n)`, exact below 2^50. -/
def enlargeThreshold (T : NameTree C) : ℕ := T.nBuckets / 2

/-- `size_t(0.1 * n)`. -/
def shrinkThreshold (T : NameTree C) : ℕ := T.nBuckets / 10

def setEntry (T : NameTree C) (id : EntryId) (e : TreeEntry C) : NameTree C :=
  { T with entries := update T.entries id e }

def linked (T : NameTree C) : List EntryId := T.buckets.flatten

def bucket (T : NameTree C) (h : Hash) : List EntryId :=
  Chained.chain T.buckets (h.toNat % T.nBuckets)

def resizeIndex (newNBuckets : ℕ) (h : Hash) : ℕ := h.toNat % 2 ^ 32 % newNBuckets

def resize (T : NameTree C) (newNBuckets : ℕ) : NameTree C :=
  { T with
    buckets := Chained.rehash (fun id => resizeIndex newNBuckets (T.entries id).hash)
      newNBuckets T.linked }

def insert (T : NameTree C) (name : Name C) : NameTree C × EntryId × Bool :=
  let h := computeHash hash name
  match (T.bucket h).find? fun id => (T.entries id).pfx = name with
  | some id => (T, id, false)
  | none =>
    ({ T with
        entries := update T.entries T.fresh { hash := h, pfx := name }
        fresh := T.fresh + 1
        buckets := Chained.push T.buckets (h.toNat % T.nBuckets) T.fresh }, T.fresh, true)

def adopt (T : NameTree C) (id : EntryId) (parent : Option EntryId) : NameTree C :=
  let T := { T with nItems := T.nItems + 1 }
  let T := T.setEntry id { T.entries id with parent := parent }
  match parent with
  | none => T
  | some p => T.setEntry p { T.entries p with children := (T.entries p).children ++ [id] }

def enlargeIfLoaded (T : NameTree C) : NameTree C :=
  if T.enlargeThreshold < T.nItems then T.resize (2 * T.nBuckets) else T

def lookupStep (s : NameTree C × Option EntryId) (temp : Name C) : NameTree C × Option EntryId :=
  let (T, id, isNew) := s.1.insert hash temp
  let T := if isNew then T.adopt id s.2 else T
  (T.enlargeIfLoaded, some id)

def lookup (T : NameTree C) (name : Name C) : NameTree C × Option EntryId :=
  name.inits.foldl (lookupStep hash) (T, none)

/-- Take the node of an entry out of its bucket. A node without predecessor is taken out of
the bucket its hash names; if it heads another one, that one is left with a dangling
pointer. -/
def unlinkNode (T : NameTree C) (id : EntryId) : Option (NameTree C) :=
  let loc := (T.entries id).hash.toNat % T.nBuckets
  match T.buckets.findIdx? (id ∈ ·) with
  | none => none
  | some b =>
    if (Chained.chain T.buckets b).head? = some id ∧ b ≠ loc then none
    else some { T with buckets := Chained.unlink T.buckets b id, nItems := T.nItems - 1 }

def removeChild (T : NameTree C) (id : EntryId) : Option EntryId → NameTree C
  | none => T
  | some p =>
    T.setEntry p { T.entries p with children := swapRemove (T.entries p).children id }

def shrinkIfSparse (T : NameTree C) : NameTree C :=
  if T.minNBuckets ≤ T.nBuckets / 2 ∧ T.nItems < T.shrinkThreshold then
    T.resize (T.nBuckets / 2)
  else T

def eraseUpward : ℕ → NameTree C → EntryId → Option (NameTree C × Bool)
  | 0, _, _ => none
  | fuel + 1, T, id =>
    if (T.entries id).isEmpty then
      let parent := (T.entries id).parent
      ((T.removeChild id parent).unlinkNode id).bind fun T =>
        match parent with
        | none => some (T.shrinkIfSparse, true)
        | some p => (eraseUpward fuel T p).map fun r => (r.1.shrinkIfSparse, true)
    else some (T, false)

def eraseEntryIfEmpty (T : NameTree C) (id : EntryId) : Option (NameTree C × Bool) :=
  eraseUpward ((T.entries id).pfx.length + 1) T id

def setTables (T : NameTree C) (id : EntryId) (t : TableEntries) : NameTree C :=
  T.setEntry id { T.entries id with tables := t }

def findExactMatch (T : NameTree C) (name : Name C) : Option EntryId :=
  let h := computeHash hash name
  (T.bucket h).find? fun id => (T.entries id).hash = h ∧ (T.entries id).pfx = name

def matchAt (T : NameTree C) (name : Name C) (entrySelector : TreeEntry C → Bool) (h : Hash) :
    Option EntryId :=
  (T.bucket h).find? fun id => (T.entries id).hash = h ∧ (T.entries id).pfx <+: name ∧
    entrySelector (T.entries id) = true

def findLongestPrefixMatch (T : NameTree C) (name : Name C)
    (entrySelector : TreeEntry C → Bool) : Option EntryId :=
  (computeHashSet hash name).reverse.findSome? (T.matchAt name entrySelector)

def walkUp (entries : EntryId → TreeEntry C) (entrySelector : TreeEntry C → Bool) :
    ℕ → Option EntryId → Option EntryId
  | 0, _ => none
  | _, none => none
  | fuel + 1, some id =>
    if entrySelector (entries id) then some id
    else walkUp entries entrySelector fuel (entries id).parent

def findLongestPrefixMatchFrom (T : NameTree C) (entry : Option EntryId)
    (entrySelector : TreeEntry C → Bool) : Option EntryId :=
  entry.bind fun id => walkUp T.entries entrySelector ((T.entries id).pfx.length + 1) (some id)

def selectedAncestors (entries : EntryId → TreeEntry C) (entrySelector : TreeEntry C → Bool) :
    ℕ → EntryId → List EntryId
  | 0, _ => []
  | fuel + 1, id =>
    match (entries id).parent with
    | none => []
    | some p =>
      if entrySelector (entries p) then p :: selectedAncestors entries entrySelector fuel p
      else selectedAncestors entries entrySelector fuel p

def findAllMatches (T : NameTree C) (name : Name C) (entrySelector : TreeEntry C → Bool) :
    List EntryId :=
  match T.findLongestPrefixMatch hash name entrySelector with
  | none => []
  | some id =>
    id :: selectedAncestors T.entries entrySelector (T.entries id).pfx.length id

end NameTree

end NfdGateway
