import NfdGateway.NameTree.LongestPrefix

/-! The Pending Interest Table. Its entries are attached to name tree entries; an Interest
whose name ends in an implicit digest is attached one level up. -/
namespace NfdGateway

open Function

structure Interest (C S : Type) where
  name : Name C
  selectors : S
deriving DecidableEq

structure PitEntry (C S : Type) where
  interest : Interest C S
  nameTreeEntry : Option EntryId := none
deriving DecidableEq

structure Pit (C S : Type) where
  tree : NameTree C
  entries : PitEntryId → Option (PitEntry C S) := fun _ => none
  fresh : PitEntryId := 0
  nItems : ℕ := 0

namespace Pit

variable {C S : Type} [DecidableEq C] [DecidableEq S] (hash : C → Hash)
  (isImplicitSha256Digest : C → Bool)

def isEndWithDigest (name : Name C) : Bool := name.getLast?.any isImplicitSha256Digest

def treeName (name : Name C) : Name C :=
  if isEndWithDigest isImplicitSha256Digest name then name.dropLast else name

def sameInterest (P : Pit C S) (interest : Interest C S) (nteNameLen : ℕ) (e : PitEntryId) : Bool :=
  match P.entries e with
  | none => false
  | some entry => entry.interest.name.drop nteNameLen = interest.name.drop nteNameLen ∧
      entry.interest.selectors = interest.selectors

def insertPitEntry (P : Pit C S) (nte : EntryId) (interest : Interest C S) : Pit C S :=
  let tables := (P.tree.entries nte).tables
  { tree := P.tree.setTables nte { tables with pitEntries := tables.pitEntries ++ [P.fresh] }
    entries := update P.entries P.fresh (some ⟨interest, some nte⟩)
    fresh := P.fresh + 1
    nItems := P.nItems + 1 }

def findOrInsert (P : Pit C S) (interest : Interest C S) (allowInsert : Bool) :
    Pit C S × Option PitEntryId × Bool :=
  let r := P.tree.lookup hash (treeName isImplicitSha256Digest interest.name)
  let P := { P with tree := r.1 }
  match r.2 with
  | none => (P, none, false)
  | some nte =>
    let entry := P.tree.entries nte
    match entry.tables.pitEntries.find? (P.sameInterest interest entry.pfx.length) with
    | some e => (P, some e, false)
    | none =>
      if allowInsert then (P.insertPitEntry nte interest, some P.fresh, true)
      else (P, none, true)

def insert (P : Pit C S) (interest : Interest C S) : Pit C S × Option PitEntryId × Bool :=
  P.findOrInsert hash isImplicitSha256Digest interest true

def find (P : Pit C S) (interest : Interest C S) : Pit C S × Option PitEntryId :=
  let r := P.findOrInsert hash isImplicitSha256Digest interest false
  (r.1, r.2.1)

/-- `NameTree::get(pitEntry)`: the entry it is attached to if that has as many components,
else a lookup of the full name. -/
def get (T : NameTree C) (entry : PitEntry C S) : NameTree C × Option EntryId :=
  match entry.nameTreeEntry with
  | none => (T, none)
  | some nte =>
    if (T.entries nte).pfx.length = entry.interest.name.length then (T, some nte)
    else T.lookup hash entry.interest.name

def erasePitEntry (T : NameTree C) (nte : EntryId) (e : PitEntryId) : Option (NameTree C) :=
  let tables := (T.entries nte).tables
  if e ∈ tables.pitEntries then
    some (T.setTables nte { tables with pitEntries := swapRemove tables.pitEntries e })
  else none

def erase (P : Pit C S) (e : PitEntryId) : Option (Pit C S) := do
  let entry ← P.entries e
  let r := get hash P.tree entry
  let nte ← r.2
  let T ← erasePitEntry r.1 nte e
  let r ← T.eraseEntryIfEmpty nte
  return { P with
    tree := r.1
    entries := update P.entries e (some { entry with nameTreeEntry := none })
    nItems := P.nItems - 1 }

def findAllDataMatches (P : Pit C S) (dataName : Name C) (matchesData : Interest C S → Bool) :
    List PitEntryId :=
  (P.tree.findAllMatches hash dataName TreeEntry.hasPitEntries).flatMap fun id =>
    (P.tree.entries id).tables.pitEntries.filter fun e =>
      (P.entries e).any fun entry => matchesData entry.interest

end Pit

end NfdGateway
