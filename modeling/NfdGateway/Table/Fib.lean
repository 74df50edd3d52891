import NfdGateway.Lib.Mutual
import NfdGateway.NameTree.Attach
import NfdGateway.NameTree.Enumerate
import NfdGateway.Table.FibEntry

/-! The Forwarding Information Base as a map from prefixes to nexthops. Its entries are attached
to nodes of the name tree, which it shares with the other tables. -/
namespace NfdGateway.Table

open List Option Function

abbrev FibEntryId := ℕ

structure Fib (C F : Type) where
  tree : NameTree C
  entryOf : EntryId → Option FibEntryId := fun _ => none
  entries : FibEntryId → Fib.Entry C F := fun _ => {}
  fresh : FibEntryId := 0
  nItems : ℕ := 0

namespace Fib

variable {C F : Type}

def setNextHops (B : Fib C F) (e : FibEntryId) (l : List (NextHop F)) : Fib C F :=
  { B with entries := update B.entries e { B.entries e with nextHops := l } }

def attach (B : Fib C F) (nte : EntryId) (pfx : Name C) : Fib C F where
  tree := B.tree.setHolds .fib nte true
  entryOf := update B.entryOf nte (some B.fresh)
  entries := update B.entries B.fresh { pfx := pfx, nameTreeEntry := some nte }
  fresh := B.fresh + 1
  nItems := B.nItems + 1

def unset (B : Fib C F) (nte : EntryId) : Fib C F :=
  match B.entryOf nte with
  | none => B
  | some e =>
    { B with
      entryOf := update B.entryOf nte none
      entries := update B.entries e { B.entries e with nameTreeEntry := none } }

/-- `erase(nameTreeEntry)`; `none` stands for undefined behaviour in the name tree. The counter
goes down whether or not there was an entry. -/
def eraseNode (B : Fib C F) (nte : EntryId) : Option (Fib C F) :=
  (B.tree.release .fib nte).map fun T => { B.unset nte with tree := T, nItems := B.nItems - 1 }

def eraseEntry (B : Fib C F) (e : FibEntryId) : Option (Fib C F) :=
  match (B.entries e).nameTreeEntry with
  | none => some B
  | some nte => B.eraseNode nte

section Lookup

variable [DecidableEq C] (hash : C → Hash)

def findExactMatch (B : Fib C F) (pfx : Name C) : Option FibEntryId :=
  (B.tree.findExactMatch hash pfx).bind B.entryOf

def insert (B : Fib C F) (pfx : Name C) : Option (Fib C F × FibEntryId × Bool) :=
  let r := B.tree.lookup hash pfx
  r.2.map fun nte =>
    match B.entryOf nte with
    | some e => ({ B with tree := r.1 }, e, false)
    | none => ({ B with tree := r.1 }.attach nte pfx, B.fresh, true)

def erase (B : Fib C F) (pfx : Name C) : Option (Fib C F) :=
  match B.tree.findExactMatch hash pfx with
  | none => some B
  | some nte => B.eraseNode nte

end Lookup

section Faces

variable [DecidableEq F]

def removeNextHopAt (face : F) (s : Fib C F × List FibEntryId) (nte : EntryId) :
    Fib C F × List FibEntryId :=
  match s.1.entryOf nte with
  | none => s
  | some e =>
    let nextHops := removeNextHop (s.1.entries e).nextHops face
    (s.1.setNextHops e nextHops, if nextHops.isEmpty then s.2 ++ [e] else s.2)

def removeNextHopFromAllEntries (B : Fib C F) (face : F) : Option (Fib C F) :=
  (B.tree.fullEnumerate fun nte => nte.tables.fibEntry).bind fun ntes =>
    let r := ntes.foldl (removeNextHopAt face) (B, [])
    r.2.foldlM eraseEntry r.1

end Faces

section Invariant

variable {hash : C → Hash} {B B' : Fib C F} {e e' : FibEntryId} {nte : EntryId} {T : NameTree C}

def Attached (B : Fib C F) (e : FibEntryId) : Prop := (B.entries e).nameTreeEntry ≠ none

structure Inv (hash : C → Hash) (B : Fib C F) : Prop where
  tree : NameTree.Inv hash B.tree
  minNBuckets : 0 < B.tree.minNBuckets
  held_iff : ∀ nte, B.tree.Held .fib nte ↔ ∃ e, B.entryOf nte = some e
  entryOf_iff : ∀ nte e, B.entryOf nte = some e ↔ (B.entries e).nameTreeEntry = some nte
  pfx : ∀ nte e, B.entryOf nte = some e → (B.tree.entries nte).pfx = (B.entries e).pfx
  lt_fresh : ∀ e, B.Attached e → e < B.fresh
  tidy : ∀ e, Tidy (B.entries e).nextHops
  counted : ∃ es : List FibEntryId, es.Nodup ∧ (∀ e, e ∈ es ↔ B.Attached e) ∧
    B.nItems = es.length

lemma Inv.pointers (h : Inv hash B) : Mutual B.entryOf fun e => (B.entries e).nameTreeEntry :=
  h.entryOf_iff

lemma Inv.attached_iff (h : Inv hash B) : B.Attached e ↔ ∃ nte, B.entryOf nte = some e :=
  h.pointers.ne_none_iff

lemma Inv.linked (h : Inv hash B) (he : B.entryOf nte = some e) : nte ∈ B.tree.linked :=
  ((h.held_iff nte).mpr ⟨e, he⟩).1

lemma Inv.unique (h : Inv hash B) (he : B.Attached e) (he' : B.Attached e')
    (hp : (B.entries e).pfx = (B.entries e').pfx) : e = e' := by
  obtain ⟨nte, hn⟩ := h.attached_iff.mp he
  obtain ⟨nte', hn'⟩ := h.attached_iff.mp he'
  rw [← h.pfx nte e hn, ← h.pfx nte' e' hn'] at hp
  obtain rfl := h.tree.unique nte (h.linked hn) nte' (h.linked hn') hp
  exact some.inj (hn.symm.trans hn')

lemma Inv.findExactMatch_iff [DecidableEq C] (h : Inv hash B) {pfx : Name C} :
    B.findExactMatch hash pfx = some e ↔ B.Attached e ∧ (B.entries e).pfx = pfx := by
  simp only [findExactMatch, bind_eq_some_iff, h.tree.findExactMatch_iff, h.attached_iff]
  constructor
  · rintro ⟨nte, ⟨-, rfl⟩, he⟩
    exact ⟨⟨nte, he⟩, (h.pfx nte e he).symm⟩
  · rintro ⟨⟨nte, he⟩, rfl⟩
    exact ⟨nte, ⟨h.linked he, h.pfx nte e he⟩, he⟩

section

variable (h : Inv hash B) (hT : NameTree.Inv hash T)
include h hT

lemma Inv.withTree (hmin : T.minNBuckets = B.tree.minNBuckets)
    (hheld : ∀ nte, T.Held .fib nte ↔ B.tree.Held .fib nte)
    (hpfx : ∀ nte, T.Held .fib nte → (T.entries nte).pfx = (B.tree.entries nte).pfx) :
    Inv hash { B with tree := T } := by
  refine ⟨hT, hmin ▸ h.minNBuckets, fun nte => (hheld nte).trans (h.held_iff nte), h.entryOf_iff,
    ?_, h.lt_fresh, h.tidy, h.counted⟩
  intro nte e he
  have hh := (hheld nte).mpr ((h.held_iff nte).mpr ⟨e, he⟩)
  exact (hpfx nte hh).trans (h.pfx nte e he)

lemma Inv.grown (hg : NameTree.Grown B.tree T) : Inv hash { B with tree := T } :=
  h.withTree hT hg.minNBuckets (fun _ => hg.held_iff) fun nte hh =>
    hg.pfx nte (hg.held_iff.mp hh).1

lemma Inv.pruned (hp : NameTree.Pruned B.tree T) : Inv hash { B with tree := T } :=
  h.withTree hT hp.minNBuckets (fun _ => hp.held_iff) fun nte hh => hp.pfx nte hh.1

end

section

variable (l : List (NextHop F)) (x : FibEntryId)
include l x

lemma entries_setNextHops : (B.setNextHops e l).entries x =
      if x = e then { B.entries e with nextHops := l } else B.entries x := by
  simp [setNextHops, update_apply]

lemma pfx_setNextHops : ((B.setNextHops e l).entries x).pfx = (B.entries x).pfx := by
  rw [entries_setNextHops]
  split
  next hx =>
    rw [hx]
  · rfl

lemma nameTreeEntry_setNextHops :
    ((B.setNextHops e l).entries x).nameTreeEntry = (B.entries x).nameTreeEntry := by
  rw [entries_setNextHops]
  split
  next hx =>
    rw [hx]
  · rfl

lemma attached_setNextHops : (B.setNextHops e l).Attached x ↔ B.Attached x := by
  rw [Attached, Attached, nameTreeEntry_setNextHops]

end

lemma Inv.withEntries (h : Inv hash B) {entries : FibEntryId → Entry C F}
    (hp : ∀ e, (entries e).pfx = (B.entries e).pfx)
    (hn : ∀ e, (entries e).nameTreeEntry = (B.entries e).nameTreeEntry)
    (hl : ∀ e, Tidy (entries e).nextHops) : Inv hash { B with entries := entries } := by
  have ha : ∀ e, ({ B with entries := entries } : Fib C F).Attached e ↔ B.Attached e := fun e =>
    not_congr (by rw [hn e])
  obtain ⟨es, hnodup, hes, hcount⟩ := h.counted
  refine ⟨h.tree, h.minNBuckets, h.held_iff, ?_, ?_, ?_, hl, es, hnodup, ?_, hcount⟩
  · intro nte e
    exact (h.entryOf_iff nte e).trans (by rw [hn e])
  · intro nte e he
    exact (h.pfx nte e he).trans (hp e).symm
  · intro e he
    exact h.lt_fresh e ((ha e).mp he)
  · intro e
    rw [ha, hes]

lemma Inv.setNextHops (h : Inv hash B) {l : List (NextHop F)} (hl : Tidy l) (e : FibEntryId) :
    Inv hash (B.setNextHops e l) := by
  refine h.withEntries (pfx_setNextHops l) (nameTreeEntry_setNextHops l) fun x => ?_
  show Tidy ((B.setNextHops e l).entries x).nextHops
  rw [entries_setNextHops]
  split
  · exact hl
  · exact h.tidy x

section

variable (pfx : Name C) (x : FibEntryId)

lemma entries_attach : (B.attach nte pfx).entries x =
    if x = B.fresh then { pfx := pfx, nameTreeEntry := some nte } else B.entries x := by
  simp [attach, update_apply]

lemma nameTreeEntry_attach : ((B.attach nte pfx).entries x).nameTreeEntry =
      update (fun e => (B.entries e).nameTreeEntry) B.fresh (some nte) x := by
  rw [entries_attach, update_apply]
  split <;> rfl

lemma attached_attach : (B.attach nte pfx).Attached x ↔ x = B.fresh ∨ B.Attached x := by
  rw [Attached, entries_attach]
  split
  next hx =>
    simp [hx]
  next hx =>
    simp [hx, Attached]

end

lemma Inv.not_attached_fresh (h : Inv hash B) : ¬ B.Attached B.fresh := fun ha =>
  Nat.lt_irrefl _ (h.lt_fresh _ ha)

lemma Inv.attach (h : Inv hash B) (hnte : nte ∈ B.tree.linked) (hnone : B.entryOf nte = none) :
    Inv hash (B.attach nte (B.tree.entries nte).pfx) := by
  have hentryOf : ∀ x, (B.attach nte (B.tree.entries nte).pfx).entryOf x =
      if x = nte then some B.fresh else B.entryOf x := by
    intro x
    simp [Fib.attach, update_apply]
  have hpfx : ∀ x, ((B.attach nte (B.tree.entries nte).pfx).tree.entries x).pfx =
      (B.tree.entries x).pfx := by
    intro x
    simp [Fib.attach, NameTree.setHolds, NameTree.setTables_entries]
  obtain ⟨es, hnodup, hes, hcount⟩ := h.counted
  refine ⟨h.tree.setTables nte _, h.minNBuckets, ?_, ?_, ?_, ?_, ?_, B.fresh :: es, ?_, ?_, ?_⟩
  · intro x
    refine (NameTree.held_setHolds hnte).trans ?_
    rw [hentryOf]
    by_cases hx : x = nte
    · simp [hx]
    · simpa [hx] using h.held_iff x
  · intro x e
    rw [nameTreeEntry_attach]
    exact h.pointers.attach hnone (by simpa [Attached] using h.not_attached_fresh) x e
  · intro x e he
    rw [hpfx, entries_attach]
    rw [hentryOf] at he
    split at he
    next hx =>
      rw [if_pos (some.inj he).symm, hx]
    · rw [if_neg (h.lt_fresh e (h.attached_iff.mpr ⟨x, he⟩)).ne]
      exact h.pfx x e he
  · intro e he
    rcases (attached_attach _ e).mp he with rfl | he
    · exact Nat.lt_succ_self _
    · exact Nat.lt_succ_of_lt (h.lt_fresh e he)
  · intro e
    rw [entries_attach]
    split
    · exact tidy_nil
    · exact h.tidy e
  · exact nodup_cons.mpr ⟨fun hc => h.not_attached_fresh ((hes _).mp hc), hnodup⟩
  · intro e
    rw [attached_attach, mem_cons, hes]
  · simp [Fib.attach, hcount]

def detached (B : Fib C F) (nte : EntryId) (e : FibEntryId) (T : NameTree C) : Fib C F :=
  { B with
    tree := T
    entryOf := update B.entryOf nte none
    entries := update B.entries e { B.entries e with nameTreeEntry := none }
    nItems := B.nItems - 1 }

section

variable (x : FibEntryId)

lemma entries_detached : (B.detached nte e T).entries x =
    if x = e then { B.entries e with nameTreeEntry := none } else B.entries x := by
  simp [detached, update_apply]

lemma nameTreeEntry_detached : ((B.detached nte e T).entries x).nameTreeEntry =
      update (fun e => (B.entries e).nameTreeEntry) e none x := by
  rw [entries_detached, update_apply]
  split <;> rfl

lemma attached_detached : (B.detached nte e T).Attached x ↔ x ≠ e ∧ B.Attached x := by
  rw [Attached, entries_detached]
  split
  next hx =>
    simp [hx]
  next hx =>
    simp [hx, Attached]

lemma pfx_detached : ((B.detached nte e T).entries x).pfx = (B.entries x).pfx := by
  rw [entries_detached]
  split
  next hx =>
    rw [hx]
  · rfl

lemma nextHops_detached : ((B.detached nte e T).entries x).nextHops = (B.entries x).nextHops := by
  rw [entries_detached]
  split
  next hx =>
    rw [hx]
  · rfl

end

lemma Inv.detached (h : Inv hash B) (he : B.entryOf nte = some e)
    (hT : NameTree.Inv hash T) (hmin : T.minNBuckets = B.tree.minNBuckets)
    (hheld : ∀ x, T.Held .fib x ↔ x ≠ nte ∧ B.tree.Held .fib x)
    (hpfx : ∀ x ∈ T.linked, (T.entries x).pfx = (B.tree.entries x).pfx) :
    Inv hash (B.detached nte e T) := by
  have hentryOf : ∀ x, (B.detached nte e T).entryOf x =
      if x = nte then none else B.entryOf x := by
    intro x
    simp [Fib.detached, update_apply]
  obtain ⟨es, hnodup, hes, hcount⟩ := h.counted
  have hmem : e ∈ es := (hes e).mpr (h.attached_iff.mpr ⟨nte, he⟩)
  refine ⟨hT, hmin ▸ h.minNBuckets, ?_, ?_, ?_, ?_, ?_, es.erase e, hnodup.erase e, ?_, ?_⟩
  · intro x
    rw [hentryOf]
    refine (hheld x).trans ?_
    rw [h.held_iff]
    by_cases hx : x = nte <;> simp [hx]
  · intro x e'
    rw [nameTreeEntry_detached]
    exact h.pointers.detach he x e'
  · intro x e' hx
    rw [hentryOf] at hx
    split at hx
    · cases hx
    rename_i hne
    have hh := (hheld x).mpr ⟨hne, (h.held_iff x).mpr ⟨e', hx⟩⟩
    rw [pfx_detached]
    exact (hpfx x hh.1).trans (h.pfx x e' hx)
  · intro x hx
    exact h.lt_fresh x ((attached_detached x).mp hx).2
  · intro x
    rw [entries_detached]
    split
    · exact h.tidy e
    · exact h.tidy x
  · intro x
    rw [hnodup.mem_erase_iff, hes, attached_detached]
  have hpos := length_pos_of_mem hmem
  rw [length_erase_of_mem hmem]
  show B.nItems - 1 = _
  omega

lemma Inv.eraseNode (h : Inv hash B) (he : B.entryOf nte = some e) (hok : B.tree.ShrinkOk) :
    ∃ T, B.eraseNode nte = some (B.detached nte e T) ∧ Inv hash (B.detached nte e T) ∧
      T.ShrinkOk := by
  obtain ⟨T, hT, hTi, hTs, hp, -⟩ :=
    NameTree.release_spec h.tree (h.linked he) hok h.minNBuckets .fib
  have hheld : ∀ x, T.Held .fib x ↔ x ≠ nte ∧ B.tree.Held .fib x := fun x => by
    simpa using hp.held_release (h.linked he) (k := .fib)
  refine ⟨T, ?_, h.detached he hTi hp.minNBuckets hheld fun x hx => hp.pfx_release hx, hTs⟩
  simp only [Fib.eraseNode, hT, map_some, unset, he, Fib.detached]

end Invariant

end Fib

end NfdGateway.Table
