import NfdGateway.Table.Nodes
import NfdGateway.Table.StrategyInfo

/-! The four tables on one name tree. Every node is there for a table entry, unless a lookup
created it and attached nothing. -/
namespace NfdGateway.Table

open Option Transition

structure Shared (C S F I St : Type) where
  tables : Tables C S F I St
  fib : Fib C F
  measurements : Measurements C

namespace Shared

variable {C S F I St N : Type}

def tree (s : Shared C S F I St) : NameTree C := s.tables.tree

def setTables (s : Shared C S F I St) (t : Tables C S F I St) : Shared C S F I St where
  tables := t
  fib := { s.fib with tree := t.tree }
  measurements := { s.measurements with tree := t.tree }

def setPit (s : Shared C S F I St) (P : Pit C S) : Shared C S F I St :=
  s.setTables { s.tables with pit := P }

def setFib (s : Shared C S F I St) (B : Fib C F) : Shared C S F I St :=
  { s.setTables (s.tables.withTree B.tree) with fib := B }

def setMeasurements (s : Shared C S F I St) (M : Measurements C) : Shared C S F I St :=
  { s.setTables (s.tables.withTree M.tree) with measurements := M }

def fibEntry (s : Shared C S F I St) (e : Option FibEntryId) : Fib.Entry C F :=
  (e.map s.fib.entries).getD {}

inductive Call (C S F St : Type)
  | fibInsert (pfx : Name C)
  | fibErase (pfx : Name C)
  | fibEraseEntry (e : FibEntryId)
  | removeNextHopFromAllEntries (face : F)
  | pitInsert (interest : Interest C S)
  | pitFind (interest : Interest C S)
  | pitErase (e : PitEntryId)
  | measurementsGet (name : Name C)
  | measurementsGetFib (e : Option FibEntryId)
  | measurementsGetPit (e : PitEntryId)
  | measurementsGetParent (child : Measurements.MeasurementsId)
  | measurementsFindExactMatch (name : Name C)
  | measurementsFindLongestPrefixMatch (e : PitEntryId) (pred : TreeEntry C → Bool)
  | measurementsExtendLifetime (e : Measurements.MeasurementsId) (lifetime : ℤ)
  | measurementsCleanup (event : Measurements.EventId)
  | setDefaultStrategy (strategy : St)
  | strategyInsert (pfx : Name C) (strategy : Option St)
  | strategyErase (pfx : Name C)
  | findEffectiveStrategy (e : PitEntryId)

section Step

variable [DecidableEq C] [DecidableEq S] [DecidableEq F] [DecidableEq St] [DecidableEq N]
  (hash : C → Hash) (isDigest : C → Bool) (getName : St → N)

/-- `none` is undefined behaviour or a failed assertion. -/
def step (s : Shared C S F I St) (a : ℤ × Call C S F St) : Option (Shared C S F I St) :=
  match a.2 with
  | .fibInsert pfx => (s.fib.insert hash pfx).map fun r => s.setFib r.1
  | .fibErase pfx => (s.fib.erase hash pfx).map s.setFib
  | .fibEraseEntry e => (s.fib.eraseEntry e).map s.setFib
  | .removeNextHopFromAllEntries face => (s.fib.removeNextHopFromAllEntries face).map s.setFib
  | .pitInsert i => some (s.setPit (s.tables.pit.insert hash isDigest i).1)
  | .pitFind i => some (s.setPit (s.tables.pit.find hash isDigest i).1)
  | .pitErase e => (s.tables.pit.erase hash e).map s.setPit
  | .measurementsGet name =>
    (s.measurements.get hash a.1 name).map fun r => s.setMeasurements r.1
  | .measurementsGetFib e =>
    (s.measurements.getFib hash a.1 (s.fibEntry e).nameTreeEntry (s.fibEntry e).pfx).map fun r =>
      s.setMeasurements r.1
  | .measurementsGetPit e =>
    (s.tables.pit.entries e).bind fun entry =>
      (s.measurements.getPit hash a.1 entry).map fun r => s.setMeasurements r.1
  | .measurementsGetParent child =>
    (s.measurements.getParent a.1 child).map fun r => s.setMeasurements r.1
  | .measurementsFindExactMatch name =>
    some (s.setMeasurements (s.measurements.findExactMatch hash name).1)
  | .measurementsFindLongestPrefixMatch e pred =>
    (s.tables.pit.entries e).bind fun entry =>
      (s.measurements.findLongestPrefixMatchPit hash entry pred).map fun r =>
        s.setMeasurements r.1
  | .measurementsExtendLifetime e lifetime =>
    some (s.setMeasurements (s.measurements.extendLifetime a.1 e lifetime))
  | .measurementsCleanup event => (s.measurements.runEvent a.1 event).map s.setMeasurements
  | .setDefaultStrategy strategy =>
    (StrategyChoice.setDefaultStrategy hash s.tables strategy).map s.setTables
  | .strategyInsert pfx strategy =>
    (StrategyChoice.insert hash getName s.tables pfx strategy).map fun r => s.setTables r.1
  | .strategyErase pfx => (StrategyChoice.erase hash s.tables pfx).map s.setTables
  | .findEffectiveStrategy e =>
    (StrategyChoice.findEffectiveStrategyPit hash s.tables e).map fun r => s.setTables r.1

def ReadOk (s : Shared C S F I St) (e : PitEntryId) : Prop :=
  e ∈ s.tables.pit.present ∧
    s.tree.GrowthOk hash (s.tables.entryName (.pitEntry e)).inits

/-- The name tree is resized to sizes that keep every entry in its bucket, erased entries are
there, and a lookup that attaches nothing finds the node it looks up. -/
def Call.Ok (s : Shared C S F I St) (a : ℤ × Call C S F St) : Prop :=
  match a.2 with
  | .fibInsert pfx => s.tree.GrowthOk hash pfx.inits
  | .fibErase _ => s.tree.ShrinkOk
  | .fibEraseEntry _ => s.tree.ShrinkOk
  | .removeNextHopFromAllEntries _ => s.tree.ShrinkOk ∧ s.tree.nBuckets < 2 ^ 31
  | .pitInsert i => Pit.LookupOk hash isDigest s.tables.pit i
  | .pitFind i => Pit.LookupOk hash isDigest s.tables.pit i ∧
    Pit.treeName isDigest i.name ∈ s.tree.storedNames
  | .pitErase e => s.tree.ShrinkOk ∧ e ∈ s.tables.pit.present ∧
    Pit.isEndWithDigest isDigest (s.tables.entryName (.pitEntry e)) = false
  | .measurementsGet name => s.tree.GrowthOk hash name.inits
  | .measurementsGetFib e => (s.fibEntry e).nameTreeEntry ≠ none ∨
    (s.fibEntry e).pfx = [] ∧ s.tree.GrowthOk hash (List.inits [])
  | .measurementsGetPit e => s.ReadOk hash e
  | .measurementsGetParent child => s.measurements.Attached child
  | .measurementsFindExactMatch name => s.tree.GrowthOk hash name.inits ∧
    name ∈ s.tree.storedNames
  | .measurementsFindLongestPrefixMatch e _ => s.ReadOk hash e ∧
    s.tables.entryName (.pitEntry e) ∈ s.tree.storedNames
  | .measurementsExtendLifetime _ _ => True
  | .measurementsCleanup event => s.tree.ShrinkOk ∧
    ∃ ev, s.measurements.scheduled.find? (·.id = event) = some ev ∧ ev.due ≤ a.1
  | .setDefaultStrategy _ => s.tree.GrowthOk hash (List.inits [])
  | .strategyInsert pfx _ => s.tree.GrowthOk hash pfx.inits
  | .strategyErase pfx => pfx ≠ [] ∧ s.tree.ShrinkOk
  | .findEffectiveStrategy e => s.ReadOk hash e ∧
    s.tables.entryName (.pitEntry e) ∈ s.tree.storedNames

end Step

/-! ### The invariant -/

variable {hash : C → Hash} {isDigest : C → Bool} {s : Shared C S F I St} {T T' : NameTree C}
  {nte : EntryId} {name : Name C} {k : Option TableKind} {t : Tables C S F I St}
  {M : Measurements C}

structure Sound (hash : C → Hash) (isDigest : C → Bool) (s : Shared C S F I St) : Prop where
  pit : Pit.Inv hash isDigest s.tables.pit
  fibTree : s.fib.tree = s.tree
  measurementsTree : s.measurements.tree = s.tree
  fib : s.fib.Linked
  measurements : s.measurements.Linked
  needed : s.tree.names.Needed

def HasRoot (T : NameTree C) : Prop :=
  ∃ x, T.Held .strategyChoice x ∧ (T.entries x).pfx = []

structure Inv (hash : C → Hash) (isDigest : C → Bool) (s : Shared C S F I St) : Prop
    extends Sound hash isDigest s where
  root : HasRoot s.tree

lemma HasRoot.keeps (h : HasRoot T) (hk : NameTree.KeepsOther k T T')
    (hne : some .strategyChoice ≠ k) : HasRoot T' := by
  obtain ⟨x, hx, hp⟩ := h
  exact ⟨x, (hk.held _ hne x).mpr hx, (hk.pfx _ hne x hx).trans hp⟩

structure Change (hash : C → Hash) (isDigest : C → Bool) (k : Option TableKind)
    (s : Shared C S F I St) (T : NameTree C) : Prop where
  pit : Pit.Inv hash isDigest (s.tables.pit.withTree T)
  keeps : NameTree.KeepsOther k s.tree T
  needed : T.names.Needed

section

variable (h : Sound hash isDigest s)
include h

lemma Sound.same : Change hash isDigest k s s.tree :=
  ⟨h.pit, .refl _ _, h.needed⟩

lemma Sound.attached (kind : TableKind) (hl : NameTree.Looked hash s.tree T name nte) :
    Change hash isDigest (some kind) s (T.setHolds kind nte true) where
  pit := (h.pit.grown hl.inv hl.grown).setHolds kind nte true
  keeps := hl.keepsOther_setHolds kind
  needed := hl.needed_setHolds h.needed kind

lemma Sound.shrunk {kind : TableKind}
    (hs : Shrunk hash kind s.tree T) : Change hash isDigest (some kind) s T :=
  ⟨hs.pit h.pit, hs.keeps, hs.needed h.needed⟩

end

lemma Sound.setTables (h : Sound hash isDigest s)
    (hpit : Pit.Inv hash isDigest t.pit) (hk : NameTree.KeepsOther k s.tree t.tree)
    (hfib : some .fib ≠ k) (hmeasurements : some .measurements ≠ k)
    (hneeded : t.tree.names.Needed) : Sound hash isDigest (s.setTables t) := by
  have hkf := h.fibTree ▸ hk
  have hkm := h.measurementsTree ▸ hk
  exact ⟨hpit, rfl, rfl, Points.keeps h.fib hkf hfib, h.measurements.withTree hkm hmeasurements,
    hneeded⟩

lemma Inv.setTables (h : Inv hash isDigest s)
    (hpit : Pit.Inv hash isDigest t.pit) (hk : NameTree.KeepsOther none s.tree t.tree)
    (hneeded : t.tree.names.Needed) : Inv hash isDigest (s.setTables t) :=
  ⟨h.toSound.setTables hpit hk (some_ne_none _) (some_ne_none _) hneeded,
    h.root.keeps hk (some_ne_none _)⟩

lemma Inv.setFib (h : Inv hash isDigest s) {B : Fib C F} (hB : B.Linked)
    (hc : Change hash isDigest (some .fib) s B.tree) : Inv hash isDigest (s.setFib B) := by
  have hkm := h.measurementsTree ▸ hc.keeps
  exact ⟨⟨hc.pit, rfl, rfl, hB, h.measurements.withTree hkm (by simp), hc.needed⟩,
    h.root.keeps hc.keeps (by simp)⟩

lemma Inv.setMeasurements (h : Inv hash isDigest s) (hM : M.Linked)
    (hc : Change hash isDigest (some .measurements) s M.tree) :
    Inv hash isDigest (s.setMeasurements M) := by
  have hkf := h.fibTree ▸ hc.keeps
  exact ⟨⟨hc.pit, rfl, rfl, Points.keeps h.fib hkf (by simp), hM, hc.needed⟩,
    h.root.keeps hc.keeps (by simp)⟩

lemma Sound.setStrategies (h : Sound hash isDigest s)
    (hc : Change hash isDigest (some .strategyChoice) s T)
    (hpit : t.pit = s.tables.pit.withTree T) (hroot : HasRoot T) :
    Inv hash isDigest (s.setTables t) := by
  obtain rfl : t.tree = T := congrArg Pit.tree hpit
  exact ⟨h.setTables (hpit ▸ hc.pit) hc.keeps (by simp) (by simp) hc.needed, hroot⟩

/-! ### What the calls do to the nodes -/

section

variable (h : Inv hash isDigest s)
include h

lemma Inv.looked (hl : NameTree.Looked hash s.tree T name nte)
    (hstored : name ∈ s.tree.storedNames) :
    Inv hash isDigest (s.setTables (s.tables.withTree T)) :=
  h.setTables (h.pit.grown hl.inv hl.grown) (hl.grown.keepsOther none)
    (hl.needed h.needed hstored)

lemma Inv.fib_shrunk {B : Fib C F} (hB : B.Linked)
    (hs : Shrunk hash .fib s.fib.tree B.tree) : Inv hash isDigest (s.setFib B) := by
  rw [h.fibTree] at hs
  exact h.setFib hB (h.shrunk hs)

lemma Inv.measurements_got (now : ℤ)
    (hl : NameTree.Looked hash s.tree T name nte) : Inv hash isDigest
      (s.setMeasurements
        (({ s.measurements with tree := T } : Measurements C).getAt now nte).1) := by
  have hk := h.measurementsTree ▸ hl.grown.keepsOther none
  have hM := h.measurements.withTree hk (some_ne_none _)
  obtain ⟨hlinked, htree⟩ := hM.getAt now hl.linked
  exact h.setMeasurements hlinked (htree ▸ h.attached .measurements hl)

end

lemma Sound.strategy_attached (h : Sound hash isDigest s) (hroot : HasRoot s.tree ∨ name = [])
    (hl : NameTree.Looked hash s.tree T name nte)
    (hpit : t.pit = s.tables.pit.withTree (T.setHolds .strategyChoice nte true)) :
    Inv hash isDigest (s.setTables t) := by
  refine h.setStrategies (h.attached .strategyChoice hl) hpit ?_
  rcases hroot with ⟨x, hx, hp⟩ | hname
  · refine ⟨x, ?_, ?_⟩
    · rw [NameTree.held_setHolds hl.linked]
      split
      · rfl
      · exact hl.grown.held_iff.mpr hx
    · rw [NameTree.pfx_setHolds, hl.grown.pfx x hx.1, hp]
  · refine ⟨nte, ?_, ?_⟩
    · rw [NameTree.held_setHolds hl.linked]
      simp
    · rw [NameTree.pfx_setHolds, hl.pfx, hname]

lemma Sound.interest (h : Sound hash isDigest s) {e : PitEntryId} (he : e ∈ s.tables.pit.present) :
    ∃ i, s.tables.pit.interestOf e = some i ∧ s.tables.entryName (.pitEntry e) = i.name := by
  obtain ⟨id, hid, hea⟩ := Pit.mem_present.mp he
  obtain ⟨-, i, hi, -⟩ := h.pit.attached id hid e hea
  have hei : s.tables.pit.interestOf e = some i := by simp [Pit.interestOf, hi]
  exact ⟨i, hei, by simp [Tables.entryName, hei]⟩

section

variable (h : Inv hash isDigest s)
include h

lemma Inv.fib_ready (hok : s.tree.ShrinkOk) :
    NameTree.Inv hash s.fib.tree ∧ s.fib.tree.ShrinkOk ∧ 0 < s.fib.tree.minNBuckets := by
  rw [h.fibTree]
  exact ⟨h.pit.tree, hok, h.pit.minNBuckets⟩

lemma Inv.measurements_ready (hok : s.tree.ShrinkOk) :
    NameTree.Inv hash s.measurements.tree ∧ s.measurements.tree.ShrinkOk ∧
      0 < s.measurements.tree.minNBuckets := by
  rw [h.measurementsTree]
  exact ⟨h.pit.tree, hok, h.pit.minNBuckets⟩

lemma Inv.measurements_withTree :
    ({ s.measurements with tree := s.tree } : Measurements C) = s.measurements := by
  rw [← h.measurementsTree]

lemma Inv.measurements_getAt (now : ℤ) (hnte : nte ∈ s.tree.linked) :
    Inv hash isDigest (s.setMeasurements (s.measurements.getAt now nte).1) := by
  have hgot := h.measurements_got now (NameTree.looked_self h.pit.tree hnte)
  rwa [h.measurements_withTree] at hgot

lemma Inv.fibEntry_linked {e : Option FibEntryId}
    (he : (s.fibEntry e).nameTreeEntry = some nte) : nte ∈ s.tree.linked := by
  cases e with
  | none => cases he
  | some e =>
    rw [← h.fibTree]
    exact (Points.held_of_node h.fib he).1

lemma Inv.setMeasurements_same (hM : M.Linked)
    (htree : M.tree = s.tree) : Inv hash isDigest (s.setMeasurements M) :=
  h.setMeasurements hM (htree ▸ h.same)

end

lemma Inv.strategyAt_root [DecidableEq C] (h : Inv hash isDigest s) :
    StrategyChoice.strategyAt hash s.tables [] ≠ none := by
  obtain ⟨x, hx, hp⟩ := h.root
  have hsome := (StrategyChoice.strategyAt_eq_some_iff h.pit.tree).mpr ⟨x, hx, hp, rfl⟩
  rw [hsome]
  exact some_ne_none _

/-! ### The calls -/

variable [DecidableEq C] [DecidableEq S] [DecidableEq F] [DecidableEq St] [DecidableEq N]
  {getName : St → N} {now : ℤ}

omit [DecidableEq S] [DecidableEq F] [DecidableEq St] in
lemma Sound.read_looked (h : Sound hash isDigest s) {e : PitEntryId} (hok : s.ReadOk hash e) :
    ∃ entry T nte, s.tables.pit.entries e = some entry ∧
      Pit.get hash s.tree entry = (T, some nte) ∧
      NameTree.Looked hash s.tree T (s.tables.entryName (.pitEntry e)) nte := by
  obtain ⟨i, hi, hname⟩ := h.interest hok.1
  have hgrow := hok.2
  rw [hname] at hgrow ⊢
  exact Pit.get_looked h.pit hok.1 hi hgrow

def Proceeds (hash : C → Hash) (isDigest : C → Bool) (getName : St → N)
    (s : Shared C S F I St) (a : ℤ × Call C S F St) : Prop :=
  ∃ s', step hash isDigest getName s a = some s' ∧ Inv hash isDigest s'

lemma Sound.proceeds_setDefaultStrategy (h : Sound hash isDigest s)
    (hok : s.tree.GrowthOk hash (List.inits [])) (strategy : St) :
    Proceeds hash isDigest getName s (now, .setDefaultStrategy strategy) := by
  obtain ⟨T, nte, hl, hlooked⟩ := NameTree.looked_lookup h.pit.tree hok
  have hl' : s.tables.tree.lookup hash [] = (T, some nte) := hl
  refine ⟨s.setTables ((s.tables.withTree (T.setHolds .strategyChoice nte true)).setStrategy nte
    strategy), ?_, h.strategy_attached (.inr rfl) hlooked rfl⟩
  simp only [step, StrategyChoice.setDefaultStrategy, hl', map_some]

section Calls

variable (h : Inv hash isDigest s)
include h

section Fib

lemma Inv.proceeds_fibInsert (hok : s.tree.GrowthOk hash name.inits) :
    Proceeds hash isDigest getName s (now, .fibInsert name) := by
  obtain ⟨T, nte, hl, hlooked⟩ := NameTree.looked_lookup h.pit.tree hok
  have hl' : s.fib.tree.lookup hash name = (T, some nte) := by
    rw [h.fibTree]
    exact hl
  have hB : ({ s.fib with tree := T } : Fib C F).Linked :=
    Points.keeps h.fib (h.fibTree ▸ hlooked.grown.keepsOther none) (some_ne_none _)
  obtain ⟨r, hr, hlinked, htree⟩ := Fib.Linked.insert hB hl' hlooked.linked
  exact ⟨s.setFib r.1, by simp only [step, hr, map_some],
    h.setFib hlinked (htree ▸ h.attached .fib hlooked)⟩

section

variable (hok : s.tree.ShrinkOk)
include hok

lemma Inv.proceeds_fibErase : Proceeds hash isDigest getName s (now, .fibErase name) := by
  obtain ⟨hT, hs, hmin⟩ := h.fib_ready hok
  cases hf : s.fib.tree.findExactMatch hash name with
  | none =>
    exact ⟨s.setFib s.fib, by simp only [step, Fib.erase, hf, map_some],
      h.fib_shrunk h.fib (.refl hT hs)⟩
  | some nte =>
    obtain ⟨B, hB, hlinked, hshrunk⟩ :=
      h.fib.eraseNode_shrunk hT hs hmin (hT.findExactMatch_iff.mp hf).1
    exact ⟨s.setFib B, by simp only [step, Fib.erase, hf, hB, map_some],
      h.fib_shrunk hlinked hshrunk⟩

lemma Inv.proceeds_fibEraseEntry
    (e : FibEntryId) : Proceeds hash isDigest getName s (now, .fibEraseEntry e) := by
  obtain ⟨hT, hs, hmin⟩ := h.fib_ready hok
  obtain ⟨B, hB, hlinked, hshrunk⟩ := h.fib.eraseEntry hT hs hmin e
  exact ⟨s.setFib B, by simp only [step, hB, map_some], h.fib_shrunk hlinked hshrunk⟩

lemma Inv.proceeds_removeNextHop (hb : s.tree.nBuckets < 2 ^ 31) (face : F) :
    Proceeds hash isDigest getName s (now, .removeNextHopFromAllEntries face) := by
  obtain ⟨hT, hs, hmin⟩ := h.fib_ready hok
  rw [← h.fibTree] at hb
  obtain ⟨B, hB, hlinked, hshrunk⟩ := h.fib.removeNextHopFromAllEntries hT hs hmin hb face
  exact ⟨s.setFib B, by simp only [step, hB, map_some], h.fib_shrunk hlinked hshrunk⟩

end

end Fib

section Pit

variable {i : Interest C S} {e : PitEntryId}

lemma Inv.proceeds_pitInsert (hok : Pit.LookupOk hash isDigest s.tables.pit i) :
    Proceeds hash isDigest getName s (now, .pitInsert i) := by
  obtain ⟨hk, hneeded⟩ := Pit.insert_needed h.pit hok
  exact ⟨_, rfl, h.setTables (h.pit.insert hok) hk (hneeded h.needed)⟩

lemma Inv.proceeds_pitFind (hok : Pit.LookupOk hash isDigest s.tables.pit i)
    (hstored : Pit.treeName isDigest i.name ∈ s.tree.storedNames) :
    Proceeds hash isDigest getName s (now, .pitFind i) := by
  obtain ⟨T, nte, hfind, hlooked⟩ := Pit.find_looked h.pit hok
  refine ⟨_, rfl, ?_⟩
  rw [hfind]
  exact h.looked hlooked hstored

lemma Inv.proceeds_pitErase (hok : s.tree.ShrinkOk) (he : e ∈ s.tables.pit.present)
    (hd : Pit.isEndWithDigest isDigest (s.tables.entryName (.pitEntry e)) = false) :
    Proceeds hash isDigest getName s (now, .pitErase e) := by
  obtain ⟨i, hi, hname⟩ := h.interest he
  rw [hname] at hd
  obtain ⟨P, hP, hinv, -⟩ := Pit.erase_spec h.pit he hi hd hok
  obtain ⟨P', hP', hk, hneeded⟩ := Pit.erase_needed h.pit he hi hd hok
  obtain rfl : P' = P := some.inj (hP'.symm.trans hP)
  exact ⟨s.setPit P', by simp only [step, hP, map_some], h.setTables hinv hk (hneeded h.needed)⟩

end Pit

section Measurements

lemma Inv.proceeds_measurementsGet (hok : s.tree.GrowthOk hash name.inits) :
    Proceeds hash isDigest getName s (now, .measurementsGet name) := by
  obtain ⟨T, nte, hl, hlooked⟩ := NameTree.looked_lookup h.pit.tree hok
  have hl' : s.measurements.tree.lookup hash name = (T, some nte) := by
    rw [h.measurementsTree]
    exact hl
  exact ⟨_, by simp only [step, Measurements.get, Measurements.getNode, hl', map_some],
    h.measurements_got now hlooked⟩

lemma Inv.proceeds_measurementsGetFib {e : Option FibEntryId}
    (hok : (s.fibEntry e).nameTreeEntry ≠ none ∨
      (s.fibEntry e).pfx = [] ∧ s.tree.GrowthOk hash (List.inits [])) :
    Proceeds hash isDigest getName s (now, .measurementsGetFib e) := by
  cases hn : (s.fibEntry e).nameTreeEntry with
  | some nte =>
    exact ⟨_, by simp only [step, Measurements.getFib, hn, map_some],
      h.measurements_getAt now (h.fibEntry_linked hn)⟩
  | none =>
    obtain ⟨hpfx, hgrow⟩ := hok.resolve_left fun hne => hne hn
    obtain ⟨s', hs', hinv⟩ : Proceeds hash isDigest getName s (now, .measurementsGet []) :=
      h.proceeds_measurementsGet hgrow
    refine ⟨s', ?_, hinv⟩
    simp only [step, Measurements.getFib, hn, hpfx, if_true]
    exact hs'

lemma Inv.proceeds_measurementsGetPit {e : PitEntryId}
    (hok : s.ReadOk hash e) : Proceeds hash isDigest getName s (now, .measurementsGetPit e) := by
  obtain ⟨entry, T, nte, hentry, hget, hlooked⟩ := h.read_looked hok
  rw [← h.measurementsTree] at hget
  refine ⟨_, ?_, h.measurements_got now hlooked⟩
  simp only [step, hentry, bind_some, Measurements.getPit, Measurements.getNode, hget, map_some]

lemma Inv.proceeds_measurementsGetParent
    {child : Measurements.MeasurementsId} (ha : s.measurements.Attached child) :
    Proceeds hash isDigest getName s (now, .measurementsGetParent child) := by
  have hT : NameTree.Inv hash s.measurements.tree := h.measurementsTree ▸ h.pit.tree
  rcases h.measurements.getParent hT now ha with hroot | ⟨parent, hlinked, hparent⟩
  · exact ⟨s.setMeasurements s.measurements, by simp only [step, hroot, map_some],
      h.setMeasurements_same h.measurements h.measurementsTree⟩
  · rw [h.measurementsTree] at hlinked
    exact ⟨_, by simp only [step, hparent, map_some], h.measurements_getAt now hlinked⟩

lemma Inv.proceeds_measurementsFindExactMatch
    (hok : s.tree.GrowthOk hash name.inits) (hstored : name ∈ s.tree.storedNames) :
    Proceeds hash isDigest getName s (now, .measurementsFindExactMatch name) := by
  obtain ⟨T, nte, hl, hlooked⟩ := NameTree.looked_lookup h.pit.tree hok
  have hl' : s.measurements.tree.lookup hash name = (T, some nte) := by
    rw [h.measurementsTree]
    exact hl
  refine ⟨_, rfl, ?_⟩
  simp only [Measurements.findExactMatch, hl']
  exact h.looked hlooked hstored

lemma Inv.proceeds_measurementsFindLongestPrefixMatch {e : PitEntryId} (hok : s.ReadOk hash e)
    (hstored : s.tables.entryName (.pitEntry e) ∈ s.tree.storedNames) (pred : TreeEntry C → Bool) :
    Proceeds hash isDigest getName s (now, .measurementsFindLongestPrefixMatch e pred) := by
  obtain ⟨entry, T, nte, hentry, hget, hlooked⟩ := h.read_looked hok
  rw [← h.measurementsTree] at hget
  refine ⟨_, ?_, h.looked hlooked hstored⟩
  simp only [step, hentry, bind_some, Measurements.findLongestPrefixMatchPit, hget, map_some]
  rfl

lemma Inv.proceeds_measurementsExtendLifetime (e : Measurements.MeasurementsId) (lifetime : ℤ) :
    Proceeds hash isDigest getName s (now, .measurementsExtendLifetime e lifetime) := by
  obtain ⟨hlinked, htree⟩ := h.measurements.extendLifetime now e lifetime
  exact ⟨_, rfl, h.setMeasurements_same hlinked (htree.trans h.measurementsTree)⟩

lemma Inv.proceeds_measurementsCleanup (hok : s.tree.ShrinkOk)
    {event : Measurements.EventId} {ev : Measurements.Scheduled}
    (hfind : s.measurements.scheduled.find? (·.id = event) = some ev) (hdue : ev.due ≤ now) :
    Proceeds hash isDigest getName s (now, .measurementsCleanup event) := by
  obtain ⟨hT, hs, hmin⟩ := h.measurements_ready hok
  obtain ⟨M, hM, hlinked, hshrunk⟩ := h.measurements.runEvent hT hs hmin hfind hdue
  rw [h.measurementsTree] at hshrunk
  exact ⟨s.setMeasurements M, by simp only [step, hM, map_some],
    h.setMeasurements hlinked (h.shrunk hshrunk)⟩

end Measurements

section Strategy

lemma Inv.proceeds_strategyInsert (hok : s.tree.GrowthOk hash name.inits) (strategy : Option St) :
    Proceeds hash isDigest getName s (now, .strategyInsert name strategy) := by
  obtain ⟨t, ht, -, hinto⟩ := StrategyChoice.insert_effect getName h.pit h.strategyAt_root hok
    strategy
  obtain ⟨r, hr, rfl⟩ := map_eq_some_iff.mp ht
  refine ⟨s.setTables r.1, by simp only [step, hr, map_some], ?_⟩
  cases strategy with
  | none =>
    rw [show r.1 = s.tables from hinto]
    exact h.setTables h.pit (.refl _ _) h.needed
  | some strategy =>
    obtain ⟨T, nte, -, hlooked, hpit⟩ := hinto
    exact h.strategy_attached (.inl h.root) hlooked hpit

lemma Inv.proceeds_strategyErase (hok : s.tree.ShrinkOk)
    (hne : name ≠ []) : Proceeds hash isDigest getName s (now, .strategyErase name) := by
  obtain ⟨t, ht, -, hfrom⟩ := StrategyChoice.erase_effect getName h.pit h.strategyAt_root hne hok
  have ht' : StrategyChoice.erase hash s.tables name = some t := ht
  refine ⟨s.setTables t, by simp only [step, ht', map_some], ?_⟩
  rcases hfrom with rfl | ⟨T, nte, hnte, hname, hrel, hpit⟩
  · exact h.setTables h.pit (.refl _ _) h.needed
  obtain ⟨T', hrel', hr⟩ :=
    NameTree.release_released h.pit.tree hnte hok h.pit.minNBuckets .strategyChoice
  obtain rfl : T' = T := some.inj (hrel'.symm.trans hrel)
  have hshrunk := shrunk_of_released hr hnte
  refine h.setStrategies (h.shrunk hshrunk) hpit ?_
  -- the node of the root is another one
  obtain ⟨x, hx, hp⟩ := h.root
  have hxn : x ≠ nte := by
    rintro rfl
    exact hne (hname.symm.trans hp)
  have hheld : T'.Held .strategyChoice x := (hr.pruned.held_release hnte).mpr ⟨by simp [hxn], hx⟩
  exact ⟨x, hheld, (hr.pruned.pfx_release hheld.1).trans hp⟩

lemma Inv.proceeds_findEffectiveStrategy {e : PitEntryId} (hok : s.ReadOk hash e)
    (hstored : s.tables.entryName (.pitEntry e) ∈ s.tree.storedNames) :
    Proceeds hash isDigest getName s (now, .findEffectiveStrategy e) := by
  obtain ⟨entry, T, nte, hentry, hget, hlooked⟩ := h.read_looked hok
  have hget' : Pit.get hash s.tables.tree entry = (T, some nte) := hget
  have hinv := h.looked hlooked hstored
  have hfound := StrategyChoice.findEffectiveStrategyAt_eq (t := s.tables.withTree T) hlooked.inv
    hlooked.linked
  have hne : StrategyChoice.findEffectiveStrategyAt (s.tables.withTree T) nte ≠ none := by
    rw [hfound]
    exact PrefixMap.lookup_ne_none hinv.strategyAt_root List.nil_prefix
  obtain ⟨strategy, hstrategy⟩ := ne_none_iff_exists'.mp hne
  refine ⟨_, ?_, hinv⟩
  simp only [step, StrategyChoice.findEffectiveStrategyPit, hentry, bind_some, hget',
    hstrategy, map_some]

end Strategy

end Calls

/-! ### Runs -/

lemma Inv.proceeds (h : Inv hash isDigest s) {a : ℤ × Call C S F St}
    (hok : Call.Ok hash isDigest s a) : Proceeds hash isDigest getName s a := by
  obtain ⟨now, call⟩ := a
  cases call with
  | fibInsert pfx => exact h.proceeds_fibInsert hok
  | fibErase pfx => exact h.proceeds_fibErase hok
  | fibEraseEntry e => exact h.proceeds_fibEraseEntry hok e
  | removeNextHopFromAllEntries face => exact h.proceeds_removeNextHop hok.1 hok.2 face
  | pitInsert i => exact h.proceeds_pitInsert hok
  | pitFind i => exact h.proceeds_pitFind hok.1 hok.2
  | pitErase e => exact h.proceeds_pitErase hok.1 hok.2.1 hok.2.2
  | measurementsGet name => exact h.proceeds_measurementsGet hok
  | measurementsGetFib e => exact h.proceeds_measurementsGetFib hok
  | measurementsGetPit e => exact h.proceeds_measurementsGetPit hok
  | measurementsGetParent child => exact h.proceeds_measurementsGetParent hok
  | measurementsFindExactMatch name =>
    exact h.proceeds_measurementsFindExactMatch hok.1 hok.2
  | measurementsFindLongestPrefixMatch e pred =>
    exact h.proceeds_measurementsFindLongestPrefixMatch hok.1 hok.2 pred
  | measurementsExtendLifetime e lifetime =>
    exact h.proceeds_measurementsExtendLifetime e lifetime
  | measurementsCleanup event =>
    obtain ⟨hshrink, ev, hfind, hdue⟩ := hok
    exact h.proceeds_measurementsCleanup hshrink hfind hdue
  | setDefaultStrategy strategy => exact h.proceeds_setDefaultStrategy hok strategy
  | strategyInsert pfx strategy => exact h.proceeds_strategyInsert hok strategy
  | strategyErase pfx => exact h.proceeds_strategyErase hok.2 hok.1
  | findEffectiveStrategy e => exact h.proceeds_findEffectiveStrategy hok.1 hok.2

def new (n : ℕ) (strategy : St) : Shared C S F I St where
  tables := { pit := Pit.new n, strategyOf := fun _ => strategy, info := fun _ => none }
  fib := { tree := NameTree.new n }
  measurements := { tree := NameTree.new n }

omit [DecidableEq C] [DecidableEq S] [DecidableEq F] [DecidableEq St] in
lemma sound_new {n : ℕ} (hn : 0 < n) (strategy : St) :
    Sound hash isDigest (new n strategy : Shared C S F I St) := by
  have hl : (NameTree.new n : NameTree C).linked = [] := by simp [NameTree.new, NameTree.linked]
  have hheld : ∀ kind x, ¬ (NameTree.new n : NameTree C).Held kind x := by
    rintro kind x ⟨hx, -⟩
    simp [hl] at hx
  have hpoints : ∀ kind, Points (NameTree.new n : NameTree C) kind (fun _ => none)
      (fun _ => none) 0 := by
    intro kind
    refine ⟨fun nte => ?_, fun a b => by simp, fun e he => absurd rfl he⟩
    exact iff_of_false (hheld kind nte) (fun hne => hne rfl)
  refine ⟨Pit.inv_new isDigest hn, rfl, rfl, hpoints .fib, ⟨hpoints .measurements, ?_⟩, ?_⟩
  · intro nte e he
    cases he
  rintro p hp
  obtain ⟨x, hx, -⟩ := NameTree.mem_storedNames.mp hp
  have hx' : x ∈ (NameTree.new n : NameTree C).linked := hx
  simp [hl] at hx'

def HasEntry (s : Shared C S F I St) (x : EntryId) : Prop :=
  s.fib.entryOf x ≠ none ∨ (s.tree.entries x).tables.pitEntries ≠ [] ∨
    s.measurements.entryOf x ≠ none ∨ s.tree.holds .strategyChoice x = true

instance (s : Shared C S F I St) (x : EntryId) : Decidable (s.HasEntry x) :=
  inferInstanceAs (Decidable (_ ∨ _ ∨ _ ∨ _))

omit [DecidableEq C] [DecidableEq S] [DecidableEq F] [DecidableEq St] in
lemma Sound.hasEntry_iff (h : Sound hash isDigest s) {x : EntryId} (hx : x ∈ s.tree.linked) :
    s.HasEntry x ↔ (s.tree.entries x).tables.isEmpty = false := by
  have hfib : s.fib.entryOf x ≠ none ↔ s.tree.holds .fib x = true := by
    rw [← Points.held h.fib x, h.fibTree]
    exact and_iff_right hx
  have hmeasurements : s.measurements.entryOf x ≠ none ↔
      s.tree.holds .measurements x = true := by
    rw [← h.measurements.points.held x, h.measurementsTree]
    exact and_iff_right hx
  rw [HasEntry, hfib, hmeasurements]
  simp only [NameTree.holds, TableEntries.holds, TableEntries.isEmpty]
  cases (s.tree.entries x).tables.fibEntry <;> cases (s.tree.entries x).tables.pitEntries <;>
    cases (s.tree.entries x).tables.measurementsEntry <;>
    cases (s.tree.entries x).tables.strategyChoiceEntry <;> simp

/-- In every run in which the name tree is resized to sizes that keep every entry in its bucket,
no PIT entry for a digest is erased, and lookups that attach nothing find their node: every node
has a child or an entry of some table, the names stored are the prefixes of those with an entry,
and all further calls of that kind return. -/
theorem needed_of_run {n : ℕ} (hn : 0 < n) {strategy : St} {s₀ : Shared C S F I St}
    (hok : (new n strategy : Shared C S F I St).tree.GrowthOk hash (List.inits []))
    (h₀ : step hash isDigest getName (new n strategy) (now, .setDefaultStrategy strategy) =
      some s₀)
    (h : Reach (step hash isDigest getName) (Call.Ok hash isDigest) s₀ s) :
    (∀ x ∈ s.tree.linked, (s.tree.entries x).children ≠ [] ∨ s.HasEntry x) ∧
    (∀ name, name ∈ s.tree.storedNames ↔
      ∃ x ∈ s.tree.linked, s.HasEntry x ∧ name <+: (s.tree.entries x).pfx) ∧
    ∀ a, Call.Ok hash isDigest s a → ∃ s', step hash isDigest getName s a = some s' := by
  obtain ⟨s₁, hs₁, h₁⟩ : Proceeds hash isDigest getName (new n strategy : Shared C S F I St)
      (now, .setDefaultStrategy strategy) :=
    (sound_new hn strategy).proceeds_setDefaultStrategy hok strategy
  obtain rfl : s₁ = s₀ := some.inj (hs₁.symm.trans h₀)
  have hinv : Inv hash isDigest s := by
    refine h.invariant h₁ fun t a t' ht hoka hstep => ?_
    obtain ⟨u, hu, hinv⟩ : Proceeds hash isDigest getName t a := ht.proceeds hoka
    obtain rfl : u = t' := some.inj (hu.symm.trans hstep)
    exact hinv
  have htree : NameTree.Inv hash s.tree := hinv.pit.tree
  refine ⟨fun x hx => ?_, fun name => ?_, fun a hoka => ?_⟩
  · rw [hinv.hasEntry_iff hx]
    exact htree.child_or_table hinv.needed hx
  · rw [htree.stored_iff hinv.needed]
    refine exists_congr fun x => and_congr_right fun hx => ?_
    rw [hinv.hasEntry_iff hx]
  · obtain ⟨s', hs', -⟩ : Proceeds hash isDigest getName s a := hinv.proceeds hoka
    exact ⟨s', hs'⟩

/-- `Pit::find` of an Interest that is not pending leaves a node without child and entry. -/
theorem node_left_by_find : ∃ s₀ s : Shared ℕ Unit Unit Unit ℕ,
    step NameTree.numberHash (· == 200) id (new 16 0) (0, .setDefaultStrategy 0) = some s₀ ∧
    Reach (step NameTree.numberHash (· == 200) id) Any s₀ s ∧
    ∃ x ∈ s.tree.linked, (s.tree.entries x).children = [] ∧ ¬ s.HasEntry x := by
  refine ⟨_, _, rfl, .step (a := (0, .pitFind ⟨[1], ()⟩)) .init trivial rfl, 1, ?_⟩
  decide

theorem needed_of_run_fib_erase : ∃ s₀ s : Shared ℕ Unit Unit Unit ℕ,
    step NameTree.numberHash (· == 200) id (new 16 0) (0, .setDefaultStrategy 0) = some s₀ ∧
    Reach (step NameTree.numberHash (· == 200) id)
      (Call.Ok NameTree.numberHash (· == 200)) s₀ s ∧
    (∀ x ∈ s.tree.linked, (s.tree.entries x).children ≠ [] ∨ s.HasEntry x) ∧
    s.tree.storedNames = [[]] := by
  have hinsert : ∀ s : Shared ℕ Unit Unit Unit ℕ, s.tree.nItems + 3 ≤ s.tree.nBuckets / 2 →
      Call.Ok NameTree.numberHash (· == 200) s (0, .fibInsert [1, 2]) :=
    fun s hs => NameTree.growthOk_of_room hs
  have herase : ∀ s : Shared ℕ Unit Unit Unit ℕ, s.tree.nBuckets = 16 →
      s.tree.minNBuckets = 16 → Call.Ok NameTree.numberHash (· == 200) s (0, .fibErase [1, 2]) := by
    intro s hb hmin k hk
    rw [hb, hmin] at hk
    have hpow : 2 ≤ 2 ^ (k + 1) := Nat.le_self_pow (by omega) 2
    have hle : 16 / 2 ^ (k + 1) ≤ 16 / 2 := Nat.div_le_div_left hpow (by decide)
    omega
  have hrun : ∀ {s₀ s : Shared ℕ Unit Unit Unit ℕ},
      step NameTree.numberHash (· == 200) id (new 16 0) (0, .setDefaultStrategy 0) = some s₀ →
      Reach (step NameTree.numberHash (· == 200) id)
        (Call.Ok NameTree.numberHash (· == 200)) s₀ s →
      Reach (step NameTree.numberHash (· == 200) id)
        (Call.Ok NameTree.numberHash (· == 200)) s₀ s ∧
      ∀ x ∈ s.tree.linked, (s.tree.entries x).children ≠ [] ∨ s.HasEntry x :=
    fun h₀ h => ⟨h, (needed_of_run (by decide) (NameTree.growthOk_of_room (by decide)) h₀ h).1⟩
  obtain ⟨hreach, hnodes⟩ := hrun rfl (.step (.step .init (hinsert _ (by decide)) rfl)
    (herase _ (by decide) (by decide)) rfl)
  exact ⟨_, _, rfl, hreach, hnodes, by decide⟩

end Shared

end NfdGateway.Table
