import NfdGateway.NameTree.Refinement

/-! The tables that attach at most one entry to a node of the name tree. -/
namespace NfdGateway

open List

inductive TableKind
  | fib
  | measurements
  | strategyChoice
deriving DecidableEq

namespace TableEntries

def holds (t : TableEntries) : TableKind → Bool
  | .fib => t.fibEntry
  | .measurements => t.measurementsEntry
  | .strategyChoice => t.strategyChoiceEntry

def setHolds (t : TableEntries) (b : Bool) : TableKind → TableEntries
  | .fib => { t with fibEntry := b }
  | .measurements => { t with measurementsEntry := b }
  | .strategyChoice => { t with strategyChoiceEntry := b }

lemma holds_setHolds (t : TableEntries) (b : Bool) (kind k : TableKind) :
    (t.setHolds b kind).holds k = if k = kind then b else t.holds k := by
  cases kind <;> cases k <;> rfl

lemma pitEntries_setHolds (t : TableEntries) (b : Bool) (kind : TableKind) :
    (t.setHolds b kind).pitEntries = t.pitEntries := by
  cases kind <;> rfl

lemma holds_of_isEmpty {t : TableEntries} (h : t.isEmpty = true) (kind : TableKind) :
    t.holds kind = false := by
  simp only [isEmpty, Bool.and_eq_true, Bool.not_eq_true'] at h
  cases kind
  · exact h.1.1.1
  · exact h.1.2
  · exact h.2

end TableEntries

namespace NameTree

variable {C : Type} {hash : C → Hash} {T T' : NameTree C} {kind k : TableKind} {id x : EntryId}

def holds (T : NameTree C) (kind : TableKind) (id : EntryId) : Bool :=
  (T.entries id).tables.holds kind

def setHolds (T : NameTree C) (kind : TableKind) (id : EntryId) (b : Bool) : NameTree C :=
  T.setTables id ((T.entries id).tables.setHolds b kind)

def release (T : NameTree C) (kind : TableKind) (id : EntryId) : Option (NameTree C) :=
  ((T.setHolds kind id false).eraseEntryIfEmpty id).map (·.1)

def Held (T : NameTree C) (kind : TableKind) (id : EntryId) : Prop :=
  id ∈ T.linked ∧ T.holds kind id = true

lemma Grown.held_iff (hg : Grown T T') : T'.Held kind id ↔ T.Held kind id := by
  obtain ⟨l, hl, hempty⟩ := hg.linked
  constructor
  · rintro ⟨hid, hh⟩
    rcases mem_append.mp (hl.mem_iff.mp hid) with hnew | hold
    · rw [holds, hempty id hnew, TableEntries.holds_of_isEmpty rfl] at hh
      cases hh
    · exact ⟨hold, by rwa [holds, hg.tables id hold] at hh⟩
  · rintro ⟨hid, hh⟩
    exact ⟨hg.mem_linked hid, by rwa [holds, hg.tables id hid]⟩

lemma Pruned.held_iff (hp : Pruned T T') : T'.Held kind id ↔ T.Held kind id := by
  obtain ⟨l, hl, hempty⟩ := hp.linked
  constructor
  · rintro ⟨hid, hh⟩
    exact ⟨hp.mem_linked hid, by rwa [holds, hp.tables id hid] at hh⟩
  rintro ⟨hid, hh⟩
  rcases mem_append.mp (hl.mem_iff.mp hid) with hgone | hkept
  · rw [holds, TableEntries.holds_of_isEmpty (hempty id hgone)] at hh
    cases hh
  · exact ⟨hkept, by rwa [holds, hp.tables id hkept]⟩

lemma holds_setTables (T : NameTree C) (id : EntryId) (t : TableEntries) (k : TableKind)
    (x : EntryId) : (T.setTables id t).holds k x = if x = id then t.holds k else T.holds k x := by
  rw [holds, setTables_entries]
  split <;> rfl

lemma held_setHolds {b : Bool} (hid : id ∈ T.linked) : (T.setHolds kind id b).Held k x ↔
    if k = kind ∧ x = id then b = true else T.Held k x := by
  have hlinked : (T.setHolds kind id b).linked = T.linked := rfl
  rw [Held, hlinked, setHolds, holds_setTables, TableEntries.holds_setHolds]
  by_cases hx : x = id
  · subst hx
    by_cases hk : k = kind
    · simp [hk, hid]
    · simp [hk, Held, holds]
  · simp [hx, Held]

lemma release_spec (h : Inv hash T) (hid : id ∈ T.linked) (hok : ShrinkOk T)
    (hmin : 0 < T.minNBuckets) (kind : TableKind) :
    ∃ T', T.release kind id = some T' ∧ Inv hash T' ∧ ShrinkOk T' ∧
      Pruned (T.setHolds kind id false) T' ∧
      T'.names = (T.setHolds kind id false).names.erase (T.entries id).pfx := by
  obtain ⟨T', b, he, hi, hp, hs, hn⟩ := eraseUpward_spec _ (h.setTables id _) hid
    (Nat.lt_succ_self _) (hok.setTables id ((T.entries id).tables.setHolds false kind)) hmin
  rw [setTables_entries] at hn
  exact ⟨T', Option.map_eq_some_iff.mpr ⟨_, he, rfl⟩, hi, hs, hp, hn⟩

lemma pfx_setHolds (T : NameTree C) (kind : TableKind) (id : EntryId) (b : Bool)
    (x : EntryId) : ((T.setHolds kind id b).entries x).pfx = (T.entries x).pfx := by
  rw [setHolds, setTables_entries]

lemma Pruned.held_release (hp : Pruned (T.setHolds kind id false) T') (hid : id ∈ T.linked) :
    T'.Held k x ↔ ¬ (k = kind ∧ x = id) ∧ T.Held k x := by
  refine hp.held_iff.trans ((held_setHolds hid).trans ?_)
  split
  next hkx =>
    simp [hkx]
  next hkx =>
    simp [hkx]

lemma Pruned.pfx_release (hp : Pruned (T.setHolds kind id false) T') (hx : x ∈ T'.linked) :
    (T'.entries x).pfx = (T.entries x).pfx := by
  rw [hp.pfx x hx, pfx_setHolds]

end NameTree

end NfdGateway
