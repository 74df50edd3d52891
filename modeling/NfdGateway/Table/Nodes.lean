import NfdGateway.Pit.Operations
import NfdGateway.Table.Fib
import NfdGateway.Table.Measurements

/-! The nodes of the name tree that the FIB and the Measurements hold, through their operations. -/
open Option Function

namespace NfdGateway.Table

section Points

variable {C : Type} {hash : C → Hash} {T T' : NameTree C} {kind : TableKind} {nte : EntryId}
  {e fresh : ℕ} {entryOf : EntryId → Option ℕ} {nodeOf : ℕ → Option EntryId}

/-- Nodes and entries point to one another, and the held nodes are those with an entry. -/
structure Points (T : NameTree C) (kind : TableKind) (entryOf : EntryId → Option ℕ)
    (nodeOf : ℕ → Option EntryId) (fresh : ℕ) : Prop where
  held : ∀ nte, T.Held kind nte ↔ entryOf nte ≠ none
  pointers : Mutual entryOf nodeOf
  lt_fresh : ∀ e, nodeOf e ≠ none → e < fresh

section

variable (h : Points T kind entryOf nodeOf fresh)
include h

lemma Points.keeps {k : Option TableKind} (hk : NameTree.KeepsOther k T T') (hne : some kind ≠ k) :
    Points T' kind entryOf nodeOf fresh :=
  ⟨fun nte => (hk.held kind hne nte).trans (h.held nte), h.pointers, h.lt_fresh⟩

lemma Points.held_of_node (he : nodeOf e = some nte) : T.Held kind nte := by
  rw [h.held, (h.pointers nte e).mpr he]
  exact some_ne_none e

lemma Points.attach (hnte : nte ∈ T.linked) (hn : entryOf nte = none) :
    Points (T.setHolds kind nte true) kind (update entryOf nte (some fresh))
      (update nodeOf fresh (some nte)) (fresh + 1) := by
  have hfree : nodeOf fresh = none := by
    by_contra hne
    exact Nat.lt_irrefl _ (h.lt_fresh fresh hne)
  refine ⟨fun x => ?_, h.pointers.attach hn hfree, fun e he => ?_⟩
  · rw [NameTree.held_setHolds hnte, update_apply]
    by_cases hx : x = nte
    · simp [hx]
    · simpa [hx] using h.held x
  by_cases hef : e = fresh
  · omega
  rw [update_of_ne hef] at he
  have := h.lt_fresh e he
  omega

lemma Points.release (hr : NameTree.Released hash T T' kind nte) (hnte : nte ∈ T.linked)
    (he : entryOf nte = some e) :
    Points T' kind (update entryOf nte none) (update nodeOf e none) fresh := by
  refine ⟨fun x => ?_, h.pointers.detach he, fun x hx => ?_⟩
  · rw [hr.pruned.held_release hnte, h.held, update_apply]
    by_cases hx : x = nte <;> simp [hx]
  by_cases hxe : x = e
  · simp [hxe] at hx
  · rw [update_of_ne hxe] at hx
    exact h.lt_fresh x hx

lemma Points.release_none (hr : NameTree.Released hash T T' kind nte) (hnte : nte ∈ T.linked)
    (hn : entryOf nte = none) : Points T' kind entryOf nodeOf fresh := by
  refine ⟨fun x => ?_, h.pointers, h.lt_fresh⟩
  rw [hr.pruned.held_release hnte, h.held]
  by_cases hx : x = nte <;> simp [hx, hn]

end

end Points

section Shrunk

variable {C S : Type} {hash : C → Hash} {isDigest : C → Bool} {T T' : NameTree C} {kind : TableKind}
  {nte : EntryId} {P : Pit C S}

/-- What the release of nodes leaves of the tree and of the other tables. -/
structure Shrunk (hash : C → Hash) (kind : TableKind) (T T' : NameTree C) : Prop where
  inv : NameTree.Inv hash T'
  shrinkOk : T'.ShrinkOk
  minNBuckets : T'.minNBuckets = T.minNBuckets
  keeps : NameTree.KeepsOther (some kind) T T'
  needed : T.names.Needed → T'.names.Needed
  pit : ∀ {S : Type} {isDigest : C → Bool} {P : Pit C S}, Pit.Inv hash isDigest (P.withTree T) →
    Pit.Inv hash isDigest (P.withTree T')

lemma Shrunk.refl (h : NameTree.Inv hash T) (hok : T.ShrinkOk) : Shrunk hash kind T T :=
  ⟨h, hok, rfl, .refl _ T, id, id⟩

lemma Shrunk.trans {T'' : NameTree C} (h : Shrunk hash kind T T')
    (h' : Shrunk hash kind T' T'') : Shrunk hash kind T T'' :=
  ⟨h'.inv, h'.shrinkOk, h'.minNBuckets.trans h.minNBuckets, h.keeps.trans h'.keeps,
    fun hn => h'.needed (h.needed hn), fun hP => h'.pit (h.pit hP)⟩

lemma shrunk_of_released (h : NameTree.Released hash T T' kind nte) (hnte : nte ∈ T.linked) :
    Shrunk hash kind T T' := by
  refine ⟨h.inv, h.shrinkOk, h.pruned.minNBuckets, h.keepsOther hnte, h.needed, fun hP => ?_⟩
  exact (hP.setHolds kind nte false).pruned h.inv h.pruned

end Shrunk

namespace Fib

variable {C F : Type} {hash : C → Hash} {B : Fib C F} {T : NameTree C} {nte : EntryId}
  {pfx : Name C} {e : FibEntryId}

/-- The FIB entries and their nodes. -/
def Linked (B : Fib C F) : Prop :=
  Points B.tree .fib B.entryOf (fun e => (B.entries e).nameTreeEntry) B.fresh

lemma Linked.attach (h : B.Linked) (hnte : nte ∈ B.tree.linked) (hn : B.entryOf nte = none)
    (pfx : Name C) : (B.attach nte pfx).Linked := by
  have hnode : (fun e => ((B.attach nte pfx).entries e).nameTreeEntry) =
      update (fun e => (B.entries e).nameTreeEntry) B.fresh (some nte) :=
    funext (nameTreeEntry_attach pfx)
  rw [Linked, hnode]
  exact Points.attach h hnte hn

lemma Linked.insert [DecidableEq C] (h : ({ B with tree := T } : Fib C F).Linked)
    (hl : B.tree.lookup hash pfx = (T, some nte)) (hnte : nte ∈ T.linked) :
    ∃ r, B.insert hash pfx = some r ∧ r.1.Linked ∧ r.1.tree = T.setHolds .fib nte true := by
  cases he : B.entryOf nte with
  | some e =>
    have hheld : T.Held .fib nte := (h.held nte).mpr (by simp [he])
    refine ⟨({ B with tree := T }, e, false), ?_, h, (NameTree.setHolds_of_holds hheld.2).symm⟩
    simp only [Fib.insert, hl, map_some, he]
  | none =>
    refine ⟨(({ B with tree := T } : Fib C F).attach nte pfx, B.fresh, true), ?_,
      h.attach hnte he pfx, rfl⟩
    simp only [Fib.insert, hl, map_some, he]

lemma Linked.eraseNode (h : B.Linked) (hT : B.tree.release .fib nte = some T)
    (hr : NameTree.Released hash B.tree T .fib nte) (hnte : nte ∈ B.tree.linked) :
    ∃ B', B.eraseNode nte = some B' ∧ B'.Linked ∧ B'.tree = T := by
  refine ⟨_, by rw [Fib.eraseNode, hT, map_some], ?_, rfl⟩
  cases he : B.entryOf nte with
  | some e =>
    have hunset : ({ B.unset nte with tree := T, nItems := B.nItems - 1 } : Fib C F) =
        B.detached nte e T := by
      simp only [unset, he, detached]
    have hnode : (fun x => ((B.detached nte e T).entries x).nameTreeEntry) =
        update (fun e => (B.entries e).nameTreeEntry) e none :=
      funext nameTreeEntry_detached
    rw [hunset, Linked, hnode]
    exact Points.release h hr hnte he
  | none =>
    simp only [unset, he]
    exact Points.release_none h hr hnte he

section

variable (h : B.Linked) (hT : NameTree.Inv hash B.tree) (hok : B.tree.ShrinkOk)
  (hmin : 0 < B.tree.minNBuckets)
include h hT hok hmin

lemma Linked.eraseNode_shrunk (hnte : nte ∈ B.tree.linked) :
    ∃ B', B.eraseNode nte = some B' ∧ B'.Linked ∧ Shrunk hash .fib B.tree B'.tree := by
  obtain ⟨T, hrel, hr⟩ := NameTree.release_released hT hnte hok hmin .fib
  obtain ⟨B', hB', hlinked, rfl⟩ := h.eraseNode hrel hr hnte
  exact ⟨B', hB', hlinked, shrunk_of_released hr hnte⟩

lemma Linked.eraseEntry (e : FibEntryId) :
    ∃ B', B.eraseEntry e = some B' ∧ B'.Linked ∧ Shrunk hash .fib B.tree B'.tree := by
  cases he : (B.entries e).nameTreeEntry with
  | none => exact ⟨B, by simp only [Fib.eraseEntry, he], h, .refl hT hok⟩
  | some nte =>
    simp only [Fib.eraseEntry, he]
    exact h.eraseNode_shrunk hT hok hmin (Points.held_of_node h he).1

lemma Linked.eraseEntries (es : List FibEntryId) :
    ∃ B', es.foldlM Fib.eraseEntry B = some B' ∧ B'.Linked ∧
      Shrunk hash .fib B.tree B'.tree := by
  induction es generalizing B with
  | nil => exact ⟨B, rfl, h, .refl hT hok⟩
  | cons e es ih =>
    obtain ⟨B₁, hB₁, h₁, hs₁⟩ := h.eraseEntry hT hok hmin e
    obtain ⟨B₂, hB₂, h₂, hs₂⟩ := ih h₁ hs₁.inv hs₁.shrinkOk (hs₁.minNBuckets ▸ hmin)
    exact ⟨B₂, by rw [List.foldlM_cons, hB₁]; exact hB₂, h₂, hs₁.trans hs₂⟩

end

variable [DecidableEq F] {s : Fib C F × List FibEntryId}

lemma Linked.removeNextHopAt (h : s.1.Linked) (face : F)
    (nte : EntryId) : (removeNextHopAt face s nte).1.Linked ∧
      (Fib.removeNextHopAt face s nte).1.tree = s.1.tree := by
  unfold Fib.removeNextHopAt
  split
  · exact ⟨h, rfl⟩
  refine ⟨?_, rfl⟩
  have hnode : ∀ e l, (fun x => ((s.1.setNextHops e l).entries x).nameTreeEntry) =
      fun x => (s.1.entries x).nameTreeEntry :=
    fun e l => funext (nameTreeEntry_setNextHops l)
  rw [Linked, hnode]
  exact h

lemma Linked.removeNextHopAt_foldl (h : s.1.Linked) (face : F)
    (ntes : List EntryId) : (ntes.foldl (Fib.removeNextHopAt face) s).1.Linked ∧
      (ntes.foldl (Fib.removeNextHopAt face) s).1.tree = s.1.tree := by
  induction ntes generalizing s with
  | nil => exact ⟨h, rfl⟩
  | cons nte ntes ih =>
    obtain ⟨hs, htree⟩ := h.removeNextHopAt face nte
    obtain ⟨hl, ht⟩ := ih hs
    exact ⟨hl, ht.trans htree⟩

lemma Linked.removeNextHopFromAllEntries (h : B.Linked) (hT : NameTree.Inv hash B.tree)
    (hok : B.tree.ShrinkOk) (hmin : 0 < B.tree.minNBuckets) (hb : B.tree.nBuckets < 2 ^ 31)
    (face : F) :
    ∃ B', B.removeNextHopFromAllEntries face = some B' ∧ B'.Linked ∧
      Shrunk hash .fib B.tree B'.tree := by
  rw [Fib.removeNextHopFromAllEntries, hT.fullEnumerate_eq hb, bind_some]
  obtain ⟨hl, ht⟩ := Linked.removeNextHopAt_foldl (s := (B, [])) h face
    (B.tree.linked.filter fun x => (B.tree.entries x).tables.fibEntry)
  have htree := ht
  rw [← htree] at hT hok hmin
  obtain ⟨B', hB', hlinked, hs⟩ := hl.eraseEntries hT hok hmin _
  rw [htree] at hs
  exact ⟨B', hB', hlinked, hs⟩

end Fib

end NfdGateway.Table

namespace NfdGateway.Measurements

open Table

variable {C S : Type} {hash : C → Hash} {M : Measurements C} {T : NameTree C} {nte : EntryId}
  {e : MeasurementsId} {now : ℤ}

/-- The measurements entries and their nodes. -/
structure Linked (M : Measurements C) : Prop where
  points : Points M.tree .measurements M.entryOf (fun e => (M.entries e).nameTreeEntry) M.fresh
  name : ∀ nte e, M.entryOf nte = some e → (M.entries e).name = (M.tree.entries nte).pfx

lemma Linked.withTree (h : M.Linked) {k : Option TableKind}
    (hk : NameTree.KeepsOther k M.tree T) (hne : some .measurements ≠ k) :
    ({ M with tree := T } : Measurements C).Linked := by
  refine ⟨h.points.keeps hk hne, fun nte e he => ?_⟩
  have hheld := h.points.held_of_node ((h.points.pointers nte e).mp he)
  exact (h.name nte e he).trans (hk.pfx .measurements hne nte hheld).symm

lemma Linked.getAt (h : M.Linked) (now : ℤ) (hnte : nte ∈ M.tree.linked) :
    (M.getAt now nte).1.Linked ∧
      (M.getAt now nte).1.tree = M.tree.setHolds .measurements nte true := by
  cases he : M.entryOf nte with
  | some e =>
    have hheld := (h.points.held nte).mpr (by simp [he])
    rw [getAt_some he]
    exact ⟨h, (NameTree.setHolds_of_holds hheld.2).symm⟩
  | none =>
    have htree : (M.getAt now nte).1.tree = M.tree.setHolds .measurements nte true := by
      simp only [Measurements.getAt, he]
    have hfresh : (M.getAt now nte).1.fresh = M.fresh + 1 := by simp only [Measurements.getAt, he]
    have hnode : (fun e => ((M.getAt now nte).1.entries e).nameTreeEntry) =
        update (fun e => (M.entries e).nameTreeEntry) M.fresh (some nte) :=
      funext fun e => nameTreeEntry_getAt he
    refine ⟨⟨?_, fun x e hx => ?_⟩, htree⟩
    · rw [htree, entryOf_getAt he, hnode, hfresh]
      exact h.points.attach hnte he
    rw [htree, NameTree.pfx_setHolds]
    rw [entryOf_getAt he, update_apply] at hx
    split at hx
    next hxn =>
      obtain rfl : M.fresh = e := some.inj hx
      simp [Measurements.getAt, he, hxn]
    · have hlt : e < M.fresh := h.points.lt_fresh e (by simp [(h.points.pointers x e).mp hx])
      rw [entries_getAt he hlt.ne]
      exact h.name x e hx

lemma Linked.extended (h : M.Linked) (e : MeasurementsId) (t : ℤ) : (M.extended e t).Linked := by
  have hnode : (fun x => ((M.extended e t).entries x).nameTreeEntry) =
      fun x => (M.entries x).nameTreeEntry := funext nameTreeEntry_extended
  refine ⟨?_, fun x y hx => ?_⟩
  · rw [hnode]
    exact h.points
  refine Eq.trans ?_ (h.name x y hx)
  rw [entries_extended]
  split
  next hy =>
    rw [hy]
  · rfl

lemma Linked.extendLifetime (h : M.Linked) (now : ℤ) (e : MeasurementsId) (lifetime : ℤ) :
    (M.extendLifetime now e lifetime).Linked ∧
      (M.extendLifetime now e lifetime).tree = M.tree := by
  unfold Measurements.extendLifetime
  split
  · exact ⟨h, rfl⟩
  split
  · split
    · exact ⟨h, rfl⟩
    · exact ⟨h.extended e (now + lifetime), rfl⟩
  · exact ⟨h, rfl⟩

section

variable (h : M.Linked) (hT : NameTree.Inv hash M.tree)
include h hT

lemma Linked.cleanup (hok : M.tree.ShrinkOk) (hmin : 0 < M.tree.minNBuckets) (e : MeasurementsId) :
    ∃ M', M.cleanup e = some M' ∧ M'.Linked ∧ Shrunk hash .measurements M.tree M'.tree := by
  cases hn : (M.entries e).nameTreeEntry with
  | none => exact ⟨M, by simp only [Measurements.cleanup, hn], h, .refl hT hok⟩
  | some nte =>
    have he := (h.points.pointers nte e).mpr hn
    have hnte := (h.points.held_of_node hn).1
    obtain ⟨T, hrel, hr⟩ := NameTree.release_released hT hnte hok hmin .measurements
    have hnode : (fun x => ((M.removed e nte T).entries x).nameTreeEntry) =
        update (fun e => (M.entries e).nameTreeEntry) e none :=
      funext nameTreeEntry_removed
    refine ⟨{ M.unset nte with tree := T, nItems := M.nItems - 1 },
      by simp only [Measurements.cleanup, hn, hrel, map_some], ⟨?_, ?_⟩,
      shrunk_of_released hr hnte⟩
    · simp only [unset, he]
      change Points T .measurements _ (fun x => ((M.removed e nte T).entries x).nameTreeEntry) _
      rw [hnode]
      exact h.points.release hr hnte he
    intro x y hx
    simp only [unset, he] at hx ⊢
    rw [update_apply] at hx
    split at hx
    · cases hx
    rename_i hxn
    have hye : y ≠ e := by
      rintro rfl
      have hback := (h.points.pointers x y).mp hx
      exact hxn (some.inj (hback.symm.trans hn))
    have hheld : T.Held .measurements x := by
      rw [hr.pruned.held_release hnte]
      exact ⟨by simp [hxn], (h.points.held x).mpr (by simp [hx])⟩
    rw [update_of_ne hye, hr.pruned.pfx_release hheld.1]
    exact h.name x y hx

lemma Linked.runEvent (hok : M.tree.ShrinkOk)
    (hmin : 0 < M.tree.minNBuckets) {event : EventId} {ev : Scheduled}
    (hfind : M.scheduled.find? (·.id = event) = some ev) (hdue : ev.due ≤ now) :
    ∃ M', M.runEvent now event = some M' ∧ M'.Linked ∧
      Shrunk hash .measurements M.tree M'.tree := by
  have hrest : ({ M with scheduled := M.scheduled.filter (·.id ≠ event) } :
      Measurements C).Linked := ⟨h.points, h.name⟩
  rw [Measurements.runEvent, hfind, bind_some, if_pos hdue]
  exact hrest.cleanup hT hok hmin ev.entry

lemma Linked.getParent (now : ℤ) {child : MeasurementsId} (ha : M.Attached child) :
    M.getParent now child = some (M, none) ∨
      ∃ parent ∈ M.tree.linked, M.getParent now child =
        some ((M.getAt now parent).1, some (M.getAt now parent).2) := by
  unfold Measurements.getParent
  split
  · exact .inl rfl
  rename_i hname
  right
  obtain ⟨nte, hn⟩ := ne_none_iff_exists'.mp ha
  have hh := hT.hangs nte (h.points.held_of_node hn).1
  have hpfx := h.name nte child ((h.points.pointers nte child).mpr hn)
  cases hp : (M.tree.entries nte).parent with
  | none =>
    rw [hp] at hh
    exact absurd (hpfx.trans hh) hname
  | some parent =>
    rw [hp] at hh
    exact ⟨parent, hh.1, by simp only [hn, bind_some, hp, map_some]⟩

end

end NfdGateway.Measurements
