import NfdGateway.NameTree.Attach

/-! The nodes that the tables need: no name is stored unless something at or below it is in
use. -/
namespace NfdGateway

namespace Names

variable {C : Type} {A : Names C} {m n : Name C}

def Needed (A : Names C) : Prop := ∀ p ∈ A.stored, ∃ q ∈ A.inUse, p <+: q

lemma Needed.lookup_of_stored (h : Needed A) (hn : n ∈ A.stored) : Needed (A.lookup n) := by
  rintro p (hp | hp)
  · exact h p hp
  · obtain ⟨q, hq, hnq⟩ := h n hn
    exact ⟨q, hq, hp.trans hnq⟩

lemma Needed.lookup_setInUse (h : Needed A) : Needed ((A.lookup n).setInUse n true) := by
  have hself : n ∈ ((A.lookup n).setInUse n true).inUse := .inl ⟨rfl, rfl⟩
  rintro p (hp | hp)
  · obtain ⟨q, hq, hpq⟩ := h p hp
    by_cases hqn : q = n
    · exact ⟨n, hself, hqn ▸ hpq⟩
    · exact ⟨q, .inr ⟨hqn, hq⟩, hpq⟩
  · exact ⟨n, hself, hp⟩

lemma Needed.setInUse_erase (h : Needed A) (b : Bool) : Needed ((A.setInUse n b).erase n) := by
  rintro p ⟨hp, hobs⟩
  obtain ⟨q, hq, hpq⟩ := h p hp
  by_cases hqn : q = n
  · subst hqn
    have hex : ∃ r ∈ A.stored, p <+: r ∧ (r <+: q → r ∈ (A.setInUse q b).inUse) := by
      by_contra hno
      refine hobs ⟨hpq, fun r hr hpr => ?_⟩
      by_contra hkeep
      refine hno ⟨r, hr, hpr, fun hrq => ?_⟩
      by_contra hunused
      exact hkeep ⟨hrq, hunused⟩
    obtain ⟨r, hr, hpr, huse⟩ := hex
    by_cases hrq : r <+: q
    · exact ⟨r, huse hrq, hpr⟩
    obtain ⟨u, hu, hru⟩ := h r hr
    have hne : u ≠ q := by
      rintro rfl
      exact hrq hru
    exact ⟨u, .inr ⟨hne, hu⟩, hpr.trans hru⟩
  · exact ⟨q, .inr ⟨hqn, hq⟩, hpq⟩

end Names

namespace NameTree

variable {C : Type} {hash : C → Hash} {T T' : NameTree C} {kind k : TableKind} {nte x : EntryId}
  {name : Name C}

lemma TreeInv.child_or_table (h : TreeInv hash T) (hneeded : T.names.Needed) (hx : x ∈ T.linked) :
    (T.entries x).children ≠ [] ∨ (T.entries x).tables.isEmpty = false := by
  by_cases hc : (T.entries x).children = []
  · right
    obtain ⟨q, ⟨y, hy, rfl, huse⟩, hq⟩ := hneeded _ (mem_storedNames.mpr ⟨x, hx, rfl⟩)
    have hleaf := h.leaf hx hc (mem_storedNames.mpr ⟨y, hy, rfl⟩) hq
    rwa [← h.unique y hy x hx hleaf]
  · exact .inl hc

lemma TreeInv.stored_iff (h : TreeInv hash T) (hneeded : T.names.Needed) :
    name ∈ T.storedNames ↔
      ∃ id ∈ T.linked, (T.entries id).tables.isEmpty = false ∧ name <+: (T.entries id).pfx := by
  constructor
  · intro hn
    obtain ⟨q, ⟨y, hy, rfl, huse⟩, hq⟩ := hneeded name hn
    exact ⟨y, hy, huse, hq⟩
  · rintro ⟨y, hy, -, hpre⟩
    exact mem_storedNames.mpr (h.stored_prefixes hy hpre)

structure Looked (hash : C → Hash) (T T' : NameTree C) (name : Name C) (nte : EntryId) :
    Prop where
  inv : Inv hash T'
  grown : Grown T T'
  linked : nte ∈ T'.linked
  pfx : (T'.entries nte).pfx = name
  names : T'.names = T.names.lookup name

lemma looked_lookup [DecidableEq C] (h : Inv hash T) (hok : T.GrowthOk hash name.inits) :
    ∃ T' nte, T.lookup hash name = (T', some nte) ∧ Looked hash T T' name nte := by
  have hnames := lookup_names h hok
  obtain ⟨T', nte, hl, hT, hg, hnte, hp, -⟩ := lookup_spec h hok
  rw [hl] at hnames
  exact ⟨T', nte, hl, hT, hg, hnte, hp, hnames⟩

lemma looked_self (h : Inv hash T) (hnte : nte ∈ T.linked) :
    Looked hash T T (T.entries nte).pfx nte := by
  refine ⟨h, .refl T, hnte, rfl, Names.ext (Set.ext fun p => ?_) rfl⟩
  constructor
  · exact .inl
  rintro (hp | hp)
  · exact hp
  · exact mem_storedNames.mpr (h.stored_prefixes hnte hp)

lemma Looked.needed (h : Looked hash T T' name nte) (hneeded : T.names.Needed)
    (hstored : name ∈ T.storedNames) : T'.names.Needed := by
  rw [h.names]
  exact hneeded.lookup_of_stored hstored

structure KeepsOther (kind : Option TableKind) (T T' : NameTree C) : Prop where
  held : ∀ k, some k ≠ kind → ∀ x, T'.Held k x ↔ T.Held k x
  pfx : ∀ k, some k ≠ kind → ∀ x, T.Held k x → (T'.entries x).pfx = (T.entries x).pfx

lemma KeepsOther.refl (kind : Option TableKind) (T : NameTree C) : KeepsOther kind T T :=
  ⟨fun _ _ _ => Iff.rfl, fun _ _ _ _ => rfl⟩

lemma Grown.keepsOther (h : Grown T T') (kind : Option TableKind) : KeepsOther kind T T' :=
  ⟨fun _ _ _ => h.held_iff, fun _ _ x hx => h.pfx x hx.1⟩

lemma Pruned.keepsOther (h : Pruned T T') (kind : Option TableKind) : KeepsOther kind T T' :=
  ⟨fun _ _ _ => h.held_iff, fun _ _ x hx => h.pfx x (h.held_iff.mpr hx).1⟩

lemma KeepsOther.trans {T'' : NameTree C} {kind : Option TableKind} (h : KeepsOther kind T T')
    (h' : KeepsOther kind T' T'') : KeepsOther kind T T'' := by
  constructor
  · intro k hk x
    exact (h'.held k hk x).trans (h.held k hk x)
  · intro k hk x hx
    exact (h'.pfx k hk x ((h.held k hk x).mpr hx)).trans (h.pfx k hk x hx)

lemma keepsOther_setPitEntries (T : NameTree C) (nte : EntryId) (l : List PitEntryId) :
    KeepsOther none T (T.setTables nte { (T.entries nte).tables with pitEntries := l }) := by
  constructor
  · intro k _ x
    have hholds : ∀ t : TableEntries, ({ t with pitEntries := l } : TableEntries).holds k =
        t.holds k := fun t => by cases k <;> rfl
    have hlinked : (T.setTables nte { (T.entries nte).tables with pitEntries := l }).linked =
        T.linked := rfl
    rw [Held, Held, hlinked, holds_setTables, hholds]
    split
    next hx =>
      rw [hx, holds]
    · rfl
  · intro k _ x _
    rw [setTables_entries]

lemma setHolds_of_holds (h : T.holds kind nte = true) : T.setHolds kind nte true = T := by
  have htables : (T.entries nte).tables.setHolds true kind = (T.entries nte).tables := by
    cases kind
    · exact congrArg (fun b => { (T.entries nte).tables with fibEntry := b }) h.symm
    · exact congrArg (fun b => { (T.entries nte).tables with measurementsEntry := b }) h.symm
    · exact congrArg (fun b => { (T.entries nte).tables with strategyChoiceEntry := b }) h.symm
  rw [setHolds, htables]
  simp [setTables, setEntry]

lemma Looked.keepsOther_setHolds (h : Looked hash T T' name nte) (kind : TableKind) :
    KeepsOther (some kind) T (T'.setHolds kind nte true) := by
  constructor
  · intro k hk x
    have hne : ¬ (k = kind ∧ x = nte) := fun hkx => hk (congrArg some hkx.1)
    rw [held_setHolds h.linked, if_neg hne, h.grown.held_iff]
  · intro k _ x hx
    rw [pfx_setHolds]
    exact h.grown.pfx x hx.1

lemma Looked.needed_setHolds (h : Looked hash T T' name nte) (hneeded : T.names.Needed)
    (kind : TableKind) : (T'.setHolds kind nte true).names.Needed := by
  have huse : ((T'.entries nte).tables.setHolds true kind).isEmpty = false := by
    by_contra hempty
    have hno := TableEntries.holds_of_isEmpty (Bool.eq_true_of_not_eq_false hempty) kind
    rw [TableEntries.holds_setHolds, if_pos rfl] at hno
    cases hno
  rw [setHolds, setTables_names h.inv h.linked, h.pfx, h.names, huse]
  exact hneeded.lookup_setInUse

structure Released (hash : C → Hash) (T T' : NameTree C) (kind : TableKind) (nte : EntryId) :
    Prop where
  inv : Inv hash T'
  shrinkOk : ShrinkOk T'
  pruned : Pruned (T.setHolds kind nte false) T'
  needed : T.names.Needed → T'.names.Needed

lemma release_released (h : Inv hash T) (hnte : nte ∈ T.linked) (hok : ShrinkOk T)
    (hmin : 0 < T.minNBuckets) (kind : TableKind) :
    ∃ T', T.release kind nte = some T' ∧ Released hash T T' kind nte := by
  obtain ⟨T', he, hT, hs, hp, hn⟩ := release_spec h hnte hok hmin kind
  refine ⟨T', he, hT, hs, hp, fun hneeded => ?_⟩
  rw [hn, setHolds, setTables_names h hnte]
  exact hneeded.setInUse_erase _

lemma Released.keepsOther (h : Released hash T T' kind nte) (hnte : nte ∈ T.linked) :
    KeepsOther (some kind) T T' := by
  have hheld : ∀ k, some k ≠ some kind → ∀ x, T'.Held k x ↔ T.Held k x := by
    intro k hk x
    have hne : ¬ (k = kind ∧ x = nte) := fun hkx => hk (congrArg some hkx.1)
    rw [h.pruned.held_release hnte]
    exact and_iff_right hne
  refine ⟨hheld, fun k hk x hx => ?_⟩
  exact h.pruned.pfx_release ((hheld k hk x).mpr hx).1

end NameTree

end NfdGateway
