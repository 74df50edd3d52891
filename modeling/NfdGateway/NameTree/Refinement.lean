import NfdGateway.Lib.Transition
import NfdGateway.NameTree.Lookup

/-! The name tree as a set of names. The abstract machine says which names a lookup creates
and which an erasure removes; the hash table refines it. -/
namespace NfdGateway

open List Option Transition

@[ext] structure Names (C : Type) where
  stored : Set (Name C) := ∅
  inUse : Set (Name C) := ∅

namespace Names

variable {C : Type} {A : Names C} {m n : Name C}

def lookup (A : Names C) (n : Name C) : Names C :=
  { A with stored := A.stored ∪ {p | p <+: n} }

def obsolete (A : Names C) (n : Name C) : Set (Name C) :=
  {p | p <+: n ∧ ∀ q ∈ A.stored, p <+: q → q <+: n ∧ q ∉ A.inUse}

def erase (A : Names C) (n : Name C) : Names C :=
  { A with stored := A.stored \ A.obsolete n }

def setInUse (A : Names C) (n : Name C) (used : Bool) : Names C :=
  { A with inUse := {p | p = n ∧ used = true ∨ p ≠ n ∧ p ∈ A.inUse} }

def remove (A : Names C) (n : Name C) : Names C := { A with stored := A.stored \ {n} }

lemma erase_of_used (hn : n ∈ A.stored)
    (hused : n ∈ A.inUse ∨ ∃ q ∈ A.stored, n <+: q ∧ q ≠ n) : A.erase n = A := by
  have hempty : A.obsolete n = ∅ := by
    refine Set.eq_empty_of_forall_notMem ?_
    rintro p ⟨hp, hall⟩
    rcases hused with hu | ⟨q, hq, hnq, hne⟩
    · exact (hall n hn hp).2 hu
    · exact hne ((hall q hq (hp.trans hnq)).1.eq_of_length_le hnq.length_le)
  simp [erase, hempty]

lemma erase_leaf {c : C} (hused : m ++ [c] ∉ A.inUse)
    (hleaf : ∀ q ∈ A.stored, m ++ [c] <+: q → q = m ++ [c]) :
    A.erase (m ++ [c]) = (A.remove (m ++ [c])).erase m := by
  have hself : m ++ [c] ∈ A.obsolete (m ++ [c]) := by
    refine ⟨prefix_rfl, fun q hq hpre => ?_⟩
    rw [hleaf q hq hpre]
    exact ⟨prefix_rfl, hused⟩
  have hrest : ∀ p, p ≠ m ++ [c] →
      (p ∈ A.obsolete (m ++ [c]) ↔ p ∈ (A.remove (m ++ [c])).obsolete m) := by
    intro p hne
    constructor
    · rintro ⟨hp, hall⟩
      refine ⟨(prefix_concat_iff.mp hp).resolve_left hne, ?_⟩
      rintro q ⟨hq, hqne⟩ hpq
      obtain ⟨h1, h2⟩ := hall q hq hpq
      exact ⟨(prefix_concat_iff.mp h1).resolve_left hqne, h2⟩
    rintro ⟨hp, hall⟩
    refine ⟨hp.trans (prefix_append _ _), fun q hq hpq => ?_⟩
    by_cases hqe : q = m ++ [c]
    · rw [hqe]
      exact ⟨prefix_rfl, hused⟩
    · obtain ⟨h1, h2⟩ := hall q ⟨hq, hqe⟩ hpq
      exact ⟨h1.trans (prefix_append _ _), h2⟩
  refine Names.ext (Set.ext fun p => ?_) rfl
  by_cases hp : p = m ++ [c]
  · subst hp
    exact iff_of_false (fun h => h.2 hself) (fun h => h.1.2 rfl)
  constructor
  · rintro ⟨h1, h2⟩
    exact ⟨⟨h1, hp⟩, fun h => h2 ((hrest p hp).mpr h)⟩
  · rintro ⟨⟨h1, -⟩, h2⟩
    exact ⟨h1, fun h => h2 ((hrest p hp).mp h)⟩

lemma erase_root (hused : [] ∉ A.inUse) (hleaf : ∀ q ∈ A.stored, q = []) :
    A.erase [] = A.remove [] := by
  have hobs : A.obsolete [] = {[]} := by
    refine Set.ext fun p => ⟨fun hp => prefix_nil.mp hp.1, ?_⟩
    rintro rfl
    refine ⟨prefix_rfl, fun q hq _ => ?_⟩
    rw [hleaf q hq]
    exact ⟨prefix_rfl, hused⟩
  simp [erase, remove, hobs]

end Names

namespace NameTree

variable {C : Type} {hash : C → Hash} {T T' : NameTree C} {id : EntryId} {name : Name C}

def names (T : NameTree C) : Names C where
  stored := {n | n ∈ T.storedNames}
  inUse := {n | ∃ id ∈ T.linked, (T.entries id).pfx = n ∧ (T.entries id).tables.isEmpty = false}

lemma Grown.inUse (h : Grown T T') : T'.names.inUse = T.names.inUse := by
  obtain ⟨l, hl, hempty⟩ := h.linked
  refine Set.ext fun n => ⟨?_, ?_⟩
  · rintro ⟨id, hid, rfl, hu⟩
    rcases mem_append.mp (hl.mem_iff.mp hid) with hid | hid
    · rw [hempty id hid] at hu
      simp [TableEntries.isEmpty] at hu
    · exact ⟨id, hid, (h.pfx id hid).symm, h.tables id hid ▸ hu⟩
  · rintro ⟨id, hid, rfl, hu⟩
    exact ⟨id, h.mem_linked hid, h.pfx id hid, (h.tables id hid).symm ▸ hu⟩

lemma lookup_names [DecidableEq C] (h : Inv hash T) (hok : GrowthOk hash T name.inits) :
    (T.lookup hash name).1.names = T.names.lookup name := by
  obtain ⟨T', id, he, -, hg, -, -, hn⟩ := lookup_spec h hok
  rw [he]
  exact Names.ext (Set.ext hn) hg.inUse

def ShrinkOk (T : NameTree C) : Prop :=
  ∀ k, T.minNBuckets ≤ T.nBuckets / 2 ^ (k + 1) →
    ∀ id ∈ T.linked, Agrees (T.nBuckets / 2 ^ (k + 1)) (T.entries id).hash

lemma ShrinkOk.setTables (hok : ShrinkOk T) (id : EntryId) (t : TableEntries) :
    ShrinkOk (T.setTables id t) := by
  intro k hk x hx
  rw [setTables_entries]
  exact hok k hk x hx

structure Pruned (T T' : NameTree C) : Prop where
  linked : ∃ l, T.linked.Perm (l ++ T'.linked) ∧ ∀ id ∈ l, (T.entries id).tables.isEmpty = true
  pfx : ∀ id ∈ T'.linked, (T'.entries id).pfx = (T.entries id).pfx
  tables : ∀ id ∈ T'.linked, (T'.entries id).tables = (T.entries id).tables
  minNBuckets : T'.minNBuckets = T.minNBuckets

lemma Pruned.refl (T : NameTree C) : Pruned T T :=
  ⟨⟨[], .refl _, by simp⟩, fun _ _ => rfl, fun _ _ => rfl, rfl⟩

lemma Pruned.mem_linked (h : Pruned T T') (hid : id ∈ T'.linked) : id ∈ T.linked := by
  obtain ⟨l, hl, -⟩ := h.linked
  exact hl.mem_iff.mpr (mem_append_right _ hid)

lemma Pruned.trans {T'' : NameTree C} (h : Pruned T T') (h' : Pruned T' T'') : Pruned T T'' := by
  obtain ⟨l, hl, hempty⟩ := h.linked
  obtain ⟨l', hl', hempty'⟩ := h'.linked
  refine ⟨⟨l ++ l', ?_, ?_⟩, ?_, ?_, h'.minNBuckets.trans h.minNBuckets⟩
  · rw [append_assoc]
    exact hl.trans (hl'.append_left l)
  · intro id hid
    rcases mem_append.mp hid with hid | hid
    · exact hempty id hid
    · rw [← h.tables id (hl'.mem_iff.mpr (mem_append_left _ hid))]
      exact hempty' id hid
  · intro id hid
    rw [h'.pfx id hid, h.pfx id (h'.mem_linked hid)]
  · intro id hid
    rw [h'.tables id hid, h.tables id (h'.mem_linked hid)]

lemma pruned_resize {n : ℕ} (hn : 0 < n) : Pruned T (T.resize n) :=
  ⟨⟨[], (linked_resize hn).symm, by simp⟩, fun _ _ => rfl, fun _ _ => rfl, rfl⟩

lemma names_resize {n : ℕ} (hn : 0 < n) : (T.resize n).names = T.names :=
  Names.ext (Set.ext fun _ => mem_storedNames_resize hn) (grown_resize hn).inUse

lemma shrinkIfSparse_spec (h : Inv hash T) (hok : ShrinkOk T) (hmin : 0 < T.minNBuckets) :
    Inv hash T.shrinkIfSparse ∧ Pruned T T.shrinkIfSparse ∧ ShrinkOk T.shrinkIfSparse ∧
      T.shrinkIfSparse.names = T.names := by
  unfold shrinkIfSparse
  split
  next hsparse =>
    have hpos : 0 < T.nBuckets / 2 := hmin.trans_le hsparse.1
    refine ⟨h.resize hpos (hok 0 hsparse.1), pruned_resize hpos, ?_, names_resize hpos⟩
    intro k hk id hid
    rw [length_resize hpos, Nat.div_div_eq_div_mul, ← Nat.pow_succ'] at hk ⊢
    exact hok (k + 1) hk id ((linked_resize hpos).mem_iff.mp hid)
  · exact ⟨h, .refl T, hok, rfl⟩

lemma TreeInv.leaf (h : TreeInv hash T) (hid : id ∈ T.linked)
    (hc : (T.entries id).children = []) {q : Name C} (hq : q ∈ T.storedNames)
    (hpre : (T.entries id).pfx <+: q) : q = (T.entries id).pfx := by
  obtain ⟨x, hx, rfl⟩ := mem_storedNames.mp hq
  obtain ⟨r, hr⟩ := hpre
  cases r with
  | nil => simpa using hr.symm
  | cons c r =>
    exfalso
    have hnext : (T.entries id).pfx ++ [c] <+: (T.entries x).pfx := ⟨r, by simpa using hr⟩
    obtain ⟨y, hy, he⟩ := h.stored_prefixes hx hnext
    have hh := h.hangs y hy
    cases hp : (T.entries y).parent with
    | none =>
      rw [hp, he] at hh
      simp [HangsFrom] at hh
    | some p =>
      rw [hp, he] at hh
      obtain ⟨hpl, c', hc'⟩ := hh
      have hpid : p = id := h.unique p hpl id hid (append_inj' hc' rfl).1.symm
      have hmem := (h.mem_children id hid y).mpr ⟨hy, by rw [hp, hpid]⟩
      simp [hc] at hmem

lemma TreeInv.child_below (h : TreeInv hash T) (hid : id ∈ T.linked)
    (hc : (T.entries id).children ≠ []) :
    ∃ q ∈ T.storedNames, (T.entries id).pfx <+: q ∧ q ≠ (T.entries id).pfx := by
  obtain ⟨c, hmem⟩ := exists_mem_of_ne_nil _ hc
  obtain ⟨hcl, hcp⟩ := (h.mem_children id hid c).mp hmem
  have hh := h.hangs c hcl
  rw [hcp] at hh
  obtain ⟨-, x, hx⟩ := hh
  exact ⟨_, mem_storedNames.mpr ⟨c, hcl, hx⟩, prefix_append _ _, by simp⟩

lemma dropLeaf_spec (h : Inv hash T) (hok : ShrinkOk T) (hid : id ∈ T.linked)
    (ht : (T.entries id).tables.isEmpty = true) :
    Pruned T (T.dropLeaf id) ∧ ShrinkOk (T.dropLeaf id) ∧
      (T.dropLeaf id).names = T.names.remove (T.entries id).pfx := by
  have hr := removed_dropLeaf h hid
  have hmem := fun x => hr.mem_linked h.nodup (x := x)
  have hm : (T.dropLeaf id).minNBuckets = T.minNBuckets := minNBuckets_dropLeaf
  have hn : (T.dropLeaf id).nBuckets = T.nBuckets := nBuckets_dropLeaf
  refine ⟨⟨⟨[id], hr.linked, by simpa using ht⟩, fun _ => hr.pfx_eq, fun _ => hr.tables_eq, hm⟩,
    ?_, ?_⟩
  · intro k hk x hx
    rw [hm, hn] at hk
    rw [hn, hr.hash_eq hx]
    exact hok k hk x (hr.mem_of_mem hx)
  refine Names.ext (Set.ext fun n => ?_) (Set.ext fun n => ?_)
  · constructor
    · intro hs
      obtain ⟨x, hx, rfl⟩ := mem_storedNames.mp hs
      rw [hr.pfx_eq hx]
      refine ⟨mem_storedNames.mpr ⟨x, hr.mem_of_mem hx, rfl⟩, fun he => ?_⟩
      exact ((hmem x).mp hx).2 (h.unique x (hr.mem_of_mem hx) id hid he)
    · rintro ⟨hs, hne⟩
      obtain ⟨x, hx, rfl⟩ := mem_storedNames.mp hs
      have hx' := (hmem x).mpr ⟨hx, by rintro rfl; exact hne rfl⟩
      exact mem_storedNames.mpr ⟨x, hx', hr.pfx_eq hx'⟩
  · constructor
    · rintro ⟨x, hx, rfl, hu⟩
      exact ⟨x, hr.mem_of_mem hx, (hr.pfx_eq hx).symm, hr.tables_eq hx ▸ hu⟩
    rintro ⟨x, hx, rfl, hu⟩
    have hx' := (hmem x).mpr ⟨hx, by rintro rfl; simp [ht] at hu⟩
    exact ⟨x, hx', hr.pfx_eq hx', (hr.tables_eq hx').symm ▸ hu⟩

lemma Inv.eraseUpward_succ (h : Inv hash T) (hid : id ∈ T.linked) (fuel : ℕ) :
    ((T.entries id).isEmpty = false ∧ eraseUpward (fuel + 1) T id = some (T, false)) ∨
    ((T.entries id).children = [] ∧ (T.entries id).tables.isEmpty = true ∧
      (((T.entries id).pfx = [] ∧
        eraseUpward (fuel + 1) T id = some ((T.dropLeaf id).shrinkIfSparse, true)) ∨
      ∃ p c, p ∈ (T.dropLeaf id).linked ∧ (T.entries id).pfx = (T.entries p).pfx ++ [c] ∧
        eraseUpward (fuel + 1) T id =
          (eraseUpward fuel (T.dropLeaf id) p).map fun r => (r.1.shrinkIfSparse, true))) := by
  by_cases hempty : (T.entries id).isEmpty = true
  · right
    obtain ⟨hc, ht⟩ : (T.entries id).children = [] ∧ (T.entries id).tables.isEmpty = true := by
      simpa [TreeEntry.isEmpty] using hempty
    refine ⟨hc, ht, ?_⟩
    have hh := h.hangs id hid
    rw [eraseUpward, if_pos hempty]
    simp only [h.unlinkNode hid, bind_some]
    cases hpar : (T.entries id).parent with
    | none =>
      rw [hpar] at hh
      exact .inl ⟨hh, rfl⟩
    | some p =>
      rw [hpar] at hh
      obtain ⟨hpl, c, hpc⟩ := hh
      refine .inr ⟨p, c, ((removed_dropLeaf h hid).mem_linked h.nodup).mpr ⟨hpl, ?_⟩, hpc, rfl⟩
      rintro rfl
      simp at hpc
  · left
    exact ⟨by simpa using hempty, by rw [eraseUpward, if_neg hempty]⟩

lemma eraseUpward_spec (fuel : ℕ) (h : Inv hash T) (hid : id ∈ T.linked)
    (hfuel : (T.entries id).pfx.length < fuel) (hok : ShrinkOk T) (hmin : 0 < T.minNBuckets) :
    ∃ T' b, eraseUpward fuel T id = some (T', b) ∧ Inv hash T' ∧ Pruned T T' ∧ ShrinkOk T' ∧
      T'.names = T.names.erase (T.entries id).pfx := by
  induction fuel generalizing T id with
  | zero => omega
  | succ fuel ih =>
    rcases h.eraseUpward_succ hid fuel with ⟨hused, he⟩ | ⟨hc, ht, hturn⟩
    · refine ⟨T, false, he, h, .refl T, hok, ?_⟩
      refine (Names.erase_of_used (mem_storedNames.mpr ⟨id, hid, rfl⟩) ?_).symm
      by_cases hc : (T.entries id).children = []
      · left
        refine ⟨id, hid, rfl, ?_⟩
        simpa [TreeEntry.isEmpty, hc] using hused
      · exact .inr (h.child_below hid hc)
    obtain ⟨hp₁, hok₁, hn₁⟩ := dropLeaf_spec h hok hid ht
    have hi₁ := h.dropLeaf hid hc
    have hunused : (T.entries id).pfx ∉ T.names.inUse := by
      rintro ⟨x, hx, he, hu⟩
      rw [h.unique x hx id hid he, ht] at hu
      cases hu
    have hleaf : ∀ q ∈ T.names.stored, (T.entries id).pfx <+: q → q = (T.entries id).pfx :=
      fun q hq => h.leaf hid hc hq
    rcases hturn with ⟨hroot, he⟩ | ⟨p, c, hpl₁, hpc, he⟩
    · obtain ⟨hi, hp, hok', hn⟩ := shrinkIfSparse_spec hi₁ hok₁ (hp₁.minNBuckets ▸ hmin)
      refine ⟨_, true, he, hi, hp₁.trans hp, hok', ?_⟩
      rw [hroot] at hunused hleaf hn₁ ⊢
      rw [hn, hn₁, Names.erase_root hunused fun q hq => hleaf q hq nil_prefix]
    have hpfx := hp₁.pfx p hpl₁
    have hlen : ((T.dropLeaf id).entries p).pfx.length < fuel := by
      rw [hpfx]
      rw [hpc, length_append, length_singleton] at hfuel
      omega
    obtain ⟨T₂, b, he₂, hi₂, hp₂, hok₂, hn₂⟩ := ih hi₁ hpl₁ hlen hok₁ (hp₁.minNBuckets ▸ hmin)
    obtain ⟨hi, hp, hok', hn⟩ := shrinkIfSparse_spec hi₂ hok₂ ((hp₁.trans hp₂).minNBuckets ▸ hmin)
    refine ⟨_, true, by rw [he, he₂, map_some], hi, (hp₁.trans hp₂).trans hp, hok', ?_⟩
    rw [hpc] at hunused hleaf hn₁ ⊢
    rw [hn, hn₂, hn₁, hpfx, Names.erase_leaf hunused hleaf]

lemma eraseEntryIfEmpty_spec (h : Inv hash T) (hid : id ∈ T.linked) (hok : ShrinkOk T)
    (hmin : 0 < T.minNBuckets) :
    ∃ T' b, T.eraseEntryIfEmpty id = some (T', b) ∧ Inv hash T' ∧ Pruned T T' ∧
      T'.names = T.names.erase (T.entries id).pfx := by
  obtain ⟨T', b, he, hi, hp, -, hn⟩ := eraseUpward_spec _ h hid (Nat.lt_succ_self _) hok hmin
  exact ⟨T', b, he, hi, hp, hn⟩

lemma setTables_names (h : Inv hash T) (hid : id ∈ T.linked) (t : TableEntries) :
    (T.setTables id t).names = T.names.setInUse (T.entries id).pfx !t.isEmpty := by
  refine Names.ext (Set.ext fun n => ?_) (Set.ext fun n => ?_)
  · show n ∈ (T.setTables id t).storedNames ↔ n ∈ T.storedNames
    simp only [storedNames, setTables_entries]
    rfl
  constructor
  · rintro ⟨x, hx, rfl, hu⟩
    rw [setTables_entries] at hu ⊢
    by_cases hxid : x = id
    · subst hxid
      exact .inl ⟨rfl, by simpa using hu⟩
    · refine .inr ⟨fun he => hxid (h.unique x hx id hid he), x, hx, rfl, ?_⟩
      simpa [hxid] using hu
  · rintro (⟨rfl, hu⟩ | ⟨hne, x, hx, rfl, hu⟩)
    · exact ⟨id, hid, by rw [setTables_entries], by simpa [setTables_entries] using hu⟩
    have hxid : x ≠ id := by
      rintro rfl
      exact hne rfl
    exact ⟨x, hx, by rw [setTables_entries], by simpa [setTables_entries, hxid] using hu⟩

inductive Event (C : Type)
  | lookup (name : Name C)
  | eraseEntryIfEmpty (id : EntryId)
  | setTables (id : EntryId) (t : TableEntries)

/-- One call on the name tree, next to what it should do to the set of names. An entry that
is not linked any more may not be used. -/
def step [DecidableEq C] (hash : C → Hash) (s : NameTree C × Names C) :
    Event C → Option (NameTree C × Names C)
  | .lookup name => some ((s.1.lookup hash name).1, s.2.lookup name)
  | .eraseEntryIfEmpty id =>
    if id ∈ s.1.linked then
      (s.1.eraseEntryIfEmpty id).map fun r => (r.1, s.2.erase (s.1.entries id).pfx)
    else none
  | .setTables id t =>
    if id ∈ s.1.linked then
      some (s.1.setTables id t, s.2.setInUse (s.1.entries id).pfx !t.isEmpty)
    else none

def Event.Ok [DecidableEq C] (hash : C → Hash) (s : NameTree C × Names C) : Event C → Prop
  | .lookup name => GrowthOk hash s.1 name.inits
  | .eraseEntryIfEmpty _ => ShrinkOk s.1
  | .setTables _ _ => True

structure Refines (hash : C → Hash) (s : NameTree C × Names C) : Prop where
  inv : Inv hash s.1
  names : s.1.names = s.2
  minNBuckets : 0 < s.1.minNBuckets

lemma treeInv_of_nil (hl : T.linked = []) (hn : T.nItems = 0) : TreeInv hash T := by
  refine ⟨?_, ?_, ?_, ?_, ?_, ?_, ?_, by simp [hl, hn]⟩ <;> simp [hl]

lemma inv_new {n : ℕ} (hn : 0 < n) : Inv hash (new n) := by
  have hc : ∀ i, Chained.chain (new n : NameTree C).buckets i = [] := by
    intro i
    by_cases hi : i < n <;> simp [Chained.chain, new, List.getD, hi]
  refine ⟨treeInv_of_nil (by simp [new, linked]) rfl, by simpa [new, nBuckets] using hn, ?_, ?_⟩
  · intro i x hx
    simp [hc] at hx
  · intro i
    simp [hc]

lemma refines_new {n : ℕ} (hn : 0 < n) : Refines hash (new n, {}) := by
  have hl : (new n : NameTree C).linked = [] := by simp [new, linked]
  refine ⟨inv_new hn, Names.ext ?_ ?_, hn⟩
  · simp [names, storedNames, hl]
  · simp [names, hl]

lemma refines_step [DecidableEq C] {s s' : NameTree C × Names C} {ev : Event C}
    (h : Refines hash s) (hok : ev.Ok hash s) (hs : step hash s ev = some s') :
    Refines hash s' := by
  cases ev with
  | lookup name =>
    cases hs
    obtain ⟨T', id, he, hi, hg, -⟩ := lookup_spec h.inv hok
    have hn := lookup_names h.inv hok
    refine ⟨?_, hn.trans (by rw [h.names]), ?_⟩ <;> rw [he]
    · exact hi
    · exact hg.minNBuckets ▸ h.minNBuckets
  | eraseEntryIfEmpty id =>
    simp only [step] at hs
    split at hs
    next hid =>
      obtain ⟨T', b, he, hi, hp, hn⟩ := eraseEntryIfEmpty_spec h.inv hid hok h.minNBuckets
      rw [he] at hs
      cases hs
      exact ⟨hi, by rw [hn, h.names], hp.minNBuckets ▸ h.minNBuckets⟩
    · cases hs
  | setTables id t =>
    simp only [step] at hs
    split at hs
    next hid =>
      cases hs
      exact ⟨h.inv.setTables id t, by rw [setTables_names h.inv hid, h.names], h.minNBuckets⟩
    · cases hs

lemma refines_run [DecidableEq C] {n : ℕ} (hn : 0 < n) {s : NameTree C × Names C}
    (h : Reach (step hash) (fun s ev => ev.Ok hash s) (new n, {}) s) :
    Refines hash s :=
  h.invariant (refines_new hn) fun _ _ _ hs hok => refines_step hs hok

lemma Inv.findExactMatch_iff [DecidableEq C] (h : Inv hash T) :
    T.findExactMatch hash name = some id ↔ id ∈ T.linked ∧ (T.entries id).pfx = name := by
  constructor
  · intro hf
    have hp := find?_some hf
    exact ⟨mem_linked_of_bucket (mem_of_find?_eq_some hf),
      by simpa using (by simpa using hp : _ ∧ _).2⟩
  · rintro ⟨hid, rfl⟩
    refine Chained.find?_of_unique (h.mem_bucket hid) (by simp [h.hash_eq id hid]) ?_
    intro x hx hp
    exact h.unique x (mem_linked_of_bucket hx) id hid (by simpa using (by simpa using hp : _ ∧ _).2)

lemma TreeInv.storedNames_nodup (h : TreeInv hash T) : T.storedNames.Nodup :=
  List.Nodup.map_on h.unique h.nodup

/-- In every run that resizes only to sizes on which the two indices agree, every entry is
in the bucket of its hash, the items are counted, exactly the names created and not erased
since are found, none has two entries, and erasing has defined behaviour. -/
theorem stored_names_of_run [DecidableEq C] {n : ℕ} (hn : 0 < n) {A : Names C}
    (h : Reach (step hash) (fun s ev => ev.Ok hash s) (new n, {}) (T, A)) :
    (∀ i, ∀ id ∈ Chained.chain T.buckets i, (T.entries id).hash.toNat % T.nBuckets = i) ∧
    T.nItems = T.linked.length ∧
    (∀ name, (∃ id, T.findExactMatch hash name = some id) ↔ name ∈ A.stored) ∧
    T.storedNames.Nodup ∧
    ∀ id ∈ T.linked, ShrinkOk T → T.eraseEntryIfEmpty id ≠ none := by
  have hr := refines_run hn h
  have hinv : Inv hash T := hr.inv
  refine ⟨hinv.placed, hinv.nItems_eq, fun name => ?_, hinv.storedNames_nodup, ?_⟩
  · rw [← show T.names = A from hr.names]
    simp only [hinv.findExactMatch_iff]
    exact mem_storedNames.symm
  · intro id hid hok
    obtain ⟨T', b, he, -⟩ := eraseEntryIfEmpty_spec hinv hid hok hr.minNBuckets
    simp [he]

def numberHash (c : ℕ) : Hash := BitVec.ofNat 64 c

def wideHash (_ : Unit) : Hash := 2 ^ 32

/-- With three buckets, the second entry enlarges the table to six and gets lost. -/
theorem stored_name_lost : ∃ T A, Reach (step wideHash) Any (new 3, {}) (T, A) ∧
    [()] ∈ A.stored ∧ T.findExactMatch wideHash [()] = none :=
  ⟨_, _, .step (a := .lookup [()]) .init trivial rfl, .inr prefix_rfl, by decide⟩

/-- With one bucket the table is enlarged to four, which divides 2^32. -/
theorem stored_names_of_run_two :
    (∃ id, ((new 1).lookup wideHash [()]).1.findExactMatch wideHash [] = some id) ∧
    ∃ id, ((new 1).lookup wideHash [()]).1.findExactMatch wideHash [()] = some id := by
  refine (fun h => ⟨(h _).mpr (.inr nil_prefix), (h _).mpr (.inr prefix_rfl)⟩)
    (stored_names_of_run (A := ({} : Names Unit).lookup [()]) Nat.one_pos
      (.step (a := .lookup [()]) .init ?_ rfl)).2.2.1
  intro k hk h _
  have hk' : 1 * 2 ^ k / 2 < 2 := hk
  have hk2 : k < 2 := by
    by_contra hle
    have hpow : 2 ^ 2 ≤ 2 ^ k := Nat.pow_le_pow_right (by decide) (Nat.not_lt.mp hle)
    omega
  refine agrees_of_dvd ?_ h
  rw [show (new 1 : NameTree Unit).nBuckets = 1 from rfl, one_mul]
  exact pow_dvd_pow 2 (by omega)

end NameTree

end NfdGateway
