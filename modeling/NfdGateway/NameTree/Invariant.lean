import NfdGateway.NameTree.Tree

/-! What every operation of the name tree keeps: the tree of entries over the linked ones,
and the place of each entry in the hash table. -/
namespace NfdGateway.NameTree

open List

variable {C : Type} {hash : C → Hash} {T T' : NameTree C} {id : EntryId}
  {name : Name C} {parent : Option EntryId}

/-- The parent is the entry for the name without its last component. -/
def HangsFrom (T : NameTree C) (name : Name C) : Option EntryId → Prop
  | none => name = []
  | some p => p ∈ T.linked ∧ ∃ c, name = (T.entries p).pfx ++ [c]

lemma HangsFrom.mono (h : T.HangsFrom name parent) (hm : ∀ p, parent = some p → p ∈ T.linked →
      p ∈ T'.linked ∧ (T'.entries p).pfx = (T.entries p).pfx) : T'.HangsFrom name parent := by
  cases parent with
  | none => exact h
  | some p =>
    obtain ⟨hp, he⟩ := hm p rfl h.1
    exact ⟨hp, by rw [he]; exact h.2⟩

/-- The linked entries form a tree by their names, each name once. -/
structure TreeInv (hash : C → Hash) (T : NameTree C) : Prop where
  hash_eq : ∀ id ∈ T.linked, (T.entries id).hash = computeHash hash (T.entries id).pfx
  lt_fresh : ∀ id ∈ T.linked, id < T.fresh
  nodup : T.linked.Nodup
  unique : ∀ a ∈ T.linked, ∀ b ∈ T.linked, (T.entries a).pfx = (T.entries b).pfx → a = b
  hangs : ∀ id ∈ T.linked, T.HangsFrom (T.entries id).pfx (T.entries id).parent
  children_nodup : ∀ id ∈ T.linked, (T.entries id).children.Nodup
  mem_children : ∀ p ∈ T.linked, ∀ c, c ∈ (T.entries p).children ↔
    c ∈ T.linked ∧ (T.entries c).parent = some p
  nItems_eq : T.nItems = T.linked.length

def index (T : NameTree C) (id : EntryId) : ℕ := (T.entries id).hash.toNat % T.nBuckets

def Before (T : NameTree C) (a b : EntryId) : Prop :=
  (T.entries a).hash = (T.entries b).hash → ¬ (T.entries b).pfx <+: (T.entries a).pfx

/-- Each entry is in the bucket of its hash, after the prefixes of its name with that hash. -/
structure Inv (hash : C → Hash) (T : NameTree C) : Prop extends TreeInv hash T where
  nBuckets_pos : 0 < T.nBuckets
  placed : Chained.Placed T.index T.buckets
  ordered : ∀ i, (Chained.chain T.buckets i).Pairwise T.Before

lemma TreeInv.fresh_not_linked (h : TreeInv hash T) : T.fresh ∉ T.linked :=
  fun hf => lt_irrefl _ (h.lt_fresh _ hf)

/-- `T'` has one more leaf. -/
structure Added (hash : C → Hash) (name : Name C) (parent : Option EntryId)
    (T T' : NameTree C) : Prop where
  linked : T'.linked.Perm (T.fresh :: T.linked)
  entry : T'.entries T.fresh = { hash := computeHash hash name, pfx := name, parent := parent }
  others : ∀ id ∈ T.linked, T'.entries id = { T.entries id with
    children := if parent = some id then (T.entries id).children ++ [T.fresh]
      else (T.entries id).children }
  fresh : T'.fresh = T.fresh + 1
  nItems : T'.nItems = T.nItems + 1

section Added

variable (ha : Added hash name parent T T')

include ha

lemma Added.mem_linked : id ∈ T'.linked ↔ id = T.fresh ∨ id ∈ T.linked := by
  rw [ha.linked.mem_iff, mem_cons]

section

variable (hid : id ∈ T.linked)
include hid

lemma Added.hash_eq : (T'.entries id).hash = (T.entries id).hash := by
  rw [ha.others id hid]

lemma Added.pfx_eq : (T'.entries id).pfx = (T.entries id).pfx := by
  rw [ha.others id hid]

lemma Added.parent_eq : (T'.entries id).parent = (T.entries id).parent := by
  rw [ha.others id hid]

lemma Added.tables_eq : (T'.entries id).tables = (T.entries id).tables := by
  rw [ha.others id hid]

end

end Added

lemma Added.hangs (ha : Added hash name parent T T') {n : Name C} {q : Option EntryId}
    (h : T.HangsFrom n q) : T'.HangsFrom n q :=
  h.mono fun _ _ hp => ⟨ha.mem_linked.mpr (.inr hp), ha.pfx_eq hp⟩

lemma TreeInv.parent_ne_fresh (h : TreeInv hash T) (hid : id ∈ T.linked) :
    (T.entries id).parent ≠ some T.fresh := by
  intro hp
  have hh := h.hangs id hid
  rw [hp] at hh
  exact h.fresh_not_linked hh.1

lemma TreeInv.added (h : TreeInv hash T) (ha : Added hash name parent T T')
    (hnew : ∀ id ∈ T.linked, (T.entries id).pfx ≠ name) (hpar : T.HangsFrom name parent) :
    TreeInv hash T' where
  hash_eq id hid := by
    rcases ha.mem_linked.mp hid with rfl | hid
    · simp [ha.entry]
    · rw [ha.hash_eq hid, ha.pfx_eq hid]
      exact h.hash_eq id hid
  lt_fresh id hid := by
    rw [ha.fresh]
    rcases ha.mem_linked.mp hid with rfl | hid
    · exact Nat.lt_succ_self _
    · exact Nat.lt_succ_of_lt (h.lt_fresh id hid)
  nodup := ha.linked.nodup_iff.mpr (nodup_cons.mpr ⟨h.fresh_not_linked, h.nodup⟩)
  unique a hA b hB hab := by
    rcases ha.mem_linked.mp hA with rfl | hA <;> rcases ha.mem_linked.mp hB with rfl | hB
    · rfl
    · rw [ha.entry, ha.pfx_eq hB] at hab
      exact absurd hab.symm (hnew b hB)
    · rw [ha.entry, ha.pfx_eq hA] at hab
      exact absurd hab (hnew a hA)
    · rw [ha.pfx_eq hA, ha.pfx_eq hB] at hab
      exact h.unique a hA b hB hab
  hangs id hid := by
    rcases ha.mem_linked.mp hid with rfl | hid
    · rw [ha.entry]
      exact ha.hangs hpar
    · rw [ha.pfx_eq hid, ha.parent_eq hid]
      exact ha.hangs (h.hangs id hid)
  children_nodup id hid := by
    rcases ha.mem_linked.mp hid with rfl | hid
    · simp [ha.entry]
    rw [ha.others id hid]
    have hnd := h.children_nodup id hid
    have hfresh : T.fresh ∉ (T.entries id).children := fun hc =>
      h.fresh_not_linked ((h.mem_children id hid _).mp hc).1
    split
    · exact nodup_append.mpr ⟨hnd, by simp, by rintro a hA b hB rfl; simp_all⟩
    · exact hnd
  mem_children p hp c := by
    rcases ha.mem_linked.mp hp with rfl | hp
    · -- nothing hangs from the new entry yet
      rw [ha.entry]
      simp only [not_mem_nil, false_iff, not_and]
      intro hc
      rcases ha.mem_linked.mp hc with rfl | hc
      · rw [ha.entry]
        rintro rfl
        exact h.fresh_not_linked hpar.1
      · rw [ha.parent_eq hc]
        exact h.parent_ne_fresh hc
    rw [ha.others p hp, ha.mem_linked]
    have hold := h.mem_children p hp c
    by_cases hc : c = T.fresh
    · subst hc
      have hno : T.fresh ∉ (T.entries p).children := fun hc =>
        h.fresh_not_linked (hold.mp hc).1
      rw [ha.entry]
      by_cases hpp : parent = some p <;> simp [hpp, hno]
    have hmem : (c ∈ if parent = some p then (T.entries p).children ++ [T.fresh]
        else (T.entries p).children) ↔ c ∈ (T.entries p).children := by
      split <;> simp [hc]
    simp only [hmem, hold, hc, false_or]
    refine and_congr_right fun hcl => ?_
    rw [ha.parent_eq hcl]
  nItems_eq := by rw [ha.nItems, h.nItems_eq, ha.linked.length_eq, length_cons]

lemma swapRemove_perm {α : Type} [DecidableEq α] {l : List α} {x : α} (hx : x ∈ l) :
    (swapRemove l x).Perm (l.erase x) := by
  obtain ⟨l₁, l₂, rfl, hl₁⟩ := eq_append_cons_of_mem hx
  rw [swapRemove, if_pos hx, idxOf_append_of_notMem hl₁, erase_append_right _ hl₁]
  simp only [idxOf_cons_self, erase_cons_head, Nat.add_zero]
  rcases eq_nil_or_concat l₂ with rfl | ⟨m, y, rfl⟩
  · simp
  have hlast : (l₁ ++ x :: m.concat y).getLastD x = y := by
    rw [show l₁ ++ x :: m.concat y = (l₁ ++ x :: m) ++ [y] by simp, getLastD_concat]
  have hset : (l₁ ++ x :: m.concat y).set l₁.length y = (l₁ ++ y :: m) ++ [y] := by simp
  rw [hlast, hset, dropLast_concat, concat_eq_append]
  exact (perm_append_singleton y m).symm.append_left l₁

/-- `T'` is without the leaf `id`. -/
structure Removed (id : EntryId) (T T' : NameTree C) : Prop where
  linked : T.linked.Perm (id :: T'.linked)
  others : ∀ x ∈ T'.linked, ∃ l, T'.entries x = { T.entries x with children := l } ∧
    if (T.entries id).parent = some x then l.Perm ((T.entries x).children.erase id)
    else l = (T.entries x).children
  fresh : T'.fresh = T.fresh
  nItems : T'.nItems + 1 = T.nItems

section Removed

variable (hr : Removed id T T')

include hr

lemma Removed.mem_of_mem {x : EntryId} (hx : x ∈ T'.linked) : x ∈ T.linked :=
  hr.linked.mem_iff.mpr (mem_cons_of_mem _ hx)

lemma Removed.mem_linked (hn : T.linked.Nodup) {x : EntryId} :
    x ∈ T'.linked ↔ x ∈ T.linked ∧ x ≠ id := by
  have hnd := nodup_cons.mp (hr.linked.nodup_iff.mp hn)
  rw [hr.linked.mem_iff, mem_cons]
  constructor
  · intro hx
    exact ⟨.inr hx, by rintro rfl; exact hnd.1 hx⟩
  rintro ⟨rfl | hx, hne⟩
  · exact absurd rfl hne
  · exact hx

section

variable {x : EntryId} (hx : x ∈ T'.linked)
include hx

lemma Removed.hash_eq : (T'.entries x).hash = (T.entries x).hash := by
  obtain ⟨l, he, -⟩ := hr.others x hx
  rw [he]

lemma Removed.pfx_eq : (T'.entries x).pfx = (T.entries x).pfx := by
  obtain ⟨l, he, -⟩ := hr.others x hx
  rw [he]

lemma Removed.parent_eq : (T'.entries x).parent = (T.entries x).parent := by
  obtain ⟨l, he, -⟩ := hr.others x hx
  rw [he]

lemma Removed.tables_eq : (T'.entries x).tables = (T.entries x).tables := by
  obtain ⟨l, he, -⟩ := hr.others x hx
  rw [he]

end

end Removed

lemma TreeInv.removed (h : TreeInv hash T) (hr : Removed id T T')
    (hleaf : (T.entries id).children = []) : TreeInv hash T' := by
  have hmem : ∀ {x}, x ∈ T'.linked ↔ x ∈ T.linked ∧ x ≠ id := hr.mem_linked h.nodup
  have hidl : id ∈ T.linked := hr.linked.mem_iff.mpr (by simp)
  refine ⟨?_, ?_, ?_, ?_, ?_, ?_, ?_, ?_⟩
  · intro x hx
    rw [hr.hash_eq hx, hr.pfx_eq hx]
    exact h.hash_eq x (hr.mem_of_mem hx)
  · intro x hx
    rw [hr.fresh]
    exact h.lt_fresh x (hr.mem_of_mem hx)
  · exact (nodup_cons.mp (hr.linked.nodup_iff.mp h.nodup)).2
  · intro a ha b hb hab
    rw [hr.pfx_eq ha, hr.pfx_eq hb] at hab
    exact h.unique a (hr.mem_of_mem ha) b (hr.mem_of_mem hb) hab
  · intro x hx
    have hold := h.hangs x (hr.mem_of_mem hx)
    rw [hr.pfx_eq hx, hr.parent_eq hx]
    refine hold.mono fun p hp hpl => ?_
    -- the removed entry has no children, so it is not the parent
    have hne : p ≠ id := by
      rintro rfl
      have hc := (h.mem_children p hidl x).mpr ⟨hr.mem_of_mem hx, hp⟩
      simp [hleaf] at hc
    have hpl' : p ∈ T'.linked := hmem.mpr ⟨hpl, hne⟩
    exact ⟨hpl', hr.pfx_eq hpl'⟩
  · intro x hx
    have hnd := h.children_nodup x (hr.mem_of_mem hx)
    obtain ⟨l, he, hl⟩ := hr.others x hx
    rw [he]
    split at hl
    · exact hl.nodup_iff.mpr (hnd.erase id)
    · exact hl ▸ hnd
  · intro p hp c
    have hold := h.mem_children p (hr.mem_of_mem hp) c
    have hnd := h.children_nodup p (hr.mem_of_mem hp)
    obtain ⟨l, he, hl⟩ := hr.others p hp
    have hparent : c ∈ T'.linked ∧ (T'.entries c).parent = some p ↔
        c ≠ id ∧ c ∈ (T.entries p).children := by
      rw [hold]
      constructor
      · rintro ⟨hc, hcp⟩
        rw [hr.parent_eq hc] at hcp
        exact ⟨(hmem.mp hc).2, (hmem.mp hc).1, hcp⟩
      · rintro ⟨hne, hc, hcp⟩
        have hc' := hmem.mpr ⟨hc, hne⟩
        exact ⟨hc', (hr.parent_eq hc').trans hcp⟩
    rw [he, hparent]
    split at hl
    · rw [hl.mem_iff, hnd.mem_erase_iff]
    rename_i hne
    rw [hl]
    refine ⟨fun hc => ⟨?_, hc⟩, fun hc => hc.2⟩
    rintro rfl
    exact hne (hold.mp hc).2
  · have hlen := hr.linked.length_eq
    have hn := hr.nItems
    rw [h.nItems_eq, hlen, length_cons] at hn
    exact Nat.succ_injective hn

lemma TreeInv.perm (h : TreeInv hash T) (hp : T'.linked.Perm T.linked)
    (he : T'.entries = T.entries) (hf : T'.fresh = T.fresh) (hn : T'.nItems = T.nItems) :
    TreeInv hash T' := by
  have hmem : ∀ {x}, x ∈ T'.linked ↔ x ∈ T.linked := hp.mem_iff
  refine ⟨?_, ?_, hp.nodup_iff.mpr h.nodup, ?_, ?_, ?_, ?_, ?_⟩
  · intro x hx
    rw [he]
    exact h.hash_eq x (hmem.mp hx)
  · intro x hx
    rw [hf]
    exact h.lt_fresh x (hmem.mp hx)
  · intro a ha b hb
    rw [he]
    exact h.unique a (hmem.mp ha) b (hmem.mp hb)
  · intro x hx
    have hold := h.hangs x (hmem.mp hx)
    rw [he]
    exact hold.mono fun p _ hpl => ⟨hmem.mpr hpl, by rw [he]⟩
  · intro x hx
    rw [he]
    exact h.children_nodup x (hmem.mp hx)
  · intro p hp' c
    rw [he, hmem]
    exact h.mem_children p (hmem.mp hp') c
  · rw [hn, h.nItems_eq, hp.length_eq]

lemma setTables_entries (T : NameTree C) (id : EntryId) (t : TableEntries) (x : EntryId) :
    (T.setTables id t).entries x =
      { T.entries x with tables := if x = id then t else (T.entries x).tables } := by
  by_cases hx : x = id
  · subst hx
    simp [setTables, setEntry]
  · simp [setTables, setEntry, hx]

lemma Inv.setTables (h : Inv hash T) (id : EntryId) (t : TableEntries) :
    Inv hash (T.setTables id t) := by
  have hl : (T.setTables id t).linked = T.linked := rfl
  refine ⟨⟨?_, h.lt_fresh, h.nodup, ?_, ?_, ?_, ?_, h.nItems_eq⟩, h.nBuckets_pos, ?_, ?_⟩
  · intro x hx
    rw [setTables_entries]
    exact h.hash_eq x hx
  · intro a ha b hb
    rw [setTables_entries, setTables_entries]
    exact h.unique a ha b hb
  · intro x hx
    have hold := h.hangs x hx
    rw [setTables_entries]
    exact hold.mono fun p _ hpl => ⟨hpl, by rw [setTables_entries]⟩
  · intro x hx
    rw [setTables_entries]
    exact h.children_nodup x hx
  · intro p hp c
    rw [setTables_entries, setTables_entries, hl]
    exact h.mem_children p hp c
  · intro i x hx
    have hold := h.placed i x hx
    unfold index at hold ⊢
    rw [setTables_entries]
    exact hold
  · intro i
    refine (h.ordered i).imp fun {a b} hab => ?_
    unfold Before
    rw [setTables_entries, setTables_entries]
    exact hab

/-- The index in a resize is the one of a lookup. -/
def Agrees (n : ℕ) (h : Hash) : Prop := resizeIndex n h = h.toNat % n

instance (n : ℕ) (h : Hash) : Decidable (Agrees n h) := by unfold Agrees; infer_instance

lemma agrees_of_dvd {n : ℕ} (hn : n ∣ 2 ^ 32) (h : Hash) : Agrees n h :=
  Nat.mod_mod_of_dvd _ hn

lemma Inv.pairwise_linked (h : Inv hash T) : T.linked.Pairwise T.Before := by
  refine h.placed.pairwise_flatten (fun x y hne he => ?_) h.ordered
  exact absurd (by rw [index, index, he]) hne

lemma length_resize {n : ℕ} (hn : 0 < n) : (T.resize n).nBuckets = n :=
  Chained.length_rehash fun _ _ => Nat.mod_lt _ hn

lemma linked_resize {n : ℕ} (hn : 0 < n) : (T.resize n).linked.Perm T.linked :=
  Chained.flatten_rehash fun _ _ => Nat.mod_lt _ hn

lemma Inv.resize (h : Inv hash T) {n : ℕ} (hn : 0 < n)
    (ha : ∀ id ∈ T.linked, Agrees n (T.entries id).hash) : Inv hash (T.resize n) := by
  have hlt : ∀ x ∈ T.linked, resizeIndex n (T.entries x).hash < n := fun _ _ => Nat.mod_lt _ hn
  refine ⟨h.perm (linked_resize hn) rfl rfl rfl, by rwa [length_resize hn], ?_, ?_⟩
  · refine Chained.placed_rehash hlt fun x hx => ?_
    rw [index, length_resize hn]
    exact ha x hx
  intro i
  by_cases hi : i < n
  · have hc : Chained.chain (T.resize n).buckets i = T.linked.filter _ :=
      Chained.chain_rehash hlt hi
    rw [hc]
    exact h.pairwise_linked.sublist filter_sublist
  have hle : (T.resize n).buckets.length ≤ i := by
    have := length_resize (T := T) hn
    unfold nBuckets at this
    omega
  rw [Chained.chain_eq_nil hle]
  exact .nil

lemma TreeInv.stored_prefixes (h : TreeInv hash T) (hid : id ∈ T.linked)
    (hp : name <+: (T.entries id).pfx) : ∃ x ∈ T.linked, (T.entries x).pfx = name := by
  generalize hn : (T.entries id).pfx.length = n
  induction n generalizing id with
  | zero =>
    have hnil := length_eq_zero_iff.mp hn
    rw [hnil, prefix_nil] at hp
    exact ⟨id, hid, hnil.trans hp.symm⟩
  | succ n ih =>
    have hh := h.hangs id hid
    cases hq : (T.entries id).parent with
    | none =>
      rw [hq] at hh
      rw [show (T.entries id).pfx = [] from hh] at hn
      simp at hn
    | some q =>
      rw [hq] at hh
      obtain ⟨hql, c, hc⟩ := hh
      rw [hc] at hp hn
      rcases prefix_concat_iff.mp hp with he | hp
      · exact ⟨id, hid, hc.trans he.symm⟩
      · exact ih hql hp (by simpa using hn)

lemma Inv.mem_bucket (h : Inv hash T) (hid : id ∈ T.linked) :
    id ∈ T.bucket (computeHash hash (T.entries id).pfx) := by
  rw [← h.hash_eq id hid]
  exact h.placed.mem_flatten.mp hid

lemma mem_linked_of_bucket {k : Hash} (hid : id ∈ T.bucket k) : id ∈ T.linked :=
  Chained.mem_flatten_of_mem_chain hid

lemma adopt_buckets (T : NameTree C) (id : EntryId) (parent : Option EntryId) :
    (T.adopt id parent).buckets = T.buckets := by
  cases parent <;> rfl

def linkNew (hash : C → Hash) (T : NameTree C) (name : Name C) : NameTree C :=
  { T with
    entries := Function.update T.entries T.fresh { hash := computeHash hash name, pfx := name }
    fresh := T.fresh + 1
    buckets := Chained.push T.buckets ((computeHash hash name).toNat % T.nBuckets) T.fresh }

lemma added_adopt (h : Inv hash T) (hpar : T.HangsFrom name parent) :
    Added hash name parent T ((T.linkNew hash name).adopt T.fresh parent) := by
  have hlt : (computeHash hash name).toNat % T.nBuckets < T.buckets.length :=
    Nat.mod_lt _ h.nBuckets_pos
  have hlinked : ((T.linkNew hash name).adopt T.fresh parent).linked.Perm
      (T.fresh :: T.linked) := by
    rw [linked, adopt_buckets]
    exact Chained.flatten_push hlt
  cases parent with
  | none =>
    refine ⟨hlinked, by simp [adopt, linkNew, setEntry], ?_, rfl, rfl⟩
    intro id hid
    have hne : id ≠ T.fresh := fun he => h.fresh_not_linked (he ▸ hid)
    simp [adopt, linkNew, setEntry, hne]
  | some p =>
    have hp : p ≠ T.fresh := fun he => h.fresh_not_linked (he ▸ hpar.1)
    refine ⟨hlinked, by simp [adopt, linkNew, setEntry, hp.symm], ?_, rfl, rfl⟩
    intro id hid
    have hne : id ≠ T.fresh := fun he => h.fresh_not_linked (he ▸ hid)
    by_cases hip : id = p
    · subst hip
      simp [adopt, linkNew, setEntry, hne]
    · simp [adopt, linkNew, setEntry, hne, hip, Ne.symm hip]

/-- A new leaf keeps the invariant. -/
lemma Inv.adopt (h : Inv hash T) (hnew : ∀ id ∈ T.linked, (T.entries id).pfx ≠ name)
    (hpar : T.HangsFrom name parent) :
    Inv hash ((T.linkNew hash name).adopt T.fresh parent) := by
  have ha := added_adopt h hpar
  generalize hT' : (T.linkNew hash name).adopt T.fresh parent = T' at ha
  have hb : T'.buckets =
      Chained.push T.buckets ((computeHash hash name).toNat % T.nBuckets) T.fresh := by
    rw [← hT', adopt_buckets]
    rfl
  have hn : T'.nBuckets = T.nBuckets := by
    rw [nBuckets, hb, Chained.length_push]
    rfl
  have hlt : (computeHash hash name).toNat % T.nBuckets < T.buckets.length :=
    Nat.mod_lt _ h.nBuckets_pos
  have hindex : T'.index T.fresh = (computeHash hash name).toNat % T.nBuckets := by
    rw [index, ha.entry, hn]
  refine ⟨h.added ha hnew hpar, hn ▸ h.nBuckets_pos, ?_, ?_⟩
  · have hold : Chained.Placed T'.index T.buckets := by
      refine h.placed.congr fun x hx => ?_
      rw [index, index, ha.hash_eq hx, hn]
    rw [hb, ← hindex]
    exact hold.push (hindex ▸ hlt)
  intro i
  rw [hb, Chained.chain_push hlt]
  have hsame : ∀ j, (Chained.chain T.buckets j).Pairwise T'.Before := by
    intro j
    refine (h.ordered j).imp_of_mem fun {a b} hA hB hab => ?_
    have hA' := Chained.mem_flatten_of_mem_chain hA
    have hB' := Chained.mem_flatten_of_mem_chain hB
    unfold Before
    rw [ha.hash_eq hA', ha.hash_eq hB', ha.pfx_eq hA', ha.pfx_eq hB']
    exact hab
  split
  · -- the new name is stored nowhere, so no entry before it extends it
    refine pairwise_append.mpr ⟨hsame _, pairwise_singleton _ _, ?_⟩
    intro a hA b hB _ hpre
    have hA' := Chained.mem_flatten_of_mem_chain hA
    rw [mem_singleton.mp hB, ha.entry, ha.pfx_eq hA'] at hpre
    obtain ⟨x, hx, he⟩ := h.stored_prefixes hA' hpre
    exact hnew x hx he
  · exact hsame i

lemma Inv.insert_stored [DecidableEq C] (h : Inv hash T) (hid : id ∈ T.linked) :
    T.insert hash (T.entries id).pfx = (T, id, false) := by
  have hfind : (T.bucket (computeHash hash (T.entries id).pfx)).find?
      (fun x => (T.entries x).pfx = (T.entries id).pfx) = some id := by
    refine Chained.find?_of_unique (h.mem_bucket hid) (by simp) fun x hx he => ?_
    exact h.unique x (mem_linked_of_bucket hx) id hid (by simpa using he)
  simp only [insert, hfind]

lemma insert_new [DecidableEq C] (hnew : ∀ id ∈ T.linked, (T.entries id).pfx ≠ name) :
    T.insert hash name = (T.linkNew hash name, T.fresh, true) := by
  have hfind : (T.bucket (computeHash hash name)).find?
      (fun x => (T.entries x).pfx = name) = none := by
    rw [find?_eq_none]
    intro x hx
    simpa using hnew x (mem_linked_of_bucket hx)
  simp only [insert, hfind]
  rfl


lemma removeChild_entries (T : NameTree C) (id : EntryId) (parent : Option EntryId)
    (x : EntryId) : (T.removeChild id parent).entries x = { T.entries x with
      children := if parent = some x then swapRemove (T.entries x).children id
        else (T.entries x).children } := by
  cases parent with
  | none => simp [removeChild]
  | some p =>
    by_cases hx : x = p
    · subst hx
      simp [removeChild, setEntry]
    · simp [removeChild, setEntry, hx, Ne.symm hx]

lemma removeChild_buckets (T : NameTree C) (id : EntryId) (parent : Option EntryId) :
    (T.removeChild id parent).buckets = T.buckets := by
  cases parent <;> rfl

def dropLeaf (T : NameTree C) (id : EntryId) : NameTree C :=
  { T.removeChild id (T.entries id).parent with
    buckets := Chained.unlink T.buckets (T.index id) id
    nItems := T.nItems - 1 }

lemma nBuckets_dropLeaf : (T.dropLeaf id).nBuckets = T.nBuckets := Chained.length_unlink

lemma minNBuckets_dropLeaf : (T.dropLeaf id).minNBuckets = T.minNBuckets := by
  cases hp : (T.entries id).parent <;> simp [dropLeaf, hp, removeChild, setEntry]

lemma fresh_dropLeaf : (T.dropLeaf id).fresh = T.fresh := by
  cases hp : (T.entries id).parent <;> simp [dropLeaf, hp, removeChild, setEntry]

section

variable (h : Inv hash T) (hid : id ∈ T.linked)
include h hid

lemma Inv.unlinkNode :
    (T.removeChild id (T.entries id).parent).unlinkNode id = some (T.dropLeaf id) := by
  have hfind := h.placed.findIdx? hid
  simp only [NameTree.unlinkNode, removeChild_buckets, removeChild_entries, nBuckets, hfind]
  rw [if_neg (by simp [index, nBuckets])]
  cases hp : (T.entries id).parent <;> simp [dropLeaf, hp, removeChild, setEntry]

lemma removed_dropLeaf : Removed id T (T.dropLeaf id) := by
  have hlinked := Chained.flatten_unlink (h.placed.mem_flatten.mp hid)
  refine ⟨hlinked, ?_, ?_, ?_⟩
  · intro x hx
    refine ⟨_, removeChild_entries T id _ x, ?_⟩
    split
    next hp =>
      have hxl : x ∈ T.linked := hlinked.mem_iff.mpr (mem_cons_of_mem _ hx)
      exact swapRemove_perm ((h.mem_children x hxl id).mpr ⟨hid, hp⟩)
    · rfl
  · cases hp : (T.entries id).parent <;> simp [dropLeaf, hp, removeChild, setEntry]
  have hpos : 0 < T.nItems := by
    rw [h.nItems_eq]
    exact length_pos_of_mem hid
  exact Nat.sub_add_cancel hpos

/-- So does the removal of a leaf. -/
lemma Inv.dropLeaf (hleaf : (T.entries id).children = []) : Inv hash (T.dropLeaf id) := by
  have hr := removed_dropLeaf h hid
  have hn : (T.dropLeaf id).nBuckets = T.nBuckets := nBuckets_dropLeaf
  have hlt : T.index id < T.buckets.length := Nat.mod_lt _ h.nBuckets_pos
  refine ⟨h.removed hr hleaf, hn ▸ h.nBuckets_pos, ?_, ?_⟩
  · refine (h.placed.unlink hlt).congr fun x hx => ?_
    rw [index, index, hn, hr.hash_eq hx]
  intro i
  have hsub : (Chained.chain (T.dropLeaf id).buckets i).Sublist (Chained.chain T.buckets i) := by
    have hc : Chained.chain (T.dropLeaf id).buckets i = _ := Chained.chain_unlink hlt
    rw [hc]
    split
    next hi =>
      exact hi ▸ erase_sublist
    · exact .refl _
  refine ((h.ordered i).sublist hsub).imp_of_mem fun {a b} hA hB hab => ?_
  have hA' := Chained.mem_flatten_of_mem_chain hA
  have hB' := Chained.mem_flatten_of_mem_chain hB
  unfold Before
  rw [hr.hash_eq hA', hr.hash_eq hB', hr.pfx_eq hA', hr.pfx_eq hB']
  exact hab

end

end NfdGateway.NameTree
