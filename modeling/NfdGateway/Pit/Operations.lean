import NfdGateway.NameTree.Needed
import NfdGateway.Pit.Pit

/-! Which PIT entries there are, and what each operation of the PIT does to them. -/
namespace NfdGateway.Pit

open List Option Function

variable {C S : Type} {hash : C → Hash} {isDigest : C → Bool} {P P' : Pit C S} {e : PitEntryId}
  {i : Interest C S} {id : EntryId} {T : NameTree C} {f : EntryId → List PitEntryId}
  {l : List EntryId}

def attachedTo (P : Pit C S) (id : EntryId) : List PitEntryId :=
  (P.tree.entries id).tables.pitEntries

/-- The PIT entries that are attached to a node of the tree. -/
def present (P : Pit C S) : List PitEntryId := P.tree.linked.flatMap P.attachedTo

def interestOf (P : Pit C S) (e : PitEntryId) : Option (Interest C S) :=
  (P.entries e).map (·.interest)

/-- Entries are attached to the nodes of their names, digests cut off; no two are alike. -/
structure Inv (hash : C → Hash) (isDigest : C → Bool) (P : Pit C S) : Prop where
  tree : NameTree.Inv hash P.tree
  minNBuckets : 0 < P.tree.minNBuckets
  attached : ∀ id ∈ P.tree.linked, ∀ e ∈ P.attachedTo id, e < P.fresh ∧
    ∃ i, P.entries e = some ⟨i, some id⟩ ∧ (P.tree.entries id).pfx = treeName isDigest i.name
  nodup : ∀ id ∈ P.tree.linked, (P.attachedTo id).Nodup
  unique : ∀ e ∈ P.present, ∀ e' ∈ P.present, P.interestOf e = P.interestOf e' → e = e'
  nItems_eq : P.nItems = P.present.length

lemma mem_present : e ∈ P.present ↔ ∃ id ∈ P.tree.linked, e ∈ P.attachedTo id :=
  mem_flatMap

lemma Inv.node_unique (h : Inv hash isDigest P) {id' : EntryId} (hid : id ∈ P.tree.linked)
    (hid' : id' ∈ P.tree.linked) (he : e ∈ P.attachedTo id) (he' : e ∈ P.attachedTo id') :
    id = id' := by
  obtain ⟨-, i, hi, -⟩ := h.attached id hid e he
  obtain ⟨-, i', hi', -⟩ := h.attached id' hid' e he'
  rw [hi] at hi'
  simpa using congrArg PitEntry.nameTreeEntry (some.inj hi')

lemma Inv.present_nodup (h : Inv hash isDigest P) : P.present.Nodup := by
  refine nodup_flatMap.mpr ⟨h.nodup, ?_⟩
  refine h.tree.nodup.imp_of_mem fun {a b} ha hb hab e hea heb => ?_
  exact hab (h.node_unique ha hb hea heb)

lemma treeName_isPrefix (isDigest : C → Bool) (name : Name C) :
    treeName isDigest name <+: name := by
  unfold treeName
  split
  · exact dropLast_prefix name
  · exact prefix_rfl

lemma name_eq_of_drop {m n : Name C} {k : ℕ} (ht : treeName isDigest m = treeName isDigest n)
    (hk : (treeName isDigest n).length = k) (hd : m.drop k = n.drop k) : m = n := by
  have split_name : ∀ l : Name C, (treeName isDigest l).length = k →
      l = treeName isDigest l ++ l.drop k := by
    intro l hl
    conv_lhs => rw [← take_append_drop k l]
    rw [← hl, ← prefix_iff_eq_take.mp (treeName_isPrefix isDigest l)]
  rw [split_name m (ht ▸ hk), split_name n hk, ht, hd]

lemma Inv.sameInterest_iff [DecidableEq C] [DecidableEq S] (h : Inv hash isDigest P)
    (hid : id ∈ P.tree.linked) (hn : (P.tree.entries id).pfx = treeName isDigest i.name)
    (he : e ∈ P.attachedTo id) :
    P.sameInterest i (P.tree.entries id).pfx.length e = true ↔ P.interestOf e = some i := by
  obtain ⟨-, j, hj, hjn⟩ := h.attached id hid e he
  simp only [sameInterest, interestOf, hj, map_some, some.injEq, decide_eq_true_eq]
  constructor
  · rintro ⟨hd, hs⟩
    have hname := name_eq_of_drop (hjn.symm.trans hn) (by rw [← hn]) hd
    cases i
    cases j
    simp_all
  · rintro rfl
    exact ⟨rfl, rfl⟩

def withTree (P : Pit C S) (T : NameTree C) : Pit C S := { P with tree := T }

lemma present_grown (hg : NameTree.Grown P.tree T) : (P.withTree T).present.Perm P.present := by
  obtain ⟨l, hl, hempty⟩ := hg.linked
  have hnew : l.flatMap (P.withTree T).attachedTo = [] := by
    refine flatMap_eq_nil_iff.mpr fun id hid => ?_
    show (T.entries id).tables.pitEntries = []
    rw [hempty id hid]
  have hold : P.tree.linked.flatMap (P.withTree T).attachedTo = P.present := by
    refine flatMap_congr fun id hid => ?_
    show (T.entries id).tables.pitEntries = _
    rw [hg.tables id hid]
    rfl
  refine (hl.flatMap_right _).trans ?_
  rw [flatMap_append, hnew, hold]
  exact .refl _

lemma Inv.withTree (h : Inv hash isDigest P) (hT : NameTree.Inv hash T)
    (hmin : T.minNBuckets = P.tree.minNBuckets)
    (hperm : (P.withTree T).present.Perm P.present)
    (hcases : ∀ id ∈ T.linked, (P.withTree T).attachedTo id = [] ∨
      id ∈ P.tree.linked ∧ (P.withTree T).attachedTo id = P.attachedTo id ∧
        (T.entries id).pfx = (P.tree.entries id).pfx) :
    Inv hash isDigest (P.withTree T) := by
  refine ⟨hT, hmin ▸ h.minNBuckets, ?_, ?_, ?_, ?_⟩
  · intro id hid e he
    rcases hcases id hid with hnil | ⟨hid', hsame, hpfx⟩
    · simp [hnil] at he
    · obtain ⟨hlt, j, hj, hjn⟩ := h.attached id hid' e (hsame ▸ he)
      exact ⟨hlt, j, hj, hpfx.trans hjn⟩
  · intro id hid
    rcases hcases id hid with hnil | ⟨hid', hsame, -⟩
    · simp [hnil]
    · rw [hsame]
      exact h.nodup id hid'
  · intro a ha b hb
    exact h.unique a (hperm.mem_iff.mp ha) b (hperm.mem_iff.mp hb)
  · exact h.nItems_eq.trans hperm.length_eq.symm

/-- New nodes of the tree change nothing. -/
lemma Inv.grown (h : Inv hash isDigest P) (hT : NameTree.Inv hash T)
    (hg : NameTree.Grown P.tree T) : Inv hash isDigest (P.withTree T) := by
  obtain ⟨l, hl, hempty⟩ := hg.linked
  refine h.withTree hT hg.minNBuckets (present_grown hg) fun id hid => ?_
  rcases mem_append.mp (hl.mem_iff.mp hid) with hid | hid
  · left
    show (T.entries id).tables.pitEntries = []
    rw [hempty id hid]
  refine .inr ⟨hid, ?_, hg.pfx id hid⟩
  show (T.entries id).tables.pitEntries = _
  rw [hg.tables id hid]
  rfl

lemma present_pruned (hp : NameTree.Pruned P.tree T) : P.present.Perm (P.withTree T).present := by
  obtain ⟨l, hl, hempty⟩ := hp.linked
  have hgone : l.flatMap P.attachedTo = [] := by
    refine flatMap_eq_nil_iff.mpr fun id hid => ?_
    have := hempty id hid
    simp only [TableEntries.isEmpty, Bool.and_eq_true, List.isEmpty_iff] at this
    exact this.1.1.2
  have hold : T.linked.flatMap P.attachedTo = (P.withTree T).present := by
    refine flatMap_congr fun id hid => ?_
    show (P.tree.entries id).tables.pitEntries = (T.entries id).tables.pitEntries
    rw [hp.tables id hid]
  refine (hl.flatMap_right _).trans ?_
  rw [flatMap_append, hgone, hold]
  exact .refl _

/-- Neither do nodes that are removed. -/
lemma Inv.pruned (h : Inv hash isDigest P) (hT : NameTree.Inv hash T)
    (hp : NameTree.Pruned P.tree T) : Inv hash isDigest (P.withTree T) :=
  h.withTree hT hp.minNBuckets (present_pruned hp).symm fun id hid =>
    .inr ⟨hp.mem_linked hid, congrArg TableEntries.pitEntries (hp.tables id hid), hp.pfx id hid⟩

lemma attachedTo_setHolds (kind : TableKind) (id : EntryId) (b : Bool) (x : EntryId) :
    (P.withTree (P.tree.setHolds kind id b)).attachedTo x = P.attachedTo x := by
  simp only [attachedTo, withTree, NameTree.setHolds, NameTree.setTables_entries]
  split
  next hx =>
    rw [hx, TableEntries.pitEntries_setHolds]
  · rfl

lemma Inv.setHolds (h : Inv hash isDigest P) (kind : TableKind) (id : EntryId) (b : Bool) :
    Inv hash isDigest (P.withTree (P.tree.setHolds kind id b)) := by
  have hsame := attachedTo_setHolds (P := P) kind id b
  refine h.withTree (h.tree.setTables id _) rfl ?_ fun x hx => .inr ⟨hx, hsame x, ?_⟩
  · exact List.Perm.of_eq (flatMap_congr fun x _ => hsame x)
  · rw [NameTree.setHolds, NameTree.setTables_entries]

lemma flatMap_erase_perm (hid : id ∈ l) : (l.flatMap f).Perm (f id ++ (l.erase id).flatMap f) :=
  (perm_cons_erase hid).flatMap_right f

lemma flatMap_update_perm {g : EntryId → List PitEntryId} {d : PitEntryId}
    (hn : l.Nodup) (hid : id ∈ l) (hg : ∀ x, x ≠ id → g x = f x)
    (hd : (g id).Perm (d :: f id)) : (l.flatMap g).Perm (d :: l.flatMap f) := by
  have hrest := flatMap_congr fun x hx => hg x fun he => (hn.not_mem_erase (he ▸ hx))
  have h1 := flatMap_erase_perm (f := g) hid
  rw [hrest] at h1
  exact h1.trans ((hd.append_right _).trans ((flatMap_erase_perm hid).symm.cons d))

lemma attachedTo_insertPitEntry (P : Pit C S) (nte : EntryId) (i : Interest C S)
    (id : EntryId) : (P.insertPitEntry nte i).attachedTo id =
      if id = nte then P.attachedTo id ++ [P.fresh] else P.attachedTo id := by
  simp only [attachedTo, insertPitEntry, NameTree.setTables_entries]
  split
  next h =>
    rw [h]
  · rfl

section

variable (h : Inv hash isDigest P)
include h

lemma present_insertPitEntry (hid : id ∈ P.tree.linked)
    (i : Interest C S) : (P.insertPitEntry id i).present.Perm (P.fresh :: P.present) := by
  refine flatMap_update_perm h.tree.nodup hid (fun x hx => ?_) ?_
  · rw [attachedTo_insertPitEntry, if_neg hx]
  · rw [attachedTo_insertPitEntry, if_pos rfl]
    exact perm_append_singleton _ _

lemma Inv.lt_fresh (he : e ∈ P.present) : e < P.fresh := by
  obtain ⟨id, hid, he⟩ := mem_present.mp he
  exact (h.attached id hid e he).1

lemma entries_insertPitEntry (he : e ∈ P.present)
    (i : Interest C S) (nte : EntryId) : (P.insertPitEntry nte i).entries e = P.entries e := by
  have hne : e ≠ P.fresh := (h.lt_fresh he).ne
  simp [insertPitEntry, hne]

lemma Inv.insertPitEntry (hid : id ∈ P.tree.linked)
    (hn : (P.tree.entries id).pfx = treeName isDigest i.name)
    (hnew : ∀ e ∈ P.present, P.interestOf e ≠ some i) :
    Inv hash isDigest (P.insertPitEntry id i) := by
  have hperm := present_insertPitEntry h hid i
  have hentry : (P.insertPitEntry id i).entries P.fresh = some ⟨i, some id⟩ := by
    simp [Pit.insertPitEntry]
  have hpfx : ∀ x, ((P.insertPitEntry id i).tree.entries x).pfx = (P.tree.entries x).pfx := by
    intro x
    simp [Pit.insertPitEntry, NameTree.setTables_entries]
  refine ⟨h.tree.setTables id _, h.minNBuckets, ?_, ?_, ?_, ?_⟩
  · intro x hx e he
    have hold : ∀ e ∈ P.attachedTo x, e < P.fresh + 1 ∧ ∃ j,
        (P.insertPitEntry id i).entries e = some ⟨j, some x⟩ ∧
          ((P.insertPitEntry id i).tree.entries x).pfx = treeName isDigest j.name := by
      intro e he
      obtain ⟨hlt, j, hj, hjn⟩ := h.attached x hx e he
      refine ⟨Nat.lt_succ_of_lt hlt, j, ?_, (hpfx x).trans hjn⟩
      rw [entries_insertPitEntry h (mem_present.mpr ⟨x, hx, he⟩), hj]
    rw [attachedTo_insertPitEntry] at he
    split at he
    next hxid =>
      rcases mem_append.mp he with he | he
      · exact hold e he
      · rw [mem_singleton.mp he, hxid]
        exact ⟨Nat.lt_succ_self _, i, hentry, (hpfx id).trans hn⟩
    · exact hold e he
  · intro x hx
    rw [attachedTo_insertPitEntry]
    split
    · refine nodup_append.mpr ⟨h.nodup x hx, nodup_singleton _, ?_⟩
      intro a ha b hb hab
      rw [mem_singleton.mp hb] at hab
      exact absurd hab (h.lt_fresh (mem_present.mpr ⟨x, hx, ha⟩)).ne
    · exact h.nodup x hx
  · have hi : (P.insertPitEntry id i).interestOf P.fresh = some i := by simp [interestOf, hentry]
    have hold : ∀ a ∈ P.present, (P.insertPitEntry id i).interestOf a = P.interestOf a := by
      intro a ha
      rw [interestOf, interestOf, entries_insertPitEntry h ha]
    intro a ha b hb hab
    rcases mem_cons.mp (hperm.mem_iff.mp ha) with rfl | ha <;>
      rcases mem_cons.mp (hperm.mem_iff.mp hb) with rfl | hb
    · rfl
    · rw [hi, hold b hb] at hab
      exact absurd hab.symm (hnew b hb)
    · rw [hi, hold a ha] at hab
      exact absurd hab (hnew a ha)
    · rw [hold a ha, hold b hb] at hab
      exact h.unique a ha b hb hab
  · rw [hperm.length_eq, length_cons, ← h.nItems_eq]
    rfl

end

def detach (P : Pit C S) (id : EntryId) (e : PitEntryId) : NameTree C :=
  P.tree.setTables id { (P.tree.entries id).tables with
    pitEntries := swapRemove (P.attachedTo id) e }

lemma attachedTo_detach (h : Inv hash isDigest P) (hid : id ∈ P.tree.linked)
    (he : e ∈ P.attachedTo id) {x : EntryId} (hx : x ∈ P.tree.linked) :
    ((P.withTree (P.detach id e)).attachedTo x).Perm ((P.attachedTo x).erase e) := by
  simp only [attachedTo, withTree, detach, NameTree.setTables_entries]
  split
  next hxid =>
    subst hxid
    exact NameTree.swapRemove_perm he
  rename_i hxid
  have hno : e ∉ (P.tree.entries x).tables.pitEntries := fun hex =>
    hxid (h.node_unique hx hid hex he)
  rw [erase_of_not_mem hno]

lemma present_detach (h : Inv hash isDigest P) (hid : id ∈ P.tree.linked)
    (he : e ∈ P.attachedTo id) : P.present.Perm (e :: (P.withTree (P.detach id e)).present) := by
  refine flatMap_update_perm h.tree.nodup hid (fun x hx => ?_) ?_
  · simp [attachedTo, withTree, detach, NameTree.setTables_entries, hx]
  · refine (perm_cons_erase he).trans ?_
    exact ((attachedTo_detach h hid he hid).symm.cons e)

lemma treeName_length_iff (name : Name C) :
    (treeName isDigest name).length = name.length ↔ isEndWithDigest isDigest name = false := by
  unfold treeName
  cases hd : isEndWithDigest isDigest name with
  | false => simp
  | true =>
    have hne : name ≠ [] := by
      rintro rfl
      simp [isEndWithDigest] at hd
    have := length_pos_iff.mpr hne
    simp
    omega

variable [DecidableEq C]

def LookupOk (hash : C → Hash) (isDigest : C → Bool) (P : Pit C S) (i : Interest C S) : Prop :=
  NameTree.GrowthOk hash P.tree (treeName isDigest i.name).inits

variable (h : Inv hash isDigest P)
include h

lemma Inv.lookup (name : Name C) (hok : P.tree.GrowthOk hash name.inits) :
    Inv hash isDigest (P.withTree (P.tree.lookup hash name).1) := by
  obtain ⟨T, nte, hl, hT, hg, -⟩ := NameTree.lookup_spec h.tree hok
  rw [hl]
  exact h.grown hT hg

/-- An Interest that is present is found; another one can get a new entry. -/
lemma findOrInsert_spec [DecidableEq S] (hok : LookupOk hash isDigest P i) (allowInsert : Bool) :
    ∃ T nte, NameTree.Looked hash P.tree T (treeName isDigest i.name) nte ∧
      ((∃ e ∈ P.present, P.interestOf e = some i ∧
        P.findOrInsert hash isDigest i allowInsert = (P.withTree T, some e, false)) ∨
      (∀ e ∈ P.present, P.interestOf e ≠ some i) ∧
        P.findOrInsert hash isDigest i allowInsert =
          if allowInsert then ((P.withTree T).insertPitEntry nte i, some P.fresh, true)
          else (P.withTree T, none, true)) := by
  obtain ⟨T, nte, hl, hlooked⟩ := NameTree.looked_lookup h.tree hok
  have hinv := h.grown hlooked.inv hlooked.grown
  have hperm := present_grown hlooked.grown
  refine ⟨T, nte, hlooked, ?_⟩
  obtain ⟨hT, -, hnte, hname, -⟩ := hlooked
  have hsame : ∀ e ∈ (P.withTree T).attachedTo nte,
      ((P.withTree T).sameInterest i (T.entries nte).pfx.length e = true ↔
        P.interestOf e = some i) := fun e he => hinv.sameInterest_iff hnte hname he
  cases hf : ((P.withTree T).attachedTo nte).find?
      ((P.withTree T).sameInterest i (T.entries nte).pfx.length) with
  | some e =>
    left
    have hmem := mem_of_find?_eq_some hf
    refine ⟨e, hperm.mem_iff.mp (mem_present.mpr ⟨nte, hnte, hmem⟩),
      (hsame e hmem).mp (find?_some hf), ?_⟩
    unfold attachedTo withTree at hf
    simp only [findOrInsert, hl, withTree, hf]
  | none =>
    right
    constructor
    · -- an entry with this Interest would hang on the same node
      intro e he hi
      obtain ⟨id, hid, hea⟩ := mem_present.mp (hperm.mem_iff.mpr he)
      obtain ⟨-, j, hj, hjn⟩ := hinv.attached id hid e hea
      have hji : j = i := by
        have hj' : P.entries e = some ⟨j, some id⟩ := hj
        simpa [interestOf, hj'] using hi
      have hidn : id = nte := hT.unique id hid nte hnte (hjn.trans (by rw [hji, hname]))
      exact find?_eq_none.mp hf e (hidn ▸ hea) ((hsame e (hidn ▸ hea)).mpr hi)
    · unfold attachedTo withTree at hf
      simp only [findOrInsert, hl, withTree, hf]

lemma Inv.insert [DecidableEq S] (hok : LookupOk hash isDigest P i) :
    Inv hash isDigest (P.insert hash isDigest i).1 := by
  obtain ⟨T, nte, ⟨hT, hg, hnte, hname, -⟩, hcase⟩ := findOrInsert_spec h hok true
  have hinv := h.grown hT hg
  rcases hcase with ⟨e, -, -, hres⟩ | ⟨hno, hres⟩
  · rw [Pit.insert, hres]
    exact hinv
  · rw [Pit.insert, hres]
    exact hinv.insertPitEntry hnte hname fun e he => hno e ((present_grown hg).mem_iff.mp he)

section

variable (he : e ∈ P.present) (hi : P.interestOf e = some i)
include he hi

lemma get_looked (hok : P.tree.GrowthOk hash i.name.inits) :
    ∃ entry T nte, P.entries e = some entry ∧ get hash P.tree entry = (T, some nte) ∧
      NameTree.Looked hash P.tree T i.name nte := by
  obtain ⟨id, hid, hea⟩ := mem_present.mp he
  obtain ⟨-, j, hj, hpfx⟩ := h.attached id hid e hea
  obtain rfl : j = i := by simpa [interestOf, hj] using hi
  by_cases hlen : (P.tree.entries id).pfx.length = j.name.length
  · have hfull : (P.tree.entries id).pfx = j.name := by
      refine List.IsPrefix.eq_of_length ?_ hlen
      rw [hpfx]
      exact treeName_isPrefix isDigest j.name
    refine ⟨_, P.tree, id, hj, by simp only [get, if_pos hlen], ?_⟩
    rw [← hfull]
    exact NameTree.looked_self h.tree hid
  · obtain ⟨T, nte, hl, hlooked⟩ := NameTree.looked_lookup h.tree hok
    exact ⟨_, T, nte, hj, by simp only [get, if_neg hlen, hl], hlooked⟩

lemma erase_eq (hd : isEndWithDigest isDigest i.name = false) (hok : P.tree.ShrinkOk) :
    ∃ id T, id ∈ P.tree.linked ∧ e ∈ P.attachedTo id ∧
      P.erase hash e = some { P with
        tree := T
        entries := update P.entries e (some ⟨i, none⟩)
        nItems := P.nItems - 1 } ∧
      NameTree.Inv hash T ∧ NameTree.Pruned (P.detach id e) T ∧
      T.names = (P.detach id e).names.erase (P.tree.entries id).pfx := by
  obtain ⟨id, hid, hea⟩ := mem_present.mp he
  obtain ⟨-, j, hj, hjn⟩ := h.attached id hid e hea
  obtain rfl : j = i := by simpa [interestOf, hj] using hi
  have hget : get hash P.tree ⟨j, some id⟩ = (P.tree, some id) := by
    simp only [get]
    rw [if_pos (by rw [hjn]; exact (treeName_length_iff j.name).mpr hd)]
  obtain ⟨T, b, hT, hTi, hTp, hTn⟩ := NameTree.eraseEntryIfEmpty_spec
    (h.tree.setTables id _) hid (hok.setTables id _) h.minNBuckets
  rw [NameTree.setTables_entries] at hTn
  refine ⟨id, T, hid, hea, ?_, hTi, hTp, hTn⟩
  have hea' : e ∈ (P.tree.entries id).tables.pitEntries := hea
  simp only [Pit.erase, hj, hget, erasePitEntry, if_pos hea', bind_eq_bind, bind_some]
  exact congrArg (Option.bind · _) hT

/-- An entry without a digest is erased, and the others stay. -/
lemma erase_spec (hd : isEndWithDigest isDigest i.name = false) (hok : P.tree.ShrinkOk) :
    ∃ P', P.erase hash e = some P' ∧ Inv hash isDigest P' ∧ P.present.Perm (e :: P'.present) ∧
      (∀ x ∈ P'.tree.linked, (P'.attachedTo x).Perm ((P.attachedTo x).erase e)) ∧
      ∀ e' ∈ P'.present, P'.entries e' = P.entries e' := by
  obtain ⟨id, T, hid, hea, hres, hTi, hTp, -⟩ := erase_eq h he hi hd hok
  have hperm := (present_detach h hid hea).trans ((present_pruned hTp).cons e)
  have hlinked : ∀ x ∈ T.linked, x ∈ P.tree.linked := fun x hx => hTp.mem_linked hx
  have hatt : ∀ x ∈ T.linked, ((P.withTree T).attachedTo x).Perm ((P.attachedTo x).erase e) := by
    intro x hx
    have hsame : (P.withTree T).attachedTo x = (P.withTree (P.detach id e)).attachedTo x :=
      congrArg TableEntries.pitEntries (hTp.tables x hx)
    rw [hsame]
    exact attachedTo_detach h hid hea (hlinked x hx)
  have hnodup := nodup_cons.mp (hperm.nodup_iff.mp h.present_nodup)
  set P' : Pit C S := { P with
    tree := T
    entries := update P.entries e (some ⟨i, none⟩)
    nItems := P.nItems - 1 } with hP'
  have hentries : ∀ e' ∈ P'.present, P'.entries e' = P.entries e' := by
    intro e' he'
    have hne : e' ≠ e := fun heq => hnodup.1 (heq ▸ he')
    simp [hP', hne]
  have hsub : ∀ e' ∈ P'.present, e' ∈ P.present := fun e' he' =>
    hperm.mem_iff.mpr (mem_cons_of_mem _ he')
  refine ⟨P', hres, ⟨hTi, hTp.minNBuckets ▸ h.minNBuckets, ?_, ?_, ?_, ?_⟩, hperm, hatt, hentries⟩
  · intro x hx e' he'
    have hpres : e' ∈ P'.present := mem_present.mpr ⟨x, hx, he'⟩
    have hold := mem_of_mem_erase ((hatt x hx).mem_iff.mp he')
    obtain ⟨hlt, k, hk, hkn⟩ := h.attached x (hlinked x hx) e' hold
    refine ⟨hlt, k, (hentries e' hpres).trans hk, ?_⟩
    have hpfx : (T.entries x).pfx = (P.tree.entries x).pfx := by
      rw [hTp.pfx x hx, detach, NameTree.setTables_entries]
    exact hpfx.trans hkn
  · intro x hx
    exact (hatt x hx).nodup_iff.mpr ((h.nodup x (hlinked x hx)).erase e)
  · intro a ha c hc hac
    rw [interestOf, interestOf, hentries a ha, hentries c hc] at hac
    exact h.unique a (hsub a ha) c (hsub c hc) hac
  · show P.nItems - 1 = P'.present.length
    rw [h.nItems_eq, hperm.length_eq, length_cons]
    rfl

/-- `erase` looks for the node under the whole name, where the entry is not. -/
lemma erase_digest (hd : isEndWithDigest isDigest i.name = true)
    (hok : NameTree.GrowthOk hash P.tree i.name.inits) : P.erase hash e = none := by
  obtain ⟨entry, T, nte, hentry, hget, hlooked⟩ := get_looked h he hi hok
  have hno : e ∉ (T.entries nte).tables.pitEntries := by
    intro hmem
    obtain ⟨-, k, hk, hkn⟩ := (h.grown hlooked.inv hlooked.grown).attached nte hlooked.linked e hmem
    have hk' : P.entries e = some ⟨k, some nte⟩ := hk
    obtain rfl : k = i := by simpa [interestOf, hk'] using hi
    have hlen : (treeName isDigest k.name).length = k.name.length := by
      rw [← hkn]
      exact congrArg List.length hlooked.pfx
    rw [(treeName_length_iff k.name).mp hlen] at hd
    cases hd
  simp [Pit.erase, hentry, hget, erasePitEntry, hno]

end

lemma insert_needed [DecidableEq S] (hok : LookupOk hash isDigest P i) :
    NameTree.KeepsOther none P.tree (P.insert hash isDigest i).1.tree ∧
      (P.tree.names.Needed → (P.insert hash isDigest i).1.tree.names.Needed) := by
  obtain ⟨T, nte, hlooked, hcase⟩ := findOrInsert_spec h hok true
  rcases hcase with ⟨e, he, hi, hres⟩ | ⟨-, hres⟩
  · rw [Pit.insert, hres]
    refine ⟨hlooked.grown.keepsOther none, fun hneeded => hlooked.needed hneeded ?_⟩
    obtain ⟨id, hid, hea⟩ := mem_present.mp he
    obtain ⟨-, j, hj, hjn⟩ := h.attached id hid e hea
    obtain rfl : j = i := by simpa [interestOf, hj] using hi
    exact NameTree.mem_storedNames.mpr ⟨id, hid, hjn⟩
  rw [Pit.insert, hres]
  refine ⟨(hlooked.grown.keepsOther none).trans (NameTree.keepsOther_setPitEntries T nte _),
    fun hneeded => ?_⟩
  have hnames := NameTree.setTables_names hlooked.inv hlooked.linked
    { (T.entries nte).tables with pitEntries := (T.entries nte).tables.pitEntries ++ [P.fresh] }
  have huse : TableEntries.isEmpty { (T.entries nte).tables with
      pitEntries := (T.entries nte).tables.pitEntries ++ [P.fresh] } = false := by
    simp [TableEntries.isEmpty]
  rw [huse, hlooked.pfx, hlooked.names] at hnames
  exact hnames ▸ hneeded.lookup_setInUse

lemma find_looked [DecidableEq S]
    (hok : LookupOk hash isDigest P i) : ∃ T nte, (P.find hash isDigest i).1 = P.withTree T ∧
      NameTree.Looked hash P.tree T (treeName isDigest i.name) nte := by
  obtain ⟨T, nte, hlooked, hcase⟩ := findOrInsert_spec h hok false
  refine ⟨T, nte, ?_, hlooked⟩
  rcases hcase with ⟨e, -, -, hres⟩ | ⟨-, hres⟩
  · rw [find, hres]
  · rw [find, hres]
    rfl

lemma erase_needed (he : e ∈ P.present)
    (hi : P.interestOf e = some i) (hd : isEndWithDigest isDigest i.name = false)
    (hok : P.tree.ShrinkOk) :
    ∃ P', P.erase hash e = some P' ∧ NameTree.KeepsOther none P.tree P'.tree ∧
      (P.tree.names.Needed → P'.tree.names.Needed) := by
  obtain ⟨id, T, hid, -, hres, -, hTp, hnames⟩ := erase_eq h he hi hd hok
  refine ⟨_, hres, ?_, fun hneeded => ?_⟩
  · exact (NameTree.keepsOther_setPitEntries P.tree id _).trans (hTp.keepsOther none)
  · rw [hnames, detach, NameTree.setTables_names h.tree hid]
    exact hneeded.setInUse_erase _

end NfdGateway.Pit
