import NfdGateway.NameTree.Invariant

/-! `lookup` creates exactly the missing prefixes of a name, and keeps the invariant as long
as the hash table is enlarged to sizes on which the 32-bit and the 64-bit index agree. -/
namespace NfdGateway.NameTree

open List

variable {C : Type} {hash : C → Hash} {T T' : NameTree C} {id : EntryId} {name : Name C}
  {parent : Option EntryId}

def storedNames (T : NameTree C) : List (Name C) := T.linked.map fun id => (T.entries id).pfx

lemma mem_storedNames : name ∈ T.storedNames ↔ ∃ id ∈ T.linked, (T.entries id).pfx = name :=
  List.mem_map

/-- What a lookup leaves to the other tables: the entries there were, as they were, and new
ones with nothing attached. -/
structure Grown (T T' : NameTree C) : Prop where
  linked : ∃ l, T'.linked.Perm (l ++ T.linked) ∧ ∀ id ∈ l, (T'.entries id).tables = {}
  pfx : ∀ id ∈ T.linked, (T'.entries id).pfx = (T.entries id).pfx
  tables : ∀ id ∈ T.linked, (T'.entries id).tables = (T.entries id).tables
  minNBuckets : T'.minNBuckets = T.minNBuckets

lemma Grown.refl (T : NameTree C) : Grown T T :=
  ⟨⟨[], .refl _, by simp⟩, fun _ _ => rfl, fun _ _ => rfl, rfl⟩

lemma Grown.mem_linked (h : Grown T T') (hid : id ∈ T.linked) : id ∈ T'.linked := by
  obtain ⟨l, hl, -⟩ := h.linked
  exact hl.mem_iff.mpr (mem_append_right _ hid)

lemma Grown.trans {T'' : NameTree C} (h : Grown T T') (h' : Grown T' T'') : Grown T T'' := by
  obtain ⟨l, hl, hempty⟩ := h.linked
  obtain ⟨l', hl', hempty'⟩ := h'.linked
  refine ⟨⟨l' ++ l, ?_, ?_⟩, ?_, ?_, h'.minNBuckets.trans h.minNBuckets⟩
  · rw [append_assoc]
    exact hl'.trans (hl.append_left l')
  · intro id hid
    rcases mem_append.mp hid with hid | hid
    · exact hempty' id hid
    · rw [h'.tables id (hl.mem_iff.mpr (mem_append_left _ hid))]
      exact hempty id hid
  · intro id hid
    rw [h'.pfx id (h.mem_linked hid), h.pfx id hid]
  · intro id hid
    rw [h'.tables id (h.mem_linked hid), h.tables id hid]

lemma Added.grown (ha : Added hash name parent T T') (hm : T'.minNBuckets = T.minNBuckets) :
    Grown T T' := by
  refine ⟨⟨[T.fresh], ha.linked, ?_⟩, fun _ => ha.pfx_eq, fun _ => ha.tables_eq, hm⟩
  intro id hid
  rw [mem_singleton.mp hid, ha.entry]

lemma Added.mem_storedNames (ha : Added hash name parent T T') {n : Name C} :
    n ∈ T'.storedNames ↔ n ∈ T.storedNames ∨ n = name := by
  simp only [NameTree.mem_storedNames, ha.mem_linked]
  constructor
  · rintro ⟨id, rfl | hid, rfl⟩
    · exact .inr (by rw [ha.entry])
    · exact .inl ⟨id, hid, (ha.pfx_eq hid).symm⟩
  · rintro (⟨id, hid, rfl⟩ | rfl)
    · exact ⟨id, .inr hid, ha.pfx_eq hid⟩
    · exact ⟨T.fresh, .inl rfl, by rw [ha.entry]⟩

lemma mem_storedNames_resize {n : ℕ} (hn : 0 < n) {p : Name C} :
    p ∈ (T.resize n).storedNames ↔ p ∈ T.storedNames := by
  simp only [mem_storedNames, (linked_resize hn).mem_iff]
  rfl

lemma grown_resize {n : ℕ} (hn : 0 < n) : Grown T (T.resize n) :=
  ⟨⟨[], linked_resize hn, by simp⟩, fun _ _ => rfl, fun _ _ => rfl, rfl⟩

lemma Inv.adopt_new (h : Inv hash T) (hs : name ∉ T.storedNames) (hpar : T.HangsFrom name parent) :
    Inv hash ((T.linkNew hash name).adopt T.fresh parent) :=
  h.adopt (fun id hid he => hs (mem_storedNames.mpr ⟨id, hid, he⟩)) hpar

variable [DecidableEq C] {names : List (Name C)}

def missing (T : NameTree C) (names : List (Name C)) : ℕ :=
  names.countP fun n => n ∉ T.storedNames

def Hashes (hash : C → Hash) (T : NameTree C) (names : List (Name C)) (h : Hash) : Prop :=
  (∃ id ∈ T.linked, h = (T.entries id).hash) ∨ ∃ n ∈ names, h = computeHash hash n

/-- Every size the table is enlarged to while entries for these names are created: the
bucket count is doubled each time the items exceed half of it. -/
def GrowthOk (hash : C → Hash) (T : NameTree C) (names : List (Name C)) : Prop :=
  ∀ k, T.nBuckets * 2 ^ k / 2 < T.nItems + T.missing names →
    ∀ h, Hashes hash T names h → Agrees (T.nBuckets * 2 ^ (k + 1)) h

lemma missing_congr (h : ∀ p, p ∈ T'.storedNames ↔ p ∈ T.storedNames)
    (names : List (Name C)) : T'.missing names = T.missing names := by
  simp [missing, h]

lemma growthOk_of_room (h : T.nItems + names.length ≤ T.nBuckets / 2) : GrowthOk hash T names := by
  intro k hk
  have hm : T.missing names ≤ names.length := countP_le_length
  have hn : T.nBuckets / 2 ≤ T.nBuckets * 2 ^ k / 2 :=
    Nat.div_le_div_right (Nat.le_mul_of_pos_right _ (Nat.two_pow_pos k))
  omega

lemma Added.missing_le (ha : Added hash name parent T T') (names : List (Name C)) :
    T'.missing names ≤ T.missing names := by
  refine countP_mono_left fun p _ hp => ?_
  simp only [ha.mem_storedNames, decide_eq_true_eq] at hp ⊢
  exact fun h => hp (.inl h)

lemma GrowthOk.of_stored (h : GrowthOk hash T (name :: names))
    (hs : name ∈ T.storedNames) : GrowthOk hash T names := by
  intro k hk p hp
  have hm : T.missing (name :: names) = T.missing names := by simp [missing, hs]
  refine h k (by rwa [hm]) p ?_
  rcases hp with hp | ⟨n, hn, he⟩
  · exact .inl hp
  · exact .inr ⟨n, by simp [hn], he⟩

lemma GrowthOk.added (h : GrowthOk hash T (name :: names))
    (hs : name ∉ T.storedNames) (ha : Added hash name parent T T')
    (hb : T'.nBuckets = T.nBuckets) : GrowthOk hash T' names := by
  intro k hk p hp
  have hm : T.missing (name :: names) = T.missing names + 1 := by simp [missing, hs]
  have hle := ha.missing_le names
  rw [hb] at hk ⊢
  refine h k ?_ p ?_
  · have hi := ha.nItems
    omega
  rcases hp with ⟨id, hid, rfl⟩ | ⟨n, hn, rfl⟩
  · rcases ha.mem_linked.mp hid with rfl | hid
    · exact .inr ⟨name, by simp, by rw [ha.entry]⟩
    · exact .inl ⟨id, hid, ha.hash_eq hid⟩
  · exact .inr ⟨n, by simp [hn], rfl⟩

lemma GrowthOk.enlarged (h : GrowthOk hash T names)
    (hn : 0 < T.nBuckets) : GrowthOk hash (T.resize (2 * T.nBuckets)) names := by
  have hpos : 0 < 2 * T.nBuckets := by omega
  intro k hk p hp
  rw [length_resize hpos, missing_congr fun p => mem_storedNames_resize hpos] at hk
  rw [length_resize hpos]
  have hpow : ∀ j, 2 * T.nBuckets * 2 ^ j = T.nBuckets * 2 ^ (j + 1) := fun j => by ring
  rw [hpow] at hk ⊢
  refine h (k + 1) hk p ?_
  rcases hp with ⟨id, hid, he⟩ | hp
  · exact .inl ⟨id, (linked_resize hpos).mem_iff.mp hid, he⟩
  · exact .inr hp

lemma enlargeIfLoaded_spec (h : Inv hash T) (hok : GrowthOk hash T names) :
    Inv hash T.enlargeIfLoaded ∧ Grown T T.enlargeIfLoaded ∧
      GrowthOk hash T.enlargeIfLoaded names ∧
      ∀ p, p ∈ T.enlargeIfLoaded.storedNames ↔ p ∈ T.storedNames := by
  unfold enlargeIfLoaded
  split
  next hload =>
    have hpos : 0 < 2 * T.nBuckets := Nat.mul_pos (by decide) h.nBuckets_pos
    refine ⟨h.resize hpos ?_, grown_resize hpos, hok.enlarged h.nBuckets_pos,
      fun p => mem_storedNames_resize hpos⟩
    intro id hid
    have hhalf : T.nBuckets * 2 ^ 0 / 2 < T.nItems + T.missing names := by
      unfold enlargeThreshold at hload
      omega
    have := hok 0 hhalf _ (.inl ⟨id, hid, rfl⟩)
    rwa [Nat.mul_comm] at this
  · exact ⟨h, .refl T, hok, fun _ => Iff.rfl⟩

lemma Inv.lookupStep_stored (h : Inv hash T) (hid : id ∈ T.linked) :
    lookupStep hash (T, parent) (T.entries id).pfx = (T.enlargeIfLoaded, some id) := by
  simp [lookupStep, h.insert_stored hid]

lemma lookupStep_new (hs : name ∉ T.storedNames) :
    lookupStep hash (T, parent) name =
      (((T.linkNew hash name).adopt T.fresh parent).enlargeIfLoaded, some T.fresh) := by
  have hnew : ∀ id ∈ T.linked, (T.entries id).pfx ≠ name := fun id hid he =>
    hs (mem_storedNames.mpr ⟨id, hid, he⟩)
  simp [lookupStep, insert_new hnew]

lemma lookupStep_spec (h : Inv hash T)
    (hpar : T.HangsFrom name parent) (hok : GrowthOk hash T (name :: names)) :
    ∃ T' id, lookupStep hash (T, parent) name = (T', some id) ∧ Inv hash T' ∧ Grown T T' ∧
      id ∈ T'.linked ∧ (T'.entries id).pfx = name ∧ GrowthOk hash T' names ∧
      ∀ p, p ∈ T'.storedNames ↔ p ∈ T.storedNames ∨ p = name := by
  by_cases hs : name ∈ T.storedNames
  · obtain ⟨id, hid, rfl⟩ := mem_storedNames.mp hs
    obtain ⟨hi, hg, hok', hn⟩ := enlargeIfLoaded_spec h (hok.of_stored hs)
    refine ⟨_, id, h.lookupStep_stored hid, hi, hg, hg.mem_linked hid, hg.pfx id hid, hok',
      fun p => ?_⟩
    rw [hn]
    exact ⟨.inl, fun hp => hp.elim (fun hp => hp) (fun hp => hp ▸ hs)⟩
  have ha := added_adopt h hpar
  have hb : ((T.linkNew hash name).adopt T.fresh parent).nBuckets = T.nBuckets := by
    rw [nBuckets, adopt_buckets]
    exact Chained.length_push
  have hm : ((T.linkNew hash name).adopt T.fresh parent).minNBuckets = T.minNBuckets := by
    cases parent <;> rfl
  obtain ⟨hi, hg, hok', hn⟩ := enlargeIfLoaded_spec (h.adopt_new hs hpar) (hok.added hs ha hb)
  have hfresh := ha.mem_linked.mpr (.inl rfl)
  refine ⟨_, T.fresh, lookupStep_new hs, hi, (ha.grown hm).trans hg, hg.mem_linked hfresh, ?_,
    hok', fun p => (hn p).trans ha.mem_storedNames⟩
  rw [hg.pfx _ hfresh, ha.entry]

section Loop

variable {P : NameTree C → List (Name C) → Prop}
  {R : NameTree C → List (Name C) → NameTree C → Prop}

lemma lookup_loop (hstep : ∀ {T : NameTree C} {parent n ns}, P T (n :: ns) →
      T.HangsFrom n parent → ∃ T' id, lookupStep hash (T, parent) n = (T', some id) ∧
        id ∈ T'.linked ∧ (T'.entries id).pfx = n ∧ P T' ns ∧ R T [n] T')
    (htrans : ∀ {T T₁ T' n ns}, R T [n] T₁ → R T₁ ns T' → R T (n :: ns) T')
    (l q : Name C) (hpar : T.HangsFrom q parent) (h : P T (l.inits.map (q ++ ·))) :
    ∃ T' id, (l.inits.map (q ++ ·)).foldl (lookupStep hash) (T, parent) = (T', some id) ∧
      id ∈ T'.linked ∧ (T'.entries id).pfx = q ++ l ∧ P T' [] ∧
      R T (l.inits.map (q ++ ·)) T' := by
  induction l generalizing q T parent with
  | nil =>
    simp only [List.inits, map_cons, append_nil, map_nil] at h ⊢
    exact hstep h hpar
  | cons c l ih =>
    have hinits : (c :: l).inits.map (q ++ ·) = q :: l.inits.map ((q ++ [c]) ++ ·) := by
      simp [Function.comp_def]
    rw [hinits] at h ⊢
    obtain ⟨T₁, id₁, he₁, hid₁, hp₁, h₁, hr₁⟩ := hstep h hpar
    have hpar₁ : T₁.HangsFrom (q ++ [c]) (some id₁) := ⟨hid₁, c, by rw [hp₁]⟩
    obtain ⟨T', id, he, hid, hp, h', hr⟩ := ih (q ++ [c]) hpar₁ h₁
    refine ⟨T', id, ?_, hid, by simpa using hp, h', htrans hr₁ hr⟩
    rw [foldl_cons, he₁, he]

lemma lookup_rule (hstep : ∀ {T : NameTree C} {parent n ns}, P T (n :: ns) →
      T.HangsFrom n parent → ∃ T' id, lookupStep hash (T, parent) n = (T', some id) ∧
        id ∈ T'.linked ∧ (T'.entries id).pfx = n ∧ P T' ns ∧ R T [n] T')
    (htrans : ∀ {T T₁ T' n ns}, R T [n] T₁ → R T₁ ns T' → R T (n :: ns) T')
    (h : P T name.inits) :
    ∃ T' id, T.lookup hash name = (T', some id) ∧ id ∈ T'.linked ∧ (T'.entries id).pfx = name ∧
      P T' [] ∧ R T name.inits T' := by
  have hmap : name.inits.map ([] ++ ·) = name.inits := by simp
  have hroot : T.HangsFrom [] none := rfl
  have hloop := lookup_loop hstep htrans name [] hroot (hmap.symm ▸ h)
  rwa [hmap] at hloop

end Loop

lemma lookup_spec (h : Inv hash T) (hok : GrowthOk hash T name.inits) :
    ∃ T' id, T.lookup hash name = (T', some id) ∧ Inv hash T' ∧ Grown T T' ∧ id ∈ T'.linked ∧
      (T'.entries id).pfx = name ∧
      ∀ p, p ∈ T'.storedNames ↔ p ∈ T.storedNames ∨ p <+: name := by
  obtain ⟨T', id, he, hid, hp, ⟨hi, -⟩, hg, hn⟩ := lookup_rule
    (P := fun T names => Inv hash T ∧ GrowthOk hash T names)
    (R := fun T names T' => Grown T T' ∧
      ∀ p, p ∈ T'.storedNames ↔ p ∈ T.storedNames ∨ p ∈ names)
    (fun hP hpar => by
      obtain ⟨T', id, he, hi, hg, hid, hp, hok', hn⟩ := lookupStep_spec hP.1 hpar hP.2
      exact ⟨T', id, he, hid, hp, ⟨hi, hok'⟩, hg, by simpa using hn⟩)
    (fun hr hr' => ⟨hr.1.trans hr'.1, fun p => by
      rw [hr'.2, hr.2, mem_singleton, mem_cons, or_assoc]⟩)
    ⟨h, hok⟩
  exact ⟨T', id, he, hi, hg, hid, hp, by simpa using hn⟩

end NfdGateway.NameTree
