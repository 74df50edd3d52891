import NfdGateway.Pit.Operations

/-! The PIT as a map from name and selectors to entries. -/
namespace NfdGateway.Pit

open List Option Function Transition

variable {C S : Type} {hash : C → Hash} {isDigest : C → Bool} {P P' : Pit C S} {e : PitEntryId}
  {i : Interest C S}

abbrev InterestMap (C S : Type) := Interest C S → Option PitEntryId

def Holds (P : Pit C S) (M : InterestMap C S) : Prop :=
  ∀ i e, M i = some e ↔ e ∈ P.present ∧ P.interestOf e = some i

variable {M : InterestMap C S}

lemma Holds.none_iff (h : Holds P M) : M i = none ↔ ∀ e ∈ P.present, P.interestOf e ≠ some i := by
  rw [eq_none_iff_forall_ne_some]
  exact forall_congr' fun e => by rw [ne_eq, h i e, not_and]

lemma Holds.congr (h : Holds P M) (hp : P'.present.Perm P.present)
    (he : P'.entries = P.entries) : Holds P' M := by
  intro i e
  rw [h i e, hp.mem_iff, interestOf, interestOf, he]

def new (n : ℕ) : Pit C S := { tree := NameTree.new n }

lemma inv_new (isDigest : C → Bool) {n : ℕ} (hn : 0 < n) : Inv hash isDigest (new n : Pit C S) := by
  have hl : (new n : Pit C S).tree.linked = [] := by simp [new, NameTree.new, NameTree.linked]
  have hp : (new n : Pit C S).present = [] := by simp [present, hl]
  refine ⟨NameTree.inv_new hn, hn, ?_, ?_, ?_, ?_⟩
  · simp [hl]
  · simp [hl]
  · simp [hp]
  · rw [hp]
    rfl

variable [DecidableEq C] [DecidableEq S] {s : Pit C S × InterestMap C S}

def InterestMap.insert (M : InterestMap C S) (i : Interest C S) (e : Option PitEntryId) :
    InterestMap C S :=
  if M i = none then update M i e else M

def InterestMap.erase (M : InterestMap C S) : Option (Interest C S) → InterestMap C S
  | none => M
  | some i => update M i none

inductive Event (C S : Type)
  | insert (i : Interest C S)
  | find (i : Interest C S)
  | erase (e : PitEntryId)

def step (hash : C → Hash) (isDigest : C → Bool) (s : Pit C S × InterestMap C S) :
    Event C S → Option (Pit C S × InterestMap C S)
  | .insert i =>
    let r := s.1.insert hash isDigest i
    some (r.1, s.2.insert i r.2.1)
  | .find i => some ((s.1.find hash isDigest i).1, s.2)
  | .erase e =>
    if e ∈ s.1.present then
      (s.1.erase hash e).map fun P' => (P', s.2.erase (s.1.interestOf e))
    else none

def Event.Ok (hash : C → Hash) (isDigest : C → Bool) (s : Pit C S × InterestMap C S) :
    Event C S → Prop
  | .insert i => LookupOk hash isDigest s.1 i
  | .find i => LookupOk hash isDigest s.1 i
  | .erase e => s.1.tree.ShrinkOk ∧
      ∀ i, s.1.interestOf e = some i → isEndWithDigest isDigest i.name = false

section

variable (h : Inv hash isDigest P) (hM : Holds P M) (hok : LookupOk hash isDigest P i)
include h hM hok

lemma find_spec : (P.find hash isDigest i).2 = M i ∧ Inv hash isDigest (P.find hash isDigest i).1 ∧
      (P.find hash isDigest i).1.present.Perm P.present ∧
      (P.find hash isDigest i).1.entries = P.entries := by
  obtain ⟨T, nte, ⟨hT, hg, -, -, -⟩, hcase⟩ := findOrInsert_spec h hok false
  rcases hcase with ⟨e, he, hi, hres⟩ | ⟨hno, hres⟩
  · simp only [find, hres]
    exact ⟨((hM i e).mpr ⟨he, hi⟩).symm, h.grown hT hg, present_grown hg, rfl⟩
  · simp only [find, hres]
    exact ⟨(hM.none_iff.mpr hno).symm, h.grown hT hg, present_grown hg, rfl⟩

lemma insert_present (hi : M i = some e) : (P.insert hash isDigest i).2 = (some e, false) ∧
      Inv hash isDigest (P.insert hash isDigest i).1 ∧
      (P.insert hash isDigest i).1.present.Perm P.present ∧
      (P.insert hash isDigest i).1.entries = P.entries := by
  obtain ⟨he, hei⟩ := (hM i e).mp hi
  obtain ⟨T, nte, ⟨hT, hg, -, -, -⟩, hcase⟩ := findOrInsert_spec h hok true
  rcases hcase with ⟨e', he', hi', hres⟩ | ⟨hno, -⟩
  · have hee : e' = e := h.unique e' he' e he (hi'.trans hei.symm)
    simp only [insert, hres, hee]
    exact ⟨trivial, h.grown hT hg, present_grown hg, rfl⟩
  · exact absurd hei (hno e he)

lemma insert_absent (hi : M i = none) : (P.insert hash isDigest i).2 = (some P.fresh, true) ∧
      Inv hash isDigest (P.insert hash isDigest i).1 ∧
      (P.insert hash isDigest i).1.present.Perm (P.fresh :: P.present) ∧
      (P.insert hash isDigest i).1.interestOf P.fresh = some i ∧
      ∀ e ∈ P.present, (P.insert hash isDigest i).1.entries e = P.entries e := by
  have hno := hM.none_iff.mp hi
  obtain ⟨T, nte, ⟨hT, hg, hnte, hname, -⟩, hcase⟩ := findOrInsert_spec h hok true
  rcases hcase with ⟨e, he, hei, -⟩ | ⟨-, hres⟩
  · exact absurd hei (hno e he)
  have hinv := h.grown hT hg
  have hperm := present_grown hg
  have hno' : ∀ e ∈ (P.withTree T).present, (P.withTree T).interestOf e ≠ some i :=
    fun e he => hno e (hperm.mem_iff.mp he)
  simp only [insert, hres, if_true]
  refine ⟨trivial, hinv.insertPitEntry hnte hname hno', ?_, ?_, ?_⟩
  · exact (present_insertPitEntry hinv hnte i).trans (hperm.cons _)
  · simp [interestOf, insertPitEntry, withTree]
  · intro e he
    exact entries_insertPitEntry hinv (hperm.mem_iff.mpr he) i nte

end

structure Refines (hash : C → Hash) (isDigest : C → Bool) (P : Pit C S) (M : InterestMap C S) :
    Prop where
  inv : Inv hash isDigest P
  holds : Holds P M

lemma refines_insert (h : Refines hash isDigest P M) (hok : LookupOk hash isDigest P i) :
    Refines hash isDigest (P.insert hash isDigest i).1
      (M.insert i (P.insert hash isDigest i).2.1) := by
  cases hi : M i with
  | some e =>
    obtain ⟨hr, hinv, hp, he⟩ := insert_present h.inv h.holds hok hi
    refine ⟨hinv, ?_⟩
    rw [InterestMap.insert, if_neg (by simp [hi])]
    exact h.holds.congr hp he
  | none =>
    obtain ⟨hr, hinv, hp, hnew, hold⟩ := insert_absent h.inv h.holds hok hi
    refine ⟨hinv, ?_⟩
    rw [InterestMap.insert, if_pos hi, hr]
    have hno := h.holds.none_iff.mp hi
    intro j e
    rw [hp.mem_iff, mem_cons]
    by_cases hj : j = i
    · subst hj
      rw [update_self]
      constructor
      · rintro ⟨⟩
        exact ⟨.inl rfl, hnew⟩
      rintro ⟨rfl | he, hej⟩
      · rfl
      · rw [interestOf, hold e he] at hej
        exact absurd hej (hno e he)
    · rw [update_of_ne hj, h.holds j e]
      constructor
      · rintro ⟨he, hej⟩
        exact ⟨.inr he, by rw [interestOf, hold e he]; exact hej⟩
      rintro ⟨rfl | he, hej⟩
      · rw [hnew] at hej
        exact absurd (some.inj hej).symm hj
      · rw [interestOf, hold e he] at hej
        exact ⟨he, hej⟩

lemma refines_erase (h : Refines hash isDigest P M) (he : e ∈ P.present)
    (hok : (Event.erase e).Ok hash isDigest (P, M)) (hs : P.erase hash e = some P') :
    Refines hash isDigest P' (M.erase (P.interestOf e)) := by
  obtain ⟨id, hid, hea⟩ := mem_present.mp he
  obtain ⟨-, i, hi, -⟩ := h.inv.attached id hid e hea
  have hei : P.interestOf e = some i := by simp [interestOf, hi]
  obtain ⟨P'', hs', hinv, hp, -, hold⟩ := erase_spec h.inv he hei (hok.2 i hei) hok.1
  obtain rfl : P'' = P' := some.inj (hs'.symm.trans hs)
  have hnodup := nodup_cons.mp (hp.nodup_iff.mp h.inv.present_nodup)
  refine ⟨hinv, ?_⟩
  rw [hei]
  intro j x
  by_cases hj : j = i
  · subst hj
    simp only [InterestMap.erase, update_self, reduceCtorEq, false_iff, not_and]
    intro hx hxj
    rw [interestOf, hold x hx] at hxj
    have hxp := hp.mem_iff.mpr (mem_cons_of_mem _ hx)
    exact hnodup.1 (h.inv.unique x hxp e he (hxj.trans hei.symm) ▸ hx)
  simp only [InterestMap.erase, update_of_ne hj, h.holds j x, hp.mem_iff, mem_cons]
  constructor
  · rintro ⟨rfl | hx, hxj⟩
    · rw [hei] at hxj
      exact absurd (some.inj hxj).symm hj
    · exact ⟨hx, by rw [interestOf, hold x hx]; exact hxj⟩
  · rintro ⟨hx, hxj⟩
    rw [interestOf, hold x hx] at hxj
    exact ⟨.inr hx, hxj⟩

lemma refines_step {s' : Pit C S × InterestMap C S} {ev : Event C S}
    (h : Refines hash isDigest s.1 s.2) (hok : ev.Ok hash isDigest s)
    (hs : step hash isDigest s ev = some s') : Refines hash isDigest s'.1 s'.2 := by
  cases ev with
  | insert i =>
    cases hs
    exact refines_insert h hok
  | find i =>
    cases hs
    obtain ⟨-, hinv, hp, he⟩ := find_spec h.inv h.holds hok
    exact ⟨hinv, h.holds.congr hp he⟩
  | erase e =>
    simp only [step] at hs
    split at hs
    next he =>
      obtain ⟨P', hP', rfl⟩ := map_eq_some_iff.mp hs
      exact refines_erase h he hok hP'
    · cases hs

lemma refines_run {n : ℕ} (hn : 0 < n)
    (h : Reach (step hash isDigest) (fun s ev => ev.Ok hash isDigest s)
      (new n, fun _ => none) s) : Refines hash isDigest s.1 s.2 := by
  have h0 : Refines hash isDigest (new n : Pit C S) (fun _ => none) := by
    refine ⟨inv_new isDigest hn, fun i e => ?_⟩
    simp [present, new, NameTree.new, NameTree.linked]
  exact h.invariant (I := fun s => Refines hash isDigest s.1 s.2) h0
    fun _ _ _ hs hok => refines_step hs hok

lemma Refines.size_eq (h : Refines hash isDigest P M) : P.nItems = {i | M i ≠ none}.ncard := by
  have hinj : Set.InjOn P.interestOf (P.present.toFinset : Set PitEntryId) := by
    intro a ha b hb hab
    exact h.inv.unique a (by simpa using ha) b (by simpa using hb) hab
  have hkeys : some '' {i | M i ≠ none} = (P.present.toFinset.image P.interestOf : Set _) := by
    refine Set.ext fun k => ?_
    simp only [Set.mem_image, Finset.coe_image, coe_toFinset]
    constructor
    · rintro ⟨i, hi, rfl⟩
      obtain ⟨e, he⟩ := ne_none_iff_exists'.mp hi
      obtain ⟨hp, hei⟩ := (h.holds i e).mp he
      exact ⟨e, hp, hei⟩
    rintro ⟨e, he, rfl⟩
    obtain ⟨id, hid, hea⟩ := mem_present.mp he
    obtain ⟨-, i, hi, -⟩ := h.inv.attached id hid e hea
    have hei : P.interestOf e = some i := by simp [interestOf, hi]
    refine ⟨i, ?_, hei.symm⟩
    have hMi := (h.holds i e).mpr ⟨he, hei⟩
    exact fun hnone => by rw [hMi] at hnone; cases hnone
  rw [h.inv.nItems_eq, ← Set.ncard_image_of_injective _ (some_injective _), hkeys,
    Set.ncard_coe_finset, Finset.card_image_of_injOn hinj,
    toFinset_card_of_nodup h.inv.present_nodup]

structure BehavesAsMap (hash : C → Hash) (isDigest : C → Bool) (P : Pit C S)
    (M : InterestMap C S) : Prop where
  holds : Holds P M
  /-- `insert` returns the entry for the Interest, a new one only if there was none. -/
  insert : ∀ i, LookupOk hash isDigest P i →
    (∀ e, M i = some e → (P.insert hash isDigest i).2 = (some e, false) ∧
      (P.insert hash isDigest i).1.present.Perm P.present) ∧
    (M i = none → ∃ e ∉ P.present, (P.insert hash isDigest i).2 = (some e, true) ∧
      (P.insert hash isDigest i).1.interestOf e = some i ∧
      (P.insert hash isDigest i).1.present.Perm (e :: P.present))
  /-- `find` returns the entry if there is one, and changes no entry. -/
  find : ∀ i, LookupOk hash isDigest P i → (P.find hash isDigest i).2 = M i ∧
    (P.find hash isDigest i).1.present.Perm P.present ∧
    (P.find hash isDigest i).1.entries = P.entries
  /-- `erase` takes exactly the entry, and from its node only. -/
  erase : ∀ e ∈ P.present, (Event.erase e).Ok hash isDigest (P, M) →
    ∃ P', P.erase hash e = some P' ∧ P.present.Perm (e :: P'.present) ∧
      (∀ id ∈ P'.tree.linked, (P'.attachedTo id).Perm ((P.attachedTo id).erase e)) ∧
      ∀ e' ∈ P'.present, P'.entries e' = P.entries e'
  /-- Erasing an entry whose name ends in a digest is undefined behaviour. -/
  digest : ∀ e ∈ P.present, ∀ i, P.interestOf e = some i →
    NameTree.GrowthOk hash P.tree i.name.inits → isEndWithDigest isDigest i.name = true →
    P.erase hash e = none
  size : P.nItems = {i | M i ≠ none}.ncard

/-- In every run in which no entry with a digest at the end of its name is erased, and no
resize of the name tree misplaces entries, the PIT is a map from name and selectors. -/
theorem pit_behaves_as_map {n : ℕ} (hn : 0 < n)
    (h : Reach (step hash isDigest) (fun s ev => ev.Ok hash isDigest s)
      (new n, fun _ => none) (P, M)) : BehavesAsMap hash isDigest P M := by
  have hr : Refines hash isDigest P M := refines_run hn h
  refine ⟨hr.holds, fun i hok => ⟨fun e hi => ?_, fun hi => ?_⟩, fun i hok => ?_, ?_, ?_,
    hr.size_eq⟩
  · obtain ⟨hres, -, hp, -⟩ := insert_present hr.inv hr.holds hok hi
    exact ⟨hres, hp⟩
  · obtain ⟨hres, -, hp, hnew, -⟩ := insert_absent hr.inv hr.holds hok hi
    exact ⟨P.fresh, fun hf => lt_irrefl _ (hr.inv.lt_fresh hf), hres, hnew, hp⟩
  · obtain ⟨hres, -, hp, he⟩ := find_spec hr.inv hr.holds hok
    exact ⟨hres, hp, he⟩
  · intro e he hok
    obtain ⟨id, hid, hea⟩ := mem_present.mp he
    obtain ⟨-, i, hi, -⟩ := hr.inv.attached id hid e hea
    have hei : P.interestOf e = some i := by simp [interestOf, hi]
    obtain ⟨P', hs, -, hp, hatt, hold⟩ := erase_spec hr.inv he hei (hok.2 i hei) hok.1
    exact ⟨P', hs, hp, hatt, hold⟩
  · intro e he i hi hgrow hd
    exact erase_digest hr.inv he hi hd hgrow

/-- An Interest for a digest directly below the root can be inserted but not erased. -/
theorem digest_entry_not_erased :
    ∃ (P : Pit Bool Unit) (M : InterestMap Bool Unit),
      Reach (step (fun _ => 1) id) Any (new 8, fun _ => none) (P, M) ∧
      0 ∈ P.present ∧ P.erase (fun _ => 1) 0 = none := by
  refine ⟨_, _, .step (a := .insert ⟨[true], ()⟩) .init trivial rfl, by decide, ?_⟩
  exact isNone_iff_eq_none.mp (by decide)

/-- The map after two Interests without a digest, one below the other. -/
theorem pit_behaves_as_map_two :
    ∃ (P : Pit Bool Unit) (M : InterestMap Bool Unit), P.present.length = 2 ∧
      BehavesAsMap (fun _ => 1) id P M := by
  refine ⟨_, _, ?_, pit_behaves_as_map (n := 16) (by decide) (.step
    (a := .insert ⟨[false, false], ()⟩) (.step (a := .insert ⟨[false], ()⟩) .init
      (NameTree.growthOk_of_room (by decide)) rfl) (NameTree.growthOk_of_room (by decide)) rfl)⟩
  decide

end NfdGateway.Pit
