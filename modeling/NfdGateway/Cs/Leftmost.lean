import NfdGateway.Cs.TableOrder

/-! A lookup with leftmost child selection finds the least entry that can satisfy the Interest. -/
namespace NfdGateway.Cs

open PrefixOrder List Option

variable {C X S P : Type} {table : List (Entry C X)} {p : Entry C X → Bool} {first last i j : ℕ}
  {e e' : Entry C X} {matchesData : Interest C S → Data C X → Bool} {interest : Interest C S}

lemma matchesData_of_canSatisfy {e : Entry C X} {now : Time}
    (h : e.canSatisfy matchesData interest now = true) : matchesData interest e.data = true := by
  unfold Entry.canSatisfy at h
  split at h
  · cases h
  next hmatches =>
    simpa using hmatches

lemma findIf_spec (hle : first ≤ last) (hlast : last ≤ table.length) :
    ∃ k, findIf p table first last = some k ∧ first ≤ k ∧ k ≤ last ∧
      (k < last → ∃ e, table[k]? = some e ∧ p e = true) ∧
      ∀ j e, first ≤ j → j < k → table[j]? = some e → p e = false := by
  have hget : ∀ j, first + j < last → ((table.take last).drop first)[j]? = table[first + j]? := by
    intro j hj
    rw [getElem?_drop, getElem?_take_of_lt hj]
  have hlen : ((table.take last).drop first).length = last - first := by
    rw [length_drop, length_take]
    omega
  have hidx : ((table.take last).drop first).findIdx p ≤ last - first := hlen ▸ findIdx_le_length
  refine ⟨_, if_pos hle, Nat.le_add_right _ _, by omega, ?_, ?_⟩
  · intro hk
    have hlt : ((table.take last).drop first).findIdx p <
        ((table.take last).drop first).length := by omega
    refine ⟨_, ?_, findIdx_getElem (w := hlt)⟩
    rw [← hget _ hk, getElem?_eq_getElem hlt]
  intro j e hj hlt he
  obtain ⟨d, rfl⟩ := Nat.exists_eq_add_of_le hj
  have hd : d < ((table.take last).drop first).findIdx p := by omega
  have hnot := not_of_lt_findIdx hd
  rw [← hget d (by omega)] at he
  rw [(List.getElem?_eq_some_iff.mp he).2] at hnot
  simpa using hnot

variable [LinearOrder C] {K : Components C} {name init : Name C} {a : C} {data : Data C X}

structure IsTable (K : Components C) (table : List (Entry C X)) : Prop where
  storable : ∀ e ∈ table, e.data.IsStorable K
  sorted : table.Pairwise fun e e' => EntryImpl.less K (.stored e.data) (.stored e'.data) = true

lemma lowerBound_le_length (K : Components C) (table : List (Entry C X)) (key : EntryImpl C X) :
    lowerBound K table key ≤ table.length :=
  (takeWhile_sublist _).length_le

lemma lowerBound_mono {key key' : EntryImpl C X}
    (h : ∀ e ∈ table, EntryImpl.less K (.stored e.data) key = true →
      EntryImpl.less K (.stored e.data) key' = true) :
    lowerBound K table key ≤ lowerBound K table key' := by
  unfold lowerBound
  induction table with
  | nil => exact Nat.le_refl _
  | cons e table ih =>
    have ih := ih fun e' he' => h e' (.tail _ he')
    cases hless : EntryImpl.less K (.stored e.data) key with
    | false => simp [hless]
    | true => simpa [takeWhile_cons, hless, h e (.head _) hless] using ih

lemma isQuery_of_isPrefix {name : Name C} (h : data.IsStorable K)
    (hpre : name <+: data.getFullName) : IsQuery K name := by
  rcases prefix_concat_iff.mp hpre with rfl | hpre
  · intro c hc
    rw [dropLast_concat] at hc
    exact h.name c hc
  · intro c hc
    exact h.name c (hpre.subset (dropLast_subset _ hc))

lemma isPrefix_of_range (hge : EntryImpl.less K (.stored data) (.query (init ++ [a])) = false)
    (hlt : EntryImpl.less K (.stored data) (.query (getSuccessor K (init ++ [a]))) = true) :
    init <+: data.name := by
  have hge := ne_true_of_eq_false hge
  rw [getSuccessor_append] at hlt
  cases ha : K.isImplicitSha256Digest a with
  | false =>
    rw [less_query_generic_iff (by simp [ha])] at hge
    rw [less_query_generic_iff (by simp [isDigest_getSuccessor ha])] at hlt
    have hinit := (lt_append_singleton init a).le.trans (not_lt.mp hge)
    exact prefix_of_between (not_lt.mpr hinit) hlt.asymm (prefix_append init _)
  | true =>
    rw [less_query_digest_iff ha] at hge
    have hinit : init ≤ data.name := not_lt.mp fun h => hge (.inl h)
    cases hs : K.isImplicitSha256Digest (K.getSuccessor a) with
    | false =>
      rw [less_query_generic_iff (by simp [hs])] at hlt
      exact prefix_of_between (not_lt.mpr hinit) hlt.asymm (prefix_append init _)
    | true =>
      rw [less_query_digest_iff hs] at hlt
      rcases hlt with hlt | ⟨heq, -⟩
      · exact absurd hlt (not_lt.mpr hinit)
      · exact heq ▸ prefix_rfl

lemma range_iff (h : data.IsStorable K) :
    (EntryImpl.less K (.stored data) (.query (init ++ [a])) = false ∧
      EntryImpl.less K (.stored data) (.query (getSuccessor K (init ++ [a]))) = true) ↔
    init ++ [a] <+: data.getFullName := by
  have hiff : IsQuery K (init ++ [a]) →
      ((EntryImpl.less K (.stored data) (.query (init ++ [a])) = false ∧
        EntryImpl.less K (.stored data) (.query (getSuccessor K (init ++ [a]))) = true) ↔
      init ++ [a] <+: data.getFullName) := by
    intro hquery
    have hsuccessor : IsQuery K (getSuccessor K (init ++ [a])) := by
      rw [getSuccessor_append]
      simpa [IsQuery] using hquery
    rw [← Bool.not_eq_true, less_query_iff hquery h, less_query_iff hsuccessor h, not_lt]
    exact ⟨fun hr => isPrefix_of_lt_getSuccessor hr.1 hr.2, mem_range_of_isPrefix⟩
  refine ⟨fun hr => ?_, fun hpre => (hiff (isQuery_of_isPrefix h hpre)).mpr hpre⟩
  -- a name in the range has no digest before its end
  have hquery : IsQuery K (init ++ [a]) := by
    intro c hc
    rw [dropLast_concat] at hc
    exact h.name c ((isPrefix_of_range hr.1 hr.2).subset hc)
  exact (hiff hquery).mp hr

lemma IsTable.lt_lowerBound_iff (h : IsTable K table) (he : table[i]? = some e) :
    i < lowerBound K table (.query name) ↔
      EntryImpl.less K (.stored e.data) (.query name) = true := by
  induction table generalizing i with
  | nil => simp at he
  | cons x table ih =>
    obtain ⟨hhead, htail⟩ := pairwise_cons.mp h.sorted
    have hrest : IsTable K table := ⟨fun e' he' => h.storable e' (.tail _ he'), htail⟩
    have ih := fun j => ih hrest (i := j)
    unfold lowerBound at ih ⊢
    cases hx : EntryImpl.less K (.stored x.data) (.query name) with
    | true =>
      rw [takeWhile_cons_of_pos (by simp [hx]), length_cons]
      cases i with
      | zero =>
        obtain rfl : x = e := by simpa using he
        simp [hx]
      | succ i =>
        rw [Nat.add_lt_add_iff_right]
        exact ih i he
    | false =>
      rw [takeWhile_cons_of_neg (by simp [hx]), length_nil]
      refine iff_of_false (Nat.not_lt_zero _) fun hless => ?_
      rcases mem_cons.mp (mem_of_getElem? he) with rfl | hmem
      · simp [hx] at hless
      · simp [less_query_trans (hhead e hmem) hless] at hx

def rangeEnd (K : Components C) (table : List (Entry C X)) (name : Name C) : ℕ :=
  if 0 < name.length then lowerBound K table (.query (getSuccessor K name)) else table.length

lemma rangeEnd_le_length (K : Components C) (table : List (Entry C X)) (name : Name C) :
    rangeEnd K table name ≤ table.length := by
  unfold rangeEnd
  split
  · exact lowerBound_le_length ..
  · exact Nat.le_refl _

lemma lowerBound_le_rangeEnd (K : Components C) (table : List (Entry C X)) (name : Name C) :
    lowerBound K table (.query name) ≤ rangeEnd K table name := by
  unfold rangeEnd
  rcases name.eq_nil_or_concat' with rfl | ⟨init, a, rfl⟩
  · exact lowerBound_le_length ..
  · rw [if_pos (by simp)]
    exact lowerBound_mono fun e _ => less_getSuccessor

section

variable (h : IsTable K table) (he : table[i]? = some e)
include h he

lemma IsTable.mem_range_iff : (lowerBound K table (.query name) ≤ i ∧ i < rangeEnd K table name) ↔
      name <+: e.data.getFullName := by
  have hstorable := h.storable e (mem_of_getElem? he)
  rw [← not_lt, h.lt_lowerBound_iff he, Bool.not_eq_true]
  unfold rangeEnd
  rcases name.eq_nil_or_concat' with rfl | ⟨init, a, rfl⟩
  · have hlt : i < table.length := (List.getElem?_eq_some_iff.mp he).1
    have hge : EntryImpl.less K (.stored e.data) (.query []) = false := by
      rw [← Bool.not_eq_true, less_query_iff (by simp [IsQuery]) hstorable]
      exact not_lt_nil _
    simp [hlt, hge]
  · rw [if_pos (by simp), h.lt_lowerBound_iff he]
    exact range_iff hstorable

lemma IsTable.getFullName_lt (he' : table[j]? = some e') (hij : i < j) :
    e.data.getFullName < e'.data.getFullName := by
  obtain ⟨hi, rfl⟩ := List.getElem?_eq_some_iff.mp he
  obtain ⟨hj, rfl⟩ := List.getElem?_eq_some_iff.mp he'
  refine (less_stored_iff (h.storable _ (getElem_mem hi)) (h.storable _ (getElem_mem hj))).mp ?_
  exact pairwise_iff_getElem.mp h.sorted i j hi hj hij

lemma IsTable.getFullName_le (he' : table[j]? = some e') (hij : i ≤ j) :
    e.data.getFullName ≤ e'.data.getFullName := by
  rcases Nat.eq_or_lt_of_le hij with rfl | hlt
  · obtain rfl : e = e' := by rw [he] at he'; exact some.inj he'
    exact le_rfl
  · exact (h.getFullName_lt he he' hlt).le

end

lemma IsTable.mem_range_of_canSatisfy {now : Time} (h : IsTable K table)
    (hmatches : ∀ i d, matchesData i d = true → i.name <+: d.getFullName)
    (he : table[i]? = some e) (hcan : e.canSatisfy matchesData interest now = true) :
    lowerBound K table (.query interest.name) ≤ i ∧ i < rangeEnd K table interest.name :=
  (h.mem_range_iff he).mpr (hmatches _ _ (matchesData_of_canSatisfy hcan))

lemma IsTable.search_of_position {now : EntryId → Time} {k : ℕ}
    {better : Entry C X → Entry C X → Prop} (h : IsTable K table)
    (hmatches : ∀ i d, matchesData i d = true → i.name <+: d.getFullName)
    (hsearch : search K matchesData table interest now =
      if k = rangeEnd K table interest.name then some none else table[k]?.map some)
    (hk : (k = rangeEnd K table interest.name ∧
        ∀ j e, lowerBound K table (.query interest.name) ≤ j → j < rangeEnd K table interest.name →
          table[j]? = some e → e.canSatisfy matchesData interest (now e.id) = false) ∨
      lowerBound K table (.query interest.name) ≤ k ∧ k < rangeEnd K table interest.name ∧
        ∃ e, table[k]? = some e ∧ e.canSatisfy matchesData interest (now e.id) = true ∧
          ∀ j e', lowerBound K table (.query interest.name) ≤ j →
            j < rangeEnd K table interest.name → table[j]? = some e' →
            e'.canSatisfy matchesData interest (now e'.id) = true → better e e') :
    (search K matchesData table interest now = some none ∧
      ∀ e ∈ table, e.canSatisfy matchesData interest (now e.id) = false) ∨
    ∃ e ∈ table, search K matchesData table interest now = some (some e) ∧
      e.canSatisfy matchesData interest (now e.id) = true ∧
      ∀ e' ∈ table, e'.canSatisfy matchesData interest (now e'.id) = true → better e e' := by
  rcases hk with ⟨rfl, hnone⟩ | ⟨-, hkr, e, he, hp, hall⟩
  · refine .inl ⟨hsearch.trans (if_pos rfl), fun e hmem => eq_false_of_ne_true fun hcan => ?_⟩
    obtain ⟨j, he⟩ := getElem?_of_mem hmem
    obtain ⟨hj, hjr⟩ := h.mem_range_of_canSatisfy hmatches he hcan
    simp [hnone j e hj hjr he] at hcan
  refine .inr ⟨e, mem_of_getElem? he, ?_, hp, fun e' hmem hcan => ?_⟩
  · rw [hsearch, if_neg hkr.ne, he]
    rfl
  obtain ⟨j, he'⟩ := getElem?_of_mem hmem
  obtain ⟨hj, hjr⟩ := h.mem_range_of_canSatisfy hmatches he' hcan
  exact hall j e' hj hjr he' hcan

lemma IsTable.search_leftmost (h : IsTable K table)
    (hmatches : ∀ i d, matchesData i d = true → i.name <+: d.getFullName)
    (hleft : interest.childSelector ≠ 1) (now : EntryId → Time) :
    (search K matchesData table interest now = some none ∧
      ∀ e ∈ table, e.canSatisfy matchesData interest (now e.id) = false) ∨
    ∃ e ∈ table, search K matchesData table interest now = some (some e) ∧
      e.canSatisfy matchesData interest (now e.id) = true ∧
      ∀ e' ∈ table, e'.canSatisfy matchesData interest (now e'.id) = true →
        e.data.getFullName ≤ e'.data.getFullName := by
  obtain ⟨k, hk, hfirst, hlast, hsat, hskip⟩ := findIf_spec
    (p := fun e => e.canSatisfy matchesData interest (now e.id))
    (lowerBound_le_rangeEnd K table interest.name) (rangeEnd_le_length K table interest.name)
  refine h.search_of_position (k := k) hmatches ?_ ?_
  · simp only [search, if_neg hleft]
    exact congrArg (Option.bind · _) hk
  rcases Nat.eq_or_lt_of_le hlast with rfl | hlt
  · exact .inl ⟨rfl, hskip⟩
  obtain ⟨e, he, hp⟩ := hsat hlt
  refine .inr ⟨hfirst, hlt, e, he, hp, fun j e' hj _ he' hp' => ?_⟩
  refine h.getFullName_le he he' (Nat.not_lt.mp fun hjk => ?_)
  simp [hskip j e' hj hjk he'] at hp'

lemma Store.find_of_search {s : Store C X P} {policy : Policy C X P} {now : EntryId → Time}
    {found : Option (Entry C X)} : search K matchesData s.table interest now = some found →
    s.find K policy matchesData interest now =
      (match found with
      | none => some (s, none)
      | some e => (policy.doBeforeUse s e.id).map (·, some e.data)) := by
  intro h
  unfold Store.find
  rw [h]
  cases found <;> rfl

/-- A lookup with leftmost child selection passes the least entry in the order of full names, of
all in the table that can satisfy the Interest, and it is a miss if and only if there is none. -/
theorem find_leftmost {s : Store C X P} (policy : Policy C X P)
    (hmatches : ∀ i d, matchesData i d = true → i.name <+: d.getFullName)
    (htable : IsTable K s.table) (hleft : interest.childSelector ≠ 1) (now : EntryId → Time) :
    ∃ found, search K matchesData s.table interest now = some found ∧
      s.find K policy matchesData interest now =
        (match found with
        | none => some (s, none)
        | some e => (policy.doBeforeUse s e.id).map (·, some e.data)) ∧
      (∀ e, found = some e → e ∈ s.table ∧
        e.canSatisfy matchesData interest (now e.id) = true ∧
        ∀ e' ∈ s.table, e'.canSatisfy matchesData interest (now e'.id) = true →
          e.data.getFullName ≤ e'.data.getFullName) ∧
      (found = none ↔
        ∀ e ∈ s.table, e.canSatisfy matchesData interest (now e.id) = false) := by
  rcases htable.search_leftmost hmatches hleft now with
    ⟨hsearch, hnone⟩ | ⟨e, hmem, hsearch, hcan, hleast⟩
  · exact ⟨none, hsearch, s.find_of_search hsearch, nofun, iff_of_true rfl hnone⟩
  refine ⟨some e, hsearch, s.find_of_search hsearch, ?_, iff_of_false nofun fun hnone => ?_⟩
  · rintro _ ⟨⟩
    exact ⟨hmem, hcan, hleast⟩
  · simp [hnone e hmem] at hcan

def sampleTable : List (Entry ℕ Unit) :=
  [⟨0, ⟨[200], 7, -1, false, ()⟩, false, none⟩, ⟨1, ⟨[200], 9, -1, false, ()⟩, true, none⟩,
    ⟨2, ⟨[200, 300], 8, 0, false, ()⟩, false, some 5⟩]

/-- An Interest for a full name. -/
theorem find_leftmost_satisfied :
    IsTable numberComponents sampleTable ∧
    ∃ e, search numberComponents matchesName sampleTable ⟨[200, 9], 0, true, ()⟩ (fun _ => 6) =
        some (some e) ∧ e.id = 1 ∧
      ∀ e' ∈ sampleTable, e'.canSatisfy matchesName ⟨[200, 9], 0, true, ()⟩ 6 = true →
        e.data.getFullName ≤ e'.data.getFullName := by
  have htable : IsTable numberComponents sampleTable := by
    refine ⟨?_, by decide⟩
    have hstorable : ∀ e ∈ sampleTable,
        (∀ c ∈ e.data.name, numberComponents.isImplicitSha256Digest c = false) ∧
          numberComponents.isImplicitSha256Digest e.data.digest = true := by decide
    exact fun e he => ⟨(hstorable e he).1, (hstorable e he).2⟩
  let keepAll : Policy ℕ Unit Unit :=
    ⟨fun s _ _ => some s, fun s _ _ => some s, fun s _ => some s, fun s => some s⟩
  let s : Store ℕ Unit Unit := ⟨sampleTable, 3, 10, ()⟩
  obtain ⟨found, hsearch, -, hleast, -⟩ := find_leftmost (s := s) keepAll
    (fun (i : Interest ℕ Unit) d h => isPrefixOf_iff_prefix.mp h) htable
    (show (⟨[200, 9], 0, true, ()⟩ : Interest ℕ Unit).childSelector ≠ 1 by decide) fun _ => 6
  have hfound : search numberComponents matchesName sampleTable ⟨[200, 9], 0, true, ()⟩
      (fun _ => 6) = some (some ⟨1, ⟨[200], 9, -1, false, ()⟩, true, none⟩) := rfl
  refine ⟨htable, _, hfound, rfl, ?_⟩
  exact (hleast _ (some.inj (hsearch.symm.trans hfound))).2.2

end NfdGateway.Cs
