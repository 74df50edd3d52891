import NfdGateway.Cs.Store
import NfdGateway.Lib.PrefixOrder

/-! The order of the table is the canonical order of full names, also against the names that are
looked up. -/
namespace NfdGateway.Cs

open PrefixOrder List

variable {C X : Type} [LinearOrder C] {K : Components C} {data data' : Data C X}
  {name init : Name C} {a d : C}

section Compare

variable {α : Type} [LinearOrder α] {x y : α}

lemma canonicalCompare_lt : canonicalCompare x y = .lt ↔ x < y := compare_lt_iff_lt

lemma canonicalCompare_eq : canonicalCompare x y = .eq ↔ x = y := compare_eq_iff_eq

lemma canonicalCompare_gt : canonicalCompare x y = .gt ↔ y < x := compare_gt_iff_gt

end Compare

structure Data.IsStorable (K : Components C) (data : Data C X) : Prop where
  name : ∀ c ∈ data.name, K.isImplicitSha256Digest c = false
  digest : K.isImplicitSha256Digest data.digest = true

lemma append_digest_lt {name' : Name C} (hd : K.isImplicitSha256Digest d = true)
    (hname' : ∀ c ∈ name', K.isImplicitSha256Digest c = false) (hlt : name < name') :
    name ++ [d] < name' := by
  induction name generalizing name' with
  | nil =>
    cases name' with
    | nil => exact absurd hlt (lt_irrefl _)
    | cons c name' =>
      exact cons_lt_cons_iff.mpr (.inl (K.digest_lt d c hd (hname' c (.head _))))
  | cons b name ih =>
    cases name' with
    | nil => exact absurd hlt (not_lt_nil _)
    | cons c name' =>
      rcases cons_lt_cons_iff.mp hlt with hbc | ⟨rfl, hrest⟩
      · exact cons_lt_cons_iff.mpr (.inl hbc)
      · have hrest := ih (fun x hx => hname' x (.tail _ hx)) hrest
        exact cons_lt_cons_iff.mpr (.inr ⟨rfl, hrest⟩)

lemma canonicalCompare_append_singleton (init : Name C) (a d : C) :
    canonicalCompare (init ++ [a]) (init ++ [d]) = canonicalCompare a d := by
  rcases lt_trichotomy a d with h | rfl | h
  · rw [canonicalCompare_lt.mpr h, canonicalCompare_lt.mpr (append_singleton_lt_iff.mpr h)]
  · rw [canonicalCompare_eq.mpr rfl, canonicalCompare_eq.mpr rfl]
  · rw [canonicalCompare_gt.mpr h, canonicalCompare_gt.mpr (append_singleton_lt_iff.mpr h)]

lemma Data.IsStorable.getFullName_lt (h : data.IsStorable K) (h' : data'.IsStorable K)
    (hlt : data.name < data'.name) : data.getFullName < data'.getFullName :=
  lt_append (append_digest_lt h.digest h'.name hlt) [data'.digest]

lemma compareDataWithData_eq (h : data.IsStorable K) (h' : data'.IsStorable K) :
    compareDataWithData data data' = canonicalCompare data.getFullName data'.getFullName := by
  unfold compareDataWithData
  rcases lt_trichotomy data.name data'.name with hlt | heq | hgt
  · simp [canonicalCompare_lt.mpr hlt, canonicalCompare_lt.mpr (h.getFullName_lt h' hlt)]
  · rw [heq, canonicalCompare_eq.mpr rfl, Data.getFullName, Data.getFullName, heq,
      canonicalCompare_append_singleton]
    rfl
  · simp [canonicalCompare_gt.mpr hgt, canonicalCompare_gt.mpr (h'.getFullName_lt h hgt)]

lemma compareQueryWithData_digest (ha : K.isImplicitSha256Digest a = true) :
    compareQueryWithData K (init ++ [a]) data =
      if canonicalCompare init data.name ≠ .eq then canonicalCompare init data.name
      else canonicalCompare a data.digest := by
  simp [compareQueryWithData, ha]

lemma compareQueryWithData_generic (hname : name.getLast?.any K.isImplicitSha256Digest = false) :
    compareQueryWithData K name data =
      if canonicalCompare name data.name ≠ .eq then canonicalCompare name data.name else .lt := by
  simp [compareQueryWithData, hname]

def IsQuery (K : Components C) (name : Name C) : Prop :=
  ∀ c ∈ name.dropLast, K.isImplicitSha256Digest c = false

lemma compareQueryWithData_eq (hname : IsQuery K name) (h : data.IsStorable K) :
    compareQueryWithData K name data = canonicalCompare name data.getFullName := by
  -- without a digest at its end the name is compared with the Data name alone
  have hgeneric : (∀ c ∈ name, K.isImplicitSha256Digest c = false) →
      name.getLast?.any K.isImplicitSha256Digest = false →
      compareQueryWithData K name data = canonicalCompare name data.getFullName := by
    intro hall hlast
    rw [compareQueryWithData_generic hlast]
    rcases lt_trichotomy name data.name with hlt | rfl | hgt
    · have hfull : name < data.getFullName := lt_append hlt [data.digest]
      simp [canonicalCompare_lt.mpr hlt, canonicalCompare_lt.mpr hfull]
    · have hfull : data.name < data.getFullName := lt_append_singleton _ _
      rw [canonicalCompare_eq.mpr rfl, canonicalCompare_lt.mpr hfull]
      rfl
    · have hfull : data.getFullName < name := append_digest_lt h.digest hall hgt
      simp [canonicalCompare_gt.mpr hgt, canonicalCompare_gt.mpr hfull]
  rcases name.eq_nil_or_concat' with rfl | ⟨init, a, rfl⟩
  · exact hgeneric nofun rfl
  have hinit : ∀ c ∈ init, K.isImplicitSha256Digest c = false := by simpa [IsQuery] using hname
  cases ha : K.isImplicitSha256Digest a with
  | false =>
    refine hgeneric ?_ (by simp [ha])
    intro c hc
    rcases mem_append.mp hc with hc | hc
    · exact hinit c hc
    · rw [mem_singleton.mp hc]
      exact ha
  | true =>
    rw [compareQueryWithData_digest ha]
    rcases lt_trichotomy init data.name with hlt | rfl | hgt
    · have hfull : init ++ [a] < data.getFullName :=
        lt_append (append_digest_lt ha h.name hlt) [data.digest]
      simp [canonicalCompare_lt.mpr hlt, canonicalCompare_lt.mpr hfull]
    · rw [Data.getFullName, canonicalCompare_append_singleton, canonicalCompare_eq.mpr rfl]
      rfl
    have hfull : data.getFullName < init ++ [a] :=
      lt_append (append_digest_lt h.digest hinit hgt) [a]
    simp [canonicalCompare_gt.mpr hgt, canonicalCompare_gt.mpr hfull]

lemma less_stored_iff (h : data.IsStorable K) (h' : data'.IsStorable K) :
    EntryImpl.less K (.stored data) (.stored data') = true ↔
      data.getFullName < data'.getFullName := by
  rw [EntryImpl.less, beq_iff_eq, compareDataWithData_eq h h', canonicalCompare_lt]

lemma less_query_iff (hname : IsQuery K name) (h : data.IsStorable K) :
    EntryImpl.less K (.stored data) (.query name) = true ↔ data.getFullName < name := by
  rw [EntryImpl.less, beq_iff_eq, compareQueryWithData_eq hname h, canonicalCompare_gt]

lemma getSuccessor_append (K : Components C) (init : Name C) (a : C) :
    getSuccessor K (init ++ [a]) = init ++ [K.getSuccessor a] := by
  simp [getSuccessor]

lemma lt_getSuccessor (K : Components C) (a : C) : a < K.getSuccessor a :=
  (K.lt_getSuccessor a a).mpr le_rfl

lemma isDigest_getSuccessor (ha : K.isImplicitSha256Digest a = false) :
    K.isImplicitSha256Digest (K.getSuccessor a) = false := by
  refine eq_false_of_ne_true fun hsucc => ?_
  exact lt_asymm (lt_getSuccessor K a) (K.digest_lt _ _ hsucc ha)

lemma less_query_generic_iff (hname : name.getLast?.any K.isImplicitSha256Digest = false) :
    EntryImpl.less K (.stored data) (.query name) = true ↔ data.name < name := by
  rw [EntryImpl.less, beq_iff_eq, compareQueryWithData_generic hname, ← canonicalCompare_gt]
  split
  · rfl
  next heq =>
    simp [not_not.mp heq]

lemma less_query_digest_iff (ha : K.isImplicitSha256Digest a = true) :
    EntryImpl.less K (.stored data) (.query (init ++ [a])) = true ↔
      data.name < init ∨ data.name = init ∧ data.digest < a := by
  rw [EntryImpl.less, beq_iff_eq, compareQueryWithData_digest ha]
  rcases lt_trichotomy init data.name with hlt | rfl | hlt
  · simp [canonicalCompare_lt.mpr hlt, lt_asymm hlt, ne_of_gt hlt]
  · simp [canonicalCompare_eq.mpr, canonicalCompare_gt]
  · simp [canonicalCompare_gt.mpr hlt, hlt]

lemma less_getSuccessor (h : EntryImpl.less K (.stored data) (.query (init ++ [a])) = true) :
    EntryImpl.less K (.stored data) (.query (getSuccessor K (init ++ [a]))) = true := by
  rw [getSuccessor_append]
  have hsucc := lt_getSuccessor K a
  cases ha : K.isImplicitSha256Digest a with
  | false =>
    have hlast := isDigest_getSuccessor ha
    rw [less_query_generic_iff (by simp [ha])] at h
    rw [less_query_generic_iff (by simp [hlast])]
    exact lt_trans h (append_singleton_lt_iff.mpr hsucc)
  | true =>
    rw [less_query_digest_iff ha] at h
    cases hlast : K.isImplicitSha256Digest (K.getSuccessor a) with
    | false =>
      rw [less_query_generic_iff (by simp [hlast])]
      rcases h with h | ⟨h, -⟩
      · exact lt_append h _
      · rw [h]
        exact lt_append_singleton _ _
    | true =>
      rw [less_query_digest_iff hlast]
      rcases h with h | ⟨h, hd⟩
      · exact .inl h
      · exact .inr ⟨h, lt_trans hd hsucc⟩

lemma mem_range_of_isPrefix {full : Name C} (hpre : init ++ [a] <+: full) :
    init ++ [a] ≤ full ∧ full < getSuccessor K (init ++ [a]) := by
  refine ⟨not_lt.mp (not_lt_of_isPrefix hpre), ?_⟩
  obtain ⟨rest, rfl⟩ := hpre
  rw [getSuccessor_append, append_assoc, append_lt_append_iff]
  exact cons_lt_cons_iff.mpr (.inl (lt_getSuccessor K a))

lemma isPrefix_of_lt_getSuccessor (hle : init ++ [a] ≤ name)
    (hlt : name < getSuccessor K (init ++ [a])) : init ++ [a] <+: name := by
  rw [getSuccessor_append] at hlt
  have hinit : init ≤ name := (lt_append_singleton init a).le.trans hle
  obtain ⟨rest, rfl⟩ := prefix_of_between (not_lt.mpr hinit) hlt.asymm (prefix_append init _)
  rw [append_lt_append_iff] at hlt
  have hnot : ¬ rest < [a] := fun h => not_lt.mpr hle (append_lt_append_iff.mpr h)
  cases rest with
  | nil => exact absurd (nil_lt_cons ..) hnot
  | cons b rest =>
    have hba : b ≤ a := by
      rcases cons_lt_cons_iff.mp hlt with h | ⟨-, h⟩
      · exact (K.lt_getSuccessor a b).mp h
      · exact absurd h (not_lt_nil _)
    have hab : ¬ b < a := fun h => hnot (cons_lt_cons_iff.mpr (.inl h))
    rw [eq_of_le_of_not_lt hba hab]
    exact ⟨rest, by simp⟩

lemma less_stored_iff_name : EntryImpl.less K (.stored data) (.stored data') = true ↔
    data.name < data'.name ∨ data.name = data'.name ∧ data.digest < data'.digest := by
  rw [EntryImpl.less, beq_iff_eq, compareDataWithData]
  rcases lt_trichotomy data.name data'.name with hlt | heq | hgt
  · simp [canonicalCompare_lt.mpr hlt, hlt]
  · simp [heq, canonicalCompare_eq.mpr, canonicalCompare_lt]
  · simp [canonicalCompare_gt.mpr hgt, lt_asymm hgt, ne_of_gt hgt]

lemma less_query_trans (h : EntryImpl.less K (.stored data) (.stored data') = true)
    (h' : EntryImpl.less K (.stored data') (.query name) = true) :
    EntryImpl.less K (.stored data) (.query name) = true := by
  rw [less_stored_iff_name] at h
  cases hlast : name.getLast?.any K.isImplicitSha256Digest with
  | false =>
    rw [less_query_generic_iff hlast] at h' ⊢
    rcases h with h | ⟨h, -⟩
    · exact lt_trans h h'
    · exact h ▸ h'
  | true =>
    rcases name.eq_nil_or_concat' with rfl | ⟨init, a, rfl⟩
    · simp at hlast
    rw [less_query_digest_iff (by simpa using hlast)] at h' ⊢
    rcases h with h | ⟨h, hd⟩ <;> rcases h' with h' | ⟨h', hd'⟩
    · exact .inl (lt_trans h h')
    · exact .inl (h' ▸ h)
    · exact .inl (h ▸ h')
    · exact .inr ⟨h.trans h', lt_trans hd hd'⟩

def EntryImpl.fullName : EntryImpl C X → Name C
  | .query name => name
  | .stored data => data.getFullName

def EntryImpl.IsValid (K : Components C) : EntryImpl C X → Prop
  | .query name => IsQuery K name
  | .stored data => data.IsStorable K

lemma EntryImpl.less_iff {e e' : EntryImpl C X} (h : e.IsValid K) (h' : e'.IsValid K) :
    less K e e' = true ↔ e.fullName < e'.fullName := by
  cases e with
  | query name =>
    cases e' with
    | query name' => exact decide_eq_true_iff
    | stored data => rw [less, beq_iff_eq, compareQueryWithData_eq h h', canonicalCompare_lt]; rfl
  | stored data =>
    cases e' with
    | query name => exact less_query_iff h' h
    | stored data' => exact less_stored_iff h h'

/-- On stored Data and queries alike the comparison is the canonical order of the full names. -/
theorem less_canonical_order (K : Components C) : (∀ e e' : { e : EntryImpl C X // e.IsValid K },
      EntryImpl.less K e.1 e'.1 = true ↔ e.1.fullName < e'.1.fullName) ∧
    IsStrictWeakOrder { e : EntryImpl C X // e.IsValid K }
      fun e e' => EntryImpl.less K e.1 e'.1 = true := by
  have hless : ∀ e e' : { e : EntryImpl C X // e.IsValid K },
      EntryImpl.less K e.1 e'.1 = true ↔ e.1.fullName < e'.1.fullName :=
    fun e e' => EntryImpl.less_iff e.2 e'.2
  -- two entries that do not come one before the other have the same full name
  have hsame : ∀ e e' : { e : EntryImpl C X // e.IsValid K },
      ¬ EntryImpl.less K e.1 e'.1 = true ∧ ¬ EntryImpl.less K e'.1 e.1 = true ↔
        e.1.fullName = e'.1.fullName := by
    intro e e'
    rw [hless, hless, not_lt, not_lt, and_comm, ← le_antisymm_iff]
  refine ⟨hless, { irrefl := ?_, trans := ?_, incomp_trans := ?_ }⟩
  · exact fun e => mt (hless e e).mp (lt_irrefl _)
  · exact fun e e' e'' h h' => (hless e e'').mpr (((hless e e').mp h).trans ((hless e' e'').mp h'))
  · intro e e' e'' h h'
    exact (hsame e e'').mpr (((hsame e e').mp h).trans ((hsame e' e'').mp h'))

end NfdGateway.Cs
