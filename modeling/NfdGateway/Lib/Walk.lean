import Mathlib

/-! Walking over a list that changes on the way: elements come and go, but those that stay keep
their order. -/
namespace Walk

open List

variable {α : Type} [DecidableEq α] {l l' : List α} {c x y : α} {p : α → Bool}

def seen (l : List α) (c : α) : List α := l.takeWhile (· ≠ c)

def rest (l : List α) (c : α) : List α := (l.dropWhile (· ≠ c)).tail

lemma seen_cons_of_ne (h : x ≠ c) : seen (x :: l) c = x :: seen l c := by simp [seen, h]

lemma rest_cons_of_ne (h : x ≠ c) : rest (x :: l) c = rest l c := by simp [rest, h]

lemma rest_cons_self : rest (c :: l) c = l := by simp [rest]

lemma sides_append {l₁ : List α} (h : c ∉ l₁) (l₂ : List α) :
    seen (l₁ ++ c :: l₂) c = l₁ ∧ rest (l₁ ++ c :: l₂) c = l₂ := by
  induction l₁ with
  | nil => simp [seen, rest]
  | cons a l₁ ih =>
    have hne : a ≠ c := fun he => h (he ▸ .head _)
    obtain ⟨h1, h2⟩ := ih fun hmem => h (.tail _ hmem)
    rw [cons_append, seen_cons_of_ne hne, rest_cons_of_ne hne, h1, h2]
    exact ⟨rfl, rfl⟩

lemma seen_append_rest (hc : c ∈ l) : seen l c ++ c :: rest l c = l := by
  obtain ⟨l₁, l₂, rfl, hnot⟩ := eq_append_cons_of_mem hc
  rw [(sides_append hnot _).1, (sides_append hnot _).2]

lemma mem_cases (hc : c ∈ l) (hx : x ∈ l) : x ∈ seen l c ∨ x = c ∨ x ∈ rest l c := by
  rw [← seen_append_rest hc] at hx
  simpa using hx

lemma not_mem_rest_of_mem_seen (hn : l.Nodup) (hc : c ∈ l) (hx : x ∈ seen l c) : x ∉ rest l c := by
  rw [← seen_append_rest hc] at hn
  intro hr
  exact (nodup_append.mp hn).2.2 x hx x (.tail _ hr) rfl

lemma ne_of_mem_rest (hn : l.Nodup) (hc : c ∈ l) (hx : x ∈ rest l c) : x ≠ c := by
  rw [← seen_append_rest hc] at hn
  rintro rfl
  exact (nodup_cons.mp (nodup_append.mp hn).2.1).1 hx

lemma mem_of_mem_rest (hc : c ∈ l) (hx : x ∈ rest l c) : x ∈ l := by
  rw [← seen_append_rest hc]
  exact mem_append_right _ (.tail _ hx)

lemma sublist_sides (h : l.Sublist l') (hn : l'.Nodup) (hc : c ∈ l) :
    (seen l c).Sublist (seen l' c) ∧ (rest l c).Sublist (rest l' c) := by
  induction h with
  | slnil => cases hc
  | @cons l l' a h ih =>
    obtain ⟨ha, hn⟩ := nodup_cons.mp hn
    have hne : a ≠ c := by
      rintro rfl
      exact ha (h.subset hc)
    obtain ⟨h1, h2⟩ := ih hn hc
    rw [seen_cons_of_ne hne, rest_cons_of_ne hne]
    exact ⟨h1.cons a, h2⟩
  | @cons_cons l l' a h ih =>
    obtain ⟨ha, hn⟩ := nodup_cons.mp hn
    by_cases hne : a = c
    · subst hne
      rw [rest_cons_self, rest_cons_self]
      exact ⟨by simp [seen], h⟩
    have hmem : c ∈ l := (mem_cons.mp hc).resolve_left (Ne.symm hne)
    obtain ⟨h1, h2⟩ := ih hn hmem
    rw [seen_cons_of_ne hne, seen_cons_of_ne hne, rest_cons_of_ne hne, rest_cons_of_ne hne]
    exact ⟨h1.cons_cons a, h2⟩

lemma sides_of_rest {l₁ l₂ : List α} (hn : l.Nodup) (hc : c ∈ l) (h : rest l c = l₁ ++ y :: l₂) :
    seen l y = seen l c ++ c :: l₁ ∧ rest l y = l₂ := by
  have hl : l = (seen l c ++ c :: l₁) ++ y :: l₂ := by
    conv_lhs => rw [← seen_append_rest hc, h]
    simp
  have hy : y ∉ seen l c ++ c :: l₁ := by
    rw [hl] at hn
    intro hmem
    exact (nodup_append.mp hn).2.2 y hmem y (.head _) rfl
  have hsides := sides_append hy l₂
  rwa [← hl] at hsides

/-- A walk in progress: the current element, those returned so far, and those that were there
and wanted all the time. -/
structure Inv (l : List α) (cursor : Option α) (returned steady : List α) : Prop where
  nodup : l.Nodup
  returned_nodup : returned.Nodup
  steady_mem : ∀ x ∈ steady, x ∈ l
  cursor_mem : ∀ c, cursor = some c → c ∈ l ∧ c ∈ returned
  ahead : ∀ c, cursor = some c → ∀ x ∈ rest l c, x ∉ returned
  behind : ∀ c, cursor = some c → ∀ x ∈ steady, x ∈ seen l c → x ∈ returned
  done : cursor = none → ∀ x ∈ steady, x ∈ returned

variable {cursor : Option α} {returned steady steady' : List α}

lemma inv_start (hn : l.Nodup) (hs : ∀ x ∈ steady, x ∈ l ∧ p x = true) :
    Inv l (l.find? p) (l.find? p).toList steady := by
  have hmem : ∀ x ∈ steady, x ∈ l := fun x hx => (hs x hx).1
  cases hf : l.find? p with
  | none =>
    refine ⟨hn, nodup_nil, hmem, nofun, nofun, nofun, fun _ x hx => ?_⟩
    have hno := find?_eq_none.mp hf x (hs x hx).1
    simp [(hs x hx).2] at hno
  | some c =>
    obtain ⟨-, l₁, l₂, rfl, hbefore⟩ := find?_eq_some_iff_append.mp hf
    have hc : c ∈ l₁ ++ c :: l₂ := mem_append_right _ (.head _)
    refine ⟨hn, nodup_singleton _, hmem, ?_, ?_, ?_, nofun⟩
    · rintro _ ⟨⟩
      exact ⟨hc, .head _⟩
    · rintro _ ⟨⟩ x hx hret
      exact ne_of_mem_rest hn hc hx (mem_singleton.mp hret)
    rintro _ ⟨⟩ x hx hseen
    exfalso
    have hmem₁ : x ∈ l₁ := by
      have hnot : c ∉ l₁ := fun h => (nodup_append.mp hn).2.2 c h c (.head _) rfl
      rwa [(sides_append hnot _).1] at hseen
    have hno := hbefore x hmem₁
    simp [(hs x hx).2] at hno

lemma Inv.next (h : Inv l (some c) returned steady) (hs : ∀ x ∈ steady, p x = true) :
    Inv l ((rest l c).find? p) (returned ++ ((rest l c).find? p).toList) steady := by
  obtain ⟨hc, hret⟩ := h.cursor_mem c rfl
  cases hf : (rest l c).find? p with
  | none =>
    rw [Option.toList_none, append_nil]
    refine ⟨h.nodup, h.returned_nodup, h.steady_mem, nofun, nofun, nofun, fun _ x hx => ?_⟩
    rcases mem_cases hc (h.steady_mem x hx) with hx' | rfl | hx'
    · exact h.behind c rfl x hx hx'
    · exact hret
    · have hno := find?_eq_none.mp hf x hx'
      simp [hs x hx] at hno
  | some y =>
    obtain ⟨-, l₁, l₂, heq, hbefore⟩ := find?_eq_some_iff_append.mp hf
    have hy : y ∈ rest l c := mem_of_find?_eq_some hf
    have hyl := mem_of_mem_rest hc hy
    obtain ⟨hseen, hrest⟩ := sides_of_rest h.nodup hc heq
    refine ⟨h.nodup, ?_, h.steady_mem, ?_, ?_, ?_, nofun⟩
    · refine nodup_append.mpr ⟨h.returned_nodup, nodup_singleton _, ?_⟩
      rintro a ha b hb rfl
      exact h.ahead c rfl y hy (mem_singleton.mp hb ▸ ha)
    · rintro _ ⟨⟩
      exact ⟨hyl, mem_append_right _ (.head _)⟩
    · rintro _ ⟨⟩ x hx hmem
      have hxr : x ∈ rest l c := by
        rw [heq]
        exact mem_append_right _ (.tail _ (hrest ▸ hx))
      rcases mem_append.mp hmem with hmem | hmem
      · exact h.ahead c rfl x hxr hmem
      · exact ne_of_mem_rest h.nodup hyl hx (mem_singleton.mp hmem)
    rintro _ ⟨⟩ x hx hxs
    refine mem_append_left _ ?_
    rw [hseen] at hxs
    rcases mem_append.mp hxs with hxs | hxs
    · exact h.behind c rfl x hx hxs
    rcases mem_cons.mp hxs with rfl | hxs
    · exact hret
    · have hno := hbefore x hxs
      simp [hs x hx] at hno

lemma Inv.grow (h : Inv l cursor returned steady) (hl : l.Sublist l') (hn : l'.Nodup)
    (hnew : ∀ x ∈ l', x ∉ l → x ∉ returned) (hs : ∀ x ∈ steady', x ∈ steady) :
    Inv l' cursor returned steady' := by
  refine ⟨hn, h.returned_nodup, fun x hx => hl.subset (h.steady_mem x (hs x hx)), ?_, ?_, ?_,
    fun hc x hx => h.done hc x (hs x hx)⟩
  · intro c hc
    exact ⟨hl.subset (h.cursor_mem c hc).1, (h.cursor_mem c hc).2⟩
  · intro c hc x hx
    have hcl := (h.cursor_mem c hc).1
    have hcl' := hl.subset hcl
    by_cases hxl : x ∈ l
    · rcases mem_cases hcl hxl with hxs | rfl | hxr
      · exact absurd hx (not_mem_rest_of_mem_seen hn hcl' ((sublist_sides hl hn hcl).1.subset hxs))
      · exact absurd rfl (ne_of_mem_rest hn hcl' hx)
      · exact h.ahead c hc x hxr
    · exact hnew x (mem_of_mem_rest hcl' hx) hxl
  · intro c hc x hx hxs
    have hcl := (h.cursor_mem c hc).1
    have hcl' := hl.subset hcl
    rcases mem_cases hcl (h.steady_mem x (hs x hx)) with hxs' | rfl | hxr
    · exact h.behind c hc x (hs x hx) hxs'
    · exact (h.cursor_mem x hc).2
    · exact absurd ((sublist_sides hl hn hcl).2.subset hxr) (not_mem_rest_of_mem_seen hn hcl' hxs)

lemma Inv.shrink (h : Inv l cursor returned steady) (hl : l'.Sublist l)
    (hc : ∀ c, cursor = some c → c ∈ l') (hs : ∀ x ∈ steady', x ∈ steady ∧ x ∈ l') :
    Inv l' cursor returned steady' := by
  refine ⟨h.nodup.sublist hl, h.returned_nodup, fun x hx => (hs x hx).2, ?_, ?_, ?_,
    fun hc x hx => h.done hc x (hs x hx).1⟩
  · intro c hcur
    exact ⟨hc c hcur, (h.cursor_mem c hcur).2⟩
  · intro c hcur x hx
    exact h.ahead c hcur x ((sublist_sides hl h.nodup (hc c hcur)).2.subset hx)
  · intro c hcur x hx hxs
    exact h.behind c hcur x (hs x hx).1 ((sublist_sides hl h.nodup (hc c hcur)).1.subset hxs)

lemma length_rest_lt (hn : l.Nodup) (hc : c ∈ l) (hf : (rest l c).find? p = some y) :
    (rest l y).length < (rest l c).length := by
  obtain ⟨-, l₁, l₂, heq, -⟩ := find?_eq_some_iff_append.mp hf
  rw [(sides_of_rest hn hc heq).2, heq]
  simp only [length_append, length_cons]
  omega

omit [DecidableEq α] in
lemma filter_of_find? (hf : l.find? p = some y) :
    ∃ l₁ l₂, l = l₁ ++ y :: l₂ ∧ l.filter p = y :: l₂.filter p := by
  obtain ⟨hy, l₁, l₂, rfl, hnot⟩ := find?_eq_some_iff_append.mp hf
  refine ⟨l₁, l₂, rfl, ?_⟩
  have hnil : l₁.filter p = [] := filter_eq_nil_iff.mpr fun x hx => by
    simpa using hnot x hx
  rw [filter_append, hnil, nil_append, filter_cons_of_pos hy]

end Walk
