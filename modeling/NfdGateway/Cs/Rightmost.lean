import NfdGateway.Cs.Leftmost

/-! A lookup with rightmost child selection walks back from the end of the range, one child of the
Interest name at a time, and takes the leftmost entry under the last child that has one. -/
namespace NfdGateway.Cs

open PrefixOrder List Option

variable {C X S P : Type} {data : Data C X}

section Positions

variable {table : List (Entry C X)} {p : Entry C X → Bool} {first last i j : ℕ} {e : Entry C X}

lemma findLastIf_spec (hle : first ≤ last) (hlast : last ≤ table.length) :
    ∃ k, findLastIf p table first last = some k ∧ first ≤ k ∧ k ≤ last ∧
      (k < last → ∃ e, table[k]? = some e ∧ p e = true) ∧
      ∀ j e, first ≤ j → (k < j ∨ k = last) → j < last → table[j]? = some e → p e = false := by
  have hlen : ((table.take last).drop first).length = last - first := by
    rw [length_drop, length_take]
    omega
  have hget : ∀ j, j < last - first →
      ((table.take last).drop first).reverse[j]? = table[last - 1 - j]? := by
    intro j hj
    rw [getElem?_reverse (by omega), hlen, getElem?_drop, getElem?_take_of_lt (by omega)]
    congr 1
    omega
  unfold findLastIf
  rw [if_pos hle]
  cases hf : ((table.take last).drop first).reverse.findIdx? p with
  | none =>
    refine ⟨last, rfl, hle, Nat.le_refl _, fun h => absurd h (Nat.lt_irrefl _), ?_⟩
    intro j e hj _ hlt he
    have hmem : e ∈ ((table.take last).drop first).reverse := by
      refine mem_of_getElem? (i := last - 1 - j) ?_
      rw [hget _ (by omega), show last - 1 - (last - 1 - j) = j by omega, he]
    have hnot := findIdx?_eq_none_iff.mp hf e hmem
    simpa using hnot
  | some k =>
    obtain ⟨hk, hpk, hbefore⟩ := findIdx?_eq_some_iff_getElem.mp hf
    have hk' : k < last - first := by simpa [hlen] using hk
    refine ⟨last - 1 - k, rfl, by omega, by omega, fun _ => ⟨_, ?_, hpk⟩, ?_⟩
    · rw [← hget k hk', getElem?_eq_getElem hk]
    intro j e hj hor hlt he
    rw [show j = last - 1 - (last - 1 - j) by omega, ← hget _ (by omega)] at he
    have hnot := hbefore (last - 1 - j) (by omega)
    rw [(List.getElem?_eq_some_iff.mp he).2] at hnot
    simpa using hnot

lemma child_of_isPrefix {name : Name C} (hpre : name <+: data.name)
    (hlt : name.length < data.name.length) :
    ∃ c ∈ data.name, data.name.take (name.length + 1) = name ++ [c] ∧
      name ++ [c] <+: data.name := by
  obtain ⟨rest, hrest⟩ := hpre
  cases rest with
  | nil => simp [← hrest] at hlt
  | cons c rest =>
    refine ⟨c, by simp [← hrest], ?_, rest, by simp [← hrest]⟩
    rw [← hrest, take_append, take_of_length_le (Nat.le_succ _)]
    simp

lemma take_of_digest {init : Name C} {a : C} (he : e.data.name = init) :
    e.data.name.length ≠ (init ++ [a]).length ∧
      e.data.name.take ((init ++ [a]).length + 1) = e.data.name := by
  rw [he, length_append, length_singleton]
  exact ⟨by omega, take_of_length_le (by omega)⟩

end Positions

variable [LinearOrder C] {K : Components C} {table : List (Entry C X)} {e e' : Entry C X}
  {name init : Name C} {a : C} {i j : ℕ}

lemma IsTable.name_le (h : IsTable K table) (he : table[i]? = some e)
    (he' : table[j]? = some e') (hij : i ≤ j) : e.data.name ≤ e'.data.name := by
  refine not_lt.mp fun hlt => ?_
  have hfull := (h.storable e' (mem_of_getElem? he')).getFullName_lt
    (h.storable e (mem_of_getElem? he)) hlt
  exact not_lt.mpr (h.getFullName_le he he' hij) hfull

/-! ### The choice -/

/-- What rightmost child selection prefers, for a name of `n` components: an entry below the name
under the greatest child, the leftmost there; without any, the greatest entry of the name. -/
def Preferred (n : ℕ) (e e' : Entry C X) : Prop :=
  if n < e.data.name.length then
    n < e'.data.name.length → e'.data.name.take (n + 1) < e.data.name.take (n + 1) ∨
      e'.data.name.take (n + 1) = e.data.name.take (n + 1) ∧
        e.data.getFullName ≤ e'.data.getFullName
  else e'.data.name.length ≤ n ∧ e'.data.getFullName ≤ e.data.getFullName

def IsRightmost (p : Entry C X → Bool) (n : ℕ) (table : List (Entry C X)) :
    Option (Entry C X) → Prop
  | none => ∀ e ∈ table, p e = false
  | some e => e ∈ table ∧ p e = true ∧ ∀ e' ∈ table, p e' = true → Preferred n e e'

def rightmostIterators (K : Components C) (canSatisfy : Entry C X → Bool)
    (table : List (Entry C X)) (interestNameLength first : ℕ) : (fuel right : ℕ) → List ℕ
  | 0, _ => []
  | fuel + 1, right =>
    if right = first then [right]
    else if right = 0 then [right]
    else
      match table[right - 1]? with
      | none => [right]
      | some prev =>
        if prev.data.name.length = interestNameLength then [right, right - 1]
        else
          let left := lowerBound K table (.query (prev.data.name.take (interestNameLength + 1)))
          right :: (right - 1) :: left ::
            match findIf canSatisfy table left right with
            | none => []
            | some found =>
              if found ≠ right then [found]
              else rightmostIterators K canSatisfy table interestNameLength first fuel left

def ChosenIn (p : Entry C X → Bool) (n : ℕ) (table : List (Entry C X))
    (first right last k : ℕ) : Prop :=
  (k = last ∧ ∀ j e, first ≤ j → j < right → table[j]? = some e → p e = false) ∨
  (first ≤ k ∧ k < right ∧ ∃ e, table[k]? = some e ∧ p e = true ∧
    ∀ j e', first ≤ j → j < right → table[j]? = some e' → p e' = true → Preferred n e e')

variable {p : Entry C X → Bool} {first last right k n left : ℕ}

lemma ChosenIn.extend (h : ChosenIn p n table first left last k) (hle : left ≤ right)
    (hnone : ∀ j e, left ≤ j → j < right → table[j]? = some e → p e = false) :
    ChosenIn p n table first right last k := by
  rcases h with ⟨rfl, hall⟩ | ⟨hk, hkl, e, he, hp, hall⟩
  · refine .inl ⟨rfl, fun j e hj hjr he => ?_⟩
    rcases Nat.lt_or_ge j left with hjl | hjl
    · exact hall j e hj hjl he
    · exact hnone j e hjl hjr he
  · refine .inr ⟨hk, by omega, e, he, hp, fun j e' hj hjr he' hp' => ?_⟩
    rcases Nat.lt_or_ge j left with hjl | hjl
    · exact hall j e' hj hjl he' hp'
    · simp [hnone j e' hjl hjr he'] at hp'

/-! ### A turn of the loop -/

lemma isPrefix_name_of_generic (h : data.IsStorable K)
    (hname : name.getLast?.any K.isImplicitSha256Digest = false)
    (hpre : name <+: data.getFullName) : name <+: data.name := by
  rcases prefix_concat_iff.mp hpre with rfl | hpre
  · simp [h.digest] at hname
  · exact hpre

lemma IsTable.chosen_exact (h : IsTable K table) (hle : first < right)
    (hlen : right ≤ table.length) (hnames : ∀ j e, first ≤ j → j < right → table[j]? = some e →
      name <+: e.data.name) (hprev : table[right - 1]? = some e)
    (he : e.data.name.length = name.length) (last : ℕ) :
    ∃ k, ((findLastIf p table first right).map fun m => if m = right then last else m) = some k ∧
      ChosenIn p name.length table first right last k := by
  have hexact : ∀ j e', first ≤ j → j < right → table[j]? = some e' →
      e'.data.name.length ≤ name.length := by
    intro j e' hj hjr he'
    have heq := (hnames _ e (by omega) (by omega) hprev).eq_of_length he.symm
    have hle' := h.name_le he' hprev (by omega)
    rw [← heq] at hle'
    have hpre := hnames j e' hj hjr he'
    obtain ⟨rest, hrest⟩ := hpre
    cases rest with
    | nil => simp [← hrest]
    | cons c rest =>
      rw [← hrest] at hle'
      have hlt := lt_append (lt_append_singleton name c) rest
      rw [append_assoc] at hlt
      exact absurd hlt (not_lt.mpr hle')
  obtain ⟨m, hm, hmf, hmr, hsat, hafter⟩ := findLastIf_spec hle.le hlen
  rw [hm, map_some]
  refine ⟨_, rfl, ?_⟩
  rcases Nat.eq_or_lt_of_le hmr with rfl | hlt
  · rw [if_pos rfl]
    exact .inl ⟨rfl, fun j e' hj hjr => hafter j e' hj (.inr rfl) hjr⟩
  rw [if_neg hlt.ne]
  obtain ⟨e₁, he₁, hp₁⟩ := hsat hlt
  refine .inr ⟨hmf, hlt, e₁, he₁, hp₁, fun j e' hj hjr he' hp' => ?_⟩
  rw [Preferred, if_neg (Nat.not_lt.mpr (hexact m e₁ hmf hlt he₁))]
  refine ⟨hexact j e' hj hjr he', h.getFullName_le he' he₁ (Nat.not_lt.mp fun hmj => ?_)⟩
  simp [hafter j e' hj (.inl hmj) hjr he'] at hp'

lemma IsTable.child_range (h : IsTable K table)
    (hname : name.getLast?.any K.isImplicitSha256Digest = false)
    (hprev : table[right - 1]? = some e) (hpre : name <+: e.data.name)
    (hlt : name.length < e.data.name.length) :
    lowerBound K table (.query name) ≤
      lowerBound K table (.query (e.data.name.take (name.length + 1))) ∧
    lowerBound K table (.query (e.data.name.take (name.length + 1))) ≤ right - 1 ∧
    (∀ j e', lowerBound K table (.query (e.data.name.take (name.length + 1))) ≤ j → j ≤ right - 1 →
      table[j]? = some e' → name.length < e'.data.name.length ∧
        e'.data.name.take (name.length + 1) = e.data.name.take (name.length + 1)) ∧
    ∀ j e', j < lowerBound K table (.query (e.data.name.take (name.length + 1))) →
      table[j]? = some e' → name <+: e'.data.name → name.length < e'.data.name.length →
        e'.data.name.take (name.length + 1) < e.data.name.take (name.length + 1) := by
  obtain ⟨c, hc, htake, hchild⟩ := child_of_isPrefix hpre hlt
  have hdigest : (name ++ [c]).getLast?.any K.isImplicitSha256Digest = false := by
    simpa using (h.storable e (mem_of_getElem? hprev)).name c hc
  have hrange := mem_range_of_isPrefix (K := K) hchild
  rw [htake]
  refine ⟨lowerBound_mono fun e' _ hless => ?_, Nat.not_lt.mp fun hless => ?_, ?_, ?_⟩
  · rw [less_query_generic_iff hname] at hless
    rw [less_query_generic_iff hdigest]
    exact lt_append hless [c]
  · rw [h.lt_lowerBound_iff hprev, less_query_generic_iff hdigest] at hless
    exact not_lt.mpr hrange.1 hless
  · intro j e' hj hjr he'
    have hge : ¬ e'.data.name < name ++ [c] := by
      rw [← less_query_generic_iff hdigest, ← h.lt_lowerBound_iff he']
      exact Nat.not_lt.mpr hj
    have hpre' : name ++ [c] <+: e'.data.name :=
      isPrefix_of_lt_getSuccessor (not_lt.mp hge) ((h.name_le he' hprev hjr).trans_lt hrange.2)
    have hlen := hpre'.length_le
    rw [length_append, length_singleton] at hlen
    refine ⟨hlen, ?_⟩
    rw [prefix_iff_eq_take.mp hpre', length_append, length_singleton]
  · intro j e' hj he' hpre' hlt'
    obtain ⟨c', -, htake', hchild'⟩ := child_of_isPrefix hpre' hlt'
    rw [h.lt_lowerBound_iff he', less_query_generic_iff hdigest] at hj
    rw [htake']
    exact (mem_range_of_isPrefix (K := K) hchild').1.trans_lt hj

lemma IsTable.chosen_child {found : ℕ} {e₁ : Entry C X} (h : IsTable K table)
    (hleft : first ≤ left) (hfound : left ≤ found) (hright : found < right)
    (hunder : ∀ j e', left ≤ j → j < right → table[j]? = some e' →
      n < e'.data.name.length ∧ e'.data.name.take (n + 1) = e.data.name.take (n + 1))
    (hbefore : ∀ j e', first ≤ j → j < left → table[j]? = some e' → n < e'.data.name.length →
      e'.data.name.take (n + 1) < e.data.name.take (n + 1))
    (he₁ : table[found]? = some e₁) (hp : p e₁ = true)
    (hskip : ∀ j e', left ≤ j → j < found → table[j]? = some e' → p e' = false) (last : ℕ) :
    ChosenIn p n table first right last found := by
  obtain ⟨hlen, htake⟩ := hunder found e₁ hfound hright he₁
  refine .inr ⟨by omega, hright, e₁, he₁, hp, fun j e' hj hjr he' hp' => ?_⟩
  rw [Preferred, if_pos hlen, htake]
  intro hlen'
  rcases Nat.lt_or_ge j left with hjl | hjl
  · exact .inl (hbefore j e' hj hjl he' hlen')
  refine .inr ⟨(hunder j e' hjl hjr he').2, h.getFullName_le he₁ he' ?_⟩
  refine Nat.not_lt.mp fun hjf => ?_
  simp [hskip j e' hjl hjf he'] at hp'

/-! ### The loop -/

def LoopOk (K : Components C) (p : Entry C X → Bool) (table : List (Entry C X))
    (n first last fuel right : ℕ) : Prop :=
  (∃ k, findRightmostLoop K p table n first last fuel right = some k ∧
    ChosenIn p n table first right last k) ∧
  ∀ i ∈ rightmostIterators K p table n first fuel right, first ≤ i ∧ i ≤ last

lemma loopOk_end (h : first ≤ last) (fuel : ℕ) :
    LoopOk K p table n first last (fuel + 1) first := by
  unfold LoopOk findRightmostLoop rightmostIterators
  rw [if_pos rfl, if_pos rfl]
  refine ⟨⟨last, rfl, .inl ⟨rfl, fun j e hj hjr => by omega⟩⟩, ?_⟩
  intro i hi
  rw [mem_singleton.mp hi]
  exact ⟨Nat.le_refl _, h⟩

lemma loopOk_child {prev : Entry C X} {fuel : ℕ} (hfirst : first ≤ left)
    (hleft : left ≤ right - 1) (hright : first < right) (hlast : right ≤ last)
    (hlength : last ≤ table.length) (hprev : table[right - 1]? = some prev)
    (hne : prev.data.name.length ≠ n)
    (hlower : lowerBound K table (.query (prev.data.name.take (n + 1))) = left)
    (hchosen : ∀ found e, left ≤ found → found < right → table[found]? = some e → p e = true →
      (∀ j e', left ≤ j → j < found → table[j]? = some e' → p e' = false) →
      ChosenIn p n table first right last found)
    (hrest : LoopOk K p table n first last fuel left) :
    LoopOk K p table n first last (fuel + 1) right := by
  have hend : right ≠ first := by omega
  have hpos : right ≠ 0 := by omega
  obtain ⟨found, hfound, hfl, hfr, hsat, hskip⟩ :=
    findIf_spec (p := p) (show left ≤ right by omega) (hlast.trans hlength)
  unfold LoopOk findRightmostLoop rightmostIterators
  rw [if_neg hend, if_neg hend, if_neg hpos, if_neg hpos, hprev]
  simp only [if_neg hne, hlower, hfound]
  by_cases hmiss : found = right
  · simp only [hmiss, ne_eq, not_true, if_false]
    obtain ⟨⟨k, hk, hchoice⟩, hiter⟩ := hrest
    refine ⟨⟨k, hk, hchoice.extend (by omega) fun j e hj hjr => ?_⟩, ?_⟩
    · exact hskip j e hj (by omega)
    intro i hi
    simp only [mem_cons] at hi
    rcases hi with rfl | rfl | rfl | hi
    · omega
    · omega
    · omega
    · exact hiter i hi
  · simp only [if_pos hmiss]
    obtain ⟨e, he, hp⟩ := hsat (by omega)
    refine ⟨⟨found, rfl, hchosen found e hfl (by omega) he hp hskip⟩, ?_⟩
    intro i hi
    simp only [mem_cons, not_mem_nil, or_false] at hi
    omega

lemma IsTable.loop_generic (h : IsTable K table)
    (hname : name.getLast?.any K.isImplicitSha256Digest = false) (fuel : ℕ)
    (hfirst : lowerBound K table (.query name) ≤ right) (hlast : right ≤ rangeEnd K table name)
    (hfuel : right - lowerBound K table (.query name) < fuel) :
    LoopOk K p table name.length (lowerBound K table (.query name)) (rangeEnd K table name) fuel
      right := by
  have hlength := rangeEnd_le_length K table name
  have hnames : ∀ j e, lowerBound K table (.query name) ≤ j → j < rangeEnd K table name →
      table[j]? = some e → name <+: e.data.name := by
    intro j e hj hjr he
    exact isPrefix_name_of_generic (h.storable e (mem_of_getElem? he)) hname
      ((h.mem_range_iff he).mp ⟨hj, hjr⟩)
  generalize hf : lowerBound K table (.query name) = first at *
  generalize hl : rangeEnd K table name = last at *
  induction fuel generalizing right with
  | zero => omega
  | succ fuel ih =>
    by_cases hend : right = first
    · subst hend
      exact loopOk_end hlast fuel
    obtain ⟨prev, hprev⟩ : ∃ prev, table[right - 1]? = some prev :=
      ⟨_, getElem?_eq_getElem (by omega)⟩
    have hpre := hnames _ prev (by omega) (by omega) hprev
    by_cases hexact : prev.data.name.length = name.length
    · have hpos : right ≠ 0 := by omega
      unfold LoopOk findRightmostLoop rightmostIterators
      rw [if_neg hend, if_neg hend, if_neg hpos, if_neg hpos, hprev]
      simp only [if_pos hexact]
      refine ⟨h.chosen_exact (by omega) (by omega)
        (fun j e hj hjr => hnames j e hj (by omega)) hprev hexact last, ?_⟩
      intro i hi
      simp only [mem_cons, not_mem_nil, or_false] at hi
      omega
    · obtain ⟨hge, hle, hunder, hbefore⟩ := h.child_range hname hprev hpre
        (lt_of_le_of_ne hpre.length_le (Ne.symm hexact))
      rw [hf] at hge
      refine loopOk_child hge hle (by omega) hlast hlength hprev hexact rfl ?_
        (ih hge (by omega) (by omega))
      intro found e hfl hfr he hp hskip
      exact h.chosen_child hge hfl hfr (fun j e' hj hjr => hunder j e' hj (by omega))
        (fun j e' hj hjl he' hlt => hbefore j e' hjl he' (hnames j e' hj (by omega) he') hlt)
        he hp hskip last

/-! ### Full names -/

def LeastDigest (table : List (Entry C X)) (name : Name C) : Prop :=
  ∀ e ∈ table, e.data.getFullName = name →
    ∀ e' ∈ table, e'.data.name = e.data.name → e.data.digest ≤ e'.data.digest

lemma getFullName_of_digest (h : data.IsStorable K)
    (ha : K.isImplicitSha256Digest a = true) (hpre : init ++ [a] <+: data.getFullName) :
    data.name = init ∧ data.digest = a := by
  rcases prefix_concat_iff.mp hpre with heq | hpre
  · obtain ⟨hinit, hlast⟩ := append_inj' heq rfl
    exact ⟨hinit.symm, (singleton_inj.mp hlast).symm⟩
  · have hfalse := h.name a (hpre.subset (by simp))
    simp [ha] at hfalse

section

variable (h : IsTable K table)
include h

lemma IsTable.range_digest (ha : K.isImplicitSha256Digest a = true)
    (hlt : lowerBound K table (.query (init ++ [a])) < rangeEnd K table (init ++ [a])) :
    ∃ e, table[lowerBound K table (.query (init ++ [a]))]? = some e ∧
      e.data.name = init ∧ e.data.digest = a ∧
      rangeEnd K table (init ++ [a]) = lowerBound K table (.query (init ++ [a])) + 1 := by
  have hlength := rangeEnd_le_length K table (init ++ [a])
  have hentry : ∀ i, lowerBound K table (.query (init ++ [a])) ≤ i →
      i < rangeEnd K table (init ++ [a]) →
      ∃ e, table[i]? = some e ∧ e.data.name = init ∧ e.data.digest = a := by
    intro i hi hir
    have he : table[i]? = some _ := getElem?_eq_getElem (by omega)
    exact ⟨_, he, getFullName_of_digest (h.storable _ (mem_of_getElem? he)) ha
      ((h.mem_range_iff he).mp ⟨hi, hir⟩)⟩
  obtain ⟨e, he, hn, hd⟩ := hentry _ (Nat.le_refl _) hlt
  refine ⟨e, he, hn, hd, ?_⟩
  -- two entries of the range would have the same full name
  refine Nat.le_antisymm (Nat.not_lt.mp fun hmore => ?_) hlt
  obtain ⟨e', he', hn', hd'⟩ := hentry _ (Nat.le_succ _) hmore
  have hfull := h.getFullName_lt he he' (Nat.lt_succ_self _)
  rw [Data.getFullName, Data.getFullName, hn, hd, hn', hd'] at hfull
  exact lt_irrefl _ hfull

lemma IsTable.left_digest (he : table[i]? = some e) :
    lowerBound K table (.query e.data.name) ≤ i ∧
    (lowerBound K table (.query e.data.name) < i ↔
      ∃ e' ∈ table, e'.data.name = e.data.name ∧ e'.data.digest < e.data.digest) := by
  have hgeneric : e.data.name.getLast?.any K.isImplicitSha256Digest = false := by
    have hstorable := h.storable e (mem_of_getElem? he)
    rcases e.data.name.eq_nil_or_concat' with hnil | ⟨init, a, hname⟩
    · rw [hnil]
      rfl
    · rw [hname]
      simpa using hstorable.name a (by simp [hname])
  have hle : lowerBound K table (.query e.data.name) ≤ i := by
    refine Nat.not_lt.mp fun hlt => ?_
    rw [h.lt_lowerBound_iff he, less_query_generic_iff hgeneric] at hlt
    exact lt_irrefl _ hlt
  refine ⟨hle, ?_, ?_⟩
  · intro hlt
    have hlength : i < table.length := (List.getElem?_eq_some_iff.mp he).1
    have he' : table[lowerBound K table (.query e.data.name)]? = some _ :=
      getElem?_eq_getElem (by omega)
    have hge := mt (h.lt_lowerBound_iff he').mpr (Nat.lt_irrefl _)
    rw [less_query_generic_iff hgeneric] at hge
    have hname := le_antisymm (h.name_le he' he hle) (not_lt.mp hge)
    refine ⟨_, mem_of_getElem? he', hname, ?_⟩
    have hfull := h.getFullName_lt he' he hlt
    rwa [Data.getFullName, Data.getFullName, hname, append_singleton_lt_iff] at hfull
  · rintro ⟨e', hmem, hname, hdigest⟩
    obtain ⟨j, he'⟩ := getElem?_of_mem hmem
    have hfull : e'.data.getFullName < e.data.getFullName := by
      rwa [Data.getFullName, Data.getFullName, hname, append_singleton_lt_iff]
    have hji : j < i := Nat.not_le.mp fun hij =>
      not_lt.mpr (h.getFullName_le he he' hij) hfull
    have hge : ¬ j < lowerBound K table (.query e.data.name) := by
      rw [h.lt_lowerBound_iff he', less_query_generic_iff hgeneric, hname]
      exact lt_irrefl _
    omega

lemma IsTable.loop_digest (ha : K.isImplicitSha256Digest a = true)
    (hleast : LeastDigest table (init ++ [a])) {fuel : ℕ} (hfuel : table.length < fuel) :
    LoopOk K p table (init ++ [a]).length (lowerBound K table (.query (init ++ [a])))
      (rangeEnd K table (init ++ [a])) fuel (rangeEnd K table (init ++ [a])) := by
  obtain ⟨fuel, rfl⟩ : ∃ f, fuel = f + 1 := ⟨fuel - 1, by omega⟩
  have hle := lowerBound_le_rangeEnd K table (init ++ [a])
  have hlength := rangeEnd_le_length K table (init ++ [a])
  rcases Nat.eq_or_lt_of_le hle with heq | hlt
  · rw [← heq]
    exact loopOk_end (Nat.le_refl _) fuel
  obtain ⟨e, he, hn, hd, hend⟩ := h.range_digest ha hlt
  obtain ⟨hlen, htake⟩ := take_of_digest (a := a) hn
  obtain ⟨hleft, hleft_lt⟩ := h.left_digest he
  have hfull : e.data.getFullName = init ++ [a] := by rw [Data.getFullName, hn, hd]
  have hnot : ¬ lowerBound K table (.query e.data.name) <
      lowerBound K table (.query (init ++ [a])) := by
    rw [hleft_lt]
    rintro ⟨e', hmem, hname, hdigest⟩
    exact not_lt.mpr (hleast e (mem_of_getElem? he) hfull e' hmem hname) hdigest
  have hsame : lowerBound K table (.query e.data.name) =
      lowerBound K table (.query (init ++ [a])) := by omega
  rw [hend] at hlength ⊢
  generalize lowerBound K table (.query (init ++ [a])) = first at *
  obtain ⟨fuel, rfl⟩ : ∃ f, fuel = f + 1 := ⟨fuel - 1, by omega⟩
  refine loopOk_child (Nat.le_refl first) (Nat.le_refl first) (Nat.lt_succ_self first)
    (Nat.le_refl _) hlength he hlen (by rw [htake, hsame]) ?_
    (loopOk_end (Nat.le_succ first) fuel)
  -- the one entry of the range is the only candidate
  intro found e₁ hfl hfr he₁ hp₁ _
  obtain rfl : found = first := by omega
  obtain rfl : e = e₁ := some.inj (he.symm.trans he₁)
  refine .inr ⟨hfl, hfr, e, he, hp₁, fun j e' hj hjr he' _ => ?_⟩
  obtain rfl : j = found := by omega
  obtain rfl : e = e' := some.inj (he.symm.trans he')
  rw [Preferred, if_neg (by rw [hn]; simp)]
  exact ⟨by rw [hn]; simp, le_rfl⟩

lemma IsTable.loop_leaves (hleast : ¬ LeastDigest table name) (fuel : ℕ) :
    ∃ i ∈ rightmostIterators K p table name.length (lowerBound K table (.query name)) (fuel + 1)
      (rangeEnd K table name), i < lowerBound K table (.query name) := by
  unfold LeastDigest at hleast
  push Not at hleast
  obtain ⟨e, hmem, hfull, e', hmem', hname, hdigest⟩ := hleast
  have hstorable := h.storable e hmem
  have ha := hstorable.digest
  obtain ⟨i, he⟩ := getElem?_of_mem hmem
  have hpre : name <+: e.data.getFullName := hfull ▸ prefix_rfl
  obtain ⟨hi, hir⟩ := (h.mem_range_iff he).mpr hpre
  rw [← hfull, Data.getFullName] at hi hir ⊢
  obtain ⟨e₁, he₁, hn₁, hd₁, hend⟩ := h.range_digest ha (hi.trans_lt hir)
  obtain rfl : i = lowerBound K table (.query (e.data.name ++ [e.data.digest])) := by omega
  obtain ⟨hlen, htake⟩ := take_of_digest (a := e.data.digest) (rfl : e.data.name = _)
  have hleft := (h.left_digest he).2.mpr ⟨e', hmem', hname, hdigest⟩
  refine ⟨lowerBound K table (.query e.data.name), ?_, hleft⟩
  rw [hend]
  unfold rightmostIterators
  rw [if_neg (by omega), if_neg (by omega), Nat.add_sub_cancel, he]
  simp only [if_neg hlen, htake]
  exact .tail _ (.tail _ (.head _))

end

/-! ### The lookup -/

variable {matchesData : Interest C S → Data C X → Bool} {interest : Interest C S}

lemma IsTable.loop_range (h : IsTable K table) (hleast : LeastDigest table name) :
    LoopOk K p table name.length (lowerBound K table (.query name)) (rangeEnd K table name)
      (table.length + 1) (rangeEnd K table name) := by
  have hlength := rangeEnd_le_length K table name
  cases hlast : name.getLast?.any K.isImplicitSha256Digest with
  | false =>
    exact h.loop_generic hlast _ (lowerBound_le_rangeEnd ..) (Nat.le_refl _) (by omega)
  | true =>
    rcases name.eq_nil_or_concat' with rfl | ⟨init, a, rfl⟩
    · simp at hlast
    · exact h.loop_digest (by simpa using hlast) hleast (Nat.lt_succ_self _)

lemma IsTable.search_rightmost (h : IsTable K table)
    (hmatches : ∀ i d, matchesData i d = true → i.name <+: d.getFullName)
    (hright : interest.childSelector = 1) (hleast : LeastDigest table interest.name)
    (now : EntryId → Time) :
    ∃ found, search K matchesData table interest now = some found ∧
      IsRightmost (fun e => e.canSatisfy matchesData interest (now e.id)) interest.name.length
        table found := by
  obtain ⟨⟨k, hk, hchosen⟩, -⟩ := h.loop_range
    (p := fun e => e.canSatisfy matchesData interest (now e.id)) hleast
  have hsearch : search K matchesData table interest now =
      if k = rangeEnd K table interest.name then some none else table[k]?.map some := by
    simp only [search, if_pos hright]
    exact congrArg (Option.bind · _) hk
  rcases h.search_of_position hmatches hsearch hchosen with
    ⟨hnone, hall⟩ | ⟨e, hmem, hsome, hcan, hall⟩
  · exact ⟨none, hnone, hall⟩
  · exact ⟨some e, hsome, hmem, hcan, hall⟩

/-- A lookup with rightmost child selection keeps its iterators within the range, ends, and passes
the leftmost entry under the greatest child, or else the greatest entry of the name itself, or it
is a miss if no entry can satisfy the Interest: this holds if and only if the table has no Data of
the same name with a smaller digest than the one whose full name is asked for. -/
theorem find_rightmost_iff {s : Store C X P} (policy : Policy C X P)
    (hmatches : ∀ i d, matchesData i d = true → i.name <+: d.getFullName)
    (htable : IsTable K s.table) (hright : interest.childSelector = 1) (now : EntryId → Time) :
    ((∀ i ∈ rightmostIterators K (fun e => e.canSatisfy matchesData interest (now e.id)) s.table
        interest.name.length (lowerBound K s.table (.query interest.name)) (s.table.length + 1)
        (rangeEnd K s.table interest.name),
      lowerBound K s.table (.query interest.name) ≤ i ∧ i ≤ rangeEnd K s.table interest.name) ∧
    ∃ found, search K matchesData s.table interest now = some found ∧
      s.find K policy matchesData interest now =
        (match found with
        | none => some (s, none)
        | some e => (policy.doBeforeUse s e.id).map (·, some e.data)) ∧
      IsRightmost (fun e => e.canSatisfy matchesData interest (now e.id)) interest.name.length
        s.table found ∧
      ∀ e, found = some e → e.data.name.length ≤ interest.name.length →
        e.data.name = interest.name ∨ e.data.getFullName = interest.name) ↔
    LeastDigest s.table interest.name := by
  constructor
  · rintro ⟨hiter, -⟩
    by_contra hleast
    obtain ⟨i, hi, hlt⟩ := htable.loop_leaves hleast s.table.length
    exact absurd (hiter i hi).1 (Nat.not_le.mpr hlt)
  intro hleast
  obtain ⟨found, hsearch, hfound⟩ := htable.search_rightmost hmatches hright hleast now
  refine ⟨(htable.loop_range hleast).2, found, hsearch, s.find_of_search hsearch, hfound, ?_⟩
  rintro e rfl hlen
  have hpre := hmatches _ _ (matchesData_of_canSatisfy hfound.2.1)
  rcases prefix_concat_iff.mp hpre with heq | hpre
  · exact .inr heq.symm
  · exact .inl (hpre.eq_of_length_le hlen).symm

def twoDigests : List (Entry ℕ Unit) :=
  [⟨0, ⟨[200], 7, -1, false, ()⟩, false, none⟩, ⟨1, ⟨[200], 9, 0, false, ()⟩, false, some 5⟩]

lemma isTable_of_decide {table : List (Entry ℕ Unit)} (hstorable : ∀ e ∈ table,
      (∀ c ∈ e.data.name, numberComponents.isImplicitSha256Digest c = false) ∧
        numberComponents.isImplicitSha256Digest e.data.digest = true)
    (hsorted : table.Pairwise fun e e' =>
      EntryImpl.less numberComponents (.stored e.data) (.stored e'.data) = true) :
    IsTable numberComponents table :=
  ⟨fun e he => ⟨(hstorable e he).1, (hstorable e he).2⟩, hsorted⟩

/-- Asked for the full name with the greater digest, the loop goes past the first entry of the
table, although nothing can satisfy the Interest. -/
theorem find_rightmost_before_begin :
    IsTable numberComponents twoDigests ∧
    (∀ e ∈ twoDigests, e.canSatisfy matchesName ⟨[200, 9], 1, true, ()⟩ 6 = false) ∧
    search numberComponents matchesName twoDigests ⟨[200, 9], 1, true, ()⟩ (fun _ => 6) = none :=
  ⟨isTable_of_decide (by decide) (by decide), by decide, rfl⟩

def twoChildren : List (Entry ℕ Unit) :=
  [⟨0, ⟨[200], 7, -1, false, ()⟩, false, none⟩, ⟨1, ⟨[200, 300], 9, -1, false, ()⟩, false, none⟩,
    ⟨2, ⟨[200, 400], 8, -1, false, ()⟩, false, none⟩,
    ⟨3, ⟨[200, 400, 500], 6, -1, false, ()⟩, false, none⟩]

theorem find_rightmost_iff_two_children :
    ∃ e, search numberComponents matchesName twoChildren ⟨[200], 1, false, ()⟩ (fun _ => 6) =
        some (some e) ∧ e.id = 2 ∧
      IsRightmost (fun e => e.canSatisfy matchesName ⟨[200], 1, false, ()⟩ 6) 1 twoChildren
        (some e) := by
  let keepAll : Policy ℕ Unit Unit :=
    ⟨fun s _ _ => some s, fun s _ _ => some s, fun s _ => some s, fun s => some s⟩
  let s : Store ℕ Unit Unit := ⟨twoChildren, 4, 10, ()⟩
  have hfound : search numberComponents matchesName twoChildren ⟨[200], 1, false, ()⟩
      (fun _ => 6) = some (some ⟨2, ⟨[200, 400], 8, -1, false, ()⟩, false, none⟩) := rfl
  have hleast : LeastDigest twoChildren [200] := by
    unfold LeastDigest
    decide
  obtain ⟨-, found, hsearch, -, hright, -⟩ := (find_rightmost_iff (s := s) keepAll
    (fun (i : Interest ℕ Unit) d h => isPrefixOf_iff_prefix.mp h)
    (isTable_of_decide (by decide) (by decide))
    (show (⟨[200], 1, false, ()⟩ : Interest ℕ Unit).childSelector = 1 from rfl)
    fun _ => 6).mpr hleast
  refine ⟨_, hfound, rfl, ?_⟩
  rw [← some.inj (hsearch.symm.trans hfound)]
  exact hright

end NfdGateway.Cs
