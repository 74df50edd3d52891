import NfdGateway.Rib.Operations

/-! The shape of the RIB after any sequence of insertions and erasures: the tree, the route
lists, and the number of routes. -/
namespace NfdGateway.Rib

open RibState List Option Function

variable {C : Type} [LinearOrder C] {R R' : Rib C} {n x y c : Name C} {P : Option (Name C)}
  {D : List (Name C)} {route : Route} {op : Op C}

/-! A child list has no entry twice. -/

lemma childrenOf_addToParent : (R.addToParent P c).childrenOf y =
    if P = some y then R.childrenOf y ++ [c] else R.childrenOf y := by
  cases P with
  | none => rfl
  | some p =>
    by_cases hy : y = p
    · simp [addToParent, hy]
    · simp [addToParent, hy, Ne.symm hy]

lemma childrenOf_removeFromParent : (R.removeFromParent P c).childrenOf y =
    if P = some y then (R.childrenOf y).filter (· != c) else R.childrenOf y := by
  cases P with
  | none => rfl
  | some p =>
    by_cases hy : y = p
    · simp [removeFromParent, hy]
    · simp [removeFromParent, hy, Ne.symm hy]

lemma childrenOf_adopt_self (hP : P ≠ some n) : (adopt P n R c).childrenOf n =
    R.childrenOf n ++ if R.parentOf c = P then [c] else [] := by
  unfold adopt
  change (if R.parentOf c = P then _ else _ : Rib C).childrenOf n = _
  split
  · rw [childrenOf_addChild, update_self, childrenOf_removeFromParent, if_neg hP]
  · rw [append_nil]

lemma childrenOf_adopt_other (hy : y ≠ n) :
    ((adopt P n R c).childrenOf y).Sublist (R.childrenOf y) := by
  unfold adopt
  split
  · rw [childrenOf_addChild, update_of_ne hy, childrenOf_removeFromParent]
    split
    · exact filter_sublist
    · exact List.Sublist.refl _
  · exact List.Sublist.refl _

lemma childrenOf_foldl_adopt_self (hP : P ≠ some n) (hD : D.Nodup) :
    (D.foldl (adopt P n) R).childrenOf n =
      R.childrenOf n ++ D.filter (R.parentOf · = P) := by
  induction D generalizing R with
  | nil => simp
  | cons c D ih =>
    obtain ⟨hc, hD⟩ := nodup_cons.mp hD
    have hlater : D.filter ((adopt P n R c).parentOf · = P) = D.filter (R.parentOf · = P) := by
      refine filter_congr fun x hx => ?_
      have hxc : x ≠ c := fun he => hc (he ▸ hx)
      rw [adopt_moved.parent_other x fun h => hxc h.1]
    rw [foldl_cons, ih hD, childrenOf_adopt_self hP, hlater, append_assoc]
    by_cases hcP : R.parentOf c = P <;> simp [hcP]

lemma childrenOf_foldl_adopt_other (hy : y ≠ n) :
    ((D.foldl (adopt P n) R).childrenOf y).Sublist (R.childrenOf y) := by
  induction D generalizing R with
  | nil => exact List.Sublist.refl _
  | cons c D ih => exact ih.trans (childrenOf_adopt_other hy)

lemma childrenOf_foldl_moveUp (hy : y ≠ n) : (D.foldl (moveUp P n) R).childrenOf y =
    R.childrenOf y ++ if P = some y then D else [] := by
  induction D generalizing R with
  | nil => simp
  | cons c D ih =>
    have hstep : (moveUp P n R c).childrenOf y =
        R.childrenOf y ++ if P = some y then [c] else [] := by
      rw [moveUp, childrenOf_addToParent, childrenOf_removeChild, update_of_ne hy]
      split
      · rfl
      · rw [append_nil]
    rw [foldl_cons, ih, hstep, append_assoc]
    split <;> simp

def KidsOnce (R : Rib C) : Prop := ∀ x ∈ R.names, (R.childrenOf x).Nodup

lemma KidsOnce.insertEntry (hk : KidsOnce R) (h : R.TreeInv) (hn : n ∉ R.names) :
    KidsOnce (R.insertEntry n route) := by
  obtain ⟨hins, -, -⟩ := insertEntry_spec h hn route
  have hold : ∀ y ∈ R.names, y ≠ n := fun y hy he => hn (he ▸ hy)
  set R₁ := R.withEntry n route with hR₁
  set R₂ := R₁.addToParent (R.findParent n) n with hR₂
  have hkids₁ : R₁.childrenOf = update R.childrenOf n [] :=
    Function.comp_update RibEntry.children R.entries n _
  have hPn : R.findParent n ≠ some n := findParent_ne_self
  have hlink : Moved R₁ R₂ (· = n) none (R.findParent n) :=
    addToParent_moved (fun _ => Iff.rfl) (by
      have hpar₁ : R₁.parentOf = update R.parentOf n none :=
        Function.comp_update RibEntry.parent R.entries n _
      simp [hpar₁])
  have hnodup := (findDescendants_spec
    (by rw [hlink.names]; exact orderedInsert_pairwise h.sorted hn)
    (by rw [hlink.names]; exact mem_withEntry.mpr (.inl rfl))).2
  have heq : (R.insertEntry n route).childrenOf =
      ((R₂.findDescendants n).foldl (adopt (R.findParent n) n) R₂).childrenOf := by
    rw [Rib.insertEntry, ← hR₁, hR₁, findParent_withEntry]
    rfl
  intro y hy
  rw [heq]
  rcases (hins.mem_names y).mp hy with rfl | hy
  · rw [childrenOf_foldl_adopt_self hPn hnodup, hR₂, childrenOf_addToParent, if_neg hPn, hkids₁,
      update_self, nil_append]
    exact hnodup.filter _
  refine (childrenOf_foldl_adopt_other (hold y hy)).nodup ?_
  rw [hR₂, childrenOf_addToParent, hkids₁, update_of_ne (hold y hy)]
  split
  · -- the new entry was no child of its parent before
    refine nodup_append.mpr ⟨hk y hy, nodup_singleton n, fun a ha b hb => ?_⟩
    rw [mem_singleton.mp hb]
    exact hold a ((h.children y hy a).mp ha).1
  · exact hk y hy

lemma KidsOnce.eraseEntry (hk : KidsOnce R) (h : R.TreeInv) (hn : n ∈ R.names) :
    KidsOnce (R.eraseEntry n) := by
  intro y hy
  obtain ⟨hyn, hy⟩ := ((eraseEntry_spec h hn).mem_names h y).mp hy
  change ((R.childrenOf n).foldl (moveUp (R.parentOf n) n)
    (R.removeFromParent (R.parentOf n) n)).childrenOf y |>.Nodup
  rw [childrenOf_foldl_moveUp hyn, childrenOf_removeFromParent]
  split
  · -- no child of the erased entry was a child of its parent
    refine nodup_append.mpr ⟨(hk y hy).filter _, hk n hn, fun a ha b hb => ?_⟩
    rintro rfl
    have hay := ((h.children y hy a).mp (mem_filter.mp ha).1).2
    have han := ((h.children n hn a).mp hb).2
    exact hyn (some.inj (hay.symm.trans han))
  · rw [append_nil]
    exact hk y hy

lemma KidsOnce.setEntry (hk : KidsOnce R) {e : RibEntry C} (hc : e.children = R.childrenOf n)
    {m : ℕ} {t : FaceId → List (Name C)} :
    KidsOnce { R.setEntry n e with nItems := m, faceMap := t } := by
  intro y hy
  change ((R.setEntry n e).childrenOf y).Nodup
  rw [childrenOf_setEntry, hc, update_eq_self]
  exact hk y hy

lemma KidsOnce.apply (hk : KidsOnce R) (h : R.TreeInv) (op : Op C) : KidsOnce (R.apply op) := by
  cases op with
  | insert n route =>
    change KidsOnce (R.insert n route)
    by_cases hn : n ∈ R.names
    · cases hf : (R.entries n).findRoute route with
      | none =>
        rw [insert_of_newRoute hn hf]
        exact hk.setEntry (by rw [RibEntry.insertRoute_of_new hf]; rfl)
      | some existing =>
        rw [insert_of_found hn hf]
        exact hk.setEntry (e := (R.entries n).updateRoute route) rfl
    · rw [insert_of_newEntry hn]
      exact hk.insertEntry h hn
  | erase n route =>
    change KidsOnce (R.erase n route)
    by_cases hf : n ∈ R.names → (R.entries n).findRoute route = none
    · rwa [erase_of_not_found hf]
    obtain ⟨hn, hne⟩ := Classical.not_imp.mp hf
    obtain ⟨existing, hex⟩ := ne_none_iff_exists'.mp hne
    have hset : KidsOnce (R.withoutRoute n route) := hk.setEntry RibEntry.eraseRoute_children
    rw [erase_of_found hn hex]
    split
    · exact hset.eraseEntry (applied_withoutRoute h hn hex).changed.tree hn
    · exact hset

/-! The number of routes. -/

def routesAt (c : Option (List Route × ℕ)) : ℕ := c.elim 0 (·.1.length)

def total (R : Rib C) : ℕ := (R.names.map fun x => (R.entries x).getNRoutes).sum

lemma total_eq_sum (h : R.names.Nodup) {S : Finset (Name C)} (hS : ∀ x ∈ R.names, x ∈ S) :
    R.total = ∑ x ∈ S, routesAt (R.content x) := by
  have hsub : R.names.toFinset ⊆ S := fun x hx => hS x (List.mem_toFinset.mp hx)
  rw [← Finset.sum_subset hsub fun x _ hx => ?_, sum_toFinset _ h, total]
  · refine congrArg List.sum (map_congr_left fun x hx => ?_)
    rw [content_of_mem hx]
    rfl
  · rw [content_of_not_mem fun hm => hx (List.mem_toFinset.mpr hm)]
    rfl

lemma ChangedAt.total {c : Option (List Route × ℕ)} (h : ChangedAt R R' n c)
    (ht : R.TreeInv) : R'.total + routesAt (R.content n) = R.total + routesAt c := by
  set S : Finset (Name C) := Insert.insert n (R.names.toFinset ∪ R'.names.toFinset) with hS
  have hn : n ∈ S := by simp [hS]
  have hrest : ∑ x ∈ S.erase n, routesAt (R'.content x) =
      ∑ x ∈ S.erase n, routesAt (R.content x) :=
    Finset.sum_congr rfl fun x hx => by rw [h.other x (Finset.ne_of_mem_erase hx)]
  rw [total_eq_sum ht.nodup (S := S) fun x hx => by simp [hS, hx],
    total_eq_sum h.tree.nodup (S := S) fun x hx => by simp [hS, hx],
    ← Finset.add_sum_erase S _ hn, ← Finset.add_sum_erase S _ hn, hrest, h.self]
  omega

omit [LinearOrder C] in
lemma nItems_foldl {f : Rib C → Name C → Rib C} (hf : ∀ R c, (f R c).nItems = R.nItems) :
    (D.foldl f R).nItems = R.nItems := by
  induction D generalizing R with
  | nil => rfl
  | cons c D ih => exact ih.trans (hf R c)

lemma nItems_addToParent : (R.addToParent P c).nItems = R.nItems := by cases P <;> rfl

lemma nItems_removeFromParent : (R.removeFromParent P c).nItems = R.nItems := by cases P <;> rfl

lemma nItems_insertEntry : (R.insertEntry n route).nItems = R.nItems + 1 := by
  refine (nItems_foldl fun R c => ?_).trans nItems_addToParent
  unfold adopt
  split
  · exact nItems_removeFromParent
  · rfl

lemma nItems_eraseEntry : (R.eraseEntry n).nItems = R.nItems := by
  refine (nItems_foldl (f := moveUp (R.entries n).parent n) fun R c => ?_).trans
    nItems_removeFromParent
  exact nItems_addToParent

lemma Outcome.nItems {c : Option (List Route × ℕ)} (ho : Outcome R op c) :
    (R.apply op).nItems + routesAt (R.content op.name) = R.nItems + routesAt c ∨
      (R.apply op).nItems = R.nItems - 1 ∧ routesAt (R.content op.name) = routesAt c + 1 := by
  cases ho with
  | @newEntry n route hn =>
    left
    change (R.insert n route).nItems + routesAt (R.content n) = _
    rw [insert_of_newEntry hn, nItems_insertEntry, content_of_not_mem hn]
    rfl
  | @newRoute n route hn hf =>
    left
    change (R.insert n route).nItems + routesAt (R.content n) = _
    rw [insert_of_newRoute hn hf, content_of_mem hn, RibEntry.insertRoute_of_new hf]
    simp [withRoute, routesAt]
    omega
  | @updated n route existing hn hf =>
    left
    obtain ⟨l₁, l₂, hl, hup, -⟩ := RibEntry.exists_of_findRoute hf
    change (R.insert n route).nItems + routesAt (R.content n) = _
    rw [insert_of_found hn hf, content_of_mem hn, hup, hl]
    simp [setEntry, routesAt]
  | @erased n route existing hn hf =>
    right
    change (R.erase n route).nItems = _ ∧ routesAt (R.content n) = _
    rw [erase_of_found hn hf, content_of_mem hn]
    have hlen := RibEntry.getNRoutes_eraseRoute hf
    split
    next h0 =>
      rw [h0] at hlen
      exact ⟨nItems_eraseEntry, hlen⟩
    · exact ⟨rfl, hlen⟩
  | nothing hf =>
    left
    rw [Rib.apply, erase_of_not_found hf]
    rfl

lemma size_apply (h : R.TreeInv) (hs : R.size = R.total) (op : Op C) :
    (R.apply op).size = (R.apply op).total := by
  obtain ⟨c, ho, happ⟩ := apply_spec h op
  have htotal := happ.changed.total h
  rw [size] at hs ⊢
  rcases ho.nItems with hn | ⟨hn, hat⟩ <;> omega

structure RoutesOk (R : Rib C) : Prop where
  nonempty : ∀ x ∈ R.names, (R.entries x).routes ≠ []
  unique : ∀ x ∈ R.names, ((R.entries x).routes.map routeKey).Nodup

omit [LinearOrder C] in
lemma routesOk_empty : RoutesOk ({} : Rib C) :=
  ⟨fun _ hx => absurd hx not_mem_nil, fun _ hx => absurd hx not_mem_nil⟩

lemma Outcome.nonempty {c : Option (List Route × ℕ)} (ho : Outcome R op c) (hr : RoutesOk R)
    {rs : List Route} {k : ℕ} (hc : c = some (rs, k)) : rs ≠ [] := by
  cases ho with
  | newEntry =>
    cases hc
    simp
  | newRoute hn hf =>
    cases hc
    simp [RibEntry.insertRoute_of_new hf]
  | updated hn hf =>
    cases hc
    obtain ⟨l₁, l₂, -, hup, -⟩ := RibEntry.exists_of_findRoute hf
    simp [hup]
  | erased hn hf =>
    split at hc
    · cases hc
    rename_i h0
    cases hc
    exact fun hnil => h0 (by rw [RibEntry.getNRoutes, hnil, length_nil])
  | nothing =>
    obtain ⟨hn, ⟨⟩⟩ := content_eq_some hc
    exact hr.nonempty _ hn

lemma RoutesOk.apply (hr : RoutesOk R) (h : R.TreeInv) (op : Op C) : RoutesOk (R.apply op) := by
  obtain ⟨c, ho, happ⟩ := apply_spec h op
  refine ⟨fun x hx => ?_, fun x hx => ?_⟩
  · rcases happ.changed.entry hx with ⟨rfl, hc⟩ | ⟨-, hm, hroutes, -⟩
    · exact ho.nonempty hr hc
    · rw [hroutes]
      exact hr.nonempty x hm
  · rcases happ.changed.entry hx with ⟨rfl, hc⟩ | ⟨-, hm, hroutes, -⟩
    · exact ho.unique (hr.unique _) hc
    · rw [hroutes]
      exact hr.unique x hm

structure WellFormed (R : Rib C) : Prop where
  parent : ∀ x ∈ R.names, R.Nearest x (R.entries x).parent
  children : ∀ x ∈ R.names, ∀ y, y ∈ (R.entries x).children ↔
    y ∈ R.names ∧ (R.entries y).parent = some x
  children_nodup : ∀ x ∈ R.names, (R.entries x).children.Nodup
  routes : RoutesOk R
  size : R.size = R.total

/-- Whatever is inserted and erased, in whatever order. -/
theorem wellFormed_of_ops (ops : List (Op C)) : WellFormed (ops.foldl Rib.apply {}) := by
  have hinv : TreeInv (ops.foldl Rib.apply {}) ∧ KidsOnce (ops.foldl Rib.apply {}) ∧
      RoutesOk (ops.foldl Rib.apply {}) ∧
      (ops.foldl Rib.apply {}).size = (ops.foldl Rib.apply {}).total := by
    induction ops using List.reverseRecOn with
    | nil =>
      exact ⟨treeInv_empty, fun _ hx => absurd hx not_mem_nil, routesOk_empty, rfl⟩
    | append_singleton ops op ih =>
      obtain ⟨ht, hk, hr, hs⟩ := ih
      rw [foldl_append, foldl_cons, foldl_nil]
      obtain ⟨c, -, happ⟩ := apply_spec ht op
      exact ⟨happ.changed.tree, hk.apply ht op, hr.apply ht op, size_apply ht hs op⟩
  obtain ⟨ht, hk, hr, hs⟩ := hinv
  exact ⟨ht.parent, ht.children, hk, hr, hs⟩

end NfdGateway.Rib
