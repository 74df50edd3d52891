import NfdGateway.Rib.Batch

/-! What the calls for each kind of RIB update leave for the entry itself and for the entries
below it. -/
namespace NfdGateway.FibUpdater

open Rib List Option

variable {C : Type} {R : Rib C} {e : RibEntry C} {r r₀ : Route} {calls calls' : List (Call C)}

/-! The routes that each kind of update adds to and removes from the entries below. -/

/-- What a new entry hands down: its route, and what it lets through. -/
def newEntryAdds (ancestorRoutes : RouteSet) (route : Route) : RouteSet :=
  if route.isChildInherit then
    if route.isCapture then .single route
    else (ancestorRoutes.filter (·.faceId != route.faceId)).insert route
  else {}

def newEntryRemoves (ancestorRoutes : RouteSet) (route : Route) : RouteSet :=
  if route.isCapture then ancestorRoutes else {}

/-- What a route that is new in its entry hands down. -/
def newRouteAdds (entry : RibEntry C) (route : Route) : RouteSet :=
  if route.isChildInherit &&
      notDearer route (entry.getRouteWithLowestCostAndChildInheritByFaceId route.faceId) then
    .single route
  else {}

/-- An update that only changes the cost, and is handed down. -/
def costUpdate (entry : RibEntry C) (route existing : Route) : Bool :=
  route.cost != existing.cost &&
    notDearer route (entry.getRouteWithLowestCostAndChildInheritByFaceId route.faceId) &&
    route.flags == existing.flags && route.isChildInherit

lemma flags_of_costUpdate {e : RibEntry C} {r r₀ : Route} (h : costUpdate e r r₀ = true) :
    r.flags = r₀.flags := by
  simp only [costUpdate, Bool.and_eq_true, beq_iff_eq] at h
  exact h.1.2

def childInheritAdds (R : Rib C) (entry : RibEntry C) (route existing : Route) : RouteSet :=
  if !existing.isChildInherit && route.isChildInherit then
    if notDearer route (entry.getRouteWithLowestCostAndChildInheritByFaceId route.faceId) then
      .single route
    else {}
  else if existing.isChildInherit && !route.isChildInherit then
    match (entry.getRouteWithLowestCostAndChildInheritByFaceId route.faceId).or
        ((R.getAncestorRoutes entry).find route.faceId) with
    | some r => .single r
    | none => {}
  else {}

/-- What an update adds to the entries below, `CAPTURE` apart. -/
def updatedAdds (R : Rib C) (entry : RibEntry C) (route existing : Route) : RouteSet :=
  if costUpdate entry route existing then .single route
  else childInheritAdds R entry route existing

def updatedRemoves (route existing : Route) : RouteSet :=
  if existing.isChildInherit && !route.isChildInherit then .single route else {}

/-- What comes through when `CAPTURE` is turned off. -/
def captureAdds (R : Rib C) (entry : RibEntry C) (route existing : Route) : RouteSet :=
  if existing.isCapture && !route.isCapture then R.getAncestorRoutes entry else {}

/-- What is withdrawn when `CAPTURE` is turned on. -/
def captureRemoves (R : Rib C) (entry : RibEntry C) (route existing : Route) : RouteSet :=
  if !existing.isCapture && route.isCapture then R.getAncestorRoutes entry else {}

/-- What comes through when a route is erased. -/
def erasedAdds (R : Rib C) (entry : RibEntry C) (route : Route) (off : Bool) : RouteSet :=
  if route.isCapture then
    if off && entry.getNRoutes != 0 then R.getAncestorRoutes entry else {}
  else if route.isChildInherit && !entry.hasCapture then R.getAncestorRoutes entry
  else {}

def erasedRemoves (route : Route) : RouteSet := if route.isChildInherit then .single route else {}

def unblocked (R : Rib C) (entry : RibEntry C) (route : Route) : List (Call C) :=
  if !entry.hasCapture && entry.getNRoutes != 0 then
    match (R.getAncestorRoutes entry).find route.faceId with
    | some r => addInheritedNexthop entry.name r
    | none => []
  else []

section

variable (h : r.flags = r₀.flags)
include h

lemma isChildInherit_congr : r.isChildInherit = r₀.isChildInherit := by
  rw [Route.isChildInherit, h, Route.isChildInherit]

lemma isCapture_congr : r.isCapture = r₀.isCapture := by
  rw [Route.isCapture, h, Route.isCapture]

lemma updatedRemoves_of_flags : updatedRemoves r r₀ = {} := by
  rw [updatedRemoves, isChildInherit_congr h]
  simp

lemma captureAdds_of_flags : captureAdds R e r r₀ = {} := by
  rw [captureAdds, isCapture_congr h]
  simp

lemma captureRemoves_of_flags : captureRemoves R e r r₀ = {} := by
  rw [captureRemoves, isCapture_congr h]
  simp

lemma childInheritAdds_of_flags : childInheritAdds R e r r₀ = {} := by
  rw [childInheritAdds, isChildInherit_congr h]
  simp

end

lemma updated_calls (h : createFibUpdatesForUpdatedRoute R e r r₀ = some calls) :
    (r.flags = r₀.flags ∧ r.cost = r₀.cost ∧ calls = []) ∨
    ∃ own, (if r.cost = r₀.cost then own = [] else ownUpdateForUpdatedRoute e r r₀ = some own) ∧
      calls = own ++
        if costUpdate e r r₀ then modifyChildrensInheritedRoutes R e.children (.single r) {}
        else childInheritUpdates R e r r₀ ++ captureUpdates R e r r₀ := by
  rw [createFibUpdatesForUpdatedRoute] at h
  split at h
  next hsame =>
    cases h
    exact .inl (by simpa using hsame)
  right
  obtain ⟨own, hown, rfl⟩ := map_eq_some_iff.mp h
  refine ⟨own, ?_, rfl⟩
  by_cases hcost : r.cost = r₀.cost
  · simpa [hcost, eq_comm] using hown
  · simpa [hcost] using hown

variable [LinearOrder C] {n x : Name C} {f g : FaceId} {v v' : RibEntry C → Option (Option ℕ)}
  {add rem : RouteSet} {children : List (Name C)} {k : Name C × FaceId} {own : List (Call C)}
  {turnedOn : Bool}

/-! The calls about other entries than the one that is updated are those of the traversal. -/

def Call.name : Call C → Name C
  | .fibUpdate u => u.name
  | .inheritedRoute u => u.name

/-- The calls for names other than `n`. -/
def others (n : Name C) (calls : List (Call C)) : List (Call C) := calls.filter (·.name != n)

@[simp] lemma others_nil : others n ([] : List (Call C)) = [] := rfl

@[simp] lemma others_append : others n (calls ++ calls') = others n calls ++ others n calls' :=
  filter_append ..

@[simp] lemma others_own {u : FibUpdate C} (h : u.name = n) :
    others n (.fibUpdate u :: calls) = others n calls := by
  simp [others, Call.name, h]

lemma others_flatMap {A : Type} {T : A → List (Call C)} {l : List A}
    (h : ∀ a ∈ l, others n (T a) = []) : others n (l.flatMap T) = [] := by
  rw [others, filter_flatMap]
  exact flatMap_eq_nil_iff.mpr h

lemma others_addInheritedNexthop : others n (addInheritedNexthop n r) = [] := by
  simp [others, addInheritedNexthop, Call.name, FibUpdate.createAddUpdate]

lemma others_removeInheritedNexthop : others n (removeInheritedNexthop n r) = [] := by
  simp [others, removeInheritedNexthop, Call.name, FibUpdate.createRemoveUpdate]

lemma others_addInheritedRoutes (h : e.name = n) : others n (addInheritedRoutes e add) = [] := by
  refine others_flatMap fun r _ => ?_
  split
  · exact h ▸ others_addInheritedNexthop
  · rfl

lemma others_addInheritedRoutesIgnoring : others n (addInheritedRoutesIgnoring n add r) = [] := by
  refine others_flatMap fun r _ => ?_
  split
  · exact others_addInheritedNexthop
  · rfl

lemma others_removeInheritedRoutes (h : e.name = n) :
    others n (removeInheritedRoutes e rem) = [] := by
  refine others_flatMap fun r _ => ?_
  split
  · exact h ▸ others_removeInheritedNexthop
  · rfl

omit [LinearOrder C] in
lemma traverse_empty {fuel : ℕ} {c : Name C} : traverseSubTree R fuel {} {} c = [] := by
  induction fuel generalizing c with
  | zero => rfl
  | succ fuel ih =>
    rw [traverseSubTree]
    split
    · rfl
    · exact flatMap_eq_nil_iff.mpr fun c _ => ih

omit [LinearOrder C] in
@[simp] lemma modify_empty : modifyChildrensInheritedRoutes R children {} {} = [] :=
  flatMap_eq_nil_iff.mpr fun _ _ => traverse_empty

lemma others_newEntry : others n (createFibUpdatesForNewRibEntry R n r children) =
    others n (modifyChildrensInheritedRoutes R children
      (newEntryAdds (R.getAncestorRoutesOfName n) r)
      (newEntryRemoves (R.getAncestorRoutesOfName n) r)) := by
  rw [createFibUpdatesForNewRibEntry, others_own (n := n) rfl]
  cases hci : r.isChildInherit <;> cases hcap : r.isCapture <;>
    simp [newEntryAdds, newEntryRemoves, hci, hcap, others_addInheritedRoutesIgnoring]

lemma others_newRoute (hname : e.name = n) :
    others n (createFibUpdatesForNewRoute R e r turnedOn) =
      others n (modifyChildrensInheritedRoutes R e.children (newRouteAdds e r)
        (if turnedOn then R.getAncestorRoutes e else {})) := by
  rw [createFibUpdatesForNewRoute, others_append, others_append]
  have hself : others n (if turnedOn then removeInheritedRoutes e
      (if turnedOn then R.getAncestorRoutes e else {}) else []) = [] := by
    split
    · exact others_removeInheritedRoutes hname
    · rfl
  have hown : others n (if notDearer r (e.getRouteWithLowestCostByFaceId r.faceId) then
      [.fibUpdate (.createAddUpdate e.name r.faceId r.cost)] else []) = [] := by
    split
    · exact others_own hname
    · rfl
  rw [hself, hown, nil_append, append_nil, newRouteAdds]

omit [LinearOrder C] in
lemma childInheritUpdates_eq : childInheritUpdates R e r r₀ =
    modifyChildrensInheritedRoutes R e.children (childInheritAdds R e r r₀)
      (updatedRemoves r r₀) := by
  rw [childInheritUpdates, childInheritAdds, updatedRemoves]
  cases hci₀ : r₀.isChildInherit <;> cases hci : r.isChildInherit
  · simp
  · by_cases hd : notDearer r (e.getRouteWithLowestCostAndChildInheritByFaceId r.faceId) = true <;>
      simp [hd]
  · rfl
  · simp

lemma others_capture (hname : e.name = n) : others n (captureUpdates R e r r₀) =
    others n (modifyChildrensInheritedRoutes R e.children (captureAdds R e r r₀)
      (captureRemoves R e r r₀)) := by
  rw [captureUpdates, captureAdds, captureRemoves]
  cases hc₀ : r₀.isCapture <;> cases hc : r.isCapture <;>
    simp [others_removeInheritedRoutes hname, others_addInheritedRoutes hname]

lemma others_ownUpdate (hname : e.name = n)
    (h : ownUpdateForUpdatedRoute e r r₀ = some own) : others n own = [] := by
  obtain ⟨lowest, -, h⟩ := bind_eq_some_iff.mp h
  split at h
  · cases h
    exact others_own hname
  split at h
  · obtain ⟨prev, -, rfl⟩ := map_eq_some_iff.mp h
    exact others_own hname
  · cases h
    rfl

lemma others_updated (hname : e.name = n)
    (hu : createFibUpdatesForUpdatedRoute R e r r₀ = some calls) : others n calls =
      others n (modifyChildrensInheritedRoutes R e.children (updatedAdds R e r r₀)
          (updatedRemoves r r₀) ++
        modifyChildrensInheritedRoutes R e.children (captureAdds R e r r₀)
          (captureRemoves R e r r₀)) := by
  rcases updated_calls hu with ⟨hflags, hcost, rfl⟩ | ⟨own, hown, rfl⟩
  · have hno : costUpdate e r r₀ = false := by simp [costUpdate, hcost]
    simp [captureAdds_of_flags hflags, captureRemoves_of_flags hflags, updatedAdds, hno,
      childInheritAdds_of_flags hflags, updatedRemoves_of_flags hflags]
  have hown : others n own = [] := by
    split at hown
    · rw [hown]
      rfl
    · exact others_ownUpdate hname hown
  rw [others_append, hown, nil_append]
  by_cases hcost : costUpdate e r r₀ = true
  · have hflags := flags_of_costUpdate hcost
    simp [captureAdds_of_flags hflags, captureRemoves_of_flags hflags, updatedAdds, hcost,
      updatedRemoves_of_flags hflags]
  · rw [if_neg hcost, others_append, others_append, childInheritUpdates_eq, others_capture hname,
      updatedAdds, if_neg hcost]

lemma others_erasedRoute {off : Bool} (hname : e.name = n) :
    others n (createFibUpdatesForErasedRoute R e r off) =
      others n (modifyChildrensInheritedRoutes R e.children (erasedAdds R e r off)
        (erasedRemoves r)) := by
  have hself : ∀ (p : Prop) [Decidable p] (s : RouteSet),
      others n (if p then addInheritedRoutes e s else []) = [] := by
    intro p _ s
    split
    · exact others_addInheritedRoutes hname
    · rfl
  have hlast : others n (unblocked R e r) = [] := by
    rw [unblocked]
    split
    · split
      · exact hname ▸ others_addInheritedNexthop
      · rfl
    · rfl
  change others n ([.fibUpdate (.createRemoveUpdate e.name r.faceId)] ++
    (erasedRouteUpdates R e r off ++ unblocked R e r)) = _
  rw [others_append, others_append, others_own hname, hlast, others_nil, nil_append,
    append_nil, erasedRouteUpdates, erasedAdds, erasedRemoves]
  cases r.isChildInherit <;> cases r.isCapture <;> simp [hself]

lemma others_erasedCalls {temp : RibEntry C} {existing : Route} {next : Option Route} {off : Bool}
    {last : Prop} [Decidable last] (hname : e.name = n) (hname' : temp.name = n) :
    others n (erasedCalls R e temp existing next off last) =
      others n (modifyChildrensInheritedRoutes R temp.children (erasedAdds R temp existing off)
          (erasedRemoves existing) ++
        modifyChildrensInheritedRoutes R temp.children (next.elim {} (newRouteAdds temp)) {}) := by
  have hlast : others n (if last then createFibUpdatesForErasedRibEntry e else []) = [] := by
    split
    · rw [createFibUpdatesForErasedRibEntry, others, filter_eq_nil_iff]
      intro c hc
      obtain ⟨w, -, rfl⟩ := List.mem_map.mp hc
      simp [Call.name, FibUpdate.createRemoveUpdate, hname]
    · rfl
  unfold erasedCalls
  rw [others_append, others_append, hlast, others_erasedRoute hname', others_append, append_nil]
  cases next with
  | none => simp
  | some b =>
    rw [others_newRoute hname']
    rfl

/-- The nexthops on `g` that the calls set below `n` are those of `v` for its heirs. -/
def Hands (R : Rib C) (n : Name C) (g : FaceId) (calls : List (Call C))
    (v : RibEntry C → Option (Option ℕ)) : Prop :=
  ∀ x, x ≠ n → (R.Heir n g x → pending calls (x, g) = v (R.entries x)) ∧
    (¬ R.Heir n g x → pending calls (x, g) = none)

lemma pending_others (hx : x ≠ n) : pending (others n calls) (x, g) = pending calls (x, g) := by
  induction calls with
  | nil => rfl
  | cons c calls ih =>
    by_cases hc : c.name = n
    · have hnone : pending [c] (x, g) = none := by
        cases c with
        | fibUpdate u =>
          have hk : u.key ≠ (x, g) := fun he => hx ((congrArg Prod.fst he).symm.trans hc)
          simp [pending, Call.fibUpdate?, UpdateLog.latest_cons, hk]
        | inheritedRoute u => rfl
      rw [pending_cons, hnone, or_none, ← ih]
      simp [others, hc]
    · have hcons : others n (c :: calls) = c :: others n calls := by simp [others, hc]
      rw [hcons, pending_cons, ih, ← pending_cons]

lemma Hands.of_others (h : others n calls = others n calls') (h' : Hands R n g calls' v) :
    Hands R n g calls v := by
  intro x hx
  rw [← pending_others hx, h, pending_others hx]
  exact h' x hx

lemma Hands.append (h : Hands R n g calls v) (h' : Hands R n g calls' v') :
    Hands R n g (calls ++ calls') fun e => (v' e).or (v e) := by
  intro x hx
  rw [pending_append]
  refine ⟨fun hh => ?_, fun hh => ?_⟩
  · rw [(h x hx).1 hh, (h' x hx).1 hh]
  · rw [(h x hx).2 hh, (h' x hx).2 hh, or_none]

lemma Hands.eq_none (h : Hands R n g calls v) (hx : x ≠ n)
    (hv : R.Heir n g x → v (R.entries x) = none) : pending calls (x, g) = none := by
  by_cases hh : R.Heir n g x
  · rw [(h x hx).1 hh, hv hh]
  · exact (h x hx).2 hh

lemma Hands.congr (h : Hands R n g calls v) (hv : ∀ e, v e = v' e) : Hands R n g calls v' :=
  fun x hx => ⟨fun hh => ((h x hx).1 hh).trans (hv _), (h x hx).2⟩

lemma hands_modify (h : R.TreeInv) (hc : ∀ c, c ∈ children ↔ R.Kid n c) :
    Hands R n g (modifyChildrensInheritedRoutes R children add rem) (visit · add rem g) :=
  fun _ _ => pending_modifyChildrensInheritedRoutes h hc

lemma pending_modify_self (h : R.TreeInv) (hc : ∀ c, c ∈ children ↔ R.Kid n c) :
    pending (modifyChildrensInheritedRoutes R children add rem) (n, g) = none :=
  (pending_modifyChildrensInheritedRoutes h hc).2 fun hh => hh.2.1.1.2 rfl

/-- The entry has the links of its name in the tree; its routes may differ. -/
structure Linked (R : Rib C) (n : Name C) (e : RibEntry C) : Prop where
  tree : R.TreeInv
  mem : n ∈ R.names
  name : e.name = n
  parent : e.parent = R.parentOf n
  children : e.children = R.childrenOf n

lemma linked (h : R.TreeInv) (hn : n ∈ R.names) : Linked R n (R.entries n) :=
  ⟨h, hn, h.name_eq n hn, rfl, rfl⟩

lemma Linked.updateRoute (hl : Linked R n e) (r : Route) : Linked R n (e.updateRoute r) :=
  ⟨hl.tree, hl.mem, hl.name, hl.parent, hl.children⟩

lemma Linked.eraseRoute (hl : Linked R n e) (r : Route) : Linked R n (e.eraseRoute r) := by
  refine ⟨hl.tree, hl.mem, ?_, ?_, ?_⟩
  · rw [RibEntry.eraseRoute_name, hl.name]
  · rw [RibEntry.eraseRoute_parent, hl.parent]
  · rw [RibEntry.eraseRoute_children, hl.children]

lemma Linked.kids (hl : Linked R n e) (c : Name C) : c ∈ e.children ↔ R.Kid n c := by
  rw [hl.children]
  exact hl.tree.kid_iff hl.mem

lemma Linked.pending_modify (hl : Linked R n e) :
    pending (modifyChildrensInheritedRoutes R e.children add rem) (n, g) = none :=
  pending_modify_self hl.tree hl.kids

/-! New entries. -/

lemma mem_newChildren (h : R.TreeInv) (hn : n ∉ R.names) (c : Name C) :
    c ∈ ((R.findDescendantsForNonInsertedName n).filter fun d =>
      (R.entries d).parent = R.findParent n) ↔ R.Kid n c := by
  simp only [findDescendantsForNonInsertedName, mem_filter, isPrefixOf_iff_prefix,
    decide_eq_true_eq]
  constructor
  · rintro ⟨⟨hc, hnc⟩, hp⟩
    exact (h.kid_of_new_iff hn hc ⟨hnc, fun he => hn (he ▸ hc)⟩).mp hp
  · intro hk
    exact ⟨⟨hk.1, hk.2.1.1⟩, (h.kid_of_new_iff hn hk.1 hk.2.1).mpr hk⟩

lemma find_newEntryAdds {s : RouteSet} : (newEntryAdds s r).find g =
    if r.isChildInherit then
      if g = r.faceId then some r else if r.isCapture then none else s.find g
    else none := by
  have hfilter : (s.filter (·.faceId != r.faceId)).find g =
      if (g != r.faceId) = true then s.find g else none :=
    RouteSet.find_filter (p := (· != r.faceId))
  by_cases hg : g = r.faceId
  · subst hg
    cases hci : r.isChildInherit <;> cases hcap : r.isCapture <;>
      simp [newEntryAdds, hci, hcap, RouteSet.find_insert, hfilter]
  · cases hci : r.isChildInherit <;> cases hcap : r.isCapture <;>
      simp [newEntryAdds, hci, hcap, RouteSet.find_insert, hfilter, hg, Ne.symm hg]

lemma hands_newEntry (h : R.TreeInv) (hc : ∀ c, c ∈ children ↔ R.Kid n c) :
    Hands R n g (createFibUpdatesForNewRibEntry R n r children)
      (visit · (newEntryAdds (R.getAncestorRoutesOfName n) r)
        (newEntryRemoves (R.getAncestorRoutesOfName n) r) g) :=
  (hands_modify h hc).of_others others_newEntry

lemma pending_newEntry_self (h : R.TreeInv) (hc : ∀ c, c ∈ children ↔ R.Kid n c) :
    pending (createFibUpdatesForNewRibEntry R n r children) (n, g) =
      if g = r.faceId then some (some r.cost)
      else if r.isCapture then none
      else ((R.getAncestorRoutesOfName n).find g).map (some ·.cost) := by
  rw [createFibUpdatesForNewRibEntry, pending_cons]
  by_cases hg : g = r.faceId <;> cases hci : r.isChildInherit <;> cases hcap : r.isCapture <;>
    simp [pending_addInheritedRoutesIgnoring, pending_modify_self h hc, hg]

/-! New routes of an entry. -/

lemma hands_newRoute (hl : Linked R n e) :
    Hands R n g (createFibUpdatesForNewRoute R e r turnedOn)
      (visit · (newRouteAdds e r) (if turnedOn then R.getAncestorRoutes e else {}) g) :=
  (hands_modify hl.tree hl.kids).of_others (others_newRoute hl.name)

lemma pending_newRoute_self (hl : Linked R n e) :
    pending (createFibUpdatesForNewRoute R e r turnedOn) (n, g) =
      (if g = r.faceId ∧ notDearer r (e.getRouteWithLowestCostByFaceId r.faceId) = true then
        some (some r.cost) else none).or
      (if turnedOn = true ∧ e.hasInheritedRoute g = true ∧
        ((R.getAncestorRoutes e).find g).isSome = true then some none else none) := by
  rw [createFibUpdatesForNewRoute]
  simp only [pending_append, hl.pending_modify, none_or]
  cases turnedOn <;> cases hd : notDearer r (e.getRouteWithLowestCostByFaceId r.faceId) <;>
    simp [pending_removeInheritedRoutes, hl.name]

/-! Updated routes. -/

lemma pending_ownUpdate (h : ownUpdateForUpdatedRoute e r r₀ = some own) :
    (∀ k, k ≠ (e.name, r.faceId) → pending own k = none) ∧
    ∃ lowest, e.getRouteWithLowestCostByFaceId r.faceId = some lowest ∧
      pending own (e.name, r.faceId) =
        if r.cost ≤ lowest.cost then some (some r.cost)
        else if r₀.cost < lowest.cost then
          (e.getRouteWithLowestCostAndChildInheritByFaceId r.faceId).map (some ·.cost)
        else none := by
  obtain ⟨lowest, hl, h⟩ := bind_eq_some_iff.mp h
  by_cases hle : r.cost ≤ lowest.cost
  · rw [if_pos hle] at h
    cases h
    exact ⟨fun k hk => by simp [hk], lowest, hl, by simp [hle]⟩
  rw [if_neg hle] at h
  by_cases hlt : r₀.cost < lowest.cost
  · rw [if_pos hlt] at h
    obtain ⟨prev, hp, rfl⟩ := map_eq_some_iff.mp h
    have hf := (lowestChildInherit_spec hp).1
    exact ⟨fun k hk => by simp [hf, hk], lowest, hl, by simp [hf, hle, hlt, hp]⟩
  · rw [if_neg hlt] at h
    cases h
    exact ⟨fun k _ => rfl, lowest, hl, by simp [hle, hlt]⟩

lemma pending_own_of_ne (hk : k ≠ (e.name, r.faceId))
    (h : if r.cost = r₀.cost then own = [] else ownUpdateForUpdatedRoute e r r₀ = some own) :
    pending own k = none := by
  split at h
  · rw [h]
    rfl
  · exact (pending_ownUpdate h).1 k hk

lemma hands_updated (hl : Linked R n e)
    (hu : createFibUpdatesForUpdatedRoute R e r r₀ = some calls) :
    Hands R n g calls fun x =>
      (visit x (captureAdds R e r r₀) (captureRemoves R e r r₀) g).or
        (visit x (updatedAdds R e r r₀) (updatedRemoves r r₀) g) :=
  ((hands_modify hl.tree hl.kids).append (hands_modify hl.tree hl.kids)).of_others
    (others_updated hl.name hu)

lemma pending_capture_self (hl : Linked R n e) :
    pending (captureUpdates R e r r₀) (n, g) =
      (if e.hasFaceId g = false then ((captureAdds R e r r₀).find g).map (some ·.cost)
        else none).or
      (if e.hasInheritedRoute g = true ∧ ((captureRemoves R e r r₀).find g).isSome then some none
        else none) := by
  rw [captureUpdates, captureAdds, captureRemoves]
  cases r₀.isCapture <;> cases r.isCapture <;>
    simp [pending_addInheritedRoutes, pending_removeInheritedRoutes, hl.pending_modify, hl.name]

lemma pending_updated_self (hl : Linked R n e)
    (hu : createFibUpdatesForUpdatedRoute R e r r₀ = some calls) :
    ∃ own, (if r.cost = r₀.cost then own = [] else ownUpdateForUpdatedRoute e r r₀ = some own) ∧
      pending calls (n, g) =
        ((if e.hasFaceId g = false then ((captureAdds R e r r₀).find g).map (some ·.cost)
          else none).or
        (if e.hasInheritedRoute g = true ∧ ((captureRemoves R e r r₀).find g).isSome then some none
          else none)).or (pending own (n, g)) := by
  rcases updated_calls hu with ⟨hflags, hcost, rfl⟩ | ⟨own, hown, rfl⟩
  · refine ⟨[], by simp [hcost], ?_⟩
    simp [captureAdds_of_flags hflags, captureRemoves_of_flags hflags]
  refine ⟨own, hown, ?_⟩
  rw [pending_append]
  by_cases hcost : costUpdate e r r₀ = true
  · have hflags := flags_of_costUpdate hcost
    simp [hcost, hl.pending_modify, captureAdds_of_flags hflags, captureRemoves_of_flags hflags]
  · rw [if_neg hcost, pending_append, childInheritUpdates_eq, hl.pending_modify, or_none,
      pending_capture_self hl]

/-! Erased routes. -/

lemma pending_unblocked : pending (unblocked R e r) k =
    if k = (e.name, r.faceId) ∧ e.hasCapture = false ∧ e.getNRoutes ≠ 0 then
      ((R.getAncestorRoutes e).find r.faceId).map (some ·.cost)
    else none := by
  rw [unblocked]
  by_cases hb : e.hasCapture = false ∧ e.getNRoutes ≠ 0
  · rw [if_pos (by simpa using hb)]
    cases hf : (R.getAncestorRoutes e).find r.faceId with
    | none => simp
    | some w => simp [(RouteSet.find_eq_some hf).2, hb]
  · rw [if_neg (by simpa using hb), if_neg fun hk => hb hk.2]
    rfl

lemma pending_erasedRoute_self {off : Bool} (hl : Linked R n e) :
    pending (createFibUpdatesForErasedRoute R e r off) (n, g) =
      (if g = r.faceId ∧ e.hasCapture = false ∧ e.getNRoutes ≠ 0 then
        ((R.getAncestorRoutes e).find r.faceId).map (some ·.cost)
      else none).or
      ((if r.isCapture = true ∧ off = true ∧ e.getNRoutes ≠ 0 ∧ e.hasFaceId g = false then
        ((R.getAncestorRoutes e).find g).map (some ·.cost)
      else none).or (if g = r.faceId then some none else none)) := by
  have hupd : pending (erasedRouteUpdates R e r off) (n, g) =
      if r.isCapture = true ∧ off = true ∧ e.getNRoutes ≠ 0 ∧ e.hasFaceId g = false then
        ((R.getAncestorRoutes e).find g).map (some ·.cost) else none := by
    rw [erasedRouteUpdates]
    cases r.isChildInherit <;> cases r.isCapture <;> cases off <;>
      by_cases hn : e.getNRoutes = 0 <;>
      simp [hn, hl.pending_modify, pending_addInheritedRoutes, hl.name]
  have heq : createFibUpdatesForErasedRoute R e r off =
      [.fibUpdate (.createRemoveUpdate e.name r.faceId)] ++
        (erasedRouteUpdates R e r off ++ unblocked R e r) := rfl
  rw [heq, pending_append, pending_append, hupd, pending_unblocked, hl.name, Option.or_assoc]
  simp

lemma pending_erasedEntry :
    pending (createFibUpdatesForErasedRibEntry e) k =
      if k.1 = e.name ∧ e.hasInheritedRoute k.2 = true then some none else none := by
  rw [createFibUpdatesForErasedRibEntry, RibEntry.hasInheritedRoute]
  induction e.inheritedRoutes with
  | nil => simp
  | cons w l ih =>
    rw [map_cons, pending_cons, ih, pending_remove]
    by_cases hk : k.1 = e.name
    · by_cases hw : k.2 = w.faceId
      · have hself : ((w :: l).any (·.faceId == k.2)) = true := by simp [hw]
        rw [hself]
        cases l.any (·.faceId == k.2) <;> simp [hk, hw, Prod.ext_iff]
      · simp [hk, hw, Ne.symm hw, Prod.ext_iff]
    · simp [hk, Prod.ext_iff]

section ErasedCalls

variable {temp : RibEntry C} {existing : Route} {next : Option Route} {off : Bool} {last : Prop}
  [Decidable last]

lemma hands_erasedCalls (hname : e.name = n) (hl : Linked R n temp) :
    Hands R n g (erasedCalls R e temp existing next off last) fun x =>
      (next.bind fun next => visit x (newRouteAdds temp next) {} g).or
        (visit x (erasedAdds R temp existing off) (erasedRemoves existing) g) := by
  refine (((hands_modify hl.tree hl.kids).append (hands_modify hl.tree hl.kids)).of_others
    (others_erasedCalls hname hl.name)).congr fun x => ?_
  cases next <;> simp

lemma pending_erasedCalls_self (hname : e.name = n) (hl : Linked R n temp) :
    pending (erasedCalls R e temp existing next off last) (n, g) =
      (if last ∧ e.hasInheritedRoute g = true then some none else none).or
        ((next.bind fun next => if g = next.faceId ∧
            notDearer next (temp.getRouteWithLowestCostByFaceId next.faceId) = true then
          some (some next.cost) else none).or
        ((if g = existing.faceId ∧ temp.hasCapture = false ∧ temp.getNRoutes ≠ 0 then
          ((R.getAncestorRoutes temp).find existing.faceId).map (some ·.cost)
        else none).or
        ((if existing.isCapture = true ∧ off = true ∧ temp.getNRoutes ≠ 0 ∧
            temp.hasFaceId g = false then ((R.getAncestorRoutes temp).find g).map (some ·.cost)
        else none).or (if g = existing.faceId then some none else none)))) := by
  have hlast : pending (if last then createFibUpdatesForErasedRibEntry e else []) (n, g) =
      if last ∧ e.hasInheritedRoute g = true then some none else none := by
    by_cases hl : last <;> simp [hl, pending_erasedEntry, hname]
  rw [← pending_erasedRoute_self hl]
  cases next with
  | none => simp [erasedCalls, hlast]
  | some next => simp [erasedCalls, hlast, pending_newRoute_self hl, Option.or_assoc]

end ErasedCalls

end NfdGateway.FibUpdater
