import NfdGateway.Rib.Scripts
import NfdGateway.Rib.Supplies

/-! What a batch does to the records of inherited routes, and when this keeps them in step with
the nexthops. -/
namespace NfdGateway

open FibUpdater Rib Slot HandDown List Option

variable {C : Type} [LinearOrder C] {R R' : Rib C} {nth : NthElement} {u : RibUpdate C}
  {calls : List (Call C)} {c : Option (List Route × ℕ)} {n x : Name C} {g : FaceId}
  {s s' : RibState C} {e : RibEntry C} {r r₀ : Route} {add rem add' rem' : RouteSet}
  {children : List (Name C)}

namespace FibUpdater

/-! Two visits fit if each adds only to an entry without a record and removes only one that is
still there. -/

section

omit [LinearOrder C]

lemma orderly_visits (hown : e.hasFaceId g = false)
    (hadd : (add.find g).isSome = true → e.hasInheritedRoute g = true → (rem.find g).isSome = true)
    (hrem : e.hasInheritedRoute g = true → (rem.find g).isSome = true →
      (rem'.find g).isSome = true → (add.find g).isSome = true)
    (hadd' : (add'.find g).isSome = true → (add.find g).isSome = false ∧
      (e.hasInheritedRoute g = true → (rem.find g).isSome = true)) :
    Orderly (e.hasInheritedRoute g) (visitRecords e add rem g ++ visitRecords e add' rem' g) := by
  rw [visitRecords, visitRecords, if_pos hown, if_pos hown]
  cases hi : e.hasInheritedRoute g <;> cases ha : add.find g <;> cases hr : rem.find g <;>
    cases ha' : add'.find g <;> cases hr' : rem'.find g <;> simp_all [Orderly]

lemma orderly_visit (hown : e.hasFaceId g = false)
    (hadd : (add.find g).isSome = true → e.hasInheritedRoute g = true →
      (rem.find g).isSome = true) :
    Orderly (e.hasInheritedRoute g) (visitRecords e add rem g) := by
  have hnone : visitRecords e {} {} g = [] := by simp [visitRecords]
  have horder : Orderly (e.hasInheritedRoute g)
      (visitRecords e add rem g ++ visitRecords e {} {} g) :=
    orderly_visits hown hadd (by simp) (by simp)
  rwa [hnone, append_nil] at horder

lemma visitRecords_of_own (hown : e.hasFaceId g = true) (hi : e.hasInheritedRoute g = false) :
    visitRecords e add rem g = [] := by
  simp [visitRecords, hown, hi]

lemma getLast?_visitRecords : (visitRecords e add rem g).getLast? = visit e add rem g := by
  rw [visitRecords, visit]
  cases e.hasFaceId g <;> cases e.hasInheritedRoute g <;> cases add.find g <;>
    cases (rem.find g).isSome <;> rfl

end

/-! The visits that each kind of update makes. -/

lemma visits_newEntry (h : R.TreeInv) (hn : n ∉ R.names) :
    Visits R n (createFibUpdatesForNewRibEntry R n r
        ((R.findDescendantsForNonInsertedName n).filter fun d =>
          (R.entries d).parent = R.findParent n))
      ((R.findDescendantsForNonInsertedName n).filter fun d =>
        (R.entries d).parent = R.findParent n)
      (newEntryAdds (R.getAncestorRoutesOfName n) r)
      (newEntryRemoves (R.getAncestorRoutesOfName n) r) {} {} where
  others := by rw [others_newEntry, modify_empty, append_nil]
  nodup := (h.sorted.imp fun hlt he => by simp [he] at hlt).filter _ |>.filter _
  kids := mem_newChildren h hn

lemma visits_newRoute {turnedOn : Bool} (hk : KidsOnce R) (hl : Linked R n e) :
    Visits R n (createFibUpdatesForNewRoute R e r turnedOn) e.children (newRouteAdds e r)
      (if turnedOn then R.getAncestorRoutes e else {}) {} {} where
  others := by rw [others_newRoute hl.name, modify_empty, append_nil]
  nodup := hl.once hk
  kids := hl.kids

lemma visits_updated (hk : KidsOnce R) (hl : Linked R n e)
    (hu : createFibUpdatesForUpdatedRoute R e r r₀ = some calls) :
    Visits R n calls e.children (updatedAdds R e r r₀) (updatedRemoves r r₀)
      (captureAdds R e r r₀) (captureRemoves R e r r₀) where
  others := others_updated hl.name hu
  nodup := hl.once hk
  kids := hl.kids

section Erased

variable {temp : RibEntry C} {existing : Route} {next : Option Route} {off : Bool} {last : Prop}
  [Decidable last] {own : List (Call C)}

lemma visits_erased (hk : KidsOnce R) (hname : e.name = n) (hl : Linked R n temp) :
    Visits R n (erasedCalls R e temp existing next off last) temp.children
      (erasedAdds R temp existing off) (erasedRemoves existing)
      (next.elim {} (newRouteAdds temp)) {} where
  others := others_erasedCalls hname hl.name
  nodup := hl.once hk
  kids := hl.kids

/-! What each kind of update does to the records of the entry itself. -/

lemma Linked.records_modify (hl : Linked R n e) (hk : KidsOnce R) :
    records (modifyChildrensInheritedRoutes R e.children add rem) (n, g) = [] :=
  (FibUpdater.records_modify hk hl.tree (hl.once hk) hl.kids).2 fun hh => hh.2.1.1.2 rfl

lemma records_newEntry_self (h : R.TreeInv) (hk : KidsOnce R) (hnodup : children.Nodup)
    (hc : ∀ c, c ∈ children ↔ R.Kid n c) :
    records (createFibUpdatesForNewRibEntry R n r children) (n, g) =
      if g ≠ r.faceId ∧ r.isCapture = false then
        (((R.getAncestorRoutesOfName n).find g).map (some ·.cost)).toList
      else [] := by
  have hmod : ∀ add rem, records (modifyChildrensInheritedRoutes R children add rem) (n, g) =
      [] := fun _ _ => (records_modify hk h hnodup hc).2 fun hh => hh.2.1.1.2 rfl
  rw [createFibUpdatesForNewRibEntry, records_fibUpdate]
  cases hci : r.isChildInherit <;> cases hcap : r.isCapture <;>
    simp [records_addInheritedRoutesIgnoring, hmod]

omit [LinearOrder C] in
lemma inheritedRoute_not_mem_own {w : RibUpdate C}
    (ho : ownUpdateForUpdatedRoute e r r₀ = some own) : Call.inheritedRoute w ∉ own := by
  obtain ⟨lowest, -, ho⟩ := bind_eq_some_iff.mp ho
  split at ho
  · cases ho
    simp
  split at ho
  · obtain ⟨prev, -, rfl⟩ := map_eq_some_iff.mp ho
    simp
  · cases ho
    simp

lemma records_ownUpdate {k : Name C × FaceId}
    (ho : ownUpdateForUpdatedRoute e r r₀ = some own) : records own k = [] := by
  have hnone : own.filterMap Call.inheritedRoute? = [] := by
    refine filterMap_eq_nil_iff.mpr fun c hc => ?_
    cases c with
    | fibUpdate w => rfl
    | inheritedRoute w => exact absurd hc (inheritedRoute_not_mem_own ho)
  rw [records, hnone]
  rfl

lemma records_newRoute_self {turnedOn : Bool} (hk : KidsOnce R) (hl : Linked R n e) :
    records (createFibUpdatesForNewRoute R e r turnedOn) (n, g) =
      if turnedOn = true ∧ e.hasInheritedRoute g = true ∧
        ((R.getAncestorRoutes e).find g).isSome = true then [none] else [] := by
  have hown : records (if notDearer r (e.getRouteWithLowestCostByFaceId r.faceId) then
      [.fibUpdate (.createAddUpdate e.name r.faceId r.cost)] else []) (n, g) = [] := by
    split <;> rfl
  rw [createFibUpdatesForNewRoute, records_append, records_append, hown, hl.records_modify hk]
  cases turnedOn <;> simp [records_removeInheritedRoutes, hl.name]

lemma records_updated_self (hk : KidsOnce R) (hl : Linked R n e)
    (hu : createFibUpdatesForUpdatedRoute R e r r₀ = some calls) :
    records calls (n, g) = visitRecords e (captureAdds R e r r₀) (captureRemoves R e r r₀) g := by
  rcases updated_calls hu with ⟨hflags, -, rfl⟩ | ⟨own, hown, rfl⟩
  · simp [captureAdds_of_flags hflags, captureRemoves_of_flags hflags, visitRecords]
  have hown : records own (n, g) = [] := by
    split at hown
    · rw [hown]
      rfl
    · exact records_ownUpdate hown
  rw [records_append, hown, nil_append]
  by_cases hcost : costUpdate e r r₀ = true
  · have hflags := flags_of_costUpdate hcost
    simp [hcost, hl.records_modify hk, captureAdds_of_flags hflags,
      captureRemoves_of_flags hflags, visitRecords]
  rw [if_neg hcost, records_append, childInheritUpdates_eq, hl.records_modify hk,
    nil_append, captureUpdates, captureAdds, captureRemoves, visitRecords]
  cases r₀.isCapture <;> cases r.isCapture <;>
    simp [records_addInheritedRoutes, records_removeInheritedRoutes, hl.records_modify hk, hl.name]

lemma records_erasedRoute_self (hk : KidsOnce R) (hl : Linked R n e) :
    records (createFibUpdatesForErasedRoute R e r off) (n, g) =
      (if r.isCapture = true ∧ off = true ∧ e.getNRoutes ≠ 0 ∧ e.hasFaceId g = false then
        (((R.getAncestorRoutes e).find g).map (some ·.cost)).toList
      else []) ++
      if g = r.faceId ∧ e.hasCapture = false ∧ e.getNRoutes ≠ 0 then
        (((R.getAncestorRoutes e).find r.faceId).map (some ·.cost)).toList
      else [] := by
  have hupd : records (erasedRouteUpdates R e r off) (n, g) =
      if r.isCapture = true ∧ off = true ∧ e.getNRoutes ≠ 0 ∧ e.hasFaceId g = false then
        (((R.getAncestorRoutes e).find g).map (some ·.cost)).toList else [] := by
    rw [erasedRouteUpdates]
    cases r.isChildInherit <;> cases r.isCapture <;> cases off <;>
      by_cases hn : e.getNRoutes = 0 <;>
      simp [hn, hl.records_modify hk, records_addInheritedRoutes, hl.name]
  have hun : records (unblocked R e r) (n, g) =
      if g = r.faceId ∧ e.hasCapture = false ∧ e.getNRoutes ≠ 0 then
        (((R.getAncestorRoutes e).find r.faceId).map (some ·.cost)).toList else [] := by
    rw [unblocked]
    by_cases hb : e.hasCapture = false ∧ e.getNRoutes ≠ 0
    · rw [if_pos (by simpa using hb)]
      cases hf : (R.getAncestorRoutes e).find r.faceId with
      | none => simp
      | some w => simp [(RouteSet.find_eq_some hf).2, hb, hl.name]
    · rw [if_neg (by simpa using hb), if_neg fun hk => hb hk.2]
      rfl
  have heq : createFibUpdatesForErasedRoute R e r off =
      .fibUpdate (.createRemoveUpdate e.name r.faceId) ::
        (erasedRouteUpdates R e r off ++ unblocked R e r) := rfl
  rw [heq, records_fibUpdate, records_append, hupd, hun]

lemma records_erasedCalls_self (hk : KidsOnce R) (hl : Linked R n temp) :
    records (erasedCalls R e temp existing next off last) (n, g) =
      (if existing.isCapture = true ∧ off = true ∧ temp.getNRoutes ≠ 0 ∧
          temp.hasFaceId g = false then
        (((R.getAncestorRoutes temp).find g).map (some ·.cost)).toList
      else []) ++
      if g = existing.faceId ∧ temp.hasCapture = false ∧ temp.getNRoutes ≠ 0 then
        (((R.getAncestorRoutes temp).find existing.faceId).map (some ·.cost)).toList
      else [] := by
  have hlast : records (if last then createFibUpdatesForErasedRibEntry e else []) (n, g) = [] := by
    split
    · rw [createFibUpdatesForErasedRibEntry, records, filterMap_map]
      have hnone : e.inheritedRoutes.filterMap (Call.inheritedRoute? ∘ fun route =>
          .fibUpdate (.createRemoveUpdate e.name route.faceId)) = [] :=
        filterMap_eq_nil_iff.mpr fun _ _ => rfl
      rw [hnone]
      rfl
    · rfl
  unfold erasedCalls
  rw [records_append, records_append, hlast, append_nil, records_erasedRoute_self hk hl]
  cases next with
  | none => simp
  | some b => simp [records_newRoute_self hk hl]

end Erased

/-! The entries that the records are for. -/

lemma mem_traverse {fuel : ℕ} {m : Name C} {k : Call C} (h : R.TreeInv) (hm : m ∈ R.names)
    (hmem : k ∈ traverseSubTree R fuel add rem m) : k.name ∈ R.names ∧ m <+: k.name := by
  induction fuel generalizing add rem m with
  | zero => cases hmem
  | succ fuel ih =>
    rw [traverseSubTree] at hmem
    split at hmem
    · cases hmem
    rcases mem_append.mp hmem with hself | hbelow
    · have hname : k.name = m := by
        by_contra hne
        have hmemo : k ∈ others m (removeInheritedRoutes (R.entries m)
            (rem.filter (!(R.entries m).hasChildInheritOnFaceId ·.faceId)) ++
            addInheritedRoutes (R.entries m)
            (add.filter (!(R.entries m).hasChildInheritOnFaceId ·.faceId))) :=
          mem_filter.mpr ⟨hself, by simpa using hne⟩
        rw [others_append, others_removeInheritedRoutes (h.name_eq m hm),
          others_addInheritedRoutes (h.name_eq m hm)] at hmemo
        cases hmemo
      rw [hname]
      exact ⟨hm, prefix_refl m⟩
    · obtain ⟨d, hd, hk⟩ := mem_flatMap.mp hbelow
      have hkid := (h.kid_iff hm).mp hd
      obtain ⟨hin, hpre⟩ := ih hkid.1 hk
      exact ⟨hin, hkid.2.1.1.trans hpre⟩

lemma mem_modify {k : Call C} (h : R.TreeInv) (hc : ∀ c, c ∈ children ↔ R.Kid n c)
    (hmem : k ∈ modifyChildrensInheritedRoutes R children add rem) :
    k.name ∈ R.names ∧ k.name ≠ n := by
  obtain ⟨d, hd, hk⟩ := mem_flatMap.mp hmem
  have hkid := (hc d).mp hd
  obtain ⟨hin, hpre⟩ := mem_traverse h hkid.1 hk
  refine ⟨hin, fun he => ?_⟩
  have hlt := hkid.2.1.length_lt
  have hle := hpre.length_le
  rw [he] at hle
  omega

lemma name_ne_of_erasedCalls {temp : RibEntry C} {existing : Route} {next : Option Route}
    {off : Bool} {last : Prop} [Decidable last] {w : RibUpdate C} (hl : Linked R n temp)
    (h0 : temp.getNRoutes = 0)
    (hw : Call.inheritedRoute w ∈ erasedCalls R e temp existing next off last) : w.name ≠ n := by
  have hmod : ∀ add rem, Call.inheritedRoute w ∈
      modifyChildrensInheritedRoutes R temp.children add rem → w.name ≠ n :=
    fun _ _ hm => (mem_modify hl.tree hl.kids hm).2
  rcases mem_append.mp hw with hw | hw
  · rcases mem_append.mp hw with hw | hw
    · rw [createFibUpdatesForErasedRoute, if_neg (by simp [h0]), append_nil,
        erasedRouteUpdates] at hw
      cases hci : existing.isChildInherit <;> cases hcap : existing.isCapture <;>
        simp only [hci, hcap, h0, bne_self_eq_false, Bool.and_false, Bool.and_true,
          Bool.false_eq_true, if_true, if_false, nil_append, mem_cons, reduceCtorEq, false_or,
          not_mem_nil] at hw
      all_goals exact hmod _ _ hw
    · cases next with
      | none => cases hw
      | some b =>
        rcases mem_append.mp hw with hw | hw
        · exact hmod _ _ hw
        · split at hw <;> simp at hw
  · split at hw
    · simp [createFibUpdatesForErasedRibEntry] at hw
    · cases hw

end FibUpdater

def Rib.Unrecorded (R : Rib C) (n : Name C) (g : FaceId) : Prop :=
  ∀ x, R.Heir n g x → (R.entries x).hasInheritedRoute g = false

def Rib.Hidden (R : Rib C) (n : Name C) (g : FaceId) : Prop :=
  ∀ x, R.Heir n g x → (R.entries x).hasFaceId g = true

namespace RibUpdate

/-- A handed-down route meets no record on its face, unless CAPTURE withdraws that; the routes
from above that come with it meet none either. -/
structure NewEntryRecords (u : RibUpdate C) (R : Rib C) : Prop where
  route : u.route.isChildInherit = true →
    u.route.isCapture = true ∧ R.handedDown u.route.faceId u.name ≠ none ∨
      R.Unrecorded u.name u.route.faceId
  above : u.route.isChildInherit = true → u.route.isCapture = false → ∀ g ≠ u.route.faceId,
    R.handedDown g u.name ≠ none → R.Unrecorded u.name g

structure NewRouteRecords (u : RibUpdate C) (R : Rib C) : Prop where
  own : (R.entries u.name).hasInheritedRoute u.route.faceId = false
  route : Undercuts u.route u.route.faceId (R.entries u.name).routes →
    ((R.entries u.name).hasCapture = false ∧ u.route.isCapture = true ∧
      R.handedDown u.route.faceId u.name ≠ none) ∨ R.Unrecorded u.name u.route.faceId

/-- A route that is handed down anew or with another cost meets no record. Where CAPTURE ends,
the routes from above meet none, nor one that the same update has just added. -/
structure UpdatedRecords (u : RibUpdate C) (R : Rib C) (existing : Route) : Prop where
  route : existing.isChildInherit = false ∨
      (u.route.cost ≠ existing.cost ∧ u.route.flags = existing.flags) →
    Undercuts u.route u.route.faceId ((R.entries u.name).updateRoute u.route).routes →
    R.Unrecorded u.name u.route.faceId
  above : existing.isCapture = true → u.route.isCapture = false → ∀ g,
    R.handedDown g u.name ≠ none →
      (R.entries u.name).hasInheritedRoute g = false ∧ R.Unrecorded u.name g
  both : existing.isCapture = true → u.route.isCapture = false →
    R.handedDown u.route.faceId u.name ≠ none →
    (existing.isChildInherit = true ∧ u.route.isChildInherit = false) ∨
      (existing.isChildInherit = false ∧
        Undercuts u.route u.route.faceId ((R.entries u.name).updateRoute u.route).routes) →
    R.Hidden u.name u.route.faceId

structure ErasedRecords (u : RibUpdate C) (R : Rib C) (existing : Route) (temp : RibEntry C)
    (off : Bool) : Prop where
  /-- The routes from above meet no record of the entry, and what the erased route was hiding
  is recorded only once. -/
  own : existing.isCapture = true → off = true → temp.routes ≠ [] → ∀ g ≠ u.route.faceId,
    R.handedDown g u.name ≠ none → (R.entries u.name).hasInheritedRoute g = false
  unblocked : temp.hasCapture = false → temp.routes ≠ [] →
    R.handedDown u.route.faceId u.name ≠ none →
    temp.hasFaceId u.route.faceId = false ∧ (existing.isCapture = true → off = false)
  /-- Below the entry they meet none but those that the erased route left. -/
  above : Reopens temp existing off → ∀ g, R.handedDown g u.name ≠ none →
    (g = u.route.faceId → existing.isChildInherit = false) → R.Unrecorded u.name g
  /-- Nor does the route that comes second. -/
  next : ∀ b, (R.entries u.name).SecondLowest u.route.faceId b →
    Undercuts b u.route.faceId temp.routes →
    (existing.isChildInherit = false → R.Unrecorded u.name u.route.faceId) ∧
      (Reopens temp existing off → R.handedDown u.route.faceId u.name ≠ none →
        R.Hidden u.name u.route.faceId)

structure KeepsRecords (u : RibUpdate C) (R : Rib C) : Prop where
  newEntry : u.action = .register → u.name ∉ R.names → u.NewEntryRecords R
  newRoute : u.action = .register → u.name ∈ R.names →
    (R.entries u.name).findRoute u.route = none → u.NewRouteRecords R
  updated : u.action = .register → ∀ existing, u.Existing R existing → u.UpdatedRecords R existing
  erased : u.action ≠ .register → ∀ existing, u.Existing R existing →
    u.ErasedRecords R existing ((R.entries u.name).eraseRoute u.route)
      ((R.entries u.name).hasCapture && !((R.entries u.name).eraseRoute u.route).hasCapture)

lemma KeepsRecords.of_new (ha : u.action = .register) (hn : u.name ∉ R.names)
    (h : u.NewEntryRecords R) : u.KeepsRecords R where
  newEntry _ _ := h
  newRoute _ hm := absurd hm hn
  updated _ _ hex := absurd hex.1 hn
  erased hr := absurd ha hr

end RibUpdate

namespace RibState

/-! The entries below: what a batch does to their records is in order. -/

def Takes (R : Rib C) (n : Name C) (g : FaceId) (add rem add' rem' : RouteSet) : Prop :=
  ∀ x, R.Heir n g x → (R.entries x).hasFaceId g = false →
    Orderly ((R.entries x).hasInheritedRoute g)
      (visitRecords (R.entries x) add rem g ++ visitRecords (R.entries x) add' rem' g)

lemma takes_newEntry (h : R.TreeInv) (hk : u.NewEntryRecords R) :
    Takes R u.name g (newEntryAdds (R.getAncestorRoutesOfName u.name) u.route)
      (newEntryRemoves (R.getAncestorRoutesOfName u.name) u.route) {} {} := by
  obtain ⟨hsome, -⟩ := ancestorRoutesOfName_spec (g := g) (n := u.name) h
  intro x hx hown
  refine orderly_visits hown (fun ha hi => ?_) (by simp) (by simp)
  rw [find_newEntryAdds] at ha
  split at ha
  next hci =>
    split at ha
    next hg =>
      subst hg
      rcases hk.route hci with ⟨hcap, habove⟩ | hun
      · rw [newEntryRemoves, if_pos hcap, hsome]
        exact isSome_iff_ne_none.mpr habove
      · rw [hun x hx] at hi
        cases hi
    next hg =>
      split at ha
      · cases ha
      rename_i hcap
      rw [hsome] at ha
      rw [hk.above hci (by simpa using hcap) g hg (isSome_iff_ne_none.mp ha) x hx] at hi
      cases hi
  · cases ha

lemma takes_newRoute (h : R.TreeInv) (hn : u.name ∈ R.names) (hk : u.NewRouteRecords R) :
    Takes R u.name g (newRouteAdds (R.entries u.name) u.route)
      (if !(R.entries u.name).hasCapture && u.route.isCapture then
        R.getAncestorRoutes (R.entries u.name) else {}) {} {} := by
  obtain ⟨hsome, -⟩ := ancestorRoutes_spec (g := g) (linked h hn)
  intro x hx hown
  refine orderly_visits hown (fun ha hi => ?_) (by simp) (by simp)
  rcases find_newRouteAdds (e := R.entries u.name) with ⟨-, hu⟩ | ⟨hnone, -⟩
  · obtain rfl : g = u.route.faceId := hu.1
    rcases hk.route hu with ⟨hcap, hcap', habove⟩ | hun
    · rw [if_pos (by simp [hcap, hcap']), hsome]
      exact isSome_iff_ne_none.mpr habove
    · rw [hun x hx] at hi
      cases hi
  · rw [hnone] at ha
    cases ha

omit [LinearOrder C] in
lemma of_updatedAdds (h : ((updatedAdds R e r r₀).find g).isSome = true) :
    g = r.faceId ∧ ((r₀.isChildInherit = true ∧ r.isChildInherit = false) ∨
      Undercuts r r.faceId e.routes ∧ (r₀.isChildInherit = false ∨
        (r.cost ≠ r₀.cost ∧ r.flags = r₀.flags))) := by
  have hg : g = r.faceId := by
    by_contra hne
    rw [find_updatedAdds_of_ne hne] at h
    cases h
  refine ⟨hg, ?_⟩
  have hcheap : r.isChildInherit = true →
      notDearer r (e.getRouteWithLowestCostAndChildInheritByFaceId r.faceId) = true →
      Undercuts r r.faceId e.routes :=
    fun hci hd => ⟨rfl, hci, (notDearer_iff lowestChildInherit_cost).mp hd⟩
  rw [updatedAdds] at h
  split at h
  next hcost =>
    simp only [costUpdate, Bool.and_eq_true, bne_iff_ne, beq_iff_eq] at hcost
    exact .inr ⟨hcheap hcost.2 hcost.1.1.2, .inr ⟨hcost.1.1.1, hcost.1.2⟩⟩
  rw [childInheritAdds] at h
  split at h
  next hci =>
    simp only [Bool.and_eq_true, Bool.not_eq_true'] at hci
    split at h
    next hd =>
      exact .inr ⟨hcheap hci.2 hd, .inl hci.1⟩
    · cases h
  · split at h
    next hci =>
      exact .inl (by simpa using hci)
    · cases h

lemma takes_updated {existing : Route} (h : R.TreeInv) (hn : u.name ∈ R.names)
    (hk : u.UpdatedRecords R existing) :
    Takes R u.name g (updatedAdds R ((R.entries u.name).updateRoute u.route) u.route existing)
      (updatedRemoves u.route existing)
      (captureAdds R ((R.entries u.name).updateRoute u.route) u.route existing)
      (captureRemoves R ((R.entries u.name).updateRoute u.route) u.route existing) := by
  obtain ⟨hsome, -⟩ := ancestorRoutes_spec (g := g) ((linked h hn).updateRoute u.route)
  intro x hx hown
  refine orderly_visits hown (fun ha hi => ?_) (fun hi hr hr' => ?_) fun ha' => ?_
  · obtain ⟨rfl, ⟨hci₀, hci⟩ | ⟨hu, hnew⟩⟩ := of_updatedAdds ha
    · simp [updatedRemoves, hci₀, hci]
    · rw [hk.route hnew hu x hx] at hi
      cases hi
  · -- CHILD_INHERIT and CAPTURE change at once: the route from above is withdrawn again
    rw [updatedRemoves] at hr
    split at hr
    next hci =>
      rw [Bool.and_eq_true, Bool.not_eq_true'] at hci
      have hg : u.route.faceId = g := by
        by_contra hne
        simp [hne] at hr
      subst hg
      rw [captureRemoves] at hr'
      split at hr'
      · rw [find_inheritOff hci.1 hci.2, isSome_or, hr', Bool.or_true]
      · cases hr'
    · cases hr
  rw [captureAdds] at ha'
  split at ha'
  next hcap =>
    rw [Bool.and_eq_true, Bool.not_eq_true'] at hcap
    rw [hsome] at ha'
    have habove := isSome_iff_ne_none.mp ha'
    refine ⟨Bool.eq_false_iff.mpr fun ha => ?_, fun hi => ?_⟩
    · obtain ⟨rfl, hcase⟩ := of_updatedAdds ha
      have hhidden : R.Hidden u.name u.route.faceId := by
        refine hk.both hcap.1 hcap.2 habove ?_
        rcases hcase with hends | ⟨hu, hci₀ | ⟨-, hflags⟩⟩
        · exact .inl hends
        · exact .inr ⟨hci₀, hu⟩
        have hsame := isCapture_congr hflags
        rw [hcap.1, hcap.2] at hsame
        cases hsame
      rw [hhidden x hx] at hown
      cases hown
    · rw [(hk.above hcap.1 hcap.2 g habove).2 x hx] at hi
      cases hi
  · cases ha'

lemma takes_erased {existing : Route} {off : Bool} {next : Option Route} {temp : RibEntry C}
    (hl : Linked R u.name temp) (hface : existing.faceId = u.route.faceId)
    (hnext : ∀ b, next = some b → (R.entries u.name).SecondLowest u.route.faceId b)
    (hk : u.ErasedRecords R existing temp off) :
    Takes R u.name g (erasedAdds R temp existing off) (erasedRemoves existing)
      (next.elim {} (newRouteAdds temp)) {} := by
  obtain ⟨hsome, -⟩ := ancestorRoutes_spec hl
  have hremoved : g = u.route.faceId → existing.isChildInherit = true →
      ((erasedRemoves existing).find g).isSome = true := by
    intro hg hci
    simp [erasedRemoves, hci, hface, hg]
  have hadds : ((erasedAdds R temp existing off).find g).isSome = true →
      Reopens temp existing off ∧ R.handedDown g u.name ≠ none := by
    intro ha
    rcases find_erasedAdds R temp existing off g with ⟨hre, hfind⟩ | ⟨-, hfind⟩
    · rw [hfind, hsome] at ha
      exact ⟨hre, isSome_iff_ne_none.mp ha⟩
    · rw [hfind] at ha
      cases ha
  intro x hx hown
  refine orderly_visits hown (fun ha hi => ?_) (by simp) fun ha' => ?_
  · obtain ⟨hre, habove⟩ := hadds ha
    by_cases hrem : g = u.route.faceId ∧ existing.isChildInherit = true
    · exact hremoved hrem.1 hrem.2
    · rw [hk.above hre g habove (fun hg => by simpa [hg] using hrem) x hx] at hi
      cases hi
  cases hb : next with
  | none =>
    rw [hb] at ha'
    cases ha'
  | some b =>
    rw [hb] at ha'
    rcases find_newRouteAdds (e := temp) with ⟨-, hu⟩ | ⟨hfind, -⟩
    · obtain rfl : g = u.route.faceId := hu.1.trans (hnext b hb).2.1
      obtain ⟨hun, hhidden⟩ := hk.next b (hnext b hb) hu
      refine ⟨Bool.eq_false_iff.mpr fun ha => ?_, fun hi => ?_⟩
      · obtain ⟨hre, habove⟩ := hadds ha
        rw [hhidden hre habove x hx] at hown
        cases hown
      cases hci : existing.isChildInherit with
      | true => exact hremoved rfl hci
      | false =>
        rw [hun hci x hx] at hi
        cases hi
    · change ((newRouteAdds _ b).find g).isSome = true at ha'
      rw [hfind] at ha'
      cases ha'

lemma Batch.visits (hb : Batch nth R u calls c) (h : R.TreeInv) (honce : KidsOnce R)
    (hk : u.KeepsRecords R) (hnodup : u.name ∈ R.names → (R.entries u.name).routes.Nodup) :
    calls = [] ∨ ∃ children add rem add' rem', Visits R u.name calls children add rem add' rem' ∧
      ∀ g, Takes R u.name g add rem add' rem' := by
  cases hb with
  | newEntry ha hn =>
    exact .inr ⟨_, _, _, _, _, visits_newEntry h hn, fun g => takes_newEntry h (hk.newEntry ha hn)⟩
  | newRoute ha hn hf =>
    exact .inr ⟨_, _, _, _, _, visits_newRoute honce (linked h hn),
      fun g => takes_newRoute h hn (hk.newRoute ha hn hf)⟩
  | updated ha hn hf hu =>
    exact .inr ⟨_, _, _, _, _, visits_updated honce ((linked h hn).updateRoute u.route) hu,
      fun g => takes_updated h hn (hk.updated ha _ ⟨hn, hf⟩)⟩
  | erased ha hn hf =>
    exact .inr ⟨_, _, _, _, _,
      visits_erased honce (h.name_eq _ hn) ((linked h hn).eraseRoute u.route),
      fun g => takes_erased ((linked h hn).eraseRoute u.route) (RibEntry.mem_of_findRoute hf).2.1
        (fun b hb => secondLowest_spec (hnodup hn) hb) (hk.erased ha.not_register _ ⟨hn, hf⟩)⟩
  | nothing => exact .inl rfl

/-- The records of a name for a face, as one value: there is at most one, and none beside own
routes; the nexthop is that of the record. -/
structure RecordSlot (R : Rib C) (x : Name C) (g : FaceId) (fib o : Option ℕ) : Prop where
  isSome : o.isSome = hadRecord R x g
  own : x ∈ R.names → (R.entries x).hasFaceId g = true → o = none
  nexthop : x ∈ R.names → (R.entries x).hasFaceId g = false → fib = o
  absent : x ∉ R.names → fib = none

/-- What a batch makes of such a value: it can be made, and record and nexthop agree again if
no own route hides them. -/
structure KeepsSlot (calls : List (Call C)) (x : Name C) (g : FaceId) (hidden : Bool)
    (fib o : Option ℕ) : Prop where
  orderly : Orderly o.isSome (records calls (x, g))
  own : hidden = true → (records calls (x, g)).getLast?.getD o = none
  nexthop : hidden = false →
    (pending calls (x, g)).getD fib = (records calls (x, g)).getLast?.getD o

lemma RecordSlot.eq_none {fib o : Option ℕ} (hs : RecordSlot R x g fib o)
    (h : hadRecord R x g = false) : o = none := by
  simpa [h] using hs.isSome

lemma RecordSlot.hasInheritedRoute {fib o : Option ℕ} (hs : RecordSlot R x g fib o)
    (hx : x ∈ R.names) : o.isSome = (R.entries x).hasInheritedRoute g := by
  rw [hs.isSome, hadRecord, decide_eq_true hx, Bool.true_and]

lemma Batch.keepsSlot_other {fib o : Option ℕ} (hb : Batch nth R u calls c) (h : R.TreeInv)
    (honce : KidsOnce R) (hk : u.KeepsRecords R)
    (hnodup : u.name ∈ R.names → (R.entries u.name).routes.Nodup) (hxn : x ≠ u.name)
    (hx : x ∈ R.names) (hs : RecordSlot R x g fib o) :
    KeepsSlot calls x g ((R.entries x).hasFaceId g) fib o := by
  have hsome := hs.hasInheritedRoute hx
  -- without a script nothing happens
  have hidle : records calls (x, g) = [] →
      pending calls (x, g) = (records calls (x, g)).getLast? →
      KeepsSlot calls x g ((R.entries x).hasFaceId g) fib o := by
    intro hnil hsc
    refine ⟨by simp [hnil], fun hown => ?_, fun hown => ?_⟩
    · simp [hnil, hs.own hx hown]
    · simp [hnil, hsc, hs.nexthop hx hown]
  rcases hb.visits h honce hk hnodup with rfl | ⟨children, add, rem, add', rem', hv, htakes⟩
  · exact hidle rfl rfl
  have hsc := hv.nexthop (g := g) hxn
  by_cases hheir : R.Heir u.name g x
  · have hrec := hv.records_heir h honce hheir hxn
    cases hown : (R.entries x).hasFaceId g with
    | true =>
      have hno : (R.entries x).hasInheritedRoute g = false := by
        rw [← hsome, hs.own hx hown]
        rfl
      rw [visitRecords_of_own hown hno, visitRecords_of_own hown hno] at hrec
      exact hown ▸ hidle hrec hsc
    | false =>
      refine ⟨?_, fun hf => absurd hf Bool.false_ne_true, fun _ => ?_⟩
      · rw [hrec, hsome]
        exact htakes g x hheir hown
      · rw [hsc, hs.nexthop hx hown]
  · exact hidle (hv.records_other h honce hheir hxn) hsc

lemma Batch.silent_other (hb : Batch nth R u calls c) (h : R.TreeInv) (honce : KidsOnce R)
    (hk : u.KeepsRecords R) (hnodup : u.name ∈ R.names → (R.entries u.name).routes.Nodup)
    (hxn : x ≠ u.name) (hx : x ∉ R.names) :
    records calls (x, g) = [] ∧ pending calls (x, g) = none := by
  rcases hb.visits h honce hk hnodup with rfl | ⟨children, add, rem, add', rem', hv, -⟩
  · exact ⟨rfl, rfl⟩
  have hrec := hv.records_other (g := g) h honce (fun hh => hx hh.1) hxn
  have hsc := hv.nexthop (g := g) hxn
  rw [hrec] at hsc
  exact ⟨hrec, hsc⟩

/-! The entry that the batch is about. -/

lemma keepsSlot_newEntry {fib o : Option ℕ} (h : R.TreeInv) (honce : KidsOnce R)
    (hn : u.name ∉ R.names) (hs : RecordSlot R u.name g fib o) :
    KeepsSlot (createFibUpdatesForNewRibEntry R u.name u.route
        ((R.findDescendantsForNonInsertedName u.name).filter fun d =>
          (R.entries d).parent = R.findParent u.name))
      u.name g (u.route.faceId == g) fib o := by
  have hv := visits_newEntry (r := u.route) h hn
  obtain rfl : o = none := hs.eq_none (by simp [hadRecord, hn])
  have hrec := records_newEntry_self (r := u.route) (g := g) h honce hv.nodup hv.kids
  have hpend := pending_newEntry_self (r := u.route) (g := g) h hv.kids
  by_cases hg : g = u.route.faceId
  · rw [if_neg fun hc => hc.1 hg] at hrec
    refine ⟨by simp [hrec], fun _ => by simp [hrec], fun hne => ?_⟩
    simp [hg] at hne
  cases hcap : u.route.isCapture with
  | true =>
    rw [if_neg (by simp [hcap])] at hrec
    rw [if_neg hg, if_pos hcap] at hpend
    exact ⟨by simp [hrec], fun _ => by simp [hrec], fun _ => by simp [hrec, hpend, hs.absent hn]⟩
  | false =>
    rw [if_pos ⟨hg, hcap⟩] at hrec
    rw [if_neg hg, if_neg (by simp [hcap])] at hpend
    refine ⟨?_, fun he => ?_, fun _ => ?_⟩
    · rw [hrec]
      cases (R.getAncestorRoutesOfName u.name).find g <;> simp [Orderly]
    · exact absurd (beq_iff_eq.mp he).symm hg
    · rw [hrec, hpend, hs.absent hn]
      cases (R.getAncestorRoutesOfName u.name).find g <;> rfl

lemma keepsSlot_newRoute {fib o : Option ℕ} (h : R.TreeInv) (honce : KidsOnce R)
    (hn : u.name ∈ R.names) (hf : (R.entries u.name).findRoute u.route = none)
    (hk : u.NewRouteRecords R) (hs : RecordSlot R u.name g fib o) :
    KeepsSlot (createFibUpdatesForNewRoute R (R.entries u.name) u.route
        (!(R.entries u.name).hasCapture && u.route.isCapture)) u.name g
      (((R.entries u.name).insertRoute u.route).routes.any (·.faceId == g)) fib o := by
  have hsome := hs.hasInheritedRoute hn
  rw [RibEntry.insertRoute_of_new hf, any_append]
  generalize (!(R.entries u.name).hasCapture && u.route.isCapture) = on
  have hrec : records (createFibUpdatesForNewRoute R (R.entries u.name) u.route on) (u.name, g) =
      _ := records_newRoute_self honce (linked h hn)
  have hpend : pending (createFibUpdatesForNewRoute R (R.entries u.name) u.route on) (u.name, g) =
      _ := pending_newRoute_self (linked h hn)
  refine ⟨?_, fun hown => ?_, fun hown => ?_⟩
  · rw [hrec, hsome]
    split
    next hrem =>
      exact ⟨hrem.2.1, trivial⟩
    · trivial
  · -- beside an own route there is no record
    have hnone : o = none := by
      rcases Bool.or_eq_true_iff.mp hown with hown | hown
      · exact hs.own hn hown
      have hg : u.route.faceId = g := by simpa using hown
      have := hk.own
      rw [hg, ← hsome] at this
      simpa using this
    rw [hrec, if_neg fun hrem => ?_, hnone]
    · rfl
    · rw [← hsome, hnone] at hrem
      exact absurd hrem.2.1 Bool.false_ne_true
  · obtain ⟨hold, hnew⟩ := Bool.or_eq_false_iff.mp hown
    have hg : g ≠ u.route.faceId := by
      rintro rfl
      simp at hnew
    rw [hpend, hrec, if_neg fun hc => hg hc.1, none_or, hs.nexthop hn hold]
    split <;> rfl

lemma keepsSlot_updated {fib o : Option ℕ} {existing : Route} (h : R.TreeInv)
    (honce : KidsOnce R) (hn : u.name ∈ R.names)
    (hf : (R.entries u.name).findRoute u.route = some existing)
    (hu : createFibUpdatesForUpdatedRoute R ((R.entries u.name).updateRoute u.route) u.route
      existing = some calls)
    (hk : u.UpdatedRecords R existing) (hs : RecordSlot R u.name g fib o) :
    KeepsSlot calls u.name g
      (((R.entries u.name).updateRoute u.route).routes.any (·.faceId == g)) fib o := by
  have hsome := hs.hasInheritedRoute hn
  have hsame := RibEntry.hasFaceId_updateRoute (g := g) hf
  have hlink := (linked h hn).updateRoute u.route
  have hrec := records_updated_self (g := g) honce hlink hu
  obtain ⟨own, hown, hpend⟩ := pending_updated_self (g := g) hlink hu
  change KeepsSlot calls u.name g (((R.entries u.name).updateRoute u.route).hasFaceId g) fib o
  cases hface : ((R.entries u.name).updateRoute u.route).hasFaceId g with
  | true =>
    obtain rfl : o = none := hs.own hn (hsame ▸ hface)
    rw [visitRecords_of_own hface hsome.symm] at hrec
    exact ⟨by simp [hrec], fun _ => by simp [hrec], fun hc => absurd hc.symm Bool.false_ne_true⟩
  | false =>
    have hg : g ≠ u.route.faceId := by
      rintro rfl
      rw [hsame, RibEntry.hasFaceId_of_findRoute hf] at hface
      cases hface
    have hidle : pending own (u.name, g) = none := pending_own_of_ne (by simp [hg]) hown
    obtain ⟨habove, -⟩ := ancestorRoutes_spec hlink
    refine ⟨?_, fun hc => absurd hc Bool.false_ne_true, fun _ => ?_⟩
    · rw [hrec, hsome]
      refine orderly_visit hface fun ha hi => ?_
      rw [captureAdds] at ha
      split at ha
      next hcap =>
        rw [Bool.and_eq_true, Bool.not_eq_true'] at hcap
        rw [habove] at ha
        have hno := (hk.above hcap.1 hcap.2 g (isSome_iff_ne_none.mp ha)).1
        cases hno.symm.trans hi
      · cases ha
    · rw [hrec, getLast?_visitRecords, hpend, hidle, or_none, hs.nexthop hn (hsame ▸ hface)]
      rfl

section Erased

variable {fib o : Option ℕ} {temp : RibEntry C} {existing : Route} {off : Bool}
  {next : Option Route} {last : Prop} [Decidable last]

lemma keepsSlot_erased_self (honce : KidsOnce R) (hl : Linked R u.name temp)
    (hname : (R.entries u.name).name = u.name)
    (hf : (R.entries u.name).findRoute u.route = some existing)
    (hoff : off = ((R.entries u.name).hasCapture && !temp.hasCapture)) (hlast : ¬ last)
    (hnext : temp.hasFaceId u.route.faceId = false → next = none) (hne : temp.routes ≠ [])
    (hk : u.ErasedRecords R existing temp off) (hs : RecordSlot R u.name u.route.faceId fib o) :
    KeepsSlot (erasedCalls R (R.entries u.name) temp existing next off last) u.name
      u.route.faceId (temp.hasFaceId u.route.faceId) fib o := by
  obtain ⟨-, hface, -⟩ := RibEntry.mem_of_findRoute hf
  obtain ⟨habove, -⟩ := ancestorRoutes_spec (g := u.route.faceId) hl
  have hlen : temp.getNRoutes ≠ 0 := fun h0 => hne (length_eq_zero_iff.mp h0)
  obtain rfl : o = none := hs.own hl.mem (RibEntry.hasFaceId_of_findRoute hf)
  have hrec : records (erasedCalls R (R.entries u.name) temp existing next off last)
      (u.name, u.route.faceId) = _ := records_erasedCalls_self honce hl
  have hpend : pending (erasedCalls R (R.entries u.name) temp existing next off last)
      (u.name, u.route.faceId) = _ := pending_erasedCalls_self hname hl
  rw [if_neg fun hc => hlast hc.1, none_or, hface] at hpend
  rw [hface] at hrec
  -- either nothing is recorded, or the route from above is, once
  by_cases hopen : temp.hasCapture = false ∧ R.handedDown u.route.faceId u.name ≠ none
  · obtain ⟨hfree, hcap⟩ := hk.unblocked hopen.1 hne hopen.2
    obtain ⟨w, hw⟩ := isSome_iff_exists.mp (habove.trans (isSome_iff_ne_none.mpr hopen.2))
    rw [if_neg fun hc => by simp [hcap hc.1] at hc, if_pos ⟨rfl, hopen.1, hlen⟩, hw] at hrec
    obtain rfl := hnext hfree
    rw [if_pos ⟨rfl, hopen.1, hlen⟩, hw] at hpend
    refine ⟨by simp [hrec, Orderly], fun hown => ?_, fun _ => by simp [hrec, hpend]⟩
    rw [hfree] at hown
    cases hown
  have hshut : temp.hasCapture = false →
      (R.getAncestorRoutes temp).find u.route.faceId = none := by
    intro hc
    have hnone : R.handedDown u.route.faceId u.name = none := by
      by_contra hne
      exact hopen ⟨hc, hne⟩
    rw [hnone] at habove
    simpa using habove
  have hsilent : records (erasedCalls R (R.entries u.name) temp existing next off last)
      (u.name, u.route.faceId) = [] := by
    cases hc : temp.hasCapture with
    | true =>
      simpa [hc, hoff] using hrec
    | false => simpa [hshut hc] using hrec
  refine ⟨by simp [hsilent], fun _ => by simp [hsilent], fun hfree => ?_⟩
  -- the own nexthop is removed, and nothing comes after that
  obtain rfl := hnext hfree
  rw [hsilent, hpend]
  cases hc : temp.hasCapture with
  | true =>
    rw [hc, Bool.not_true, Bool.and_false] at hoff
    simp [hoff]
  | false => simp [hshut hc]

lemma keepsSlot_erased (honce : KidsOnce R) (hl : Linked R u.name temp)
    (hname : (R.entries u.name).name = u.name) (hface : existing.faceId = u.route.faceId)
    (hlast : ¬ last) (hsame : temp.hasFaceId g = (R.entries u.name).hasFaceId g)
    (hnext : ∀ b, next = some b → b.faceId = u.route.faceId) (hne : temp.routes ≠ [])
    (hk : u.ErasedRecords R existing temp off) (hg : g ≠ u.route.faceId)
    (hs : RecordSlot R u.name g fib o) :
    KeepsSlot (erasedCalls R (R.entries u.name) temp existing next off last) u.name g
      (temp.hasFaceId g) fib o := by
  obtain ⟨habove, -⟩ := ancestorRoutes_spec hl
  have hrec : records (erasedCalls R (R.entries u.name) temp existing next off last)
      (u.name, g) = _ := records_erasedCalls_self honce hl
  have hpend : pending (erasedCalls R (R.entries u.name) temp existing next off last)
      (u.name, g) = _ := pending_erasedCalls_self hname hl
  have hother : (next.bind fun b => if g = b.faceId ∧
      notDearer b (temp.getRouteWithLowestCostByFaceId b.faceId) = true then
        some (some b.cost) else none) = none :=
    bind_eq_none_iff.mpr fun b hb => if_neg fun hc => hg (hc.1.trans (hnext b hb))
  rw [if_neg fun hc => hlast hc.1, none_or, hother, none_or, hface,
    if_neg fun hc => hg hc.1, none_or, if_neg hg, or_none] at hpend
  rw [hface, if_neg (c := g = _ ∧ _) fun hc => hg hc.1, append_nil] at hrec
  refine ⟨?_, fun hown => ?_, fun hown => ?_⟩
  · rw [hrec]
    split
    next hact =>
      cases hw : (R.getAncestorRoutes temp).find g with
      | none => trivial
      | some w =>
        have hno : (R.entries u.name).hasInheritedRoute g = false := by
          refine hk.own hact.1 hact.2.1 hne g hg ?_
          rw [← isSome_iff_ne_none, ← habove, hw]
          rfl
        exact ⟨(hs.hasInheritedRoute hl.mem).trans hno, trivial⟩
    · trivial
  · rw [hrec, if_neg (by simp [hown]), hs.own hl.mem (hsame ▸ hown)]
    rfl
  rw [hpend, hrec, hs.nexthop hl.mem (hsame ▸ hown)]
  split
  · cases (R.getAncestorRoutes temp).find g <;> rfl
  · rfl

end Erased

lemma Batch.keepsSlot_self {fib o : Option ℕ} {routes : List Route} {counter : ℕ}
    (hb : Batch nth R u calls c) (h : R.TreeInv) (honce : KidsOnce R) (hk : u.KeepsRecords R)
    (hnodup : u.name ∈ R.names → (R.entries u.name).routes.Nodup)
    (hs : RecordSlot R u.name g fib o) (hc : c = some (routes, counter)) :
    KeepsSlot calls u.name g (routes.any (·.faceId == g)) fib o := by
  cases hb with
  | newEntry ha hn =>
    cases hc
    simpa using keepsSlot_newEntry h honce hn hs
  | newRoute ha hn hf =>
    cases hc
    exact keepsSlot_newRoute h honce hn hf (hk.newRoute ha hn hf) hs
  | updated ha hn hf hu =>
    cases hc
    exact keepsSlot_updated h honce hn hf hu (hk.updated ha _ ⟨hn, hf⟩) hs
  | erased ha hn hf =>
    split at hc
    · cases hc
    rename_i hlen
    cases hc
    have hreg := ha.not_register
    have hlink := (linked h hn).eraseRoute u.route
    have hlast : ¬ (R.entries u.name).getNRoutes = 1 := by
      rw [RibEntry.getNRoutes_eraseRoute hf]
      omega
    have hne : ((R.entries u.name).eraseRoute u.route).routes ≠ [] :=
      fun hnil => hlen (length_eq_zero_iff.mpr hnil)
    by_cases hg : g = u.route.faceId
    · subst hg
      exact keepsSlot_erased_self honce hlink (h.name_eq _ hn) hf rfl hlast
        (no_second (hnodup hn) hf) hne (hk.erased hreg _ ⟨hn, hf⟩) hs
    · exact keepsSlot_erased honce hlink (h.name_eq _ hn) (RibEntry.mem_of_findRoute hf).2.1 hlast
        (RibEntry.hasFaceId_eraseRoute hf hg) (fun b hb => (mem_of_secondLowest hb).2) hne
        (hk.erased hreg _ ⟨hn, hf⟩) hg hs
  | nothing =>
    obtain ⟨hn, ⟨⟩⟩ := content_eq_some hc
    exact ⟨trivial, fun hown => hs.own hn hown, fun hown => hs.nexthop hn hown⟩

end RibState

end NfdGateway
