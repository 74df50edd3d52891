import NfdGateway.Rib.Calls
import NfdGateway.Rib.RouteLookup

/-! The nexthops for the routes that an entry has itself. -/
namespace NfdGateway

open FibUpdater Rib List Option Transition

variable {C : Type} {r : Route}

def onFace (g : FaceId) (r : Route) : Bool := r.faceId == g

namespace RibEntry

def Stale (e : RibEntry C) (g : FaceId) : Prop :=
  e.hasFaceId g = true ∧ e.hasInheritedRoute g = true

def CheapestOrTied (e : RibEntry C) (existing : Route) : Prop :=
  (∀ r ∈ e.routes, r.faceId = existing.faceId → existing.cost ≤ r.cost) ∨
    ∃ a ∈ e.routes, ∃ b ∈ e.routes, a ≠ b ∧ a.faceId = existing.faceId ∧
      b.faceId = existing.faceId ∧ a.cost = b.cost ∧
      ∀ r ∈ e.routes, r.faceId = existing.faceId → a.cost ≤ r.cost

/-- If the old route was cheaper than all routes on the face are now, and the new one is dearer
than the cheapest, then a cheapest one has CHILD_INHERIT. -/
def CheapestInherits (e : RibEntry C) (route existing : Route) : Prop :=
  ∀ m, minCost (onFace route.faceId) e.routes = some m → existing.cost < m → m < route.cost →
    minCost (inheritable route.faceId) e.routes = some m

end RibEntry

lemma hasFaceId_eq_true {e : RibEntry C} {g : FaceId} :
    e.hasFaceId g = true ↔ minCost (onFace g) e.routes ≠ none := by
  simp [RibEntry.hasFaceId, minCost_eq_none_iff, onFace]

lemma lowest_cost {e : RibEntry C} {g : FaceId} :
    (e.getRouteWithLowestCostByFaceId g).map Route.cost = minCost (onFace g) e.routes :=
  lowestCost_cost

lemma lowestChildInherit_cost {e : RibEntry C} {g : FaceId} :
    (e.getRouteWithLowestCostAndChildInheritByFaceId g).map Route.cost =
      minCost (inheritable g) e.routes :=
  lowestCost_cost

lemma notDearer_iff {o : Option Route} {m : Option ℕ} (hm : o.map Route.cost = m) :
    notDearer r o = true ↔ ∀ k, m = some k → r.cost ≤ k := by
  subst hm
  cases o <;> simp [notDearer]

lemma visit_own {e : RibEntry C} {g : FaceId} {add rem : RouteSet} (ho : e.hasFaceId g = true)
    (h : (rem.find g).isSome = true → ¬ e.Stale g) : visit e add rem g = none := by
  have hrem : ¬ (e.hasInheritedRoute g = true ∧ (rem.find g).isSome = true) :=
    fun hr => h hr.2 ⟨ho, hr.1⟩
  simp [visit, ho, hrem]

section SecondLowest

variable {e : RibEntry C} {route existing next : Route} {nth : NthElement} {f : FaceId}

lemma mem_of_secondLowest (h : e.getRouteWithSecondLowestCostByFaceId nth f = some next) :
    next ∈ e.routes ∧ next.faceId = f := by
  rw [RibEntry.getRouteWithSecondLowestCostByFaceId] at h
  split at h
  · cases h
  · have hm := (nth.perm _).mem_iff.mp (mem_of_getElem? h)
    simpa using hm

lemma minCost_of_rearranged {a b : Route} {rest l : List Route}
    (hp : (a :: b :: rest).Perm (existing :: l)) (hab : a.cost ≤ b.cost)
    (hrest : ∀ r ∈ rest, b.cost ≤ r.cost)
    (hc : (∀ r ∈ a :: b :: rest, existing.cost ≤ r.cost) ∨
      ∃ w ∈ existing :: l, ∃ w' ∈ existing :: l, w ≠ w' ∧ w.cost = w'.cost ∧
        ∀ r ∈ existing :: l, w.cost ≤ r.cost) :
    (l.map Route.cost).min? = some b.cost := by
  have hmin : ∀ r ∈ a :: b :: rest, a.cost ≤ r.cost := by
    intro r hr
    rcases mem_cons.mp hr with rfl | hr
    · exact le_rfl
    rcases mem_cons.mp hr with rfl | hr
    · exact hab
    · exact hab.trans (hrest r hr)
  rcases hc with hc | ⟨w, hw, w', hw', hne, hcost, hleast⟩
  · have hea : existing.cost = a.cost :=
      le_antisymm (hc a (by simp)) (hmin existing (hp.mem_iff.mpr (by simp)))
    have hp' : (b.cost :: rest.map Route.cost).Perm (l.map Route.cost) := by
      have := hp.map Route.cost
      rw [map_cons, map_cons, map_cons, hea] at this
      exact this.cons_inv
    refine min?_eq_some_iff.mpr ⟨hp'.mem_iff.mp (by simp), fun k hk => ?_⟩
    rcases mem_cons.mp (hp'.mem_iff.mpr hk) with rfl | hk
    · exact le_rfl
    · obtain ⟨r, hr, rfl⟩ := List.mem_map.mp hk
      exact hrest r hr
  have hwa : w.cost = a.cost :=
    le_antisymm (hleast a (hp.mem_iff.mp (by simp))) (hmin w (hp.mem_iff.mpr hw))
  have hba : b.cost = a.cost := by
    -- one of the two is not `a`, so it is not cheaper than `b`
    have hle : ∀ v ∈ existing :: l, v ≠ a → b.cost ≤ v.cost := fun v hv hva => by
      rcases mem_cons.mp ((mem_cons.mp (hp.mem_iff.mpr hv)).resolve_left hva) with
        rfl | hv
      · exact le_rfl
      · exact hrest v hv
    refine le_antisymm ?_ hab
    by_cases hw1 : w = a
    · exact (hle w' hw' fun h => hne (hw1.trans h.symm)).trans_eq (hcost.symm.trans hwa)
    · exact (hle w hw hw1).trans_eq hwa
  have hmem : ∃ v ∈ l, v.cost = a.cost := by
    rcases mem_cons.mp hw with rfl | hw
    · exact ⟨w', (mem_cons.mp hw').resolve_left hne.symm, hcost.symm.trans hwa⟩
    · exact ⟨w, hw, hwa⟩
  obtain ⟨v, hv, hva⟩ := hmem
  refine min?_eq_some_iff.mpr ⟨?_, fun k hk => ?_⟩
  · exact List.mem_map.mpr ⟨v, hv, hva.trans hba.symm⟩
  obtain ⟨r, hr, rfl⟩ := List.mem_map.mp hk
  rw [hba]
  exact hmin r (hp.mem_iff.mpr (by simp [hr]))

lemma secondLowest_cost (nth : NthElement) (hf : e.findRoute route = some existing)
    (hc : e.CheapestOrTied existing) :
    (e.getRouteWithSecondLowestCostByFaceId nth route.faceId).map Route.cost =
      minCost (onFace route.faceId) (e.eraseRoute route).routes := by
  obtain ⟨l₁, l₂, hl, -, he⟩ := RibEntry.exists_of_findRoute hf
  obtain ⟨-, hface, -⟩ := RibEntry.mem_of_findRoute hf
  have hmatch : (e.routes.filter (·.faceId == route.faceId)).Perm
      (existing :: (l₁ ++ l₂).filter (onFace route.faceId)) := by
    rw [hl, filter_append, filter_cons_of_pos (by simpa using hface), filter_append]
    exact perm_middle
  have hmem : ∀ r, r ∈ e.routes ∧ r.faceId = route.faceId ↔
      r ∈ existing :: (l₁ ++ l₂).filter (onFace route.faceId) := fun r => by
    rw [← hmatch.mem_iff]
    simp
  rw [he, RibEntry.getRouteWithSecondLowestCostByFaceId]
  split
  next hlen =>
    rw [hmatch.length_eq, length_cons] at hlen
    have hnil : (l₁ ++ l₂).filter (onFace route.faceId) = [] := length_eq_zero_iff.mp (by omega)
    rw [minCost, hnil]
    rfl
  rename_i hlen
  have hperm := nth.perm (e.routes.filter (·.faceId == route.faceId))
  rw [← hperm.length_eq] at hlen
  rcases hre : nth.rearrange (e.routes.filter (·.faceId == route.faceId)) with
    _ | ⟨a, _ | ⟨b, rest⟩⟩
  · simp [hre] at hlen
  · simp [hre] at hlen
  obtain ⟨hab, hrest⟩ := nth.second _ a b rest hre
  rw [hre] at hperm
  refine (minCost_of_rearranged (hperm.trans hmatch) hab hrest ?_).symm
  rcases hc with hc | ⟨w, hw, w', hw', hne, hwf, hwf', hcost, hleast⟩
  · refine .inl fun r hr => ?_
    obtain ⟨hr, hrf⟩ := (hmem r).mpr ((hperm.trans hmatch).mem_iff.mp hr)
    exact hc r hr (hrf.trans hface.symm)
  refine .inr ⟨w, (hmem w).mp ⟨hw, hwf.trans hface⟩, w',
    (hmem w').mp ⟨hw', hwf'.trans hface⟩, hne, hcost, fun r hr => ?_⟩
  obtain ⟨hr, hrf⟩ := (hmem r).mpr hr
  exact hleast r hr (hrf.trans hface.symm)

end SecondLowest

lemma updatedRoute_isSome {R : Rib C} {e : RibEntry C} {existing : Route}
    (hf : e.findRoute r = some existing) (hi : (e.updateRoute r).CheapestInherits r existing) :
    (createFibUpdatesForUpdatedRoute R (e.updateRoute r) r existing).isSome = true := by
  obtain ⟨l₁, l₂, -, hup, -⟩ := RibEntry.exists_of_findRoute hf
  have hown : (ownUpdateForUpdatedRoute (e.updateRoute r) r existing).isSome = true := by
    have hmin : ∃ m, minCost (onFace r.faceId) (e.updateRoute r).routes = some m := by
      rw [hup, minCost_middle, minCost_cons, if_pos (by simp [onFace])]
      exact ⟨_, rfl⟩
    obtain ⟨m, hm⟩ := hmin
    obtain ⟨lowest, hlow, rfl⟩ := map_eq_some_iff.mp (lowest_cost.trans hm)
    rw [ownUpdateForUpdatedRoute, hlow, bind_some]
    split
    · rfl
    rename_i hle
    split
    next hlt =>
      obtain ⟨prev, hprev, -⟩ := map_eq_some_iff.mp
        (lowestChildInherit_cost.trans (hi _ hm hlt (lt_of_not_ge hle)))
      rw [hprev]
      rfl
    · rfl
  rw [createFibUpdatesForUpdatedRoute]
  split
  · rfl
  rw [isSome_map]
  split
  · exact hown
  · rfl

variable [LinearOrder C]

namespace RibUpdate

def Existing (u : RibUpdate C) (R : Rib C) (existing : Route) : Prop :=
  u.name ∈ R.names ∧ (R.entries u.name).findRoute u.route = some existing

def CaptureOn (u : RibUpdate C) (R : Rib C) : Prop :=
  u.action = .register ∧ u.route.isCapture = true ∧
    (u.name ∈ R.names → match (R.entries u.name).findRoute u.route with
      | none => (R.entries u.name).hasCapture = false
      | some existing => existing.isCapture = false)

def ChildInheritOff (u : RibUpdate C) (R : Rib C) : Prop :=
  u.action ≠ .removeFace ∧ ∃ existing, u.Existing R existing ∧ existing.isChildInherit = true ∧
    (u.action = .register → u.route.isChildInherit = false)

structure KeepsOwn (u : RibUpdate C) (R : Rib C) : Prop where
  captureSelf : u.CaptureOn R → u.name ∈ R.names → ∀ g, ¬ (R.entries u.name).Stale g
  captureBelow : u.CaptureOn R → ∀ g x, R.Heir u.name g x → ¬ (R.entries x).Stale g
  inheritBelow : u.ChildInheritOff R →
    ∀ x, R.Heir u.name u.route.faceId x → ¬ (R.entries x).Stale u.route.faceId
  updated : u.action = .register → ∀ existing, u.Existing R existing →
    ((R.entries u.name).updateRoute u.route).CheapestInherits u.route existing
  erased : u.action = .unregister → ∀ existing, u.Existing R existing →
    (R.entries u.name).CheapestOrTied existing

lemma keepsOwn_of_plain {u : RibUpdate C} {R : Rib C} (hcap : u.route.isCapture = false)
    (hold : ∀ existing, u.Existing R existing → u.action = .unregister ∧
      existing.isChildInherit = false ∧ (R.entries u.name).CheapestOrTied existing) :
    u.KeepsOwn R where
  captureSelf h := by simp [h.2.1] at hcap
  captureBelow h := by simp [h.2.1] at hcap
  inheritBelow h := by
    obtain ⟨-, existing, hex, hci, -⟩ := h
    simp [(hold existing hex).2.1] at hci
  updated ha existing hex := by simp [(hold existing hex).1] at ha
  erased _ existing hex := (hold existing hex).2.2

end RibUpdate

namespace RibState

/-- On every face that an entry has routes on, except one that is being removed, the FIB has
the nexthop with the lowest cost of these routes. -/
def OwnNexthops (s : RibState C) : Prop :=
  ∀ x ∈ s.rib.names, ∀ g, s.Settled g → (s.rib.entries x).hasFaceId g = true →
    s.fib (x, g) = (((s.rib.entries x).routes.filter (·.faceId == g)).map Route.cost).min?

/-- The batch in progress meets `KeepsOwn`, and a face is destroyed only while no registration for
it waits: the batches that remove its routes would be ahead of a route registered later. -/
def SendsKeepingOwn (s : RibState C) : Event C → Prop
  | .batch => ∀ u us, s.updateBatches = u :: us → u.KeepsOwn s.rib
  | .removeFace f => s.Unregistered f
  | _ => True

section Step

variable {R : Rib C} {nth : NthElement} {u : RibUpdate C} {calls : List (Call C)}
  {c : Option (List Route × ℕ)} {x : Name C} {g : FaceId} {fib : Option ℕ}

lemma Batch.own_other (hb : Batch nth R u calls c) (h : R.TreeInv) (hk : u.KeepsOwn R)
    (hx : x ≠ u.name) (ho : (R.entries x).hasFaceId g = true)
    (hg : u.action = .removeFace → g ≠ u.route.faceId) : pending calls (x, g) = none := by
  cases hb with
  | newEntry ha hn =>
    refine (hands_newEntry h (mem_newChildren h hn)).eq_none hx fun hh => visit_own ho fun hr => ?_
    have hcap : u.route.isCapture = true := by
      by_contra hcap
      simp [newEntryRemoves, hcap] at hr
    exact hk.captureBelow ⟨ha, hcap, fun hm => absurd hm hn⟩ g x hh
  | newRoute ha hn hf =>
    refine (hands_newRoute (linked h hn)).eq_none hx fun hh => visit_own ho fun hr => ?_
    cases hon : !(R.entries u.name).hasCapture && u.route.isCapture with
    | false => simp [hon] at hr
    | true =>
      simp only [Bool.and_eq_true, Bool.not_eq_true'] at hon
      exact hk.captureBelow ⟨ha, hon.2, fun _ => by simp [hf, hon.1]⟩ g x hh
  | @updated ha hn existing hf calls hc =>
    refine (hands_updated ((linked h hn).updateRoute u.route) hc).eq_none hx fun hh => ?_
    refine or_eq_none_iff.mpr ⟨visit_own ho fun hr => ?_, visit_own ho fun hr => ?_⟩
    · rw [captureRemoves] at hr
      split at hr
      next hon =>
        simp only [Bool.and_eq_true, Bool.not_eq_true'] at hon
        exact hk.captureBelow ⟨ha, hon.2, fun _ => by simp [hf, hon.1]⟩ g x hh
      · simp at hr
    rw [updatedRemoves] at hr
    split at hr
    next hoff =>
      simp only [Bool.and_eq_true, Bool.not_eq_true'] at hoff
      obtain rfl : u.route.faceId = g := by
        by_contra hne
        simp [RouteSet.find_single, hne] at hr
      exact hk.inheritBelow ⟨by simp [ha], existing, ⟨hn, hf⟩, hoff.1, fun _ => hoff.2⟩ x hh
    · simp at hr
  | @erased ha hn existing hf =>
    have hl := linked h hn
    refine (hands_erasedCalls hl.name (hl.eraseRoute u.route)).eq_none hx fun hh => ?_
    refine or_eq_none_iff.mpr ⟨?_, visit_own ho fun hr => ?_⟩
    · exact bind_eq_none_iff.mpr fun next _ => visit_own ho (by simp)
    rw [erasedRemoves] at hr
    split at hr
    next hci =>
      have hfe := (RibEntry.mem_of_findRoute hf).2.1
      obtain rfl : existing.faceId = g := by
        by_contra hne
        simp [RouteSet.find_single, hne] at hr
      rw [hfe] at hg hh ⊢
      refine hk.inheritBelow ⟨fun ha => hg ha rfl, existing, ⟨hn, hf⟩, hci, fun hreg => ?_⟩ x hh
      rcases ha with ha | ha <;> simp [ha] at hreg
    · simp at hr
  | nothing => rfl

lemma own_newRoute {e : RibEntry C} {turnedOn : Bool} {n : Name C} (hl : Linked R n e)
    (hfib : minCost (onFace g) e.routes ≠ none → fib = minCost (onFace g) e.routes)
    (hs : turnedOn = true → ¬ e.Stale g) (ho : minCost (onFace g) (e.routes ++ [r]) ≠ none) :
    (pending (createFibUpdatesForNewRoute R e r turnedOn) (n, g)).getD fib =
      minCost (onFace g) (e.routes ++ [r]) := by
  have hkept : minCost (onFace g) e.routes ≠ none → ¬ (turnedOn = true ∧
      e.hasInheritedRoute g = true ∧ ((R.getAncestorRoutes e).find g).isSome = true) :=
    fun hne hr => hs hr.1 ⟨hasFaceId_eq_true.mpr hne, hr.2.1⟩
  have hd := notDearer_iff (r := r) (lowest_cost (e := e) (g := r.faceId))
  rw [pending_newRoute_self hl]
  rw [minCost_middle, append_nil, minCost_cons] at ho ⊢
  by_cases hg : g = r.faceId
  · subst hg
    cases hm : minCost (onFace r.faceId) e.routes with
    | none =>
      rw [hm] at hd
      simp [hd, onFace]
    | some k =>
      rw [hm] at hd hfib hkept
      have hkept := hkept (by simp)
      by_cases hle : r.cost ≤ k
      · simp [hd, hle, onFace]
      · simp [hd, hle, onFace, hkept, hfib, le_of_not_ge hle]
  · have hoff : onFace g r = false := by simpa [onFace] using Ne.symm hg
    simp only [hoff, Bool.false_eq_true, if_false] at ho ⊢
    simp [hg, hkept ho, hfib ho]

lemma own_updated {e : RibEntry C} {existing : Route}
    (hlink : Linked R x e) (hf : e.findRoute r = some existing)
    (hu : createFibUpdatesForUpdatedRoute R (e.updateRoute r) r existing = some calls)
    (hfib : minCost (onFace g) e.routes ≠ none → fib = minCost (onFace g) e.routes)
    (hs : existing.isCapture = false → r.isCapture = true → ¬ e.Stale g)
    (hi : (e.updateRoute r).CheapestInherits r existing)
    (ho : minCost (onFace g) (e.updateRoute r).routes ≠ none) :
    (pending calls (x, g)).getD fib = minCost (onFace g) (e.updateRoute r).routes := by
  obtain ⟨l₁, l₂, hl, hup, -⟩ := RibEntry.exists_of_findRoute hf
  obtain ⟨-, hface, -⟩ := RibEntry.mem_of_findRoute hf
  obtain ⟨own, hown, hp⟩ := pending_updated_self (hlink.updateRoute r) hu
  have hold : minCost (onFace g) e.routes ≠ none := by
    rw [hup, minCost_middle, minCost_cons] at ho
    rw [hl, minCost_middle, minCost_cons]
    by_cases hg : r.faceId = g <;> simp_all [onFace]
  have hcapture : pending calls (x, g) = pending own (x, g) := by
    have hrem : ¬ ((e.updateRoute r).hasInheritedRoute g = true ∧
        ((captureRemoves R (e.updateRoute r) r existing).find g).isSome = true) := by
      rintro ⟨hrec, hr⟩
      rw [captureRemoves] at hr
      split at hr
      next hon =>
        simp only [Bool.and_eq_true, Bool.not_eq_true'] at hon
        exact hs hon.1 hon.2 ⟨hasFaceId_eq_true.mpr hold, hrec⟩
      · simp at hr
    rw [hp, if_neg (by simp [hasFaceId_eq_true.mpr ho]), if_neg hrem]
    rfl
  have hfib := hfib hold
  rw [hl, minCost_middle, minCost_cons] at hfib
  rw [hcapture, hup, minCost_middle, minCost_cons]
  by_cases hg : r.faceId = g
  · subst hg
    rw [if_pos (by simp [onFace, hface])] at hfib
    rw [if_pos (by simp [onFace]), hfib]
    by_cases hcost : r.cost = existing.cost
    · rw [if_pos hcost] at hown
      simp [hown, hcost]
    rw [if_neg hcost] at hown
    obtain ⟨-, lowest, hlow, hpend⟩ := pending_ownUpdate hown
    have hmin : some lowest.cost = minCost (onFace r.faceId) (e.updateRoute r).routes := by
      rw [← lowest_cost, hlow]
      rfl
    have hi := hi lowest.cost hmin.symm
    rw [hup, minCost_middle, minCost_cons, if_pos (by simp [onFace])] at hmin
    have hmin := some.inj hmin
    rw [(hlink.updateRoute r).name] at hpend
    rw [hpend]
    cases hm : minCost (onFace r.faceId) (l₁ ++ l₂) with
    | none =>
      rw [hm] at hmin
      simp [hmin]
    | some k =>
      rw [hm] at hmin
      change lowest.cost = min r.cost k at hmin
      by_cases hle : r.cost ≤ k
      · rw [min_eq_left hle] at hmin
        simp [hmin, hle]
      have hk : k < r.cost := lt_of_not_ge hle
      rw [min_eq_right hk.le] at hmin
      rw [hmin] at hi ⊢
      by_cases hlt : existing.cost < k
      · obtain ⟨prev, hprev, hcp⟩ := map_eq_some_iff.mp (lowestChildInherit_cost.trans (hi hlt hk))
        simp [hle, hlt, hprev, hcp, hk.le]
      · simp [hle, hlt, hk.le, not_lt.mp hlt]
  · have hown : pending own (x, g) = none := pending_own_of_ne (by simp [Ne.symm hg]) hown
    rw [if_neg (by simpa [onFace, hface] using hg)] at hfib
    rw [if_neg (by simpa [onFace] using hg), hown, getD_none, hfib]

lemma own_erased {e : RibEntry C} {existing : Route} {off : Bool}
    (hlink : Linked R x e) (hf : e.findRoute r = some existing)
    (hfib : minCost (onFace g) e.routes ≠ none → fib = minCost (onFace g) e.routes)
    (ht : g = r.faceId → e.CheapestOrTied existing)
    (ho : minCost (onFace g) (e.eraseRoute r).routes ≠ none) :
    (pending (erasedCalls R e (e.eraseRoute r) existing
      (e.getRouteWithSecondLowestCostByFaceId nth r.faceId) off (e.getNRoutes = 1)) (x, g)).getD
        fib = minCost (onFace g) (e.eraseRoute r).routes := by
  obtain ⟨l₁, l₂, hl, -, herase⟩ := RibEntry.exists_of_findRoute hf
  obtain ⟨-, hface, -⟩ := RibEntry.mem_of_findRoute hf
  have hlast : ¬ (e.getNRoutes = 1 ∧ e.hasInheritedRoute g = true) := by
    rintro ⟨h1, -⟩
    rw [RibEntry.getNRoutes_eraseRoute hf] at h1
    have hnil : (e.eraseRoute r).routes = [] := length_eq_zero_iff.mp (Nat.succ.inj h1)
    exact ho (by rw [hnil]; rfl)
  have hlink' := hlink.eraseRoute r
  rw [pending_erasedCalls_self hlink.name hlink', if_neg hlast, none_or]
  by_cases hg : g = r.faceId
  · subst hg
    have hcost := secondLowest_cost nth hf (ht rfl)
    cases hnext : e.getRouteWithSecondLowestCostByFaceId nth r.faceId with
    | none =>
      rw [hnext] at hcost
      exact absurd hcost.symm ho
    | some next =>
      rw [hnext] at hcost
      obtain ⟨-, hnf⟩ := mem_of_secondLowest hnext
      have hd := (notDearer_iff (lowest_cost.trans hcost.symm)).mpr fun k hk => (some.inj hk).le
      simp [hnf, hd, ← hcost]
  · have hnext : ((e.getRouteWithSecondLowestCostByFaceId nth r.faceId).bind fun next =>
        if g = next.faceId ∧ notDearer next
          ((e.eraseRoute r).getRouteWithLowestCostByFaceId next.faceId) = true then
          some (some next.cost) else none) = none :=
      bind_eq_none_iff.mpr fun next hn => by simp [(mem_of_secondLowest hn).2, hg]
    have hkept : minCost (onFace g) e.routes = minCost (onFace g) (e.eraseRoute r).routes := by
      rw [hl, minCost_middle, minCost_cons, herase,
        if_neg (by simpa [onFace, hface] using Ne.symm hg)]
    rw [hnext, ← hkept, ← hfib (hkept ▸ ho)]
    simp [hface, hg, hasFaceId_eq_true.mpr ho]

lemma Batch.own_self (hb : Batch nth R u calls c) (h : R.TreeInv) (hk : u.KeepsOwn R)
    {rs : List Route} {k : ℕ}
    (hfib : u.name ∈ R.names → minCost (onFace g) (R.entries u.name).routes ≠ none →
      fib = minCost (onFace g) (R.entries u.name).routes)
    (hg : u.action = .removeFace → g ≠ u.route.faceId) (hc : c = some (rs, k))
    (ho : minCost (onFace g) rs ≠ none) :
    (pending calls (u.name, g)).getD fib = minCost (onFace g) rs := by
  cases hb with
  | newEntry ha hn =>
    cases hc
    rw [pending_newEntry_self h (mem_newChildren h hn)]
    rw [minCost_cons] at ho ⊢
    by_cases hgf : g = u.route.faceId
    · subst hgf
      simp [onFace, minCost]
    · exact absurd (if_neg (by simpa [onFace] using Ne.symm hgf)) ho
  | newRoute ha hn hf =>
    cases hc
    rw [RibEntry.insertRoute_of_new hf] at ho ⊢
    refine own_newRoute (linked h hn) (hfib hn) (fun hon => ?_) ho
    simp only [Bool.and_eq_true, Bool.not_eq_true'] at hon
    exact hk.captureSelf ⟨ha, hon.2, fun _ => by simp [hf, hon.1]⟩ hn g
  | @updated ha hn existing hf calls hu =>
    cases hc
    exact own_updated (linked h hn) hf hu (hfib hn)
      (fun hoff hon => hk.captureSelf ⟨ha, hon, fun _ => by simp [hf, hoff]⟩ hn g)
      (hk.updated ha existing ⟨hn, hf⟩) ho
  | @erased ha hn existing hf =>
    split at hc
    · cases hc
    cases hc
    refine own_erased (linked h hn) hf (hfib hn) (fun hgf => ?_) ho
    rcases ha with ha | ha
    · exact hk.erased ha existing ⟨hn, hf⟩
    · exact absurd hgf (hg ha)
  | nothing =>
    obtain ⟨hn, ⟨⟩⟩ := content_eq_some hc
    simpa using hfib hn ho

variable {s s' : RibState C}

section

variable (h : s.OwnNexthops) (hsound : Sound s)
include h hsound

lemma OwnNexthops.sent (hrem : Removing s)
    (hs : Sent nth s s' u calls c) (hk : u.KeepsOwn s.rib) : s'.OwnNexthops := by
  intro x hx g hsettled ho
  have hg : u.action = .removeFace → g ≠ u.route.faceId := by
    rintro ha rfl
    obtain ⟨r, hr, hrf⟩ := List.any_eq_true.mp ho
    exact hrem.no_routes hsound hs ha hsettled hx hr (by simpa using hrf)
  have hbefore := hs.settled hsettled hg
  rw [hs.fib, if_neg fun hr => hg hr.1 hr.2]
  rcases hs.changed.entry hx with ⟨rfl, hc⟩ | ⟨hxn, hm, hroutes, -⟩
  · refine hs.batch.own_self hsound.tree hk (fun hn hne => ?_) hg hc (hasFaceId_eq_true.mp ho)
    exact h u.name hn g hbefore (hasFaceId_eq_true.mpr hne)
  have ho : (s.rib.entries x).hasFaceId g = true := by
    rw [RibEntry.hasFaceId, hroutes] at ho
    exact ho
  rw [hs.batch.own_other hsound.tree hk hxn ho hg, getD_none, hroutes]
  exact h x hm g hbefore ho

lemma OwnNexthops.removeFace (f : FaceId) :
    ({ s with fib := dropFace s.fib f }.begin (s.rib.beginRemoveFace f)).OwnNexthops := by
  intro x hx g hsettled ho
  -- every route on the destroyed face has a batch, so the face is not settled
  have hg : g ≠ f := by
    rintro rfl
    obtain ⟨r, hr, hrf⟩ := List.any_eq_true.mp ho
    have hrf : r.faceId = g := by simpa using hrf
    have hmem := mem_beginRemoveFace hsound.mapped hx hr hrf
    exact hsettled _ (mem_append_right _ hmem) rfl hrf
  exact (if_neg hg).trans (h x hx g hsettled.of_begin ho)

lemma OwnNexthops.step (hrem : Removing s) {ev : Event C}
    (hk : s.SendsKeepingOwn ev) (hs : s.step nth ev = some s') :
    s'.OwnNexthops ∧ Removing s' := by
  have hbegin : ∀ batches, (s.begin batches).OwnNexthops :=
    fun batches x hx g hsettled ho => h x hx g hsettled.of_begin ho
  cases ev with
  | register n r | unregister n r =>
    cases hs
    exact ⟨hbegin _, hrem.begin (by simp)⟩
  | removeFace f =>
    cases hs
    exact ⟨h.removeFace hsound f, hrem.removeFace hsound hk⟩
  | batch =>
    obtain ⟨u, calls, c, hsent⟩ := sent_of_send hsound.tree hs
    exact ⟨h.sent hsound hrem hsent (hk u s'.updateBatches hsent.queue), hrem.sent hsound hsent⟩

end

lemma computeUpdates_isSome (hk : u.KeepsOwn R) : (computeUpdates R nth u).isSome = true := by
  rw [computeUpdates, computeUpdate]
  cases ha : u.action with
  | unregister | removeFace => rfl
  | register =>
    dsimp only
    rw [isSome_map, computeUpdatesForRegistration]
    by_cases hn : u.name ∈ R.names
    · rw [find_of_mem hn]
      cases hf : (R.entries u.name).findRoute u.route with
      | none => simp only [hf]; rfl
      | some existing =>
        simp only [hf]
        exact updatedRoute_isSome hf (hk.updated ha existing ⟨hn, hf⟩)
    · rw [find_of_not_mem hn]
      rfl

end Step

/-- In every run that meets the condition, every entry has the nexthops for its own routes, and
the updates of the next batch that meets `KeepsOwn` can be computed. -/
theorem own_nexthops_of_run {nth : NthElement} {s : RibState C}
    (h : Reach (step nth) SendsKeepingOwn {} s) :
    s.OwnNexthops ∧ ∀ u us, s.updateBatches = u :: us → u.KeepsOwn s.rib →
      (computeUpdates s.rib nth u).isSome = true := by
  have hinv : Sound s ∧ s.OwnNexthops ∧ Removing s := by
    refine h.invariant (I := fun s => Sound s ∧ s.OwnNexthops ∧ Removing s)
      ⟨sound_init, fun x hx => absurd hx not_mem_nil, removing_init⟩ ?_
    rintro s ev t ⟨hsound, hown, hrem⟩ hk hs
    exact ⟨hsound.step hs, hown.step hsound hrem hk hs⟩
  exact ⟨hinv.2.1, fun u _ _ hk => computeUpdates_isSome hk⟩

/-- The dearer of two routes on a face is unregistered: the second lowest cost is its own. -/
theorem own_nexthop_lost : ∃ s : RibState ℕ,
    Reach (step .sorting) Any {} s ∧ s.updateBatches = [] ∧
      (s.rib.names = [[1]] ∧ (s.rib.entries [1]).routes = [⟨1, 0, 0, 10, 0⟩]) ∧
      s.fib ([1], 1) = none ∧ ¬ s.OwnNexthops := by
  have hrun : (run (step .sorting) ({} : RibState ℕ)
      [.register [1] ⟨1, 0, 0, 10, 0⟩, .batch, .register [1] ⟨1, 1, 0, 50, 0⟩, .batch,
        .unregister [1] ⟨1, 1, 0, 0, 0⟩, .batch]).map (fun s =>
      (s.updateBatches.length, s.rib.names, (s.rib.entries [1]).routes, s.fib ([1], 1))) =
      some (0, [[1]], [⟨1, 0, 0, 10, 0⟩], none) := by
    decide +kernel
  obtain ⟨s, hs, hview⟩ := map_eq_some_iff.mp hrun
  simp only [Prod.mk.injEq, length_eq_zero_iff] at hview
  obtain ⟨hq, hnames, hroutes, hfib⟩ := hview
  refine ⟨s, reach_of_run .init hs, hq, ⟨hnames, hroutes⟩, hfib, fun h => ?_⟩
  have hown := h [1] (by simp [hnames]) 1 (.of_nil hq 1) (by simp [RibEntry.hasFaceId, hroutes])
  simp [hfib, hroutes] at hown

/-- Two routes are registered one behind the other, and the cheaper one is unregistered. -/
theorem own_nexthops_of_run_cheapest :
    ∃ s : RibState ℕ, s.fib ([1], 1) = some 10 ∧ s.OwnNexthops := by
  have h : ∃ s : RibState ℕ,
      Reach (step .sorting) SendsKeepingOwn {} s ∧ s.fib ([1], 1) = some 10 := by
    refine ⟨_, .step (a := .batch) (.step (a := .batch) (.step (a := .batch)
      (.step (a := .unregister [1] ⟨1, 1, 0, 0, 0⟩) (.step (a := .register [1] ⟨1, 1, 0, 5, 0⟩)
      (.step (a := .register [1] ⟨1, 0, 0, 10, 0⟩) .init trivial rfl) trivial rfl) trivial rfl)
        ?_ rfl) ?_ rfl) ?_ rfl, ?_⟩
    · intro u us h
      cases h
      exact RibUpdate.keepsOwn_of_plain (by decide) fun _ h => absurd h.1 not_mem_nil
    · intro u us h
      cases h
      refine RibUpdate.keepsOwn_of_plain (by decide) fun r hr => ?_
      exact absurd (hr.2.symm.trans rfl) (some_ne_none r)
    · intro u us h
      cases h
      refine RibUpdate.keepsOwn_of_plain (by decide) fun r hr => ?_
      obtain rfl : r = ⟨1, 1, 0, 5, 0⟩ := some.inj (hr.2.symm.trans rfl)
      exact ⟨rfl, by decide, .inl (by decide +kernel)⟩
    · rfl
  obtain ⟨s, hs, hfib⟩ := h
  exact ⟨s, hfib, (own_nexthops_of_run hs).1⟩

end RibState

end NfdGateway
