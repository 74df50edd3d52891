import NfdGateway.Rib.OwnNexthops

/-! When the FIB updates for a registration can be computed: `createFibUpdatesForUpdatedRoute`
reads the cheapest CHILD_INHERIT route of the face without asking whether there is one. -/
namespace NfdGateway

open FibUpdater Rib List Option Transition

variable {C : Type} {e : RibEntry C} {route existing : Route}

/-- The route was cheaper than all others on its face and gets dearer than one of them, and no
route on the face has CHILD_INHERIT afterwards. -/
structure Overtaken (e : RibEntry C) (route existing : Route) : Prop where
  wasCheapest : ∀ r ∈ (e.eraseRoute route).routes, r.faceId = route.faceId → existing.cost < r.cost
  isDearer : ∃ r ∈ (e.eraseRoute route).routes, r.faceId = route.faceId ∧ r.cost < route.cost
  noChildInherit : route.isChildInherit = false
  noneInherits : ∀ r ∈ (e.eraseRoute route).routes, r.faceId = route.faceId →
    r.isChildInherit = false

lemma Overtaken.cost_lt (h : Overtaken e route existing) : existing.cost < route.cost := by
  obtain ⟨r, hr, hface, hlt⟩ := h.isDearer
  exact (h.wasCheapest r hr hface).trans hlt

section

variable (hf : e.findRoute route = some existing)
include hf

lemma mem_updateRoute {r : Route} :
    r ∈ (e.updateRoute route).routes ↔ r = route ∨ r ∈ (e.eraseRoute route).routes := by
  obtain ⟨l₁, l₂, -, hup, her⟩ := RibEntry.exists_of_findRoute hf
  rw [hup, her, mem_append, mem_cons, mem_append]
  tauto

lemma noChildInherit_iff :
    (e.updateRoute route).getRouteWithLowestCostAndChildInheritByFaceId route.faceId = none ↔
      route.isChildInherit = false ∧ ∀ r ∈ (e.eraseRoute route).routes,
        r.faceId = route.faceId → r.isChildInherit = false := by
  rw [← map_eq_none_iff, lowestChildInherit_cost, minCost_eq_none_iff]
  constructor
  · intro h
    have hall : ∀ r ∈ (e.updateRoute route).routes, r.faceId = route.faceId →
        r.isChildInherit = false := by
      intro r hr hface
      simpa [inheritable, hface] using h r hr
    exact ⟨hall route ((mem_updateRoute hf).mpr (.inl rfl)) rfl,
      fun r hr => hall r ((mem_updateRoute hf).mpr (.inr hr))⟩
  · rintro ⟨hroute, hrest⟩ r hr
    rcases (mem_updateRoute hf).mp hr with rfl | hr
    · simp [inheritable, hroute]
    by_cases hface : r.faceId = route.faceId
    · simp [inheritable, hrest r hr hface]
    · simp [inheritable, hface]

lemma ownUpdate_eq_none_iff :
    ownUpdateForUpdatedRoute (e.updateRoute route) route existing = none ↔
      Overtaken e route existing := by
  have hrest : ∀ r ∈ (e.eraseRoute route).routes, r ∈ (e.updateRoute route).routes :=
    fun r hr => (mem_updateRoute hf).mpr (.inr hr)
  -- the updated route itself is on the face, so there is a cheapest one
  obtain ⟨lowest, hlow⟩ : ∃ lowest,
      (e.updateRoute route).getRouteWithLowestCostByFaceId route.faceId = some lowest := by
    cases hlow : (e.updateRoute route).getRouteWithLowestCostByFaceId route.faceId with
    | none =>
      have hnone := lowest_cost (e := e.updateRoute route) (g := route.faceId)
      rw [hlow, map_none, eq_comm, minCost_eq_none_iff] at hnone
      simpa [onFace] using hnone route ((mem_updateRoute hf).mpr (.inl rfl))
    | some lowest => exact ⟨lowest, rfl⟩
  have hmin := lowest_cost (e := e.updateRoute route) (g := route.faceId)
  rw [hlow, map_some, eq_comm, minCost_eq_some_iff] at hmin
  obtain ⟨⟨w, hw, hwface, hwcost⟩, hle⟩ := hmin
  simp only [onFace, beq_iff_eq] at hwface hle
  rw [ownUpdateForUpdatedRoute, hlow, bind_some]
  split
  next hcheap =>
    refine iff_of_false (by simp) fun h => ?_
    obtain ⟨r, hr, hface, hlt⟩ := h.isDearer
    have := hle r (hrest r hr) hface
    omega
  rename_i hdear
  have hwrest : w ∈ (e.eraseRoute route).routes := by
    rcases (mem_updateRoute hf).mp hw with rfl | hw
    · omega
    · exact hw
  split
  next hlt =>
    rw [map_eq_none_iff, noChildInherit_iff hf]
    refine ⟨fun h => ⟨?_, ⟨w, hwrest, hwface, by omega⟩, h.1, h.2⟩,
      fun h => ⟨h.noChildInherit, h.noneInherits⟩⟩
    intro r hr hface
    have := hle r (hrest r hr) hface
    omega
  next hnot =>
    refine iff_of_false (by simp) fun h => ?_
    have := h.wasCheapest w hwrest hwface
    omega

end

lemma updatedRoute_eq_none_iff (R : Rib C) (hf : e.findRoute route = some existing) :
    createFibUpdatesForUpdatedRoute R (e.updateRoute route) route existing = none ↔
      Overtaken e route existing := by
  rw [createFibUpdatesForUpdatedRoute]
  split
  next hsame =>
    refine iff_of_false (by simp) fun h => ?_
    have hlt := h.cost_lt
    simp only [Bool.and_eq_true, Bool.not_eq_true', bne_eq_false_iff_eq] at hsame
    omega
  rw [map_eq_none_iff]
  split
  · exact ownUpdate_eq_none_iff hf
  rename_i hsame
  refine iff_of_false (by simp) fun h => ?_
  have hlt := h.cost_lt
  simp only [bne_iff_ne, not_not] at hsame
  omega

variable [LinearOrder C]

lemma registrationUpdates_iff (R : Rib C) (name : Name C) (route : Route) :
    computeUpdatesForRegistration R name route ≠ none ↔
      ∀ e existing, R.find name = some e → e.findRoute route = some existing →
        ¬ Overtaken e route existing := by
  rw [ne_eq, computeUpdatesForRegistration]
  cases hfind : R.find name with
  | none => simp
  | some e =>
    cases hf : e.findRoute route with
    | none =>
      refine iff_of_true (by simp [hf]) ?_
      rintro _ existing ⟨⟩ hexisting
      rw [hf] at hexisting
      cases hexisting
    | some existing =>
      simp only [hf, updatedRoute_eq_none_iff R hf]
      constructor
      · rintro h _ _ ⟨⟩ hexisting
        rw [hf] at hexisting
        cases hexisting
        exact h
      · exact fun h => h e existing rfl hf

/-- No null pointer is followed for a registration, unless it updates a route that is overtaken on
its face by routes without CHILD_INHERIT. -/
theorem registration_computed_iff (R : Rib C) (nth : NthElement) (name : Name C) (route : Route) :
    computeUpdates R nth ⟨.register, name, route⟩ ≠ none ↔
      ∀ e existing, R.find name = some e → e.findRoute route = some existing →
        ¬ Overtaken e route existing := by
  rw [computeUpdates, computeUpdate, ne_eq, map_eq_none_iff]
  exact registrationUpdates_iff R name route

/-- Two routes on face 1, of which the cheaper one gets the dearer one. -/
theorem overtaken_route_null : ∃ s : RibState ℕ,
    Reach (RibState.step .sorting) Any {} s ∧
      (s.rib.entries [1]).routes = [⟨1, 0, 0, 5, 0⟩, ⟨1, 1, 0, 10, 0⟩] ∧
      computeUpdates s.rib .sorting ⟨.register, [1], ⟨1, 0, 0, 20, 0⟩⟩ = none := by
  have hrun : (run (RibState.step .sorting) ({} : RibState ℕ)
      [.register [1] ⟨1, 0, 0, 5, 0⟩, .batch, .register [1] ⟨1, 1, 0, 10, 0⟩, .batch]).map
      (fun s => ((s.rib.entries [1]).routes,
        (computeUpdates s.rib .sorting ⟨.register, [1], ⟨1, 0, 0, 20, 0⟩⟩).isNone)) =
      some ([⟨1, 0, 0, 5, 0⟩, ⟨1, 1, 0, 10, 0⟩], true) := by
    decide +kernel
  obtain ⟨s, hs, hview⟩ := map_eq_some_iff.mp hrun
  simp only [Prod.mk.injEq, isNone_iff_eq_none] at hview
  exact ⟨s, reach_of_run .init hs, hview.1, hview.2⟩

end NfdGateway
