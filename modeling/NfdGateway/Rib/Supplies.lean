import NfdGateway.Rib.HandedDown

/-! The conditions under which a batch hands down to the entries below its own what they
should get. -/
namespace NfdGateway

open FibUpdater Rib HandDown List Option

variable {C : Type}

def RibEntry.SecondLowest (e : RibEntry C) (f : FaceId) (b : Route) : Prop :=
  b ∈ e.routes ∧ b.faceId = f ∧ ∃ a ∈ e.routes, a.faceId = f ∧ a ≠ b ∧ a.cost ≤ b.cost ∧
    ∀ r ∈ e.routes, r.faceId = f → r ≠ a → b.cost ≤ r.cost

section SecondLowest

variable {e : RibEntry C} {nth : NthElement} {f : FaceId} {a b : Route}

lemma secondLowest_spec (hn : e.routes.Nodup)
    (h : e.getRouteWithSecondLowestCostByFaceId nth f = some b) : e.SecondLowest f b := by
  have hb := mem_of_secondLowest h
  rw [RibEntry.getRouteWithSecondLowestCostByFaceId] at h
  split at h
  · cases h
  have hperm := nth.perm (e.routes.filter (·.faceId == f))
  have hmem : ∀ r, r ∈ nth.rearrange (e.routes.filter (·.faceId == f)) ↔
      r ∈ e.routes ∧ r.faceId = f := fun r => by rw [hperm.mem_iff]; simp
  have hnodup := hperm.nodup_iff.mpr (hn.filter _)
  rcases hre : nth.rearrange (e.routes.filter (·.faceId == f)) with _ | ⟨a, _ | ⟨b', rest⟩⟩
  · simp [hre] at h
  · simp [hre] at h
  obtain rfl : b' = b := by simpa [hre] using h
  obtain ⟨hab, hrest⟩ := nth.second _ a b' rest hre
  rw [hre] at hmem hnodup
  obtain ⟨ha, haf⟩ := (hmem a).mp (by simp)
  refine ⟨hb.1, hb.2, a, ha, haf, ?_, hab, fun r hr hrf hne => ?_⟩
  · rintro rfl
    simp at hnodup
  rcases mem_cons.mp ((hmem r).mpr ⟨hr, hrf⟩) with rfl | hr
  · exact absurd rfl hne
  rcases mem_cons.mp hr with rfl | hr
  · exact le_rfl
  · exact hrest r hr

lemma exists_secondLowest (ha : a ∈ e.routes) (haf : a.faceId = f) (hb : b ∈ e.routes)
    (hbf : b.faceId = f) (hne : a ≠ b) :
    ∃ c, e.getRouteWithSecondLowestCostByFaceId nth f = some c := by
  have ham : a ∈ e.routes.filter (·.faceId == f) := by simp [ha, haf]
  have hbm : b ∈ e.routes.filter (·.faceId == f) := by simp [hb, hbf]
  have hlen : ¬ (e.routes.filter (·.faceId == f)).length < 2 := by
    intro hlt
    rcases hl : e.routes.filter (·.faceId == f) with _ | ⟨x, _ | ⟨y, l⟩⟩
    · simp [hl] at ham
    · rw [hl, mem_singleton] at ham hbm
      exact hne (ham.trans hbm.symm)
    · rw [hl, length_cons, length_cons] at hlt
      omega
  rw [RibEntry.getRouteWithSecondLowestCostByFaceId, if_neg hlen]
  refine ⟨_, getElem?_eq_getElem ?_⟩
  rw [(nth.perm _).length_eq]
  exact not_lt.mp hlen

lemma no_second {r existing : Route} (hnodup : e.routes.Nodup)
    (hf : e.findRoute r = some existing) (hown : (e.eraseRoute r).hasFaceId r.faceId = false) :
    e.getRouteWithSecondLowestCostByFaceId nth r.faceId = none := by
  cases hb : e.getRouteWithSecondLowestCostByFaceId nth r.faceId with
  | none => rfl
  | some b =>
    obtain ⟨hb, hbf, a, ha, haf, hne, -⟩ := secondLowest_spec hnodup hb
    obtain ⟨l₁, l₂, hl, -, her⟩ := RibEntry.exists_of_findRoute hf
    have honly : ∀ w ∈ e.routes, w.faceId = r.faceId → w = existing := by
      intro w hw hwf
      by_contra hwe
      rw [RibEntry.hasFaceId, her, List.any_eq_false] at hown
      refine hown w ?_ (by simpa using hwf)
      rw [hl] at hw
      simp only [mem_append, mem_cons] at hw ⊢
      tauto
    exact absurd ((honly a ha haf).trans (honly b hb hbf).symm) hne

end SecondLowest

namespace RibEntry

variable {e : RibEntry C} {route existing : Route}

lemma through_gateOf_entry {g : FaceId} {a : Option ℕ} :
    (gateOf g (some (e.routes, e.nRoutesWithCaptureSet))).through a =
      (minCost (inheritable g) e.routes).or (if e.hasCapture then none else a) := by
  rw [NfdGateway.through_gateOf]
  simp [hasCapture]

lemma Counted.through_gateOf {g : FaceId} {a : Option ℕ} (h : e.Counted) :
    (gateOf g (if e.getNRoutes = 0 then none
      else some (e.routes, e.nRoutesWithCaptureSet))).through a =
      (minCost (inheritable g) e.routes).or (if e.hasCapture then none else a) := by
  split
  next h0 =>
    have hnil : e.routes = [] := length_eq_zero_iff.mp h0
    simp [h.hasCapture_eq, hnil, minCost, gateOf]
  · exact through_gateOf_entry

end RibEntry

variable [LinearOrder C]

namespace RibUpdate

def CaptureKeeps (u : RibUpdate C) (R : Rib C) : Prop :=
  (R.entries u.name).hasCapture = false → u.route.isCapture = true → ∀ g,
    R.handedDown g u.name ≠ none → (R.entries u.name).hasChildInheritOnFaceId g = true →
    Undercuts u.route g (R.entries u.name).routes

/-- The CAPTURE flag stays. If CHILD_INHERIT stays, the cheapest such route on the face has the
cost it had, or is the new route with the old flags. If CHILD_INHERIT goes and no other such
route is left, the routes from above come instead unless CAPTURE stops them. -/
structure UpdateKeeps (u : RibUpdate C) (R : Rib C) (existing : Route) : Prop where
  capture : u.route.isCapture = existing.isCapture
  inherit : existing.isChildInherit = true → u.route.isChildInherit = true →
    minCost (inheritable u.route.faceId) ((R.entries u.name).updateRoute u.route).routes =
        minCost (inheritable u.route.faceId) (R.entries u.name).routes ∨
      u.route.flags = existing.flags ∧
        minCost (inheritable u.route.faceId) ((R.entries u.name).updateRoute u.route).routes =
          some u.route.cost
  ends : existing.isChildInherit = true → u.route.isChildInherit = false →
    minCost (inheritable u.route.faceId) ((R.entries u.name).updateRoute u.route).routes = none →
    R.OrderedAbove u.name ∧
      ((R.entries u.name).hasCapture = true → R.handedDown u.route.faceId u.name = none)

structure EraseKeeps (u : RibUpdate C) (R : Rib C) (existing : Route) (temp : RibEntry C) :
    Prop where
  ordered : temp.hasCapture = false → R.OrderedAbove u.name
  /-- The last route had no CAPTURE, or nothing was to be captured. -/
  last : existing.isCapture = true → temp.routes = [] →
    ∀ g, (u.action = .removeFace → g ≠ u.route.faceId) → R.handedDown g u.name = none
  /-- Routes that come from above again do not replace CHILD_INHERIT routes of the entry. -/
  other : temp.hasCapture = false → existing.isCapture = true ∨ existing.isChildInherit = true →
    ∀ g ≠ u.route.faceId, R.handedDown g u.name ≠ none → temp.hasChildInheritOnFaceId g = false
  /-- The route that comes second is the one that the entry hands down now. -/
  next : u.action ≠ .removeFace →
    existing.isChildInherit = true ∨ (existing.isCapture = true ∧ temp.hasCapture = false ∧
      R.handedDown u.route.faceId u.name ≠ none ∧
      temp.hasChildInheritOnFaceId u.route.faceId = true) →
    ∀ b, (R.entries u.name).SecondLowest u.route.faceId b →
      match minCost (inheritable u.route.faceId) temp.routes with
      | some m => b.isChildInherit = true ∧ b.cost = m
      | none => b.isChildInherit = false

structure KeepsInherited (u : RibUpdate C) (R : Rib C) : Prop where
  newEntry : u.action = .register → u.name ∉ R.names → u.route.isCapture = false →
    R.OrderedAbove u.name
  newRoute : u.action = .register → u.name ∈ R.names →
    (R.entries u.name).findRoute u.route = none → u.CaptureKeeps R
  counter : u.action = .register → u.name ∈ R.names →
    (R.entries u.name).routes.length + 1 < 2 ^ 64
  updated : u.action = .register → ∀ existing, u.Existing R existing → u.UpdateKeeps R existing
  erased : u.action ≠ .register → ∀ existing, u.Existing R existing →
    u.EraseKeeps R existing ((R.entries u.name).eraseRoute u.route)

lemma KeepsInherited.of_new {u : RibUpdate C} {R : Rib C} (ha : u.action = .register)
    (hn : u.name ∉ R.names) (ho : R.OrderedAbove u.name) : u.KeepsInherited R where
  newEntry _ _ _ := ho
  newRoute _ hm := absurd hm hn
  counter _ hm := absurd hm hn
  updated _ _ hex := absurd hex.1 hn
  erased hr := absurd ha hr

end RibUpdate

namespace RibState

variable {R : Rib C} {nth : NthElement} {u : RibUpdate C} {calls : List (Call C)}
  {c : Option (List Route × ℕ)} {n : Name C} {g : FaceId} {e temp : RibEntry C}

lemma ancestorRoutes_spec (hl : Linked R n e) :
    ((R.getAncestorRoutes e).find g).isSome = (R.handedDown g n).isSome ∧
      (R.OrderedAbove n → ∀ w, (R.getAncestorRoutes e).find g = some w →
        R.handedDown g n = some w.cost) := by
  rw [find_getAncestorRoutes hl.tree hl.mem hl.name hl.parent]
  refine ⟨arrives_firstGate_isSome, fun ho w hw => ?_⟩
  rw [← ho.arrives_eq, hw]
  rfl

lemma ancestorRoutesOfName_spec (h : R.TreeInv) :
    ((R.getAncestorRoutesOfName n).find g).isSome = (R.handedDown g n).isSome ∧
      (R.OrderedAbove n → ∀ w, (R.getAncestorRoutesOfName n).find g = some w →
        R.handedDown g n = some w.cost) := by
  rw [find_getAncestorRoutesOfName h]
  refine ⟨arrives_firstGate_isSome, fun ho w hw => ?_⟩
  rw [← ho.arrives_eq, hw]
  rfl

def Supplies (R : Rib C) (n : Name C) (g : FaceId) (calls : List (Call C))
    (c : Option (List Route × ℕ)) : Prop :=
  ∃ v, Hands R n g calls v ∧
    Serves v g (leaves (R.gate g) n) ((gateOf g c).through (R.handedDown g n))

lemma supplies_newEntry (h : R.TreeInv) (hk : u.KeepsInherited R) (ha : u.action = .register)
    (hn : u.name ∉ R.names) :
    Supplies R u.name g (createFibUpdatesForNewRibEntry R u.name u.route
      ((R.findDescendantsForNonInsertedName u.name).filter fun d =>
        (R.entries d).parent = R.findParent u.name))
      (some ([u.route], if u.route.isCapture then 1 else 0)) := by
  obtain ⟨hsome, hord⟩ := ancestorRoutesOfName_spec h
  refine ⟨_, hands_newEntry h (mem_newChildren h hn), ?_⟩
  rw [leaves_gate, content_of_not_mem hn]
  change Serves _ g (R.handedDown g u.name) _
  refine serves_newEntry (fun hno => ?_) fun hc => hord (hk.newEntry ha hn hc)
  simpa [hno] using hsome.symm

lemma supplies_newRoute (h : R.TreeInv) (hk : u.KeepsInherited R) (ha : u.action = .register)
    (hn : u.name ∈ R.names) (hf : (R.entries u.name).findRoute u.route = none)
    (hcnt : (R.entries u.name).Counted) :
    Supplies R u.name g (createFibUpdatesForNewRoute R (R.entries u.name) u.route
      (!(R.entries u.name).hasCapture && u.route.isCapture))
      (some (((R.entries u.name).insertRoute u.route).routes,
        ((R.entries u.name).insertRoute u.route).nRoutesWithCaptureSet)) := by
  have hroutes : ((R.entries u.name).insertRoute u.route).routes =
      (R.entries u.name).routes ++ [u.route] := by rw [RibEntry.insertRoute_of_new hf]
  have hpos := hcnt.insertRoute_pos hf (hk.counter ha hn)
  refine ⟨_, hands_newRoute (linked h hn), ?_⟩
  rw [leaves_gate, content_of_mem hn, hroutes]
  refine serves_newRoute (ancestorRoutes_spec (linked h hn)).1 rfl hpos fun hon hne hci => ?_
  simp only [Bool.and_eq_true, Bool.not_eq_true'] at hon
  refine hk.newRoute ha hn hf hon.1 hon.2 g hne ?_
  rw [← Bool.not_eq_false, hasChildInheritOnFaceId_eq_false]
  exact hci

lemma supplies_updated {existing : Route} (h : R.TreeInv) (hk : u.KeepsInherited R)
    (ha : u.action = .register) (hn : u.name ∈ R.names)
    (hf : (R.entries u.name).findRoute u.route = some existing)
    (hu : createFibUpdatesForUpdatedRoute R ((R.entries u.name).updateRoute u.route) u.route
      existing = some calls) :
    Supplies R u.name g calls (some (((R.entries u.name).updateRoute u.route).routes,
      (R.entries u.name).nRoutesWithCaptureSet)) := by
  obtain ⟨hcap, hinh, hends⟩ := hk.updated ha existing ⟨hn, hf⟩
  obtain ⟨l₁, l₂, hl, hup, -⟩ := RibEntry.exists_of_findRoute hf
  obtain ⟨-, hface, -⟩ := RibEntry.mem_of_findRoute hf
  have hlink := (linked h hn).updateRoute u.route
  obtain ⟨hsome, hord⟩ := ancestorRoutes_spec hlink
  refine ⟨_, hands_updated hlink hu, ?_⟩
  obtain ⟨hadds, hrems⟩ := captureAdds_of_capture (e := (R.entries u.name).updateRoute u.route) hcap
  rw [hadds, hrems]
  simp only [visit_empty, none_or]
  rw [leaves_gate, content_of_mem hn, hup, hl]
  rw [hup] at hinh hends
  rw [hl] at hinh
  refine serves_updated hup hface hsome hinh fun hg hci₀ hci hnone => ?_
  subst hg
  obtain ⟨ho, hstop⟩ := hends hci₀ hci hnone
  exact ⟨hord ho, fun hpos => hstop (by simpa [RibEntry.hasCapture] using hpos)⟩

section Erased

variable {existing : Route} (ht : (R.entries u.name).eraseRoute u.route = temp)
  (hnodup : (R.entries u.name).routes.Nodup)
  (hf : (R.entries u.name).findRoute u.route = some existing) (hk : u.EraseKeeps R existing temp)

include ht hnodup hf hk

lemma next_undercuts (ha : u.action ≠ .removeFace) (hwant : existing.isChildInherit = true ∨
      Reopens temp existing ((R.entries u.name).hasCapture && !temp.hasCapture) ∧
      R.handedDown u.route.faceId u.name ≠ none)
    (hne : minCost (inheritable u.route.faceId) temp.routes ≠ none) :
    ∃ b, (R.entries u.name).getRouteWithSecondLowestCostByFaceId nth u.route.faceId = some b ∧
      Undercuts b u.route.faceId temp.routes := by
  obtain ⟨l₁, l₂, hl, -, her⟩ := RibEntry.exists_of_findRoute hf
  rw [ht] at her
  obtain ⟨-, hface, -⟩ := RibEntry.mem_of_findRoute hf
  obtain ⟨m, hm⟩ := ne_none_iff_exists'.mp hne
  obtain ⟨⟨w, hw, hwi, -⟩, -⟩ := minCost_eq_some_iff.mp hm
  have hwf : w.faceId = u.route.faceId ∧ w.isChildInherit = true := by simpa [inheritable] using hwi
  -- the erased route and the one that is left are two on the face
  have hsecond : ∃ b, (R.entries u.name).getRouteWithSecondLowestCostByFaceId nth
      u.route.faceId = some b := by
    rw [her] at hw
    rw [hl] at hnodup
    refine exists_secondLowest (by simp [hl]) hface ?_ hwf.1 ?_
    · rw [hl]
      simp only [mem_append, mem_cons] at hw ⊢
      tauto
    · rintro rfl
      exact (nodup_cons.mp (nodup_middle.mp hnodup)).1 hw
  obtain ⟨b, hb⟩ := hsecond
  have hbs := secondLowest_spec hnodup hb
  have hcond := hk.next ha (by
    rcases hwant with hci | ⟨hre, hne'⟩
    · exact .inl hci
    rcases hre with ⟨hcap, hoff, -⟩ | ⟨-, hci, -⟩
    · simp only [Bool.and_eq_true, Bool.not_eq_true'] at hoff
      refine .inr ⟨hcap, hoff.2, hne', ?_⟩
      rw [← Bool.not_eq_false, hasChildInheritOnFaceId_eq_false]
      exact hne
    · exact .inl hci) b hbs
  rw [hm] at hcond
  refine ⟨b, hb, hbs.2.1.symm, hcond.1, fun m' hm' => ?_⟩
  rw [hm] at hm'
  exact hcond.2.trans_le (some.inj hm').le

lemma next_cheapest {b : Route} (ha : u.action ≠ .removeFace)
    (hb : (R.entries u.name).getRouteWithSecondLowestCostByFaceId nth u.route.faceId = some b)
    (hu : Undercuts b u.route.faceId temp.routes) :
    minCost (inheritable u.route.faceId) temp.routes = some b.cost := by
  obtain ⟨l₁, l₂, hl, -, her⟩ := RibEntry.exists_of_findRoute hf
  rw [ht] at her
  have hbs := secondLowest_spec hnodup hb
  cases hci : existing.isChildInherit with
  | true =>
    have hcond := hk.next ha (.inl hci) b hbs
    cases hm : minCost (inheritable u.route.faceId) temp.routes with
    | some m =>
      rw [hm] at hcond
      rw [hcond.2]
    | none =>
      rw [hm, hu.2.1] at hcond
      cases hcond
  | false =>
    have hleft : b ∈ temp.routes := by
      have hb := hbs.1
      have hne : b ≠ existing := by
        rintro rfl
        simp [hu.2.1] at hci
      rw [hl] at hb
      rw [her]
      simp only [mem_append, mem_cons] at hb ⊢
      tauto
    have hbi : inheritable u.route.faceId b = true := by simp [inheritable, hu.2.1, hbs.2.1]
    cases hm : minCost (inheritable u.route.faceId) temp.routes with
    | none =>
      rw [minCost_eq_none_iff.mp hm b hleft] at hbi
      cases hbi
    | some m =>
      have hle := (minCost_eq_some_iff.mp hm).2 b hleft hbi
      rw [le_antisymm hle (hu.2.2 m hm)]

omit hk in
lemma supplies_erased (h : R.TreeInv) (hk : u.KeepsInherited R) (ha : Erases u)
    (hg : u.action = .removeFace → g ≠ u.route.faceId) (hn : u.name ∈ R.names)
    (hcnt : (R.entries u.name).Counted) :
    Supplies R u.name g
      (erasedCalls R (R.entries u.name) temp existing
        ((R.entries u.name).getRouteWithSecondLowestCostByFaceId nth u.route.faceId)
        ((R.entries u.name).hasCapture && !temp.hasCapture) ((R.entries u.name).getNRoutes = 1))
      (if temp.getNRoutes = 0 then none
      else some (temp.routes, temp.nRoutesWithCaptureSet)) := by
  subst ht
  have hke := hk.erased ha.not_register existing ⟨hn, hf⟩
  obtain ⟨l₁, l₂, hl, -, her⟩ := RibEntry.exists_of_findRoute hf
  obtain ⟨hmem, hface, -⟩ := RibEntry.mem_of_findRoute hf
  have hlink := linked h hn
  obtain ⟨hsome, hord⟩ := ancestorRoutes_spec (hlink.eraseRoute u.route)
  refine ⟨_, hands_erasedCalls hlink.name (hlink.eraseRoute u.route), ?_⟩
  rw [leaves_gate, content_of_mem hn, RibEntry.through_gateOf_entry,
    (hcnt.eraseRoute hf).through_gateOf]
  refine serves_erased rfl hl her (fun hc => ?_) (fun hc => ?_) hsome
    (fun hc => hord (hke.ordered hc)) (fun hc hnil => hke.last hc hnil g hg)
    (fun hgf hre hne => ?_) (fun hgf hwant hne => ?_) (fun b hb hu => ?_)
  · rw [hcnt.hasCapture_eq]
    exact List.any_eq_true.mpr ⟨existing, hmem, hc⟩
  · rw [RibEntry.hasCapture, RibEntry.hasCapture, RibEntry.eraseRoute_of_found hf]
    simp [hc]
  · rw [← hasChildInheritOnFaceId_eq_false]
    refine hke.other (hre.hasCapture rfl) ?_ g (hface ▸ hgf) hne
    exact hre.imp (fun h => h.1) fun h => h.2.1
  · rw [hface] at hgf
    subst hgf
    exact next_undercuts rfl hnodup hf hke (fun ha => hg ha rfl) hwant hne
  · have hgf : g = u.route.faceId := hu.1.trans (mem_of_secondLowest hb).2
    subst hgf
    exact next_cheapest rfl hnodup hf hke (fun ha => hg ha rfl) hb hu

end Erased

lemma Batch.supplies (hb : Batch nth R u calls c) (h : R.TreeInv) (hk : u.KeepsInherited R)
    (hg : u.action = .removeFace → g ≠ u.route.faceId)
    (hcnt : u.name ∈ R.names → (R.entries u.name).Counted)
    (hnodup : u.name ∈ R.names → (R.entries u.name).routes.Nodup) :
    Supplies R u.name g calls c := by
  cases hb with
  | newEntry ha hn => exact supplies_newEntry h hk ha hn
  | newRoute ha hn hf => exact supplies_newRoute h hk ha hn hf (hcnt hn)
  | updated ha hn hf hc => exact supplies_updated h hk ha hn hf hc
  | erased ha hn hf => exact supplies_erased rfl (hnodup hn) hf h hk ha hg hn (hcnt hn)
  | nothing =>
    refine ⟨fun _ => none, fun x _ => ⟨fun _ => rfl, fun _ => rfl⟩, fun e _ _ => ?_⟩
    rw [leaves_gate]
    rfl

end RibState

end NfdGateway
