import NfdGateway.Rib.OwnNexthops

/-! What a batch hands down to the entries below its own, and when this is what they should
get. -/
namespace NfdGateway

open FibUpdater Rib HandDown List Option

namespace RibEntry

variable {C : Type}

def FirstIsCheapest (e : RibEntry C) : Prop :=
  ∀ g, (e.routes.find? (inheritable g)).map Route.cost = minCost (inheritable g) e.routes

lemma firstIsCheapest_single {e : RibEntry C} {r : Route} (h : e.routes = [r]) :
    e.FirstIsCheapest := by
  intro g
  rw [h, minCost_cons]
  cases hi : inheritable g r <;> simp [hi, minCost]

end RibEntry

lemma hasChildInheritOnFaceId_of_hasFaceId {C : Type} {e : RibEntry C} {g : FaceId}
    (h : e.hasFaceId g = false) : e.hasChildInheritOnFaceId g = false := by
  rw [RibEntry.hasFaceId, List.any_eq_false] at h
  refine List.any_eq_false.mpr fun r hr => ?_
  simp [h r hr]

section Serves

variable {C : Type} {g : FaceId} {old new : Option ℕ} {add rem : RouteSet}

def Serves (v : RibEntry C → Option (Option ℕ)) (g : FaceId) (old new : Option ℕ) : Prop :=
  ∀ e, e.hasFaceId g = false → (e.hasInheritedRoute g = false → old = none) →
    (v e).getD old = new

lemma visit_serves (ha : ∀ r, add.find g = some r → new = some r.cost)
    (hr : add.find g = none → (rem.find g).isSome = true → new = none)
    (hn : add.find g = none → rem.find g = none → new = old) :
    Serves (C := C) (visit · add rem g) g old new := by
  intro e hown hrec
  cases hadd : add.find g with
  | some r => simp [visit, hown, hadd, ha r hadd]
  | none =>
    cases hrem : rem.find g with
    | none => simp [visit, hadd, hrem, hn hadd hrem]
    | some r =>
      have hnew := hr hadd (by simp [hrem])
      cases hi : e.hasInheritedRoute g with
      | true => simp [visit, hadd, hrem, hi, hnew]
      | false => simp [visit, hadd, hrem, hi, hnew, hrec hi]

lemma serves_add {r : Route} (h : add.find g = some r) :
    Serves (C := C) (visit · add rem g) g old (some r.cost) := by
  refine visit_serves (fun w hw => ?_) (by simp [h]) (by simp [h])
  rw [some.inj (h.symm.trans hw)]

lemma serves_same (ha : add.find g = none) (hr : rem.find g = none) :
    Serves (C := C) (visit · add rem g) g old old :=
  visit_serves (by simp [ha]) (by simp [hr]) fun _ _ => rfl

lemma minCost_single {r : Route} : minCost (inheritable g) [r] =
    if g = r.faceId ∧ r.isChildInherit = true then some r.cost else none := by
  rw [minCost_cons]
  by_cases hg : g = r.faceId
  · simp [inheritable, hg, minCost]
  · simp [inheritable, hg, Ne.symm hg, minCost]

def Rib.gateOf (g : FaceId) : Option (List Route × ℕ) → Gate ℕ
  | none => .pass
  | some (routes, counter) =>
    match minCost (inheritable g) routes with
    | some c => .emit c
    | none => if counter > 0 then .stop else .pass

lemma through_gateOf {routes : List Route} {counter : ℕ} {a : Option ℕ} :
    (gateOf g (some (routes, counter))).through a =
      (minCost (inheritable g) routes).or (if counter > 0 then none else a) := by
  rw [gateOf]
  cases minCost (inheritable g) routes with
  | some c => rfl
  | none =>
    dsimp only
    split <;> rfl

variable {above : RouteSet} {a ci : Option ℕ} {r existing : Route} {e : RibEntry C}
  {l l₁ l₂ : List Route}

lemma serves_newEntry (hnone : above.find g = none → a = none)
    (hord : r.isCapture = false → ∀ w, above.find g = some w → a = some w.cost) :
    Serves (C := C) (visit · (newEntryAdds above r) (newEntryRemoves above r) g) g a
      ((gateOf g (some ([r], if r.isCapture then 1 else 0))).through a) := by
  rw [through_gateOf, minCost_single]
  cases hcap : r.isCapture with
  | true =>
    refine visit_serves ?_ ?_ ?_ <;> by_cases hg : g = r.faceId <;>
      cases hci : r.isChildInherit <;> simp_all [find_newEntryAdds, newEntryRemoves]
  | false =>
    have hord := hord hcap
    refine visit_serves ?_ ?_ ?_ <;> by_cases hg : g = r.faceId <;>
      cases hci : r.isChildInherit <;> simp_all [find_newEntryAdds, newEntryRemoves]

lemma serves_withdraw {cap cap' : Prop} [Decidable cap] [Decidable cap'] {on : Bool}
    (hadd : add.find g = none) (hsome : (above.find g).isSome = a.isSome)
    (hon : on = true → ¬ cap ∧ cap') (hoff : on = false → (cap' ↔ cap))
    (hci : on = true → a ≠ none → ci = none) :
    Serves (C := C) (visit · add (if on then above else {}) g) g
      (ci.or (if cap then none else a)) (ci.or (if cap' then none else a)) := by
  cases on with
  | false =>
    have hoff := hoff rfl
    refine visit_serves (by simp [hadd]) (by simp) fun _ _ => ?_
    simp [hoff]
  | true =>
    obtain ⟨hc, hc'⟩ := hon rfl
    refine visit_serves (by simp [hadd]) (fun _ hrem => ?_) fun _ hrem => ?_
    · have ha : a ≠ none := isSome_iff_ne_none.mp (hsome ▸ hrem)
      simp [hci rfl ha, hc']
    have hrem : above.find g = none := hrem
    have ha : a = none := by simpa [hrem] using hsome.symm
    simp [hc, hc', ha]

def Undercuts (r : Route) (g : FaceId) (l : List Route) : Prop :=
  g = r.faceId ∧ r.isChildInherit = true ∧ ∀ m, minCost (inheritable g) l = some m → r.cost ≤ m

lemma find_newRouteAdds : (newRouteAdds e r).find g = some r ∧ Undercuts r g e.routes ∨
    (newRouteAdds e r).find g = none ∧ ¬ Undercuts r g e.routes := by
  have hd := notDearer_iff (r := r) (lowestChildInherit_cost (e := e) (g := r.faceId))
  rw [newRouteAdds, Undercuts]
  by_cases hg : g = r.faceId
  · subst hg
    rw [← hd]
    cases r.isChildInherit <;>
      cases notDearer r (e.getRouteWithLowestCostAndChildInheritByFaceId r.faceId) <;> simp
  · cases r.isChildInherit <;>
      cases notDearer r (e.getRouteWithLowestCostAndChildInheritByFaceId r.faceId) <;>
      simp [hg, Ne.symm hg]

lemma Undercuts.minCost_middle (h : Undercuts r g (l₁ ++ l₂)) :
    minCost (inheritable g) (l₁ ++ r :: l₂) = some r.cost := by
  obtain ⟨rfl, hci, hle⟩ := h
  rw [NfdGateway.minCost_middle, minCost_cons, if_pos (by simp [inheritable, hci])]
  cases hm : minCost (inheritable r.faceId) (l₁ ++ l₂) with
  | none => rfl
  | some m => simp [hle m hm]

lemma minCost_middle_of_not_undercuts (h : ¬ Undercuts r g (l₁ ++ l₂)) :
    minCost (inheritable g) (l₁ ++ r :: l₂) = minCost (inheritable g) (l₁ ++ l₂) := by
  by_cases hi : inheritable g r = true
  · obtain ⟨rfl, hci⟩ : r.faceId = g ∧ r.isChildInherit = true := by simpa [inheritable] using hi
    rw [minCost_middle, minCost_cons, if_pos hi]
    cases hm : minCost (inheritable r.faceId) (l₁ ++ l₂) with
    | none => exact absurd ⟨rfl, hci, by simp [hm]⟩ h
    | some m =>
      have hlt : m < r.cost := by
        by_contra hle
        exact h ⟨rfl, hci, fun k hk => by simp_all⟩
      simp [hlt.le]
  · exact minCost_middle_of_neg (by simpa using hi)

lemma serves_newRoute {on : Bool} {k : ℕ} (hsome : (above.find g).isSome = a.isSome)
    (hon : on = (!e.hasCapture && r.isCapture))
    (hk : k > 0 ↔ e.hasCapture = true ∨ r.isCapture = true)
    (hkeep : on = true → a ≠ none → minCost (inheritable g) e.routes ≠ none →
      Undercuts r g e.routes) :
    Serves (C := C) (visit · (newRouteAdds e r) (if on then above else {}) g) g
      ((gateOf g (some (e.routes, e.nRoutesWithCaptureSet))).through a)
      ((gateOf g (some (e.routes ++ [r], k))).through a) := by
  have hcap : e.nRoutesWithCaptureSet > 0 ↔ e.hasCapture = true := by simp [RibEntry.hasCapture]
  have hturn : on = true → ¬ e.nRoutesWithCaptureSet > 0 ∧ k > 0 := fun h => by
    rw [hcap, hk]
    simp_all
  have hsame : on = false → (k > 0 ↔ e.nRoutesWithCaptureSet > 0) := fun h => by
    rw [hcap, hk]
    cases hc : e.hasCapture <;> simp_all
  rw [through_gateOf, through_gateOf]
  rcases find_newRouteAdds with ⟨hfind, hu⟩ | ⟨hfind, hu⟩
  · rw [← append_nil e.routes] at hu
    rw [hu.minCost_middle, some_or]
    exact serves_add hfind
  have hmin := minCost_middle_of_not_undercuts (append_nil e.routes ▸ hu)
  rw [hmin, append_nil]
  refine serves_withdraw hfind hsome hturn hsame fun h ha => ?_
  by_contra hne
  exact hu (hkeep h ha hne)

lemma captureAdds_of_capture {R : Rib C} (h : r.isCapture = existing.isCapture) :
    captureAdds R e r existing = {} ∧ captureRemoves R e r existing = {} := by
  simp [captureAdds, captureRemoves, h]

lemma find_updatedAdds_of_ne {R : Rib C} (hg : g ≠ r.faceId) :
    (updatedAdds R e r existing).find g = none := by
  have hsingle : ∀ w : Route, w.faceId = r.faceId → (RouteSet.single w).find g = none :=
    fun w hw => by rw [RouteSet.find_single, hw, if_neg (Ne.symm hg)]
  rw [updatedAdds]
  split
  · exact hsingle r rfl
  rw [childInheritAdds]
  split
  · split
    · exact hsingle r rfl
    · rfl
  split
  · split
    next w hw =>
      refine hsingle w ?_
      rcases or_eq_some_iff.mp hw with hw | ⟨-, hw⟩
      · exact (lowestChildInherit_spec hw).1
      · exact (RouteSet.find_eq_some hw).2
    · rfl
  · rfl

lemma notDearer_updated (hup : e.routes = l₁ ++ r :: l₂) (hci : r.isChildInherit = true) :
    notDearer r (e.getRouteWithLowestCostAndChildInheritByFaceId r.faceId) = true ↔
      Undercuts r r.faceId (l₁ ++ l₂) := by
  rw [notDearer_iff lowestChildInherit_cost, hup]
  constructor
  · intro h
    refine ⟨rfl, hci, fun m hm => ?_⟩
    by_contra hlt
    rw [minCost_middle_of_not_undercuts fun hu => hlt (hu.2.2 m hm)] at h
    exact hlt (h m hm)
  · intro hu k hk
    rw [hu.minCost_middle] at hk
    exact (some.inj hk).le

section Updated

variable {R : Rib C} {k : ℕ}

lemma serves_inheritOn (hup : e.routes = l₁ ++ r :: l₂)
    (hci₀ : existing.isChildInherit = false) (hci : r.isChildInherit = true) :
    Serves (C := C) (visit · (updatedAdds R e r existing) (updatedRemoves r existing) r.faceId)
      r.faceId ((minCost (inheritable r.faceId) (l₁ ++ existing :: l₂)).or a)
      ((minCost (inheritable r.faceId) (l₁ ++ r :: l₂)).or a) := by
  have hflags : r.flags ≠ existing.flags := fun h => by
    rw [isChildInherit_congr h, hci₀] at hci
    cases hci
  have hnd := notDearer_updated hup hci
  by_cases hu : Undercuts r r.faceId (l₁ ++ l₂)
  · rw [hu.minCost_middle, some_or]
    refine serves_add ?_
    simp [updatedAdds, costUpdate, childInheritAdds, hci, hci₀, hflags, hnd.mpr hu]
  rw [minCost_middle_of_not_undercuts hu, minCost_middle_of_neg (by simp [inheritable, hci₀])]
  refine serves_same ?_ ?_
  · simp [updatedAdds, costUpdate, childInheritAdds, hci, hci₀, mt hnd.mp hu]
  · simp [updatedRemoves, hci₀]

lemma find_inheritOff (hci₀ : existing.isChildInherit = true) (hci : r.isChildInherit = false) :
    (updatedAdds R e r existing).find r.faceId =
      (e.getRouteWithLowestCostAndChildInheritByFaceId r.faceId).or
        ((R.getAncestorRoutes e).find r.faceId) := by
  have hadds : updatedAdds R e r existing = childInheritAdds R e r existing := by
    simp [updatedAdds, costUpdate, hci]
  rw [hadds, childInheritAdds, if_neg (by simp [hci]), if_pos (by simp [hci₀, hci])]
  cases hw : (e.getRouteWithLowestCostAndChildInheritByFaceId r.faceId).or
      ((R.getAncestorRoutes e).find r.faceId) with
  | none => rfl
  | some w =>
    have hf : w.faceId = r.faceId := by
      rcases or_eq_some_iff.mp hw with hw | ⟨-, hw⟩
      · exact (lowestChildInherit_spec hw).1
      · exact (RouteSet.find_eq_some hw).2
    simp [hf]

section

variable (hup : e.routes = l₁ ++ r :: l₂)
include hup

lemma serves_inheritOff (hsome : ((R.getAncestorRoutes e).find r.faceId).isSome = a.isSome)
    (hci₀ : existing.isChildInherit = true) (hci : r.isChildInherit = false)
    (hends : minCost (inheritable r.faceId) (l₁ ++ r :: l₂) = none →
      (∀ w, (R.getAncestorRoutes e).find r.faceId = some w → a = some w.cost) ∧
        (k > 0 → a = none)) :
    Serves (C := C) (visit · (updatedAdds R e r existing) (updatedRemoves r existing) r.faceId)
      r.faceId old
      ((minCost (inheritable r.faceId) (l₁ ++ r :: l₂)).or (if k > 0 then none else a)) := by
  have hfind := find_inheritOff (R := R) (e := e) hci₀ hci
  have hrem : (updatedRemoves r existing).find r.faceId = some r := by
    simp [updatedRemoves, hci₀, hci]
  have hcost := lowestChildInherit_cost (e := e) (g := r.faceId)
  rw [hup] at hcost
  cases hp : e.getRouteWithLowestCostAndChildInheritByFaceId r.faceId with
  | some p =>
    rw [hp] at hcost hfind
    rw [← hcost]
    exact serves_add hfind
  | none =>
    rw [hp] at hcost hfind
    obtain ⟨hord, hcap⟩ := hends hcost.symm
    rw [none_or] at hfind
    rw [← hcost, map_none, none_or]
    refine visit_serves (fun w hw => ?_) (fun hno _ => ?_) (by simp [hrem])
    · have ha := hord w (hfind.symm.trans hw)
      have hk : ¬ k > 0 := fun hk => by simp [hcap hk] at ha
      rw [if_neg hk, ha]
    · have ha : a = none := by simpa [hfind.symm.trans hno] using hsome.symm
      simp [ha]

lemma serves_inheritKept (hface : existing.faceId = r.faceId)
    (hci₀ : existing.isChildInherit = true) (hci : r.isChildInherit = true)
    (hkeep : minCost (inheritable r.faceId) (l₁ ++ r :: l₂) =
        minCost (inheritable r.faceId) (l₁ ++ existing :: l₂) ∨
      r.flags = existing.flags ∧
        minCost (inheritable r.faceId) (l₁ ++ r :: l₂) = some r.cost) :
    Serves (C := C) (visit · (updatedAdds R e r existing) (updatedRemoves r existing) r.faceId)
      r.faceId ((minCost (inheritable r.faceId) (l₁ ++ existing :: l₂)).or a)
      ((minCost (inheritable r.faceId) (l₁ ++ r :: l₂)).or a) := by
  by_cases hcu : costUpdate e r existing = true
  · have hu : Undercuts r r.faceId (l₁ ++ l₂) := by
      refine (notDearer_updated hup hci).mp ?_
      simp only [costUpdate, Bool.and_eq_true] at hcu
      exact hcu.1.1.2
    rw [hu.minCost_middle, some_or]
    exact serves_add (by simp [updatedAdds, hcu])
  have hsame : minCost (inheritable r.faceId) (l₁ ++ r :: l₂) =
      minCost (inheritable r.faceId) (l₁ ++ existing :: l₂) := by
    rcases hkeep with h | ⟨hflags, hmin⟩
    · exact h
    rw [← hup, ← lowestChildInherit_cost] at hmin
    have hd := (notDearer_iff hmin).mpr fun k hk => (some.inj hk).le
    have hcosts : r.cost = existing.cost := by
      by_contra hne
      exact hcu (by simp [costUpdate, hne, hd, hflags, hci])
    simp [minCost_middle, minCost_cons, inheritable, hface, hci, hci₀, hcosts]
  rw [hsame]
  refine serves_same ?_ ?_
  · simp [updatedAdds, hcu, childInheritAdds, hci, hci₀]
  · simp [updatedRemoves, hci]

lemma serves_updated (hface : existing.faceId = r.faceId)
    (hsome : ((R.getAncestorRoutes e).find g).isSome = a.isSome)
    (hkeep : existing.isChildInherit = true → r.isChildInherit = true →
      minCost (inheritable r.faceId) (l₁ ++ r :: l₂) =
          minCost (inheritable r.faceId) (l₁ ++ existing :: l₂) ∨
        r.flags = existing.flags ∧
          minCost (inheritable r.faceId) (l₁ ++ r :: l₂) = some r.cost)
    (hends : g = r.faceId → existing.isChildInherit = true → r.isChildInherit = false →
      minCost (inheritable r.faceId) (l₁ ++ r :: l₂) = none →
      (∀ w, (R.getAncestorRoutes e).find g = some w → a = some w.cost) ∧ (k > 0 → a = none)) :
    Serves (C := C) (visit · (updatedAdds R e r existing) (updatedRemoves r existing) g) g
      ((gateOf g (some (l₁ ++ existing :: l₂, k))).through a)
      ((gateOf g (some (l₁ ++ r :: l₂, k))).through a) := by
  rw [through_gateOf, through_gateOf]
  by_cases hg : g = r.faceId
  · subst hg
    cases hci₀ : existing.isChildInherit <;> cases hci : r.isChildInherit
    · rw [minCost_middle_of_neg (by simp [inheritable, hci₀]),
        minCost_middle_of_neg (by simp [inheritable, hci])]
      refine serves_same ?_ ?_
      · simp [updatedAdds, costUpdate, childInheritAdds, hci, hci₀]
      · simp [updatedRemoves, hci₀]
    · exact serves_inheritOn hup hci₀ hci
    · exact serves_inheritOff hup hsome hci₀ hci (hends rfl hci₀ hci)
    · exact serves_inheritKept hup hface hci₀ hci (hkeep hci₀ hci)
  · rw [minCost_middle_of_neg (r := existing) (by simp [inheritable, hface, Ne.symm hg]),
      minCost_middle_of_neg (r := r) (by simp [inheritable, Ne.symm hg])]
    refine serves_same (find_updatedAdds_of_ne hg) ?_
    rw [updatedRemoves]
    split
    · rw [RouteSet.find_single, if_neg (Ne.symm hg)]
    · rfl

end

end Updated

section Erased

variable {R : Rib C} {temp : RibEntry C} {next : Option Route} {v : RibEntry C → Option (Option ℕ)}

def Reopens (temp : RibEntry C) (route : Route) (off : Bool) : Prop :=
  (route.isCapture = true ∧ off = true ∧ temp.routes ≠ []) ∨
    (route.isCapture = false ∧ route.isChildInherit = true ∧ temp.hasCapture = false)

lemma Reopens.hasCapture {off : Bool} (hoff : off = (e.hasCapture && !temp.hasCapture))
    (h : Reopens temp r off) : temp.hasCapture = false := by
  rcases h with ⟨-, h, -⟩ | ⟨-, -, h⟩
  · rw [hoff, Bool.and_eq_true, Bool.not_eq_true'] at h
    exact h.2
  · exact h

lemma find_erasedAdds (R : Rib C) (temp : RibEntry C) (r : Route) (off : Bool) (g : FaceId) :
    (Reopens temp r off ∧ (erasedAdds R temp r off).find g = (R.getAncestorRoutes temp).find g) ∨
      (¬ Reopens temp r off ∧ (erasedAdds R temp r off).find g = none) := by
  rw [Reopens, erasedAdds, RibEntry.getNRoutes]
  cases r.isCapture <;> cases r.isChildInherit <;> cases off <;> cases temp.hasCapture <;>
    cases temp.routes <;> simp

lemma serves_next {b : Route} (h : (newRouteAdds temp b).find g = some b) :
    Serves (fun x => (visit x (newRouteAdds temp b) {} g).or (v x)) g old (some b.cost) := by
  intro e hown _
  simp [visit, hown, h]

lemma serves_no_next {b : Route}
    (h : (newRouteAdds temp b).find g = none) (hv : Serves v g old new) :
    Serves (fun x => (visit x (newRouteAdds temp b) {} g).or (v x)) g old new := by
  intro e hown hrec
  have hnone : visit e (newRouteAdds temp b) {} g = none := visit_eq_none h rfl
  simpa [hnone] using hv e hown hrec

variable {off : Bool} (hoff : off = (e.hasCapture && !temp.hasCapture))
  (hl : e.routes = l₁ ++ existing :: l₂) (ht : temp.routes = l₁ ++ l₂)
  (hcap : existing.isCapture = true → e.hasCapture = true)
  (hnocap : existing.isCapture = false → temp.hasCapture = e.hasCapture)
  (hsome : ((R.getAncestorRoutes temp).find g).isSome = a.isSome)
  (hord : temp.hasCapture = false → ∀ w, (R.getAncestorRoutes temp).find g = some w →
    a = some w.cost)
  (hlast : existing.isCapture = true → temp.routes = [] → a = none)

include hoff hl ht hcap hnocap hsome hord hlast

lemma serves_erasedRoute
    (hopen : Reopens temp existing off → a ≠ none → minCost (inheritable g) temp.routes = none)
    (hinh : g = existing.faceId → existing.isChildInherit = true →
      minCost (inheritable g) temp.routes = none) :
    Serves (C := C) (visit · (erasedAdds R temp existing off) (erasedRemoves existing) g) g
      ((minCost (inheritable g) e.routes).or (if e.hasCapture then none else a))
      ((minCost (inheritable g) temp.routes).or (if temp.hasCapture then none else a)) := by
  have hclosed : ¬ Reopens temp existing off → temp.hasCapture = e.hasCapture ∨ a = none := by
    intro hno
    cases hc : existing.isCapture with
    | false => exact .inl (hnocap hc)
    | true =>
      by_cases hnil : temp.routes = []
      · exact .inr (hlast hc hnil)
      left
      by_contra hne
      exact hno (.inl ⟨hc, by simp_all, hnil⟩)
  have hfind := find_erasedAdds R temp existing off g
  by_cases hi : g = existing.faceId ∧ existing.isChildInherit = true
  · obtain ⟨hg, hci⟩ := hi
    have hrem : (erasedRemoves existing).find g = some existing := by simp [erasedRemoves, hci, hg]
    rw [hinh hg hci, none_or]
    rcases hfind with ⟨hre, hfind⟩ | ⟨hno, hfind⟩
    · have hc := hre.hasCapture hoff
      rw [hc, if_neg Bool.false_ne_true]
      refine visit_serves (fun w hw => hord hc w (hfind.symm.trans hw)) (fun hno _ => ?_)
        (by simp [hrem])
      simpa [hfind.symm.trans hno] using hsome.symm
    have hnew : (if temp.hasCapture = true then none else a) = none := by
      by_contra hne
      obtain ⟨hc, ha⟩ : temp.hasCapture = false ∧ a ≠ none := by
        cases hc : temp.hasCapture <;> simp_all
      have hce := ((hclosed hno).resolve_right ha).symm.trans hc
      cases hec : existing.isCapture with
      | true => simp [hcap hec] at hce
      | false => exact hno (.inr ⟨hec, hci, hc⟩)
    rw [hnew]
    exact visit_serves (by simp [hfind]) (fun _ _ => rfl) (by simp [hrem])
  have hrem : (erasedRemoves existing).find g = none := by
    rw [erasedRemoves]
    split
    next hci =>
      rw [RouteSet.find_single, if_neg fun hf => hi ⟨hf.symm, hci⟩]
    · rfl
  have hmin : minCost (inheritable g) e.routes = minCost (inheritable g) temp.routes := by
    rw [hl, ht, minCost_middle_of_neg]
    by_contra hne
    have hinh : existing.faceId = g ∧ existing.isChildInherit = true := by
      simpa [inheritable] using hne
    exact hi ⟨hinh.1.symm, hinh.2⟩
  rw [hmin]
  rcases hfind with ⟨hre, hfind⟩ | ⟨hno, hfind⟩
  · have hc := hre.hasCapture hoff
    cases hw : (R.getAncestorRoutes temp).find g with
    | some w =>
      have ha := hord hc w hw
      rw [hopen hre (by simp [ha]), hc, ha]
      exact serves_add (hfind.trans hw)
    | none =>
      have ha : a = none := by simpa [hw] using hsome.symm
      rw [ha, ite_self, ite_self]
      exact serves_same (hfind.trans hw) hrem
  · rcases hclosed hno with hc | ha
    · rw [hc]
      exact serves_same hfind hrem
    · rw [ha, ite_self, ite_self]
      exact serves_same hfind hrem

lemma serves_erased (hother : g ≠ existing.faceId → Reopens temp existing off → a ≠ none →
      minCost (inheritable g) temp.routes = none)
    (hnext : g = existing.faceId →
      existing.isChildInherit = true ∨ Reopens temp existing off ∧ a ≠ none →
      minCost (inheritable g) temp.routes ≠ none →
      ∃ b, next = some b ∧ Undercuts b g temp.routes)
    (hmin : ∀ b, next = some b → Undercuts b g temp.routes →
      minCost (inheritable g) temp.routes = some b.cost) :
    Serves (C := C) (fun x => (next.bind fun b => visit x (newRouteAdds temp b) {} g).or
        (visit x (erasedAdds R temp existing off) (erasedRemoves existing) g)) g
      ((minCost (inheritable g) e.routes).or (if e.hasCapture then none else a))
      ((minCost (inheritable g) temp.routes).or (if temp.hasCapture then none else a)) := by
  by_cases h : ∃ b, next = some b ∧ Undercuts b g temp.routes
  · obtain ⟨b, rfl, hu⟩ := h
    rw [hmin b rfl hu, some_or]
    refine serves_next ?_
    exact (find_newRouteAdds.resolve_right fun hno => hno.2 hu).1
  have hrest := serves_erasedRoute hoff hl ht hcap hnocap hsome hord hlast
    (fun hre ha => by
      by_cases hg : g = existing.faceId
      · by_contra hne
        exact h (hnext hg (.inr ⟨hre, ha⟩) hne)
      · exact hother hg hre ha)
    (fun hg hci => by
      by_contra hne
      exact h (hnext hg (.inl hci) hne))
  cases next with
  | none => exact hrest
  | some b =>
    refine serves_no_next ?_ hrest
    exact (find_newRouteAdds.resolve_left fun hyes => h ⟨b, rfl, hyes.2⟩).1

end Erased

end Serves

variable {C : Type} [LinearOrder C]

namespace Rib

def handedDown (R : Rib C) (g : FaceId) (n : Name C) : Option ℕ := arrives (R.gate g) n

def OrderedAbove (R : Rib C) (n : Name C) : Prop :=
  ∀ p ∈ R.names, Under p n → (R.entries p).FirstIsCheapest

variable {R : Rib C} {n x : Name C} {g : FaceId}

lemma gate_eq_gateOf : R.gate g x = gateOf g (R.content x) := by
  rw [gate, content]
  split
  · cases hm : minCost (inheritable g) (R.entries x).routes <;>
      simp [gateOf, hm, RibEntry.hasCapture]
  · rfl

lemma leaves_gate : leaves (R.gate g) n = (gateOf g (R.content n)).through (R.handedDown g n) := by
  rw [leaves, gate_eq_gateOf, handedDown]

lemma mem_of_gate_eq_emit {c : ℕ} (h : R.gate g x = .emit c) :
    x ∈ R.names ∧ ∃ r ∈ (R.entries x).routes, r.faceId = g := by
  rw [gate] at h
  split at h
  next hx =>
    cases hm : minCost (inheritable g) (R.entries x).routes with
    | some m =>
      obtain ⟨⟨r, hr, hi, -⟩, -⟩ := minCost_eq_some_iff.mp hm
      refine ⟨hx, r, hr, ?_⟩
      simp only [inheritable, Bool.and_eq_true, beq_iff_eq] at hi
      exact hi.1
    | none =>
      rw [hm] at h
      dsimp only at h
      split at h <;> cases h
  · cases h

section ChangedAt

variable {R' : Rib C} {c : Option (List Route × ℕ)}

section

variable (h : ChangedAt R R' n c)
include h

lemma ChangedAt.gate_other (hx : x ≠ n) : R'.gate g x = R.gate g x := by
  rw [gate_eq_gateOf, gate_eq_gateOf, h.other x hx]

lemma ChangedAt.handedDown_self : R'.handedDown g n = R.handedDown g n :=
  arrives_of_above fun _ hy => h.gate_other hy.2

lemma ChangedAt.leaves_self : leaves (R'.gate g) n = (gateOf g c).through (R.handedDown g n) := by
  rw [leaves_gate, h.self, h.handedDown_self]

end

end ChangedAt

lemma firstGate_eq (hx : x ∈ R.names) (h : (R.entries x).FirstIsCheapest) :
    (R.firstGate g x).map Route.cost = R.gate g x := by
  have hf := h g
  rw [firstGate, gate, if_pos hx, if_pos hx, ← hf]
  cases (R.entries x).routes.find? (inheritable g) with
  | some r => rfl
  | none => cases (R.entries x).hasCapture <;> rfl

lemma OrderedAbove.arrives_eq (h : R.OrderedAbove n) :
    (arrives (R.firstGate g) n).map Route.cost = R.handedDown g n := by
  rw [handedDown, ← arrives_map]
  refine arrives_of_above fun y hy => ?_
  by_cases hm : y ∈ R.names
  · exact firstGate_eq hm (h y hm hy)
  · rw [firstGate_of_not_mem hm, gate_of_not_mem hm]
    rfl

end Rib

end NfdGateway
