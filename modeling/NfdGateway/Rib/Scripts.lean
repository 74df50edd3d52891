import NfdGateway.Lib.Slot
import NfdGateway.Rib.Calls
import NfdGateway.Rib.WellFormed

/-! The records of inherited routes, face by face: what a sequence of RIB updates does to them
is a script of additions and removals, and the nexthops follow the last step of it. -/
namespace NfdGateway

open Slot List

namespace RibEntry

variable {C : Type} {e e' : RibEntry C} {r : Route} {g : FaceId}

def inheritedCosts (e : RibEntry C) (g : FaceId) : List ℕ :=
  (e.inheritedRoutes.filter (·.faceId == g)).map (·.cost)

lemma inheritedCosts_eq_nil_iff : e.inheritedCosts g = [] ↔ e.hasInheritedRoute g = false := by
  simp [inheritedCosts, hasInheritedRoute]

lemma mem_inheritedCosts {cost : ℕ} : cost ∈ e.inheritedCosts g ↔
    ∃ r ∈ e.inheritedRoutes, r.faceId = g ∧ r.cost = cost := by
  simp [inheritedCosts, and_assoc]

lemma inheritedCosts_addInheritedRoute : (e.addInheritedRoute r).inheritedCosts g =
    e.inheritedCosts g ++ if r.faceId = g then [r.cost] else [] := by
  by_cases hg : r.faceId = g <;> simp [inheritedCosts, addInheritedRoute, hg]

lemma filter_eraseP_face (l : List Route) :
    (l.eraseP (·.faceId == r.faceId)).filter (·.faceId == g) =
      if r.faceId = g then (l.filter (·.faceId == g)).drop 1 else l.filter (·.faceId == g) := by
  induction l with
  | nil => simp
  | cons w l ih =>
    by_cases hw : w.faceId = r.faceId
    · rw [eraseP_cons_of_pos (by simpa using hw), filter_cons, hw]
      by_cases hg : r.faceId = g <;> simp [hg]
    rw [eraseP_cons_of_neg (by simpa using hw), filter_cons, filter_cons, ih]
    by_cases hg : r.faceId = g
    · subst hg
      simp [hw]
    · simp [hg]

lemma inheritedCosts_removeInheritedRoute (h : e.removeInheritedRoute r = some e') :
    e'.inheritedCosts g =
      if r.faceId = g then (e.inheritedCosts g).drop 1 else e.inheritedCosts g := by
  rw [removeInheritedRoute] at h
  split at h
  · cases h
    rw [inheritedCosts, filter_eraseP_face]
    split
    · rw [map_drop, inheritedCosts]
    · rfl
  · cases h

end RibEntry

namespace Rib

variable {C : Type} [LinearOrder C] {R R' : Rib C} {us : List (RibUpdate C)} {u : RibUpdate C}
  {x : Name C} {g : FaceId} {k : Name C × FaceId}

lemma script_cons : script (u :: us) k = (recordFor k u).toList ++ script us k := by
  rw [script, filterMap_cons]
  cases recordFor k u <;> rfl

lemma inheritedCosts_setEntry {e : RibEntry C} :
    ((R.setEntry u.name e).entries x).inheritedCosts g =
      if u.name = x then e.inheritedCosts g else (R.entries x).inheritedCosts g := by
  by_cases hx : u.name = x
  · simp [setEntry, hx]
  · simp [setEntry, hx, Ne.symm hx]

lemma modifyInheritedRoutes_replay (hn : ∀ u ∈ us, u.name ∈ R.names)
    (h : ∀ x g, ∃ l, replay (script us (x, g)) ((R.entries x).inheritedCosts g) = some l) :
    ∃ R', modifyInheritedRoutes us R = some R' ∧ SameButRecords R R' ∧ ∀ x g,
      replay (script us (x, g)) ((R.entries x).inheritedCosts g) =
        some ((R'.entries x).inheritedCosts g) := by
  induction us generalizing R with
  | nil => exact ⟨R, rfl, .refl, fun _ _ => rfl⟩
  | cons u us ih =>
    have hu : u.name ∈ R.names := hn u (by simp)
    have hrest : ∀ e : RibEntry C, ∀ w ∈ us, w.name ∈ (R.setEntry u.name e).names :=
      fun e w hw => hn w (by simp [hw])
    rw [modifyInheritedRoutes, if_pos hu]
    cases ha : u.action with
    | register =>
      have hstep : ∀ x g, replay (script (u :: us) (x, g)) ((R.entries x).inheritedCosts g) =
          replay (script us (x, g)) (((R.setEntry u.name
            ((R.entries u.name).addInheritedRoute u.route)).entries x).inheritedCosts g) := by
        intro x g
        rw [script_cons, inheritedCosts_setEntry, recordFor]
        by_cases hx : u.name = x
        · subst hx
          rw [RibEntry.inheritedCosts_addInheritedRoute]
          by_cases hg : u.route.faceId = g <;> simp [hg, ha, replay]
        · simp [hx]
      obtain ⟨R', hR', hsame, hrep⟩ := ih (hrest _) fun x g => hstep x g ▸ h x g
      exact ⟨R', hR', (sameButRecords_setEntry ⟨_, rfl⟩).trans hsame,
        fun x g => (hstep x g).trans (hrep x g)⟩
    | unregister =>
      -- the script of the named face starts with a removal, so there is something to remove
      have hhas : (R.entries u.name).hasInheritedRoute u.route.faceId = true := by
        by_contra hno
        obtain ⟨l, hl⟩ := h u.name u.route.faceId
        rw [Bool.not_eq_true, ← RibEntry.inheritedCosts_eq_nil_iff] at hno
        simp [script_cons, recordFor, ha, hno, replay] at hl
      obtain ⟨e, he⟩ : ∃ e, (R.entries u.name).removeInheritedRoute u.route = some e :=
        ⟨_, if_pos hhas⟩
      have hstep : ∀ x g, replay (script (u :: us) (x, g)) ((R.entries x).inheritedCosts g) =
          replay (script us (x, g)) (((R.setEntry u.name e).entries x).inheritedCosts g) := by
        intro x g
        rw [script_cons, inheritedCosts_setEntry, recordFor]
        by_cases hx : u.name = x
        · subst hx
          rw [RibEntry.inheritedCosts_removeInheritedRoute he]
          by_cases hg : u.route.faceId = g
          · subst hg
            have hne : (R.entries u.name).inheritedCosts u.route.faceId ≠ [] := by
              simp [RibEntry.inheritedCosts_eq_nil_iff, hhas]
            cases hc : (R.entries u.name).inheritedCosts u.route.faceId with
            | nil => exact absurd hc hne
            | cons c l => simp [ha, replay]
          · simp [hg]
        · simp [hx]
      obtain ⟨R', hR', hsame, hrep⟩ := ih (hrest e) fun x g => hstep x g ▸ h x g
      refine ⟨R', ?_, (sameButRecords_setEntry (RibEntry.removeInheritedRoute_same he)).trans hsame,
        fun x g => (hstep x g).trans (hrep x g)⟩
      simp only [he, Option.bind_some]
      exact hR'
    | removeFace =>
      have hstep : ∀ x g, script (u :: us) (x, g) = script us (x, g) := by
        intro x g
        rw [script_cons, recordFor, ha]
        split <;> rfl
      obtain ⟨R', hR', hsame, hrep⟩ := ih (fun w hw => hn w (by simp [hw]))
        fun x g => hstep x g ▸ h x g
      exact ⟨R', hR', hsame, fun x g => hstep x g ▸ hrep x g⟩

end Rib

namespace FibUpdater

open Rib

variable {C : Type} [LinearOrder C] {R : Rib C} {calls calls' : List (Call C)}
  {k : Name C × FaceId} {n x : Name C} {f g : FaceId} {r r₀ : Route} {e temp : RibEntry C}
  {s add rem : RouteSet} {children : List (Name C)}

def visitRecords (e : RibEntry C) (add rem : RouteSet) (g : FaceId) : List (Option ℕ) :=
  (if e.hasInheritedRoute g = true ∧ (rem.find g).isSome then [none] else []) ++
    if e.hasFaceId g = false then ((add.find g).map (some ·.cost)).toList else []

lemma records_visit :
    records (removeInheritedRoutes e rem ++ addInheritedRoutes e add) (x, g) =
      if x = e.name then visitRecords e add rem g else [] := by
  rw [records_append, records_removeInheritedRoutes, records_addInheritedRoutes]
  by_cases hx : x = e.name
  · simp [visitRecords, hx]
  · simp [hx]

lemma seesOne_records (h : children.Nodup) :
    SeesOne (fun calls : List (Call C) => records calls k) [] children := by
  intro T c hc hother
  exact records_flatMap.trans (flatMap_of_unique h hc hother)

lemma reads_records (hk : KidsOnce R) :
    Reads R x g (records · (x, g)) [] (visitRecords · · · g) where
  nil := rfl
  append_left l l' hl := by simp [hl]
  append_right l l' hl := by simp [hl]
  kids n hn := seesOne_records (hk n hn)
  visit _ _ _ := records_visit
  visit_none e add rem ha hr := by simp [visitRecords, ha, hr]
  visit_congr e add rem add' rem' ha hr := by simp [visitRecords, ha, hr]

lemma records_modify (hk : KidsOnce R) (h : R.TreeInv) (hnodup : children.Nodup)
    (hc : ∀ c, c ∈ children ↔ R.Kid n c) :
    (R.Heir n g x → records (modifyChildrensInheritedRoutes R children add rem) (x, g) =
      visitRecords (R.entries x) add rem g) ∧
    (¬ R.Heir n g x →
      records (modifyChildrensInheritedRoutes R children add rem) (x, g) = []) :=
  (reads_records hk).modifyChildrensInheritedRoutes h (seesOne_records hnodup) hc

lemma Linked.once (hl : Linked R n e) (hk : KidsOnce R) : e.children.Nodup := by
  rw [hl.children]
  exact hk n hl.mem

/-! Entries other than the updated one. -/

lemma records_others (hx : x ≠ n) : records (others n calls) (x, g) = records calls (x, g) := by
  induction calls with
  | nil => rfl
  | cons c calls ih =>
    have hsplit : ∀ l : List (Call C), records (c :: l) (x, g) =
        records [c] (x, g) ++ records l (x, g) := fun l =>
      show records ([c] ++ l) (x, g) = _ from records_append
    by_cases hc : c.name = n
    · have hnone : records [c] (x, g) = [] := by
        cases c with
        | fibUpdate u => rfl
        | inheritedRoute u =>
          have hk : (u.name, u.route.faceId) ≠ (x, g) := fun he =>
            hx ((congrArg Prod.fst he).symm.trans hc)
          simp [records, Call.inheritedRoute?, script, recordFor, hk]
      rw [hsplit, hnone, nil_append, ← ih]
      simp [others, hc]
    · have hcons : others n (c :: calls) = c :: others n calls := by simp [others, hc]
      rw [hcons, hsplit, ih, ← hsplit]

structure Visits (R : Rib C) (n : Name C) (calls : List (Call C)) (children : List (Name C))
    (add rem add' rem' : RouteSet) : Prop where
  others : others n calls = others n (modifyChildrensInheritedRoutes R children add rem ++
    modifyChildrensInheritedRoutes R children add' rem')
  nodup : children.Nodup
  kids : ∀ c, c ∈ children ↔ R.Kid n c

variable {add' rem' : RouteSet}

section

variable (h : Visits R n calls children add rem add' rem')
include h

lemma Visits.nexthop (hx : x ≠ n) : pending calls (x, g) = (records calls (x, g)).getLast? := by
  rw [← pending_others hx, ← records_others hx, h.others, pending_others hx, records_others hx]
  exact (scripted_modify.append scripted_modify).nexthop

lemma Visits.records_heir (ht : R.TreeInv)
    (hk : KidsOnce R) (hx : R.Heir n g x) (hxn : x ≠ n) : records calls (x, g) =
      visitRecords (R.entries x) add rem g ++ visitRecords (R.entries x) add' rem' g := by
  rw [← records_others hxn, h.others, records_others hxn, records_append,
    (records_modify hk ht h.nodup h.kids).1 hx, (records_modify hk ht h.nodup h.kids).1 hx]

lemma Visits.records_other (ht : R.TreeInv)
    (hk : KidsOnce R) (hx : ¬ R.Heir n g x) (hxn : x ≠ n) : records calls (x, g) = [] := by
  rw [← records_others hxn, h.others, records_others hxn, records_append,
    (records_modify hk ht h.nodup h.kids).2 hx, (records_modify hk ht h.nodup h.kids).2 hx]
  rfl

end

end FibUpdater

end NfdGateway
