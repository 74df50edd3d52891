import NfdGateway.Rib.Tree
import NfdGateway.Rib.Updates

/-! Inheritance in the RIB tree: which entries a change of the routes handed down by an entry
concerns, that the traversal of a subtree visits exactly these, and what the walk up from an
entry collects. -/
namespace NfdGateway

open HandDown List Option

def minCost (p : Route → Bool) (l : List Route) : Option ℕ :=
  ((l.filter p).map Route.cost).min?

section MinCost

variable {p : Route → Bool} {l l' l₂ l₁ : List Route} {r : Route} {c : ℕ}

lemma minCost_eq_some_iff : minCost p l = some c ↔
    (∃ r ∈ l, p r = true ∧ r.cost = c) ∧ ∀ r ∈ l, p r = true → c ≤ r.cost := by
  simp only [minCost, min?_eq_some_iff, List.mem_map, mem_filter, and_assoc]
  refine and_congr_right fun _ => ⟨fun h r hr hp => h r.cost ⟨r, hr, hp, rfl⟩, ?_⟩
  rintro h _ ⟨r, hr, hp, rfl⟩
  exact h r hr hp

lemma minCost_eq_none_iff : minCost p l = none ↔ ∀ r ∈ l, p r = false := by
  simp [minCost]

lemma minCost_congr (h : ∀ r, p r = true → (r ∈ l ↔ r ∈ l')) : minCost p l = minCost p l' := by
  refine Option.ext fun c => ?_
  simp only [minCost_eq_some_iff]
  refine and_congr ⟨?_, ?_⟩ (forall_congr' fun r => ?_)
  · rintro ⟨r, hr, hp, hc⟩
    exact ⟨r, (h r hp).mp hr, hp, hc⟩
  · rintro ⟨r, hr, hp, hc⟩
    exact ⟨r, (h r hp).mpr hr, hp, hc⟩
  constructor
  · exact fun hl hr hp => hl ((h r hp).mpr hr) hp
  · exact fun hl hr hp => hl ((h r hp).mp hr) hp

lemma minCost_cons : minCost p (r :: l) =
    if p r then some ((minCost p l).elim r.cost (min r.cost)) else minCost p l := by
  by_cases hp : p r = true
  · rw [minCost, filter_cons_of_pos hp, map_cons, min?_cons, if_pos hp, minCost]
  · rw [minCost, filter_cons_of_neg hp, if_neg hp, minCost]

lemma minCost_middle : minCost p (l₁ ++ r :: l₂) = minCost p (r :: (l₁ ++ l₂)) := by
  refine minCost_congr fun w _ => ?_
  simp only [mem_append, mem_cons]
  tauto

lemma minCost_middle_of_neg (h : p r = false) :
    minCost p (l₁ ++ r :: l₂) = minCost p (l₁ ++ l₂) := by
  rw [minCost_middle, minCost_cons, if_neg (by simp [h])]

lemma foldl_pickCheaper (o : Option Route) :
    (l.foldl (RibEntry.pickCheaper p) o = none ↔ o = none ∧ ∀ r ∈ l, p r = false) ∧
    ∀ m, l.foldl (RibEntry.pickCheaper p) o = some m →
      (o = some m ∨ (m ∈ l ∧ p m = true)) ∧ (∀ r, o = some r → m.cost ≤ r.cost) ∧
        ∀ r ∈ l, p r = true → m.cost ≤ r.cost := by
  induction l generalizing o with
  | nil =>
    refine ⟨by simp, fun m hm => ⟨.inl hm, fun r hr => ?_, by simp⟩⟩
    rw [some.inj (hm.symm.trans hr)]
  | cons r l ih =>
    rw [foldl_cons]
    obtain ⟨hnone, hsome⟩ := ih (RibEntry.pickCheaper p o r)
    by_cases hp : p r = true
    · have hpick : ∃ w, RibEntry.pickCheaper p o r = some w ∧ (o = some w ∨ w = r) ∧
          w.cost ≤ r.cost ∧ ∀ x, o = some x → w.cost ≤ x.cost := by
        cases o with
        | none => exact ⟨r, by simp [RibEntry.pickCheaper, hp], by simp⟩
        | some c =>
          by_cases hlt : r.cost < c.cost
          · exact ⟨r, by simp [RibEntry.pickCheaper, hp, hlt], by simp, le_rfl, by simp [hlt.le]⟩
          · exact ⟨c, by simp [RibEntry.pickCheaper, hp, hlt], by simp, not_lt.mp hlt, by simp⟩
      obtain ⟨w, hw, hor, hwr, hwo⟩ := hpick
      rw [hw] at hnone hsome ⊢
      refine ⟨by simp [hnone, hp], fun m hm => ?_⟩
      obtain ⟨hmem, hle, hall⟩ := hsome m hm
      have hmw := hle w rfl
      refine ⟨?_, fun x hx => hmw.trans (hwo x hx), fun x hx hpx => ?_⟩
      · rcases hmem with hmem | ⟨hmem, hpm⟩
        · cases hmem
          rcases hor with hor | rfl
          · exact .inl hor
          · exact .inr ⟨by simp, hp⟩
        · exact .inr ⟨by simp [hmem], hpm⟩
      · rcases mem_cons.mp hx with rfl | hx
        · exact hmw.trans hwr
        · exact hall x hx hpx
    · have hpick : RibEntry.pickCheaper p o r = o := by simp [RibEntry.pickCheaper, hp]
      rw [hpick] at hnone hsome ⊢
      refine ⟨by simp [hnone, hp], fun m hm => ?_⟩
      obtain ⟨hmem, hle, hall⟩ := hsome m hm
      refine ⟨hmem.imp_right fun hm => ⟨by simp [hm.1], hm.2⟩, hle, fun x hx hpx => ?_⟩
      rcases mem_cons.mp hx with rfl | hx
      · exact absurd hpx hp
      · exact hall x hx hpx

lemma lowestCost_mem (h : RibEntry.lowestCost p l = some r) : r ∈ l ∧ p r = true :=
  (((foldl_pickCheaper none).2 r h).1).resolve_left (by simp)

lemma lowestCost_cost : (RibEntry.lowestCost p l).map Route.cost = minCost p l := by
  cases h : RibEntry.lowestCost p l with
  | none => exact (minCost_eq_none_iff.mpr ((foldl_pickCheaper none).1.mp h).2).symm
  | some m =>
    obtain ⟨hm, hp⟩ := lowestCost_mem h
    exact (minCost_eq_some_iff.mpr ⟨⟨m, hm, hp, rfl⟩, ((foldl_pickCheaper none).2 m h).2.2⟩).symm

lemma lowestChildInherit_spec {C : Type} {e : RibEntry C} {f : FaceId}
    (h : e.getRouteWithLowestCostAndChildInheritByFaceId f = some r) :
    r.faceId = f ∧ r.isChildInherit = true := by
  simpa using (lowestCost_mem h).2

end MinCost

namespace Rib

variable {C : Type} {R : Rib C} {n x k : Name C} {g : FaceId}

def inheritable (g : FaceId) (r : Route) : Bool := r.faceId == g && r.isChildInherit

lemma hasChildInheritOnFaceId_eq_false {e : RibEntry C} :
    e.hasChildInheritOnFaceId g = false ↔ minCost (inheritable g) e.routes = none := by
  rw [minCost_eq_none_iff, RibEntry.hasChildInheritOnFaceId, List.any_eq_false]
  exact forall₂_congr fun r _ => by rw [Bool.not_eq_true]; rfl

variable [LinearOrder C]

/-- What an entry does to the routes on a face that come from above: it sends its own cheapest
CHILD_INHERIT route, or stops all with CAPTURE, or passes them on. -/
def gate (R : Rib C) (g : FaceId) (x : Name C) : Gate ℕ :=
  if x ∈ R.names then
    match minCost (inheritable g) (R.entries x).routes with
    | some c => .emit c
    | none => if (R.entries x).hasCapture then .stop else .pass
  else .pass

lemma gate_of_not_mem (h : x ∉ R.names) : R.gate g x = .pass := if_neg h

lemma gate_eq_pass_iff (h : x ∈ R.names) : R.gate g x = .pass ↔
    (R.entries x).hasCapture = false ∧ (R.entries x).hasChildInheritOnFaceId g = false := by
  rw [hasChildInheritOnFaceId_eq_false, gate, if_pos h]
  cases hm : minCost (inheritable g) (R.entries x).routes with
  | some c => simp
  | none => cases hc : (R.entries x).hasCapture <;> simp

def Heir (R : Rib C) (n : Name C) (g : FaceId) (x : Name C) : Prop :=
  x ∈ R.names ∧ Open (R.gate g) n x ∧ R.gate g x = .pass

lemma Kid.heir (hk : R.Kid n k) (hp : R.gate g k = .pass)
    (hx : x = k ∨ R.Heir k g x) : R.Heir n g x := by
  have hbetween : ∀ y, Under n y → Under y k → R.gate g y = .pass := fun y hy hyk =>
    gate_of_not_mem fun hm => hk.2.2 y hm hy hyk
  rcases hx with rfl | ⟨hx, ho, hpx⟩
  · exact ⟨hk.1, ⟨hk.2.1, hbetween⟩, hp⟩
  refine ⟨hx, ⟨hk.2.1.trans_isPrefix ho.1.1, fun y hny hyx => ?_⟩, hpx⟩
  rcases Under.total hyx.1 ho.1.1 with hyk | hky
  · by_cases he : y = k
    · exact he ▸ hp
    · exact hbetween y hny ⟨hyk, he⟩
  · exact ho.2 y hky hyx

lemma Heir.exists_kid (h : R.Heir n g x) :
    ∃ k, R.Kid n k ∧ k <+: x ∧ R.gate g k = .pass ∧ (x = k ∨ R.Heir k g x) := by
  obtain ⟨hx, ho, hp⟩ := h
  obtain ⟨k, hk, hkx⟩ := Rib.exists_kid hx ho.1
  by_cases he : k = x
  · exact ⟨k, hk, hkx, he ▸ hp, .inl he.symm⟩
  · refine ⟨k, hk, hkx, ho.2 k hk.2.1 ⟨hkx, he⟩, .inr ⟨hx, ⟨⟨hkx, he⟩, fun y hky hyx => ?_⟩, hp⟩⟩
    exact ho.2 y (Under.of_isPrefix hk.2.1.1 hky) hyx

end Rib

namespace FibUpdater

variable {C : Type} {R : Rib C} {n x k : Name C} {g : FaceId} {add rem : RouteSet}

/-- What a visit leaves for a face of the entry: a route to add that does not override an own
route, else the removal of a recorded one. -/
def visit (e : RibEntry C) (add rem : RouteSet) (g : FaceId) : Option (Option ℕ) :=
  (if e.hasFaceId g = false then (add.find g).map (some ·.cost) else none).or
    (if e.hasInheritedRoute g = true ∧ (rem.find g).isSome then some none else none)

lemma visit_congr {e : RibEntry C} {add' rem' : RouteSet} (ha : add'.find g = add.find g)
    (hr : rem'.find g = rem.find g) : visit e add' rem' g = visit e add rem g := by
  rw [visit, visit, ha, hr]

lemma visit_eq_none {e : RibEntry C} (ha : add.find g = none) (hr : rem.find g = none) :
    visit e add rem g = none := by
  simp [visit, ha, hr]

@[simp] lemma visit_empty {e : RibEntry C} : visit e {} {} g = none := visit_eq_none rfl rfl

lemma length_le_height (h : x ∈ R.names) : x.length ≤ height R := by
  have hmax : ∀ (l : List ℕ), ∀ a ∈ l, a ≤ l.foldr max 0 := by
    intro l
    induction l with
    | nil => simp
    | cons b l ih =>
      intro a ha
      rcases mem_cons.mp ha with rfl | ha
      · exact Nat.le_max_left _ _
      · exact (ih a ha).trans (Nat.le_max_right _ _)
  exact hmax _ _ (List.mem_map_of_mem h)

variable [LinearOrder C]

lemma pending_visit {e : RibEntry C} :
    pending (removeInheritedRoutes e rem ++ addInheritedRoutes e add) (x, g) =
      if x = e.name then visit e add rem g else none := by
  rw [pending_append, pending_removeInheritedRoutes, pending_addInheritedRoutes]
  by_cases hx : x = e.name
  · simp [visit, hx]
  · simp [hx]

/-! The traversal, read in any way that sees nothing where the calls say nothing about a name
and a face. -/

section Reads

variable {M : Type} {read : List (Call C) → M} {z : M} {v : RibEntry C → RouteSet → RouteSet → M}
  {children : List (Name C)} {T : Name C → List (Call C)}

def SeesOne (read : List (Call C) → M) (z : M) (children : List (Name C)) : Prop :=
  ∀ (T : Name C → List (Call C)), ∀ k ∈ children, (∀ c ∈ children, c ≠ k → read (T c) = z) →
    read (children.flatMap T) = read (T k)

structure Reads (R : Rib C) (x : Name C) (g : FaceId) (read : List (Call C) → M) (z : M)
    (v : RibEntry C → RouteSet → RouteSet → M) : Prop where
  nil : read [] = z
  append_left : ∀ l l', read l = z → read (l ++ l') = read l'
  append_right : ∀ l l', read l' = z → read (l ++ l') = read l
  kids : ∀ n ∈ R.names, SeesOne read z (R.childrenOf n)
  visit : ∀ e add rem, read (removeInheritedRoutes e rem ++ addInheritedRoutes e add) =
    if x = e.name then v e add rem else z
  visit_none : ∀ e add rem, add.find g = none → rem.find g = none → v e add rem = z
  visit_congr : ∀ e add rem add' rem', add'.find g = add.find g → rem'.find g = rem.find g →
    v e add' rem' = v e add rem

section

variable (hr : Reads R x g read z v)
include hr

lemma Reads.flatMap_none (h : ∀ c ∈ children, read (T c) = z) : read (children.flatMap T) = z := by
  induction children with
  | nil => exact hr.nil
  | cons c cs ih =>
    rw [flatMap_cons, hr.append_left _ _ (h c (by simp))]
    exact ih fun d hd => h d (by simp [hd])

lemma Reads.subtrees {w : M} (hone : SeesOne read z children) (hc : ∀ c, c ∈ children ↔ R.Kid n c)
    (hT : ∀ c, R.Kid n c →
      (R.gate g c = .pass ∧ (x = c ∨ R.Heir c g x) → read (T c) = w) ∧
      (¬ (R.gate g c = .pass ∧ (x = c ∨ R.Heir c g x)) → read (T c) = z)) :
    (R.Heir n g x → read (children.flatMap T) = w) ∧
    (¬ R.Heir n g x → read (children.flatMap T) = z) := by
  constructor
  · intro hx
    obtain ⟨k, hk, hkx, hp, hor⟩ := hx.exists_kid
    rw [hone T k ((hc k).mpr hk) fun c hcm hne => ?_]
    · exact (hT k hk).1 ⟨hp, hor⟩
    have hkid := (hc c).mp hcm
    refine (hT c hkid).2 fun hcx => hne (hkid.eq_of_isPrefix hk ?_ hkx)
    rcases hcx.2 with rfl | hcx
    · exact prefix_rfl
    · exact hcx.2.1.1.1
  · intro hx
    refine hr.flatMap_none fun c hcm => ?_
    have hkid := (hc c).mp hcm
    exact (hT c hkid).2 fun hcx => hx (hkid.heir hcx.1 hcx.2)

lemma Reads.traverseSubTree {fuel : ℕ} (h : R.TreeInv)
    (hk : k ∈ R.names) (hfuel : height R < fuel + k.length) :
    (R.gate g k = .pass ∧ (x = k ∨ R.Heir k g x) →
      read (traverseSubTree R fuel add rem k) = v (R.entries x) add rem) ∧
    (¬ (R.gate g k = .pass ∧ (x = k ∨ R.Heir k g x)) →
      read (traverseSubTree R fuel add rem k) = z) := by
  induction fuel generalizing k add rem with
  | zero => exact absurd (length_le_height hk) (by omega)
  | succ fuel ih =>
    have hpass := Rib.gate_eq_pass_iff (g := g) hk
    rw [FibUpdater.traverseSubTree]
    by_cases hcap : (R.entries k).hasCapture = true
    · rw [if_pos hcap]
      refine ⟨fun hp => ?_, fun _ => hr.nil⟩
      simp [(hpass.mp hp.1).1] at hcap
    rw [if_neg hcap]
    dsimp only
    set add' := add.filter (!(R.entries k).hasChildInheritOnFaceId ·.faceId) with hadd'
    set rem' := rem.filter (!(R.entries k).hasChildInheritOnFaceId ·.faceId) with hrem'
    have hfilter : ∀ s : RouteSet,
        (s.filter (!(R.entries k).hasChildInheritOnFaceId ·.faceId)).find g =
          if (R.entries k).hasChildInheritOnFaceId g = false then s.find g else none := fun s => by
      rw [RouteSet.find_filter (p := fun f => !(R.entries k).hasChildInheritOnFaceId f)]
      simp
    have hadd := hfilter add
    have hrem := hfilter rem
    have hkids : ∀ c, c ∈ (R.entries k).children ↔ R.Kid k c := fun c => h.kid_iff hk
    have hone : SeesOne read z (R.entries k).children := hr.kids k hk
    obtain ⟨hheir, hno⟩ := hr.subtrees
      hone hkids fun c hc => ih hc.1 (by have := hc.2.1.length_lt; omega)
    have hself : ¬ R.Heir k g k := fun hh => hh.2.1.1.2 rfl
    have hvisit := hr.visit (R.entries k) add' rem'
    rw [h.name_eq k hk] at hvisit
    by_cases hci : (R.entries k).hasChildInheritOnFaceId g = true
    · -- the face is blocked here: nothing is left to add or to remove
      simp only [hci, Bool.true_eq_false, if_false] at hadd hrem
      have hv : ∀ e : RibEntry C, v e add' rem' = z := fun e => hr.visit_none e _ _ hadd hrem
      have hkids : read ((R.entries k).children.flatMap
          (FibUpdater.traverseSubTree R fuel add' rem')) = z := by
        by_cases hx : R.Heir k g x
        · exact (hheir hx).trans (hv _)
        · exact hno hx
      rw [hv, ite_self] at hvisit
      refine ⟨fun hp => ?_, fun _ => (hr.append_right _ _ hkids).trans hvisit⟩
      simp [(hpass.mp hp.1).2] at hci
    have hgp : R.gate g k = .pass := hpass.mpr ⟨by simpa using hcap, by simpa using hci⟩
    have hci : (R.entries k).hasChildInheritOnFaceId g = false := by simpa using hci
    rw [if_pos hci] at hadd hrem
    have hv : ∀ e : RibEntry C, v e add' rem' = v e add rem :=
      fun e => hr.visit_congr e _ _ _ _ hadd hrem
    by_cases hx : x = k
    · subst hx
      rw [if_pos rfl] at hvisit
      refine ⟨fun _ => ?_, fun hp => absurd ⟨hgp, .inl rfl⟩ hp⟩
      rw [hr.append_right _ _ (hno hself), hvisit, hv]
    · rw [if_neg hx] at hvisit
      rw [hr.append_left _ _ hvisit]
      refine ⟨fun hp => ?_, fun hp => hno fun hh => hp ⟨hgp, .inr hh⟩⟩
      rw [hheir (hp.2.resolve_left hx), hv]

lemma Reads.modifyChildrensInheritedRoutes (h : R.TreeInv)
    (hone : SeesOne read z children) (hc : ∀ c, c ∈ children ↔ R.Kid n c) :
    (R.Heir n g x → read (modifyChildrensInheritedRoutes R children add rem) =
      v (R.entries x) add rem) ∧
    (¬ R.Heir n g x → read (modifyChildrensInheritedRoutes R children add rem) = z) :=
  hr.subtrees hone hc fun _ hc => hr.traverseSubTree h hc.1 (by omega)

end

end Reads

lemma reads_pending : Reads R x g (pending · (x, g)) none (visit · · · g) where
  nil := rfl
  append_left l l' hl := by simp [hl]
  append_right l l' hl := by simp [hl]
  kids _ _ _ _ hk h := pending_flatMap_of_unique hk h
  visit _ _ _ := pending_visit
  visit_none _ _ _ := visit_eq_none
  visit_congr _ _ _ _ _ := visit_congr

lemma pending_modifyChildrensInheritedRoutes {children : List (Name C)} (h : R.TreeInv)
    (hc : ∀ c, c ∈ children ↔ R.Kid n c) :
    (R.Heir n g x → pending (modifyChildrensInheritedRoutes R children add rem) (x, g) =
      visit (R.entries x) add rem g) ∧
    (¬ R.Heir n g x →
      pending (modifyChildrensInheritedRoutes R children add rem) (x, g) = none) :=
  reads_pending.modifyChildrensInheritedRoutes h (fun _ _ hk h => pending_flatMap_of_unique hk h) hc

end FibUpdater

namespace Rib

variable {C : Type} {R : Rib C} {n p : Name C} {P : Option (Name C)} {g : FaceId}

lemma arrives_of_nearest {V : Type} {gate : Name C → Gate V}
    (hpass : ∀ y, y ∉ R.names → gate y = .pass) (h : R.Nearest n P) :
    arrives gate n = P.bind (leaves gate) := by
  cases P with
  | none => exact arrives_eq_none fun y hy => hpass y fun hm => h y hm hy
  | some p =>
    refine arrives_of_open ⟨h.2.1, fun y hpy hyn => hpass y fun hm => ?_⟩
    exact hpy.not_isPrefix (h.2.2 y hm hyn)

variable [LinearOrder C]

def firstGate (R : Rib C) (g : FaceId) (x : Name C) : Gate Route :=
  if x ∈ R.names then
    match (R.entries x).routes.find? (inheritable g) with
    | some r => .emit r
    | none => if (R.entries x).hasCapture then .stop else .pass
  else .pass

lemma firstGate_of_not_mem {y : Name C} (h : y ∉ R.names) : R.firstGate g y = .pass := if_neg h

lemma find_foldl_insert {l : List Route} {s : RouteSet} :
    (l.foldl (fun s r => if r.isChildInherit then s.insert r else s) s).find g =
      (s.find g).or (l.find? (inheritable g)) := by
  induction l generalizing s with
  | nil => simp
  | cons r l ih =>
    rw [foldl_cons, ih, find?_cons]
    cases hci : r.isChildInherit with
    | false => simp [inheritable, hci]
    | true =>
      by_cases hf : r.faceId = g
      · simp [inheritable, hci, hf, RouteSet.find_insert]
      · have hne : (r.faceId == g) = false := by simpa using hf
        simp [inheritable, hci, hf, hne, RouteSet.find_insert]

lemma find_ancestorRoutesFrom (h : R.TreeInv) {fuel : ℕ} {s : RouteSet}
    (hP : ∀ p, P = some p → p ∈ R.names ∧ p.length < fuel) :
    (R.ancestorRoutesFrom fuel P s).find g =
      (s.find g).or (P.bind (leaves (R.firstGate g))) := by
  induction fuel generalizing P s with
  | zero =>
    cases P with
    | none => simp [ancestorRoutesFrom]
    | some p => exact absurd (hP p rfl).2 (Nat.not_lt_zero _)
  | succ fuel ih =>
    cases P with
    | none => simp [ancestorRoutesFrom]
    | some p =>
      obtain ⟨hp, hlen⟩ := hP p rfl
      have hnear := h.parent p hp
      have hup : arrives (R.firstGate g) p = (R.entries p).parent.bind (leaves (R.firstGate g)) :=
        arrives_of_nearest (fun y => firstGate_of_not_mem) hnear
      have hrec : ∀ q, (R.entries p).parent = some q → q ∈ R.names ∧ q.length < fuel := by
        intro q hq
        rw [parentOf, hq] at hnear
        have := hnear.2.1.length_lt
        exact ⟨hnear.1, by omega⟩
      rw [ancestorRoutesFrom, bind_some, leaves, firstGate, if_pos hp, hup]
      cases hf : (R.entries p).routes.find? (inheritable g) with
      | some r | none =>
        split
        · simp [find_foldl_insert, hf]
        · rw [ih hrec, find_foldl_insert, hf]
          simp

lemma find_getAncestorRoutes (h : R.TreeInv) (hn : n ∈ R.names) {e : RibEntry C}
    (hname : e.name = n) (hp : e.parent = R.parentOf n) :
    (R.getAncestorRoutes e).find g = arrives (R.firstGate g) n := by
  have hnear := h.parent n hn
  rw [arrives_of_nearest (fun y => firstGate_of_not_mem) hnear, getAncestorRoutes, hname, hp,
    find_ancestorRoutesFrom h fun p hq => ?_]
  · simp
  · rw [hq] at hnear
    exact ⟨hnear.1, hnear.2.1.length_lt⟩

lemma find_getAncestorRoutesOfName (h : R.TreeInv) :
    (R.getAncestorRoutesOfName n).find g = arrives (R.firstGate g) n := by
  have hnear := findParent_nearest (R := R) (n := n)
  rw [arrives_of_nearest (fun y => firstGate_of_not_mem) hnear, getAncestorRoutesOfName,
    find_ancestorRoutesFrom h fun p hq => ?_]
  · simp
  · rw [hq] at hnear
    exact ⟨hnear.1, hnear.2.1.length_lt⟩

lemma arrives_firstGate_isSome :
    (arrives (R.firstGate g) n).isSome = (arrives (R.gate g) n).isSome := by
  have hgate : ∀ x, (R.firstGate g x).map (fun _ => ()) = (R.gate g x).map fun _ => () := by
    intro x
    have hnone : (R.entries x).routes.find? (inheritable g) = none ↔
        minCost (inheritable g) (R.entries x).routes = none := by
      rw [minCost_eq_none_iff, find?_eq_none]
      exact forall₂_congr fun _ _ => by rw [Bool.not_eq_true]
    by_cases hx : x ∈ R.names
    · rw [firstGate, gate, if_pos hx, if_pos hx]
      cases hf : (R.entries x).routes.find? (inheritable g) with
      | none =>
        rw [hnone.mp hf]
        cases (R.entries x).hasCapture <;> rfl
      | some r =>
        cases hm : minCost (inheritable g) (R.entries x).routes with
        | none => exact absurd (hnone.mpr hm) (by simp [hf])
        | some c => rfl
    · rw [firstGate, gate, if_neg hx, if_neg hx]
      rfl
  have hmap := congrArg (fun gt => (arrives gt n).isSome) (funext hgate)
  simpa [arrives_map] using hmap

end Rib

end NfdGateway
