import NfdGateway.Rib.FibUpdater

/-! The effect of a sequence of updater calls, key by key: the update that is left for a name
and a face, and the inherited route that is left on record. -/
namespace NfdGateway

open List Option Function

namespace RouteSet

variable {s : RouteSet} {r b : Route} {f g : FaceId}

lemma find_eq_some (h : s.find g = some r) : r ∈ s.routes ∧ r.faceId = g :=
  ⟨mem_of_find?_eq_some h, by simpa using find?_some h⟩

lemma eq_of_faceId_eq (hr : r ∈ s.routes) (hb : b ∈ s.routes) (h : r.faceId = b.faceId) :
    r = b := by
  by_contra hne
  have : Std.Symm fun a b : Route => a.faceId ≠ b.faceId := ⟨fun _ _ h => h.symm⟩
  have hs := s.sorted.imp fun h => ne_of_lt h
  exact hs.forall hr hb hne h

lemma find_eq_none (h : s.find g = none) (hb : b ∈ s.routes) : b.faceId ≠ g := by
  simpa using find?_eq_none.mp h b hb

@[simp] lemma find_empty : ({} : RouteSet).find g = none := rfl

lemma find?_insertInto {l : List Route} (hl : l.Pairwise (·.faceId < ·.faceId)) :
    (insertInto r l).find? (·.faceId == g) =
      (l.find? (·.faceId == g)).or (if r.faceId = g then some r else none) := by
  induction l with
  | nil => by_cases h : r.faceId = g <;> simp [insertInto, h]
  | cons w l ih =>
    obtain ⟨hw, hl⟩ := pairwise_cons.mp hl
    simp only [insertInto]
    split
    next hlt =>
      by_cases h : r.faceId = g
      · have hnone : (w :: l).find? (·.faceId == g) = none := by
          refine find?_eq_none.mpr fun x hx => ?_
          rcases mem_cons.mp hx with rfl | hx
          · simpa [← h] using hlt.ne'
          · simpa [← h] using (hlt.trans (hw x hx)).ne'
        rw [hnone]
        simp [h]
      · simp [find?_cons, h]
    next hle =>
      split
      · by_cases hg : w.faceId = g
        · simp [hg]
        · simp [hg, ih hl]
      rename_i hge
      have he : w.faceId = r.faceId := le_antisymm (not_lt.mp hle) (not_lt.mp hge)
      by_cases hg : w.faceId = g
      · simp [hg]
      · simp [hg, he ▸ hg]

lemma find_insert : (s.insert r).find g =
    (s.find g).or (if r.faceId = g then some r else none) := find?_insertInto s.sorted

@[simp] lemma find_single : (single r).find g = if r.faceId = g then some r else none := by
  rw [single, find_insert, find_empty, none_or]

lemma find_filter {p : FaceId → Bool} :
    (s.filter (p ·.faceId)).find g = if p g then s.find g else none := by
  rw [find, filter, find?_filter]
  split
  next hp =>
    refine find?_congr fun r _ => ?_
    by_cases hr : r.faceId = g
    · simp [hr, hp]
    · simp [hr]
  next hp =>
    refine find?_eq_none.mpr fun r _ hr => ?_
    simp only [beq_iff_eq, decide_eq_true_eq] at hr
    exact hp (hr.2 ▸ hr.1)

end RouteSet

def Rib.lastRecord {C : Type} [LinearOrder C] (us : List (RibUpdate C)) (k : Name C × FaceId) :
    Option Bool :=
  UpdateLog.latest (fun u : RibUpdate C => (u.name, u.route.faceId))
    (fun u => u.action == .register) k us

def Rib.recordFor {C : Type} [LinearOrder C] (k : Name C × FaceId) (u : RibUpdate C) :
    Option (Option ℕ) :=
  if (u.name, u.route.faceId) = k then
    match u.action with
    | .register => some (some u.route.cost)
    | .unregister => some none
    | .removeFace => none
  else none

def Rib.script {C : Type} [LinearOrder C] (us : List (RibUpdate C)) (k : Name C × FaceId) :
    List (Option ℕ) :=
  us.filterMap (recordFor k)

namespace FibUpdater

variable {C : Type}

def Call.fibUpdate? : Call C → Option (FibUpdate C)
  | .fibUpdate u => some u
  | .inheritedRoute _ => none

def Call.inheritedRoute? : Call C → Option (RibUpdate C)
  | .fibUpdate _ => none
  | .inheritedRoute u => some u

variable [LinearOrder C]

/-- The last FIB update for a name and a face. -/
def pending (calls : List (Call C)) (k : Name C × FaceId) : Option (Option ℕ) :=
  UpdateLog.latest FibUpdate.key FibUpdate.nexthop k (calls.filterMap Call.fibUpdate?)

/-- Whether the last record for a name and a face is an addition. -/
def recorded (calls : List (Call C)) (k : Name C × FaceId) : Option Bool :=
  Rib.lastRecord (calls.filterMap Call.inheritedRoute?) k

/-- The records for a name and a face, in order. -/
def records (calls : List (Call C)) (k : Name C × FaceId) : List (Option ℕ) :=
  Rib.script (calls.filterMap Call.inheritedRoute?) k

variable {calls calls' : List (Call C)} {k : Name C × FaceId} {n x : Name C} {f g : FaceId}
  {cost : ℕ} {r ignore : Route} {e : RibEntry C} {s : RouteSet} {A : Type}

@[simp] lemma pending_nil : pending [] k = none := rfl

@[simp] lemma pending_append :
    pending (calls ++ calls') k = (pending calls' k).or (pending calls k) := by
  simp [pending]

lemma pending_cons {c : Call C} : pending (c :: calls) k = (pending calls k).or (pending [c] k) :=
  (pending_append : pending ([c] ++ calls) k = _)

@[simp] lemma pending_add : pending [.fibUpdate (.createAddUpdate n f cost)] k =
    if k = (n, f) then some (some cost) else none := by
  simp [pending, Call.fibUpdate?, UpdateLog.latest_cons, FibUpdate.key, FibUpdate.nexthop,
    FibUpdate.createAddUpdate, eq_comm]

@[simp] lemma pending_remove : pending [.fibUpdate (.createRemoveUpdate n f)] k =
    if k = (n, f) then some none else none := by
  simp [pending, Call.fibUpdate?, UpdateLog.latest_cons, FibUpdate.key, FibUpdate.nexthop,
    FibUpdate.createRemoveUpdate, eq_comm]

@[simp] lemma pending_addInheritedNexthop :
    pending (addInheritedNexthop n r) k =
      if k = (n, r.faceId) then some (some r.cost) else none :=
  pending_add

@[simp] lemma pending_removeInheritedNexthop :
    pending (removeInheritedNexthop n r) k = if k = (n, r.faceId) then some none else none :=
  pending_remove

lemma pending_flatMap_of_unique {calls : A → List (Call C)} {as : List A} {a : A}
    (ha : a ∈ as) (h : ∀ b ∈ as, b ≠ a → pending (calls b) k = none) :
    pending (as.flatMap calls) k = pending (calls a) k := by
  rw [pending, filterMap_flatMap]
  exact UpdateLog.latest_flatMap_of_unique (f := fun a => (calls a).filterMap Call.fibUpdate?) ha h

@[simp] lemma records_nil : records ([] : List (Call C)) k = [] := rfl

@[simp] lemma records_append :
    records (calls ++ calls') k = records calls k ++ records calls' k := by
  simp [records, Rib.script]

@[simp] lemma records_fibUpdate {u : FibUpdate C} :
    records (.fibUpdate u :: calls) k = records calls k := rfl

@[simp] lemma records_addInheritedNexthop : records (addInheritedNexthop n r) k =
    if k = (n, r.faceId) then [some r.cost] else [] := by
  by_cases hk : k = (n, r.faceId)
  · simp [addInheritedNexthop, records, Rib.script, Call.inheritedRoute?, Rib.recordFor, hk]
  · simp [addInheritedNexthop, records, Rib.script, Call.inheritedRoute?, Rib.recordFor, hk,
      Ne.symm hk]

@[simp] lemma records_removeInheritedNexthop : records (removeInheritedNexthop n r) k =
    if k = (n, r.faceId) then [none] else [] := by
  by_cases hk : k = (n, r.faceId)
  · simp [removeInheritedNexthop, records, Rib.script, Call.inheritedRoute?, Rib.recordFor, hk]
  · simp [removeInheritedNexthop, records, Rib.script, Call.inheritedRoute?, Rib.recordFor, hk,
      Ne.symm hk]

lemma records_flatMap {T : A → List (Call C)} {l : List A} :
    records (l.flatMap T) k = l.flatMap fun a => records (T a) k := by
  induction l with
  | nil => rfl
  | cons a l ih => rw [flatMap_cons, records_append, ih, flatMap_cons]

lemma flatMap_of_unique {B : Type} {T : A → List B} {l : List A} {a : A} (hl : l.Nodup)
    (ha : a ∈ l) (h : ∀ b ∈ l, b ≠ a → T b = []) : l.flatMap T = T a := by
  obtain ⟨l₁, l₂, rfl⟩ := append_of_mem ha
  have hnot := nodup_middle.mp hl
  have hne : ∀ b ∈ l₁ ++ l₂, b ≠ a := fun b hb he => (nodup_cons.mp hnot).1 (he ▸ hb)
  have h₁ : l₁.flatMap T = [] := flatMap_eq_nil_iff.mpr fun b hb =>
    h b (by simp [hb]) (hne b (by simp [hb]))
  have h₂ : l₂.flatMap T = [] := flatMap_eq_nil_iff.mpr fun b hb =>
    h b (by simp [hb]) (hne b (by simp [hb]))
  rw [flatMap_append, flatMap_cons, h₁, h₂, nil_append, append_nil]

lemma records_routes {T : Route → List (Call C)} {p : FaceId → Bool} {v : Route → Option ℕ}
    (hT : ∀ r, records (T r) k = if k = (n, r.faceId) ∧ p r.faceId = true then [v r] else []) :
    records (s.routes.flatMap T) k =
      if k.1 = n ∧ p k.2 = true then ((s.find k.2).map v).toList else [] := by
  have hother : ∀ r, r.faceId ≠ k.2 → records (T r) k = [] := by
    intro r hr
    refine (hT r).trans (if_neg ?_)
    rintro ⟨rfl, -⟩
    exact hr rfl
  rw [records_flatMap]
  cases hf : s.find k.2 with
  | none =>
    rw [flatMap_eq_nil_iff.mpr fun r hr => hother r (RouteSet.find_eq_none hf hr)]
    simp
  | some r =>
    obtain ⟨hr, hrf⟩ := RouteSet.find_eq_some hf
    rw [flatMap_of_unique (s.sorted.imp fun hlt he => by simp [he] at hlt) hr
      fun b hb hne => hother b fun hbf => hne ?_, hT]
    · simp [Prod.ext_iff, hrf]
    · exact RouteSet.eq_of_faceId_eq hb hr (hbf.trans hrf.symm)

lemma records_addInheritedRoutes : records (addInheritedRoutes e s) k =
    if k.1 = e.name ∧ e.hasFaceId k.2 = false then ((s.find k.2).map (some ·.cost)).toList
    else [] := by
  rw [addInheritedRoutes, records_routes (n := e.name) (p := fun f => !e.hasFaceId f)
    (v := (some ·.cost))]
  · simp
  · intro r
    split <;> simp [*]

lemma records_addInheritedRoutesIgnoring :
    records (addInheritedRoutesIgnoring n s ignore) k =
      if k.1 = n ∧ k.2 ≠ ignore.faceId then ((s.find k.2).map (some ·.cost)).toList else [] := by
  rw [addInheritedRoutesIgnoring, records_routes (n := n) (p := (· != ignore.faceId))
    (v := (some ·.cost))]
  · simp
  · intro r
    split <;> simp_all

lemma records_removeInheritedRoutes : records (removeInheritedRoutes e s) k =
    if k.1 = e.name ∧ e.hasInheritedRoute k.2 = true ∧ (s.find k.2).isSome then [none]
    else [] := by
  rw [removeInheritedRoutes, records_routes (n := e.name) (p := e.hasInheritedRoute)
    (v := fun _ => none)]
  · cases s.find k.2 <;> simp
  · intro r
    split <;> simp [*]

/-- The last FIB update for a name and a face is also the last record. -/
structure Scripted (calls : List (Call C)) (k : Name C × FaceId) : Prop where
  nexthop : pending calls k = (records calls k).getLast?
  record : recorded calls k = (pending calls k).map Option.isSome

lemma recorded_append :
    recorded (calls ++ calls') k = (recorded calls' k).or (recorded calls k) := by
  simp [recorded, Rib.lastRecord]

lemma scripted_nil : Scripted ([] : List (Call C)) k := ⟨rfl, rfl⟩

lemma Scripted.append (h : Scripted calls k) (h' : Scripted calls' k) :
    Scripted (calls ++ calls') k where
  nexthop := by rw [pending_append, records_append, getLast?_append, h.nexthop, h'.nexthop]
  record := by
    rw [recorded_append, pending_append, h.record, h'.record]
    cases pending calls' k <;> rfl

lemma Scripted.flatMap {T : A → List (Call C)} {l : List A}
    (h : ∀ a, Scripted (T a) k) : Scripted (l.flatMap T) k := by
  induction l with
  | nil => exact scripted_nil
  | cons a l ih => exact (h a).append ih

lemma Scripted.guard {p : Prop} [Decidable p] (h : Scripted calls k) :
    Scripted (if p then calls else []) k := by
  split
  · exact h
  · exact scripted_nil

lemma scripted_addInheritedNexthop : Scripted (addInheritedNexthop n r) k := by
  have hr : recorded (addInheritedNexthop n r) k =
      if (n, r.faceId) = k then some true else none := rfl
  by_cases hk : k = (n, r.faceId)
  · exact ⟨by simp [hk], by rw [hr]; simp [hk]⟩
  · exact ⟨by simp [hk], by simp [hr, hk, Ne.symm hk]⟩

lemma scripted_removeInheritedNexthop : Scripted (removeInheritedNexthop n r) k := by
  have hr : recorded (removeInheritedNexthop n r) k =
      if (n, r.faceId) = k then some false else none := rfl
  by_cases hk : k = (n, r.faceId)
  · exact ⟨by simp [hk], by rw [hr]; simp [hk]⟩
  · exact ⟨by simp [hk], by simp [hr, hk, Ne.symm hk]⟩

lemma scripted_addInheritedRoutes : Scripted (addInheritedRoutes e s) k :=
  .flatMap fun _ => scripted_addInheritedNexthop.guard

lemma scripted_addInheritedRoutesIgnoring : Scripted (addInheritedRoutesIgnoring n s ignore) k :=
  .flatMap fun _ => scripted_addInheritedNexthop.guard

lemma scripted_removeInheritedRoutes : Scripted (removeInheritedRoutes e s) k :=
  .flatMap fun _ => scripted_removeInheritedNexthop.guard

lemma pending_addInheritedRoutes : pending (addInheritedRoutes e s) k =
    if k.1 = e.name ∧ e.hasFaceId k.2 = false then (s.find k.2).map (some ·.cost) else none := by
  rw [scripted_addInheritedRoutes.nexthop, records_addInheritedRoutes]
  cases s.find k.2 <;> split <;> rfl

lemma pending_addInheritedRoutesIgnoring :
    pending (addInheritedRoutesIgnoring n s ignore) k =
      if k.1 = n ∧ k.2 ≠ ignore.faceId then (s.find k.2).map (some ·.cost) else none := by
  rw [scripted_addInheritedRoutesIgnoring.nexthop, records_addInheritedRoutesIgnoring]
  cases s.find k.2 <;> split <;> rfl

lemma pending_removeInheritedRoutes : pending (removeInheritedRoutes e s) k =
    if k.1 = e.name ∧ e.hasInheritedRoute k.2 = true ∧ (s.find k.2).isSome then some none
    else none := by
  rw [scripted_removeInheritedRoutes.nexthop, records_removeInheritedRoutes]
  split <;> rfl

variable {R : Rib C} {add rem : RouteSet} {children : List (Name C)}

lemma scripted_traverseSubTree {fuel : ℕ} : Scripted (traverseSubTree R fuel add rem n) k := by
  induction fuel generalizing add rem n with
  | zero => exact scripted_nil
  | succ fuel ih =>
    rw [traverseSubTree]
    split
    · exact scripted_nil
    · exact (scripted_removeInheritedRoutes.append scripted_addInheritedRoutes).append
        (.flatMap fun _ => ih)

lemma scripted_modify : Scripted (modifyChildrensInheritedRoutes R children add rem) k :=
  .flatMap fun _ => scripted_traverseSubTree

section Exec

variable {F : FibUpdater C} {u : FibUpdate C} {fib : Fib C}

def pendingAt (F : FibUpdater C) (k : Name C × FaceId) : Option (Option ℕ) :=
  (UpdateLog.latest FibUpdate.key FibUpdate.nexthop k F.updatesForNonBatchFaceId).or
    (UpdateLog.latest FibUpdate.key FibUpdate.nexthop k F.updatesForBatchFaceId)

lemma batchFaceId_addFibUpdate : (F.addFibUpdate u).batchFaceId = F.batchFaceId := by
  unfold addFibUpdate
  split <;> rfl

lemma pendingAt_addFibUpdate : (F.addFibUpdate u).pendingAt k =
    (if u.key = k then some u.nexthop else none).or (F.pendingAt k) := by
  unfold addFibUpdate pendingAt
  split
  next hb =>
    rw [UpdateLog.latest_put F.batch_nodup]
    by_cases hk : u.key = k
    · -- the other list has no update for the batch's face
      rw [UpdateLog.latest_eq_none fun w hw he => F.nonBatch_face w hw ?_]
      · simp
      · exact (congrArg Prod.snd (he.trans hk.symm)).trans hb
    · simp [hk]
  · rw [UpdateLog.latest_put F.nonBatch_nodup, Option.or_assoc]

lemma pendingAt_foldl :
    (calls.foldl exec F).pendingAt k = (pending calls k).or (F.pendingAt k) := by
  induction calls generalizing F with
  | nil => rfl
  | cons c calls ih =>
    rw [foldl_cons, ih, pending_cons, Option.or_assoc]
    cases c with
    | fibUpdate u =>
      have hc : pending [.fibUpdate u] k = if u.key = k then some u.nexthop else none := rfl
      rw [hc, exec, pendingAt_addFibUpdate]
    | inheritedRoute u => rfl

lemma pendingAt_collect :
    (calls.foldl exec ({ batchFaceId := f } : FibUpdater C)).pendingAt k = pending calls k :=
  pendingAt_foldl.trans or_none

lemma batchFaceId_foldl : (calls.foldl exec F).batchFaceId = F.batchFaceId := by
  induction calls generalizing F with
  | nil => rfl
  | cons c calls ih =>
    rw [foldl_cons, ih]
    cases c with
    | fibUpdate u => exact batchFaceId_addFibUpdate
    | inheritedRoute u => rfl

lemma inheritedRoutes_foldl : (calls.foldl exec F).inheritedRoutes =
    F.inheritedRoutes ++ calls.filterMap Call.inheritedRoute? := by
  induction calls generalizing F with
  | nil => simp
  | cons c calls ih =>
    rw [foldl_cons, ih]
    cases c with
    | fibUpdate u =>
      have hu : (F.addFibUpdate u).inheritedRoutes = F.inheritedRoutes := by
        unfold addFibUpdate
        split <;> rfl
      rw [exec, hu, filterMap_cons_none rfl]
    | inheritedRoute u => exact append_assoc F.inheritedRoutes [u] _

lemma sendUpdates_apply : F.sendUpdates fib k = (F.pendingAt k).getD (fib k) := by
  rw [sendUpdates, UpdateLog.write_apply, UpdateLog.write_apply, pendingAt]
  cases UpdateLog.latest FibUpdate.key FibUpdate.nexthop k F.updatesForNonBatchFaceId <;> rfl

lemma pendingAt_clear : F.clearUpdatesForBatchFaceId.pendingAt k =
    if k.2 = F.batchFaceId then none else F.pendingAt k := by
  have hnon : k.2 = F.batchFaceId →
      UpdateLog.latest FibUpdate.key FibUpdate.nexthop k F.updatesForNonBatchFaceId = none :=
    fun hk => UpdateLog.latest_eq_none fun w hw he =>
      F.nonBatch_face w hw ((congrArg Prod.snd he).trans hk)
  have hbat : k.2 ≠ F.batchFaceId →
      UpdateLog.latest FibUpdate.key FibUpdate.nexthop k F.updatesForBatchFaceId = none :=
    fun hk => UpdateLog.latest_eq_none fun w hw he =>
      hk ((congrArg Prod.snd he).symm.trans (F.batch_face w hw))
  by_cases hk : k.2 = F.batchFaceId
  · rw [if_pos hk]
    simp [pendingAt, clearUpdatesForBatchFaceId, hnon hk]
  · rw [if_neg hk]
    simp [pendingAt, clearUpdatesForBatchFaceId, hbat hk]

end Exec

end FibUpdater

namespace RibEntry

variable {C : Type} {e e' : RibEntry C} {r : Route} {g : FaceId}

lemma hasInheritedRoute_addInheritedRoute :
    (e.addInheritedRoute r).hasInheritedRoute g = (e.hasInheritedRoute g || r.faceId == g) := by
  simp [hasInheritedRoute, addInheritedRoute]

lemma hasInheritedRoute_removeInheritedRoute (h : e.removeInheritedRoute r = some e')
    (hg : r.faceId ≠ g) (hi : e.hasInheritedRoute g = true) : e'.hasInheritedRoute g = true := by
  obtain ⟨w, hw, hwg⟩ := List.any_eq_true.mp hi
  rw [removeInheritedRoute] at h
  split at h
  · cases h
    refine List.any_eq_true.mpr ⟨w, (mem_eraseP_of_neg ?_).mpr hw, hwg⟩
    rw [eq_of_beq hwg]
    simpa using Ne.symm hg
  · cases h

lemma removeInheritedRoute_same (h : e.removeInheritedRoute r = some e') :
    ∃ l, e' = { e with inheritedRoutes := l } := by
  rw [removeInheritedRoute] at h
  split at h
  · exact ⟨_, (some.inj h).symm⟩
  · cases h

end RibEntry

namespace Rib

variable {C : Type}

/-- The two RIBs differ in the inherited routes on record only. -/
structure SameButRecords (R R' : Rib C) : Prop where
  names : R'.names = R.names
  faceMap : R'.faceMap = R.faceMap
  entries : ∀ x, ∃ l, R'.entries x = { R.entries x with inheritedRoutes := l }

variable {R R' R₁ : Rib C} {us : List (RibUpdate C)} {u : RibUpdate C} {x : Name C} {g : FaceId}

lemma SameButRecords.refl : SameButRecords R R := ⟨rfl, rfl, fun _ => ⟨_, rfl⟩⟩

lemma SameButRecords.trans (h : SameButRecords R R₁) (h' : SameButRecords R₁ R') :
    SameButRecords R R' := by
  refine ⟨h'.names.trans h.names, h'.faceMap.trans h.faceMap, fun x => ?_⟩
  obtain ⟨l, hl⟩ := h.entries x
  obtain ⟨l', hl'⟩ := h'.entries x
  exact ⟨l', by rw [hl', hl]⟩

variable [LinearOrder C]

lemma sameButRecords_setEntry {e : RibEntry C}
    (h : ∃ l, e = { R.entries x with inheritedRoutes := l }) :
    SameButRecords R (R.setEntry x e) := by
  refine ⟨rfl, rfl, fun y => ?_⟩
  by_cases hy : y = x
  · subst hy
    obtain ⟨l, rfl⟩ := h
    exact ⟨l, by simp [setEntry]⟩
  · exact ⟨(R.entries y).inheritedRoutes, by simp [setEntry, hy]⟩

lemma modifyInheritedRoutes_cons (h : modifyInheritedRoutes (u :: us) R = some R') :
    ∃ R₁, modifyInheritedRoutes us R₁ = some R' ∧ SameButRecords R R₁ ∧
      ∀ x g, (lastRecord [u] (x, g)).getD ((R.entries x).hasInheritedRoute g) = true →
        (R₁.entries x).hasInheritedRoute g = true := by
  have hlast : ∀ x g, lastRecord [u] (x, g) =
      if (u.name, u.route.faceId) = (x, g) then some (u.action == .register) else none :=
    fun _ _ => rfl
  rw [modifyInheritedRoutes] at h
  split at h
  · cases ha : u.action with
    | register =>
      rw [ha] at h
      refine ⟨_, h, sameButRecords_setEntry ⟨_, rfl⟩, fun x g hx => ?_⟩
      by_cases hxu : x = u.name
      · subst hxu
        simp only [setEntry, update_self, RibEntry.hasInheritedRoute_addInheritedRoute,
          Bool.or_eq_true, beq_iff_eq]
        by_cases hg : u.route.faceId = g
        · exact .inr hg
        · exact .inl (by simpa [hlast, hg] using hx)
      · simpa [setEntry, hxu, hlast, Ne.symm hxu] using hx
    | unregister =>
      rw [ha] at h
      obtain ⟨e, he, h⟩ := bind_eq_some_iff.mp h
      refine ⟨_, h, sameButRecords_setEntry (RibEntry.removeInheritedRoute_same he),
        fun x g hx => ?_⟩
      by_cases hxu : x = u.name
      · subst hxu
        by_cases hg : u.route.faceId = g
        · simp [hlast, hg, ha] at hx
        simp only [setEntry, update_self]
        exact RibEntry.hasInheritedRoute_removeInheritedRoute he hg (by simpa [hlast, hg] using hx)
      · simpa [setEntry, hxu, hlast, Ne.symm hxu] using hx
    | removeFace =>
      rw [ha] at h
      refine ⟨R, h, SameButRecords.refl, fun x g hx => ?_⟩
      by_cases hk : (u.name, u.route.faceId) = (x, g)
      · simp [hlast, hk, ha] at hx
      · simpa [hlast, hk] using hx
  · cases h

/-- Only records change, and what was added last is on record. -/
lemma modifyInheritedRoutes_spec (h : modifyInheritedRoutes us R = some R') :
    SameButRecords R R' ∧ ∀ x g,
      (lastRecord us (x, g)).getD ((R.entries x).hasInheritedRoute g) = true →
      (R'.entries x).hasInheritedRoute g = true := by
  induction us generalizing R with
  | nil =>
    obtain rfl : R = R' := by simpa [modifyInheritedRoutes] using h
    exact ⟨SameButRecords.refl, fun _ _ hx => hx⟩
  | cons u us ih =>
    obtain ⟨R₁, h, hsame, hrec⟩ := modifyInheritedRoutes_cons h
    obtain ⟨hsame', hrec'⟩ := ih h
    refine ⟨hsame.trans hsame', fun x g hx => hrec' x g ?_⟩
    have hor : lastRecord (u :: us) (x, g) =
        (lastRecord us (x, g)).or (lastRecord [u] (x, g)) := UpdateLog.latest_append (l := [u])
    rw [hor, getD_or] at hx
    cases hl : lastRecord us (x, g) with
    | none =>
      rw [hl] at hx
      exact hrec x g hx
    | some b =>
      rw [hl] at hx
      exact hx

end Rib

end NfdGateway
