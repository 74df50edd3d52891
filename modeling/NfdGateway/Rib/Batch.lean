import NfdGateway.Rib.Inheritance
import NfdGateway.Rib.Operations

/-! One update batch: what it changes in the RIB, and the invariants of the RIB that hold in
every run. -/
namespace NfdGateway

open List Option

namespace Rib

variable {C : Type} [LinearOrder C] {R R₁ R' : Rib C} {n x : Name C} {route : Route} {g : FaceId}
  {c : Option (List Route × ℕ)}

lemma SameButRecords.content (h : SameButRecords R R') : R'.content x = R.content x := by
  obtain ⟨l, hl⟩ := h.entries x
  rw [Rib.content, Rib.content, hl, h.names]

lemma SameButRecords.treeInv (h : SameButRecords R R') (ht : R.TreeInv) : R'.TreeInv := by
  have hp : R'.parentOf = R.parentOf := funext fun x => by
    obtain ⟨l, hl⟩ := h.entries x
    rw [parentOf, hl, parentOf]
  have hc : R'.childrenOf = R.childrenOf := funext fun x => by
    obtain ⟨l, hl⟩ := h.entries x
    rw [childrenOf, hl, childrenOf]
  refine ⟨h.names ▸ ht.sorted, fun x hx => ?_, fun x hx => ?_, fun y hy x => ?_⟩
  · obtain ⟨l, hl⟩ := h.entries x
    rw [hl]
    exact ht.name_eq x (h.names ▸ hx)
  · rw [hp]
    exact (ht.parent x (h.names ▸ hx)).congr fun y _ => by rw [h.names]
  · rw [hp, hc, h.names]
    exact ht.children y (h.names ▸ hy) x

lemma ChangedAt.records (h : ChangedAt R R₁ n c) (h' : SameButRecords R₁ R') : ChangedAt R R' n c :=
  ⟨h'.treeInv h.tree, h'.content.trans h.self, fun x hx => h'.content.trans (h.other x hx)⟩

end Rib

open FibUpdater Rib

def FibUpdater.erasedCalls {C : Type} [LinearOrder C] (R : Rib C) (entry temp : RibEntry C)
    (existing : Route) (next : Option Route) (off : Bool) (last : Prop) [Decidable last] :
    List (Call C) :=
  createFibUpdatesForErasedRoute R temp existing off ++
    (match next with
    | some next => createFibUpdatesForNewRoute R temp next false
    | none => []) ++
    if last then createFibUpdatesForErasedRibEntry entry else []

namespace RibState

variable {C : Type} {u : RibUpdate C} {batches : List (RibUpdate C)}

def Erases (u : RibUpdate C) : Prop := u.action = .unregister ∨ u.action = .removeFace

lemma Erases.opOf_eq (h : Erases u) : opOf u = .erase u.name u.route := by
  rcases h with h | h <;> simp [opOf, h]

lemma Erases.not_register (h : Erases u) : u.action ≠ .register := by
  rcases h with h | h <;> simp [h]

lemma opOf_name : (opOf u).name = u.name := by
  rw [opOf]
  split <;> rfl

lemma Settled.of_begin {s : RibState C} {g : FaceId} (h : (s.begin batches).Settled g) :
    s.Settled g :=
  fun w hw => h w (mem_append_left _ hw)

lemma Settled.of_nil {s : RibState C} (h : s.updateBatches = []) (g : FaceId) : s.Settled g := by
  intro w hw
  rw [h] at hw
  exact absurd hw not_mem_nil

variable [LinearOrder C] {R R' : Rib C} {nth : NthElement} {calls : List (Call C)}
  {c : Option (List Route × ℕ)} {s s' : RibState C}

/-- The calls of a batch, case by case, with the content that it leaves at its name. -/
inductive Batch (nth : NthElement) (R : Rib C) (u : RibUpdate C) :
    List (Call C) → Option (List Route × ℕ) → Prop
  | newEntry (ha : u.action = .register) (hn : u.name ∉ R.names) :
    Batch nth R u
      (createFibUpdatesForNewRibEntry R u.name u.route
        ((R.findDescendantsForNonInsertedName u.name).filter fun d =>
          (R.entries d).parent = R.findParent u.name))
      (some ([u.route], if u.route.isCapture then 1 else 0))
  | newRoute (ha : u.action = .register) (hn : u.name ∈ R.names)
      (hf : (R.entries u.name).findRoute u.route = none) :
    Batch nth R u
      (createFibUpdatesForNewRoute R (R.entries u.name) u.route
        (!(R.entries u.name).hasCapture && u.route.isCapture))
      (some (((R.entries u.name).insertRoute u.route).routes,
        ((R.entries u.name).insertRoute u.route).nRoutesWithCaptureSet))
  | updated (ha : u.action = .register) (hn : u.name ∈ R.names) {existing : Route}
      (hf : (R.entries u.name).findRoute u.route = some existing) {calls : List (Call C)}
      (hc : createFibUpdatesForUpdatedRoute R ((R.entries u.name).updateRoute u.route) u.route
        existing = some calls) :
    Batch nth R u calls
      (some (((R.entries u.name).updateRoute u.route).routes,
        (R.entries u.name).nRoutesWithCaptureSet))
  | erased (ha : Erases u) (hn : u.name ∈ R.names) {existing : Route}
      (hf : (R.entries u.name).findRoute u.route = some existing) :
    Batch nth R u
      (erasedCalls R (R.entries u.name) ((R.entries u.name).eraseRoute u.route) existing
        ((R.entries u.name).getRouteWithSecondLowestCostByFaceId nth u.route.faceId)
        ((R.entries u.name).hasCapture && !((R.entries u.name).eraseRoute u.route).hasCapture)
        ((R.entries u.name).getNRoutes = 1))
      (if ((R.entries u.name).eraseRoute u.route).getNRoutes = 0 then none
      else some (((R.entries u.name).eraseRoute u.route).routes,
        ((R.entries u.name).eraseRoute u.route).nRoutesWithCaptureSet))
  | nothing (ha : Erases u)
      (hf : ∀ r, u.name ∈ R.names → (R.entries u.name).findRoute u.route ≠ some r) :
    Batch nth R u [] (R.content u.name)

variable {n : Name C} {route existing : Route}

/-- The calls that an update of this action makes. -/
def callsFor (nth : NthElement) (R : Rib C) (u : RibUpdate C) : Option (List (Call C)) :=
  match u.action with
  | .register => computeUpdatesForRegistration R u.name u.route
  | .unregister => some (computeUpdatesForUnregistration R nth u.name u.route)
  | .removeFace => some (computeUpdatesForUnregistration R nth u.name u.route)

lemma batch_registration (h : R.TreeInv) (ha : u.action = .register)
    (hc : computeUpdatesForRegistration R u.name u.route = some calls) :
    ∃ c, Batch nth R u calls c ∧ Applied R (R.insert u.name u.route) u.name c := by
  rw [computeUpdatesForRegistration] at hc
  by_cases hn : u.name ∈ R.names
  · rw [find_of_mem hn] at hc
    cases hf : (R.entries u.name).findRoute u.route with
    | none =>
      simp only [hf] at hc
      cases hc
      exact ⟨_, .newRoute ha hn hf, applied_newRoute h hn hf⟩
    | some existing =>
      simp only [hf] at hc
      exact ⟨_, .updated ha hn hf hc, applied_updated h hn hf⟩
  · rw [find_of_not_mem hn] at hc
    cases hc
    refine ⟨_, .newEntry ha hn, ?_⟩
    rw [insert_of_newEntry hn]
    exact applied_insertEntry h hn

lemma batch_unregistration (h : R.TreeInv) (ha : Erases u) :
    ∃ c, Batch nth R u (computeUpdatesForUnregistration R nth u.name u.route) c ∧
      Applied R (R.erase u.name u.route) u.name c := by
  have hnothing : R.erase u.name u.route = R →
      Applied R (R.erase u.name u.route) u.name (R.content u.name) := fun he => by
    rw [he]
    exact ⟨⟨h, rfl, fun _ _ => rfl⟩, fun x hx => (if_pos hx).symm, id⟩
  rw [computeUpdatesForUnregistration]
  by_cases hn : u.name ∈ R.names
  · have hfind := find_of_mem hn
    cases hf : (R.entries u.name).findRoute u.route with
    | none =>
      simp only [hfind, hf]
      exact ⟨_, .nothing ha fun r _ hr => by simp [hf] at hr,
        hnothing (by simp only [Rib.erase, hfind, hf])⟩
    | some existing =>
      simp only [hfind, hf]
      exact ⟨_, .erased ha hn hf, applied_erase h hn hf⟩
  · have hfind := find_of_not_mem hn
    simp only [hfind]
    exact ⟨_, .nothing ha fun r hm => absurd hm hn, hnothing (by simp only [Rib.erase, hfind])⟩

lemma batch_of_calls (h : R.TreeInv) (hc : callsFor nth R u = some calls) :
    ∃ c, Batch nth R u calls c ∧ Applied R (R.apply (opOf u)) u.name c := by
  rw [callsFor] at hc
  rw [opOf]
  cases ha : u.action with
  | register =>
    rw [ha] at hc
    exact batch_registration h ha hc
  | unregister =>
    rw [ha] at hc
    cases hc
    exact batch_unregistration h (.inl ha)
  | removeFace =>
    rw [ha] at hc
    cases hc
    exact batch_unregistration h (.inr ha)

lemma computeUpdates_spec {F : FibUpdater C} (h : computeUpdates R nth u = some F) :
    ∃ calls, callsFor nth R u = some calls ∧
      F.inheritedRoutes = calls.filterMap Call.inheritedRoute? ∧
      ∀ fib k, F.sendUpdates fib k =
        if u.action = .removeFace ∧ k.2 = u.route.faceId then fib k
        else (pending calls k).getD (fib k) := by
  rw [computeUpdates, computeUpdate] at h
  rw [callsFor]
  cases ha : u.action with
  | register =>
    rw [ha] at h
    obtain ⟨calls, hc, rfl⟩ := map_eq_some_iff.mp h
    refine ⟨calls, hc, inheritedRoutes_foldl, fun fib k => ?_⟩
    rw [sendUpdates_apply, pendingAt_collect, if_neg (by simp)]
  | unregister =>
    rw [ha] at h
    cases h
    refine ⟨_, rfl, inheritedRoutes_foldl, fun fib k => ?_⟩
    rw [sendUpdates_apply, pendingAt_collect, if_neg (by simp)]
  | removeFace =>
    rw [ha] at h
    cases h
    refine ⟨_, rfl, inheritedRoutes_foldl, fun fib k => ?_⟩
    rw [sendUpdates_apply, pendingAt_clear, pendingAt_collect, batchFaceId_foldl]
    by_cases hk : k.2 = u.route.faceId <;> simp [hk]

/-- What the end of the batch `u` changes, in terms of its calls. -/
structure Sent (nth : NthElement) (s s' : RibState C) (u : RibUpdate C) (calls : List (Call C))
    (c : Option (List Route × ℕ)) : Prop where
  queue : s.updateBatches = u :: s'.updateBatches
  batch : Batch nth s.rib u calls c
  changed : ChangedAt s.rib s'.rib u.name c
  mapped : Mapped s.rib → Mapped s'.rib
  records : ∀ x ∈ s'.rib.names, ∀ g,
    (recorded calls (x, g)).getD (hadRecord s.rib x g) = true →
    (s'.rib.entries x).hasInheritedRoute g = true
  fib : ∀ k, s'.fib k = if u.action = .removeFace ∧ k.2 = u.route.faceId then s.fib k
    else (pending calls k).getD (s.fib k)

lemma send_spec (h : s.rib.TreeInv) (hs : s.sendBatchFromQueue nth = some s') :
    ∃ u calls c, Sent nth s s' u calls c ∧ Applied s.rib (s.rib.apply (opOf u)) u.name c ∧
      modifyInheritedRoutes (calls.filterMap Call.inheritedRoute?) (s.rib.apply (opOf u)) =
        some s'.rib := by
  rw [sendBatchFromQueue] at hs
  split at hs
  · cases hs
  rename_i u us hq
  obtain ⟨F, hF, hs⟩ := bind_eq_some_iff.mp hs
  obtain ⟨R, hR, rfl⟩ := map_eq_some_iff.mp hs
  obtain ⟨calls, hcalls, hinh, hfib⟩ := computeUpdates_spec hF
  obtain ⟨c, hb, happ⟩ := batch_of_calls h hcalls
  have hR : modifyInheritedRoutes F.inheritedRoutes (s.rib.apply (opOf u)) = some R := hR
  obtain ⟨hsame, hrec⟩ := modifyInheritedRoutes_spec hR
  refine ⟨u, calls, c, ⟨hq, hb, happ.changed.records hsame, fun hm x hx r hr => ?_,
    fun x hx g hg => hrec x g ?_, hfib s.fib⟩, happ, hinh ▸ hR⟩
  · obtain ⟨l, hl⟩ := hsame.entries x
    change r ∈ (R.entries x).routes at hr
    rw [hl] at hr
    change x ∈ R.faceMap r.faceId
    rw [hsame.faceMap]
    exact happ.mapped hm x (hsame.names ▸ hx) r hr
  · rw [hinh, happ.records (hsame.names ▸ hx) g]
    exact hg

lemma sent_of_send (h : s.rib.TreeInv) (hs : s.sendBatchFromQueue nth = some s') :
    ∃ u calls c, Sent nth s s' u calls c := by
  obtain ⟨u, calls, c, hsent, -⟩ := send_spec h hs
  exact ⟨u, calls, c, hsent⟩

/-- What holds of the RIB in every run. -/
structure Sound (s : RibState C) : Prop where
  tree : s.rib.TreeInv
  unique : ∀ x ∈ s.rib.names, ((s.rib.entries x).routes.map routeKey).Nodup
  mapped : Mapped s.rib

lemma sound_init : Sound ({} : RibState C) where
  tree := treeInv_empty
  unique _ h := absurd h not_mem_nil
  mapped _ h := absurd h not_mem_nil

lemma Batch.outcome (hb : Batch nth R u calls c) : Outcome R (opOf u) c := by
  cases hb with
  | newEntry ha hn =>
    simp only [opOf, ha]
    exact .newEntry hn
  | newRoute ha hn hf =>
    simp only [opOf, ha]
    exact .newRoute hn hf
  | updated ha hn hf =>
    simp only [opOf, ha]
    exact .updated hn hf
  | erased ha hn hf =>
    rw [ha.opOf_eq]
    exact .erased hn hf
  | nothing ha hf =>
    rw [ha.opOf_eq]
    exact .nothing fun hn => eq_none_iff_forall_ne_some.mpr fun r => hf r hn

lemma Sent.settled (hs : Sent nth s s' u calls c) {g : FaceId} (h : s'.Settled g)
    (hg : u.action = .removeFace → g ≠ u.route.faceId) : s.Settled g := by
  intro w hw ha hf
  rw [hs.queue] at hw
  rcases mem_cons.mp hw with rfl | hw
  · exact hg ha hf.symm
  · exact h w hw ha hf

lemma Sound.sent (h : Sound s) (hs : Sent nth s s' u calls c) : Sound s' := by
  refine ⟨hs.changed.tree, fun x hx => ?_, hs.mapped h.mapped⟩
  rcases hs.changed.entry hx with ⟨rfl, hc⟩ | ⟨-, hm, hroutes, -⟩
  · exact hs.batch.outcome.unique (opOf_name ▸ h.unique u.name) hc
  · rw [hroutes]
    exact h.unique x hm

/-- Queueing a batch leaves the RIB alone. -/
lemma Sound.step (h : Sound s) {ev : Event C} (hs : s.step nth ev = some s') : Sound s' := by
  cases ev with
  | register n r | unregister n r | removeFace f =>
    cases hs
    exact ⟨h.tree, h.unique, h.mapped⟩
  | batch =>
    obtain ⟨u, calls, c, hsent⟩ := sent_of_send h.tree hs
    exact h.sent hsent

end RibState

end NfdGateway
