import NfdGateway.Rib.Batch
import NfdGateway.Rib.Manager

/-! The routes of a RIB by name, face and origin, what a batch does to them, and what the
destruction of a face leaves of them. -/
namespace NfdGateway

open Rib RibState List Option Transition

variable {C : Type} [LinearOrder C] {u : RibUpdate C} {R R' : Rib C} {l₂ l₁ : List Route}

namespace Rib

/-- The route with a given name, face and origin. -/
def routeAt (R : Rib C) (k : RouteId C) : Option Route :=
  (R.content k.1).bind fun c => c.1.find? (routeKey · = k.2)

def UniqueRoutes (R : Rib C) : Prop := ∀ x ∈ R.names, ((R.entries x).routes.map routeKey).Nodup

lemma routeAt_eq_some (hu : R.UniqueRoutes) {k : RouteId C} {r : Route} :
    R.routeAt k = some r ↔ k.1 ∈ R.names ∧ r ∈ (R.entries k.1).routes ∧ routeKey r = k.2 := by
  by_cases hk : k.1 ∈ R.names
  · rw [routeAt, content_of_mem hk]
    change (R.entries k.1).routes.find? _ = some r ↔ _
    constructor
    · intro h
      have hkey := find?_some h
      exact ⟨hk, mem_of_find?_eq_some h, by simpa using hkey⟩
    rintro ⟨-, hr, hkey⟩
    have hsome : ((R.entries k.1).routes.find? (routeKey · = k.2)).isSome :=
      find?_isSome.mpr ⟨r, hr, by simpa using hkey⟩
    obtain ⟨w, hw⟩ := Option.isSome_iff_exists.mp hsome
    have hwkey : routeKey w = k.2 := by simpa using find?_some hw
    rw [hw, inj_on_of_nodup_map (hu k.1 hk) (mem_of_find?_eq_some hw) hr (hwkey.trans hkey.symm)]
  · rw [routeAt, content_of_not_mem hk]
    exact ⟨nofun, fun h => absurd h.1 hk⟩

lemma find?_routeKey {l : List Route} {route : Route} :
    l.find? (routeKey · = routeKey route) = l.find? (·.compareFaceIdAndOrigin route) := by
  refine congrArg (l.find? ·) (funext fun r => ?_)
  rw [Bool.eq_iff_iff, decide_eq_true_eq, compareFaceIdAndOrigin_iff]

lemma find?_middle {r : Route} {j : FaceId × ℕ} (hr : routeKey r ≠ j) :
    (l₁ ++ r :: l₂).find? (routeKey · = j) = (l₁ ++ l₂).find? (routeKey · = j) := by
  simp [find?_append, hr]

omit [LinearOrder C] in
lemma key_of_findRoute {e : RibEntry C} {route existing : Route}
    (hf : e.findRoute route = some existing) (hl : e.routes = l₁ ++ existing :: l₂)
    (hnodup : (e.routes.map routeKey).Nodup) :
    routeKey existing = routeKey route ∧ ∀ w ∈ l₁ ++ l₂, routeKey w ≠ routeKey route := by
  obtain ⟨-, hface, horig⟩ := RibEntry.mem_of_findRoute hf
  have hkey : routeKey existing = routeKey route := by simp [routeKey, hface, horig]
  rw [hl, map_append, map_cons, nodup_middle, nodup_cons, hkey, ← map_append] at hnodup
  exact ⟨hkey, fun w hw he => hnodup.1 (List.mem_map.mpr ⟨w, hw, he⟩)⟩

def Op.route : Op C → Route
  | .insert _ route => route
  | .erase _ route => route

def Op.result : Op C → Option Route
  | .insert _ route => some route
  | .erase _ _ => none

lemma Outcome.find? {op : Op C} {c : Option (List Route × ℕ)} (ho : Outcome R op c)
    (hu : R.UniqueRoutes) (j : FaceId × ℕ) :
    c.bind (fun c => c.1.find? (routeKey · = j)) =
      if j = routeKey op.route then op.result else R.routeAt (op.name, j) := by
  cases ho with
  | @newEntry n route hn =>
    have hbefore : R.routeAt (n, j) = none := by
      rw [routeAt, content_of_not_mem hn]
      rfl
    by_cases hj : j = routeKey route
    · simp [hj, Op.route, Op.result]
    · simp [hj, Ne.symm hj, Op.route, Op.name, hbefore]
  | @newRoute n route hn hf =>
    have hbefore : R.routeAt (n, j) = (R.entries n).routes.find? (routeKey · = j) := by
      rw [routeAt, content_of_mem hn]
      rfl
    rw [RibEntry.insertRoute_of_new hf]
    by_cases hj : j = routeKey route
    · subst hj
      have hnone : (R.entries n).routes.find? (routeKey · = routeKey route) = none := by
        rw [find?_routeKey]
        exact hf
      simp [hnone, Op.route, Op.result]
    · simp [hj, Ne.symm hj, Op.route, Op.name, hbefore]
  | @updated n route existing hn hf =>
    obtain ⟨l₁, l₂, hl, hup, -⟩ := RibEntry.exists_of_findRoute hf
    obtain ⟨hkey, hnot⟩ := key_of_findRoute hf hl (hu n hn)
    rw [hup]
    by_cases hj : j = routeKey route
    · subst hj
      have hnone :=
        find?_eq_none.mpr fun w hw he =>
          hnot w (mem_append_left _ hw) (of_decide_eq_true he)
      simp [hnone, Op.route, Op.result]
    · change (l₁ ++ route :: l₂).find? _ = _
      rw [Op.route, if_neg hj, find?_middle (Ne.symm hj), Op.name, routeAt, content_of_mem hn]
      change _ = (R.entries n).routes.find? _
      rw [hl, find?_middle (hkey ▸ Ne.symm hj)]
  | @erased n route existing hn hf =>
    obtain ⟨l₁, l₂, hl, -, her⟩ := RibEntry.exists_of_findRoute hf
    obtain ⟨hkey, hnot⟩ := key_of_findRoute hf hl (hu n hn)
    have hleft : (if ((R.entries n).eraseRoute route).getNRoutes = 0 then none
        else some (((R.entries n).eraseRoute route).routes,
          ((R.entries n).eraseRoute route).nRoutesWithCaptureSet)).bind
          (fun c => c.1.find? (routeKey · = j)) = (l₁ ++ l₂).find? (routeKey · = j) := by
      split
      next h0 =>
        rw [← her, length_eq_zero_iff.mp h0]
        rfl
      · rw [her]
        rfl
    rw [hleft, Op.route]
    by_cases hj : j = routeKey route
    · subst hj
      rw [if_pos rfl, Op.result, find?_eq_none]
      exact fun w hw he => hnot w hw (of_decide_eq_true he)
    · rw [if_neg hj, Op.name, routeAt, content_of_mem hn]
      change _ = (R.entries n).routes.find? _
      rw [hl, find?_middle (hkey ▸ Ne.symm hj)]
  | @nothing n route hf =>
    rw [Op.route]
    by_cases hj : j = routeKey route
    · subst hj
      rw [if_pos rfl, Op.result]
      by_cases hn : n ∈ R.names
      · rw [content_of_mem hn]
        change (R.entries n).routes.find? _ = none
        rw [find?_routeKey]
        exact hf hn
      · rw [content_of_not_mem hn]
        rfl
    · rw [if_neg hj]
      rfl

end Rib

omit [LinearOrder C] in
lemma RibUpdate.routeId_eq : u.routeId = (u.name, routeKey u.route) := rfl

lemma Rib.ChangedAt.routeAt {c : Option (List Route × ℕ)} (h : ChangedAt R R' u.name c)
    (ho : Outcome R (opOf u) c) (hu : R.UniqueRoutes) (k : RouteId C) :
    R'.routeAt k = if k = u.routeId then (if u.action = .register then some u.route else none)
      else R.routeAt k := by
  obtain ⟨x, j⟩ := k
  by_cases hx : x = u.name
  · subst hx
    have hroute : (opOf u).route = u.route := by
      rw [opOf]
      split <;> rfl
    have hresult : (opOf u).result = if u.action = .register then some u.route else none := by
      rw [opOf]
      cases u.action <;> rfl
    rw [Rib.routeAt, h.self, ho.find? hu j, hroute, hresult, opOf_name, u.routeId_eq]
    simp [Prod.ext_iff]
  · rw [if_neg (by simp [u.routeId_eq, hx]), Rib.routeAt, h.other x hx, Rib.routeAt]

lemma onFibUpdateSuccess_spec {us : List (RibUpdate C)} (ht : R.TreeInv) (hu : R.UniqueRoutes)
    (h : onFibUpdateSuccess R u us = some R') :
    R'.TreeInv ∧ R'.UniqueRoutes ∧ ∀ k, R'.routeAt k =
      if k = u.routeId then (if u.action = .register then some u.route else none)
      else R.routeAt k := by
  rw [onFibUpdateSuccess] at h
  obtain ⟨hsame, -⟩ := modifyInheritedRoutes_spec h
  obtain ⟨c, ho, happ⟩ := apply_spec ht (opOf u)
  rw [opOf_name] at happ
  have hchanged := happ.changed.records hsame
  refine ⟨hchanged.tree, fun x hx => ?_, hchanged.routeAt ho hu⟩
  rcases hchanged.entry hx with ⟨rfl, hc⟩ | ⟨-, hm, hroutes, -⟩
  · exact ho.unique (opOf_name ▸ hu u.name) hc
  · rw [hroutes]
    exact hu x hm

/-! ### The destruction of a face -/

namespace RibState

open FibUpdater

variable {nth : NthElement} {s s' t t' : RibState C} {f : FaceId} {calls : List (Call C)}
  {c : Option (List Route × ℕ)} {k : RouteId C} {l batches : List (RibUpdate C)}

omit [LinearOrder C] in
lemma beginRemoveFace_face {w : RibUpdate C} (hw : w ∈ R.beginRemoveFace f) :
    w.action = .removeFace ∧ w.route.faceId = f := by
  obtain ⟨⟨x, r⟩, hmem, rfl⟩ := List.mem_map.mp hw
  obtain ⟨y, -, hy⟩ := mem_flatMap.mp hmem
  obtain ⟨r', hr', he⟩ := List.mem_map.mp hy
  cases he
  exact ⟨rfl, by simpa using (mem_filter.mp hr').2⟩

omit [LinearOrder C] in
lemma mem_beginRemoveFace (hm : Mapped R) {x : Name C} (hx : x ∈ R.names) {r : Route}
    (hr : r ∈ (R.entries x).routes) (hf : r.faceId = f) :
    (⟨.removeFace, x, r⟩ : RibUpdate C) ∈ R.beginRemoveFace f := by
  refine List.mem_map.mpr ⟨(x, r), mem_flatMap.mpr ⟨x, hf ▸ hm x hx r hr, ?_⟩, rfl⟩
  exact List.mem_map.mpr ⟨r, mem_filter.mpr ⟨hr, by simpa using hf⟩, rfl⟩

/-- Every route on the face has a batch among those of `beginRemoveFace`. -/
lemma Sound.listed_beginRemoveFace (h : Sound s) (hk : k.2.1 = f) (hr : s.rib.routeAt k ≠ none) :
    ∃ w ∈ s.rib.beginRemoveFace f, w.action = .removeFace ∧ w.routeId = k := by
  obtain ⟨r, hr⟩ := ne_none_iff_exists'.mp hr
  obtain ⟨hn, hmem, hkey⟩ := (routeAt_eq_some h.unique).mp hr
  have hf : r.faceId = f := (congrArg Prod.fst hkey).trans hk
  exact ⟨_, mem_beginRemoveFace h.mapped hn hmem hf, rfl, Prod.ext rfl hkey⟩

/-- While a destroyed face is cleared, no registration for it waits ahead of a batch that removes
a route of it, and every route that is left on it has such a batch. -/
structure Removing (s : RibState C) : Prop where
  ahead : s.updateBatches.Pairwise fun w u =>
    u.action = .removeFace → w.action = .register → w.route.faceId ≠ u.route.faceId
  listed : ∀ u ∈ s.updateBatches, u.action = .removeFace → ∀ k : RouteId C,
    k.2.1 = u.route.faceId → s.rib.routeAt k ≠ none →
      ∃ w ∈ s.updateBatches, w.action = .removeFace ∧ w.routeId = k

lemma removing_init : Removing ({} : RibState C) :=
  ⟨.nil, fun _ h => absurd h not_mem_nil⟩

section

variable (h : Removing s) (hsound : Sound s) (hs : Sent nth s s' u calls c)
include h hsound hs

/-- The batch that ends is not a registration for a face of which routes are still removed, so a
route left on the face was there before and is not the one that the batch removes. -/
lemma Removing.left {v : RibUpdate C} (hv : v ∈ s.updateBatches) (ha : v.action = .removeFace)
    (hk : k.2.1 = v.route.faceId) (hr : s'.rib.routeAt k ≠ none) :
    ∃ w ∈ s'.updateBatches, w.action = .removeFace ∧ w.routeId = k := by
  have hahead := h.ahead
  rw [hs.queue, pairwise_cons] at hahead
  rw [hs.changed.routeAt hs.batch.outcome hsound.unique] at hr
  split at hr
  next he =>
    split at hr
    next hreg =>
      rw [hs.queue] at hv
      rcases mem_cons.mp hv with rfl | hv
      · rw [hreg] at ha
        cases ha
      · exact absurd ((congrArg (·.2.1) he).symm.trans hk) (hahead.1 v hv ha hreg)
    · exact absurd rfl hr
  next hne =>
    obtain ⟨w, hw, hact, hwk⟩ := h.listed v hv ha k hk hr
    rw [hs.queue] at hw
    rcases mem_cons.mp hw with rfl | hw
    · exact absurd hwk.symm hne
    · exact ⟨w, hw, hact, hwk⟩

lemma Removing.sent : Removing s' := by
  have hahead := h.ahead
  rw [hs.queue, pairwise_cons] at hahead
  refine ⟨hahead.2, fun v hv ha k hk hr => h.left hsound hs ?_ ha hk hr⟩
  rw [hs.queue]
  exact mem_cons_of_mem u hv

lemma Removing.no_routes
    (ha : u.action = .removeFace) (hsettled : s'.Settled u.route.faceId) {x : Name C}
    (hx : x ∈ s'.rib.names) {r : Route} (hr : r ∈ (s'.rib.entries x).routes) :
    r.faceId ≠ u.route.faceId := by
  intro hf
  have hroute : s'.rib.routeAt (x, routeKey r) = some r :=
    (routeAt_eq_some (hsound.sent hs).unique).mpr ⟨hx, hr, rfl⟩
  obtain ⟨w, hw, hact, hwk⟩ := h.left hsound hs (by simp [hs.queue]) ha (k := (x, routeKey r)) hf
    (by simp [hroute])
  exact hsettled w hw hact ((congrArg (·.2.1) hwk).trans hf)

end

lemma Removing.begin (h : Removing s) (hno : ∀ w ∈ batches, w.action ≠ .removeFace) :
    Removing (s.begin batches) := by
  refine ⟨pairwise_append.mpr ⟨h.ahead, pairwise_of_forall_mem_list ?_, ?_⟩, ?_⟩
  · exact fun w _ u hu ha => absurd ha (hno u hu)
  · exact fun w _ u hu ha => absurd ha (hno u hu)
  intro u hu ha k hk hr
  rcases mem_append.mp hu with hu | hu
  · obtain ⟨w, hw, hwk⟩ := h.listed u hu ha k hk hr
    exact ⟨w, mem_append_left _ hw, hwk⟩
  · exact absurd ha (hno u hu)

/-- `s.Unregistered f`: no registration for the face is queued or in progress. -/
def Unregistered (s : RibState C) (f : FaceId) : Prop :=
  ∀ u ∈ s.updateBatches, u.action = .register → u.route.faceId ≠ f

lemma Removing.removeFace (h : Removing s) (hsound : Sound s) (hno : s.Unregistered f) :
    Removing ({ s with fib := dropFace s.fib f }.begin (s.rib.beginRemoveFace f)) := by
  refine ⟨pairwise_append.mpr ⟨h.ahead, pairwise_of_forall_mem_list ?_, ?_⟩, ?_⟩
  · intro w hw u _ _ hreg
    rw [(beginRemoveFace_face hw).1] at hreg
    cases hreg
  · intro w hw u hu _ hreg
    rw [(beginRemoveFace_face hu).2]
    exact hno w hw hreg
  intro u hu ha k hk hr
  rcases mem_append.mp hu with hu | hu
  · obtain ⟨w, hw, hwk⟩ := h.listed u hu ha k hk hr
    exact ⟨w, mem_append_left _ hw, hwk⟩
  · obtain ⟨w, hw, hwk⟩ := hsound.listed_beginRemoveFace (hk.trans (beginRemoveFace_face hu).2) hr
    exact ⟨w, mem_append_right _ hw, hwk⟩

/-- Where faces are destroyed only while no batch waits, the batches that remove the routes of a
face are ahead of all others, and the FIB has no nexthop on the face until they are sent. -/
structure Draining (s : RibState C) : Prop where
  removing : Removing s
  first : s.updateBatches.Pairwise fun w u =>
    u.action = .removeFace → w.action = .removeFace ∧ w.route.faceId = u.route.faceId
  gone : ∀ u ∈ s.updateBatches, u.action = .removeFace → ∀ x, s.fib (x, u.route.faceId) = none

lemma draining_init : Draining ({} : RibState C) :=
  ⟨removing_init, .nil, fun _ h => absurd h not_mem_nil⟩

lemma Draining.gone_sent {g : FaceId} (h : Draining s) (hs : Sent nth s s' u calls c)
    (hr : u.action = .removeFace ∧ g = u.route.faceId) (x : Name C) : s.fib (x, g) = none := by
  rw [hr.2]
  exact h.gone u (by simp [hs.queue]) hr.1 x

lemma Draining.sent (h : Draining s) (hsound : Sound s) (hs : Sent nth s s' u calls c) :
    Draining s' := by
  have hfirst := h.first
  rw [hs.queue, pairwise_cons] at hfirst
  refine ⟨h.removing.sent hsound hs, hfirst.2, fun w hw ha x => ?_⟩
  obtain ⟨hua, huf⟩ := hfirst.1 w hw ha
  rw [hs.fib, if_pos ⟨hua, huf.symm⟩]
  exact h.gone w (by simp [hs.queue, hw]) ha x

lemma Draining.begin (h : Draining s) (hno : ∀ w ∈ batches, w.action ≠ .removeFace) :
    Draining (s.begin batches) := by
  refine ⟨h.removing.begin hno, pairwise_append.mpr ⟨h.first, pairwise_of_forall_mem_list ?_, ?_⟩,
    fun u hu ha => ?_⟩
  · exact fun w _ u hu ha => absurd ha (hno u hu)
  · exact fun w _ u hu ha => absurd ha (hno u hu)
  rcases mem_append.mp hu with hu | hu
  · exact h.gone u hu ha
  · exact absurd ha (hno u hu)

lemma Draining.removeFace (h : Draining s) (hsound : Sound s) (hq : s.updateBatches = []) :
    Draining ({ s with fib := dropFace s.fib f }.begin (s.rib.beginRemoveFace f)) := by
  have hface : ∀ w ∈ s.updateBatches ++ s.rib.beginRemoveFace f,
      w.action = .removeFace ∧ w.route.faceId = f := by
    rw [hq, nil_append]
    exact fun w hw => beginRemoveFace_face hw
  refine ⟨h.removing.removeFace hsound (by simp [Unregistered, hq]),
    pairwise_of_forall_mem_list fun w hw u hu _ => ?_, fun u hu _ x => ?_⟩
  · exact ⟨(hface w hw).1, (hface w hw).2.trans (hface u hu).2.symm⟩
  · exact if_pos (hface u hu).2

lemma Draining.step (h : Draining s) (hsound : Sound s) {ev : Event C}
    (hq : ∀ f, ev = .removeFace f → s.updateBatches = []) (hs : s.step nth ev = some s') :
    Draining s' := by
  cases ev with
  | register n r | unregister n r =>
    cases hs
    exact h.begin (by simp)
  | removeFace f =>
    cases hs
    exact h.removeFace hsound (hq f rfl)
  | batch =>
    obtain ⟨u, calls, c, hsent⟩ := sent_of_send hsound.tree hs
    exact h.sent hsound hsent

/-- What `s` has become since the face `f` was destroyed: a route on the face is gone, or one of
the batches that wait removes it. -/
structure Clearing (s : RibState C) (f : FaceId) (t : RibState C) : Prop where
  sound : Sound t
  batches : ∀ w ∈ t.updateBatches, w.action = .removeFace ∧ w.route.faceId = f
  listed : ∀ k : RouteId C, k.2.1 = f →
    t.rib.routeAt k = none ∨ ∃ w ∈ t.updateBatches, w.routeId = k
  other : ∀ k : RouteId C, k.2.1 ≠ f → t.rib.routeAt k = s.rib.routeAt k
  nexthops : ∀ x, t.fib (x, f) = none

lemma clearing_removeFace (h : Sound s) (hq : s.updateBatches = [])
    (hs : s.step nth (.removeFace f) = some t) : Clearing s f t := by
  have hsound := h.step hs
  cases hs
  refine ⟨hsound, fun w hw => ?_, fun k hk => ?_, fun _ _ => rfl, fun x => if_pos rfl⟩
  · replace hw : w ∈ s.updateBatches ++ s.rib.beginRemoveFace f := hw
    rw [hq, nil_append] at hw
    exact beginRemoveFace_face hw
  by_cases hr : s.rib.routeAt k = none
  · exact .inl hr
  · obtain ⟨w, hw, -, hwk⟩ := h.listed_beginRemoveFace hk hr
    exact .inr ⟨w, mem_append_right _ hw, hwk⟩

lemma Clearing.batch (h : Clearing s f t) (hs : t.step nth .batch = some t') : Clearing s f t' := by
  obtain ⟨u, calls, c, hsent⟩ := sent_of_send h.sound.tree hs
  have hroute := hsent.changed.routeAt hsent.batch.outcome h.sound.unique
  obtain ⟨hact, hface⟩ := h.batches u (by simp [hsent.queue])
  refine ⟨h.sound.step hs, fun w hw => h.batches w (by simp [hsent.queue, hw]), fun k hk => ?_,
    fun k hk => ?_, fun x => ?_⟩
  · rw [hroute]
    by_cases he : k = u.routeId
    · simp [he, hact]
    rw [if_neg he]
    rcases h.listed k hk with hnone | ⟨w, hw, hwk⟩
    · exact .inl hnone
    rw [hsent.queue] at hw
    rcases mem_cons.mp hw with rfl | hw
    · exact absurd hwk.symm he
    · exact .inr ⟨w, hw, hwk⟩
  · have hne : k ≠ u.routeId := by
      rintro rfl
      exact hk hface
    rw [hroute, if_neg hne]
    exact h.other k hk
  · rw [hsent.fib, if_pos ⟨hact, hface.symm⟩]
    exact h.nexthops x

/-- In every run, when a face is destroyed while no batch waits and its batches have been sent, no
nexthop and no route is left on it, and the routes on other faces are as they were. -/
theorem face_cleared_of_run (h : Reach (step nth) Any {} s) (hq : s.updateBatches = [])
    (hf : s.step nth (.removeFace f) = some t)
    (hsent : Reach (step nth) (fun _ ev => ev = .batch) t t') (hdone : t'.updateBatches = []) :
    (∀ x, t'.fib (x, f) = none) ∧
      ∀ k, t'.rib.routeAt k = if k.2.1 = f then none else s.rib.routeAt k := by
  have hsound : Sound s := h.invariant sound_init fun _ _ _ hs _ hstep => hs.step hstep
  have hclear : Clearing s f t' := by
    refine hsent.invariant (clearing_removeFace hsound hq hf) fun u ev v hu hev hs => ?_
    subst hev
    exact hu.batch hs
  refine ⟨hclear.nexthops, fun k => ?_⟩
  split
  next hk =>
    simpa [hdone] using hclear.listed k hk
  · exact hclear.other k ‹_›

/-- Of two routes of an entry, registered one behind the other, the one on the destroyed face
goes. -/
theorem face_cleared_of_run_two : ∃ t : RibState ℕ, t.fib ([1], 1) = none ∧
    t.rib.routeAt ([1], 1, 0) = none ∧ t.rib.routeAt ([1], 2, 0) = some ⟨2, 0, 0, 5, 0⟩ := by
  have h := @face_cleared_of_run ℕ _ .sorting _ _ _ 1 (reach_of_run
    (l := [.register [1] ⟨1, 0, 0, 5, 0⟩, .register [1] ⟨2, 0, 0, 5, 0⟩, .batch, .batch])
    .init rfl) rfl rfl (.step .init rfl rfl) rfl
  exact ⟨_, h.1 [1], h.2 ([1], 1, 0), h.2 ([1], 2, 0)⟩

end RibState

end NfdGateway
