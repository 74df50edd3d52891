import NfdGateway.Lib.Transition
import NfdGateway.Rib.WellFormed

/-! What the RIB keeps beside its routes: in each entry the number of routes with CAPTURE, and
for each face the entries with a route on it. -/
namespace NfdGateway.Rib

open RibState Transition List Function

variable {C : Type} [LinearOrder C] {R : Rib C} {op : Op C} {c : Option (List Route × ℕ)}
  {n x : Name C} {route : Route} {f : FaceId}

def step (R : Rib C) (op : Op C) : Option (Rib C) := some (R.apply op)

/-! The CAPTURE counter. -/

def KeepsCapture (R : Rib C) : Op C → Prop
  | .insert n route => n ∈ R.names →
    match (R.entries n).findRoute route with
    | none => route.isCapture = true → (R.entries n).routes.countP (·.isCapture) + 1 < 2 ^ 64
    | some existing => route.isCapture = existing.isCapture
  | .erase _ _ => True

lemma Outcome.counted (ho : Outcome R op c) (hk : R.KeepsCapture op)
    (hcnt : op.name ∈ R.names → (R.entries op.name).Counted) {rs : List Route} {k : ℕ}
    (hc : c = some (rs, k)) : k = rs.countP (·.isCapture) ∧ k < 2 ^ 64 := by
  cases ho with
  | @newEntry n route hn =>
    cases hc
    cases hcap : route.isCapture <;> simp [hcap]
  | newRoute hn hf =>
    cases hc
    have hk := hk hn
    rw [hf] at hk
    exact (hcnt hn).insertRoute hf fun hcap => (hcnt hn).1 ▸ hk hcap
  | updated hn hf =>
    cases hc
    have hk := hk hn
    rw [hf] at hk
    exact (hcnt hn).updateRoute hf hk
  | erased hn hf =>
    split at hc
    · cases hc
    · cases hc
      exact (hcnt hn).eraseRoute hf
  | nothing =>
    obtain ⟨hn, ⟨⟩⟩ := content_eq_some hc
    exact hcnt hn

def AllCounted (R : Rib C) : Prop := R.TreeInv ∧ ∀ x ∈ R.names, (R.entries x).Counted

lemma AllCounted.apply (h : AllCounted R) (hk : R.KeepsCapture op) : AllCounted (R.apply op) := by
  obtain ⟨c, ho, happ⟩ := apply_spec h.1 op
  refine ⟨happ.changed.tree, fun x hx => ?_⟩
  rcases happ.changed.entry hx with ⟨rfl, hc⟩ | ⟨-, hm, hroutes, hcount⟩
  · exact ho.counted hk (h.2 _) hc
  · rw [RibEntry.Counted, hroutes, hcount]
    exact h.2 x hm

lemma allCounted_of_reach (h : Reach step KeepsCapture {} R) : AllCounted R := by
  refine h.invariant ⟨treeInv_empty, fun _ hx => absurd hx not_mem_nil⟩ ?_
  intro R op R' hinv hk hs
  cases hs
  exact hinv.apply hk

theorem capture_counted_of_run (h : Reach step KeepsCapture {} R) (hn : n ∈ R.names) :
    ((R.entries n).hasCapture = true ↔ ∃ r ∈ (R.entries n).routes, r.isCapture = true) ∧
      (R.entries n).nRoutesWithCaptureSet = (R.entries n).routes.countP (·.isCapture) := by
  have hcnt := (allCounted_of_reach h).2 n hn
  exact ⟨by rw [hcnt.hasCapture_eq, List.any_eq_true], hcnt.1⟩

/-- A route is updated to one with CAPTURE, and erased while another one is left. -/
theorem capture_counter_wraps : (∃ R : Rib ℕ, Reach step Any {} R ∧ [1] ∈ R.names ∧
      (∃ r ∈ (R.entries [1]).routes, r.isCapture = true) ∧ (R.entries [1]).hasCapture = false) ∧
    ∃ R : Rib ℕ, Reach step Any {} R ∧ [1] ∈ R.names ∧
      (∀ r ∈ (R.entries [1]).routes, r.isCapture = false) ∧ (R.entries [1]).hasCapture = true ∧
      (R.entries [1]).nRoutesWithCaptureSet = 2 ^ 64 - 1 := by
  refine ⟨⟨_, reach_of_run (l := [.insert [1] ⟨1, 0, 0, 0, 0⟩, .insert [1] ⟨1, 0, 2, 0, 0⟩])
      .init rfl, ?_⟩,
    ⟨_, reach_of_run (l := [.insert [1] ⟨1, 0, 0, 0, 0⟩, .insert [1] ⟨2, 0, 0, 0, 0⟩,
      .insert [1] ⟨1, 0, 2, 0, 0⟩, .erase [1] ⟨1, 0, 0, 0, 0⟩]) .init rfl, ?_⟩⟩
  · decide +kernel
  · decide +kernel

/-- One of two routes with CAPTURE is updated to a new cost, and the other erased. -/
theorem capture_counted_of_run_kept : ∃ R : Rib ℕ, [1] ∈ R.names ∧
    (R.entries [1]).nRoutesWithCaptureSet = 1 ∧
    ((R.entries [1]).hasCapture = true ↔ ∃ r ∈ (R.entries [1]).routes, r.isCapture = true) ∧
    (R.entries [1]).nRoutesWithCaptureSet = (R.entries [1]).routes.countP (·.isCapture) := by
  have h : ∃ R : Rib ℕ, Reach step KeepsCapture {} R ∧ [1] ∈ R.names ∧
      (R.entries [1]).nRoutesWithCaptureSet = 1 := by
    refine ⟨_, .step (a := .erase [1] ⟨2, 0, 0, 0, 0⟩) (.step (a := .insert [1] ⟨1, 0, 2, 7, 0⟩)
      (.step (a := .insert [1] ⟨2, 0, 2, 0, 0⟩) (.step (a := .insert [1] ⟨1, 0, 2, 0, 0⟩) .init
        ?_ rfl) ?_ rfl) ?_ rfl) trivial rfl, ?_, ?_⟩
    · exact fun hn => absurd hn not_mem_nil
    · exact fun _ _ => by decide +kernel
    · exact fun _ => rfl
    · decide +kernel
    · decide +kernel
  obtain ⟨R, hR, hn, hcount⟩ := h
  exact ⟨R, hn, hcount, capture_counted_of_run hR hn⟩

/-! The entries of a face. -/

def FreshFace (R : Rib C) : Op C → Prop
  | .insert n route => n ∈ R.names → (R.entries n).findRoute route = none →
    (R.entries n).hasFaceId route.faceId = false
  | .erase _ _ => True

structure Indexed (R : Rib C) : Prop where
  nodup : ∀ f, (R.faceMap f).Nodup
  mem_iff : ∀ f x, x ∈ R.faceMap f ↔ x ∈ R.names ∧ (R.entries x).hasFaceId f = true

omit [LinearOrder C] in
lemma hasFaceId_congr {e e' : RibEntry C} (h : e.routes = e'.routes) :
    e.hasFaceId f = e'.hasFaceId f := by
  rw [RibEntry.hasFaceId, h]
  rfl

section

variable (hi : Indexed R)
include hi

lemma Indexed.insertEntry (h : R.TreeInv) (hn : n ∉ R.names) : Indexed (R.insertEntry n route) := by
  obtain ⟨hins, -, -⟩ := insertEntry_spec h hn route
  have hnew : ∀ g, n ∉ R.faceMap g := fun g hm => hn ((hi.mem_iff g n).mp hm).1
  have hself := (RibEntry.mk.inj hins.data_self).2.2.2.1
  have hother : ∀ x, x ≠ n → ((R.insertEntry n route).entries x).routes = (R.entries x).routes :=
    fun x hx => (RibEntry.mk.inj (hins.data_other x hx)).2.2.2.1
  have hmem : ∀ g x, x ∈ (R.insertEntry n route).faceMap g ↔
      x ∈ R.faceMap g ∨ (x = n ∧ g = route.faceId) := by
    intro g x
    rw [hins.faceMap]
    by_cases hg : g = route.faceId <;> simp [hg]
  refine ⟨fun g => ?_, fun g x => ?_⟩
  · rw [hins.faceMap]
    by_cases hg : g = route.faceId
    · rw [hg, update_self]
      refine nodup_append.mpr ⟨hi.nodup _, nodup_singleton n, fun a ha b hb he => ?_⟩
      rw [he, mem_singleton.mp hb] at ha
      exact hnew _ ha
    · rw [update_of_ne hg]
      exact hi.nodup g
  · rw [hmem, hi.mem_iff, hins.mem_names]
    by_cases hx : x = n
    · subst hx
      have hface : ((R.insertEntry x route).entries x).hasFaceId g = (route.faceId == g) := by
        simp [RibEntry.hasFaceId, hself]
      rw [hface, beq_iff_eq, eq_comm (a := g)]
      simp [hn]
    · simp [hx, hasFaceId_congr (hother x hx)]

lemma Indexed.setEntry (hn : n ∈ R.names) {e : RibEntry C} {m : ℕ}
    {t : FaceId → List (Name C)} (hnodup : ∀ g, (t g).Nodup)
    (hself : ∀ g, n ∈ t g ↔ e.hasFaceId g = true)
    (hother : ∀ g x, x ≠ n → (x ∈ t g ↔ x ∈ R.faceMap g)) :
    Indexed { R.setEntry n e with nItems := m, faceMap := t } := by
  refine ⟨hnodup, fun g x => ?_⟩
  by_cases hx : x = n
  · subst hx
    simp [Rib.setEntry, hn, hself]
  · simp [Rib.setEntry, hx, hother g x hx, hi.mem_iff]

lemma Indexed.withRoute (hn : n ∈ R.names) (hf : (R.entries n).findRoute route = none)
    (hfresh : (R.entries n).hasFaceId route.faceId = false) : Indexed (R.withRoute n route) := by
  have hnot : n ∉ R.faceMap route.faceId := fun hm => by
    simpa [hfresh] using ((hi.mem_iff _ n).mp hm).2
  have hface : ∀ g, ((R.entries n).insertRoute route).hasFaceId g =
      ((R.entries n).hasFaceId g || route.faceId == g) := by
    intro g
    rw [RibEntry.insertRoute_of_new hf]
    simp [RibEntry.hasFaceId]
  refine hi.setEntry hn (fun g => ?_) (fun g => ?_) (fun g x hx => ?_)
  · by_cases hg : g = route.faceId
    · rw [hg, update_self]
      refine nodup_append.mpr ⟨hi.nodup _, nodup_singleton n, fun a ha b hb he => ?_⟩
      rw [he, mem_singleton.mp hb] at ha
      exact hnot ha
    · rw [update_of_ne hg]
      exact hi.nodup g
  · by_cases hg : g = route.faceId
    · simp [hface, hg]
    · simp [hface, hg, Ne.symm hg, hi.mem_iff, hn]
  · by_cases hg : g = route.faceId
    · simp [hg, hx]
    · simp [hg]

lemma Indexed.withoutRoute (hn : n ∈ R.names) {existing : Route}
    (hf : (R.entries n).findRoute route = some existing) : Indexed (R.withoutRoute n route) := by
  have hhad := RibEntry.hasFaceId_of_findRoute hf
  refine hi.setEntry hn (fun g => ?_) (fun g => ?_) (fun g x hx => ?_)
  · split
    · exact hi.nodup g
    by_cases hg : g = route.faceId
    · rw [hg, update_self]
      exact (hi.nodup _).filter _
    · rw [update_of_ne hg]
      exact hi.nodup g
  · by_cases hg : g = route.faceId
    · subst hg
      split
      next hleft =>
        rw [hi.mem_iff, hleft]
        simp [hn, hhad]
      next hleft =>
        simp [hleft]
    · rw [RibEntry.hasFaceId_eraseRoute hf hg]
      split
      · rw [hi.mem_iff]
        exact and_iff_right hn
      · rw [update_of_ne hg, hi.mem_iff]
        exact and_iff_right hn
  · split
    · rfl
    by_cases hg : g = route.faceId
    · simp [hg, hx]
    · simp [hg]

lemma Indexed.eraseEntry (h : R.TreeInv) (hn : n ∈ R.names)
    (hnil : (R.entries n).routes = []) : Indexed (R.eraseEntry n) := by
  have her := eraseEntry_spec h hn
  refine ⟨fun g => her.faceMap ▸ hi.nodup g, fun g x => ?_⟩
  have hroutes := (RibEntry.mk.inj (congrFun her.data x)).2.2.2.1
  rw [her.faceMap, hi.mem_iff, her.mem_names h, hasFaceId_congr hroutes]
  constructor
  · rintro ⟨hx, hface⟩
    refine ⟨⟨?_, hx⟩, hface⟩
    rintro rfl
    simp [RibEntry.hasFaceId, hnil] at hface
  · rintro ⟨⟨-, hx⟩, hface⟩
    exact ⟨hx, hface⟩

lemma Indexed.apply (h : R.TreeInv) (hfresh : R.FreshFace op) : Indexed (R.apply op) := by
  cases op with
  | insert n route =>
    change Indexed (R.insert n route)
    by_cases hn : n ∈ R.names
    · cases hf : (R.entries n).findRoute route with
      | none =>
        rw [insert_of_newRoute hn hf]
        exact hi.withRoute hn hf (hfresh hn hf)
      | some existing =>
        rw [insert_of_found hn hf]
        refine hi.setEntry (e := (R.entries n).updateRoute route) hn hi.nodup (fun g => ?_)
          fun g x _ => Iff.rfl
        rw [hi.mem_iff, RibEntry.hasFaceId_updateRoute hf]
        exact and_iff_right hn
    · rw [insert_of_newEntry hn]
      exact hi.insertEntry h hn
  | erase n route =>
    change Indexed (R.erase n route)
    by_cases hf : n ∈ R.names → (R.entries n).findRoute route = none
    · rwa [erase_of_not_found hf]
    obtain ⟨hn, hne⟩ := Classical.not_imp.mp hf
    obtain ⟨existing, hex⟩ := Option.ne_none_iff_exists'.mp hne
    have hset := hi.withoutRoute hn hex
    rw [erase_of_found hn hex]
    split
    next h0 =>
      refine hset.eraseEntry (applied_withoutRoute h hn hex).changed.tree hn ?_
      simpa [Rib.withoutRoute, Rib.setEntry, RibEntry.getNRoutes] using h0
    · exact hset

end

lemma indexed_of_reach (h : Reach step FreshFace {} R) : R.TreeInv ∧ RoutesOk R ∧ Indexed R := by
  have hempty : Indexed ({} : Rib C) := ⟨fun _ => nodup_nil, fun _ _ => by simp⟩
  refine h.invariant (I := fun R => R.TreeInv ∧ RoutesOk R ∧ Indexed R)
    ⟨treeInv_empty, routesOk_empty, hempty⟩ ?_
  intro R op R' hinv hk hs
  cases hs
  obtain ⟨ht, hr, hi⟩ := hinv
  obtain ⟨c, -, happ⟩ := apply_spec ht op
  exact ⟨happ.changed.tree, hr.apply ht op, hi.apply ht hk⟩

omit [LinearOrder C] in
lemma RoutesOk.nodup (hr : RoutesOk R) (hx : x ∈ R.names) : (R.entries x).routes.Nodup :=
  (hr.unique x hx).of_map _

/-- Exactly the routes on the face, each once. -/
theorem face_routes_of_run (h : Reach step FreshFace {} R) (f : FaceId) :
    ((R.findRoutesWithFaceId f).Nodup ∧ ∀ n r, (n, r) ∈ R.findRoutesWithFaceId f ↔
      n ∈ R.names ∧ r ∈ (R.entries n).routes ∧ r.faceId = f) ∧
    (R.beginRemoveFace f).Nodup ∧ ∀ u, u ∈ R.beginRemoveFace f ↔
      u.action = .removeFace ∧ u.name ∈ R.names ∧ u.route ∈ (R.entries u.name).routes ∧
        u.route.faceId = f := by
  obtain ⟨-, hr, hi⟩ := indexed_of_reach h
  have hnodup : (R.findRoutesWithFaceId f).Nodup := by
    refine nodup_flatMap.mpr ⟨fun x hx => ?_, (hi.nodup f).imp fun hne => ?_⟩
    · exact ((hr.nodup ((hi.mem_iff f x).mp hx).1).filter _).map (Prod.mk_right_injective x)
    intro p hp hq
    obtain ⟨r, -, rfl⟩ := List.mem_map.mp hp
    obtain ⟨r', -, he⟩ := List.mem_map.mp hq
    exact hne (Prod.mk.inj he).1.symm
  have hmem : ∀ n r, (n, r) ∈ R.findRoutesWithFaceId f ↔
      n ∈ R.names ∧ r ∈ (R.entries n).routes ∧ r.faceId = f := by
    intro n r
    simp only [findRoutesWithFaceId, mem_flatMap, List.mem_map, mem_filter, beq_iff_eq,
      Prod.mk.injEq, hi.mem_iff]
    constructor
    · rintro ⟨x, ⟨hx, -⟩, w, hw, rfl, rfl⟩
      exact ⟨hx, hw⟩
    · rintro ⟨hn, hr, hrf⟩
      exact ⟨n, ⟨hn, List.any_eq_true.mpr ⟨r, hr, by simpa using hrf⟩⟩, r, ⟨hr, hrf⟩, rfl, rfl⟩
  refine ⟨⟨hnodup, hmem⟩, hnodup.map fun p q he => ?_, fun u => ?_⟩
  · obtain ⟨-, hn, hr⟩ := RibUpdate.mk.inj he
    exact Prod.ext hn hr
  rw [← hmem]
  constructor
  · intro hu
    obtain ⟨p, hp, rfl⟩ := List.mem_map.mp hu
    exact ⟨rfl, hp⟩
  · rintro ⟨ha, hp⟩
    exact List.mem_map.mpr ⟨_, hp, by rw [← ha]⟩

/-- Two routes of different origin on a face are listed twice each, and one route is still
listed twice after the other was erased. -/
theorem face_routes_repeated : ∃ R : Rib ℕ, Reach step Any {} R ∧
    R.findRoutesWithFaceId 1 = [([1], ⟨1, 0, 0, 0, 0⟩), ([1], ⟨1, 1, 0, 0, 0⟩),
      ([1], ⟨1, 0, 0, 0, 0⟩), ([1], ⟨1, 1, 0, 0, 0⟩)] ∧
    ¬ (R.findRoutesWithFaceId 1).Nodup ∧ (R.beginRemoveFace 1).length = 4 ∧
    (R.erase [1] ⟨1, 0, 0, 0, 0⟩).findRoutesWithFaceId 1 =
      [([1], ⟨1, 1, 0, 0, 0⟩), ([1], ⟨1, 1, 0, 0, 0⟩)] := by
  refine ⟨_, reach_of_run (l := [.insert [1] ⟨1, 0, 0, 0, 0⟩, .insert [1] ⟨1, 1, 0, 0, 0⟩])
    .init rfl, ?_⟩
  decide +kernel

/-- Two entries with routes on the face, and one of them with a route on another face. -/
theorem face_routes_of_run_two : ∃ R : Rib ℕ,
    R.findRoutesWithFaceId 1 = [([1], ⟨1, 0, 0, 0, 0⟩), ([2], ⟨1, 1, 0, 0, 0⟩)] ∧
    (R.findRoutesWithFaceId 1).Nodup := by
  have h : ∃ R : Rib ℕ, Reach step FreshFace {} R ∧
      R.findRoutesWithFaceId 1 = [([1], ⟨1, 0, 0, 0, 0⟩), ([2], ⟨1, 1, 0, 0, 0⟩)] := by
    refine ⟨_, .step (a := .insert [2] ⟨1, 1, 0, 0, 0⟩) (.step (a := .insert [1] ⟨2, 0, 0, 0, 0⟩)
      (.step (a := .insert [1] ⟨1, 0, 0, 0, 0⟩) .init ?_ rfl) ?_ rfl) ?_ rfl, ?_⟩
    · exact fun hn => absurd hn not_mem_nil
    · exact fun _ _ => by decide +kernel
    · exact fun hn => absurd hn (by decide +kernel)
    · decide +kernel
  obtain ⟨R, hR, hlist⟩ := h
  exact ⟨R, hlist, (face_routes_of_run hR 1).1.1⟩

end NfdGateway.Rib
