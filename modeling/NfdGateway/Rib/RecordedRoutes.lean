import NfdGateway.Rib.BatchRecords
import NfdGateway.Rib.InheritedNexthops

/-! The inherited routes on record and the inherited nexthops: each entry has at most one record
for a face, none for a face with own routes, and the FIB has the nexthops of the records. -/
namespace NfdGateway

open FibUpdater Rib Slot HandDown List Option Transition

variable {C : Type} [LinearOrder C] {R R' : Rib C} {nth : NthElement} {u : RibUpdate C}
  {calls : List (Call C)} {c : Option (List Route × ℕ)} {n x : Name C} {g : FaceId}
  {s s' : RibState C}

namespace RibState

/-! The records after a batch. -/

lemma Batch.record_names {w : RibUpdate C} (hb : Batch nth R u calls c) (h : R.TreeInv)
    (honce : KidsOnce R) (hk : u.KeepsRecords R)
    (hnodup : u.name ∈ R.names → (R.entries u.name).routes.Nodup)
    (hw : Call.inheritedRoute w ∈ calls) :
    (w.name ≠ u.name ∧ w.name ∈ R.names) ∨ (w.name = u.name ∧ c ≠ none) := by
  by_cases hwn : w.name = u.name
  · refine .inr ⟨hwn, fun hc => ?_⟩
    cases hb with
    | newEntry | newRoute | updated => cases hc
    | erased _ hn _ =>
      split at hc
      next h0 =>
        exact name_ne_of_erasedCalls ((linked h hn).eraseRoute u.route) h0 hw hwn
      · cases hc
    | nothing => cases hw
  · refine .inl ⟨hwn, ?_⟩
    rcases hb.visits h honce hk hnodup with rfl | ⟨children, add, rem, add', rem', hv, -⟩
    · cases hw
    have hmem : Call.inheritedRoute w ∈ FibUpdater.others u.name calls :=
      mem_filter.mpr ⟨hw, by simpa [Call.name] using hwn⟩
    rw [hv.others] at hmem
    rcases mem_append.mp (mem_filter.mp hmem).1 with hm | hm <;> exact (mem_modify h hv.kids hm).1

lemma records_eq_nil (h : ∀ w, Call.inheritedRoute w ∈ calls → w.name ≠ x) :
    records calls (x, g) = [] := by
  refine filterMap_eq_nil_iff.mpr fun w hw => if_neg fun he => ?_
  obtain ⟨k, hk, hkw⟩ := mem_filterMap.mp hw
  cases k with
  | fibUpdate => cases hkw
  | inheritedRoute v =>
    obtain rfl := some.inj hkw
    exact h v hk (Prod.mk.inj he).1

def Slots (R : Rib C) (fib o : Name C → FaceId → Option ℕ) : Prop :=
  ∀ x g, RecordSlot R x g (fib x g) (o x g) ∧
    (x ∈ R.names → (R.entries x).inheritedCosts g = (o x g).toList)

lemma Batch.replays {R₁ : Rib C} {fib o : Name C → FaceId → Option ℕ}
    (hb : Batch nth R u calls c) (happ : Applied R R₁ u.name c) (h : R.TreeInv)
    (honce : KidsOnce R) (hk : u.KeepsRecords R)
    (hnodup : u.name ∈ R.names → (R.entries u.name).routes.Nodup) (hslots : Slots R fib o) :
    ∃ R', modifyInheritedRoutes (calls.filterMap Call.inheritedRoute?) R₁ = some R' ∧
      SameButRecords R₁ R' ∧ ∀ x ∈ R₁.names, ∀ g,
        KeepsSlot calls x g ((R₁.entries x).hasFaceId g) (fib x g) (o x g) ∧
        (R'.entries x).inheritedCosts g =
          ((records calls (x, g)).getLast?.getD (o x g)).toList := by
  have hnames : ∀ w, Call.inheritedRoute w ∈ calls → w.name ∈ R₁.names := by
    intro w hw
    rcases hb.record_names h honce hk hnodup hw with ⟨hwn, hm⟩ | ⟨hwn, hc⟩
    · rw [← content_isSome, happ.changed.other _ hwn, content_isSome]
      exact hm
    · rw [hwn, ← content_isSome, happ.changed.self]
      exact isSome_iff_ne_none.mpr hc
  have hkeeps : ∀ x ∈ R₁.names, ∀ g,
      KeepsSlot calls x g ((R₁.entries x).hasFaceId g) (fib x g) (o x g) := by
    intro x hx g
    rcases happ.changed.entry hx with ⟨rfl, hc⟩ | ⟨hxn, hm, hroutes, -⟩
    · exact hb.keepsSlot_self h honce hk hnodup (hslots _ g).1 hc
    · rw [RibEntry.hasFaceId, hroutes]
      exact hb.keepsSlot_other h honce hk hnodup hxn hm (hslots x g).1
  have hcosts : ∀ x ∈ R₁.names, ∀ g, (R₁.entries x).inheritedCosts g = (o x g).toList := by
    intro x hx g
    rw [RibEntry.inheritedCosts, happ.inherited x hx]
    by_cases hm : x ∈ R.names
    · rw [if_pos hm]
      exact (hslots x g).2 hm
    · rw [if_neg hm, (hslots x g).1.eq_none (by simp [hadRecord, hm])]
      rfl
  have hreplay : ∀ x ∈ R₁.names, ∀ g,
      replay (records calls (x, g)) ((R₁.entries x).inheritedCosts g) =
        some ((records calls (x, g)).getLast?.getD (o x g)).toList := by
    intro x hx g
    rw [hcosts x hx g]
    exact replay_of_orderly (hkeeps x hx g).orderly
  have hnames' : ∀ w ∈ calls.filterMap Call.inheritedRoute?, w.name ∈ R₁.names := by
    intro w hw
    obtain ⟨k, hkm, hkw⟩ := mem_filterMap.mp hw
    cases k with
    | fibUpdate => cases hkw
    | inheritedRoute v =>
      obtain rfl := some.inj hkw
      exact hnames v hkm
  obtain ⟨R', hR', hsame, hrep⟩ := modifyInheritedRoutes_replay hnames' fun x g => by
    by_cases hx : x ∈ R₁.names
    · exact ⟨_, hreplay x hx g⟩
    have hnil : script (calls.filterMap Call.inheritedRoute?) (x, g) = [] :=
      records_eq_nil fun w hw he => hx (he ▸ hnames w hw)
    exact ⟨_, by rw [hnil]; rfl⟩
  refine ⟨R', hR', hsame, fun x hx g => ⟨hkeeps x hx g, ?_⟩⟩
  exact some.inj ((hrep x g).symm.trans (hreplay x hx g))

/-! The last batch of a face that is removed. -/

def Clears (u : RibUpdate C) (R : Rib C) : Prop :=
  ∀ x ∈ R.names, (R.entries x).hasInheritedRoute u.route.faceId = true →
    ∃ existing, u.Existing R existing ∧ existing.isChildInherit = true ∧
      R.Heir u.name u.route.faceId x

lemma clears_erased {o : Option ℕ} {temp : RibEntry C} {existing : Route} {off : Bool}
    {last : Prop} [Decidable last] (honce : KidsOnce R) (hl : Linked R u.name temp)
    (hname : (R.entries u.name).name = u.name)
    (hf : (R.entries u.name).findRoute u.route = some existing) (hclears : Clears u R)
    (hsilent : R.handedDown u.route.faceId u.name = none)
    (hno : (R.entries x).hasInheritedRoute u.route.faceId = false → o = none) (hx : x ∈ R.names) :
    (records (erasedCalls R (R.entries u.name) temp existing none off last)
      (x, u.route.faceId)).getLast?.getD o = none := by
  obtain ⟨-, hface, -⟩ := RibEntry.mem_of_findRoute hf
  obtain ⟨habove, -⟩ := ancestorRoutes_spec hl
  have hnone : (R.getAncestorRoutes temp).find u.route.faceId = none := by
    rw [hsilent] at habove
    simpa using habove
  by_cases hxn : x = u.name
  · subst hxn
    rw [records_erasedCalls_self honce hl, hface, hnone]
    simp only [map_none, toList_none, ite_self, append_nil, getLast?_nil, getD_none]
    refine hno (Bool.eq_false_iff.mpr fun hi => ?_)
    obtain ⟨-, -, -, hheir⟩ := hclears _ hx hi
    exact hheir.2.1.1.2 rfl
  have hv : Visits R u.name (erasedCalls R (R.entries u.name) temp existing none off last)
      _ _ _ _ _ := visits_erased honce hname hl
  have hadds : (erasedAdds R temp existing off).find u.route.faceId = none := by
    rcases find_erasedAdds R temp existing off u.route.faceId with ⟨-, hfind⟩ | ⟨-, hfind⟩
    · exact hfind.trans hnone
    · exact hfind
  cases hi : (R.entries x).hasInheritedRoute u.route.faceId with
  | true =>
    obtain ⟨existing', hex, hci, hheir⟩ := hclears x hx hi
    obtain rfl : existing = existing' := some.inj (hf.symm.trans hex.2)
    rw [hv.records_heir hl.tree honce hheir hxn]
    simp [visitRecords, hi, hadds, erasedRemoves, hci, hface]
  | false =>
    rw [hno hi]
    by_cases hheir : R.Heir u.name u.route.faceId x
    · rw [hv.records_heir hl.tree honce hheir hxn]
      simp [visitRecords, hi, hadds]
    · rw [hv.records_other hl.tree honce hheir hxn]
      rfl

lemma Batch.clears {o : Option ℕ} (hb : Batch nth R u calls c) (h : R.TreeInv)
    (honce : KidsOnce R) (ha : u.action = .removeFace)
    (hnodup : u.name ∈ R.names → (R.entries u.name).routes.Nodup) (hclears : Clears u R)
    (hsilent : R.handedDown u.route.faceId u.name = none)
    (hleft : ∀ routes k, c = some (routes, k) → ∀ r ∈ routes, r.faceId ≠ u.route.faceId)
    (hx : x ∈ R.names) (ho : o.isSome = (R.entries x).hasInheritedRoute u.route.faceId) :
    (records calls (x, u.route.faceId)).getLast?.getD o = none := by
  have hno : (R.entries x).hasInheritedRoute u.route.faceId = false → o = none := by
    intro hi
    simpa [hi] using ho
  cases hb with
  | newEntry ha' | newRoute ha' | updated ha' => simp [ha] at ha'
  | @erased _ hn existing hf =>
    have hfree : ((R.entries u.name).eraseRoute u.route).hasFaceId u.route.faceId = false := by
      refine List.any_eq_false.mpr fun r hr => ?_
      have hlen : ¬ ((R.entries u.name).eraseRoute u.route).getNRoutes = 0 := by
        intro h0
        rw [length_eq_zero_iff.mp h0] at hr
        cases hr
      simpa using hleft _ _ (if_neg hlen) r hr
    rw [no_second (hnodup hn) hf hfree]
    exact clears_erased honce ((linked h hn).eraseRoute u.route) (h.name_eq _ hn) hf hclears hsilent
      hno hx
  | nothing _ hf =>
    refine hno (Bool.eq_false_iff.mpr fun hi => ?_)
    obtain ⟨existing, hex, -⟩ := hclears x hx hi
    exact hf existing hex.1 hex.2

/-! The invariant. -/

/-- Every entry has at most one record for a face and none beside own routes; unless the face is
being removed, the FIB has the nexthop of the record. -/
structure Recorded (s : RibState C) : Prop where
  once : KidsOnce s.rib
  slots : ∃ fib o, Slots s.rib fib o ∧ ∀ x g, s.Settled g → fib x g = s.fib (x, g)

lemma Recorded.absent (h : Recorded s) (hdrain : Draining s) (hx : x ∉ s.rib.names) (g : FaceId) :
    s.fib (x, g) = none := by
  obtain ⟨fib, o, hslots, hfib⟩ := h.slots
  by_cases hg : s.Settled g
  · rw [← hfib x g hg]
    exact (hslots x g).1.absent hx
  rw [Settled] at hg
  push Not at hg
  obtain ⟨w, hw, ha, rfl⟩ := hg
  exact hdrain.gone w hw ha x

lemma slots_of_costs {fib o : Name C → FaceId → Option ℕ}
    (hcosts : ∀ x ∈ R.names, ∀ g, (R.entries x).inheritedCosts g = (o x g).toList)
    (hown : ∀ x ∈ R.names, ∀ g, (R.entries x).hasFaceId g = true → o x g = none)
    (hnexthop : ∀ x ∈ R.names, ∀ g, (R.entries x).hasFaceId g = false → fib x g = o x g)
    (habsent : ∀ x, x ∉ R.names → ∀ g, o x g = none ∧ fib x g = none) : Slots R fib o := by
  refine fun x g => ⟨⟨?_, fun hx => hown x hx g, fun hx => hnexthop x hx g,
    fun hx => (habsent x hx g).2⟩, fun hx => hcosts x hx g⟩
  by_cases hx : x ∈ R.names
  · have hc := hcosts x hx g
    have hi := RibEntry.inheritedCosts_eq_nil_iff (e := R.entries x) (g := g)
    rw [hc, toList_eq_nil_iff] at hi
    rw [hadRecord, decide_eq_true hx, Bool.true_and]
    cases ho : o x g with
    | none => exact (hi.mp ho).symm
    | some v => simpa [ho] using hi
  · rw [(habsent x hx g).1, hadRecord, decide_eq_false hx]
    rfl

lemma Batch.mem_of_erases (hb : Batch nth R u calls c) (ha : Erases u) {p : List Route × ℕ}
    (hc : c = some p) : u.name ∈ R.names := by
  have hnot := ha.not_register
  cases hb with
  | newEntry ha' | newRoute ha' | updated ha' => exact absurd ha' hnot
  | erased _ hn => exact hn
  | nothing => exact content_isSome.mp (by rw [hc]; rfl)

section

variable (h : Recorded s) (hsound : Sound s) (hdrain : Draining s)
  (hs : Sent nth s s' u calls c)
include h hsound hdrain hs

lemma Recorded.cleared (ha : u.action = .removeFace) (hclears : Clears u s.rib)
    (hsettled : s'.Settled u.route.faceId) {o : Option ℕ} (hx : x ∈ s'.rib.names)
    (ho : x ∈ s.rib.names → o.isSome = (s.rib.entries x).hasInheritedRoute u.route.faceId) :
    (records calls (x, u.route.faceId)).getLast?.getD o = none := by
  have hold : x ∈ s.rib.names := by
    rcases hs.changed.entry hx with ⟨rfl, hc⟩ | ⟨-, hm, -⟩
    · exact hs.batch.mem_of_erases (.inr ha) hc
    · exact hm
  have hsilent : s.rib.handedDown u.route.faceId u.name = none := by
    rw [← hs.changed.handedDown_self]
    refine arrives_of_silent fun y w hy => ?_
    obtain ⟨hm, r, hmem, hrf⟩ := mem_of_gate_eq_emit hy
    exact hdrain.removing.no_routes hsound hs ha hsettled hm hmem hrf
  refine hs.batch.clears hsound.tree h.once ha hsound.nodup hclears hsilent
    (fun routes k hc r hr => ?_) hold (ho hold)
  have hcontent := hs.changed.self.trans hc
  have hn : u.name ∈ s'.rib.names := content_isSome.mp (by rw [hcontent]; rfl)
  rw [content_of_mem hn] at hcontent
  cases hcontent
  exact hdrain.removing.no_routes hsound hs ha hsettled hn hr

lemma Recorded.absent_sent
    (hk : u.KeepsRecords s.rib) (hx : x ∉ s'.rib.names) (hsettled : s'.Settled g) :
    s'.fib (x, g) = none := by
  obtain ⟨fib, o, hslots, hfib⟩ := h.slots
  rw [hs.fib]
  split
  next hr =>
    exact hdrain.gone_sent hs hr x
  rename_i hr
  have hg : u.action = .removeFace → g ≠ u.route.faceId := fun ha hf => hr ⟨ha, hf⟩
  have hslot := (hslots x g).1
  rw [hfib x g (hs.settled hsettled hg)] at hslot
  by_cases hxn : x = u.name
  · subst hxn
    refine hs.batch.self_absent hsound.tree hsound.nodup hslot.absent
      (fun hn hown hrec => ?_) (hs.changed.self.symm.trans (content_of_not_mem hx))
    rw [hslot.nexthop hn hown]
    exact hslot.eq_none (by simp [hadRecord, hrec])
  · have hx' : x ∉ s.rib.names := by
      rwa [← content_isSome, ← hs.changed.other x hxn, content_isSome]
    rw [(hs.batch.silent_other hsound.tree h.once hk (fun hn => hsound.nodup hn) hxn hx').2]
    exact h.absent hdrain hx' g

lemma Recorded.sent (happ : Applied s.rib (s.rib.apply (opOf u)) u.name c)
    (hmod : modifyInheritedRoutes (calls.filterMap Call.inheritedRoute?) (s.rib.apply (opOf u)) =
      some s'.rib) (hk : u.KeepsRecords s.rib)
    (hclears : u.action = .removeFace → s'.Settled u.route.faceId → Clears u s.rib) :
    Recorded s' := by
  classical
  obtain ⟨fib, o, hslots, hfib⟩ := h.slots
  obtain ⟨R', hR', hsame, hafter⟩ := hs.batch.replays happ hsound.tree h.once hk hsound.nodup hslots
  obtain rfl : R' = s'.rib := some.inj (hR'.symm.trans hmod)
  have honce : KidsOnce s'.rib := by
    have hbefore := h.once.apply hsound.tree (opOf u)
    intro x hx
    obtain ⟨l, hl⟩ := hsame.entries x
    rw [childrenOf, hl]
    exact hbefore x (hsame.names ▸ hx)
  have hfaces : ∀ x g, (s'.rib.entries x).hasFaceId g =
      ((s.rib.apply (opOf u)).entries x).hasFaceId g := fun x g => by
    obtain ⟨l, hl⟩ := hsame.entries x
    rw [hl]
    rfl
  let o' : Name C → FaceId → Option ℕ := fun x g =>
    if x ∈ s'.rib.names then (records calls (x, g)).getLast?.getD (o x g) else none
  have hvalue : ∀ x ∈ s'.rib.names, ∀ g, o' x g = (records calls (x, g)).getLast?.getD (o x g) :=
    fun x hx g => if_pos hx
  refine ⟨honce, fun x g => if s'.Settled g then s'.fib (x, g) else o' x g, o',
    slots_of_costs (fun x hx g => ?_) (fun x hx g hown => ?_) (fun x hx g hown => ?_)
      fun x hx g => ⟨if_neg hx, ?_⟩, fun x g hg => if_pos hg⟩
  · rw [hvalue x hx g]
    exact (hafter x (hsame.names ▸ hx) g).2
  · rw [hvalue x hx g]
    exact (hafter x (hsame.names ▸ hx) g).1.own (hfaces x g ▸ hown)
  · split
    next hsettled =>
      rw [hs.fib, hvalue x hx g]
      split
      · -- the removal of the face ends with this batch
        rename_i hr
        rw [hdrain.gone_sent hs hr x]
        obtain rfl : g = u.route.faceId := hr.2
        exact (h.cleared hsound hdrain hs hr.1 (hclears hr.1 hsettled) hsettled hx fun hm =>
          (hslots x _).1.hasInheritedRoute hm).symm
      next hr =>
        have hg : u.action = .removeFace → g ≠ u.route.faceId := fun ha hf => hr ⟨ha, hf⟩
        rw [← hfib x g (hs.settled hsettled hg)]
        exact (hafter x (hsame.names ▸ hx) g).1.nexthop (hfaces x g ▸ hown)
    · rfl
  · split
    next hsettled =>
      exact h.absent_sent hsound hdrain hs hk hx hsettled
    · exact if_neg hx

end

lemma recorded_init : Recorded ({} : RibState C) where
  once _ hx := absurd hx not_mem_nil
  slots := ⟨fun _ _ => none, fun _ _ => none, slots_of_costs (fun _ hx => absurd hx not_mem_nil)
    (fun _ hx => absurd hx not_mem_nil) (fun _ hx => absurd hx not_mem_nil)
    fun _ _ _ => ⟨rfl, rfl⟩, fun _ _ _ => rfl⟩

/-- The batch in progress meets `KeepsRecords`, and if it is the last one for a removed face it
clears the records there. A face is destroyed only while no batch waits, and one without routes has
no records then. -/
def SendsKeepingRecords (s : RibState C) : Event C → Prop
  | .batch => ∀ u us, s.updateBatches = u :: us → u.KeepsRecords s.rib ∧
      (u.action = .removeFace →
        (∀ w ∈ us, w.action = .removeFace → w.route.faceId ≠ u.route.faceId) → Clears u s.rib)
  | .removeFace f => s.updateBatches = [] ∧ (s.rib.beginRemoveFace f = [] →
      ∀ x ∈ s.rib.names, (s.rib.entries x).hasInheritedRoute f = false)
  | _ => True

lemma Recorded.removeFace (h : Recorded s) (hdrain : Draining s) {f : FaceId}
    (hk : s.SendsKeepingRecords (.removeFace f)) :
    Recorded ({ s with fib := dropFace s.fib f }.begin (s.rib.beginRemoveFace f)) := by
  classical
  generalize hs' : ({ s with fib := dropFace s.fib f }.begin (s.rib.beginRemoveFace f)) = s'
  obtain ⟨fib, o, hslots, hfib⟩ := h.slots
  have hrib : s'.rib = s.rib := hs' ▸ rfl
  have hdrop : s'.fib = dropFace s.fib f := hs' ▸ rfl
  have hmem : ∀ w ∈ s.rib.beginRemoveFace f, w ∈ s'.updateBatches := fun w hw =>
    hs' ▸ mem_append_right _ hw
  refine ⟨hrib ▸ h.once, fun x g => if s'.Settled g then s'.fib (x, g) else o x g, o, ?_,
    fun x g hg => if_pos hg⟩
  have hnone : s'.Settled f → ∀ x ∈ s.rib.names, o x f = none := by
    intro hsettled x hx
    have hnil : s.rib.beginRemoveFace f = [] := eq_nil_iff_forall_not_mem.mpr fun w hw =>
      hsettled w (hmem w hw) (beginRemoveFace_face hw).1 (beginRemoveFace_face hw).2
    exact (hslots x f).1.eq_none (by simp [hadRecord, hk.2 hnil x hx])
  rw [hrib]
  refine slots_of_costs (fun x hx g => (hslots x g).2 hx) (fun x hx g => (hslots x g).1.own hx)
    (fun x hx g hown => ?_) fun x hx g => ⟨(hslots x g).1.eq_none (by simp [hadRecord, hx]), ?_⟩
  · split
    next hsettled =>
      rw [hdrop, dropFace]
      split
      next hgf =>
        obtain rfl : g = f := hgf
        exact (hnone hsettled x hx).symm
      · rw [← hfib x g (.of_nil hk.1 g)]
        exact (hslots x g).1.nexthop hx hown
    · rfl
  · split
    · rw [hdrop, dropFace]
      split
      · rfl
      · exact h.absent hdrain hx g
    · exact (hslots x g).1.eq_none (by simp [hadRecord, hx])

lemma Recorded.step (h : Recorded s) (hsound : Sound s) (hdrain : Draining s) {ev : Event C}
    (hk : s.SendsKeepingRecords ev) (hs : s.step nth ev = some s') : Recorded s' := by
  have hbegin : ∀ batches, Recorded (s.begin batches) := by
    intro batches
    obtain ⟨fib, o, hslots, hfib⟩ := h.slots
    exact ⟨h.once, fib, o, hslots, fun x g hsettled => hfib x g hsettled.of_begin⟩
  cases ev with
  | register n r | unregister n r =>
    cases hs
    exact hbegin _
  | removeFace f =>
    cases hs
    exact h.removeFace hdrain hk
  | batch =>
    obtain ⟨u, calls, c, hsent, happ, hmod⟩ := send_spec hsound.tree hs
    obtain ⟨hkeeps, hclears⟩ := hk u s'.updateBatches hsent.queue
    exact h.sent hsound hdrain hsent happ hmod hkeeps hclears

/-- The records of an entry: one for a face, none on a face with own routes, and but for a face
that is being removed they are the nexthops that the FIB has beside those of own routes. -/
structure RecordsMatch (s : RibState C) : Prop where
  once : ∀ x ∈ s.rib.names, ((s.rib.entries x).inheritedRoutes.map Route.faceId).Nodup
  own : ∀ x ∈ s.rib.names, ∀ r ∈ (s.rib.entries x).inheritedRoutes,
    (s.rib.entries x).hasFaceId r.faceId = false
  nexthops : ∀ x ∈ s.rib.names, ∀ g, s.Settled g → (s.rib.entries x).hasFaceId g = false → ∀ cost,
    (∃ r ∈ (s.rib.entries x).inheritedRoutes, r.faceId = g ∧ r.cost = cost) ↔
      s.fib (x, g) = some cost

lemma Recorded.recordsMatch (h : Recorded s) : s.RecordsMatch := by
  obtain ⟨fib, o, hslots, hfib⟩ := h.slots
  refine ⟨fun x hx => ?_, fun x hx r hr => ?_, fun x hx g hg hown cost => ?_⟩
  · refine nodup_iff_count_le_one.mpr fun g => ?_
    have hcount : ((s.rib.entries x).inheritedRoutes.map Route.faceId).count g =
        ((s.rib.entries x).inheritedCosts g).length := by
      rw [count_eq_countP, countP_map, countP_eq_length_filter, RibEntry.inheritedCosts, length_map]
      rfl
    rw [hcount, (hslots x g).2 hx]
    cases o x g <;> simp
  · by_contra hown
    have hnone := (hslots x r.faceId).1.own hx (by simpa using hown)
    have hmem := RibEntry.mem_inheritedCosts.mpr ⟨r, hr, rfl, rfl⟩
    rw [(hslots x r.faceId).2 hx, hnone] at hmem
    cases hmem
  · rw [← RibEntry.mem_inheritedCosts, (hslots x g).2 hx, mem_toList,
      ← hfib x g hg, (hslots x g).1.nexthop hx hown]

lemma Recorded.isSome (h : Recorded s) (hsound : Sound s) {F : FibUpdater C}
    (hk : u.KeepsRecords s.rib) (hF : computeUpdates s.rib nth u = some F) :
    (onFibUpdateSuccess s.rib u F.inheritedRoutes).isSome = true := by
  obtain ⟨fib, o, hslots, -⟩ := h.slots
  obtain ⟨calls, hcalls, hinh, -⟩ := computeUpdates_spec hF
  obtain ⟨c, hb, happ⟩ := batch_of_calls hsound.tree hcalls
  obtain ⟨R', hR', -⟩ := hb.replays happ hsound.tree h.once hk hsound.nodup hslots
  rw [hinh]
  exact isSome_iff_exists.mpr ⟨R', hR'⟩

/-- In every run that meets the condition the records and the nexthops match, and the next batch
that meets `KeepsRecords` finds every record that it removes. -/
theorem records_match_of_run (h : Reach (step nth) SendsKeepingRecords {} s) :
    s.RecordsMatch ∧ ∀ u us F, s.updateBatches = u :: us → u.KeepsRecords s.rib →
      computeUpdates s.rib nth u = some F →
      (onFibUpdateSuccess s.rib u F.inheritedRoutes).isSome = true := by
  have hinv : Sound s ∧ Draining s ∧ Recorded s := by
    refine h.invariant (I := fun s => Sound s ∧ Draining s ∧ Recorded s)
      ⟨sound_init, draining_init, recorded_init⟩ ?_
    rintro s ev t ⟨hsound, hdrain, hrec⟩ hk hs
    refine ⟨hsound.step hs, hdrain.step hsound ?_ hs, hrec.step hsound hdrain hk hs⟩
    rintro f rfl
    exact hk.1
  exact ⟨hinv.2.2.recordsMatch, fun u us F _ hk hF => hinv.2.2.isSome hinv.1 hk hF⟩

/-- A second, cheaper CHILD_INHERIT route on the face: the entry below inherits both. -/
theorem records_repeated : ∃ s : RibState ℕ,
    Reach (step .sorting) Any {} s ∧ s.updateBatches = [] ∧
      s.rib.names = [[], [1]] ∧
      (s.rib.entries [1]).inheritedRoutes = [⟨1, 0, 1, 10, 0⟩, ⟨1, 1, 1, 5, 0⟩] ∧
      s.fib ([1], 1) = some 5 ∧ ¬ s.RecordsMatch := by
  have hrun : (run (step .sorting) ({} : RibState ℕ)
      [.register [] ⟨1, 0, 1, 10, 0⟩, .batch, .register [1] ⟨2, 0, 0, 7, 0⟩, .batch,
        .register [] ⟨1, 1, 1, 5, 0⟩, .batch]).map
      (fun s => decide (s.updateBatches.length = 0 ∧ s.rib.names = [[], [1]] ∧
        (s.rib.entries [1]).inheritedRoutes = [⟨1, 0, 1, 10, 0⟩, ⟨1, 1, 1, 5, 0⟩] ∧
        s.fib ([1], 1) = some 5)) = some true := by
    decide +kernel
  obtain ⟨s, hs, hview⟩ := map_eq_some_iff.mp hrun
  simp only [decide_eq_true_eq, length_eq_zero_iff] at hview
  obtain ⟨hq, hnames, hrecs, hfib⟩ := hview
  refine ⟨s, reach_of_run .init hs, hq, hnames, hrecs, hfib, fun h => ?_⟩
  have hnodup := h.once [1] (by simp [hnames])
  rw [hrecs] at hnodup
  exact absurd hnodup (by decide)

/-- An entry is registered under one with a CHILD_INHERIT route. -/
theorem records_match_of_run_child : ∃ s : RibState ℕ,
    (s.rib.entries [1]).inheritedRoutes = [⟨1, 0, 1, 10, 0⟩] ∧ s.RecordsMatch := by
  have h : ∃ s : RibState ℕ, Reach (step .sorting) SendsKeepingRecords {} s ∧
      (s.rib.entries [1]).inheritedRoutes = [⟨1, 0, 1, 10, 0⟩] := by
    refine ⟨_, .step (a := .batch) (.step (a := .register [1] ⟨2, 0, 0, 5, 0⟩)
      (.step (a := .batch) (.step (a := .register [] ⟨1, 0, 1, 10, 0⟩) .init trivial rfl) ?_ rfl)
        trivial rfl) ?_ rfl, ?_⟩
    · intro u us h
      cases h
      refine ⟨.of_new rfl not_mem_nil ⟨fun _ => .inr fun x hx => ?_, fun _ _ g _ _ x hx => ?_⟩,
        nofun⟩
      · exact absurd hx.1 not_mem_nil
      · exact absurd hx.1 not_mem_nil
    · intro u us h
      cases h
      exact ⟨.of_new rfl (by decide +kernel) ⟨nofun, nofun⟩, nofun⟩
    · rfl
  obtain ⟨s, hs, hrecs⟩ := h
  exact ⟨s, hrecs, (records_match_of_run hs).1⟩

end RibState

end NfdGateway
