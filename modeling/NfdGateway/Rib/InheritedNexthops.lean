import NfdGateway.Rib.Bookkeeping
import NfdGateway.Rib.Records
import NfdGateway.Rib.Supplies

/-! The nexthops for the routes that an entry inherits from those above it. -/
namespace NfdGateway

open FibUpdater Rib HandDown List Option Transition

variable {C : Type} [LinearOrder C] {R : Rib C} {nth : NthElement} {u : RibUpdate C}
  {calls : List (Call C)} {c : Option (List Route × ℕ)} {x : Name C} {g : FaceId}
  {s s' : RibState C} {fib : Option ℕ} {routes : List Route} {existing : Route}

namespace RibState

/-! What a batch leaves for the entry it is about. -/

structure SelfValue (R : Rib C) (n : Name C) (g : FaceId) (fib : Option ℕ) : Prop where
  absent : n ∉ R.names → fib = none
  covered : n ∈ R.names → (R.entries n).hasFaceId g = false →
    (R.entries n).hasInheritedRoute g = false → fib = none
  value : n ∈ R.names → (R.entries n).hasFaceId g = false →
    fib = if (R.entries n).hasCapture then none else R.handedDown g n

lemma self_newEntry (h : R.TreeInv) (hk : u.KeepsInherited R)
    (ha : u.action = .register) (hn : u.name ∉ R.names) (hv : SelfValue R u.name g fib)
    (hg : g ≠ u.route.faceId) :
    (pending (createFibUpdatesForNewRibEntry R u.name u.route
      ((R.findDescendantsForNonInsertedName u.name).filter fun d =>
        (R.entries d).parent = R.findParent u.name)) (u.name, g)).getD fib =
      if u.route.isCapture then none else R.handedDown g u.name := by
  obtain ⟨hsome, hord⟩ := ancestorRoutesOfName_spec (g := g) (n := u.name) h
  rw [pending_newEntry_self h (mem_newChildren h hn), if_neg hg, hv.absent hn]
  cases hc : u.route.isCapture with
  | true => rfl
  | false =>
    cases hw : (R.getAncestorRoutesOfName u.name).find g with
    | some w => simp [hord (hk.newEntry ha hn hc) w hw]
    | none =>
      have hnone : R.handedDown g u.name = none := by simpa [hw] using hsome.symm
      simp [hnone]

lemma self_newRoute (h : R.TreeInv) (hn : u.name ∈ R.names)
    (hv : SelfValue R u.name g fib) (hg : g ≠ u.route.faceId)
    (hown : (R.entries u.name).hasFaceId g = false) :
    (pending (createFibUpdatesForNewRoute R (R.entries u.name) u.route
      (!(R.entries u.name).hasCapture && u.route.isCapture)) (u.name, g)).getD fib =
      if (R.entries u.name).hasCapture || u.route.isCapture then none
      else R.handedDown g u.name := by
  obtain ⟨hsome, -⟩ := ancestorRoutes_spec (g := g) (linked h hn)
  have hval := hv.value hn hown
  rw [pending_newRoute_self (linked h hn), if_neg fun h => hg h.1, none_or]
  cases hcap : (R.entries u.name).hasCapture with
  | true => simp [hval, hcap]
  | false =>
    cases hc : u.route.isCapture with
    | false => simp [hval, hcap]
    | true =>
      -- CAPTURE is turned on: what was inherited is on record, and is withdrawn
      cases hrec : (R.entries u.name).hasInheritedRoute g with
      | false => simp [hv.covered hn hown hrec]
      | true =>
        cases hw : (R.getAncestorRoutes (R.entries u.name)).find g with
        | some w => simp
        | none =>
          have hnone : R.handedDown g u.name = none := by simpa [hw] using hsome.symm
          simp [hval, hcap, hnone]

lemma self_updated (h : R.TreeInv)
    (hk : u.KeepsInherited R) (ha : u.action = .register) (hn : u.name ∈ R.names)
    (hf : (R.entries u.name).findRoute u.route = some existing)
    (hu : createFibUpdatesForUpdatedRoute R ((R.entries u.name).updateRoute u.route) u.route
      existing = some calls) (hg : g ≠ u.route.faceId) :
    (pending calls (u.name, g)).getD fib = fib := by
  obtain ⟨hadds, hrems⟩ := captureAdds_of_capture
    (e := (R.entries u.name).updateRoute u.route) (hk.updated ha existing ⟨hn, hf⟩).capture
  obtain ⟨own, hown, hp⟩ := pending_updated_self ((linked h hn).updateRoute u.route) hu
  rw [hp, hadds, hrems, pending_own_of_ne (by simp [hg]) hown]
  simp

lemma self_erased {temp : RibEntry C} {last : Prop}
    [Decidable last] (h : R.TreeInv) (ht : (R.entries u.name).eraseRoute u.route = temp)
    (hk : u.EraseKeeps R existing temp) (hn : u.name ∈ R.names)
    (hf : (R.entries u.name).findRoute u.route = some existing)
    (hcnt : (R.entries u.name).Counted) (hnodup : (R.entries u.name).routes.Nodup)
    (hv : SelfValue R u.name g fib) (hne : temp.routes ≠ []) (hlast : ¬ last)
    (hown : temp.hasFaceId g = false) :
    (pending (erasedCalls R (R.entries u.name) temp existing
      ((R.entries u.name).getRouteWithSecondLowestCostByFaceId nth u.route.faceId)
      ((R.entries u.name).hasCapture && !temp.hasCapture) last) (u.name, g)).getD fib =
      if temp.hasCapture then none else R.handedDown g u.name := by
  obtain ⟨hmem, hface, -⟩ := RibEntry.mem_of_findRoute hf
  have hlink : Linked R u.name temp := ht ▸ (linked h hn).eraseRoute u.route
  obtain ⟨hsome, hord⟩ := ancestorRoutes_spec (g := g) hlink
  have hnext : ((R.entries u.name).getRouteWithSecondLowestCostByFaceId nth u.route.faceId).bind
      (fun next => if g = next.faceId ∧
        notDearer next (temp.getRouteWithLowestCostByFaceId next.faceId) = true then
        some (some next.cost) else none) = none := by
    refine bind_eq_none_iff.mpr fun b hb => if_neg fun hgb => ?_
    rw [hgb.1, (mem_of_secondLowest hb).2, ← ht] at hown
    rw [no_second hnodup hf hown] at hb
    cases hb
  rw [pending_erasedCalls_self (h.name_eq _ hn) hlink, if_neg fun h => hlast h.1,
    none_or, hnext, none_or, hface]
  have hlen : temp.getNRoutes ≠ 0 := fun h0 => hne (length_eq_zero_iff.mp h0)
  have hordered := fun hc => hord (hk.ordered hc)
  by_cases hg : g = u.route.faceId
  · subst hg
    cases hc : temp.hasCapture with
    | true => simp
    | false =>
      cases hw : (R.getAncestorRoutes temp).find u.route.faceId with
      | some w => simp [hlen, hordered hc w hw]
      | none =>
        have hnone : R.handedDown u.route.faceId u.name = none := by simpa [hw] using hsome.symm
        simp [hnone]
  have hval := hv.value hn ((RibEntry.hasFaceId_eraseRoute hf hg).symm.trans (ht ▸ hown))
  cases hec : existing.isCapture with
  | false =>
    have hsame : temp.hasCapture = (R.entries u.name).hasCapture := by
      rw [← ht, RibEntry.hasCapture, RibEntry.hasCapture, RibEntry.eraseRoute_of_found hf]
      simp [hec]
    simp [hg, hval, hsame]
  | true =>
    have hecap : (R.entries u.name).hasCapture = true := by
      rw [hcnt.hasCapture_eq]
      exact List.any_eq_true.mpr ⟨existing, hmem, hec⟩
    rw [hecap] at hval
    cases hc : temp.hasCapture with
    | true => simp [hg, hval]
    | false =>
      cases hw : (R.getAncestorRoutes temp).find g with
      | some w => simp [hg, hlen, hown, hecap, hordered hc w hw]
      | none =>
        have hnone : R.handedDown g u.name = none := by simpa [hw] using hsome.symm
        simp [hg, hval, hnone]

lemma Batch.self_value {counter : ℕ}
    (hb : Batch nth R u calls c) (h : R.TreeInv) (hk : u.KeepsInherited R)
    (hcnt : u.name ∈ R.names → (R.entries u.name).Counted)
    (hnodup : u.name ∈ R.names → (R.entries u.name).routes.Nodup)
    (hv : SelfValue R u.name g fib) (hc : c = some (routes, counter))
    (hown : routes.any (·.faceId == g) = false) :
    (pending calls (u.name, g)).getD fib =
      if counter > 0 then none else R.handedDown g u.name := by
  cases hb with
  | newEntry ha hn =>
    cases hc
    have hg : g ≠ u.route.faceId := by
      rintro rfl
      simp at hown
    rw [self_newEntry h hk ha hn hv hg]
    cases u.route.isCapture <;> rfl
  | newRoute ha hn hf =>
    cases hc
    have hpos := (hcnt hn).insertRoute_pos hf (hk.counter ha hn)
    rw [RibEntry.insertRoute_of_new hf, any_append, Bool.or_eq_false_iff] at hown
    have hg : g ≠ u.route.faceId := by
      rintro rfl
      simp at hown
    rw [self_newRoute h hn hv hg hown.1]
    simp [hpos]
  | @updated ha hn existing hf calls hu =>
    cases hc
    have hown' := (RibEntry.hasFaceId_updateRoute hf).symm.trans hown
    have hg : g ≠ u.route.faceId := by
      rintro rfl
      simp [RibEntry.hasFaceId_of_findRoute hf] at hown'
    rw [self_updated h hk ha hn hf hu hg, hv.value hn hown']
    simp [RibEntry.hasCapture]
  | @erased ha hn existing hf =>
    split at hc
    · cases hc
    rename_i hlen
    cases hc
    have hlast : ¬ (R.entries u.name).getNRoutes = 1 := by
      rw [RibEntry.getNRoutes_eraseRoute hf]
      omega
    rw [self_erased h rfl (hk.erased ha.not_register existing ⟨hn, hf⟩) hn hf (hcnt hn)
      (hnodup hn) hv (fun hnil => hlen (length_eq_zero_iff.mpr hnil)) hlast hown]
    simp [RibEntry.hasCapture]
  | nothing =>
    obtain ⟨hn, ⟨⟩⟩ := content_eq_some hc
    rw [hv.value hn hown]
    simp [RibEntry.hasCapture]

lemma Batch.self_absent (hb : Batch nth R u calls c) (h : R.TreeInv)
    (hnodup : u.name ∈ R.names → (R.entries u.name).routes.Nodup)
    (habs : u.name ∉ R.names → fib = none)
    (hcov : u.name ∈ R.names → (R.entries u.name).hasFaceId g = false →
      (R.entries u.name).hasInheritedRoute g = false → fib = none) (hc : c = none) :
    (pending calls (u.name, g)).getD fib = none := by
  cases hb with
  | newEntry | newRoute | updated => cases hc
  | @erased ha hn existing hf =>
    have hlen : ((R.entries u.name).eraseRoute u.route).getNRoutes = 0 := by
      by_contra hne
      rw [if_neg hne] at hc
      cases hc
    have hnil := length_eq_zero_iff.mp hlen
    have hlink := (linked h hn).eraseRoute u.route
    obtain ⟨-, hface, -⟩ := RibEntry.mem_of_findRoute hf
    rw [pending_erasedCalls_self (h.name_eq _ hn) hlink,
      no_second (hnodup hn) hf (by rw [RibEntry.hasFaceId, hnil]; rfl),
      RibEntry.getNRoutes_eraseRoute hf, hlen, hface]
    cases hrec : (R.entries u.name).hasInheritedRoute g with
    | true => simp
    | false =>
      by_cases hg : g = u.route.faceId
      · simp [hg]
      have hown : (R.entries u.name).hasFaceId g = false := by
        rw [← RibEntry.hasFaceId_eraseRoute hf hg, RibEntry.hasFaceId, hnil]
        rfl
      simp [hg, hcov hn hown hrec]
  | nothing =>
    have hn : u.name ∉ R.names := fun hn => by
      rw [content_of_mem hn] at hc
      cases hc
    simp [habs hn]

lemma Batch.backed {k : Name C × FaceId} (hb : Batch nth R u calls c) (h : R.TreeInv)
    (hk : k ≠ (u.name, u.route.faceId)) : Backed calls k := by
  cases hb with
  | newEntry => exact backed_newEntry hk
  | newRoute _ hn => exact backed_newRoute (by rwa [h.name_eq _ hn])
  | updated _ hn _ hu =>
    refine backed_updated (e := (R.entries u.name).updateRoute u.route) ?_ hu
    rwa [show ((R.entries u.name).updateRoute u.route).name = u.name from h.name_eq _ hn]
  | erased _ hn =>
    refine backed_erasedCalls fun b hb => ?_
    rwa [(mem_of_secondLowest hb).2, RibEntry.eraseRoute_name, h.name_eq _ hn]
  | nothing => exact backed_nil

lemma Batch.self_backed {counter : ℕ} (hb : Batch nth R u calls c)
    (h : R.TreeInv) (hnodup : u.name ∈ R.names → (R.entries u.name).routes.Nodup)
    (hc : c = some (routes, counter)) (hown : routes.any (·.faceId == g) = false) :
    Backed calls (u.name, g) ∧ (u.name ∈ R.names → (R.entries u.name).hasFaceId g = true →
      pending calls (u.name, g) ≠ none) := by
  have hne : g ≠ u.route.faceId → Backed calls (u.name, g) :=
    fun hg => hb.backed h fun hk => hg (Prod.mk.inj hk).2
  cases hb with
  | newEntry ha hn =>
    cases hc
    refine ⟨hne ?_, fun hm => absurd hm hn⟩
    rintro rfl
    simp at hown
  | newRoute ha hn hf =>
    cases hc
    rw [RibEntry.insertRoute_of_new hf, any_append, Bool.or_eq_false_iff] at hown
    refine ⟨hne ?_, fun _ ho => ?_⟩
    · rintro rfl
      simp at hown
    · cases hown.1.symm.trans ho
  | @updated ha hn existing hf calls hu =>
    cases hc
    have hno := (RibEntry.hasFaceId_updateRoute hf).symm.trans hown
    refine ⟨hne ?_, fun _ ho => absurd (hno.symm.trans ho) Bool.false_ne_true⟩
    rintro rfl
    simp [RibEntry.hasFaceId_of_findRoute hf] at hno
  | @erased ha hn existing hf =>
    split at hc
    · cases hc
    cases hc
    have hlink := (linked h hn).eraseRoute u.route
    obtain ⟨-, hface, -⟩ := RibEntry.mem_of_findRoute hf
    refine ⟨backed_erasedCalls fun b hb hk => ?_, fun _ ho => ?_⟩
    · rw [(Prod.mk.inj hk).2, (mem_of_secondLowest hb).2] at hown
      rw [no_second (hnodup hn) hf hown] at hb
      cases hb
    have hg : g = u.route.faceId := by
      by_contra hne
      have hno := (RibEntry.hasFaceId_eraseRoute hf hne).symm.trans hown
      cases hno.symm.trans ho
    rw [pending_erasedCalls_self (h.name_eq _ hn) hlink, hface, if_pos hg]
    simp
  | nothing =>
    obtain ⟨hn, ⟨⟩⟩ := content_eq_some hc
    exact ⟨backed_nil, fun _ ho => absurd (hown.symm.trans ho) Bool.false_ne_true⟩

lemma keepsCapture_of_keepsInherited (hk : u.KeepsInherited R) : R.KeepsCapture (opOf u) := by
  cases ha : u.action with
  | register =>
    simp only [opOf, ha]
    intro hn
    cases hf : (R.entries u.name).findRoute u.route with
    | none =>
      have hlen := hk.counter ha hn
      have hle := countP_le_length (p := (·.isCapture)) (l := (R.entries u.name).routes)
      exact fun _ => by omega
    | some existing => exact (hk.updated ha existing ⟨hn, hf⟩).capture
  | unregister | removeFace => simp [opOf, ha, KeepsCapture]

/-! The invariant. -/

/-- The FIB has nexthops for entries only, each for an own route or one on record; and for a
face without own routes it has what the entries above hand down. -/
structure Inherited (s : RibState C) : Prop where
  counted : ∀ x ∈ s.rib.names, (s.rib.entries x).Counted
  absent : ∀ x, x ∉ s.rib.names → ∀ g, s.fib (x, g) = none
  covered : ∀ x ∈ s.rib.names, ∀ g, (s.rib.entries x).hasFaceId g = false →
    (s.rib.entries x).hasInheritedRoute g = false → s.fib (x, g) = none
  value : ∀ x ∈ s.rib.names, ∀ g, s.Settled g → (s.rib.entries x).hasFaceId g = false →
    s.fib (x, g) = if (s.rib.entries x).hasCapture then none else s.rib.handedDown g x

lemma Inherited.selfValue (h : Inherited s) (hg : s.Settled g) :
    SelfValue s.rib x g (s.fib (x, g)) where
  absent hx := h.absent x hx g
  covered hx := h.covered x hx g
  value hx := h.value x hx g hg

lemma Sound.nodup (h : Sound s) (hx : x ∈ s.rib.names) : (s.rib.entries x).routes.Nodup :=
  (h.unique x hx).of_map _

section

variable (h : Inherited s)
include h

lemma Inherited.counted_sent (hs : Sent nth s s' u calls c)
    (hk : u.KeepsInherited s.rib) (hx : x ∈ s'.rib.names) : (s'.rib.entries x).Counted := by
  rcases hs.changed.entry hx with ⟨rfl, hc⟩ | ⟨-, hm, hroutes, hcnt⟩
  · exact hs.batch.outcome.counted (keepsCapture_of_keepsInherited hk)
      (opOf_name ▸ h.counted u.name) hc
  · rw [RibEntry.Counted, hroutes, hcnt]
    exact h.counted x hm

section

variable (hsound : Sound s) (hdrain : Draining s) (hs : Sent nth s s' u calls c)
include hsound hdrain hs

lemma Inherited.absent_sent (hk : u.KeepsInherited s.rib) (hx : x ∉ s'.rib.names)
    (g : FaceId) : s'.fib (x, g) = none := by
  rw [hs.fib]
  split
  next hr =>
    exact hdrain.gone_sent hs hr x
  rename_i hr
  have hg : u.action = .removeFace → g ≠ u.route.faceId := fun ha hf => hr ⟨ha, hf⟩
  by_cases hxn : x = u.name
  · subst hxn
    exact hs.batch.self_absent hsound.tree hsound.nodup
      (fun hn => h.absent u.name hn g) (fun hn => h.covered u.name hn g)
      (hs.changed.self.symm.trans (content_of_not_mem hx))
  have hx' : x ∉ s.rib.names := fun hm => by
    have ho := hs.changed.other x hxn
    rw [content_of_not_mem hx, content_of_mem hm] at ho
    cases ho
  obtain ⟨v, hands, -⟩ := hs.batch.supplies hsound.tree hk hg (h.counted u.name)
    fun hn => hsound.nodup hn
  rw [hands.eq_none hxn fun hh => absurd hh.1 hx', getD_none]
  exact h.absent x hx' g

lemma Inherited.covered_sent (hx : x ∈ s'.rib.names) (g : FaceId)
    (hown : (s'.rib.entries x).hasFaceId g = false)
    (hrec : (s'.rib.entries x).hasInheritedRoute g = false) : s'.fib (x, g) = none := by
  rw [hs.fib]
  split
  next hr =>
    exact hdrain.gone_sent hs hr x
  have hnotrec : (recorded calls (x, g)).getD (hadRecord s.rib x g) = false := by
    by_contra hne
    rw [hs.records x hx g (by simpa using hne)] at hrec
    cases hrec
  have hback : Backed calls (x, g) ∧ (pending calls (x, g) = none → x ∈ s.rib.names →
      (s.rib.entries x).hasFaceId g = false) := by
    rcases hs.changed.entry hx with ⟨rfl, hc⟩ | ⟨hxn, hm, hroutes, -⟩
    · obtain ⟨hb, hp⟩ := hs.batch.self_backed hsound.tree hsound.nodup hc hown
      exact ⟨hb, fun hnone hn => by simpa using mt (hp hn) (not_not_intro hnone)⟩
    · refine ⟨hs.batch.backed hsound.tree fun hk => hxn (Prod.mk.inj hk).1, fun _ _ => ?_⟩
      rwa [RibEntry.hasFaceId, ← hroutes]
  cases hp : pending calls (x, g) with
  | none =>
    rw [hback.1.2 hp] at hnotrec
    by_cases hm : x ∈ s.rib.names
    · refine h.covered x hm g (hback.2 hp hm) ?_
      simpa [hadRecord, hm] using hnotrec
    · exact h.absent x hm g
  | some v =>
    cases v with
    | none => rfl
    | some cost =>
      rw [hback.1.1 cost hp] at hnotrec
      cases hnotrec

omit hdrain in
lemma Inherited.value_other
    (hk : u.KeepsInherited s.rib) (hg : u.action = .removeFace → g ≠ u.route.faceId)
    (hsettled : s.Settled g) (hxn : x ≠ u.name) (hx : x ∈ s.rib.names)
    (hown : (s.rib.entries x).hasFaceId g = false) :
    (pending calls (x, g)).getD (s.fib (x, g)) =
      if (s.rib.entries x).hasCapture then none else s'.rib.handedDown g x := by
  obtain ⟨v, hands, hserves⟩ := hs.batch.supplies hsound.tree hk hg (h.counted u.name)
    fun hn => hsound.nodup hn
  have hgates : ∀ y, y ≠ u.name → s'.rib.gate g y = s.rib.gate g y :=
    fun y hy => hs.changed.gate_other hy
  have hpass := gate_eq_pass_iff (g := g) hx
  have hval := h.value x hx g hsettled hown
  cases hcap : (s.rib.entries x).hasCapture with
  | true =>
    rw [hcap] at hval
    rw [hands.eq_none hxn fun hh => ?_, hval]
    · rfl
    · have := (hpass.mp hh.2.2).1
      simp [hcap] at this
  | false =>
    rw [hcap] at hval
    change _ = s'.rib.handedDown g x
    by_cases ho : Open (s.rib.gate g) u.name x
    · have hchild := hasChildInheritOnFaceId_of_hasFaceId hown
      have hheir : s.rib.Heir u.name g x := ⟨hx, ho, hpass.mpr ⟨hcap, hchild⟩⟩
      have hold : s.fib (x, g) = leaves (s.rib.gate g) u.name := by
        rw [hval]
        exact arrives_of_open ho
      rw [(hands x hxn).1 hheir, hold,
        hserves _ hown fun hrec => hold ▸ h.covered x hx g hown hrec, ← hs.changed.leaves_self]
      exact (arrives_of_open (ho.congr hgates)).symm
    · rw [hands.eq_none hxn fun hh => absurd hh.2.1 ho, getD_none, hval]
      exact (arrives_congr hgates ho).symm

lemma Inherited.value_sent
    (hk : u.KeepsInherited s.rib) (hx : x ∈ s'.rib.names) (hsettled : s'.Settled g)
    (hown : (s'.rib.entries x).hasFaceId g = false) :
    s'.fib (x, g) =
      if (s'.rib.entries x).hasCapture then none else s'.rib.handedDown g x := by
  rw [hs.fib]
  split
  next hr =>
    rw [hdrain.gone_sent hs hr x]
    have hsilent : s'.rib.handedDown g x = none := by
      refine arrives_of_silent fun y w hy => ?_
      obtain ⟨hm, r, hmem, hrf⟩ := mem_of_gate_eq_emit hy
      obtain rfl : g = u.route.faceId := hr.2
      exact hdrain.removing.no_routes hsound hs hr.1 hsettled hm hmem hrf
    rw [hsilent, ite_self]
  rename_i hr
  have hg : u.action = .removeFace → g ≠ u.route.faceId := fun ha hf => hr ⟨ha, hf⟩
  have hbefore := hs.settled hsettled hg
  rcases hs.changed.entry hx with ⟨rfl, hc⟩ | ⟨hxn, hm, hroutes, hcnt⟩
  · rw [hs.batch.self_value hsound.tree hk (h.counted u.name) hsound.nodup
      (h.selfValue hbefore) hc hown, hs.changed.handedDown_self]
    simp [RibEntry.hasCapture]
  have hown : (s.rib.entries x).hasFaceId g = false := by rwa [RibEntry.hasFaceId, ← hroutes]
  rw [h.value_other hsound hs hk hg hbefore hxn hm hown, RibEntry.hasCapture,
    RibEntry.hasCapture, hcnt]

lemma Inherited.sent (hk : u.KeepsInherited s.rib) : Inherited s' where
  counted _ hx := h.counted_sent hs hk hx
  absent _ hx g := h.absent_sent hsound hdrain hs hk hx g
  covered _ hx g hown hrec := h.covered_sent hsound hdrain hs hx g hown hrec
  value _ hx _ hsettled hown := h.value_sent hsound hdrain hs hk hx hsettled hown

end

end

lemma inherited_init : Inherited ({} : RibState C) where
  counted _ hx := absurd hx not_mem_nil
  absent _ _ _ := rfl
  covered _ hx := absurd hx not_mem_nil
  value _ hx := absurd hx not_mem_nil

/-- The batch in progress meets `KeepsInherited`, and a face is destroyed only while no batch
waits: such a batch may still add a nexthop on the face that the FIB has dropped. -/
def SendsKeepingInherited (s : RibState C) : Event C → Prop
  | .batch => ∀ u us, s.updateBatches = u :: us → u.KeepsInherited s.rib
  | .removeFace _ => s.updateBatches = []
  | _ => True

lemma Inherited.removeFace (h : Inherited s) (hsound : Sound s) (f : FaceId) :
    Inherited ({ s with fib := dropFace s.fib f }.begin (s.rib.beginRemoveFace f)) := by
  have hdrop : ∀ k, s.fib k = none → dropFace s.fib f k = none := fun k hk => by
    rw [dropFace]
    split
    · rfl
    · exact hk
  refine ⟨h.counted, fun x hx g => hdrop _ (h.absent x hx g),
    fun x hx g hown hrec => hdrop _ (h.covered x hx g hown hrec), fun x hx g hsettled hown => ?_⟩
  by_cases hgf : g = f
  · have hsilent : s.rib.handedDown g x = none := by
      refine arrives_of_silent fun y w hy => ?_
      obtain ⟨hm, r, hmem, hrf⟩ := mem_of_gate_eq_emit hy
      have hlisted := mem_beginRemoveFace hsound.mapped hm hmem (hrf.trans hgf)
      exact hsettled _ (mem_append_right _ hlisted) rfl hrf
    refine (if_pos hgf).trans ?_
    change none = if (s.rib.entries x).hasCapture then none else s.rib.handedDown g x
    rw [hsilent, ite_self]
  · exact (if_neg hgf).trans (h.value x hx g hsettled.of_begin hown)

lemma Inherited.step (h : Inherited s) (hsound : Sound s) (hdrain : Draining s) {ev : Event C}
    (hk : s.SendsKeepingInherited ev) (hs : s.step nth ev = some s') : Inherited s' := by
  have hbegin : ∀ batches, Inherited (s.begin batches) := fun batches =>
    ⟨h.counted, h.absent, h.covered, fun x hx g hsettled => h.value x hx g hsettled.of_begin⟩
  cases ev with
  | register n r | unregister n r =>
    cases hs
    exact hbegin _
  | removeFace f =>
    cases hs
    exact h.removeFace hsound f
  | batch =>
    obtain ⟨u, calls, c, hsent⟩ := sent_of_send hsound.tree hs
    exact h.sent hsound hdrain hsent (hk u s'.updateBatches hsent.queue)

end RibState

namespace Rib

/-- The walk up from a parent pointer, not past an entry with a CAPTURE route: the lowest cost of
the CHILD_INHERIT routes on the face of the first entry that has one. -/
def inheritedFrom (R : Rib C) (f : FaceId) : ℕ → Option (Name C) → Option ℕ
  | 0, _ => none
  | _ + 1, none => none
  | fuel + 1, some p =>
    let routes := (R.entries p).routes
    (((routes.filter fun r => r.faceId == f && r.isChildInherit).map Route.cost).min?).or
      (if routes.any (·.isCapture) then none else inheritedFrom R f fuel (R.entries p).parent)

lemma inheritedFrom_eq {P : Option (Name C)} {fuel : ℕ} (h : R.TreeInv)
    (hcnt : ∀ x ∈ R.names, (R.entries x).Counted)
    (hP : ∀ p, P = some p → p ∈ R.names ∧ p.length < fuel) :
    R.inheritedFrom g fuel P = P.bind (leaves (R.gate g)) := by
  induction fuel generalizing P with
  | zero =>
    cases P with
    | none => rfl
    | some p => exact absurd (hP p rfl).2 (Nat.not_lt_zero _)
  | succ fuel ih =>
    cases P with
    | none => rfl
    | some p =>
      obtain ⟨hp, hlen⟩ := hP p rfl
      have hnear := h.parent p hp
      have hrec : R.inheritedFrom g fuel (R.entries p).parent = R.handedDown g p := by
        rw [handedDown, arrives_of_nearest (fun y => gate_of_not_mem) hnear]
        refine ih fun q hq => ?_
        rw [parentOf, hq] at hnear
        have := hnear.2.1.length_lt
        exact ⟨hnear.1, by omega⟩
      rw [inheritedFrom, bind_some, leaves_gate, content_of_mem hp,
        RibEntry.through_gateOf_entry, (hcnt p hp).hasCapture_eq, hrec]
      rfl

end Rib

namespace RibState

/-- For a face without own routes, except one that is being removed, the FIB has what the walk
up from the entry finds, or nothing if the entry has a CAPTURE route. -/
def InheritedNexthops (s : RibState C) : Prop :=
  ∀ x ∈ s.rib.names, ∀ g, s.Settled g → (s.rib.entries x).hasFaceId g = false →
    s.fib (x, g) = if (s.rib.entries x).routes.any (·.isCapture) then none
      else s.rib.inheritedFrom g x.length (s.rib.entries x).parent

lemma Inherited.nexthops (h : Inherited s) (ht : s.rib.TreeInv) : s.InheritedNexthops := by
  intro x hx g hsettled hown
  have hnear := ht.parent x hx
  rw [h.value x hx g hsettled hown, (h.counted x hx).hasCapture_eq, handedDown,
    arrives_of_nearest (fun y => gate_of_not_mem) hnear,
    inheritedFrom_eq ht h.counted fun p hp => ?_]
  · rfl
  · rw [parentOf, hp] at hnear
    exact ⟨hnear.1, hnear.2.1.length_lt⟩

/-- In every run that meets the condition, every entry has the nexthops that it inherits. -/
theorem inherited_nexthops_of_run
    (h : Reach (step nth) SendsKeepingInherited {} s) : s.InheritedNexthops := by
  have hinv : Sound s ∧ Draining s ∧ Inherited s := by
    refine h.invariant (I := fun s => Sound s ∧ Draining s ∧ Inherited s)
      ⟨sound_init, draining_init, inherited_init⟩ ?_
    rintro s ev t ⟨hsound, hdrain, hinh⟩ hk hs
    refine ⟨hsound.step hs, hdrain.step hsound ?_ hs, hinh.step hsound hdrain hk hs⟩
    rintro f rfl
    exact hk
  exact hinv.2.2.nexthops hinv.1.tree

/-- A route with CAPTURE that is the last of its entry is unregistered: the entry below it does
not inherit again. -/
theorem inherited_nexthop_missing : ∃ s : RibState ℕ,
    Reach (step .sorting) Any {} s ∧ s.updateBatches = [] ∧
      s.rib.names = [[], [1, 2]] ∧ (s.rib.entries []).routes = [⟨1, 0, 1, 10, 0⟩] ∧
      (s.rib.entries [1, 2]).routes = [⟨3, 0, 0, 7, 0⟩] ∧ s.fib ([1, 2], 1) = none ∧
      ¬ s.InheritedNexthops := by
  have hrun : (run (step .sorting) ({} : RibState ℕ)
      [.register [] ⟨1, 0, 1, 10, 0⟩, .batch, .register [1] ⟨2, 0, 2, 5, 0⟩, .batch,
        .register [1, 2] ⟨3, 0, 0, 7, 0⟩, .batch, .unregister [1] ⟨2, 0, 0, 0, 0⟩, .batch]).map
      (fun s => decide (s.updateBatches.length = 0 ∧ s.rib.names = [[], [1, 2]] ∧
        (s.rib.entries []).routes = [⟨1, 0, 1, 10, 0⟩] ∧
        (s.rib.entries [1, 2]).routes = [⟨3, 0, 0, 7, 0⟩] ∧
        (s.rib.entries [1, 2]).parent = some [] ∧ s.fib ([1, 2], 1) = none)) = some true := by
    decide +kernel
  obtain ⟨s, hs, hview⟩ := map_eq_some_iff.mp hrun
  simp only [decide_eq_true_eq, length_eq_zero_iff] at hview
  obtain ⟨hq, hnames, hroot, hroutes, hparent, hfib⟩ := hview
  refine ⟨s, reach_of_run .init hs, hq, hnames, hroot, hroutes, hfib, fun h => ?_⟩
  have hinh := h [1, 2] (by simp [hnames]) 1 (.of_nil hq 1) (by simp [RibEntry.hasFaceId, hroutes])
  rw [hfib, hroutes, hparent] at hinh
  simp [inheritedFrom, hroot, Route.isCapture, Route.isChildInherit, Route.flagCapture,
    Route.flagChildInherit] at hinh

/-- An entry is registered under one with a CHILD_INHERIT route. -/
theorem inherited_nexthops_of_run_child :
    ∃ s : RibState ℕ, s.fib ([1], 1) = some 10 ∧ s.InheritedNexthops := by
  have h : ∃ s : RibState ℕ,
      Reach (step .sorting) SendsKeepingInherited {} s ∧ s.fib ([1], 1) = some 10 := by
    refine ⟨_, .step (a := .batch) (.step (a := .register [1] ⟨2, 0, 0, 5, 0⟩)
      (.step (a := .batch) (.step (a := .register [] ⟨1, 0, 1, 10, 0⟩) .init trivial rfl) ?_ rfl)
        trivial rfl) ?_ rfl, ?_⟩
    · intro u us h
      cases h
      exact .of_new rfl not_mem_nil fun p hp => absurd hp not_mem_nil
    · intro u us h
      cases h
      refine .of_new rfl (by decide +kernel) fun p hp _ => ?_
      obtain rfl : p = [] := mem_singleton.mp hp
      exact RibEntry.firstIsCheapest_single rfl
    · rfl
  obtain ⟨s, hs, hfib⟩ := h
  exact ⟨s, hfib, inherited_nexthops_of_run hs⟩

end RibState

end NfdGateway
