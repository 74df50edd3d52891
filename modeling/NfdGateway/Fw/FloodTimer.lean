import NfdGateway.Fw.Courses
import NfdGateway.Fw.LocationTriggers

/-! The one-second timers of `LocationRouteStrategy` against the timers of the PIT: when the
flood still finds its PIT entry in the PIT, with an in-record to take the Interest from. -/
namespace NfdGateway.Fw

open List Option Transition

open Location (Coordinate Params RouteTable Received)
open LocationRoute (destination sendAll strategy)

variable {C S : Type} {E : Setting C S} {P : Params} {destOf : Name C → Option Coordinate}
  {fw fw' : Forwarder C S} {n n' : Node C S LocationRoute} {table table' : RouteTable}
  {e : PitEntryId} {t : ExpiryTimer} {A : Set PitEntryId} {dest : Coordinate} {inFace : FaceId}
  {i : InterestPacket C S} {acts : List Action} {x : Entry C S}

def Waits (fw : Forwarder C S) (e : PitEntryId) (d : ℕ) : Prop :=
  e ∈ fw.pit ∧ ∃ x, fw.entries[e]? = some x ∧ x.inRecords ≠ [] ∧ x.stragglerTimer = none ∧
    ∃ D, x.unsatisfyTimer = some D ∧ d < D

structure Backed (destOf : Name C → Option Coordinate) (fw : Forwarder C S) (table : RouteTable)
    (t : ExpiryTimer) : Prop where
  soon : t.expiresAt ≤ fw.now + milliseconds 1000
  known : ∃ dest, destination destOf fw t.pitEntry = some dest ∧
    (Received table dest ∨ Waits fw t.pitEntry t.expiresAt)

def AllBacked (destOf : Name C → Option Coordinate) (n : Node C S LocationRoute) : Prop :=
  ∀ t ∈ n.strategy.timers, Backed destOf n.fw n.strategy.table t

lemma Waits.touches {d : ℕ} (h : Waits fw e d) (ht : Touches A fw fw') (he : e ∉ A) :
    Waits fw' e d := by
  obtain ⟨hpit, x, hx, hin, hs, D, hD, hd⟩ := h
  obtain ⟨x', hx', -, hsame⟩ := ht.entries e x hx
  have hsame := hsame he
  refine ⟨(ht.pit e he).mpr hpit, x', hx', ?_, ?_, D, ?_, hd⟩
  · exact hsame.inRecords ▸ hin
  · exact hsame.stragglerTimer.trans hs
  · exact hsame.unsatisfyTimer.trans hD

section

variable (h : Backed destOf fw table t)
include h

lemma Backed.touches (ht : Touches A fw fw')
    (hA : t.pitEntry ∉ A) (hkeep : ∀ d, Received table d → Received table' d) :
    Backed destOf fw' table' t := by
  obtain ⟨hsoon, dest, hdest, hcase⟩ := h
  refine ⟨ht.now ▸ hsoon, dest, destination_of_touches hdest ht, ?_⟩
  rcases hcase with hrec | hw
  · exact .inl (hkeep dest hrec)
  · exact .inr (hw.touches ht hA)

lemma Backed.marked (ht : Touches A fw fw')
    (hmark : ∀ dest, destination destOf fw t.pitEntry = some dest → Received table' dest) :
    Backed destOf fw' table' t := by
  obtain ⟨hsoon, dest, hdest, -⟩ := h
  exact ⟨ht.now ▸ hsoon, dest, destination_of_touches hdest ht, .inl (hmark dest hdest)⟩

lemma Backed.received (hno : ¬ Waits fw t.pitEntry t.expiresAt)
    (hdest : destination destOf fw t.pitEntry = some dest) : Received table dest := by
  obtain ⟨-, dest', hdest', hcase⟩ := h
  obtain rfl : dest' = dest := some.inj (hdest'.symm.trans hdest)
  exact hcase.resolve_right hno

lemma Backed.exists_entry : fw.entries[t.pitEntry]? ≠ none := by
  obtain ⟨-, dest, hdest, -⟩ := h
  obtain ⟨x, hx, -⟩ := bind_eq_some_iff.mp hdest
  simp [hx]

end

lemma touches_missed (fw : Forwarder C S) (inFace : FaceId) (e : PitEntryId)
    (i : InterestPacket C S) : Touches {e} fw (missed fw inFace e i) := by
  refine (Forwarder.touches_modifyEntry fw e ?_ (Set.mem_singleton e)).trans
    (Forwarder.touches_setUnsatisfyTimer _ e)
  exact fun _ => rfl

lemma waits_missed {d : ℕ} (hpit : e ∈ fw.pit)
    (hx : fw.entries[e]? = some x) (hs : x.stragglerTimer = none)
    (hlife : 1000 < i.lifetime.getD defaultInterestLifetime)
    (hd : d ≤ fw.now + milliseconds 1000) : Waits (missed fw inFace e i) e d := by
  let y := x.insertOrUpdateInRecord fw.now inFace i
  have hy := mem_insertOrUpdateInRecord x fw.now inFace i
  obtain ⟨r, hr⟩ : ∃ r, y.lastExpiring = some r := MaxElement.maxElement_isSome (ne_nil_of_mem hy)
  have hlast := MaxElement.le_maxElement hr hy
  have hentry : (missed fw inFace e i).entries[e]? =
      some { y with unsatisfyTimer := y.lastExpiring.map fun r => r.expiry } :=
    Forwarder.getElem?_modifyEntry_self (Forwarder.getElem?_modifyEntry_self hx)
  refine ⟨hpit, _, hentry, ne_nil_of_mem hy, hs, r.expiry, by simp [hr], ?_⟩
  have hexpiry : fw.now + i.lifetime.getD defaultInterestLifetime * 1000000 ≤ r.expiry := hlast
  have hsoon : d ≤ fw.now + 1000 * 1000000 := hd
  omega

lemma AllBacked.quiet (h : AllBacked destOf n) (ht : Touches ∅ n.fw n'.fw)
    (htimers : n'.strategy.timers ⊆ n.strategy.timers)
    (hkeep : ∀ d, Received n.strategy.table d → Received n'.strategy.table d) :
    AllBacked destOf n' := by
  intro t hmem
  exact (h t (htimers hmem)).touches ht (Set.notMem_empty _) hkeep

lemma AllBacked.marked (h : AllBacked destOf n) (ht : Touches {e} n.fw n'.fw)
    (htimers : n'.strategy.timers ⊆ n.strategy.timers)
    (hkeep : ∀ d, Received n.strategy.table d → Received n'.strategy.table d)
    (hmark : ∀ t ∈ n.strategy.timers, t.pitEntry = e →
      ∀ dest, destination destOf n.fw e = some dest → Received n'.strategy.table dest) :
    AllBacked destOf n' := by
  intro t hmem
  have hback := h t (htimers hmem)
  by_cases he : t.pitEntry = e
  · exact hback.marked ht fun dest hdest => hmark t (htimers hmem) he dest (he ▸ hdest)
  · exact hback.touches ht he hkeep

lemma AllBacked.idle (h : AllBacked destOf n) (ht : Touches {e} n.fw n'.fw)
    (htimers : n'.strategy.timers ⊆ n.strategy.timers)
    (hkeep : ∀ d, Received n.strategy.table d → Received n'.strategy.table d)
    (hidle : ∀ t ∈ n.strategy.timers, t.pitEntry = e → ¬ Waits n.fw e t.expiresAt) :
    AllBacked destOf n' := by
  refine h.marked ht htimers hkeep fun t hmem he dest hdest => hkeep dest ?_
  subst he
  exact (h t hmem).received (hidle t hmem rfl) hdest

lemma AllBacked.straggler {T : StragglerTimer} (h : AllBacked destOf n)
    (hx : n.fw.entries[e]? = some x) (hT : x.stragglerTimer = some T) :
    AllBacked destOf (n.withFw ((n.fw.modifyEntry e fun x => { x with stragglerTimer := none }
      ).onInterestFinalize E e T.isSatisfied T.dataFreshnessPeriod)) := by
  have hall := (n.fw.touches_modifyEntry e (f := fun x => { x with stragglerTimer := none })
    (fun _ => rfl) (Set.mem_singleton e)).trans
    (Forwarder.touches_onInterestFinalize (E := E) _ e T.isSatisfied T.dataFreshnessPeriod)
  refine h.idle hall (List.Subset.refl _) (fun _ hr => hr) ?_
  rintro t - - ⟨-, y, hy, -, hs, -⟩
  obtain rfl : x = y := some.inj (hx.symm.trans hy)
  cases hs.symm.trans hT

section Pipelines

variable [DecidableEq C] {l' : List FaceId}

lemma AllBacked.miss {n₀ : Node C S LocationRoute} (h : AllBacked destOf n₀)
    (ht : Touches {e} n₀.fw n.fw) (hst : n.strategy = n₀.strategy) (hpit : e ∈ n.fw.pit)
    (hx : n.fw.entries[e]? = some x) (hs : x.stragglerTimer = none)
    (hname : x.interest.name = i.name) (hok : InterestOk P destOf n.strategy inFace i)
    (hstep : n.onContentStoreMiss E (strategy P destOf) inFace e i = some n') :
    AllBacked destOf n' := by
  obtain ⟨acts, hcall, hacts⟩ := dispatch_eq_some hstep
  obtain ⟨⟨faces, rfl⟩, hkeep, htimers⟩ := afterReceiveInterest_spec hok hcall
  have hmiss := touches_missed n.fw inFace e i
  have hsent := quiet_sendAll hacts
  have hall : Touches {e} n₀.fw n'.fw := (ht.trans hmiss).trans hsent.quiet
  have hnow : n'.fw.now = n.fw.now := hsent.now.trans hmiss.now
  -- the entry itself waits long enough for every timer there can be
  have hwaits : ∀ d ≤ n.fw.now + milliseconds 1000, Waits n'.fw e d := by
    intro d hd
    exact (waits_missed hpit hx hs hok.1 hd).touches hsent (Set.notMem_empty e)
  intro t hmem
  rcases htimers t hmem with hold | ⟨rfl, dest, hdest⟩
  · have hback := h t (hst ▸ hold)
    by_cases he : t.pitEntry = e
    · obtain ⟨hsoon, dest, hdest, -⟩ := hback
      have hsoon' := ht.now ▸ hsoon
      exact ⟨hnow ▸ hsoon', dest, destination_of_touches hdest hall, .inr (he ▸ hwaits _ hsoon')⟩
    · exact hback.touches hall he (hst ▸ hkeep)
  · refine ⟨?_, dest, ?_, .inr (hwaits _ (Nat.le_refl _))⟩
    · rw [hnow]
      exact Nat.le_refl _
    have hdest₀ : destination destOf n.fw e = some dest := by simp [destination, hx, hname, hdest]
    exact destination_of_touches hdest₀ (hmiss.trans hsent.quiet)

lemma AllBacked.hit (h : AllBacked destOf n) (hx : n.fw.entries[e]? = some x)
    (hin : x.inRecords = []) (inFace : FaceId) (d : Data C) :
    AllBacked destOf ((n.withFw (n.fw.cancelUnsatisfyAndStragglerTimer e)).onContentStoreHit E
      inFace e d) := by
  have hall := ((n.fw.touches_cancelTimers e).trans (Forwarder.touches_setStragglerTimer _ e true
    d.freshnessPeriod)).trans (Forwarder.quiet_onOutgoingData (E := E) _ d inFace).quiet
  refine h.idle hall (List.Subset.refl _) (fun _ hr => hr) ?_
  rintro t - - ⟨-, y, hy, hne, -⟩
  obtain rfl : x = y := some.inj (hx.symm.trans hy)
  exact hne hin

lemma AllBacked.insertPit [DecidableEq S] (h : AllBacked destOf n)
    (hi : n.fw.insertPit i = (fw, e)) : AllBacked destOf (n.withFw fw) ∧ e ∈ fw.pit ∧
      ∃ x, fw.entries[e]? = some x ∧ x.interest.name = i.name := by
  obtain ⟨hpit, ⟨x, hx, hxi⟩, ht⟩ := n.fw.insertPit_spec i
  rw [hi] at hpit hx ht
  refine ⟨?_, hpit, x, hx, congrArg Interest.name hxi⟩
  intro t hmem
  exact (h t hmem).touches ht (h t hmem).exists_entry fun _ hr => hr

/-- Every PIT entry in this list that has a one-second timer pending is for a destination that is
marked, or gets marked by the Data. -/
def AllMarked (destOf : Name C → Option Coordinate) (n : Node C S LocationRoute)
    (inFace : FaceId) (pitMatches : List PitEntryId) : Prop :=
  ∀ e ∈ pitMatches, ∀ t ∈ n.strategy.timers, t.pitEntry = e →
    ∀ dest, destination destOf n.fw e = some dest → MarkedBy n.strategy inFace dest

lemma AllBacked.satisfy {d : Data C} {l : List FaceId} {rest : List PitEntryId}
    (h : AllBacked destOf n) (hm : AllMarked destOf n inFace (e :: rest))
    (hstep : Node.satisfy E (strategy P destOf) inFace d (n, l) e = some (n', l')) :
    AllBacked destOf n' ∧ AllMarked destOf n' inFace rest := by
  obtain ⟨x, -, hstep⟩ := bind_eq_some_iff.mp hstep
  obtain ⟨n₁, hcall, hstep⟩ := bind_eq_some_iff.mp hstep
  cases hstep
  obtain ⟨acts, hcall, hacts⟩ := dispatch_eq_some hcall
  obtain ⟨rfl, -⟩ := beforeSatisfyInterest_cases (d := d) hcall
  obtain ⟨htimers, hkeep, hothers, hown⟩ := beforeSatisfyInterest_spec (d := d) hcall
  have hfw := some.inj hacts
  have hcancel : Touches {e} n.fw n₁.fw := hfw ▸ n.fw.touches_cancelTimers e
  have hall := ((hcancel.trans (Forwarder.quiet_insertDeadNonceList (E := E) n₁.fw e true
    d.freshnessPeriod (some inFace)).quiet).trans (Forwarder.touches_modifyEntry _ e
      (f := fun x => x.clearInRecords.deleteOutRecord inFace) (fun _ => rfl)
      (Set.mem_singleton e))).trans
    (Forwarder.touches_setStragglerTimer _ e true d.freshnessPeriod)
  constructor
  · refine h.marked hall (htimers ▸ List.Subset.refl _) hkeep fun t hold he dest hdest => ?_
    exact hown dest (destination_of_touches hdest (n.fw.touches_cancelTimers e))
      (hm e (.head _) t hold he dest hdest)
  intro e' he' t hmem hte dest hdest
  have hold : t ∈ n.strategy.timers := htimers ▸ hmem
  obtain ⟨-, dest₀, hdest₀, -⟩ := h t hold
  rw [hte] at hdest₀
  obtain rfl : dest₀ = dest := some.inj ((destination_of_touches hdest₀ hall).symm.trans hdest)
  exact hothers dest₀ (hm e' (.tail _ he') t hold hte dest₀ hdest₀)

lemma AllBacked.satisfy_all {d : Data C} {l : List FaceId} {pitMatches : List PitEntryId}
    (h : AllBacked destOf n) (hm : AllMarked destOf n inFace pitMatches)
    (hstep : pitMatches.foldlM (Node.satisfy E (strategy P destOf) inFace d) (n, l) =
      some (n', l')) : AllBacked destOf n' := by
  induction pitMatches generalizing n l with
  | nil =>
    cases hstep
    exact h
  | cons e rest ih =>
    obtain ⟨⟨n₁, l₁⟩, hone, hrest⟩ := bind_eq_some_iff.mp hstep
    obtain ⟨h₁, hm₁⟩ := h.satisfy hm hone
    exact ih h₁ hm₁ hrest

lemma quiet_deliver (fw : Forwarder C S) (d : Data C) (fs : List FaceId) :
    Touches ∅ fw (fs.foldl (fun fw f => fw.onOutgoingData E d f) fw) := by
  induction fs generalizing fw with
  | nil => exact .refl _ fw
  | cons f fs ih => exact (fw.quiet_onOutgoingData d f).trans (ih _)

lemma AllBacked.nack {reason : NackReason} (h : AllBacked destOf n)
    (hfw : fw = n.fw.modifyEntry e fun x => x.setIncomingNack inFace reason)
    (hcall : (n.withFw fw).dispatchToStrategy E
      ((strategy P destOf).afterReceiveNack fw inFace i reason e n.strategy) = some n') :
    AllBacked destOf n' := by
  obtain ⟨acts, hcall, hacts⟩ := dispatch_eq_some hcall
  obtain ⟨hst, rfl⟩ : n.strategy = n'.strategy ∧ [] = acts := Prod.mk.inj (some.inj hcall)
  have hquiet : Touches ∅ n.fw n'.fw := by
    rw [← some.inj hacts]
    subst hfw
    exact n.fw.quiet_modifyEntry e fun _ => ⟨rfl, rfl, rfl, rfl⟩
  exact h.quiet hquiet (hst ▸ List.Subset.refl _) fun _ hr => hst ▸ hr

lemma AllBacked.unsatisfied {D : ℕ} (h : AllBacked destOf n)
    (hx : n.fw.entries[e]? = some x) (hD : x.unsatisfyTimer = some D)
    (horder : ∀ t ∈ n.strategy.timers, t.pitEntry = e → D ≤ t.expiresAt)
    (hfw : fw = n.fw.modifyEntry e fun x => { x with unsatisfyTimer := none })
    (hcall : (n.withFw fw).dispatchToStrategy E
      ((strategy P destOf).beforeExpirePendingInterest fw e n.strategy) = some n') :
    AllBacked destOf (n'.withFw (n'.fw.onInterestFinalize E e false none)) := by
  obtain ⟨acts, hcall, hacts⟩ := dispatch_eq_some hcall
  obtain ⟨dest, -, hcall⟩ := bind_eq_some_iff.mp hcall
  obtain ⟨hst, rfl⟩ := Prod.mk.inj (some.inj hcall)
  have hall : Touches {e} n.fw (n'.withFw (n'.fw.onInterestFinalize E e false none)).fw := by
    refine Touches.trans ?_ (n'.fw.touches_onInterestFinalize e false none)
    rw [← some.inj hacts]
    subst hfw
    exact Forwarder.touches_modifyEntry _ e (fun _ => rfl) (Set.mem_singleton e)
  refine h.idle hall (hst ▸ List.Subset.refl _) ?_ ?_
  · intro d hr
    have hkept : Received n'.strategy.table d := hst ▸ hr.beforeExpirePendingInterest
    exact hkept
  rintro t hold he ⟨-, y, hy, -, -, D', hD', hlt⟩
  obtain rfl : x = y := some.inj (hx.symm.trans hy)
  obtain rfl : D = D' := some.inj (hD.symm.trans hD')
  have := horder t hold he
  omega

lemma AllBacked.interestExpiry (h : AllBacked destOf n)
    (hcall : LocationRoute.interestExpiry destOf n.fw t n.strategy = some (n'.strategy, acts))
    (hacts : acts.foldlM (Forwarder.perform E) n.fw = some n'.fw) : AllBacked destOf n' := by
  obtain ⟨dest, -, hcall⟩ := bind_eq_some_iff.mp hcall
  obtain ⟨hst, rfl⟩ := Prod.mk.inj (some.inj hcall)
  refine h.quiet (quiet_sendAll hacts) (hst ▸ erase_subset) fun d hr => hst ▸ ?_
  exact Received.interestExpiry hr

end Pipelines

/-- Whether an event keeps the one-second timers backed, judged on the state before it. Interests
have a lifetime above one second; Data for an entry with a pending one-second timer comes from
the next hop of an entry for its destination, or such Data has come before; the unsatisfy timer
of an entry fires after the one-second timers that expire before it. -/
def Timely (P : Params) (destOf : Name C → Option Coordinate) (n : Node C S LocationRoute) :
    Event C S LocationRoute.Event → Prop
  | .interest inFace i _ _ => InterestOk P destOf n.strategy inFace i
  | .data inFace _ pitMatches => AllMarked destOf n inFace pitMatches
  | .unsatisfyTimer e => ∀ t ∈ n.strategy.timers, t.pitEntry = e →
      ∀ x D, n.fw.entries[e]? = some x → x.unsatisfyTimer = some D → D ≤ t.expiresAt
  | _ => True

variable [DecidableEq C]

variable [DecidableEq S]

lemma AllBacked.step {ev : Event C S LocationRoute.Event} (h : AllBacked destOf n)
    (hok : Timely P destOf n ev) (hstep : step E (strategy P destOf) n ev = some n') :
    AllBacked destOf n' := by
  cases course_of_step hstep with
  | @advance d =>
    intro t hmem
    obtain ⟨hsoon, hknown⟩ := h t hmem
    refine ⟨hsoon.trans ?_, hknown⟩
    exact Nat.add_le_add_right (Nat.le_add_right _ d) _
  | deadNonce =>
    exact h.quiet (Forwarder.quiet_onInterestLoop ..) (List.Subset.refl _) fun _ hr => hr
  | duplicateNonce hi _ _ =>
    exact (h.insertPit hi).1.quiet (Forwarder.quiet_onInterestLoop ..) (List.Subset.refl _)
      fun _ hr => hr
  | @hit inFace _ _ d _ _ _ hi hx hin => exact (h.insertPit hi).1.hit hx hin inFace d
  | @miss _ _ _ _ fw e _ _ hi _ hcall =>
    obtain ⟨hins, hpit, x, hx, hname⟩ := h.insertPit hi
    exact hins.miss (n := n.withFw _) (fw.touches_cancelTimers e) rfl hpit
      (Forwarder.getElem?_modifyEntry_self hx) rfl hname hok hcall
  | data _ hloop =>
    exact (h.satisfy_all hok hloop).quiet (quiet_deliver ..) (List.Subset.refl _) fun _ hr => hr
  | nack _ hfw hcall => exact h.nack hfw hcall
  | @unsatisfyTimer e x D _ _ hx hD hfw hcall =>
    exact h.unsatisfied hx hD (fun t ht he => hok t ht he x D hx hD) hfw hcall
  | stragglerTimer hx hT => exact h.straggler hx hT
  | @strategy ev _ hcall =>
    obtain ⟨acts, hcall, hacts⟩ := dispatch_eq_some hcall
    cases ev with
    | ndpRound ns =>
      obtain ⟨hst, rfl⟩ := Prod.mk.inj (some.inj hcall)
      have hquiet : Touches ∅ n.fw n'.fw := some.inj hacts ▸ .refl ∅ n.fw
      exact h.quiet hquiet (hst ▸ List.Subset.refl _) fun _ hr => hst ▸ hr.routingtableUpdate ns
    | interestExpiry t =>
      simp only [strategy] at hcall
      split at hcall
      · exact h.interestExpiry hcall hacts
      · cases hcall
  | _ => exact h

def plain : Setting Bool Unit where
  localhost := false
  localhop := false
  isLocal := fun _ => false
  isMultiAccess := fun _ => false
  mustBeFresh := fun _ => false
  matchesData := fun i d => i.name = d.name
  deadNonceLifetime := 6000

def asked (lifetime : Option ℕ) : List (Event Bool Unit LocationRoute.Event) :=
  [.strategy (.ndpRound [(⟨1, 1⟩, 5), (⟨2, 2⟩, 6)]),
    .interest 9 ⟨⟨[true], ()⟩, 1, lifetime⟩ false none]

def expired : List (Event Bool Unit LocationRoute.Event) :=
  asked (some 500) ++ [.advance (milliseconds 1000), .unsatisfyTimer 0]

def answered : List (Event Bool Unit LocationRoute.Event) :=
  asked none ++ [.data 7 ⟨[true], none⟩ [0], .advance (milliseconds 1000)]

end NfdGateway.Fw
