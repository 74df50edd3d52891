import NfdGateway.Fw.Frame

/-! The pipelines cut where a strategy can act: what each of them does, stage by stage, for any
strategy. -/
namespace NfdGateway.Fw

open Transition List Option

variable {C S σ ω : Type}

/-- The parts of a pipeline: the work between calls of the strategy, and its actions. -/
inductive Stage (C S : Type)
  | advance (d : ℕ)
  | loop (inFace : FaceId) (i : InterestPacket C S)
  | insert (i : InterestPacket C S)
  | cancel (e : PitEntryId)
  | miss (inFace : FaceId) (e : PitEntryId) (i : InterestPacket C S)
  | hit (inFace : FaceId) (e : PitEntryId) (d : Data C)
  | call (a : Action)
  | satisfied (e : PitEntryId) (inFace : FaceId) (d : Data C)
  | deliver (d : Data C) (outFace : FaceId)
  | nacked (e : PitEntryId) (inFace : FaceId) (reason : NackReason)
  | unsatisfyFired (e : PitEntryId)
  | unsatisfied (e : PitEntryId)
  | stragglerFired (e : PitEntryId)

def satisfied (E : Setting C S) (fw : Forwarder C S) (e : PitEntryId) (inFace : FaceId)
    (d : Data C) : Forwarder C S :=
  ((fw.insertDeadNonceList E e true d.freshnessPeriod (some inFace)).modifyEntry e fun x =>
    x.clearInRecords.deleteOutRecord inFace).setStragglerTimer e true d.freshnessPeriod

section Stages

variable [DecidableEq C] [DecidableEq S]

def stage (E : Setting C S) (fw : Forwarder C S) : Stage C S → Option (Forwarder C S)
  | .advance d => some { fw with now := fw.now + d }
  | .loop inFace i => some (fw.onInterestLoop E inFace i)
  | .insert i => some (fw.insertPit i).1
  | .cancel e => some (fw.cancelUnsatisfyAndStragglerTimer e)
  | .miss inFace e i => some (missed fw inFace e i)
  | .hit inFace e d =>
    some ((fw.setStragglerTimer e true d.freshnessPeriod).onOutgoingData E d inFace)
  | .call a => fw.perform E a
  | .satisfied e inFace d => some (satisfied E fw e inFace d)
  | .deliver d outFace => some (fw.onOutgoingData E d outFace)
  | .nacked e inFace reason => some (fw.modifyEntry e fun x => x.setIncomingNack inFace reason)
  | .unsatisfyFired e => some (fw.modifyEntry e fun x => { x with unsatisfyTimer := none })
  | .unsatisfied e => some (fw.onInterestFinalize E e false none)
  | .stragglerFired e => do
    let t ← (← fw.entries[e]?).stragglerTimer
    return (fw.modifyEntry e fun x => { x with stragglerTimer := none }).onInterestFinalize E e
      t.isSatisfied t.dataFreshnessPeriod

def calls (r : Option (σ × List Action)) : List (Stage C S) :=
  match r with
  | none => []
  | some (_, actions) => actions.map .call

variable (E : Setting C S) (strategy : Strategy C S σ ω)

def missStages (n : Node C S σ) (inFace : FaceId) (e : PitEntryId) (i : InterestPacket C S) :
    List (Stage C S) :=
  .miss inFace e i ::
    calls (strategy.afterReceiveInterest (missed n.fw inFace e i) inFace i e n.strategy)

def entryStages (n : Node C S σ) (inFace : FaceId) (e : PitEntryId) (i : InterestPacket C S)
    (csMatch : Option (Data C)) : List (Stage C S) :=
  match n.fw.entries[e]? with
  | none => []
  | some x =>
    if x.findDuplicateNonce i.nonce inFace ≠ {} then [.loop inFace i]
    else
      let n := n.withFw (n.fw.cancelUnsatisfyAndStragglerTimer e)
      .cancel e ::
        if x.hasInRecords then missStages strategy n inFace e i
        else
          match csMatch with
          | some data => [.hit inFace e data]
          | none => missStages strategy n inFace e i

def satisfyStages (inFace : FaceId) (d : Data C) : Node C S σ → List PitEntryId → List (Stage C S)
  | _, [] => []
  | n, e :: rest =>
    .cancel e :: calls (strategy.beforeSatisfyInterest (n.fw.cancelUnsatisfyAndStragglerTimer e) e
        inFace d n.strategy) ++
      .satisfied e inFace d ::
        match Node.satisfy E strategy inFace d (n, []) e with
        | some r => satisfyStages inFace d r.1 rest
        | none => []

/-- The stages of an event, one after the other. -/
def stagesOf (n : Node C S σ) : Event C S ω → List (Stage C S)
  | .advance d => [.advance d]
  | .interest inFace i isDeadNonce csMatch =>
    if E.violatesLocalhost inFace i.name then []
    else if isDeadNonce then [.loop inFace i]
    else
      let r := n.fw.insertPit i
      .insert i :: entryStages strategy (n.withFw r.1) inFace r.2 i csMatch
  | .data inFace d pitMatches =>
    if E.violatesLocalhost inFace d.name then []
    else satisfyStages E strategy inFace d n pitMatches ++
      match pitMatches.foldlM (Node.satisfy E strategy inFace d) (n, []) with
      | some (_, downstreams) => (downstreams.filter (· ≠ inFace)).map (.deliver d)
      | none => []
  | .nack inFace i reason =>
    if E.isMultiAccess inFace then []
    else
      match n.fw.findPit i.toInterest with
      | none => []
      | some e =>
        match n.fw.entries[e]?.bind fun x => x.getOutRecord inFace with
        | none => []
        | some r =>
          if i.nonce ≠ r.lastNonce then []
          else
            let fw := n.fw.modifyEntry e fun x => x.setIncomingNack inFace reason
            .nacked e inFace reason ::
              calls (strategy.afterReceiveNack fw inFace i reason e n.strategy)
  | .unsatisfyTimer e =>
    let fw := n.fw.modifyEntry e fun x => { x with unsatisfyTimer := none }
    .unsatisfyFired e :: calls (strategy.beforeExpirePendingInterest fw e n.strategy) ++
      [.unsatisfied e]
  | .stragglerTimer e => [.stragglerFired e]
  | .strategy ev => calls (strategy.own n.fw ev n.strategy)

end Stages

/-- What a stage relies on when its turn comes. -/
def Stage.Fits [DecidableEq C] (E : Setting C S) (fw : Forwarder C S) : Stage C S → Prop
  | .loop inFace i => E.violatesLocalhost inFace i.name = false
  | .miss inFace e i => E.violatesLocalhost inFace i.name = false ∧ e ∈ fw.pit ∧
      ∃ x, fw.entries[e]? = some x ∧ x.interest.toInterest = i.toInterest ∧
        x.stragglerTimer = none
  | .hit _ e d => e ∈ fw.pit ∧
      ∃ x, fw.entries[e]? = some x ∧ E.matchesData x.interest.toInterest d = true ∧
        x.inRecords = []
  | .satisfied e _ d => e ∈ fw.pit ∧
      ∃ x, fw.entries[e]? = some x ∧ E.matchesData x.interest.toInterest d = true
  | _ => True

variable {E : Setting C S} {strategy : Strategy C S σ ω} {fw fw' fw'' : Forwarder C S}
  {n n' : Node C S σ} {e : PitEntryId} {d : Data C} {inFace : FaceId} {i : InterestPacket C S}
  {freshness : Option ℕ} {isSatisfied : Bool} {upstream : Option FaceId} {l' : List FaceId}

/-- The clock, the PIT and the Interests of the entries stay. -/
structure Keeps (fw fw' : Forwarder C S) : Prop where
  now : fw'.now = fw.now
  pit : fw'.pit = fw.pit
  interests : fw'.entries.map (·.interest) = fw.entries.map (·.interest)

lemma Keeps.refl (fw : Forwarder C S) : Keeps fw fw := ⟨rfl, rfl, rfl⟩

lemma Keeps.trans (h : Keeps fw fw') (h' : Keeps fw' fw'') : Keeps fw fw'' :=
  ⟨h'.now.trans h.now, h'.pit.trans h.pit, h'.interests.trans h.interests⟩

lemma Keeps.entry {x : Entry C S} (h : Keeps fw fw') (hx : fw.entries[e]? = some x) :
    ∃ x', fw'.entries[e]? = some x' ∧ x'.interest = x.interest := by
  have hmap := congrArg (·[e]?) h.interests
  simp only [getElem?_map, hx, map_some] at hmap
  obtain ⟨x', hx', hi⟩ := map_eq_some_iff.mp hmap
  exact ⟨x', hx', hi⟩

namespace Forwarder

lemma keeps_modifyEntry {f : Entry C S → Entry C S} (fw : Forwarder C S) (e : PitEntryId)
    (hf : ∀ x, (f x).interest = x.interest) : Keeps fw (fw.modifyEntry e f) := by
  refine ⟨rfl, rfl, ext_getElem? fun j => ?_⟩
  simp only [modifyEntry, getElem?_map, getElem?_modify]
  split
  · cases fw.entries[j]? <;> simp [hf]
  · simp

lemma keeps_send (fw : Forwarder C S) (face : FaceId) (p : Packet C S) :
    Keeps fw (fw.send face p) := ⟨rfl, rfl, rfl⟩

section

variable (fw e)

lemma keeps_insertDeadNonceList (isSatisfied : Bool)
    (freshness : Option ℕ) (upstream : Option FaceId) :
    Keeps fw (fw.insertDeadNonceList E e isSatisfied freshness upstream) := by
  obtain ⟨l, h⟩ := fw.insertDeadNonceList_eq e isSatisfied freshness upstream
  rw [h]
  exact ⟨rfl, rfl, rfl⟩

lemma keeps_onOutgoingNack (outFace : FaceId)
    (reason : NackReason) : Keeps fw (fw.onOutgoingNack E e outFace reason) := by
  rcases fw.onOutgoingNack_cases e outFace reason with h | ⟨x, r, -, -, h⟩
  · rw [h]
    exact .refl fw
  rw [h]
  refine (keeps_modifyEntry fw e ?_).trans (keeps_send ..)
  exact fun _ => rfl

lemma keeps_cancelTimers :
    Keeps fw (fw.cancelUnsatisfyAndStragglerTimer e) := keeps_modifyEntry fw e fun _ => rfl

lemma keeps_setStragglerTimer (isSatisfied : Bool)
    (freshness : Option ℕ) : Keeps fw (fw.setStragglerTimer e isSatisfied freshness) :=
  keeps_modifyEntry fw e fun _ => rfl

lemma keeps_onInterestReject : Keeps fw (fw.onInterestReject e) := by
  rcases fw.onInterestReject_cases e with h | h
  · rw [h]
    exact .refl fw
  · rw [h]
    exact (fw.keeps_cancelTimers e).trans (keeps_setStragglerTimer ..)

end

variable [DecidableEq C]

lemma keeps_onOutgoingInterest {outFace : FaceId} {newNonce : Option Nonce}
    (h : fw.onOutgoingInterest E e outFace newNonce = some fw') : Keeps fw fw' := by
  rcases onOutgoingInterest_cases h with rfl | ⟨x, r, -, -, -, rfl⟩
  · exact .refl _
  · refine (keeps_modifyEntry fw e ?_).trans (keeps_send ..)
    exact fun _ => rfl

lemma keeps_perform {a : Action} (h : fw.perform E a = some fw') : Keeps fw fw' := by
  cases a with
  | sendInterest e outFace newNonce => exact keeps_onOutgoingInterest h
  | sendNack e outFace reason =>
    cases h
    exact keeps_onOutgoingNack ..
  | rejectPendingInterest e =>
    cases h
    exact keeps_onInterestReject ..

lemma keeps_calls {acts : List Action} (h : acts.foldlM (perform E) fw = some fw') :
    Keeps fw fw' := by
  induction acts generalizing fw with
  | nil =>
    cases h
    exact .refl _
  | cons a acts ih =>
    obtain ⟨fw₁, ha, hacts⟩ := bind_eq_some_iff.mp h
    exact (keeps_perform ha).trans (ih hacts)

end Forwarder

lemma keeps_satisfied (fw : Forwarder C S) (e : PitEntryId) (inFace : FaceId) (d : Data C) :
    Keeps fw (satisfied E fw e inFace d) := by
  refine Keeps.trans (Keeps.trans ?_ (Forwarder.keeps_modifyEntry _ e ?_))
    (Forwarder.keeps_setStragglerTimer ..)
  · exact fw.keeps_insertDeadNonceList e true d.freshnessPeriod (some inFace)
  · exact fun _ => rfl

lemma satisfy_eq_some [DecidableEq C] {l : List FaceId}
    (h : Node.satisfy E strategy inFace d (n, l) e = some (n', l')) :
    ∃ x n₁, (n.fw.cancelUnsatisfyAndStragglerTimer e).entries[e]? = some x ∧
      (n.withFw (n.fw.cancelUnsatisfyAndStragglerTimer e)).dispatchToStrategy E
        (strategy.beforeSatisfyInterest (n.fw.cancelUnsatisfyAndStragglerTimer e) e inFace d
          n.strategy) = some n₁ ∧
      n' = n₁.withFw (satisfied E n₁.fw e inFace d) ∧ l' = Node.addDownstreams n₁.fw.now x l := by
  obtain ⟨x, hx, h⟩ := bind_eq_some_iff.mp h
  obtain ⟨n₁, hcall, h⟩ := bind_eq_some_iff.mp h
  cases h
  exact ⟨x, n₁, hx, hcall, rfl, rfl⟩

lemma satisfy_faces [DecidableEq C] {l : List FaceId}
    (h : Node.satisfy E strategy inFace d (n, l) e = some (n', l')) :
    ∃ l'', Node.satisfy E strategy inFace d (n, []) e = some (n', l'') := by
  obtain ⟨x, n₁, hx, hcall, rfl, -⟩ := satisfy_eq_some h
  refine ⟨Node.addDownstreams n₁.fw.now x [], ?_⟩
  exact bind_eq_some_iff.mpr ⟨x, hx, bind_eq_some_iff.mpr ⟨n₁, hcall, rfl⟩⟩

section Writes

variable {x : Entry C S} {s : Stage C S}

/-- What a stage makes of the entry that it changes. -/
inductive Rewrites (E : Setting C S) (fw : Forwarder C S) :
    Stage C S → PitEntryId → Entry C S → Entry C S → Prop
  | timers {s : Stage C S} {e : PitEntryId} {x : Entry C S} (u : Option ℕ)
      {t : Option StragglerTimer}
      (ht : t = x.stragglerTimer ∨ ∀ t', t = some t' → t'.isSatisfied = false) :
    Rewrites E fw s e x { x with unsatisfyTimer := u, stragglerTimer := t }
  | miss {f : FaceId} {e : PitEntryId} {i : InterestPacket C S} {x : Entry C S} (u : Option ℕ) :
    Rewrites E fw (.miss f e i) e x
      { x.insertOrUpdateInRecord fw.now f i with unsatisfyTimer := u }
  | hit {f : FaceId} {e : PitEntryId} {d : Data C} {x : Entry C S} (t : ℕ) :
    Rewrites E fw (.hit f e d) e x
      { x with stragglerTimer := some ⟨t, true, d.freshnessPeriod⟩ }
  | satisfied {f : FaceId} {e : PitEntryId} {d : Data C} {x : Entry C S} (t : ℕ) :
    Rewrites E fw (.satisfied e f d) e x
      { x.clearInRecords.deleteOutRecord f with
        stragglerTimer := some ⟨t, true, d.freshnessPeriod⟩ }
  | nacked {f : FaceId} {e : PitEntryId} {reason : NackReason} {x : Entry C S} :
    Rewrites E fw (.nacked e f reason) e x (x.setIncomingNack f reason)
  | interest {f : FaceId} {e : PitEntryId} {x : Entry C S} {r : InRecord C S}
      {nonce : Option Nonce} (hr : x.pickInterest f = some r) :
    Rewrites E fw (.call (.sendInterest e f nonce)) e x
      (x.insertOrUpdateOutRecord fw.now f (Forwarder.outgoingInterest r nonce))
  | nack {f : FaceId} {e : PitEntryId} {x : Entry C S} {r : InRecord C S} {reason : NackReason}
      (hr : x.getInRecord f = some r) :
    Rewrites E fw (.call (.sendNack e f reason)) e x (x.deleteInRecord f)

lemma Rewrites.same : Rewrites E fw s e x x := .timers x.unsatisfyTimer (.inl rfl)

def Writes (E : Setting C S) (fw : Forwarder C S) (s : Stage C S) (l : List (Entry C S)) : Prop :=
  ∃ e f, l = fw.entries.modify e f ∧ ∀ x, fw.entries[e]? = some x → Rewrites E fw s e x (f x)

lemma Writes.same : Writes E fw s fw.entries :=
  ⟨0, id, (modify_id ..).symm, fun _ _ => .same⟩

lemma Writes.once {l : List (Entry C S)} {f : Entry C S → Entry C S} (hl : l = fw.entries)
    (h : ∀ x, fw.entries[e]? = some x → Rewrites E fw s e x (f x)) :
    Writes E fw s (l.modify e f) := ⟨e, f, by rw [hl], h⟩

lemma Writes.twice {l : List (Entry C S)} {f g : Entry C S → Entry C S} (hl : l = fw.entries)
    (h : ∀ x, fw.entries[e]? = some x → Rewrites E fw s e x (g (f x))) :
    Writes E fw s ((l.modify e f).modify e g) := by
  rw [modify_modify_eq]
  exact .once hl h

lemma entries_insertDeadNonceList :
    (fw.insertDeadNonceList E e isSatisfied freshness upstream).entries = fw.entries := by
  obtain ⟨l, h⟩ := fw.insertDeadNonceList_eq e isSatisfied freshness upstream
  rw [h]

lemma entries_onInterestFinalize : (fw.onInterestFinalize E e isSatisfied freshness).entries =
      fw.entries.modify e fun x => { x with unsatisfyTimer := none, stragglerTimer := none } :=
  congrArg (List.modify · e _) entries_insertDeadNonceList

lemma entries_onOutgoingData [DecidableEq C] {f : FaceId} :
    (fw.onOutgoingData E d f).entries = fw.entries := by
  rcases fw.onOutgoingData_cases d f with h | ⟨-, h⟩
  · rw [h]
  · rw [h]
    rfl

variable [DecidableEq C] [DecidableEq S]

/-- What one stage does to the entries. -/
lemma stage_writes (h : stage E fw s = some fw') :
    (∃ i, fw'.entries = fw.entries ++ [{ interest := i }]) ∨ Writes E fw s fw'.entries := by
  cases s with
  | advance d =>
    cases h
    exact .inr .same
  | loop inFace i =>
    cases h
    unfold Forwarder.onInterestLoop
    split <;> exact .inr .same
  | insert i =>
    cases h
    unfold Forwarder.insertPit
    split
    · exact .inr .same
    · exact .inl ⟨i, rfl⟩
  | cancel e =>
    cases h
    exact .inr (.once rfl fun x _ => .timers none (.inr nofun))
  | miss inFace e i =>
    cases h
    exact .inr (.twice rfl fun x _ => .miss _)
  | hit inFace e d =>
    cases h
    rw [entries_onOutgoingData]
    exact .inr (.once rfl fun x _ => .hit _)
  | call a =>
    cases a with
    | sendInterest e outFace nonce =>
      rcases Forwarder.onOutgoingInterest_cases h with rfl | ⟨x, r, hx, -, hr, rfl⟩
      · exact .inr .same
      refine .inr (.once rfl fun y hy => ?_)
      obtain rfl : x = y := some.inj (hx.symm.trans hy)
      exact .interest hr
    | sendNack e outFace reason =>
      cases h
      rcases fw.onOutgoingNack_cases e outFace reason with heq | ⟨x, r, hx, hr, heq⟩
      · rw [heq]
        exact .inr .same
      rw [heq]
      refine .inr (.once rfl fun y hy => ?_)
      obtain rfl : x = y := some.inj (hx.symm.trans hy)
      exact .nack hr
    | rejectPendingInterest e =>
      cases h
      rcases fw.onInterestReject_cases e with heq | heq
      · rw [heq]
        exact .inr .same
      · rw [heq]
        exact .inr (.twice rfl fun x _ => .timers none (.inr fun t ht => by cases ht; rfl))
  | satisfied e inFace d =>
    cases h
    exact .inr (.twice entries_insertDeadNonceList fun x _ => .satisfied _)
  | deliver d outFace =>
    cases h
    rw [entries_onOutgoingData]
    exact .inr .same
  | nacked e inFace reason =>
    cases h
    exact .inr (.once rfl fun x _ => .nacked)
  | unsatisfyFired e =>
    cases h
    exact .inr (.once rfl fun x _ => .timers none (.inl rfl))
  | unsatisfied e =>
    cases h
    rw [entries_onInterestFinalize]
    exact .inr (.once rfl fun x _ => .timers none (.inr nofun))
  | stragglerFired e =>
    obtain ⟨x, -, h⟩ := bind_eq_some_iff.mp h
    obtain ⟨t, -, h⟩ := bind_eq_some_iff.mp h
    cases h
    rw [entries_onInterestFinalize]
    exact .inr (.twice rfl fun x _ => .timers none (.inr nofun))

lemma stage_entry {x' : Entry C S} (h : stage E fw s = some fw') (hx' : fw'.entries[e]? = some x') :
    (∃ i, x' = { interest := i }) ∨ ∃ x, fw.entries[e]? = some x ∧ Rewrites E fw s e x x' := by
  rcases stage_writes h with ⟨i, heq⟩ | ⟨e', f, heq, hf⟩
  · rw [heq, getElem?_append] at hx'
    split at hx'
    · exact .inr ⟨x', hx', .same⟩
    · exact .inl ⟨i, mem_singleton.mp (mem_of_getElem? hx')⟩
  · rw [heq] at hx'
    rcases Forwarder.modifyEntry_cases hx' with ⟨-, hx⟩ | ⟨rfl, x, hx, rfl⟩
    · exact .inr ⟨x', hx, .same⟩
    · exact .inr ⟨x, hx, hf x hx⟩

lemma stage_entry_of (h : stage E fw s = some fw') (hx : fw.entries[e]? = some x) :
    ∃ x', fw'.entries[e]? = some x' ∧ Rewrites E fw s e x x' := by
  rcases stage_writes h with ⟨i, heq⟩ | ⟨e', f, heq, hf⟩
  · have hlt := (List.getElem?_eq_some_iff.mp hx).1
    exact ⟨x, by rw [heq, getElem?_append_left hlt, hx], .same⟩
  rw [heq]
  by_cases he : e = e'
  · subst he
    exact ⟨f x, Forwarder.getElem?_modifyEntry_self hx, hf x hx⟩
  · exact ⟨x, (Forwarder.getElem?_modifyEntry_of_ne he).trans hx, .same⟩

lemma stage_pit (h : stage E fw s = some fw') (hpit : e ∈ fw.pit) (hu : s ≠ .unsatisfied e)
    (hst : s ≠ .stragglerFired e) : e ∈ fw'.pit := by
  cases s with
  | advance | cancel | miss | nacked | unsatisfyFired =>
    cases h
    exact hpit
  | loop inFace i =>
    cases h
    exact ((fw.quiet_onInterestLoop inFace i).pit e (Set.notMem_empty e)).mpr hpit
  | insert i =>
    cases h
    unfold Forwarder.insertPit
    split
    · exact hpit
    · exact mem_append_left _ hpit
  | hit inFace e' d =>
    cases h
    exact ((Forwarder.quiet_onOutgoingData ..).pit e (Set.notMem_empty e)).mpr hpit
  | deliver d outFace =>
    cases h
    exact ((fw.quiet_onOutgoingData d outFace).pit e (Set.notMem_empty e)).mpr hpit
  | call a => rwa [(Forwarder.keeps_perform h).pit]
  | satisfied e' inFace d =>
    cases h
    rwa [(keeps_satisfied fw e' inFace d).pit]
  | unsatisfied e' =>
    cases h
    have he : e ≠ e' := fun he => hu (he ▸ rfl)
    exact ((fw.touches_onInterestFinalize e' false none).pit e he).mpr hpit
  | stragglerFired e' =>
    obtain ⟨x, -, h⟩ := bind_eq_some_iff.mp h
    obtain ⟨t, -, h⟩ := bind_eq_some_iff.mp h
    cases h
    have he : e ≠ e' := fun he => hst (he ▸ rfl)
    exact ((Forwarder.touches_onInterestFinalize ..).pit e he).mpr hpit

end Writes

section Sent

lemma sent_insertDeadNonceList :
    (fw.insertDeadNonceList E e isSatisfied freshness upstream).sent = fw.sent := by
  obtain ⟨l, h⟩ := fw.insertDeadNonceList_eq e isSatisfied freshness upstream
  rw [h]

lemma sent_onInterestFinalize : (fw.onInterestFinalize E e isSatisfied freshness).sent = fw.sent :=
  sent_insertDeadNonceList

lemma sent_satisfied : (satisfied E fw e inFace d).sent = fw.sent := sent_insertDeadNonceList

variable [DecidableEq C]

/-- The packets that a stage sends. -/
inductive Sends (E : Setting C S) (fw : Forwarder C S) : Stage C S → FaceId → Packet C S → Prop
  | loop {f : FaceId} {i : InterestPacket C S} : Sends E fw (.loop f i) f (.nack i .duplicate)
  | hit {f : FaceId} {e : PitEntryId} {d : Data C}
      (hlocal : E.violatesLocalhost f d.name = false) : Sends E fw (.hit f e d) f (.data d)
  | deliver {f : FaceId} {d : Data C}
      (hlocal : E.violatesLocalhost f d.name = false) : Sends E fw (.deliver d f) f (.data d)
  | interest {f : FaceId} {e : PitEntryId} {x : Entry C S} {r : InRecord C S}
      {nonce : Option Nonce} (hx : fw.entries[e]? = some x)
      (hscope : violatesScope E x f = false) (hr : x.pickInterest f = some r) :
    Sends E fw (.call (.sendInterest e f nonce)) f
      (.interest (Forwarder.outgoingInterest r nonce))
  | nack {f : FaceId} {e : PitEntryId} {x : Entry C S} {r : InRecord C S} {reason : NackReason}
      (hx : fw.entries[e]? = some x) (hr : x.getInRecord f = some r) :
    Sends E fw (.call (.sendNack e f reason)) f (.nack r.interest reason)

variable [DecidableEq S]

lemma sent_insertPit : (fw.insertPit i).1.sent = fw.sent := by
  unfold Forwarder.insertPit
  split <;> rfl

lemma stage_sent {s : Stage C S} (h : stage E fw s = some fw') :
    fw'.sent = fw.sent ∨ ∃ f p, fw'.sent = fw.sent ++ [(f, p)] ∧ Sends E fw s f p := by
  cases s with
  | advance | cancel | miss | nacked | unsatisfyFired =>
    cases h
    exact .inl rfl
  | loop inFace i =>
    cases h
    unfold Forwarder.onInterestLoop
    split
    · exact .inl rfl
    · exact .inr ⟨_, _, rfl, .loop⟩
  | insert i =>
    cases h
    exact .inl sent_insertPit
  | hit inFace e d =>
    cases h
    rcases (fw.setStragglerTimer e true d.freshnessPeriod).onOutgoingData_cases d inFace
      with heq | ⟨hlocal, heq⟩
    · rw [heq]
      exact .inl rfl
    · exact .inr ⟨_, _, congrArg Forwarder.sent heq, .hit hlocal⟩
  | call a =>
    cases a with
    | sendInterest e outFace nonce =>
      rcases Forwarder.onOutgoingInterest_cases h with rfl | ⟨x, r, hx, hscope, hr, rfl⟩
      · exact .inl rfl
      · exact .inr ⟨_, _, rfl, .interest hx hscope hr⟩
    | sendNack e outFace reason =>
      cases h
      rcases fw.onOutgoingNack_cases e outFace reason with heq | ⟨x, r, hx, hr, heq⟩
      · exact .inl (congrArg Forwarder.sent heq)
      · exact .inr ⟨_, _, congrArg Forwarder.sent heq, .nack hx hr⟩
    | rejectPendingInterest e =>
      cases h
      rcases fw.onInterestReject_cases e with heq | heq
      · exact .inl (congrArg Forwarder.sent heq)
      · rw [heq]
        exact .inl rfl
  | satisfied e inFace d =>
    cases h
    exact .inl sent_satisfied
  | deliver d outFace =>
    cases h
    rcases fw.onOutgoingData_cases d outFace with heq | ⟨hlocal, heq⟩
    · exact .inl (congrArg Forwarder.sent heq)
    · exact .inr ⟨_, _, congrArg Forwarder.sent heq, .deliver hlocal⟩
  | unsatisfied e =>
    cases h
    exact .inl sent_onInterestFinalize
  | stragglerFired e =>
    obtain ⟨x, -, h⟩ := bind_eq_some_iff.mp h
    obtain ⟨t, -, h⟩ := bind_eq_some_iff.mp h
    cases h
    exact .inl sent_onInterestFinalize

end Sent

def toFace (f : FaceId) : Strategy C S Unit Unit where
  afterReceiveInterest _ _ _ e _ := some ((), [.sendInterest e f none])
  beforeSatisfyInterest _ _ _ _ _ := some ((), [])
  beforeExpirePendingInterest _ _ _ := some ((), [])
  afterReceiveNack _ _ _ _ _ _ := some ((), [])
  own _ _ _ := some ((), [])

def localSetting : Setting ℕ Unit where
  localhost := 0
  localhop := 1
  isLocal f := f = 1
  isMultiAccess _ := false
  mustBeFresh _ := false
  matchesData i d := i.name = d.name
  deadNonceLifetime := 6000

def exchange : List (Event ℕ Unit Unit) :=
  [.interest 1 ⟨⟨[5], ()⟩, 7, none⟩ false none, .data 2 ⟨[5], none⟩ [0]]

end NfdGateway.Fw
