import NfdGateway.Fw.Stages

/-! The courses that an event can take through the pipelines, with their stages. -/
namespace NfdGateway.Fw

open Transition Option

variable {C S σ ω : Type} [DecidableEq C] [DecidableEq S]

inductive Course (E : Setting C S) (strategy : Strategy C S σ ω) (n : Node C S σ) :
    Event C S ω → Node C S σ → Prop
  | advance {d} : Course E strategy n (.advance d) (n.withFw { n.fw with now := n.fw.now + d })
  | interestIgnored {inFace i isDeadNonce csMatch}
      (hs : stagesOf E strategy n (.interest inFace i isDeadNonce csMatch) = []) :
    Course E strategy n (.interest inFace i isDeadNonce csMatch) n
  | deadNonce {inFace i isDeadNonce csMatch} (hlocal : E.violatesLocalhost inFace i.name = false)
      (hs : stagesOf E strategy n (.interest inFace i isDeadNonce csMatch) = [.loop inFace i]) :
    Course E strategy n (.interest inFace i isDeadNonce csMatch)
      (n.withFw (n.fw.onInterestLoop E inFace i))
  | duplicateNonce {inFace i isDeadNonce csMatch fw e} {x : Entry C S}
      (hi : n.fw.insertPit i = (fw, e)) (hx : fw.entries[e]? = some x)
      (hdup : x.findDuplicateNonce i.nonce inFace ≠ {})
      (hlocal : E.violatesLocalhost inFace i.name = false)
      (hs : stagesOf E strategy n (.interest inFace i isDeadNonce csMatch) =
        [.insert i, .loop inFace i]) :
    Course E strategy n (.interest inFace i isDeadNonce csMatch)
      (n.withFw (fw.onInterestLoop E inFace i))
  | hit {inFace i isDeadNonce d fw e} {x : Entry C S}
      (hi : n.fw.insertPit i = (fw, e)) (hx : fw.entries[e]? = some x) (hin : x.inRecords = [])
      (hd : E.matchesData i.toInterest d = true)
      (hs : stagesOf E strategy n (.interest inFace i isDeadNonce (some d)) =
        [.insert i, .cancel e, .hit inFace e d]) :
    Course E strategy n (.interest inFace i isDeadNonce (some d))
      ((n.withFw (fw.cancelUnsatisfyAndStragglerTimer e)).onContentStoreHit E inFace e d)
  | miss {inFace i isDeadNonce csMatch fw e} {x : Entry C S} {n'}
      (hi : n.fw.insertPit i = (fw, e)) (hx : fw.entries[e]? = some x)
      (h : (n.withFw (fw.cancelUnsatisfyAndStragglerTimer e)).onContentStoreMiss E strategy inFace e
        i = some n')
      (hlocal : E.violatesLocalhost inFace i.name = false)
      (hs : stagesOf E strategy n (.interest inFace i isDeadNonce csMatch) = .insert i ::
        .cancel e :: missStages strategy (n.withFw (fw.cancelUnsatisfyAndStragglerTimer e)) inFace e
          i) :
    Course E strategy n (.interest inFace i isDeadNonce csMatch) n'
  | dataIgnored {inFace d pitMatches}
      (hs : stagesOf E strategy n (.data inFace d pitMatches) = []) :
    Course E strategy n (.data inFace d pitMatches) n
  | data {inFace d pitMatches n₁ downstreams} (hm : n.fw.MayMatch E d pitMatches)
      (h : pitMatches.foldlM (Node.satisfy E strategy inFace d) (n, []) = some (n₁, downstreams))
      (hs : stagesOf E strategy n (.data inFace d pitMatches) =
        satisfyStages E strategy inFace d n pitMatches ++
          (downstreams.filter (· ≠ inFace)).map (.deliver d)) :
    Course E strategy n (.data inFace d pitMatches) (n₁.withFw
      ((downstreams.filter (· ≠ inFace)).foldl (fun fw f => fw.onOutgoingData E d f) n₁.fw))
  | nackIgnored {inFace i reason} (hs : stagesOf E strategy n (.nack inFace i reason) = []) :
    Course E strategy n (.nack inFace i reason) n
  | nack {inFace i reason e fw n'} (he : e ∈ n.fw.pit)
      (hfw : fw = n.fw.modifyEntry e fun x => x.setIncomingNack inFace reason)
      (h : (n.withFw fw).dispatchToStrategy E
        (strategy.afterReceiveNack fw inFace i reason e n.strategy) = some n')
      (hs : stagesOf E strategy n (.nack inFace i reason) = .nacked e inFace reason ::
        calls (strategy.afterReceiveNack fw inFace i reason e n.strategy)) :
    Course E strategy n (.nack inFace i reason) n'
  | unsatisfyTimer {e x t fw n₁} (hx : n.fw.entries[e]? = some x) (ht : x.unsatisfyTimer = some t)
      (hfw : fw = n.fw.modifyEntry e fun x => { x with unsatisfyTimer := none })
      (h : (n.withFw fw).dispatchToStrategy E
        (strategy.beforeExpirePendingInterest fw e n.strategy) = some n₁) :
    Course E strategy n (.unsatisfyTimer e) (n₁.withFw (n₁.fw.onInterestFinalize E e false none))
  | stragglerTimer {e x t} (hx : n.fw.entries[e]? = some x) (ht : x.stragglerTimer = some t) :
    Course E strategy n (.stragglerTimer e)
      (n.withFw ((n.fw.modifyEntry e fun x => { x with stragglerTimer := none }).onInterestFinalize
        E e t.isSatisfied t.dataFreshnessPeriod))
  | strategy {ev n'} (h : n.dispatchToStrategy E (strategy.own n.fw ev n.strategy) = some n') :
    Course E strategy n (.strategy ev) n'

variable {E : Setting C S} {strategy : Strategy C S σ ω} {fw fw' : Forwarder C S}
  {n n' n₀ : Node C S σ} {inFace : FaceId} {i : InterestPacket C S} {d : Data C}
  {Ok : Node C S σ → Event C S ω → Prop} {ev : Event C S ω} {r : Option (σ × List Action)}
  {pitMatches : List PitEntryId} {l' : List FaceId}

lemma course_of_interest {isDeadNonce : Bool} {csMatch : Option (Data C)}
    (hcs : csMatch.all (E.matchesData i.toInterest) = true)
    (h : n.onIncomingInterest E strategy inFace i isDeadNonce csMatch = some n') :
    Course E strategy n (.interest inFace i isDeadNonce csMatch) n' := by
  unfold Node.onIncomingInterest at h
  split at h
  next hviol =>
    cases h
    exact .interestIgnored (if_pos hviol)
  rename_i hviol
  have hlocal := Bool.eq_false_of_not_eq_true hviol
  split at h
  next hdead =>
    cases h
    exact .deadNonce hlocal ((if_neg hviol).trans (if_pos hdead))
  rename_i hdead
  have hs : stagesOf E strategy n (.interest inFace i isDeadNonce csMatch) = .insert i :: _ :=
    (if_neg hviol).trans (if_neg hdead)
  obtain ⟨x, hx, h⟩ := bind_eq_some_iff.mp h
  rw [entryStages, hx] at hs
  dsimp only at hs
  split at h
  next hdup =>
    cases h
    rw [if_pos hdup] at hs
    exact .duplicateNonce rfl hx hdup hlocal hs
  rename_i hdup
  rw [if_neg hdup] at hs
  split at h
  next hin =>
    rw [if_pos hin] at hs
    exact .miss rfl hx h hlocal hs
  rename_i hin
  rw [if_neg hin] at hs
  cases csMatch with
  | none => exact .miss rfl hx h hlocal hs
  | some d =>
    cases h
    exact .hit rfl hx (by simpa [Entry.hasInRecords] using hin) (by simpa using hcs) hs

lemma course_of_nack {reason : NackReason}
    (h : n.onIncomingNack E strategy inFace i reason = some n') :
    Course E strategy n (.nack inFace i reason) n' := by
  unfold Node.onIncomingNack at h
  have hs : stagesOf E strategy n (.nack inFace i reason) = _ := stagesOf.eq_4 ..
  split at h
  next hmulti =>
    cases h
    exact .nackIgnored (if_pos hmulti)
  rename_i hmulti
  rw [if_neg hmulti] at hs
  split at h
  next hnone =>
    cases h
    rw [hnone] at hs
    exact .nackIgnored hs
  rename_i e he
  rw [he] at hs
  dsimp only at hs
  split at h
  next hnone =>
    cases h
    rw [hnone] at hs
    exact .nackIgnored hs
  rename_i r hr
  rw [hr] at hs
  split at h
  next hnonce =>
    cases h
    exact .nackIgnored (hs.trans (if_pos hnonce))
  next hnonce =>
    exact .nack (Forwarder.findPit_eq_some he).1 rfl h (hs.trans (if_neg hnonce))

lemma course_of_step (h : step E strategy n ev = some n') : Course E strategy n ev n' := by
  cases ev with
  | advance d =>
    cases h
    exact .advance
  | interest inFace i isDeadNonce csMatch =>
    simp only [step] at h
    split at h
    next hguard =>
      exact course_of_interest hguard.2 h
    · cases h
  | data inFace d pitMatches =>
    simp only [step, Node.onIncomingData] at h
    split at h
    next hguard =>
      split at h
      next hviol =>
        cases h
        exact .dataIgnored (if_pos hviol)
      rename_i hviol
      obtain ⟨⟨n₁, downstreams⟩, hloop, h⟩ := bind_eq_some_iff.mp h
      cases h
      refine .data hguard.2 hloop ?_
      rw [stagesOf, if_neg hviol, hloop]
    · cases h
  | nack inFace i reason =>
    simp only [step] at h
    split at h
    · exact course_of_nack h
    · cases h
  | unsatisfyTimer e =>
    obtain ⟨x, hx, h⟩ := bind_eq_some_iff.mp h
    obtain ⟨t, ht, h⟩ := bind_eq_some_iff.mp h
    split at h
    · obtain ⟨n₁, hcall, h⟩ := bind_eq_some_iff.mp h
      cases h
      exact .unsatisfyTimer hx ht rfl hcall
    · cases h
  | stragglerTimer e =>
    obtain ⟨x, hx, h⟩ := bind_eq_some_iff.mp h
    obtain ⟨t, ht, h⟩ := bind_eq_some_iff.mp h
    split at h
    · cases h
      exact .stragglerTimer hx ht
    · cases h
  | strategy ev => exact .strategy h

lemma path_calls {acts : List Action} (h : acts.foldlM (Forwarder.perform E) fw = some fw') :
    Path (stage E) (Stage.Fits E) fw (acts.map .call) fw' := by
  induction acts generalizing fw with
  | nil =>
    cases h
    exact .nil
  | cons a acts ih =>
    obtain ⟨fw₁, ha, hacts⟩ := bind_eq_some_iff.mp h
    exact .cons trivial ha (ih hacts)

lemma path_dispatch (h : n.dispatchToStrategy E r = some n') :
    Path (stage E) (Stage.Fits E) n.fw (calls r) n'.fw := by
  obtain ⟨acts, rfl, hacts⟩ := dispatch_eq_some h
  exact path_calls hacts

lemma path_satisfy {l : List FaceId} (hm : ∀ e ∈ pitMatches, e ∈ n.fw.pit ∧
      ∃ x, n.fw.entries[e]? = some x ∧ E.matchesData x.interest.toInterest d = true)
    (h : pitMatches.foldlM (Node.satisfy E strategy inFace d) (n, l) = some (n', l')) :
    Path (stage E) (Stage.Fits E) n.fw (satisfyStages E strategy inFace d n pitMatches) n'.fw := by
  induction pitMatches generalizing n l with
  | nil =>
    cases h
    exact .nil
  | cons e rest ih =>
    obtain ⟨⟨n₂, l₂⟩, hone, hrest⟩ := bind_eq_some_iff.mp h
    obtain ⟨l₃, hsame⟩ := satisfy_faces hone
    obtain ⟨x, n₁, hx, hcall, rfl, -⟩ := satisfy_eq_some hone
    obtain ⟨acts, -, hacts⟩ := dispatch_eq_some hcall
    have hkeep₁ : Keeps n.fw n₁.fw :=
      (n.fw.keeps_cancelTimers e).trans (Forwarder.keeps_calls hacts)
    have hkeep₂ : Keeps n.fw (satisfied E n₁.fw e inFace d) := hkeep₁.trans (keeps_satisfied ..)
    have hmatch : ∀ {fw'}, Keeps n.fw fw' → ∀ e' ∈ e :: rest, e' ∈ fw'.pit ∧
        ∃ x, fw'.entries[e']? = some x ∧ E.matchesData x.interest.toInterest d = true := by
      intro fw' hk e' he'
      obtain ⟨hpit, x, hx, hd⟩ := hm e' he'
      obtain ⟨x', hx', hi⟩ := hk.entry hx
      exact ⟨hk.pit ▸ hpit, x', hx', hi ▸ hd⟩
    have hloop := ih (n := n₁.withFw (satisfied E n₁.fw e inFace d))
      (fun e' he' => hmatch hkeep₂ e' (.tail _ he')) hrest
    rw [satisfyStages, hsame]
    refine .cons trivial rfl ((path_dispatch hcall).append ?_)
    exact .cons (hmatch hkeep₁ e (.head _)) rfl hloop

lemma path_deliver (fs : List FaceId) (fw : Forwarder C S) :
    Path (stage E) (Stage.Fits E) fw (fs.map (.deliver d))
      (fs.foldl (fun fw f => fw.onOutgoingData E d f) fw) := by
  induction fs generalizing fw with
  | nil => exact .nil
  | cons f fs ih => exact .cons trivial rfl (ih _)

lemma inserted {e : PitEntryId} {x : Entry C S} (hi : fw.insertPit i = (fw', e))
    (hx : fw'.entries[e]? = some x) :
    e ∈ fw'.pit ∧ stage E fw (.insert i) = some fw' ∧ x.interest.toInterest = i.toInterest := by
  obtain ⟨hpit, ⟨y, hy, hyi⟩, -⟩ := fw.insertPit_spec i
  rw [hi] at hpit hy
  obtain rfl : x = y := some.inj (hx.symm.trans hy)
  exact ⟨hpit, congrArg (fun r : Forwarder C S × PitEntryId => some r.1) hi, hyi⟩

lemma path_of_step (h : step E strategy n ev = some n') :
    Path (stage E) (Stage.Fits E) n.fw (stagesOf E strategy n ev) n'.fw := by
  cases course_of_step h with
  | advance => exact .single trivial rfl
  | interestIgnored hs | dataIgnored hs | nackIgnored hs =>
    rw [hs]
    exact .nil
  | deadNonce hlocal hs =>
    rw [hs]
    exact .single hlocal rfl
  | duplicateNonce hi _ _ hlocal hs =>
    rw [hs]
    exact .cons trivial rfl (.single hlocal (hi ▸ rfl))
  | @hit _ i _ _ fw e x hi hx hin hd hs =>
    obtain ⟨hpit, hx', hxi⟩ := inserted hi hx
    rw [hs]
    exact .cons trivial hx' (.cons trivial rfl (.single
      ⟨hpit, _, Forwarder.getElem?_modifyEntry_self hx, hxi ▸ hd, hin⟩ rfl))
  | miss hi hx hcall hlocal hs =>
    obtain ⟨hpit, hx', hxi⟩ := inserted hi hx
    rw [hs]
    exact .cons trivial hx' (.cons trivial rfl (.cons
      ⟨hlocal, hpit, _, Forwarder.getElem?_modifyEntry_self hx, hxi, rfl⟩ rfl
      (path_dispatch hcall)))
  | data hm hloop hs =>
    rw [hs]
    refine Path.append (path_satisfy ?_ hloop) (path_deliver _ _)
    intro e he
    obtain ⟨hpit, hd⟩ := hm.2 e he
    obtain ⟨x, hx, hd⟩ := (Option.any_eq_true _ _).mp hd
    exact ⟨hpit, x, hx, hd⟩
  | nack _ hfw hcall hs =>
    rw [hs]
    exact .cons trivial (hfw ▸ rfl) (path_dispatch hcall)
  | unsatisfyTimer _ _ hfw hcall =>
    subst hfw
    exact .cons trivial rfl ((path_dispatch hcall).append (.single trivial rfl))
  | stragglerTimer hx ht =>
    exact .single trivial (bind_eq_some_iff.mpr ⟨_, hx, bind_eq_some_iff.mpr ⟨_, ht, rfl⟩⟩)
  | strategy hcall => exact path_dispatch hcall

lemma reach_stages
    (h : Reach (step E strategy) Ok n₀ n) : Reach (stage E) (Stage.Fits E) n₀.fw n.fw := by
  induction h with
  | init => exact .init
  | step _ _ hs ih => exact (path_of_step hs).reach ih

def stagesOfRun (E : Setting C S) (strategy : Strategy C S σ ω) :
    Node C S σ → List (Event C S ω) → List (Stage C S)
  | _, [] => []
  | n, ev :: evs =>
    stagesOf E strategy n ev ++
      match step E strategy n ev with
      | some n' => stagesOfRun E strategy n' evs
      | none => []

lemma path_stages {evs : List (Event C S ω)} (h : Path (step E strategy) Ok n evs n') :
    Path (stage E) (Stage.Fits E) n.fw (stagesOfRun E strategy n evs) n'.fw := by
  induction h with
  | nil => exact .nil
  | cons _ hs _ ih =>
    rw [stagesOfRun, hs]
    exact (path_of_step hs).append ih

end NfdGateway.Fw
