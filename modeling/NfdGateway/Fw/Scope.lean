import NfdGateway.Fw.Courses

/-! The scopes `/localhost` and `/localhop`, whatever the strategies ask for. -/
namespace NfdGateway.Fw

open Transition List Option

variable {C S σ ω : Type} [DecidableEq C] {E : Setting C S} {strategy : Strategy C S σ ω}
  {fw fw' : Forwarder C S} {n : Node C S σ} {e : PitEntryId} {x : Entry C S} {s : Stage C S}
  {outFace : FaceId}

def Packet.name : Packet C S → Name C
  | .interest i => i.name
  | .data d => d.name
  | .nack i _ => i.name

lemma violatesLocalhost_of_violatesScope (h : violatesScope E x outFace = false) :
    E.violatesLocalhost outFace x.interest.name = false := by
  unfold violatesScope at h
  unfold Setting.violatesLocalhost
  split at h
  next hlocal =>
    simp [hlocal]
  split at h
  · cases h
  next hname =>
    simp [hname]

lemma local_inRecord {f : FaceId} (h : violatesScope E x f = false)
    (hname : [E.localhop] <+: x.interest.name) (hf : E.isLocal f = false) :
    ∃ r ∈ x.inRecords, E.isLocal r.face = true := by
  unfold violatesScope at h
  simp only [hf, Bool.false_eq_true, if_false, isPrefixOf_iff_prefix.mpr hname, if_true] at h
  split at h
  · cases h
  · simpa using h

/-- What the scope of Interests and Nacks rests on: in-records are for the Interest of their
entry, and came in on a face that is in its scope. -/
def InScope (E : Setting C S) (fw : Forwarder C S) : Prop :=
  ∀ (e : PitEntryId) (x : Entry C S), fw.entries[e]? = some x → ∀ r ∈ x.inRecords,
    r.interest.toInterest = x.interest.toInterest ∧
      E.violatesLocalhost r.face x.interest.name = false

lemma InScope.picked {r : InRecord C S} (h : InScope E fw) (newNonce : Option Nonce)
    (hx : fw.entries[e]? = some x) (hr : x.pickInterest outFace = some r) :
    (Forwarder.outgoingInterest r newNonce).toInterest = x.interest.toInterest := by
  have hrec := (h e x hx r (MaxElement.maxElement_mem hr)).1
  unfold Forwarder.outgoingInterest
  split <;> exact hrec

lemma InScope.sends {f : FaceId} {p : Packet C S} (h : InScope E fw) (hf : s.Fits E fw)
    (hs : Sends E fw s f p) : E.violatesLocalhost f p.name = false := by
  cases hs with
  | loop => exact hf
  | hit hlocal | deliver hlocal => exact hlocal
  | @interest f e x r nonce hx hscope hr =>
    have hname := congrArg Interest.name (h.picked nonce hx hr)
    rw [Packet.name, hname]
    exact violatesLocalhost_of_violatesScope hscope
  | nack hx hr =>
    obtain ⟨hmem, rfl⟩ := getInRecord_eq_some hr
    obtain ⟨hi, hlocal⟩ := h _ _ hx _ hmem
    have hname := congrArg Interest.name hi
    rw [Packet.name, hname]
    exact hlocal

variable [DecidableEq S]

lemma InScope.stage (h : InScope E fw) (hf : s.Fits E fw) (hs : stage E fw s = some fw') :
    InScope E fw' := by
  intro e x' hx' r hr
  rcases stage_entry hs hx' with ⟨i, rfl⟩ | ⟨x, hx, hrewrite⟩
  · cases hr
  cases hrewrite with
  | timers | hit | nacked | interest => exact h e x hx r hr
  | satisfied => cases hr
  | nack => exact h e x hx r (mem_of_mem_eraseP hr)
  | miss =>
    obtain ⟨hlocal, -, y, hy, hi, -⟩ := hf
    obtain rfl : y = x := some.inj (hy.symm.trans hx)
    rcases mem_inRecords_insertOrUpdate hr with hold | rfl
    · exact h e y hx r hold
    · have hname : y.interest.name = _ := congrArg Interest.name hi
      exact ⟨hi.symm, hname ▸ hlocal⟩

lemma inScope_of_reach (h : Reach (Fw.stage E) (Stage.Fits E) {} fw) : InScope E fw := by
  refine h.invariant ?_ fun _ _ _ hn hf hs => hn.stage hf hs
  intro e x hx
  cases hx

lemma sent_of_reach (h : Reach (Fw.stage E) (Stage.Fits E) {} fw) :
    ∀ p ∈ fw.sent, E.violatesLocalhost p.1 p.2.name = false := by
  induction h with
  | init =>
    intro p hp
    cases hp
  | step hr hf hs ih =>
    rcases stage_sent hs with heq | ⟨f, p, heq, hsend⟩
    · rw [heq]
      exact ih
    rw [heq]
    intro q hq
    rcases mem_append.mp hq with hq | hq
    · exact ih q hq
    · obtain rfl := mem_singleton.mp hq
      exact (inScope_of_reach hr).sends hf hsend

/-- Whatever the strategies ask for: nothing under `/localhost` is sent on a non-local face, and
when a stage of any event sends an Interest under `/localhop` on a non-local face, the PIT entry
it is sent for has an in-record from a local face. -/
theorem scope_respected (E : Setting C S) (strategy : Strategy C S σ ω) (st : σ)
    (h : Reach (step E strategy) Any ⟨{}, st⟩ n) :
    (∀ f p, (f, p) ∈ n.fw.sent → [E.localhost] <+: p.name → E.isLocal f = true) ∧
    ∀ ev n', step E strategy n ev = some n' →
      ∀ before s after fw fw' f i, stagesOf E strategy n ev = before ++ s :: after →
        run (stage E) n.fw before = some fw → stage E fw s = some fw' →
        fw'.sent = fw.sent ++ [(f, .interest i)] → [E.localhop] <+: i.name →
        E.isLocal f = false →
        ∃ e nonce x, s = .call (.sendInterest e f nonce) ∧ fw.entries[e]? = some x ∧
          x.interest.toInterest = i.toInterest ∧ ∃ r ∈ x.inRecords, E.isLocal r.face = true := by
  have hreach := reach_stages h
  constructor
  · intro f p hp hname
    have hlocal := sent_of_reach hreach _ hp
    simpa [Setting.violatesLocalhost, isPrefixOf_iff_prefix.mpr hname] using hlocal
  intro ev n' hstep before s after fw fw' f i hstages hbefore hstage hsent hname hf
  -- the forwarder as the stage finds it
  have hpath := path_of_step hstep
  rw [hstages] at hpath
  obtain ⟨t, hpre, hpost⟩ := hpath.split
  obtain rfl : t = fw := some.inj (hpre.run_eq.symm.trans hbefore)
  have hscope := inScope_of_reach (hpre.reach hreach)
  rcases stage_sent hstage with heq | ⟨f', p, heq, hsend⟩
  · rw [heq] at hsent
    simp at hsent
  obtain ⟨rfl, rfl⟩ : f' = f ∧ p = .interest i := by
    rw [heq] at hsent
    simpa using hsent
  cases hsend with
  | @interest f e x r nonce hx hviol hr =>
    have hi := hscope.picked nonce hx hr
    refine ⟨_, _, _, rfl, hx, hi.symm, local_inRecord hviol ?_ hf⟩
    rw [← congrArg Interest.name hi]
    exact hname

/-- An application on face 1, which is local, asks under `/localhop`; the Interest is forwarded to
a neighbor. -/
theorem scope_respected_localhop :
    ∃ n, Reach (step localSetting (toFace 2)) Any ⟨{}, ()⟩ n ∧
      (2, Packet.interest ⟨⟨[1, 5], ()⟩, 7, none⟩) ∈ n.fw.sent ∧
      ∀ f p, (f, p) ∈ n.fw.sent → [localSetting.localhost] <+: p.name →
        localSetting.isLocal f = true := by
  obtain ⟨n, hrun, hsent⟩ : ∃ n, run (step localSetting (toFace 2)) ⟨{}, ()⟩
      [.interest 1 ⟨⟨[1, 5], ()⟩, 7, none⟩ false none] = some n ∧
      (2, Packet.interest ⟨⟨[1, 5], ()⟩, 7, none⟩) ∈ n.fw.sent := ⟨_, rfl, by decide⟩
  have hreach := reach_of_run .init hrun
  exact ⟨n, hreach, hsent, (scope_respected localSetting (toFace 2) () hreach).1⟩

end NfdGateway.Fw
