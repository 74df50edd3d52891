import NfdGateway.Fw.Courses

/-! The unsatisfy and the straggler timer: between pipelines every PIT entry waits for exactly one
of them, and it is finalised when that one fires. -/
namespace NfdGateway.Fw

open Transition List Option Function

variable {C S σ ω : Type}

/-- Exactly one of the two timers is pending. -/
def OneTimer (unsatisfy : Option ℕ) (straggler : Option StragglerTimer) : Prop :=
  unsatisfy.isSome = !straggler.isSome

def NoTimer (unsatisfy : Option ℕ) (straggler : Option StragglerTimer) : Prop :=
  unsatisfy = none ∧ straggler = none

/-- The entries `gone` have been finalised; of the others, each is in the PIT once and its timers
satisfy `P`. Inside a pipeline `P` differs from `OneTimer` for the entry that is worked on. -/
structure Timed (gone : List PitEntryId)
    (P : PitEntryId → Option ℕ → Option StragglerTimer → Prop) (fw : Forwarder C S) : Prop where
  once : ∀ e < fw.entries.length, gone.count e + fw.pit.count e = 1
  fresh : ∀ e ≥ fw.entries.length, e ∉ gone ∧ e ∉ fw.pit
  pending : ∀ (e : PitEntryId) (x : Entry C S), fw.entries[e]? = some x → e ∈ fw.pit →
    P e x.unsatisfyTimer x.stragglerTimer
  left : ∀ (e : PitEntryId) (x : Entry C S), fw.entries[e]? = some x → e ∉ fw.pit →
    NoTimer x.unsatisfyTimer x.stragglerTimer

variable {E : Setting C S} {strategy : Strategy C S σ ω} {fw fw' : Forwarder C S}
  {n n' : Node C S σ} {e : PitEntryId} {d : Data C} {inFace : FaceId} {i : InterestPacket C S}
  {gone : List PitEntryId} {P : PitEntryId → Option ℕ → Option StragglerTimer → Prop}
  {Q R : Option ℕ → Option StragglerTimer → Prop} {f : Entry C S → Entry C S}

lemma Timed.rewrite (h : Timed gone P fw)
    (hin : ∀ x, fw.entries[e]? = some x → e ∈ fw.pit → P e x.unsatisfyTimer x.stragglerTimer →
      Q (f x).unsatisfyTimer (f x).stragglerTimer)
    (hout : e ∉ fw.pit → ∀ x, (f x).unsatisfyTimer = x.unsatisfyTimer ∧
      (f x).stragglerTimer = x.stragglerTimer) :
    Timed gone (update P e Q) (fw.modifyEntry e f) := by
  refine ⟨?_, ?_, ?_, ?_⟩
  · simpa [Forwarder.modifyEntry] using h.once
  · simpa [Forwarder.modifyEntry] using h.fresh
  · intro e' x' hx' hpit'
    rcases Forwarder.modifyEntry_cases hx' with ⟨he, hx⟩ | ⟨rfl, x, hx, rfl⟩
    · rw [update_of_ne he]
      exact h.pending e' x' hx hpit'
    · rw [update_self]
      exact hin x hx hpit' (h.pending e' x hx hpit')
  · intro e' x' hx' hpit'
    rcases Forwarder.modifyEntry_cases hx' with ⟨-, hx⟩ | ⟨rfl, x, hx, rfl⟩
    · exact h.left e' x' hx hpit'
    · rw [(hout hpit' x).1, (hout hpit' x).2]
      exact h.left e' x hx hpit'

lemma Timed.modifyEntry (h : Timed gone P fw) (hpit : e ∈ fw.pit)
    (hf : ∀ x : Entry C S, fw.entries[e]? = some x → P e x.unsatisfyTimer x.stragglerTimer →
      Q (f x).unsatisfyTimer (f x).stragglerTimer) :
    Timed gone (update P e Q) (fw.modifyEntry e f) :=
  h.rewrite (fun x hx _ => hf x hx) fun hout => absurd hpit hout

lemma Timed.same (h : Timed gone P fw) (e : PitEntryId)
    (hf : ∀ x, (f x).unsatisfyTimer = x.unsatisfyTimer ∧ (f x).stragglerTimer = x.stragglerTimer) :
    Timed gone P (fw.modifyEntry e f) := by
  have hsame := h.rewrite (e := e) (Q := P e) (fun x _ _ hx => ?_) fun _ => hf
  · rwa [update_eq_self] at hsame
  · rwa [(hf x).1, (hf x).2]

lemma Timed.nodup (h : Timed gone P fw) : fw.pit.Nodup := by
  rw [nodup_iff_count_le_one]
  intro e
  by_cases he : e < fw.entries.length
  · have hcount := h.once e he
    omega
  · rw [count_eq_zero.mpr (h.fresh e (Nat.le_of_not_lt he)).2]
    exact Nat.zero_le 1

lemma Timed.mem_pit {x : Entry C S} (h : Timed gone P fw) (hx : fw.entries[e]? = some x)
    (ht : ¬ NoTimer x.unsatisfyTimer x.stragglerTimer) : e ∈ fw.pit := by
  by_contra hpit
  exact ht (h.left e x hx hpit)

lemma Timed.send (h : Timed gone P fw) (face : FaceId) (p : Packet C S) :
    Timed gone P (fw.send face p) := ⟨h.once, h.fresh, h.pending, h.left⟩

lemma Timed.insertDeadNonceList (h : Timed gone P fw) (e : PitEntryId) (isSatisfied : Bool)
    (freshness : Option ℕ) (upstream : Option FaceId) :
    Timed gone P (fw.insertDeadNonceList E e isSatisfied freshness upstream) := by
  obtain ⟨l, heq⟩ := fw.insertDeadNonceList_eq e isSatisfied freshness upstream
  rw [heq]
  exact ⟨h.once, h.fresh, h.pending, h.left⟩

lemma Timed.cancel (h : Timed gone P fw) (hpit : e ∈ fw.pit) :
    Timed gone (update P e NoTimer) (fw.cancelUnsatisfyAndStragglerTimer e) :=
  h.modifyEntry hpit fun _ _ _ => ⟨rfl, rfl⟩

lemma Timed.straggler (h : Timed gone P fw) (hpit : e ∈ fw.pit) (hP : ∀ u s, P e u s → u = none)
    (hQ : ∀ t, Q none (some t)) (isSatisfied : Bool) (freshness : Option ℕ) :
    Timed gone (update P e Q) (fw.setStragglerTimer e isSatisfied freshness) := by
  refine h.modifyEntry hpit ?_
  intro x _ hx
  rw [hP _ _ hx]
  exact hQ _

lemma Timed.finalize (h : Timed gone (update P e Q) fw) (hpit : e ∈ fw.pit)
    (isSatisfied : Bool) (freshness : Option ℕ) :
    Timed (gone ++ [e]) P (fw.onInterestFinalize E e isSatisfied freshness) := by
  have hpit' : e ∈ (fw.insertDeadNonceList E e isSatisfied freshness none).pit := by
    rwa [(fw.keeps_insertDeadNonceList e isSatisfied freshness none).pit]
  have hcancel := (h.insertDeadNonceList e isSatisfied freshness none).cancel hpit'
  rw [update_idem] at hcancel
  have hmem : e ∈ ((fw.insertDeadNonceList E e isSatisfied freshness
    none).cancelUnsatisfyAndStragglerTimer e).pit := hpit'
  refine ⟨?_, ?_, ?_, ?_⟩
  · intro e' he'
    have hcount := hcancel.once e' he'
    simp only [Forwarder.onInterestFinalize, count_append, count_singleton, count_erase, beq_iff_eq]
    by_cases he : e = e'
    · subst he
      have hpos := count_pos_iff.mpr hmem
      simp only [if_true]
      omega
    · simp only [if_neg he]
      omega
  · intro e' he'
    obtain ⟨hgone, hout⟩ := hcancel.fresh e' he'
    have he : e' ≠ e := by
      rintro rfl
      exact hout hmem
    exact ⟨by simp [hgone, he], fun hin => hout (mem_of_mem_erase hin)⟩
  · intro e' x hx hin
    obtain ⟨he, hin⟩ := hcancel.nodup.mem_erase_iff.mp hin
    have hpending := hcancel.pending e' x hx hin
    rwa [update_of_ne he] at hpending
  intro e' x hx hout
  by_cases he : e' = e
  · subst he
    have hpending := hcancel.pending e' x hx hmem
    rwa [update_self] at hpending
  · exact hcancel.left e' x hx fun hin => hout ((mem_erase_of_ne he).mpr hin)

lemma Timed.reject (h : Timed gone P fw) (hpit : e ∈ fw.pit) (hP : ∀ t, P e none (some t)) :
    Timed gone P (fw.onInterestReject e) := by
  rcases fw.onInterestReject_cases e with heq | heq
  · rw [heq]
    exact h
  rw [heq]
  have hset := (h.cancel hpit).straggler hpit (fun u s hn => ?_) hP false none
  · rwa [update_idem, update_eq_self] at hset
  · rw [update_self] at hn
    exact hn.1

lemma Timed.nack (h : Timed gone P fw) (e : PitEntryId) (outFace : FaceId)
    (reason : NackReason) : Timed gone P (fw.onOutgoingNack E e outFace reason) := by
  rcases fw.onOutgoingNack_cases e outFace reason with heq | ⟨x, r, -, -, heq⟩
  · rw [heq]
    exact h
  rw [heq]
  refine (h.same e ?_).send ..
  exact fun _ => ⟨rfl, rfl⟩

lemma Timed.missed (h : Timed gone (update P e NoTimer) fw) (hpit : e ∈ fw.pit)
    (inFace : FaceId) (i : InterestPacket C S) :
    Timed gone (update P e OneTimer) (missed fw inFace e i) := by
  have heq : Fw.missed fw inFace e i = fw.modifyEntry e fun x =>
      let x := x.insertOrUpdateInRecord fw.now inFace i
      { x with unsatisfyTimer := x.lastExpiring.map fun r => r.expiry } :=
    congrArg (fun l => { fw with entries := l }) (modify_modify_eq ..)
  rw [heq, ← update_idem NoTimer]
  refine h.modifyEntry hpit ?_
  intro x _ hx
  rw [update_self] at hx
  have hin := ne_nil_of_mem (mem_insertOrUpdateInRecord x fw.now inFace i)
  obtain ⟨r, hr⟩ : ∃ r, (x.insertOrUpdateInRecord fw.now inFace i).lastExpiring = some r :=
    MaxElement.maxElement_isSome hin
  have hnone : (x.insertOrUpdateInRecord fw.now inFace i).stragglerTimer = none := hx.2
  simp [OneTimer, hr, hnone]

/-- The trigger's result `r` rejects the entry `e`. -/
def Rejects (r : Option (σ × List Action)) (e : PitEntryId) : Prop :=
  ∃ st acts, r = some (st, acts) ∧ .rejectPendingInterest e ∈ acts

/-- What `rejectPendingInterest` is there for: the entry that the trigger is called for, or one
that is pending. -/
structure RejectsPending (strategy : Strategy C S σ ω) : Prop where
  afterReceiveInterest : ∀ fw inFace i e st e',
    Rejects (strategy.afterReceiveInterest fw inFace i e st) e' → e' = e ∨ e' ∈ fw.pit
  beforeSatisfyInterest : ∀ fw e inFace d st e',
    Rejects (strategy.beforeSatisfyInterest fw e inFace d st) e' → e' = e ∨ e' ∈ fw.pit
  beforeExpirePendingInterest : ∀ fw e st e',
    Rejects (strategy.beforeExpirePendingInterest fw e st) e' → e' = e ∨ e' ∈ fw.pit
  afterReceiveNack : ∀ fw inFace i reason e st e',
    Rejects (strategy.afterReceiveNack fw inFace i reason e st) e' → e' = e ∨ e' ∈ fw.pit
  own : ∀ fw ev st e', Rejects (strategy.own fw ev st) e' → e' ∈ fw.pit

lemma not_rejects_nil {st : σ} : ¬ Rejects (some (st, [])) e := by
  rintro ⟨st', acts, hr, hmem⟩
  cases hr
  cases hmem

lemma rejectsPending_toFace (f : FaceId) : RejectsPending (toFace (C := C) (S := S) f) where
  afterReceiveInterest := by
    rintro fw inFace i e st e' ⟨st', acts, hr, hmem⟩
    cases hr
    simp at hmem
  beforeSatisfyInterest _ _ _ _ _ _ h := absurd h not_rejects_nil
  beforeExpirePendingInterest _ _ _ _ h := absurd h not_rejects_nil
  afterReceiveNack _ _ _ _ _ _ _ h := absurd h not_rejects_nil
  own _ _ _ _ h := absurd h not_rejects_nil

lemma straggler_allowed (hQ : ∀ t, Q none (some t)) (e' : PitEntryId) (t : StragglerTimer) :
    update (fun _ => OneTimer) e Q e' none (some t) := by
  by_cases he : e' = e
  · subst he
    rw [update_self]
    exact hQ t
  · rw [update_of_ne he]
    rfl

lemma Timed.loop (h : Timed gone P fw) (inFace : FaceId) (i : InterestPacket C S) :
    Timed gone P (fw.onInterestLoop E inFace i) := by
  unfold Forwarder.onInterestLoop
  split
  · exact h
  · exact h.send ..

section Calls

variable [DecidableEq C] {l' : List FaceId}

lemma Timed.perform {a : Action} (h : Timed gone P fw) (hP : ∀ e t, P e none (some t))
    (ha : ∀ e, a = .rejectPendingInterest e → e ∈ fw.pit) (hs : fw.perform E a = some fw') :
    Timed gone P fw' := by
  cases a with
  | sendInterest e outFace newNonce =>
    rcases Forwarder.onOutgoingInterest_cases hs with rfl | ⟨x, r, -, -, -, rfl⟩
    · exact h
    · refine (h.same e ?_).send ..
      exact fun _ => ⟨rfl, rfl⟩
  | sendNack e outFace reason =>
    cases hs
    exact h.nack e outFace reason
  | rejectPendingInterest e =>
    cases hs
    exact h.reject (ha e rfl) (hP e)

lemma Timed.calls {acts : List Action} (h : Timed gone P fw) (hP : ∀ e t, P e none (some t))
    (ha : ∀ e, .rejectPendingInterest e ∈ acts → e ∈ fw.pit)
    (hs : acts.foldlM (Forwarder.perform E) fw = some fw') : Timed gone P fw' := by
  induction acts generalizing fw with
  | nil =>
    cases hs
    exact h
  | cons a acts ih =>
    obtain ⟨fw₁, hone, hrest⟩ := bind_eq_some_iff.mp hs
    have hone' : Timed gone P fw₁ := h.perform hP (fun e he => ha e (he ▸ .head _)) hone
    refine ih hone' ?_ hrest
    intro e he
    rw [(Forwarder.keeps_perform hone).pit]
    exact ha e (.tail _ he)

lemma Timed.dispatch {r : Option (σ × List Action)} (h : Timed gone P n.fw)
    (hP : ∀ e t, P e none (some t)) (hr : ∀ e, Rejects r e → e ∈ n.fw.pit)
    (hs : n.dispatchToStrategy E r = some n') : Timed gone P n'.fw := by
  obtain ⟨acts, rfl, hacts⟩ := dispatch_eq_some hs
  exact h.calls hP (fun e he => hr e ⟨_, acts, rfl, he⟩) hacts

lemma Timed.data (h : Timed gone P fw) (d : Data C) (outFace : FaceId) :
    Timed gone P (fw.onOutgoingData E d outFace) := by
  rcases fw.onOutgoingData_cases d outFace with heq | ⟨-, heq⟩
  · rw [heq]
    exact h
  · rw [heq]
    exact h.send ..

lemma Timed.deliver (h : Timed gone P fw) (d : Data C) (fs : List FaceId) :
    Timed gone P (fs.foldl (fun fw f => fw.onOutgoingData E d f) fw) := by
  induction fs generalizing fw with
  | nil => exact h
  | cons f fs ih => exact ih (h.data d f)

lemma timed_miss (hstrategy : RejectsPending strategy)
    (h : Timed gone (update (fun _ => OneTimer) e NoTimer) n.fw) (hpit : e ∈ n.fw.pit)
    (hs : n.onContentStoreMiss E strategy inFace e i = some n') :
    Timed gone (fun _ => OneTimer) n'.fw := by
  have hset := h.missed hpit inFace i
  rw [update_eq_self] at hset
  refine Timed.dispatch (n := n.withFw (missed n.fw inFace e i)) hset (fun _ _ => rfl) ?_ hs
  intro e' hrej
  rcases hstrategy.afterReceiveInterest _ _ _ _ _ _ hrej with rfl | hmem
  · exact hpit
  · exact hmem

lemma timed_hit (h : Timed gone (update (fun _ => OneTimer) e NoTimer) n.fw)
    (hpit : e ∈ n.fw.pit) (inFace : FaceId) (d : Data C) :
    Timed gone (fun _ => OneTimer) (n.onContentStoreHit E inFace e d).fw := by
  have hset := h.straggler (Q := OneTimer) hpit (fun u s hn => ?_) (fun _ => rfl) true
    d.freshnessPeriod
  · rw [update_idem, update_eq_self] at hset
    exact hset.data d inFace
  · rw [update_self] at hn
    exact hn.1

lemma timed_satisfy {l : List FaceId} (hstrategy : RejectsPending strategy)
    (h : Timed gone (fun _ => OneTimer) n.fw) (hpit : e ∈ n.fw.pit)
    (hs : Node.satisfy E strategy inFace d (n, l) e = some (n', l')) :
    Timed gone (fun _ => OneTimer) n'.fw ∧ n'.fw.pit = n.fw.pit := by
  obtain ⟨x, n₁, -, hcall, rfl, -⟩ := satisfy_eq_some hs
  have hcancel : Timed gone (update (fun _ => OneTimer) e fun u _ => u = none)
      (n.fw.cancelUnsatisfyAndStragglerTimer e) := h.modifyEntry hpit fun _ _ _ => rfl
  have hcalled := Timed.dispatch hcancel (straggler_allowed fun _ => rfl) (fun e' hrej => ?_) hcall
  · obtain ⟨acts, -, hacts⟩ := dispatch_eq_some hcall
    have hkeep : Keeps n.fw n₁.fw := (n.fw.keeps_cancelTimers e).trans (Forwarder.keeps_calls hacts)
    have hpit₁ : e ∈ n₁.fw.pit := hkeep.pit ▸ hpit
    refine ⟨?_, (keeps_satisfied ..).pit.trans hkeep.pit⟩
    have hdnl := hcalled.insertDeadNonceList (E := E) e true d.freshnessPeriod (some inFace)
    have hpit₂ : e ∈ (n₁.fw.insertDeadNonceList E e true d.freshnessPeriod (some inFace)).pit := by
      rwa [(n₁.fw.keeps_insertDeadNonceList ..).pit]
    have hclear := hdnl.same e (f := fun x => x.clearInRecords.deleteOutRecord inFace)
      fun _ => ⟨rfl, rfl⟩
    have hset := hclear.straggler (Q := OneTimer) hpit₂ (fun u s hu => ?_) (fun _ => rfl) true
      d.freshnessPeriod
    · rwa [update_idem, update_eq_self] at hset
    · rwa [update_self] at hu
  · rcases hstrategy.beforeSatisfyInterest _ _ _ _ _ _ hrej with rfl | hmem
    · exact hpit
    · exact hmem

lemma timed_loop {pitMatches : List PitEntryId} {l : List FaceId}
    (hstrategy : RejectsPending strategy) (h : Timed gone (fun _ => OneTimer) n.fw)
    (hm : ∀ e ∈ pitMatches, e ∈ n.fw.pit)
    (hs : pitMatches.foldlM (Node.satisfy E strategy inFace d) (n, l) = some (n', l')) :
    Timed gone (fun _ => OneTimer) n'.fw := by
  induction pitMatches generalizing n l with
  | nil =>
    cases hs
    exact h
  | cons e rest ih =>
    obtain ⟨⟨n₁, l₁⟩, hone, hrest⟩ := bind_eq_some_iff.mp hs
    obtain ⟨h₁, hpit⟩ := timed_satisfy hstrategy h (hm e (.head _)) hone
    refine ih h₁ ?_ hrest
    intro e' he'
    rw [hpit]
    exact hm e' (.tail _ he')

lemma timed_unsatisfied {n₁ : Node C S σ} (hstrategy : RejectsPending strategy)
    (h : Timed gone (update (fun _ => OneTimer) e fun _ _ => True) n.fw)
    (hpit : e ∈ n.fw.pit) (hcall : n.dispatchToStrategy E
      (strategy.beforeExpirePendingInterest n.fw e n.strategy) = some n₁) :
    Timed (gone ++ [e]) (fun _ => OneTimer) (n₁.fw.onInterestFinalize E e false none) := by
  have hcalled := h.dispatch (straggler_allowed fun _ => trivial) (fun e' hrej => ?_) hcall
  · obtain ⟨acts, -, hacts⟩ := dispatch_eq_some hcall
    exact hcalled.finalize ((Forwarder.keeps_calls hacts).pit ▸ hpit) false none
  rcases hstrategy.beforeExpirePendingInterest _ _ _ _ hrej with rfl | hmem
  · exact hpit
  · exact hmem

end Calls

section Steps

variable [DecidableEq C] [DecidableEq S]

lemma Timed.insertPit (h : Timed gone (fun _ => OneTimer) fw) (i : InterestPacket C S) :
    Timed gone (fun _ => OneTimer) (fw.insertPit i).1 ∨
      (fw.insertPit i).1.entries[(fw.insertPit i).2]? = some { interest := i } ∧
        Timed gone (update (fun _ => OneTimer) (fw.insertPit i).2 NoTimer)
          (fw.insertPit i).1 := by
  unfold Forwarder.insertPit
  split
  · exact .inl h
  refine .inr ⟨by simp, ?_, ?_, ?_, ?_⟩
  · intro e he
    simp only [length_append, length_singleton] at he
    rw [count_append]
    rcases Nat.lt_or_eq_of_le (Nat.le_of_lt_succ he) with hlt | rfl
    · have hnone : [fw.entries.length].count e = 0 :=
        count_eq_zero.mpr (by simpa using Nat.ne_of_lt hlt)
      rw [hnone]
      exact h.once e hlt
    · obtain ⟨hgone, hpit⟩ := h.fresh _ (Nat.le_refl _)
      rw [count_eq_zero.mpr hgone, count_eq_zero.mpr hpit]
      simp
  · intro e he
    simp only [length_append, length_singleton] at he
    obtain ⟨hgone, hpit⟩ := h.fresh e (by omega)
    have hne : e ≠ fw.entries.length := by omega
    exact ⟨hgone, by simp [hpit, hne]⟩
  · intro e x hx hpit
    rcases Nat.lt_or_ge e fw.entries.length with hlt | hge
    · have hne : e ≠ fw.entries.length := Nat.ne_of_lt hlt
      rw [getElem?_append_left hlt] at hx
      rw [update_of_ne hne]
      exact h.pending e x hx (by simpa [hne] using hpit)
    · obtain rfl : e = fw.entries.length := by simpa [(h.fresh e hge).2] using hpit
      obtain rfl : { interest := i } = x := by simpa using hx
      rw [update_self]
      exact ⟨rfl, rfl⟩
  · intro e x hx hpit
    have hne : e ≠ fw.entries.length := by
      rintro rfl
      simp at hpit
    have hlt := (List.getElem?_eq_some_iff.mp hx).1
    simp only [length_append, length_singleton] at hlt
    have hlt' : e < fw.entries.length := Nat.lt_of_le_of_ne (Nat.le_of_lt_succ hlt) hne
    rw [getElem?_append_left hlt'] at hx
    exact h.left e x hx fun hin => hpit (mem_append_left _ hin)

lemma Timed.canceled (h : Timed gone (fun _ => OneTimer) fw) (hi : fw.insertPit i = (fw', e)) :
    Timed gone (update (fun _ => OneTimer) e NoTimer)
      (fw'.cancelUnsatisfyAndStragglerTimer e) ∧ e ∈ fw'.pit := by
  have hpit := (fw.insertPit_spec i).1
  have hins := h.insertPit i
  rw [hi] at hpit hins
  refine ⟨?_, hpit⟩
  rcases hins with hold | ⟨-, hnew⟩
  · exact hold.cancel hpit
  · have hcancel := hnew.cancel hpit
    rwa [update_idem] at hcancel

def finalizes : Event C S ω → Option PitEntryId
  | .unsatisfyTimer e | .stragglerTimer e => some e
  | _ => none

lemma timed_step {ev : Event C S ω} (hstrategy : RejectsPending strategy)
    (h : Timed gone (fun _ => OneTimer) n.fw) (hs : step E strategy n ev = some n') :
    Timed (gone ++ (finalizes ev).toList) (fun _ => OneTimer) n'.fw := by
  have hnone : finalizes ev = none → Timed gone (fun _ => OneTimer) n'.fw →
      Timed (gone ++ (finalizes ev).toList) (fun _ => OneTimer) n'.fw := by
    intro hev ht
    rw [hev]
    simpa using ht
  cases course_of_step hs with
  | advance => exact hnone rfl ⟨h.once, h.fresh, h.pending, h.left⟩
  | deadNonce => exact hnone rfl (h.loop ..)
  | @duplicateNonce inFace i _ _ fw e x hi hx hdup =>
    have hins := h.insertPit i
    rw [hi] at hins
    rcases hins with hold | ⟨hnew, -⟩
    · exact hnone rfl (hold.loop ..)
    -- the Nonce of the first Interest of an entry is no duplicate
    obtain rfl := some.inj (hx.symm.trans hnew)
    exact absurd rfl hdup
  | hit hi _ _ =>
    obtain ⟨hcancel, hpit⟩ := h.canceled hi
    exact hnone rfl (timed_hit hcancel hpit ..)
  | miss hi _ hcall =>
    obtain ⟨hcancel, hpit⟩ := h.canceled hi
    exact hnone rfl (timed_miss (n := n.withFw _) hstrategy hcancel hpit hcall)
  | data hm hloop =>
    have hloop := timed_loop hstrategy h (fun e he => (hm.2 e he).1) hloop
    exact hnone rfl (hloop.deliver ..)
  | @nack inFace _ reason e _ _ he hfw hcall =>
    have hnacked := h.same e (f := fun x => x.setIncomingNack inFace reason) fun _ => ⟨rfl, rfl⟩
    rw [← hfw] at hnacked
    refine hnone rfl (Timed.dispatch hnacked (fun _ _ => rfl) ?_ hcall)
    intro e' hrej
    subst hfw
    rcases hstrategy.afterReceiveNack _ _ _ _ _ _ _ hrej with rfl | hmem
    · exact he
    · exact hmem
  | @unsatisfyTimer e x t _ _ hx ht hfw hcall =>
    subst hfw
    have hpit : e ∈ n.fw.pit := h.mem_pit hx fun hno => by simp [hno.1] at ht
    exact timed_unsatisfied (n := n.withFw _) hstrategy
      (h.modifyEntry hpit fun _ _ _ => trivial) hpit hcall
  | @stragglerTimer e x t hx ht =>
    have hpit : e ∈ n.fw.pit := h.mem_pit hx fun hno => by simp [hno.2] at ht
    have hfired := h.modifyEntry (Q := fun _ _ => True)
      (f := fun x => { x with stragglerTimer := none }) hpit fun _ _ _ => trivial
    exact hfired.finalize hpit t.isSatisfied t.dataFreshnessPeriod
  | @strategy ev _ hcall =>
    exact hnone rfl (h.dispatch (fun _ _ => rfl) (hstrategy.own n.fw ev n.strategy) hcall)
  | _ => exact hnone rfl h

lemma timed_of_path {st : σ} {evs : List (Event C S ω)} (hstrategy : RejectsPending strategy)
    (h : Path (step E strategy) Any ⟨{}, st⟩ evs n) :
    Timed (evs.filterMap finalizes) (fun _ => OneTimer) n.fw := by
  refine h.invariant (I := fun evs n => Timed (evs.filterMap finalizes) (fun _ => OneTimer) n.fw)
    ⟨?_, ?_, ?_, ?_⟩ ?_
  · intro e he
    simp at he
  · intro e _
    simp
  · intro e x hx
    simp at hx
  · intro e x hx
    simp at hx
  intro evs n ev n' ih _ hs
  have hstep := timed_step hstrategy ih hs
  cases hev : finalizes ev with
  | none | some e => simpa [filterMap_append, hev] using hstep

/-- In every run, between pipelines, an entry in the PIT has exactly one of its timers pending and
has not been finalised; one that has left the PIT has none pending, and has been finalised
once. -/
theorem one_timer_pending (E : Setting C S) (strategy : Strategy C S σ ω)
    (hstrategy : RejectsPending strategy) (st : σ) {evs : List (Event C S ω)}
    (h : Path (step E strategy) Any ⟨{}, st⟩ evs n) :
    (∀ e ∈ n.fw.pit, ∃ x, n.fw.entries[e]? = some x ∧
      OneTimer x.unsatisfyTimer x.stragglerTimer ∧ (evs.filterMap finalizes).count e = 0) ∧
    (∀ (e : PitEntryId) (x : Entry C S), n.fw.entries[e]? = some x → e ∉ n.fw.pit →
      NoTimer x.unsatisfyTimer x.stragglerTimer ∧ (evs.filterMap finalizes).count e = 1) ∧
    n.fw.pit.Nodup := by
  have ht := timed_of_path hstrategy h
  refine ⟨?_, ?_, ht.nodup⟩
  · intro e he
    have hlt : e < n.fw.entries.length := by
      by_contra hge
      exact (ht.fresh e (Nat.le_of_not_lt hge)).2 he
    have hcount := ht.once e hlt
    have hpos := count_pos_iff.mpr he
    have hx := getElem?_eq_getElem hlt
    exact ⟨_, hx, ht.pending e _ hx he, by omega⟩
  · intro e x hx he
    have hcount := ht.once e (List.getElem?_eq_some_iff.mp hx).1
    rw [count_eq_zero.mpr he] at hcount
    exact ⟨ht.left e x hx he, by omega⟩

end Steps

/-- An Interest is forwarded and answered; its entry leaves the PIT with the straggler timer. -/
theorem one_timer_pending_satisfied :
    ∃ n, Path (step localSetting (toFace 2)) Any ⟨{}, ()⟩
        (exchange ++ [.advance (milliseconds 2000), .stragglerTimer 0]) n ∧
      ∃ x, n.fw.entries[0]? = some x ∧ 0 ∉ n.fw.pit ∧
        NoTimer x.unsatisfyTimer x.stragglerTimer := by
  obtain ⟨n, hpath, x, hx, hpit⟩ : ∃ n, Path (step localSetting (toFace 2)) Any ⟨{}, ()⟩
      (exchange ++ [.advance (milliseconds 2000), .stragglerTimer 0]) n ∧
      ∃ x, n.fw.entries[0]? = some x ∧ 0 ∉ n.fw.pit :=
    ⟨_, path_of_run (fun _ _ => trivial) rfl, _, rfl, by decide⟩
  have hleft := (one_timer_pending localSetting (toFace 2) (rejectsPending_toFace 2) () hpath).2.1
  exact ⟨n, hpath, x, hx, hpit, (hleft 0 x hx hpit).1⟩

/-- Keeps the entry of the first Interest and rejects it in every trigger. -/
def rejectKept : Strategy ℕ Unit (Option PitEntryId) Unit where
  afterReceiveInterest _ _ _ e st := some (st.or (some e), [.rejectPendingInterest (st.getD e)])
  beforeSatisfyInterest _ _ _ _ st := some (st, [])
  beforeExpirePendingInterest _ _ st := some (st, [])
  afterReceiveNack _ _ _ _ _ st := some (st, [])
  own _ _ st := some (st, [])

/-- The kept entry has been finalised and has left the PIT; when the second Interest comes it gets
another straggler timer, and is finalised once more. -/
theorem straggler_outside_pit :
    ∃ (evs : List (Event ℕ Unit Unit)) (n n' : Node ℕ Unit (Option PitEntryId)),
      Path (step localSetting rejectKept) Any ⟨{}, none⟩ evs n ∧
      (∃ x, n.fw.entries[0]? = some x ∧ 0 ∉ n.fw.pit ∧ x.stragglerTimer.isSome) ∧
      Path (step localSetting rejectKept) Any ⟨{}, none⟩
        (evs ++ [.advance (milliseconds 2000), .stragglerTimer 0]) n' ∧
      (((evs ++ [.advance (milliseconds 2000), .stragglerTimer 0] :
        List (Event ℕ Unit Unit)).filterMap finalizes).count 0 = 2) :=
  ⟨[.interest 1 ⟨⟨[5], ()⟩, 7, none⟩ false none, .advance (milliseconds 2000), .stragglerTimer 0,
      .interest 1 ⟨⟨[6], ()⟩, 8, none⟩ false none], _, _, path_of_run (fun _ _ => trivial) rfl,
    ⟨_, rfl, by decide, rfl⟩, path_of_run (fun _ _ => trivial) rfl, by decide⟩

end NfdGateway.Fw
