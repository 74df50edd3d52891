import NfdGateway.Fw.Courses

/-! The Nonces of out-records and the Dead Nonce List. -/
namespace NfdGateway.Fw

open Transition List Option

variable {C S σ ω : Type} {E : Setting C S} {strategy : Strategy C S σ ω} {fw fw' : Forwarder C S}
  {n : Node C S σ} {e : PitEntryId} {x : Entry C S} {N : Nonce} {s : Stage C S}
  {past past' : List (Forwarder C S × Stage C S)} {d : Data C} {freshness : Option ℕ}
  {isSatisfied : Bool} {i : InterestPacket C S}

def Entry.nonces (x : Entry C S) : List Nonce := x.outRecords.map fun r => r.lastNonce

def Stores (fw : Forwarder C S) (e : PitEntryId) (N : Nonce) : Prop :=
  e ∈ fw.pit ∧ ∃ x, fw.entries[e]? = some x ∧ N ∈ x.nonces

/-- The Interest that went out with this Nonce has been satisfied: the Data came in, or was found
in the Content Store, while the Nonce was stored. -/
def SatisfiedBy (past : List (Forwarder C S × Stage C S)) (e : PitEntryId) (N : Nonce)
    (d : Data C) : Prop :=
  ∃ fw inFace, Stores fw e N ∧ ((fw, .satisfied e inFace d) ∈ past ∨ (fw, .hit inFace e d) ∈ past)

/-- The Interest need not be remembered: any Data of its name, or Data that stays fresh as long as
the Dead Nonce List remembers, keeps a copy of it from being forwarded again. -/
def Covers (E : Setting C S) (x : Entry C S) (d : Data C) : Prop :=
  E.matchesData x.interest.toInterest d = true ∧
    (E.mustBeFresh x.interest.selectors = false ∨
      ∀ p, d.freshnessPeriod = some p → E.deadNonceLifetime ≤ p)

/-- Nonces that are no longer stored after a stage have been added to the Dead Nonce List, or
their Interest has been satisfied for good. -/
def NoncesKept (E : Setting C S) (past : List (Forwarder C S × Stage C S))
    (fw fw' : Forwarder C S) : Prop :=
  ∀ (e : PitEntryId) (x : Entry C S) (N : Nonce), fw.entries[e]? = some x → Stores fw e N →
    ¬ Stores fw' e N →
    (x.interest.name, N) ∈ fw'.deadNonces ∨ ∃ d, SatisfiedBy past e N d ∧ Covers E x d

lemma SatisfiedBy.mono (h : SatisfiedBy past e N d)
    (hsub : past ⊆ past') : SatisfiedBy past' e N d := by
  obtain ⟨fw, inFace, hst, hmem⟩ := h
  exact ⟨fw, inFace, hst, hmem.imp (fun h => hsub h) fun h => hsub h⟩

lemma nonces_setIncomingNack (x : Entry C S) (face : FaceId) (reason : NackReason) :
    (x.setIncomingNack face reason).nonces = x.nonces := by
  unfold Entry.setIncomingNack Entry.nonces
  split
  next j _ =>
    refine ext_getElem? fun k => ?_
    simp only [getElem?_map, getElem?_modify]
    split
    · cases x.outRecords[k]? <;> rfl
    · simp
  · rfl

lemma nonces_deleteOutRecord (face : FaceId) (h : N ∈ x.nonces) :
    N ∈ (x.deleteOutRecord face).nonces ∨ ∃ o, x.getOutRecord face = some o ∧ o.lastNonce = N := by
  obtain ⟨r, hr, rfl⟩ := List.mem_map.mp h
  have hleft : ∀ r ∈ x.outRecords.eraseP (·.face = face),
      r.lastNonce ∈ (x.deleteOutRecord face).nonces := fun r hr => List.mem_map_of_mem hr
  by_cases hin : ∃ o ∈ x.outRecords, o.face = face
  · obtain ⟨o, ho, hface⟩ := hin
    obtain ⟨o, a, b, ha, hface, hsplit, herase⟩ :=
      exists_of_eraseP (p := fun r => decide (r.face = face)) ho (by simpa using hface)
    have hget : x.getOutRecord face = some o :=
      find?_eq_some_iff_append.mpr ⟨hface, a, b, hsplit, by simpa using ha⟩
    simp only [hsplit, mem_append, mem_cons] at hr
    rcases hr with hr | rfl | hr
    · exact .inl (hleft r (herase ▸ mem_append_left b hr))
    · exact .inr ⟨r, hget, rfl⟩
    · exact .inl (hleft r (herase ▸ mem_append_right a hr))
  · have hsame := eraseP_of_forall_not fun o ho hface => hin ⟨o, ho, of_decide_eq_true hface⟩
    exact .inl (hleft r (hsame.symm ▸ hr))

lemma outRecords_insertOrUpdate (x : Entry C S) (now : ℕ) (face : FaceId) (i : InterestPacket C S) :
    (∃ a o b, x.outRecords = a ++ o :: b ∧ x.getOutRecord face = some o ∧
      (x.deleteOutRecord face).outRecords = a ++ b ∧
      (x.insertOrUpdateOutRecord now face i).outRecords =
        a ++ { o with toFaceRecord := .update face now i } :: b) ∨
    x.getOutRecord face = none ∧ (x.insertOrUpdateOutRecord now face i).outRecords =
      { FaceRecord.update face now i with } :: x.outRecords := by
  unfold Entry.insertOrUpdateOutRecord Entry.getOutRecord Entry.deleteOutRecord
  split
  next j hj =>
    obtain ⟨hlt, hface, hbefore⟩ := findIdx?_eq_some_iff_getElem.mp hj
    have hsplit : x.outRecords =
        x.outRecords.take j ++ x.outRecords[j] :: x.outRecords.drop (j + 1) := by
      rw [getElem_cons_drop hlt, take_append_drop]
    have hno : ∀ r ∈ x.outRecords.take j, ¬ decide (r.face = face) = true := by
      intro r hr
      obtain ⟨k, hk, rfl⟩ := mem_take_iff_getElem.mp hr
      exact hbefore k (by omega)
    refine .inl ⟨_, _, _, hsplit, ?_, ?_, modify_eq_take_cons_drop hlt⟩
    · exact find?_eq_some_iff_append.mpr ⟨hface, _, _, hsplit, by simpa using hno⟩
    conv => lhs; rw [hsplit]
    rw [eraseP_append_right _ hno,
      eraseP_cons_of_pos (p := fun r : OutRecord => decide (r.face = face)) hface]
  next hj =>
    refine .inr ⟨find?_eq_none.mpr ?_, rfl⟩
    intro r hr
    simp [findIdx?_eq_none_iff.mp hj r hr]

lemma nonces_insertOrUpdate_of_none {now : ℕ} {face : FaceId}
    (ho : x.getOutRecord face = none) (h : N ∈ x.nonces) :
    N ∈ (x.insertOrUpdateOutRecord now face i).nonces := by
  rcases outRecords_insertOrUpdate x now face i with ⟨a, o, b, -, hget, -, -⟩ | ⟨-, hnew⟩
  · exact absurd (hget.symm.trans ho) nofun
  · rw [Entry.nonces, hnew]
    exact .tail _ h

lemma nonces_insertOrUpdate_of_some {now : ℕ} {face : FaceId}
    {o : OutRecord} (ho : x.getOutRecord face = some o) :
    N ∈ (x.insertOrUpdateOutRecord now face i).nonces ↔
      i.nonce = N ∨ N ∈ (x.deleteOutRecord face).nonces := by
  rcases outRecords_insertOrUpdate x now face i with ⟨a, o', b, -, -, hdel, hnew⟩ | ⟨hget, -⟩
  · unfold Entry.nonces
    rw [hnew, hdel]
    simp only [map_append, map_cons, mem_append, mem_cons, FaceRecord.update]
    grind
  · exact absurd (ho.symm.trans hget) nofun

/-- A straggler timer that was set for a satisfied Interest is that of Data which came while the
Nonces of today's out-records were stored. -/
def Tells (E : Setting C S) (past : List (Forwarder C S × Stage C S)) (e : PitEntryId)
    (x : Entry C S) : Prop :=
  ∀ t, x.stragglerTimer = some t → t.isSatisfied = true → x.inRecords = [] ∧
    ∃ d, t.dataFreshnessPeriod = d.freshnessPeriod ∧
      E.matchesData x.interest.toInterest d = true ∧
      ∀ N ∈ x.nonces, SatisfiedBy past e N d

def AllTell (E : Setting C S) (past : List (Forwarder C S × Stage C S)) (fw : Forwarder C S) :
    Prop :=
  ∀ (e : PitEntryId) (x : Entry C S), fw.entries[e]? = some x → Tells E past e x

lemma AllTell.mono (h : AllTell E past fw) (hsub : past ⊆ past') : AllTell E past' fw := by
  intro e x hx t ht hsat
  obtain ⟨hin, d, hd, hm, hout⟩ := h e x hx t ht hsat
  exact ⟨hin, d, hd, hm, fun N hN => (hout N hN).mono hsub⟩

lemma noncesKept_of_stores (h : ∀ e N, Stores fw e N → Stores fw' e N) :
    NoncesKept E past fw fw' := by
  intro e x N _ hst hno
  exact absurd (h e N hst) hno

lemma mem_insertDeadNonceList {upstream : Option FaceId} (hx : fw.entries[e]? = some x)
    (hneed : Forwarder.needDnl E x isSatisfied freshness = true)
    (hN : N ∈ Forwarder.outgoingNonces x upstream) :
    (x.interest.name, N) ∈
      (fw.insertDeadNonceList E e isSatisfied freshness upstream).deadNonces := by
  unfold Forwarder.insertDeadNonceList
  rw [hx]
  dsimp only
  rw [if_pos hneed]
  exact mem_append_right _ (List.mem_map_of_mem hN)

lemma needDnl_eq_false (h : Forwarder.needDnl E x isSatisfied freshness = false) :
    isSatisfied = true ∧ (E.mustBeFresh x.interest.selectors = false ∨
      ∀ p, freshness = some p → E.deadNonceLifetime ≤ p) := by
  unfold Forwarder.needDnl at h
  split at h
  next hsat =>
    refine ⟨hsat, ?_⟩
    rcases Bool.and_eq_false_iff.mp h with hfresh | hshort
    · exact .inl hfresh
    refine .inr ?_
    rintro p rfl
    simpa using hshort
  · cases h

lemma mem_finalize (hx : fw.entries[e]? = some x) (hN : N ∈ x.nonces) :
    (x.interest.name, N) ∈ (fw.onInterestFinalize E e isSatisfied freshness).deadNonces ∨
      Forwarder.needDnl E x isSatisfied freshness = false := by
  cases hneed : Forwarder.needDnl E x isSatisfied freshness with
  | false => exact .inr rfl
  | true => exact .inl (mem_insertDeadNonceList hx hneed hN)

lemma NoncesKept.mono (h : NoncesKept E past fw fw')
    (hsub : past ⊆ past') : NoncesKept E past' fw fw' := by
  intro e x N hx hst hno
  rcases h e x N hx hst hno with hdead | ⟨d, hsat, hcov⟩
  · exact .inl hdead
  · exact .inr ⟨d, hsat.mono hsub, hcov⟩

lemma noncesKept_call {a : Action} :
    NoncesKept E (past ++ [(fw, .call a)]) fw fw' ↔ NoncesKept E past fw fw' := by
  refine ⟨?_, fun h => h.mono (subset_append_left _ _)⟩
  intro h e x N hx hst hno
  rcases h e x N hx hst hno with hdead | ⟨d, ⟨fw₁, inFace, hold, hmem⟩, hcov⟩
  · exact .inl hdead
  · refine .inr ⟨d, ⟨fw₁, inFace, hold, ?_⟩, hcov⟩
    simpa using hmem

section Stages

variable [DecidableEq C]

/-- A call that renews an out-record keeps its Nonce, or the old one is stored with another face,
is in the Dead Nonce List already, or its Interest has been satisfied for good. -/
def RenewalKept (E : Setting C S) (past : List (Forwarder C S × Stage C S)) (fw : Forwarder C S) :
    Stage C S → Prop
  | .call (.sendInterest e outFace newNonce) =>
    ∀ (x : Entry C S) (r : InRecord C S) (o : OutRecord), outFace ≠ 0 → e ∈ fw.pit →
      fw.entries[e]? = some x → violatesScope E x outFace = false →
      x.pickInterest outFace = some r → x.getOutRecord outFace = some o →
      (Forwarder.outgoingInterest r newNonce).nonce = o.lastNonce ∨
      o.lastNonce ∈ (x.deleteOutRecord outFace).nonces ∨
      (x.interest.name, o.lastNonce) ∈ fw.deadNonces ∨
      ∃ d, SatisfiedBy past e o.lastNonce d ∧ Covers E x d
  | _ => True

variable [DecidableEq S]

lemma Stores.stage (h : Stores fw e N) (hs : stage E fw s = some fw') (hpit : e ∈ fw'.pit)
    (hsat : ∀ f d, s ≠ .satisfied e f d) (hnew : ∀ f nonce, s ≠ .call (.sendInterest e f nonce)) :
    Stores fw' e N := by
  obtain ⟨-, x, hx, hN⟩ := h
  obtain ⟨x', hx', hrewrite⟩ := stage_entry_of hs hx
  refine ⟨hpit, x', hx', ?_⟩
  cases hrewrite with
  | timers | miss | hit | nack => exact hN
  | nacked => rwa [nonces_setIncomingNack]
  | satisfied => exact absurd rfl (hsat _ _)
  | interest => exact absurd rfl (hnew _ _)

lemma noncesKept_sendInterest {outFace : FaceId} {newNonce : Option Nonce}
    (hs : fw.onOutgoingInterest E e outFace newNonce = some fw') :
    NoncesKept E past fw fw' ↔
      RenewalKept E past fw (.call (.sendInterest e outFace newNonce)) := by
  by_cases hface : outFace = 0
  · subst hface
    cases hs
    exact ⟨fun _ _ _ _ h0 => absurd rfl h0, fun _ => noncesKept_of_stores fun _ _ hst => hst⟩
  constructor
  · intro h x r o _ hpit hx hscope hr ho
    have hnew : fw' = (fw.modifyEntry e fun x => x.insertOrUpdateOutRecord fw.now outFace
        (Forwarder.outgoingInterest r newNonce)).send outFace
          (.interest (Forwarder.outgoingInterest r newNonce)) := by
      simp only [Forwarder.onOutgoingInterest, hface, hx, hscope, hr, if_false,
        Bool.false_eq_true] at hs
      exact (some.inj hs).symm
    subst hnew
    by_cases hin : o.lastNonce ∈ (x.insertOrUpdateOutRecord fw.now outFace
        (Forwarder.outgoingInterest r newNonce)).nonces
    · rcases (nonces_insertOrUpdate_of_some ho).mp hin with hsame | hother
      · exact .inl hsame
      · exact .inr (.inl hother)
    have hst : Stores fw e o.lastNonce :=
      ⟨hpit, x, hx, List.mem_map_of_mem (mem_of_find?_eq_some ho)⟩
    refine .inr (.inr (h e x o.lastNonce hx hst ?_))
    rintro ⟨-, y, hy, hN⟩
    obtain rfl := some.inj ((Forwarder.getElem?_modifyEntry_self hx).symm.trans hy)
    exact hin hN
  intro hok e' x' N hx' hst hno
  by_cases he : e' = e
  · subst he
    rcases Forwarder.onOutgoingInterest_cases hs with rfl | ⟨x, r, hx, hscope, hr, rfl⟩
    · exact absurd hst hno
    obtain rfl : x = x' := some.inj (hx.symm.trans hx')
    obtain ⟨hpit, y, hy, hN⟩ := hst
    obtain rfl : x = y := some.inj (hx.symm.trans hy)
    -- the Nonce is still stored, unless it was that of the renewed out-record
    have hgone : N ∉ (x.insertOrUpdateOutRecord fw.now outFace
        (Forwarder.outgoingInterest r newNonce)).nonces := fun hin =>
      hno ⟨hpit, _, Forwarder.getElem?_modifyEntry_self hx, hin⟩
    cases ho : x.getOutRecord outFace with
    | none => exact absurd (nonces_insertOrUpdate_of_none ho hN) hgone
    | some o =>
      rw [nonces_insertOrUpdate_of_some ho, not_or] at hgone
      rcases nonces_deleteOutRecord _ hN with hin | ⟨o', ho', rfl⟩
      · exact absurd hin hgone.2
      obtain rfl : o = o' := some.inj (ho.symm.trans ho')
      rcases hok x r o hface hpit hx hscope hr ho with hsame | hother | hdead | hsat
      · exact absurd hsame hgone.1
      · exact absurd hother hgone.2
      · exact .inl hdead
      · exact .inr hsat
  · have hcall : stage E fw (.call (.sendInterest e outFace newNonce)) = some fw' := hs
    have hpit := stage_pit hcall hst.1 (by simp) (by simp)
    refine absurd (hst.stage hcall hpit (by simp) ?_) hno
    rintro f nonce ⟨⟩
    exact he rfl

lemma noncesKept_perform {a : Action} (hs : fw.perform E a = some fw') :
    NoncesKept E past fw fw' ↔ RenewalKept E past fw (.call a) := by
  have hcall : stage E fw (.call a) = some fw' := hs
  cases a with
  | sendInterest e outFace newNonce => exact noncesKept_sendInterest hs
  | sendNack | rejectPendingInterest =>
    refine iff_of_true (noncesKept_of_stores fun e N hst => ?_) trivial
    exact hst.stage hcall (stage_pit hcall hst.1 nofun nofun) nofun nofun

lemma AllTell.stage (h : AllTell E past fw) (hf : s.Fits E fw) (hs : stage E fw s = some fw') :
    AllTell E (past ++ [(fw, s)]) fw' := by
  have hpast : AllTell E (past ++ [(fw, s)]) fw := h.mono (subset_append_left _ _)
  intro e x' hx'
  rcases stage_entry hs hx' with ⟨i, rfl⟩ | ⟨x, hx, hrewrite⟩
  · intro t ht
    cases ht
  have htell := hpast e x hx
  cases hrewrite with
  | timers u ht =>
    rcases ht with rfl | hno
    · exact htell
    · intro t ht hsat
      exact absurd ((hno t ht).symm.trans hsat) nofun
  | miss u =>
    obtain ⟨-, -, y, hy, -, hnone⟩ := hf
    obtain rfl : y = x := some.inj (hy.symm.trans hx)
    intro t ht
    exact absurd (ht.symm.trans hnone) nofun
  | @hit inFace e d x =>
    obtain ⟨hpit, y, hy, hmatch, hnil⟩ := hf
    obtain rfl : y = x := some.inj (hy.symm.trans hx)
    intro t ht _
    cases ht
    exact ⟨hnil, d, rfl, hmatch, fun N hN => ⟨fw, inFace, ⟨hpit, y, hx, hN⟩, .inr (by simp)⟩⟩
  | @satisfied inFace e d x =>
    obtain ⟨hpit, y, hy, hmatch⟩ := hf
    obtain rfl : y = x := some.inj (hy.symm.trans hx)
    intro t ht _
    cases ht
    refine ⟨rfl, d, rfl, hmatch, fun N hN => ?_⟩
    have hold : N ∈ y.nonces := map_subset _ eraseP_subset hN
    exact ⟨fw, inFace, ⟨hpit, y, hx, hold⟩, .inl (by simp)⟩
  | nacked =>
    intro t ht hsat
    obtain ⟨hnil, d, hd, hmatch, hall⟩ := htell t ht hsat
    exact ⟨hnil, d, hd, hmatch, fun N hN => hall N (nonces_setIncomingNack x _ _ ▸ hN)⟩
  | interest hr =>
    -- an Interest is only sent for an entry with in-records, which a satisfied one has not
    intro t ht hsat
    have hmem := MaxElement.maxElement_mem hr
    rw [(htell t ht hsat).1] at hmem
    cases hmem
  | nack =>
    intro t ht hsat
    obtain ⟨hnil, hdata⟩ := htell t ht hsat
    exact ⟨subset_nil.mp (hnil ▸ eraseP_subset), hdata⟩

lemma noncesKept_satisfied {inFace : FaceId} (hf : (Stage.satisfied e inFace d).Fits E fw)
    (hs : stage E fw (.satisfied e inFace d) = some fw') :
    NoncesKept E (past ++ [(fw, .satisfied e inFace d)]) fw fw' := by
  intro e' x N hx hst hno
  have hpit := stage_pit hs hst.1 nofun nofun
  by_cases he : e = e'
  · subst he
    obtain ⟨-, y, hy, hmatch⟩ := hf
    obtain rfl : y = x := some.inj (hy.symm.trans hx)
    obtain ⟨z, hz, hN⟩ := hst.2
    obtain rfl : y = z := some.inj (hx.symm.trans hz)
    obtain ⟨x', hx', hrewrite⟩ := stage_entry_of hs hx
    cases hrewrite with
    | timers => exact absurd ⟨hpit, _, hx', hN⟩ hno
    | satisfied =>
      rcases nonces_deleteOutRecord inFace hN with hin | ⟨o, ho, rfl⟩
      · exact absurd ⟨hpit, _, hx', hin⟩ hno
      cases hs
      cases hneed : Forwarder.needDnl E y true d.freshnessPeriod with
      | true =>
        have hN : o.lastNonce ∈ Forwarder.outgoingNonces y (some inFace) := by
          simp [Forwarder.outgoingNonces, ho]
        exact .inl (mem_insertDeadNonceList hx hneed hN)
      | false =>
        exact .inr ⟨d, ⟨fw, inFace, hst, .inl (by simp)⟩, hmatch, (needDnl_eq_false hneed).2⟩
  · refine absurd (hst.stage hs hpit ?_ nofun) hno
    rintro f d h
    cases h
    exact he rfl

lemma noncesKept_pipelines (ht : AllTell E past fw) (hf : s.Fits E fw)
    (hcall : ∀ a, s ≠ .call a) (hs : stage E fw s = some fw') :
    NoncesKept E (past ++ [(fw, s)]) fw fw' := by
  cases s with
  | advance | loop | insert | cancel | miss | hit | deliver | nacked | unsatisfyFired =>
    refine noncesKept_of_stores fun e N hst => ?_
    exact hst.stage hs (stage_pit hs hst.1 nofun nofun) nofun nofun
  | call a => exact absurd rfl (hcall a)
  | satisfied e inFace d => exact noncesKept_satisfied hf hs
  | unsatisfied e =>
    intro e' x N hx hst hno
    obtain rfl : e = e' := by
      by_contra he
      have hpit := stage_pit hs hst.1 (fun h => he (by cases h; rfl)) nofun
      exact hno (hst.stage hs hpit nofun nofun)
    obtain ⟨-, y, hy, hN⟩ := hst
    obtain rfl : y = x := some.inj (hy.symm.trans hx)
    cases hs
    rcases mem_finalize hx hN with hdead | hneed
    · exact .inl hdead
    · exact absurd (needDnl_eq_false hneed).1 nofun
  | stragglerFired e =>
    intro e' x N hx hst hno
    obtain rfl : e = e' := by
      by_contra he
      have hpit := stage_pit hs hst.1 nofun (fun h => he (by cases h; rfl))
      exact hno (hst.stage hs hpit nofun nofun)
    obtain ⟨-, y, hy, hN⟩ := hst
    obtain rfl : y = x := some.inj (hy.symm.trans hx)
    obtain ⟨z, hz, hs⟩ := bind_eq_some_iff.mp hs
    obtain rfl : y = z := some.inj (hy.symm.trans hz)
    obtain ⟨t, htimer, hs⟩ := bind_eq_some_iff.mp hs
    cases hs
    have hfired := Forwarder.getElem?_modifyEntry_self
      (f := fun x => { x with stragglerTimer := none }) hx
    rcases mem_finalize hfired hN with hdead | hneed
    · exact .inl hdead
    obtain ⟨hsat, hcov⟩ := needDnl_eq_false hneed
    obtain ⟨-, d, hd, hmatch, hall⟩ := ht e y hx t htimer hsat
    exact .inr ⟨d, (hall N hN).mono (subset_append_left _ _), hmatch, hd ▸ hcov⟩

lemma noncesKept_stage (ht : AllTell E past fw) (hf : s.Fits E fw) (hs : stage E fw s = some fw') :
    NoncesKept E (past ++ [(fw, s)]) fw fw' ↔ RenewalKept E past fw s := by
  cases s with
  | call a => exact noncesKept_call.trans (noncesKept_perform hs)
  | _ => exact iff_of_true (noncesKept_pipelines ht hf nofun hs) trivial

/-- In every run, the Nonces that a stage gives up have been added to the Dead Nonce List or have
been satisfied for good, if and only if the stage is no call that renews an out-record and
forgets the Nonce it had. -/
theorem nonces_kept_iff (E : Setting C S) (strategy : Strategy C S σ ω) (st : σ)
    {evs : List (Event C S ω)} {before after : List (Forwarder C S × Stage C S)}
    (h : Path (step E strategy) Any ⟨{}, st⟩ evs n)
    (hpos : trace (stage E) {} (stagesOfRun E strategy ⟨{}, st⟩ evs) = before ++ (fw, s) :: after)
    (hs : stage E fw s = some fw') :
    NoncesKept E (before ++ [(fw, s)]) fw fw' ↔ RenewalKept E before fw s := by
  have hempty : AllTell E [] ({} : Forwarder C S) := by
    intro e x hx
    simp at hx
  obtain ⟨ht, hf⟩ := (path_stages h).trace_invariant
    (fun past fw s fw' hI hf hs => hI.stage hf hs) hempty hpos
  exact noncesKept_stage ht hf hs

end Stages

/-- Data from face 2 deletes the out-record of the Interest that it satisfies. -/
theorem nonces_kept_iff_satisfied :
    ∃ n before fw fw' after, Path (step localSetting (toFace 2)) Any ⟨{}, ()⟩ exchange n ∧
      trace (stage localSetting) {} (stagesOfRun localSetting (toFace 2) ⟨{}, ()⟩ exchange) =
        before ++ (fw, .satisfied 0 2 ⟨[5], none⟩) :: after ∧
      stage localSetting fw (.satisfied 0 2 ⟨[5], none⟩) = some fw' ∧ Stores fw 0 7 ∧
      NoncesKept localSetting (before ++ [(fw, .satisfied 0 2 ⟨[5], none⟩)]) fw fw' := by
  obtain ⟨n, before, fw, fw', after, hpath, hpos, hs, hst⟩ : ∃ n before fw fw' after,
      Path (step localSetting (toFace 2)) Any ⟨{}, ()⟩ exchange n ∧
      trace (stage localSetting) {} (stagesOfRun localSetting (toFace 2) ⟨{}, ()⟩ exchange) =
        before ++ (fw, .satisfied 0 2 ⟨[5], none⟩) :: after ∧
      stage localSetting fw (.satisfied 0 2 ⟨[5], none⟩) = some fw' ∧ Stores fw 0 7 :=
    ⟨_, [_, _, _, _, _], _, _, _, path_of_run (fun _ _ => trivial) rfl, rfl, rfl, by decide, _, rfl,
      by decide⟩
  have hkept := (nonces_kept_iff localSetting (toFace 2) () hpath hpos hs).mpr trivial
  exact ⟨n, before, fw, fw', after, hpath, hpos, hs, hst, hkept⟩

/-- A retransmission from face 1 with another Nonce renews the out-record of face 2; the first
Nonce is forgotten. -/
theorem renewed_nonce_forgotten :
    ∃ n before fw fw', Path (step localSetting (toFace 2)) Any ⟨{}, ()⟩
        [.interest 1 ⟨⟨[5], ()⟩, 7, none⟩ false none,
          .interest 1 ⟨⟨[5], ()⟩, 8, none⟩ false none] n ∧
      trace (stage localSetting) {} (stagesOfRun localSetting (toFace 2) ⟨{}, ()⟩
        [.interest 1 ⟨⟨[5], ()⟩, 7, none⟩ false none,
          .interest 1 ⟨⟨[5], ()⟩, 8, none⟩ false none]) =
        before ++ [(fw, .call (.sendInterest 0 2 none))] ∧
      stage localSetting fw (.call (.sendInterest 0 2 none)) = some fw' ∧
      ¬ NoncesKept localSetting (before ++ [(fw, .call (.sendInterest 0 2 none))]) fw fw' := by
  refine ⟨_, [_, _, _, _, _, _, _], _, _, path_of_run (fun _ _ => trivial) rfl, rfl, rfl, ?_⟩
  intro h
  have hlost := h 0 _ 7 rfl ⟨by decide, _, rfl, by decide⟩ ?_
  · rcases hlost with hdead | ⟨d, ⟨fw, inFace, -, hmem⟩, -⟩
    · cases hdead
    · simp at hmem
  rintro ⟨-, x, hx, hN⟩
  cases hx
  revert hN
  decide

end NfdGateway.Fw
