import NfdGateway.Fw.Forwarder

/-! What the steps of the pipelines leave alone: the records and timers of all PIT entries but
the one they work on. -/
namespace NfdGateway.Fw

open List Option

variable {C S : Type} {E : Setting C S} {fw fw' fw'' : Forwarder C S} {e : PitEntryId}
  {x : Entry C S} {A B : Set PitEntryId} {f : Entry C S → Entry C S}

structure SameRecords (x x' : Entry C S) : Prop where
  interest : x'.interest = x.interest
  inRecords : x'.inRecords = x.inRecords
  unsatisfyTimer : x'.unsatisfyTimer = x.unsatisfyTimer
  stragglerTimer : x'.stragglerTimer = x.stragglerTimer

lemma SameRecords.refl (x : Entry C S) : SameRecords x x := ⟨rfl, rfl, rfl, rfl⟩

lemma SameRecords.trans {x y z : Entry C S} (h : SameRecords x y) (h' : SameRecords y z) :
    SameRecords x z :=
  ⟨h'.interest.trans h.interest, h'.inRecords.trans h.inRecords,
    h'.unsatisfyTimer.trans h.unsatisfyTimer, h'.stragglerTimer.trans h.stragglerTimer⟩

/-- From `fw` to `fw'` no time passes, no entry changes its Interest, and entries outside `A`
keep their place in the PIT, their in-records and their timers. -/
structure Touches (A : Set PitEntryId) (fw fw' : Forwarder C S) : Prop where
  now : fw'.now = fw.now
  pit : ∀ e ∉ A, e ∈ fw'.pit ↔ e ∈ fw.pit
  entries : ∀ e x, fw.entries[e]? = some x →
    ∃ x', fw'.entries[e]? = some x' ∧ x'.interest = x.interest ∧ (e ∉ A → SameRecords x x')

lemma Touches.refl (A : Set PitEntryId) (fw : Forwarder C S) : Touches A fw fw :=
  ⟨rfl, fun _ _ => Iff.rfl, fun _ x h => ⟨x, h, rfl, fun _ => .refl x⟩⟩

lemma Touches.mono (h : Touches A fw fw') (hsub : A ⊆ B) : Touches B fw fw' := by
  refine ⟨h.now, fun e he => h.pit e fun hA => he (hsub hA), ?_⟩
  intro e x hx
  obtain ⟨x', hx', hi, hsame⟩ := h.entries e x hx
  exact ⟨x', hx', hi, fun he => hsame fun hA => he (hsub hA)⟩

lemma Touches.trans (h : Touches A fw fw') (h' : Touches A fw' fw'') : Touches A fw fw'' := by
  refine ⟨h'.now.trans h.now, fun e he => (h'.pit e he).trans (h.pit e he), ?_⟩
  intro e x hx
  obtain ⟨x', hx', hi, hsame⟩ := h.entries e x hx
  obtain ⟨x'', hx'', hi', hsame'⟩ := h'.entries e x' hx'
  exact ⟨x'', hx'', hi'.trans hi, fun he => (hsame he).trans (hsame' he)⟩

lemma Touches.quiet (h : Touches ∅ fw fw') : Touches A fw fw' := h.mono (Set.empty_subset A)

namespace Forwarder

lemma getElem?_modifyEntry_self (hx : fw.entries[e]? = some x) :
    (fw.modifyEntry e f).entries[e]? = some (f x) := by
  simp [modifyEntry, hx]

lemma getElem?_modifyEntry_of_ne {e' : PitEntryId} (h : e' ≠ e) :
    (fw.modifyEntry e f).entries[e']? = fw.entries[e']? := by
  simp [modifyEntry, getElem?_modify_ne _ _ h.symm]

lemma modifyEntry_cases {e' : PitEntryId} {x' : Entry C S}
    (h : (fw.modifyEntry e f).entries[e']? = some x') :
    e' ≠ e ∧ fw.entries[e']? = some x' ∨
      e' = e ∧ ∃ x, fw.entries[e]? = some x ∧ x' = f x := by
  by_cases he : e' = e
  · subst he
    refine .inr ⟨rfl, ?_⟩
    simp only [modifyEntry, getElem?_modify_eq, Option.map_eq_map] at h
    obtain ⟨x, hx, hf⟩ := map_eq_some_iff.mp h
    exact ⟨x, hx, hf.symm⟩
  · rw [getElem?_modifyEntry_of_ne he] at h
    exact .inl ⟨he, h⟩

variable (fw e)

lemma touches_modifyEntry (hf : ∀ x, (f x).interest = x.interest)
    (hA : e ∈ A) : Touches A fw (fw.modifyEntry e f) := by
  refine ⟨rfl, fun _ _ => Iff.rfl, ?_⟩
  intro e' x hx
  by_cases he : e' = e
  · subst he
    exact ⟨f x, getElem?_modifyEntry_self hx, hf x, fun hno => absurd hA hno⟩
  · exact ⟨x, (getElem?_modifyEntry_of_ne he).trans hx, rfl, fun _ => .refl x⟩

lemma touches_cancelTimers : Touches {e} fw (fw.cancelUnsatisfyAndStragglerTimer e) :=
  touches_modifyEntry fw e (fun _ => rfl) (Set.mem_singleton e)

lemma touches_setUnsatisfyTimer : Touches {e} fw (fw.setUnsatisfyTimer e) :=
  touches_modifyEntry fw e (fun _ => rfl) (Set.mem_singleton e)

lemma touches_setStragglerTimer (isSatisfied : Bool) (freshness : Option ℕ) :
    Touches {e} fw (fw.setStragglerTimer e isSatisfied freshness) :=
  touches_modifyEntry fw e (fun _ => rfl) (Set.mem_singleton e)

lemma quiet_modifyEntry (hf : ∀ x, SameRecords x (f x)) : Touches ∅ fw (fw.modifyEntry e f) := by
  refine ⟨rfl, fun _ _ => Iff.rfl, ?_⟩
  intro e' x hx
  by_cases he : e' = e
  · subst he
    exact ⟨f x, getElem?_modifyEntry_self hx, (hf x).interest, fun _ => hf x⟩
  · exact ⟨x, (getElem?_modifyEntry_of_ne he).trans hx, rfl, fun _ => .refl x⟩

lemma quiet_send (face : FaceId) (p : Packet C S) : Touches ∅ fw (fw.send face p) :=
  ⟨rfl, fun _ _ => Iff.rfl, fun _ x h => ⟨x, h, rfl, fun _ => .refl x⟩⟩

lemma insertDeadNonceList_eq (isSatisfied : Bool) (freshness : Option ℕ)
    (upstream : Option FaceId) :
    ∃ l, fw.insertDeadNonceList E e isSatisfied freshness upstream =
      { fw with deadNonces := l } := by
  unfold insertDeadNonceList
  split
  · exact ⟨_, rfl⟩
  split <;> exact ⟨_, rfl⟩

lemma quiet_insertDeadNonceList (isSatisfied : Bool) (freshness : Option ℕ)
    (upstream : Option FaceId) :
    Touches ∅ fw (fw.insertDeadNonceList E e isSatisfied freshness upstream) := by
  obtain ⟨l, h⟩ := fw.insertDeadNonceList_eq e isSatisfied freshness upstream
  rw [h]
  exact ⟨rfl, fun _ _ => Iff.rfl, fun _ x h => ⟨x, h, rfl, fun _ => .refl x⟩⟩

lemma quiet_onInterestLoop (inFace : FaceId) (i : InterestPacket C S) :
    Touches ∅ fw (fw.onInterestLoop E inFace i) := by
  unfold onInterestLoop
  split
  · exact .refl _ _
  · exact quiet_send ..

lemma touches_onInterestFinalize (isSatisfied : Bool) (freshness : Option ℕ) :
    Touches {e} fw (fw.onInterestFinalize E e isSatisfied freshness) := by
  have hcancel := (quiet_insertDeadNonceList (E := E) fw e isSatisfied freshness none).quiet.trans
    (touches_cancelTimers _ e)
  refine ⟨hcancel.now, ?_, hcancel.entries⟩
  intro e' he'
  exact (mem_erase_of_ne he').trans (hcancel.pit e' he')

lemma onOutgoingNack_cases (outFace : FaceId) (reason : NackReason) :
    fw.onOutgoingNack E e outFace reason = fw ∨
      ∃ x r, fw.entries[e]? = some x ∧ x.getInRecord outFace = some r ∧
        fw.onOutgoingNack E e outFace reason = (fw.modifyEntry e fun x =>
          x.deleteInRecord outFace).send outFace (.nack r.interest reason) := by
  unfold onOutgoingNack
  split
  · exact .inl rfl
  split
  · exact .inl rfl
  rename_i r hr
  obtain ⟨x, hx, hr⟩ := bind_eq_some_iff.mp hr
  split
  · exact .inl rfl
  · exact .inr ⟨x, r, hx, hr, rfl⟩

lemma onInterestReject_cases : fw.onInterestReject e = fw ∨ fw.onInterestReject e =
      (fw.cancelUnsatisfyAndStragglerTimer e).setStragglerTimer e false none := by
  unfold onInterestReject
  split
  · exact .inl rfl
  · exact .inr rfl

variable [DecidableEq C]

lemma onOutgoingData_cases (data : Data C) (outFace : FaceId) :
    fw.onOutgoingData E data outFace = fw ∨ E.violatesLocalhost outFace data.name = false ∧
      fw.onOutgoingData E data outFace = fw.send outFace (.data data) := by
  unfold onOutgoingData
  split
  · exact .inl rfl
  split
  · exact .inl rfl
  next hviol =>
    exact .inr ⟨Bool.eq_false_of_not_eq_true hviol, rfl⟩

lemma quiet_onOutgoingData (data : Data C) (outFace : FaceId) :
    Touches ∅ fw (fw.onOutgoingData E data outFace) := by
  rcases fw.onOutgoingData_cases data outFace with h | ⟨-, h⟩
  · rw [h]
    exact .refl _ _
  · rw [h]
    exact quiet_send ..

variable {fw e} {newNonce : Option Nonce} {outFace : FaceId}

lemma onOutgoingInterest_cases (h : fw.onOutgoingInterest E e outFace newNonce = some fw') :
    fw' = fw ∨ ∃ x r, fw.entries[e]? = some x ∧ violatesScope E x outFace = false ∧
      x.pickInterest outFace = some r ∧
      fw' = (fw.modifyEntry e fun x => x.insertOrUpdateOutRecord fw.now outFace
        (outgoingInterest r newNonce)).send outFace (.interest (outgoingInterest r newNonce)) := by
  unfold onOutgoingInterest at h
  split at h
  · cases h
    exact .inl rfl
  split at h
  · cases h
  rename_i x hx
  split at h
  · cases h
    exact .inl rfl
  rename_i hscope
  split at h
  · cases h
  rename_i r hr
  cases h
  exact .inr ⟨x, r, hx, Bool.eq_false_of_not_eq_true hscope, hr, rfl⟩

lemma quiet_onOutgoingInterest
    (h : fw.onOutgoingInterest E e outFace newNonce = some fw') : Touches ∅ fw fw' := by
  rcases onOutgoingInterest_cases h with rfl | ⟨x, r, -, -, -, rfl⟩
  · exact .refl _ _
  · refine (quiet_modifyEntry fw e ?_).trans (quiet_send ..)
    exact fun x => ⟨rfl, rfl, rfl, rfl⟩

variable [DecidableEq S]

lemma findPit_eq_some {j : Interest C S} (h : fw.findPit j = some e) :
    e ∈ fw.pit ∧ ∃ x, fw.entries[e]? = some x ∧ x.interest.toInterest = j := by
  have hfound := find?_some h
  obtain ⟨x, hx, hi⟩ := (Option.any_eq_true _ _).mp hfound
  exact ⟨mem_of_find?_eq_some h, x, hx, of_decide_eq_true hi⟩

lemma insertPit_spec (fw : Forwarder C S) (i : InterestPacket C S) :
    (fw.insertPit i).2 ∈ (fw.insertPit i).1.pit ∧
      (∃ x, (fw.insertPit i).1.entries[(fw.insertPit i).2]? = some x ∧
        x.interest.toInterest = i.toInterest) ∧
      Touches {e | fw.entries[e]? = none} fw (fw.insertPit i).1 := by
  unfold insertPit
  split
  next e he =>
    obtain ⟨hpit, hx⟩ := findPit_eq_some he
    exact ⟨hpit, hx, .refl _ _⟩
  refine ⟨by simp, ⟨{ interest := i }, by simp, rfl⟩, rfl, ?_, ?_⟩
  · intro e he
    have hne : e ≠ fw.entries.length := by
      rintro rfl
      exact he (getElem?_eq_none (Nat.le_refl _))
    simp [hne]
  · intro e x hx
    obtain ⟨hlt, -⟩ := List.getElem?_eq_some_iff.mp hx
    refine ⟨x, ?_, rfl, fun _ => .refl x⟩
    exact (getElem?_append_left hlt).trans hx

end Forwarder

lemma getInRecord_eq_some {face : FaceId} {r : InRecord C S} (h : x.getInRecord face = some r) :
    r ∈ x.inRecords ∧ r.face = face := by
  have hface := find?_some h
  exact ⟨mem_of_find?_eq_some h, of_decide_eq_true hface⟩

lemma mem_insertOrUpdateInRecord (x : Entry C S) (now : ℕ) (face : FaceId)
    (i : InterestPacket C S) :
    ⟨.update face now i, i⟩ ∈ (x.insertOrUpdateInRecord now face i).inRecords := by
  unfold Entry.insertOrUpdateInRecord
  split
  next j hj =>
    obtain ⟨hlt, -⟩ := findIdx?_eq_some_iff_getElem.mp hj
    exact mem_set hlt _
  · exact .head _

lemma mem_inRecords_insertOrUpdate {x : Entry C S} {now : ℕ} {face : FaceId}
    {i : InterestPacket C S} {r : InRecord C S}
    (h : r ∈ (x.insertOrUpdateInRecord now face i).inRecords) :
    r ∈ x.inRecords ∨ r = ⟨.update face now i, i⟩ := by
  unfold Entry.insertOrUpdateInRecord at h
  split at h
  · exact mem_or_eq_of_mem_set h
  · exact (mem_cons.mp h).symm

def missed (fw : Forwarder C S) (inFace : FaceId) (e : PitEntryId) (i : InterestPacket C S) :
    Forwarder C S :=
  (fw.modifyEntry e fun x => x.insertOrUpdateInRecord fw.now inFace i).setUnsatisfyTimer e

lemma dispatch_eq_some [DecidableEq C] {σ : Type} {m m' : Node C S σ} {r : Option (σ × List Action)}
    (h : m.dispatchToStrategy E r = some m') :
    ∃ acts, r = some (m'.strategy, acts) ∧
      acts.foldlM (Forwarder.perform E) m.fw = some m'.fw := by
  obtain ⟨⟨s, acts⟩, hr, h⟩ := bind_eq_some_iff.mp h
  obtain ⟨f, hf, h⟩ := bind_eq_some_iff.mp h
  cases h
  exact ⟨acts, hr, hf⟩

end NfdGateway.Fw
