import NfdGateway.Fw.Courses

/-! Which Interest `onOutgoingInterest` sends when a PIT entry has several in-records. -/
namespace NfdGateway.Fw

open MaxElement List

variable {C S : Type} {x : Entry C S} {r : InRecord C S} {outFace : FaceId}

def pickable (outFace : FaceId) (l : List (InRecord C S)) : List (InRecord C S) :=
  if l.all fun r => r.face = outFace then l else l.filter fun r => r.face ≠ outFace

structure IsLatest (outFace : FaceId) (l : List (InRecord C S)) (r : InRecord C S) : Prop where
  mem : r ∈ pickable outFace l
  latest : ∀ r' ∈ pickable outFace l, r'.lastRenewed ≤ r.lastRenewed

lemma pickable_sublist (outFace : FaceId) (l : List (InRecord C S)) :
    (pickable outFace l).Sublist l := by
  unfold pickable
  split
  · exact List.Sublist.refl l
  · exact filter_sublist

def pickKey (outFace : FaceId) (r : InRecord C S) : Lex (Bool × ℕᵒᵈ) :=
  toLex (decide (r.face ≠ outFace), OrderDual.toDual r.lastRenewed)

lemma comparePickInterest_eq_keyLt (outFace : FaceId) :
    comparePickInterest (C := C) (S := S) outFace = keyLt (pickKey outFace) := by
  funext a b
  unfold comparePickInterest keyLt pickKey
  by_cases ha : a.face = outFace <;> by_cases hb : b.face = outFace <;>
    simp [ha, hb, Prod.Lex.toLex_lt_toLex]

lemma pickInterest_earliest (h : x.pickInterest outFace = some r) :
    r ∈ pickable outFace x.inRecords ∧
      ∀ r' ∈ pickable outFace x.inRecords, r.lastRenewed ≤ r'.lastRenewed := by
  have hmem : r ∈ x.inRecords := maxElement_mem h
  have hmax : ∀ r' ∈ x.inRecords, pickKey outFace r' ≤ pickKey outFace r := by
    intro r' hr'
    rw [Entry.pickInterest, comparePickInterest_eq_keyLt] at h
    exact le_maxElement h hr'
  unfold pickable
  split
  next hall =>
    rw [List.all_eq_true] at hall
    refine ⟨hmem, fun r' hr' => ?_⟩
    have hface := of_decide_eq_true (hall r hmem)
    have hface' := of_decide_eq_true (hall r' hr')
    simpa [pickKey, hface, hface', Prod.Lex.toLex_le_toLex] using hmax r' hr'
  rename_i hall
  obtain ⟨s, hs, hsface⟩ : ∃ s ∈ x.inRecords, s.face ≠ outFace := by simpa using hall
  have hface : r.face ≠ outFace := by
    intro hr
    have hlt : true < false := by
      simpa [pickKey, hr, hsface, Prod.Lex.toLex_le_toLex] using hmax s hs
    exact absurd hlt (by decide)
  refine ⟨by simp [hmem, hface], fun r' hr' => ?_⟩
  obtain ⟨hr'mem, hface'⟩ : r' ∈ x.inRecords ∧ r'.face ≠ outFace := by simpa using hr'
  simpa [pickKey, hface, hface', Prod.Lex.toLex_le_toLex] using hmax r' hr'mem

lemma isLatest_iff_of_earliest {l : List (InRecord C S)}
    (hdistinct : (l.map fun r => r.lastRenewed).Nodup) (hmem : r ∈ pickable outFace l)
    (hfirst : ∀ r' ∈ pickable outFace l, r.lastRenewed ≤ r'.lastRenewed) :
    IsLatest outFace l r ↔ (pickable outFace l).length = 1 := by
  constructor
  · intro hlatest
    have hnodup := hdistinct.sublist ((pickable_sublist outFace l).map _)
    have hsame : ∀ t ∈ (pickable outFace l).map fun r => r.lastRenewed, t = r.lastRenewed := by
      intro t ht
      obtain ⟨r', hr', rfl⟩ := List.mem_map.mp ht
      exact Nat.le_antisymm (hlatest.latest r' hr') (hfirst r' hr')
    have hle : (pickable outFace l).length ≤ 1 := by
      rw [eq_replicate_of_mem hsame, length_map, nodup_replicate] at hnodup
      exact hnodup
    have hpos := length_pos_of_mem hmem
    omega
  · intro hone
    obtain ⟨s, hs⟩ := length_eq_one_iff.mp hone
    refine ⟨hmem, fun r' hr' => ?_⟩
    rw [hs, mem_singleton] at hmem hr'
    rw [hmem, hr']

variable [DecidableEq C]

/-- The Interest of an in-record is sent, and that in-record is the documented one exactly when
there was nothing to choose. -/
theorem last_interest_picked_iff (E : Setting C S) (fw : Forwarder C S) (e : PitEntryId)
    (outFace : FaceId) (newNonce : Option Nonce) (hx : fw.entries[e]? = some x)
    (hin : x.inRecords ≠ []) (hdistinct : (x.inRecords.map fun r => r.lastRenewed).Nodup)
    (hface : outFace ≠ 0) (hscope : violatesScope E x outFace = false) :
    ∃ r, x.pickInterest outFace = some r ∧
      fw.onOutgoingInterest E e outFace newNonce = some
        ((fw.modifyEntry e fun x => x.insertOrUpdateOutRecord fw.now outFace
          (Forwarder.outgoingInterest r newNonce)).send outFace
            (.interest (Forwarder.outgoingInterest r newNonce))) ∧
      (IsLatest outFace x.inRecords r ↔ (pickable outFace x.inRecords).length = 1) := by
  obtain ⟨r, hr⟩ : ∃ r, x.pickInterest outFace = some r := maxElement_isSome hin
  obtain ⟨hmem, hfirst⟩ := pickInterest_earliest hr
  refine ⟨r, hr, ?_, isLatest_iff_of_earliest hdistinct hmem hfirst⟩
  simp only [Forwarder.onOutgoingInterest, hface, if_false, hx, hscope, Bool.false_eq_true, hr]

def twoDownstreams : List (Event ℕ Unit Unit) :=
  [.interest 1 ⟨⟨[5], ()⟩, 7, none⟩ false none, .advance 1,
    .interest 2 ⟨⟨[5], ()⟩, 8, none⟩ false none]

/-- On the second Interest, the first one is sent again. -/
theorem first_interest_picked :
    ∃ n, Transition.run (step localSetting (toFace 3)) ⟨{}, ()⟩ twoDownstreams = some n ∧
      n.fw.sent = [(3, .interest ⟨⟨[5], ()⟩, 7, none⟩), (3, .interest ⟨⟨[5], ()⟩, 7, none⟩)] ∧
      ∃ x r, n.fw.entries[0]? = some x ∧ r.lastNonce = 8 ∧ IsLatest 3 x.inRecords r := by
  let last : InRecord ℕ Unit := ⟨⟨2, 8, 1, 4000000001⟩, ⟨⟨[5], ()⟩, 8, none⟩⟩
  refine ⟨_, rfl, rfl, _, last, rfl, rfl, ?_, ?_⟩
  · decide
  · decide

/-- There are two in-records to choose from. -/
theorem last_interest_picked_two :
    let i : InterestPacket ℕ Unit := ⟨⟨[5], ()⟩, 7, none⟩
    let x := (({ interest := i } : Entry ℕ Unit).insertOrUpdateInRecord 0 1
      i).insertOrUpdateInRecord 1 2 { i with nonce := 8 }
    ∃ r, x.pickInterest 3 = some r ∧
      Forwarder.onOutgoingInterest localSetting { entries := [x], pit := [0] } 0 3 none = some
        ((Forwarder.modifyEntry { entries := [x], pit := [0] } 0 fun x =>
          x.insertOrUpdateOutRecord 0 3 (Forwarder.outgoingInterest r none)).send 3
            (.interest (Forwarder.outgoingInterest r none))) ∧
      (IsLatest 3 x.inRecords r ↔ (pickable 3 x.inRecords).length = 1) :=
  last_interest_picked_iff localSetting _ 0 3 none rfl (by decide) (by decide) (by decide)
    (by decide)

end NfdGateway.Fw
