import NfdGateway.Fw.Courses

/-! A PIT entry has at most one in-record and one out-record for a face, whatever the strategies
ask for. -/
namespace NfdGateway.Fw

open Transition List

variable {C S σ ω : Type} {E : Setting C S} {strategy : Strategy C S σ ω} {fw fw' : Forwarder C S}
  {n : Node C S σ} {e : PitEntryId} {x : Entry C S} {face : FaceId}

structure OnePerFace (x : Entry C S) : Prop where
  inRecords : (x.inRecords.map fun r => r.face).Nodup
  outRecords : (x.outRecords.map fun r => r.face).Nodup

lemma map_face_modify {α : Type} {f : α → FaceId} {l : List α} {i : ℕ}
    (h : l.findIdx? (fun a => f a = face) = some i) {g : α → α}
    (hg : ∀ a, f a = face → f (g a) = face) : (l.modify i g).map f = l.map f := by
  obtain ⟨hlt, hface, -⟩ := findIdx?_eq_some_iff_getElem.mp h
  have hface : f l[i] = face := of_decide_eq_true hface
  refine ext_getElem (by simp) fun j hj hj' => ?_
  rw [getElem_map, getElem_map, getElem_modify]
  split
  next hij =>
    subst hij
    rw [hg _ hface, hface]
  · rfl

lemma not_mem_map_face {α : Type} {f : α → FaceId} {l : List α}
    (h : l.findIdx? (fun a => f a = face) = none) : face ∉ l.map f := by
  intro hmem
  obtain ⟨a, ha, hface⟩ := List.mem_map.mp hmem
  have hnone := findIdx?_eq_none_iff.mp h a ha
  exact absurd hface (of_decide_eq_false hnone)

lemma OnePerFace.insertOrUpdateInRecord (h : OnePerFace x) (now : ℕ) (face : FaceId)
    (i : InterestPacket C S) : OnePerFace (x.insertOrUpdateInRecord now face i) := by
  refine ⟨?_, h.outRecords⟩
  unfold Entry.insertOrUpdateInRecord
  dsimp only
  split
  next j hj =>
    rw [set_eq_modify, map_face_modify hj fun _ _ => rfl]
    exact h.inRecords
  next hnone =>
    exact nodup_cons.mpr ⟨not_mem_map_face hnone, h.inRecords⟩

lemma OnePerFace.insertOrUpdateOutRecord (h : OnePerFace x) (now : ℕ) (face : FaceId)
    (i : InterestPacket C S) : OnePerFace (x.insertOrUpdateOutRecord now face i) := by
  refine ⟨h.inRecords, ?_⟩
  unfold Entry.insertOrUpdateOutRecord
  dsimp only
  split
  next j hj =>
    rw [map_face_modify hj fun _ _ => rfl]
    exact h.outRecords
  next hnone =>
    exact nodup_cons.mpr ⟨not_mem_map_face hnone, h.outRecords⟩

lemma OnePerFace.setIncomingNack (h : OnePerFace x) (face : FaceId) (reason : NackReason) :
    OnePerFace (x.setIncomingNack face reason) := by
  refine ⟨h.inRecords, ?_⟩
  unfold Entry.setIncomingNack
  dsimp only
  split
  next j hj =>
    have hfaces := map_face_modify hj (g := fun r => { r with incomingNack := some reason })
      fun _ hface => hface
    rw [hfaces]
    exact h.outRecords
  · exact h.outRecords

lemma OnePerFace.sublist {y : Entry C S} (h : OnePerFace x)
    (hin : y.inRecords.Sublist x.inRecords) (hout : y.outRecords.Sublist x.outRecords) :
    OnePerFace y :=
  ⟨h.inRecords.sublist (hin.map _), h.outRecords.sublist (hout.map _)⟩

def AllOnePerFace (fw : Forwarder C S) : Prop :=
  ∀ (e : PitEntryId) (x : Entry C S), fw.entries[e]? = some x → OnePerFace x

variable [DecidableEq C] [DecidableEq S]

lemma AllOnePerFace.stage {s : Stage C S} (h : AllOnePerFace fw)
    (hs : stage E fw s = some fw') : AllOnePerFace fw' := by
  intro e x' hx'
  rcases stage_entry hs hx' with ⟨i, rfl⟩ | ⟨x, hx, hrewrite⟩
  · exact ⟨nodup_nil, nodup_nil⟩
  have hone := h e x hx
  cases hrewrite with
  | timers | hit => exact ⟨hone.inRecords, hone.outRecords⟩
  | @miss inFace e i x u =>
    have hmiss := hone.insertOrUpdateInRecord fw.now inFace i
    exact ⟨hmiss.inRecords, hmiss.outRecords⟩
  | satisfied => exact hone.sublist (nil_sublist _) eraseP_sublist
  | nacked => exact hone.setIncomingNack _ _
  | interest => exact hone.insertOrUpdateOutRecord _ _ _
  | nack => exact hone.sublist eraseP_sublist (List.Sublist.refl _)

/-- In every run, whatever the strategies ask for, no entry has two records for a face. -/
theorem one_record_per_face {st : σ} (h : Reach (step E strategy) Any ⟨{}, st⟩ n)
    (hx : n.fw.entries[e]? = some x) : OnePerFace x := by
  have hall : AllOnePerFace n.fw := by
    refine (reach_stages h).invariant ?_ fun _ _ _ hn _ hs => hn.stage hs
    intro e x hx
    cases hx
  exact hall e x hx

/-- Two consumers, one of which asks again with another Nonce. -/
theorem one_record_per_face_renewed :
    ∃ x : Entry ℕ Unit, x.inRecords.length = 2 ∧ OnePerFace x := by
  obtain ⟨n, hrun, x, hx, hlen⟩ : ∃ n, run (step localSetting (toFace 3)) ⟨{}, ()⟩
      [.interest 1 ⟨⟨[5], ()⟩, 7, none⟩ false none, .interest 2 ⟨⟨[5], ()⟩, 8, none⟩ false none,
        .interest 1 ⟨⟨[5], ()⟩, 9, none⟩ false none] = some n ∧
      ∃ x, n.fw.entries[0]? = some x ∧ x.inRecords.length = 2 := ⟨_, rfl, _, rfl, rfl⟩
  exact ⟨x, hlen, one_record_per_face (reach_of_run .init hrun) hx⟩

end NfdGateway.Fw
