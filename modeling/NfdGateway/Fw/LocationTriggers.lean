import NfdGateway.Fw.Frame
import NfdGateway.Fw.LocationRoute
import NfdGateway.Location.Received

/-! What the triggers of `LocationRouteStrategy` do to the marks of the route table, to its
timers and to the forwarder. -/
namespace NfdGateway.Fw

open List Option

open Location (Coordinate Params Received Marks calNexthos NothingToChoose)
open LocationRoute (destination sendAll)

variable {C S : Type} {E : Setting C S} {P : Params} {destOf : Name C → Option Coordinate}
  {fw fw' : Forwarder C S} {st st' : LocationRoute} {e : PitEntryId} {A : Set PitEntryId}
  {dest : Coordinate} {inFace : FaceId} {i : InterestPacket C S} {acts : List Action}

lemma destination_of_touches (h : destination destOf fw e = some dest)
    (ht : Touches A fw fw') : destination destOf fw' e = some dest := by
  obtain ⟨x, hx, hdest⟩ := bind_eq_some_iff.mp h
  obtain ⟨x', hx', hi, -⟩ := ht.entries e x hx
  apply bind_eq_some_iff.mpr
  exact ⟨x', hx', hi ▸ hdest⟩

section Sending

variable [DecidableEq C]

lemma quiet_sendAll {faces : List FaceId}
    (h : (sendAll e faces).foldlM (Forwarder.perform E) fw = some fw') : Touches ∅ fw fw' := by
  induction faces generalizing fw with
  | nil =>
    cases h
    exact .refl _ _
  | cons f faces ih =>
    obtain ⟨fw₁, hone, hrest⟩ := bind_eq_some_iff.mp h
    exact (Forwarder.quiet_onOutgoingInterest hone).trans (ih hrest)

end Sending

lemma mapM_id_eq_some {α : Type} {l : List (Option α)} {r : List α}
    (h : l.mapM id = some r) : none ∉ l := by
  induction l generalizing r with
  | nil => exact not_mem_nil
  | cons a l ih =>
    rw [mapM_cons] at h
    obtain ⟨b, hb, h⟩ := bind_eq_some_iff.mp h
    obtain ⟨bs, hbs, -⟩ := bind_eq_some_iff.mp h
    intro hmem
    rcases mem_cons.mp hmem with hnone | hmem
    · cases hnone.trans hb
    · exact ih hbs hmem

lemma afterReceiveInterest_cases
    (h : LocationRoute.afterReceiveInterest P destOf fw inFace i e st = some (st', acts)) :
    (st' = st ∧ acts = []) ∨ ∃ dest o faces, destOf i.name = some dest ∧
      calNexthos P { st with incoming := inFace }.gateway dest = .ok o ∧ none ∉ o.faces ∧
      acts = sendAll e faces ∧ st'.table = o.table ∧
      st'.timers = if o.timer then ⟨e, fw.now + milliseconds 1000⟩ :: st.timers else st.timers := by
  obtain ⟨x, -, h⟩ := bind_eq_some_iff.mp h
  split at h
  · cases h
    exact .inl ⟨rfl, rfl⟩
  obtain ⟨dest, hdest, h⟩ := bind_eq_some_iff.mp h
  obtain ⟨o, ho, h⟩ := bind_eq_some_iff.mp h
  obtain ⟨faces, hfaces, h⟩ := bind_eq_some_iff.mp h
  cases h
  refine .inr ⟨dest, o, faces, hdest, ?_, mapM_id_eq_some hfaces, rfl, rfl, rfl⟩
  cases hcal : calNexthos P { st with incoming := inFace }.gateway dest with
  | error e =>
    rw [hcal] at ho
    cases ho
  | ok o' =>
    rw [hcal] at ho
    cases ho
    rfl

def InterestOk (P : Params) (destOf : Name C → Option Coordinate) (st : LocationRoute)
    (inFace : FaceId) (i : InterestPacket C S) : Prop :=
  1000 < i.lifetime.getD defaultInterestLifetime ∧
    (P.self = {} → ∀ dest, destOf i.name = some dest →
      ¬ NothingToChoose P { st with incoming := inFace }.gateway dest)

lemma afterReceiveInterest_spec (hok : InterestOk P destOf st inFace i)
    (h : LocationRoute.afterReceiveInterest P destOf fw inFace i e st = some (st', acts)) :
    (∃ faces, acts = sendAll e faces) ∧ (∀ d, Received st.table d → Received st'.table d) ∧
      ∀ t ∈ st'.timers, t ∈ st.timers ∨
        t = ⟨e, fw.now + milliseconds 1000⟩ ∧ ∃ dest, destOf i.name = some dest := by
  rcases afterReceiveInterest_cases h with
    ⟨rfl, rfl⟩ | ⟨dest, o, faces, hdest, ho, hno, rfl, htable, htimers⟩
  · exact ⟨⟨[], rfl⟩, fun _ hr => hr, fun _ ht => .inl ht⟩
  refine ⟨⟨faces, rfl⟩, ?_, ?_⟩
  · intro d hr
    rw [htable]
    exact hr.calNexthos (fun hself => hok.2 hself dest hdest) ho hno
  intro t ht
  rw [htimers] at ht
  split at ht
  · rcases mem_cons.mp ht with rfl | ht
    · exact .inr ⟨rfl, dest, hdest⟩
    · exact .inl ht
  · exact .inl ht

lemma beforeSatisfyInterest_cases {d : Data C}
    (h : LocationRoute.beforeSatisfyInterest destOf fw e inFace d st = some (st', acts)) :
    acts = [] ∧ ((st' = st ∧ ∀ m, (m, inFace) ∉ st.neighbors) ∨
      ∃ dest, destination destOf fw e = some dest ∧
        st' = { st with table := Location.beforeSatisfyInterest st.gateway inFace dest }) := by
  unfold LocationRoute.beforeSatisfyInterest at h
  split at h
  · obtain ⟨dest, hdest, h⟩ := bind_eq_some_iff.mp h
    cases h
    exact ⟨rfl, .inr ⟨dest, hdest, rfl⟩⟩
  rename_i hno
  cases h
  refine ⟨rfl, .inl ⟨rfl, ?_⟩⟩
  intro m hm
  exact hno (List.any_eq_true.mpr ⟨_, hm, by simp⟩)

def MarkedBy (st : LocationRoute) (inFace : FaceId) (dest : Coordinate) : Prop :=
  Received st.table dest ∨ Marks st.neighbors st.table inFace dest

lemma beforeSatisfyInterest_spec {d : Data C}
    (h : LocationRoute.beforeSatisfyInterest destOf fw e inFace d st = some (st', acts)) :
    st'.timers = st.timers ∧ (∀ d, Received st.table d → Received st'.table d) ∧
      (∀ d, MarkedBy st inFace d → MarkedBy st' inFace d) ∧
      ∀ dest, destination destOf fw e = some dest → MarkedBy st inFace dest →
        Received st'.table dest := by
  obtain ⟨-, ⟨rfl, hno⟩ | ⟨dest, hdest, rfl⟩⟩ := beforeSatisfyInterest_cases h
  · refine ⟨rfl, fun _ hr => hr, fun _ hm => hm, ?_⟩
    rintro dest - (hr | ⟨m, hm, -⟩)
    · exact hr
    · exact absurd hm (hno m)
  have hkeep : ∀ d, Received st.table d →
      Received (Location.beforeSatisfyInterest st.gateway inFace dest) d :=
    fun d hr => Received.beforeSatisfyInterest inFace hr
  have hown : MarkedBy st inFace dest →
      Received (Location.beforeSatisfyInterest st.gateway inFace dest) dest := by
    rintro (hr | hm)
    · exact hkeep dest hr
    · exact Marks.received (s := st.gateway) hm
  refine ⟨rfl, hkeep, ?_, ?_⟩
  · intro d hd
    by_cases hdd : d = dest
    · subst hdd
      exact .inl (hown hd)
    rcases hd with hr | hm
    · exact .inl (hkeep d hr)
    · exact .inr (Marks.other (s := st.gateway) hm hdd)
  · intro dest' hdest' hd
    obtain rfl : dest = dest' := some.inj (hdest.symm.trans hdest')
    exact hown hd

end NfdGateway.Fw
