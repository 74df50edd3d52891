import NfdGateway.Fw.BestRoute
import NfdGateway.Fw.RecordFaces

/-! A round of Nacks under `BestRouteStrategy2`: every upstream of a PIT entry answers with a Nack,
and the downstreams get one when the last of them has. -/
namespace NfdGateway.Fw.BestRoute

open Transition List Option
open Table.Fib (NextHop)

variable {C S : Type} {E : Setting C S} {x y : Entry C S} {e : PitEntryId} {fw : Forwarder C S}
  {order : List FaceId → List FaceId} {sort : List (NextHop FaceId) → List (NextHop FaceId)}
  {reasonOf : FaceId → NackReason} {fs : List FaceId} {f : FaceId} {reason : NackReason}

/-! ### The least severe reason -/

def IsLeastSevere (l : List NackReason) (r : NackReason) : Prop :=
  r ∈ l ∧ ∀ r' ∈ l, r' ≠ .none → r ≠ .none ∧ code r ≤ code r'

lemma isLeastSevere_pair (a b : NackReason) : IsLeastSevere [a, b] (compareLessSevere a b) := by
  unfold IsLeastSevere
  cases a <;> cases b <;> decide

lemma isLeastSevere_cons {a b : NackReason} {l : List NackReason} {r : NackReason}
    (h : IsLeastSevere (compareLessSevere a b :: l) r) : IsLeastSevere (a :: b :: l) r := by
  obtain ⟨hpair, hpairle⟩ := isLeastSevere_pair a b
  obtain ⟨hmem, hle⟩ := h
  constructor
  · rcases mem_cons.mp hmem with rfl | hmem
    · exact mem_append_left l hpair
    · exact .tail _ (.tail _ hmem)
  intro r' hr' hne
  have hcases : r' ∈ [a, b] ∨ r' ∈ l := mem_append.mp hr'
  rcases hcases with hr' | hr'
  · obtain ⟨hcmp, hcmple⟩ := hpairle r' hr' hne
    obtain ⟨hr, hrle⟩ := hle _ (.head _) hcmp
    exact ⟨hr, Nat.le_trans hrle hcmple⟩
  · exact hle r' (.tail _ hr') hne

lemma isLeastSevere_foldl (a : NackReason) (l : List NackReason) :
    IsLeastSevere (a :: l) (l.foldl compareLessSevere a) := by
  induction l generalizing a with
  | nil => exact ⟨.head _, fun r' hr' hne => mem_singleton.mp hr' ▸ ⟨hne, Nat.le_refl _⟩⟩
  | cons b l ih => exact isLeastSevere_cons (ih (compareLessSevere a b))

lemma isLeastSevere_scan {l : List NackReason} (hl : l ≠ []) :
    IsLeastSevere l (l.foldl compareLessSevere .none) := by
  obtain ⟨hmem, hle⟩ := isLeastSevere_foldl .none l
  refine ⟨?_, fun r' hr' => hle r' (.tail _ hr')⟩
  rcases mem_cons.mp hmem with hnone | hmem
  · obtain ⟨r', hr'⟩ := exists_mem_of_ne_nil l hl
    by_cases hr'none : r' = .none
    · rw [hnone]
      exact hr'none ▸ hr'
    · exact absurd hnone (hle r' (.tail _ hr') hr'none).1
  · exact hmem

/-! ### What the strategy makes of the out-records -/

def leastSevereReason (x : Entry C S) : NackReason :=
  (x.outRecords.filterMap fun r => r.incomingNack).foldl compareLessSevere .none

def Unanswered (x : Entry C S) : Prop := ∃ r ∈ x.outRecords, r.incomingNack = none

lemma scan_spec (l : List OutRecord) (s : NackScan) :
    (l.foldl NackScan.next s).nOutRecordsNotNacked =
        s.nOutRecordsNotNacked + l.countP (fun r => r.incomingNack.isNone) ∧
      (l.foldl NackScan.next s).leastSevereReason =
        (l.filterMap fun r => r.incomingNack).foldl compareLessSevere s.leastSevereReason ∧
      ∀ f, (l.foldl NackScan.next s).lastFaceNotNacked = some f →
        s.lastFaceNotNacked = some f ∨ ∃ r ∈ l, r.face = f := by
  induction l generalizing s with
  | nil => exact ⟨rfl, rfl, fun f hf => .inl hf⟩
  | cons r l ih =>
    obtain ⟨hcount, hleast, hlast⟩ := ih (s.next r)
    rw [foldl_cons, hcount, hleast, NackScan.next]
    have hlast' : ∀ f, (l.foldl NackScan.next (s.next r)).lastFaceNotNacked = some f →
        (s.next r).lastFaceNotNacked = some f ∨ ∃ r' ∈ r :: l, r'.face = f :=
      fun f hf => (hlast f hf).imp_right fun ⟨r', hr', hface⟩ => ⟨r', .tail _ hr', hface⟩
    cases hr : r.incomingNack with
    | none =>
      refine ⟨?_, ?_, fun f hf => ?_⟩
      · rw [countP_cons_of_pos (by simp [hr])]
        dsimp only
        omega
      · rw [filterMap_cons_none hr]
      rcases hlast' f (by rwa [NackScan.next, hr]) with hf | hf
      · rw [NackScan.next, hr] at hf
        exact .inr ⟨r, .head _, some.inj hf⟩
      · exact .inr hf
    | some reason =>
      refine ⟨?_, ?_, fun f hf => ?_⟩
      · rw [countP_cons_of_neg (by simp [hr])]
      · rw [filterMap_cons_some hr, foldl_cons]
      · have hf' := hlast' f (by rwa [NackScan.next, hr])
        rwa [NackScan.next, hr] at hf'

def Apart (x : Entry C S) : Prop := ∀ r ∈ x.outRecords, x.getInRecord r.face = none

open Classical in
lemma afterReceiveNack_eq (hy : fw.entries[e]? = some y) (hapart : Apart y) (inFace : FaceId)
    (i : InterestPacket C S) (reason : NackReason) (st : BestRoute C) :
    afterReceiveNack order fw inFace i reason e st = some (st,
      if Unanswered y then [] else sendNacks order y e (leastSevereReason y)) := by
  obtain ⟨hcount, hleast, hlast⟩ := scan_spec y.outRecords {}
  generalize hs : y.outRecords.foldl NackScan.next {} = s at hcount hleast hlast
  have hbidirectional : (if s.nOutRecordsNotNacked = 1 then
      s.lastFaceNotNacked.filter fun f => (y.getInRecord f).isSome else none) = none := by
    split
    · refine filter_eq_none_iff.mpr fun f hf => ?_
      rcases hlast f hf with hf | ⟨r, hr, rfl⟩
      · cases hf
      · rw [hapart r hr]
        exact Bool.false_ne_true
    · rfl
  have hpos : 0 < s.nOutRecordsNotNacked ↔ Unanswered y := by
    rw [hcount, Nat.zero_add, countP_pos_iff]
    simp only [Unanswered, isNone_iff_eq_none]
  simp only [afterReceiveNack, hy, bind_eq_bind, bind_some, hs, hbidirectional]
  by_cases hun : Unanswered y
  · rw [if_pos hun, if_pos (hpos.mpr hun)]
    rfl
  · rw [if_neg hun, if_neg fun h => hun (hpos.mp h), hleast]
    rfl

/-! ### Sending the Nacks -/

def TakesNacks (E : Setting C S) (f : FaceId) : Prop := f ≠ 0 ∧ E.isMultiAccess f = false

instance (E : Setting C S) (f : FaceId) : Decidable (TakesNacks E f) := by
  unfold TakesNacks
  infer_instance

def answers (E : Setting C S) (x : Entry C S) (reason : NackReason) : List (FaceId × Packet C S) :=
  (x.inRecords.filter fun r => TakesNacks E r.face).map fun r =>
    (r.face, .nack r.interest reason)

def nackFor (E : Setting C S) (x : Entry C S) (reason : NackReason) (f : FaceId) :
    Option (FaceId × Packet C S) :=
  if TakesNacks E f then (x.getInRecord f).map fun r => (f, .nack r.interest reason) else none

lemma onOutgoingNack_of_none (hx : fw.entries[e]? = some x)
    (h : nackFor E x reason f = none) : fw.onOutgoingNack E e f reason = fw := by
  unfold Forwarder.onOutgoingNack
  by_cases hf : TakesNacks E f
  · rw [nackFor, if_pos hf, map_eq_none_iff] at h
    rw [if_neg hf.1, hx, bind_some, h]
  split
  · rfl
  rename_i hne
  have hmulti : E.isMultiAccess f = true :=
    Bool.eq_true_of_not_eq_false fun hmulti => hf ⟨hne, hmulti⟩
  split
  · rfl
  · rw [if_pos hmulti]

lemma onOutgoingNack_of_some {p : FaceId × Packet C S} (hx : fw.entries[e]? = some x)
    (h : nackFor E x reason f = some p) : fw.onOutgoingNack E e f reason =
      (fw.modifyEntry e fun x => x.deleteInRecord f).send p.1 p.2 := by
  unfold nackFor at h
  split at h
  next hf =>
    obtain ⟨r, hr, rfl⟩ := map_eq_some_iff.mp h
    unfold Forwarder.onOutgoingNack
    simp only [if_neg hf.1, hx, bind_some, hr, hf.2, Bool.false_eq_true, if_false]
  · cases h

lemma getInRecord_deleteInRecord {g : FaceId} (h : g ≠ f) :
    (x.deleteInRecord f).getInRecord g = x.getInRecord g := by
  unfold Entry.deleteInRecord Entry.getInRecord
  induction x.inRecords with
  | nil => rfl
  | cons r l ih =>
    by_cases hf : r.face = f
    · have hg : r.face ≠ g := fun hg => h (hg.symm.trans hf)
      rw [eraseP_cons_of_pos (by simp [hf]), find?_cons_of_neg (by simp [hg])]
    rw [eraseP_cons_of_neg (by simp [hf])]
    by_cases hg : r.face = g
    · rw [find?_cons_of_pos (by simp [hg]), find?_cons_of_pos (by simp [hg])]
    · rw [find?_cons_of_neg (by simp [hg]), find?_cons_of_neg (by simp [hg]), ih]

lemma nackFor_deleteInRecord {g : FaceId} (h : g ≠ f) :
    nackFor E (x.deleteInRecord f) reason g = nackFor E x reason g := by
  unfold nackFor
  rw [getInRecord_deleteInRecord h]

lemma getInRecord_of_mem (h : OnePerFace x) {r : InRecord C S} (hr : r ∈ x.inRecords) :
    x.getInRecord r.face = some r := by
  obtain ⟨r', hr'⟩ : ∃ r', x.getInRecord r.face = some r' := by
    refine ne_none_iff_exists'.mp fun hnone => ?_
    exact find?_eq_none.mp hnone r hr (decide_eq_true rfl)
  obtain ⟨hmem, hface⟩ := getInRecord_eq_some hr'
  rw [hr', inj_on_of_nodup_map h.inRecords hmem hr hface]

lemma filterMap_nackFor (h : OnePerFace x) :
    (x.inRecords.map fun r => r.face).filterMap (nackFor E x reason) = answers E x reason := by
  unfold answers
  rw [filterMap_map, ← filterMap_eq_map, filterMap_filter]
  refine filterMap_congr fun r hr => ?_
  simp only [Function.comp_apply, nackFor, getInRecord_of_mem h hr, map_some, decide_eq_true_eq]

variable [DecidableEq C]

lemma perform_sendNacks (reason : NackReason) (hx : fw.entries[e]? = some x) (ds : List FaceId)
    (hds : ds.Nodup) :
    ∃ fw', (ds.map fun d => Action.sendNack e d reason).foldlM (Forwarder.perform E) fw =
        some fw' ∧ fw'.sent = fw.sent ++ ds.filterMap (nackFor E x reason) := by
  induction ds generalizing fw x with
  | nil => exact ⟨fw, rfl, by simp⟩
  | cons d ds ih =>
    obtain ⟨hd, hds⟩ := nodup_cons.mp hds
    cases hnack : nackFor E x reason d with
    | none =>
      obtain ⟨fw', hrun, hsent⟩ := ih hx hds
      refine ⟨fw', ?_, ?_⟩
      · rw [map_cons, foldlM_cons, Forwarder.perform, onOutgoingNack_of_none hx hnack]
        exact hrun
      · rw [filterMap_cons_none hnack]
        exact hsent
    | some p =>
      have hx' : ((fw.modifyEntry e fun x => x.deleteInRecord d).send p.1 p.2).entries[e]? =
          some (x.deleteInRecord d) := Forwarder.getElem?_modifyEntry_self hx
      obtain ⟨fw', hrun, hsent⟩ := ih hx' hds
      have hrest : ds.filterMap (nackFor E (x.deleteInRecord d) reason) =
          ds.filterMap (nackFor E x reason) :=
        filterMap_congr fun g hg => nackFor_deleteInRecord fun he => hd (he ▸ hg)
      refine ⟨fw', ?_, ?_⟩
      · rw [map_cons, foldlM_cons, Forwarder.perform, onOutgoingNack_of_some hx hnack]
        exact hrun
      · rw [filterMap_cons_some hnack, hsent, hrest]
        exact append_assoc _ [p] _

lemma perform_sendNacks_all (reason : NackReason) (horder : ∀ l, (order l).Perm l)
    (hx : fw.entries[e]? = some x) (hone : OnePerFace x) :
    ∃ fw' nacks, (sendNacks order x e reason).foldlM (Forwarder.perform E) fw = some fw' ∧
      fw'.sent = fw.sent ++ nacks ∧ nacks.Perm (answers E x reason) := by
  have hperm : (order (x.inRecords.map fun r => r.face).dedup).Perm
      (x.inRecords.map fun r => r.face) := by
    rw [hone.inRecords.dedup]
    exact horder _
  obtain ⟨fw', hrun, hsent⟩ := perform_sendNacks reason hx _ (hperm.nodup_iff.mpr hone.inRecords)
  exact ⟨fw', _, hrun, hsent, filterMap_nackFor hone ▸ hperm.filterMap _⟩

lemma perform_sendNacks_none (hx : fw.entries[e]? = some x)
    (hnone : ∀ r ∈ x.inRecords, ¬ TakesNacks E r.face) (ds : List FaceId) :
    (ds.map fun d => Action.sendNack e d reason).foldlM (Forwarder.perform E) fw = some fw := by
  induction ds with
  | nil => rfl
  | cons d ds ih =>
    have hnack : nackFor E x reason d = none := by
      unfold nackFor
      split
      next hd =>
        refine map_eq_none_iff.mpr ?_
        cases hr : x.getInRecord d with
        | none => rfl
        | some r =>
          obtain ⟨hmem, rfl⟩ := getInRecord_eq_some hr
          exact absurd hd (hnone r hmem)
      · rfl
    rw [map_cons, foldlM_cons, Forwarder.perform, onOutgoingNack_of_none hx hnack]
    exact ih

/-! ### Nacks coming in -/

section Marks

omit [DecidableEq C]

def markNack (reasonOf : FaceId → NackReason) (fs : List FaceId) (r : OutRecord) : OutRecord :=
  if r.face ∈ fs then { r with incomingNack := some (reasonOf r.face) } else r

def markNacks (reasonOf : FaceId → NackReason) (fs : List FaceId) (x : Entry C S) : Entry C S :=
  { x with outRecords := x.outRecords.map (markNack reasonOf fs) }

lemma toFaceRecord_markNack (r : OutRecord) :
    (markNack reasonOf fs r).toFaceRecord = r.toFaceRecord := by
  unfold markNack
  split <;> rfl

lemma markNack_cons (r : OutRecord) : (if (markNack reasonOf fs r).face = f then
      { markNack reasonOf fs r with incomingNack := some (reasonOf f) }
      else markNack reasonOf fs r) = markNack reasonOf (f :: fs) r := by
  simp only [toFaceRecord_markNack]
  by_cases hf : r.face = f
  · subst hf
    simp [markNack]
  · simp [markNack, hf]

lemma markNacks_nil : markNacks reasonOf [] x = x := by
  have hid : markNack reasonOf [] = id := by
    funext r
    simp [markNack]
  rw [markNacks, hid, List.map_id]

lemma modify_eq_map {α : Type} {g : α → FaceId} {l : List α} {i : ℕ} (hl : (l.map g).Nodup)
    (h : l.findIdx? (fun a => g a = f) = some i) (u : α → α) :
    l.modify i u = l.map fun a => if g a = f then u a else a := by
  obtain ⟨hlt, hface, -⟩ := findIdx?_eq_some_iff_getElem.mp h
  have hface : g l[i] = f := of_decide_eq_true hface
  refine ext_getElem (by simp) fun j hj hj' => ?_
  have hjl : j < l.length := by simpa using hj
  have hiff : i = j ↔ g l[j] = f := by
    constructor
    · rintro rfl
      exact hface
    intro hgj
    have hi : i < (l.map g).length := by simpa using hlt
    have hj : j < (l.map g).length := by simpa using hjl
    have heq : (l.map g)[i] = (l.map g)[j] := by rw [getElem_map, getElem_map, hface, hgj]
    exact hl.getElem_inj_iff.mp heq
  rw [getElem_map, getElem_modify]
  by_cases hij : i = j
  · rw [if_pos hij, if_pos (hiff.mp hij)]
  · rw [if_neg hij, if_neg fun hf => hij (hiff.mpr hf)]

lemma outRecords_setIncomingNack (h : OnePerFace x) (f : FaceId) (reason : NackReason) :
    (x.setIncomingNack f reason).outRecords = x.outRecords.map fun r =>
      if r.face = f then { r with incomingNack := some reason } else r := by
  unfold Entry.setIncomingNack
  split
  next i hi =>
    exact modify_eq_map h.outRecords hi _
  rename_i hnone
  have hmap : (x.outRecords.map fun r =>
      if r.face = f then { r with incomingNack := some reason } else r) =
      x.outRecords.map id := by
    refine map_congr_left fun r hr => if_neg fun hface => ?_
    exact not_mem_map_face hnone (List.mem_map.mpr ⟨r, hr, hface⟩)
  rw [hmap, List.map_id]

lemma onePerFace_markNacks (h : OnePerFace x) (reasonOf : FaceId → NackReason)
    (fs : List FaceId) : OnePerFace (markNacks reasonOf fs x) := by
  have hfaces : ((markNacks reasonOf fs x).outRecords.map fun r => r.face) =
      x.outRecords.map fun r => r.face := by
    rw [markNacks, List.map_map]
    exact map_congr_left fun r _ => congrArg FaceRecord.face (toFaceRecord_markNack r)
  exact ⟨h.inRecords, hfaces ▸ h.outRecords⟩

lemma setIncomingNack_markNacks (h : OnePerFace x) :
    (markNacks reasonOf fs x).setIncomingNack f (reasonOf f) = markNacks reasonOf (f :: fs) x := by
  have hout := outRecords_setIncomingNack (onePerFace_markNacks h reasonOf fs) f (reasonOf f)
  have hmap : ((markNacks reasonOf fs x).outRecords.map fun r =>
      if r.face = f then { r with incomingNack := some (reasonOf f) } else r) =
      x.outRecords.map (markNack reasonOf (f :: fs)) := by
    rw [markNacks, List.map_map]
    exact map_congr_left fun r _ => markNack_cons r
  exact congrArg (fun l => ({ x with outRecords := l } : Entry C S)) (hout.trans hmap)

lemma getOutRecord_markNacks : (markNacks reasonOf fs x).getOutRecord f =
      (x.getOutRecord f).map (markNack reasonOf fs) := by
  unfold Entry.getOutRecord markNacks
  rw [find?_map]
  refine congrArg (fun p => Option.map (markNack reasonOf fs) (x.outRecords.find? p)) ?_
  funext r
  rw [Function.comp_apply, toFaceRecord_markNack]

end Marks

variable [DecidableEq S] {n m : Node C S (BestRoute C)} {sent : List (FaceId × Packet C S)}

structure NackReady (E : Setting C S) (n : Node C S (BestRoute C)) (e : PitEntryId)
    (x : Entry C S) : Prop where
  found : n.fw.findPit x.interest.toInterest = some e
  entry : n.fw.entries[e]? = some x
  onePerFace : OnePerFace x
  apart : Apart x
  upstreams : ∀ r ∈ x.outRecords, TakesNacks E r.face
  pending : x.outRecords ≠ []

structure Arrival where
  delay : ℕ
  face : FaceId
  lifetime : Option ℕ

def nackedInterest (x : Entry C S) (a : Arrival) : InterestPacket C S where
  toInterest := x.interest.toInterest
  nonce := ((x.getOutRecord a.face).map fun r => r.lastNonce).getD 0
  lifetime := a.lifetime

def arrivalEvents (x : Entry C S) (reasonOf : FaceId → NackReason) (a : Arrival) :
    List (Fw.Event C S (Event C)) :=
  [.advance a.delay, .nack a.face (nackedInterest x a) (reasonOf a.face)]

def roundEvents (x : Entry C S) (reasonOf : FaceId → NackReason) (round : List Arrival) :
    List (Fw.Event C S (Event C)) :=
  round.flatMap (arrivalEvents x reasonOf)

structure Waiting (x : Entry C S) (e : PitEntryId) (reasonOf : FaceId → NackReason)
    (sent : List (FaceId × Packet C S)) (fs : List FaceId) (fw : Forwarder C S) : Prop where
  found : fw.findPit x.interest.toInterest = some e
  entry : fw.entries[e]? = some (markNacks reasonOf fs x)
  sent : fw.sent = sent

lemma findPit_modifyEntry {u : Entry C S → Entry C S} (hu : ∀ x, (u x).interest = x.interest)
    (i : Interest C S) : (fw.modifyEntry e u).findPit i = fw.findPit i := by
  refine congrArg (fw.pit.find? ·) (funext fun e' => ?_)
  by_cases he : e' = e
  · subst he
    cases hx : fw.entries[e']? with
    | none => simp [Forwarder.modifyEntry, hx]
    | some x => rw [Forwarder.getElem?_modifyEntry_self hx, any_some, any_some, hu]
  · rw [Forwarder.getElem?_modifyEntry_of_ne he]

omit [DecidableEq S] in
lemma dispatch_calls {fw' : Forwarder C S} {acts : List Action} (st : BestRoute C)
    (h : acts.foldlM (Forwarder.perform E) fw = some fw') :
    Node.dispatchToStrategy E ⟨fw, st⟩ (some (st, acts)) = some ⟨fw', st⟩ := by
  rw [Node.dispatchToStrategy]
  simp only [bind_eq_bind, bind_some, h]
  rfl

section Rounds

variable (sort order)

open Classical in
lemma arrive (hr : NackReady E n e x) (hw : Waiting x e reasonOf sent fs m.fw) {a : Arrival}
    (ha : a.face ∈ x.outRecords.map fun r => r.face) :
    ∃ fw, Waiting x e reasonOf sent (a.face :: fs) fw ∧
      run (step E (strategy E sort order)) m (arrivalEvents x reasonOf a) =
        Node.dispatchToStrategy E ⟨fw, m.strategy⟩ (some (m.strategy,
          if Unanswered (markNacks reasonOf (a.face :: fs) x) then []
          else sendNacks order (markNacks reasonOf (a.face :: fs) x) e
            (leastSevereReason (markNacks reasonOf (a.face :: fs) x)))) := by
  obtain ⟨r, hmem, hface⟩ := List.mem_map.mp ha
  obtain ⟨hzero, hmulti⟩ := hface ▸ hr.upstreams r hmem
  obtain ⟨r', hr'⟩ : ∃ r', x.getOutRecord a.face = some r' := by
    refine ne_none_iff_exists'.mp fun hnone => ?_
    exact find?_eq_none.mp hnone r hmem (decide_eq_true hface)
  let now := m.fw.now + a.delay
  let fw := Forwarder.modifyEntry { m.fw with now := now } e fun x =>
    x.setIncomingNack a.face (reasonOf a.face)
  have hentry : fw.entries[e]? = some (markNacks reasonOf (a.face :: fs) x) := by
    have hset : fw.entries[e]? = some _ := Forwarder.getElem?_modifyEntry_self hw.entry
    rw [hset, setIncomingNack_markNacks hr.onePerFace]
  have hapart : Apart (markNacks reasonOf (a.face :: fs) x) := by
    intro r hr₁
    obtain ⟨r₂, hr₂, rfl⟩ := List.mem_map.mp hr₁
    rw [toFaceRecord_markNack]
    exact hr.apart r₂ hr₂
  have hfound : fw.findPit x.interest.toInterest = some e := by
    refine (findPit_modifyEntry ?_ _).trans hw.found
    exact fun _ => rfl
  refine ⟨fw, ⟨hfound, hentry, hw.sent⟩, ?_⟩
  have hout : (m.fw.entries[e]?.bind fun y => y.getOutRecord a.face) =
      some (markNack reasonOf fs r') := by
    rw [hw.entry, bind_some, getOutRecord_markNacks, hr', map_some]
  have hnonce : (nackedInterest x a).nonce = (markNack reasonOf fs r').lastNonce := by
    rw [nackedInterest, hr', toFaceRecord_markNack]
    rfl
  have hstep : step E (strategy E sort order) (m.withFw { m.fw with now := now })
      (.nack a.face (nackedInterest x a) (reasonOf a.face)) =
        Node.dispatchToStrategy E ⟨fw, m.strategy⟩ (afterReceiveNack order fw a.face
          (nackedInterest x a) (reasonOf a.face) e m.strategy) := by
    have hfind : (m.withFw { m.fw with now := now }).fw.findPit
        (nackedInterest x a).toInterest = some e := hw.found
    have hrecord : ((m.withFw { m.fw with now := now }).fw.entries[e]?.bind fun y =>
        y.getOutRecord a.face) = some (markNack reasonOf fs r') := hout
    rw [step, if_pos hzero, Node.onIncomingNack, if_neg (by simp [hmulti])]
    simp only [hfind, hrecord, hnonce, ne_eq, not_true, if_false]
    rfl
  rw [afterReceiveNack_eq hentry hapart] at hstep
  rw [arrivalEvents, run, step, bind_some, run, hstep]
  exact bind_fun_some _

lemma arrive_waiting (hr : NackReady E n e x) (hw : Waiting x e reasonOf sent fs m.fw)
    {a : Arrival} (ha : a.face ∈ x.outRecords.map fun r => r.face)
    (hquiet : Unanswered (markNacks reasonOf (a.face :: fs) x) ∨
      ∀ r ∈ x.inRecords, ¬ TakesNacks E r.face) :
    ∃ m', run (step E (strategy E sort order)) m (arrivalEvents x reasonOf a) = some m' ∧
      Waiting x e reasonOf sent (a.face :: fs) m'.fw := by
  obtain ⟨fw, hw', hrun⟩ := arrive order sort hr hw ha
  refine ⟨⟨fw, m.strategy⟩, hrun.trans (dispatch_calls m.strategy ?_), hw'⟩
  by_cases hun : Unanswered (markNacks reasonOf (a.face :: fs) x)
  · rw [if_pos hun]
    rfl
  · rw [if_neg hun]
    exact perform_sendNacks_none hw'.entry (hquiet.resolve_left hun) _

lemma arrive_last (horder : ∀ l, (order l).Perm l) (hr : NackReady E n e x)
    (hw : Waiting x e reasonOf sent fs m.fw) {a : Arrival}
    (ha : a.face ∈ x.outRecords.map fun r => r.face)
    (hall : ¬ Unanswered (markNacks reasonOf (a.face :: fs) x)) :
    ∃ m' nacks, run (step E (strategy E sort order)) m (arrivalEvents x reasonOf a) = some m' ∧
      m'.fw.sent = sent ++ nacks ∧
      nacks.Perm (answers E x (leastSevereReason (markNacks reasonOf (a.face :: fs) x))) := by
  obtain ⟨fw, hw', hrun⟩ := arrive order sort hr hw ha
  obtain ⟨fw', nacks, hsend, hsent, hnacks⟩ := perform_sendNacks_all
    (leastSevereReason (markNacks reasonOf (a.face :: fs) x)) horder hw'.entry
    (onePerFace_markNacks hr.onePerFace reasonOf _)
  rw [if_neg hall] at hrun
  exact ⟨⟨fw', m.strategy⟩, nacks, hrun.trans (dispatch_calls m.strategy hsend),
    hsent.trans (congrArg (· ++ nacks) hw'.sent), hnacks⟩

omit [DecidableEq C] [DecidableEq S] in
lemma unanswered_markNacks {r : OutRecord} (hr : r ∈ x.outRecords)
    (hnone : r.incomingNack = none) (hf : r.face ∉ fs) : Unanswered (markNacks reasonOf fs x) := by
  refine ⟨markNack reasonOf fs r, List.mem_map_of_mem hr, ?_⟩
  rw [markNack, if_neg hf]
  exact hnone

omit [DecidableEq C] [DecidableEq S] in
lemma not_unanswered_markNacks (h : ∀ r ∈ x.outRecords, r.face ∈ fs ∨ r.incomingNack ≠ none) :
    ¬ Unanswered (markNacks reasonOf fs x) := by
  rintro ⟨r', hr', hnone⟩
  obtain ⟨r, hr, rfl⟩ := List.mem_map.mp hr'
  unfold markNack at hnone
  split at hnone
  · cases hnone
  next hf =>
    exact (h r hr).resolve_left hf hnone

def answered (l : List Arrival) : List FaceId := (l.map fun a => a.face).reverse

lemma NackReady.waiting (hr : NackReady E n e x) (reasonOf : FaceId → NackReason) :
    Waiting x e reasonOf n.fw.sent (answered []) n.fw :=
  ⟨hr.found, hr.entry.trans (congrArg some markNacks_nil.symm), rfl⟩

lemma run_arrive {l : List Arrival} {a : Arrival}
    (h : run (step E (strategy E sort order)) n (roundEvents x reasonOf l) = some m) :
    run (step E (strategy E sort order)) n (roundEvents x reasonOf (l ++ [a])) =
      run (step E (strategy E sort order)) m (arrivalEvents x reasonOf a) := by
  rw [roundEvents, flatMap_append, run_append, ← roundEvents, h, bind_some, flatMap_singleton]

def Quiet (E : Setting C S) (x : Entry C S) (fs : List FaceId) : Prop :=
  (∃ r ∈ x.outRecords, r.incomingNack = none ∧ r.face ∉ fs) ∨
    ∀ r ∈ x.inRecords, ¬ TakesNacks E r.face

lemma run_waiting (reasonOf : FaceId → NackReason) (hr : NackReady E n e x) (l : List Arrival)
    (hl : ∀ a ∈ l, a.face ∈ x.outRecords.map fun r => r.face) (hquiet : Quiet E x (answered l)) :
    ∃ m, run (step E (strategy E sort order)) n (roundEvents x reasonOf l) = some m ∧
      Waiting x e reasonOf n.fw.sent (answered l) m.fw := by
  induction l using List.reverseRecOn with
  | nil => exact ⟨n, rfl, hr.waiting reasonOf⟩
  | append_singleton l a ih =>
    have hfaces : answered (l ++ [a]) = a.face :: answered l := by
      rw [answered, map_append, reverse_append]
      rfl
    rw [hfaces] at hquiet ⊢
    have hbefore : Quiet E x (answered l) :=
      hquiet.imp_left fun ⟨r, hmem, hnone, hf⟩ => ⟨r, hmem, hnone, fun hfl => hf (.tail _ hfl)⟩
    obtain ⟨m, hrun, hw⟩ := ih (fun b hb => hl b (mem_append_left _ hb)) hbefore
    obtain ⟨m', hrun', hw'⟩ := arrive_waiting order sort hr hw (hl a (mem_append_right _ (.head _)))
      (hquiet.imp_left fun ⟨r, hmem, hnone, hf⟩ => unanswered_markNacks hmem hnone hf)
    exact ⟨m', (run_arrive order sort hrun).trans hrun', hw'⟩

lemma run_sends (reasonOf : FaceId → NackReason) (horder : ∀ l, (order l).Perm l)
    (hr : NackReady E n e x)
    (hdown : ∃ r ∈ x.inRecords, TakesNacks E r.face) (l : List Arrival) (hne : l ≠ [])
    (hl : ∀ a ∈ l, a.face ∈ x.outRecords.map fun r => r.face)
    (hall : ∀ r ∈ x.outRecords, (r.face ∈ l.map fun a => a.face) ∨ r.face ∈ fs ∨
      r.incomingNack ≠ none) (hw : Waiting x e reasonOf n.fw.sent fs m.fw) :
    ∃ l₁ l₂ m', l = l₁ ++ l₂ ∧
      run (step E (strategy E sort order)) m (roundEvents x reasonOf l₁) = some m' ∧
      m'.fw.sent ≠ n.fw.sent := by
  induction l generalizing m fs with
  | nil => exact absurd rfl hne
  | cons a l ih =>
    have ha := hl a (.head _)
    have hone : roundEvents x reasonOf [a] = arrivalEvents x reasonOf a := flatMap_singleton ..
    by_cases hun : Unanswered (markNacks reasonOf (a.face :: fs) x)
    · have hall' : ∀ r ∈ x.outRecords, (r.face ∈ l.map fun a => a.face) ∨ r.face ∈ a.face :: fs ∨
          r.incomingNack ≠ none := by
        intro r hmem
        rcases hall r hmem with hf | hf | hf
        · rcases mem_cons.mp hf with hf | hf
          · exact .inr (.inl (hf ▸ .head _))
          · exact .inl hf
        · exact .inr (.inl (.tail _ hf))
        · exact .inr (.inr hf)
      have hl' : l ≠ [] := by
        rintro rfl
        refine not_unanswered_markNacks (fun r hmem => ?_) hun
        exact (hall' r hmem).resolve_left not_mem_nil
      obtain ⟨m₁, hrun, hw₁⟩ := arrive_waiting order sort hr hw ha (.inl hun)
      obtain ⟨l₁, l₂, m', rfl, hrun', hsent⟩ := ih hl' (fun b hb => hl b (.tail _ hb)) hall' hw₁
      refine ⟨a :: l₁, l₂, m', rfl, ?_, hsent⟩
      rw [roundEvents, flatMap_cons, run_append, hrun, bind_some]
      exact hrun'
    · obtain ⟨m', nacks, hrun, hsent, hnacks⟩ := arrive_last order sort horder hr hw ha hun
      refine ⟨[a], l, m', rfl, hone ▸ hrun, fun heq => ?_⟩
      obtain ⟨r, hmem, htakes⟩ := hdown
      have hnil : nacks = [] := append_cancel_left (hsent.symm.trans (heq.trans
        (append_nil _).symm))
      have hanswer : (r.face, .nack r.interest _) ∈ answers E x
          (leastSevereReason (markNacks reasonOf (a.face :: fs) x)) :=
        List.mem_map_of_mem (mem_filter.mpr ⟨hmem, decide_eq_true htakes⟩)
      rw [hnil] at hnacks
      rw [hnacks.symm.eq_nil] at hanswer
      cases hanswer

/-- No downstream hears of a Nack before the last upstream has answered; then each gets one, with
a reason that does not depend on the order. -/
def NackedTogether (E : Setting C S) (n : Node C S (BestRoute C)) (x : Entry C S) : Prop :=
  ∀ reasonOf, ∃ reason, IsLeastSevere (x.outRecords.map fun r => reasonOf r.face) reason ∧
    ∀ round : List Arrival,
      (round.map fun a => a.face).Perm (x.outRecords.map fun r => r.face) →
      (∀ before a after, round = before ++ a :: after →
        ∃ m, run (step E (strategy E sort order)) n (roundEvents x reasonOf before) = some m ∧
          m.fw.sent = n.fw.sent) ∧
      ∃ m nacks, run (step E (strategy E sort order)) n (roundEvents x reasonOf round) = some m ∧
        m.fw.sent = n.fw.sent ++ nacks ∧ nacks.Perm (answers E x reason)

omit [DecidableEq C] [DecidableEq S] in
lemma leastSevereReason_markNacks (h : ∀ r ∈ x.outRecords, r.face ∈ fs) :
    leastSevereReason (markNacks reasonOf fs x) =
      (x.outRecords.map fun r => reasonOf r.face).foldl compareLessSevere .none := by
  unfold leastSevereReason markNacks
  rw [filterMap_map, ← filterMap_eq_map]
  refine congrArg (List.foldl compareLessSevere .none) (filterMap_congr fun r hr => ?_)
  rw [Function.comp_apply, markNack, if_pos (h r hr)]
  rfl

lemma waiting_before (hr : NackReady E n e x) {round before after : List Arrival} {a : Arrival}
    (hround : (round.map fun a => a.face).Perm (x.outRecords.map fun r => r.face))
    (hsplit : round = before ++ a :: after)
    (hfresh : before = [] ∨ ∀ r ∈ x.outRecords, r.incomingNack = none) :
    ∃ m, run (step E (strategy E sort order)) n (roundEvents x reasonOf before) = some m ∧
      Waiting x e reasonOf n.fw.sent (answered before) m.fw := by
  have hfaces : ∀ b ∈ round, b.face ∈ x.outRecords.map fun r => r.face :=
    fun b hb => hround.subset (List.mem_map_of_mem hb)
  have hbefore : ∀ b ∈ before, b.face ∈ x.outRecords.map fun r => r.face :=
    fun b hb => hfaces b (hsplit ▸ mem_append_left _ hb)
  rcases hfresh with rfl | hfresh
  · exact ⟨n, rfl, hr.waiting reasonOf⟩
  refine run_waiting order sort reasonOf hr before hbefore (.inl ?_)
  obtain ⟨r, hmem, hface⟩ := List.mem_map.mp (hfaces a (by simp [hsplit]))
  refine ⟨r, hmem, hfresh r hmem, fun hin => ?_⟩
  have hnodup := hround.nodup_iff.mpr hr.onePerFace.outRecords
  rw [hsplit, map_append, map_cons] at hnodup
  exact (nodup_append.mp hnodup).2.2 _ (mem_reverse.mp hin) _ (.head _) hface

lemma nackedTogether_of_unreachable (hr : NackReady E n e x)
    (hnone : ∀ r ∈ x.inRecords, ¬ TakesNacks E r.face) : NackedTogether order sort E n x := by
  intro reasonOf
  have hleast := isLeastSevere_scan (l := x.outRecords.map fun r => reasonOf r.face)
    (by simpa using hr.pending)
  refine ⟨_, hleast, fun round hround => ?_⟩
  have hfaces : ∀ b ∈ round, b.face ∈ x.outRecords.map fun r => r.face :=
    fun b hb => hround.subset (List.mem_map_of_mem hb)
  constructor
  · rintro before a after rfl
    obtain ⟨m, hrun, hw⟩ := run_waiting order sort reasonOf hr before
      (fun b hb => hfaces b (mem_append_left _ hb)) (.inr hnone)
    exact ⟨m, hrun, hw.sent⟩
  obtain ⟨m, hrun, hw⟩ := run_waiting order sort reasonOf hr round hfaces (.inr hnone)
  have hanswers : ∀ reason, answers E x reason = [] := by
    refine fun reason => map_eq_nil_iff.mpr (filter_eq_nil_iff.mpr fun r hmem => ?_)
    simpa using hnone r hmem
  exact ⟨m, [], hrun, hw.sent.trans (append_nil _).symm, hanswers _ ▸ List.Perm.nil⟩

lemma nackedTogether_of_fresh (horder : ∀ l, (order l).Perm l) (hr : NackReady E n e x)
    (hfresh : x.outRecords.length = 1 ∨ ∀ r ∈ x.outRecords, r.incomingNack = none) :
    NackedTogether order sort E n x := by
  intro reasonOf
  have hleast := isLeastSevere_scan (l := x.outRecords.map fun r => reasonOf r.face)
    (by simpa using hr.pending)
  refine ⟨_, hleast, fun round hround => ?_⟩
  have hlength : round.length = x.outRecords.length := by simpa using hround.length_eq
  have hwaiting : ∀ before a after, round = before ++ a :: after →
      ∃ m, run (step E (strategy E sort order)) n (roundEvents x reasonOf before) = some m ∧
        Waiting x e reasonOf n.fw.sent (answered before) m.fw := by
    intro before a after hsplit
    refine waiting_before order sort hr hround hsplit (hfresh.imp_left fun hone => ?_)
    have hlen := congrArg List.length hsplit
    rw [length_append, length_cons] at hlen
    exact eq_nil_of_length_eq_zero (by omega)
  constructor
  · intro before a after hsplit
    obtain ⟨m, hrun, hw⟩ := hwaiting before a after hsplit
    exact ⟨m, hrun, hw.sent⟩
  rcases eq_nil_or_concat round with rfl | ⟨before, a, rfl⟩
  · exact absurd (eq_nil_of_length_eq_zero hlength.symm) hr.pending
  rw [concat_eq_append] at hround hwaiting ⊢
  obtain ⟨m, hrun, hw⟩ := hwaiting before a [] rfl
  have hall : ∀ r ∈ x.outRecords, r.face ∈ a.face :: answered before := by
    intro r hmem
    have hin := hround.symm.subset (List.mem_map_of_mem hmem)
    simpa [answered, or_comm] using hin
  obtain ⟨m', nacks, hrun', hsent, hnacks⟩ := arrive_last order sort horder hr hw
    (hround.subset (by simp)) (not_unanswered_markNacks fun r hmem => .inl (hall r hmem))
  rw [leastSevereReason_markNacks hall] at hnacks
  exact ⟨m', nacks, (run_arrive order sort hrun).trans hrun', hsent, hnacks⟩

lemma not_nackedTogether_of_stale (horder : ∀ l, (order l).Perm l) (hr : NackReady E n e x)
    (hdown : ∃ r ∈ x.inRecords, TakesNacks E r.face) (htwo : x.outRecords.length ≠ 1)
    {stale : OutRecord} (hstale : stale ∈ x.outRecords) (hnack : stale.incomingNack ≠ none) :
    ¬ NackedTogether order sort E n x := by
  intro htogether
  obtain ⟨reason, -, hrounds⟩ := htogether fun _ => .none
  let faces := x.outRecords.map fun r => r.face
  let arrival : FaceId → Arrival := fun f => ⟨0, f, none⟩
  have hmap : ∀ l : List FaceId, (l.map arrival).map (fun a => a.face) = l := by
    intro l
    rw [List.map_map]
    exact List.map_id l
  have hmem : stale.face ∈ faces := List.mem_map_of_mem hstale
  have hothers : (faces.erase stale.face).map arrival ≠ [] := by
    intro hnil
    have hlen := congrArg List.length hnil
    have hpos := length_pos_of_mem hmem
    rw [length_map, length_erase_of_mem hmem, length_map, length_nil] at hlen
    rw [length_map] at hpos
    omega
  have hrest : ∀ r ∈ x.outRecords, (r.face ∈ ((faces.erase stale.face).map arrival).map
      fun a => a.face) ∨ r.face ∈ ([] : List FaceId) ∨ r.incomingNack ≠ none := by
    intro r hr'
    rw [hmap]
    by_cases hf : r.face = stale.face
    · rw [inj_on_of_nodup_map hr.onePerFace.outRecords hr' hstale hf]
      exact .inr (.inr hnack)
    · exact .inl ((mem_erase_of_ne hf).mpr (List.mem_map_of_mem hr'))
  have hupstream : ∀ a ∈ (faces.erase stale.face).map arrival, a.face ∈ faces := by
    intro a ha
    obtain ⟨f, hf, rfl⟩ := List.mem_map.mp ha
    exact mem_of_mem_erase hf
  obtain ⟨l₁, l₂, m, hsplit, hrun, hsent⟩ := run_sends order sort
    (fun _ => .none) horder hr hdown _ hothers hupstream hrest (hr.waiting _)
  have hround : (((faces.erase stale.face).map arrival ++ [arrival stale.face]).map
      fun a => a.face).Perm faces := by
    rw [map_append, hmap]
    exact perm_append_comm.trans (perm_cons_erase hmem).symm
  obtain ⟨a, after, htail⟩ : ∃ a after, l₂ ++ [arrival stale.face] = a :: after :=
    exists_cons_of_ne_nil (by simp)
  obtain ⟨m', hrun', hsent'⟩ := (hrounds _ hround).1 l₁ a after
    (by rw [hsplit, append_assoc, htail])
  rw [hrun] at hrun'
  exact hsent (some.inj hrun' ▸ hsent')

end Rounds

/-- The round goes as it should unless some upstream has been sent the Interest again after its
Nack, which the out-record still holds. -/
theorem nacked_together_iff (horder : ∀ l, (order l).Perm l) (hr : NackReady E n e x) :
    NackedTogether order sort E n x ↔ (∀ r ∈ x.inRecords, ¬ TakesNacks E r.face) ∨
      x.outRecords.length = 1 ∨ ∀ r ∈ x.outRecords, r.incomingNack = none := by
  constructor
  · intro htogether
    by_contra hnot
    obtain ⟨hdown, htwo, hstale⟩ : (∃ r ∈ x.inRecords, TakesNacks E r.face) ∧
        x.outRecords.length ≠ 1 ∧ ∃ r ∈ x.outRecords, r.incomingNack ≠ none := by
      simpa [not_or] using hnot
    obtain ⟨stale, hmem, hnack⟩ := hstale
    exact not_nackedTogether_of_stale order sort horder hr hdown htwo hmem hnack htogether
  · rintro (hnone | hfresh)
    · exact nackedTogether_of_unreachable order sort hr hnone
    · exact nackedTogether_of_fresh order sort horder hr hfresh

def sentToBoth : List (Fw.Event ℕ Unit (Event ℕ)) :=
  [.strategy (.addNextHop [5] 2 10), .strategy (.addNextHop [5] 3 20),
    .interest 1 ⟨⟨[5], ()⟩, 7, none⟩ false none, .advance (milliseconds 10),
    .interest 1 ⟨⟨[5], ()⟩, 8, none⟩ false none]

def pendingEntry : Entry ℕ Unit where
  interest := ⟨⟨[5], ()⟩, 7, none⟩
  inRecords := [⟨.update 1 (milliseconds 10) ⟨⟨[5], ()⟩, 8, none⟩, ⟨⟨[5], ()⟩, 8, none⟩⟩]
  outRecords := [⟨.update 3 (milliseconds 10) ⟨⟨[5], ()⟩, 8, none⟩, none⟩,
    ⟨.update 2 0 ⟨⟨[5], ()⟩, 7, none⟩, none⟩]
  unsatisfyTimer := some (milliseconds 4010)

def resentEntry : Entry ℕ Unit where
  interest := ⟨⟨[5], ()⟩, 7, none⟩
  inRecords := [⟨.update 1 (milliseconds 30) ⟨⟨[5], ()⟩, 9, none⟩, ⟨⟨[5], ()⟩, 9, none⟩⟩]
  outRecords := [⟨.update 3 (milliseconds 10) ⟨⟨[5], ()⟩, 8, none⟩, none⟩,
    ⟨.update 2 (milliseconds 30) ⟨⟨[5], ()⟩, 9, none⟩, some .congestion⟩]
  unsatisfyTimer := some (milliseconds 4030)

/-- The Nack from face 3 is passed on although face 2 has not answered the second time. -/
theorem nacked_before_answer :
    let step := step localSetting (strategy localSetting Table.Fib.sortByCost id)
    ∃ n, run step ⟨{}, {}⟩ (sentToBoth ++ [.nack 2 ⟨⟨[5], ()⟩, 7, none⟩ .congestion,
        .advance (milliseconds 20), .interest 1 ⟨⟨[5], ()⟩, 9, none⟩ false none]) = some n ∧
      NackReady localSetting n 0 resentEntry ∧
      n.fw.sent.getLast? = some (2, .interest ⟨⟨[5], ()⟩, 9, none⟩) ∧
      (step n (.nack 3 ⟨⟨[5], ()⟩, 8, none⟩ .noRoute)).map (fun n' => n'.fw.sent) =
        some (n.fw.sent ++ [(1, .nack ⟨⟨[5], ()⟩, 9, none⟩ .congestion)]) ∧
      ¬ NackedTogether id Table.Fib.sortByCost localSetting n resentEntry := by
  intro step
  have hready : ∀ n : Node ℕ Unit (BestRoute ℕ), n.fw.findPit ⟨[5], ()⟩ = some 0 →
      n.fw.entries[0]? = some resentEntry → NackReady localSetting n 0 resentEntry :=
    fun n hfound hentry =>
      ⟨hfound, hentry, ⟨by decide, by decide⟩, by unfold Apart; decide, by decide, by decide⟩
  refine ⟨_, rfl, hready _ rfl rfl, rfl, rfl, ?_⟩
  refine not_nackedTogether_of_stale id Table.Fib.sortByCost .refl
    (hready _ rfl rfl) ⟨_, .head _, by decide⟩ (by decide) (.tail _ (.head _)) (by decide)

/-- Both upstreams have yet to answer for the first time. -/
theorem nacked_together_two :
    ∃ n, run (step localSetting (strategy localSetting Table.Fib.sortByCost id)) ⟨{}, {}⟩
        sentToBoth = some n ∧ NackReady localSetting n 0 pendingEntry ∧
      NackedTogether id Table.Fib.sortByCost localSetting n pendingEntry := by
  have hready : ∀ n : Node ℕ Unit (BestRoute ℕ), n.fw.findPit ⟨[5], ()⟩ = some 0 →
      n.fw.entries[0]? = some pendingEntry → NackReady localSetting n 0 pendingEntry :=
    fun n hfound hentry =>
      ⟨hfound, hentry, ⟨by decide, by decide⟩, by unfold Apart; decide, by decide, by decide⟩
  refine ⟨_, rfl, hready _ rfl rfl, ?_⟩
  exact (nacked_together_iff .refl (hready _ rfl rfl)).mpr (.inr (.inr (by decide)))

end NfdGateway.Fw.BestRoute
