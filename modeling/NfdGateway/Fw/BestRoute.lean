import NfdGateway.Fw.Courses
import NfdGateway.Table.FibMap

/-! `BestRouteStrategy2`: an Interest goes to the nexthop of the lowest cost, its retransmissions
to the others in turn, and a Nack goes back when every upstream has answered with one. -/
namespace NfdGateway.Fw

open MaxElement List Option Function
open Table.Fib (NextHop Tidy SortsByCost addNextHop removeNextHop)

/-! ### Suppression of retransmissions -/

inductive RetxResult
  | new | forward | suppress
deriving DecidableEq

def retxSuppressionInitial : ℕ := milliseconds 10

def retxSuppressionMax : ℕ := milliseconds 250

def defaultMultiplier : ℕ := 2

section Suppression

variable {C S : Type}

def Entry.getLastOutgoing (x : Entry C S) : Option ℕ :=
  (maxElement (keyLt fun r => r.lastRenewed) x.outRecords).map fun r => r.lastRenewed

def retxDecide (now : ℕ) (x : Entry C S) (suppressionInterval : ℕ) : Option (RetxResult × ℕ) :=
  if !x.hasPendingOutRecords now then some (.new, suppressionInterval)
  else x.getLastOutgoing.map fun lastOutgoing =>
    let sinceLastOutgoing : ℤ := now - lastOutgoing
    if sinceLastOutgoing < suppressionInterval then (.suppress, suppressionInterval)
    else (.forward, min retxSuppressionMax (suppressionInterval * defaultMultiplier))

end Suppression

/-! ### The strategy -/

/-- The FIB as the map from prefixes to nexthops, and the interval that `PitInfo` keeps for a PIT
entry from its first retransmission on. -/
structure BestRoute (C : Type) where
  fib : Name C → Option (List (NextHop FaceId)) := fun _ => none
  suppressionInterval : PitEntryId → Option ℕ := fun _ => none

namespace BestRoute

variable {C S : Type}

inductive Event (C : Type)
  | addNextHop (pfx : Name C) (face : FaceId) (cost : ℕ)
  | removeNextHop (pfx : Name C) (face : FaceId)

def findLongestPrefixMatch (st : BestRoute C) (name : Name C) : List (NextHop FaceId) :=
  (name.inits.reverse.findSome? st.fib).getD []

section Interests

variable [DecidableEq C] (E : Setting C S)

def predicateNextHopEligible (x : Entry C S) (nexthop : NextHop FaceId)
    (currentDownstream : FaceId) (wantUnused : Bool) (now : ℕ) : Bool :=
  if nexthop.face = currentDownstream then false
  else if violatesScope E x nexthop.face then false
  else !(wantUnused && (x.getOutRecord nexthop.face).any fun r => decide (now < r.expiry))

/-- The loop of `findEligibleNextHopWithEarliestOutRecord`, with what was found so far and when
it was renewed; `none` where the assertion fails that there is an out-record. -/
def findEarliest (x : Entry C S) (currentDownstream : FaceId) :
    Option (NextHop FaceId × ℕ) → List (NextHop FaceId) → Option (Option (NextHop FaceId × ℕ))
  | found, [] => some found
  | found, it :: rest =>
    if predicateNextHopEligible E x it currentDownstream false 0 then
      (x.getOutRecord it.face).bind fun outRecord =>
        if found.all fun f => decide (outRecord.lastRenewed < f.2) then
          findEarliest x currentDownstream (some (it, outRecord.lastRenewed)) rest
        else findEarliest x currentDownstream found rest
    else findEarliest x currentDownstream found rest

def findEligibleNextHopWithEarliestOutRecord (x : Entry C S) (nexthops : List (NextHop FaceId))
    (currentDownstream : FaceId) : Option (Option (NextHop FaceId)) :=
  (findEarliest E x currentDownstream none nexthops).map fun found => found.map Prod.fst

def afterReceiveInterest (fw : Forwarder C S) (inFace : FaceId) (_ : InterestPacket C S)
    (e : PitEntryId) (st : BestRoute C) : Option (BestRoute C × List Action) := do
  let x ← fw.entries[e]?
  let nexthops := st.findLongestPrefixMatch x.interest.name
  let (suppression, interval) ←
    retxDecide fw.now x ((st.suppressionInterval e).getD retxSuppressionInitial)
  match suppression with
  | .new =>
    match nexthops.find? fun h => predicateNextHopEligible E x h inFace false 0 with
    | none => return (st, [.sendNack e inFace .noRoute, .rejectPendingInterest e])
    | some it => return (st, [.sendInterest e it.face none])
  | .suppress => return (st, [])
  | .forward =>
    let st := { st with
      suppressionInterval := update st.suppressionInterval e (some interval) }
    match nexthops.find? fun h => predicateNextHopEligible E x h inFace true fw.now with
    | some it => return (st, [.sendInterest e it.face none])
    | none =>
      match ← findEligibleNextHopWithEarliestOutRecord E x nexthops inFace with
      | none => return (st, [])
      | some it => return (st, [.sendInterest e it.face none])

end Interests

/-! ### Nacks -/

def code : NackReason → ℕ
  | .none => 0
  | .congestion => 50
  | .duplicate => 100
  | .noRoute => 150

def compareLessSevere (x y : NackReason) : NackReason :=
  if x = .none then y
  else if y = .none then x
  else if code y < code x then y else x

structure NackScan where
  nOutRecordsNotNacked : ℕ := 0
  lastFaceNotNacked : Option FaceId := none
  leastSevereReason : NackReason := .none
deriving DecidableEq

def NackScan.next (s : NackScan) (outR : OutRecord) : NackScan :=
  match outR.incomingNack with
  | none =>
    { s with
      nOutRecordsNotNacked := s.nOutRecordsNotNacked + 1
      lastFaceNotNacked := some outR.face }
  | some reason => { s with leastSevereReason := compareLessSevere s.leastSevereReason reason }

def sendNacks (order : List FaceId → List FaceId) (x : Entry C S) (e : PitEntryId)
    (reason : NackReason) : List Action :=
  (order (x.inRecords.map fun r => r.face).dedup).map fun downstream =>
    .sendNack e downstream reason

def afterReceiveNack (order : List FaceId → List FaceId) (fw : Forwarder C S) (_ : FaceId)
    (_ : InterestPacket C S) (_ : NackReason) (e : PitEntryId) (st : BestRoute C) :
    Option (BestRoute C × List Action) := do
  let x ← fw.entries[e]?
  let s := x.outRecords.foldl NackScan.next {}
  -- one out-record not Nacked, which is also a downstream
  let bidirectional :=
    if s.nOutRecordsNotNacked = 1 then
      s.lastFaceNotNacked.filter fun f => (x.getInRecord f).isSome
    else none
  match bidirectional with
  | some f => return (st, [.sendNack e f s.leastSevereReason])
  | none =>
    if 0 < s.nOutRecordsNotNacked then return (st, [])
    else return (st, sendNacks order x e s.leastSevereReason)

variable [DecidableEq C] {st : BestRoute C} {e : PitEntryId} {fw : Forwarder C S}

def changeFib (sort : List (NextHop FaceId) → List (NextHop FaceId)) (st : BestRoute C) :
    Event C → BestRoute C
  | .addNextHop pfx face cost =>
    let nexthops := addNextHop sort ((st.fib pfx).getD []) face cost
    { st with fib := update st.fib pfx (some nexthops) }
  | .removeNextHop pfx face =>
    { st with
      fib := update st.fib pfx ((st.fib pfx).map fun l => removeNextHop l face) }

def strategy (E : Setting C S) (sort : List (NextHop FaceId) → List (NextHop FaceId))
    (order : List FaceId → List FaceId) : Strategy C S (BestRoute C) (Event C) where
  afterReceiveInterest := afterReceiveInterest E
  beforeSatisfyInterest := fun _ _ _ _ st => some (st, [])
  beforeExpirePendingInterest := fun _ _ st => some (st, [])
  afterReceiveNack := afterReceiveNack order
  own := fun _ ev st => some (st.changeFib sort ev, [])

/-! ### Where Interests go -/

section Nexthops

variable {sort : List (NextHop FaceId) → List (NextHop FaceId)} {l : List (NextHop FaceId)}
  {h : NextHop FaceId}

inductive Built (sort : List (NextHop FaceId) → List (NextHop FaceId)) :
    List (NextHop FaceId) → Prop
  | nil : Built sort []
  | add {l : List (NextHop FaceId)} (hl : Built sort l) (face : FaceId) (cost : ℕ) :
    Built sort (addNextHop sort l face cost)
  | remove {l : List (NextHop FaceId)} (hl : Built sort l) (face : FaceId) :
    Built sort (removeNextHop l face)

lemma Built.tidy (h : Built sort l) (hsort : SortsByCost sort) : Tidy l := by
  induction h with
  | nil => exact Table.Fib.tidy_nil
  | add _ face cost ih => exact Table.Fib.tidy_addNextHop hsort ih face cost
  | remove _ face ih => exact Table.Fib.tidy_removeNextHop ih face

def FibBuilt (sort : List (NextHop FaceId) → List (NextHop FaceId)) (st : BestRoute C) : Prop :=
  ∀ pfx l, st.fib pfx = some l → Built sort l

omit [DecidableEq C] in
lemma fibBuilt_empty (sort : List (NextHop FaceId) → List (NextHop FaceId)) :
    FibBuilt sort ({} : BestRoute C) := by
  intro pfx l hl
  cases hl

omit [DecidableEq C] in
lemma FibBuilt.findLongestPrefixMatch (h : FibBuilt sort st)
    (name : Name C) : Built sort (st.findLongestPrefixMatch name) := by
  unfold BestRoute.findLongestPrefixMatch
  cases hfind : name.inits.reverse.findSome? st.fib with
  | none => exact .nil
  | some l =>
    obtain ⟨pfx, -, hl⟩ := exists_of_findSome?_eq_some hfind
    exact h pfx l hl

lemma FibBuilt.update (h : FibBuilt sort st) (pfx : Name C)
    {v : Option (List (NextHop FaceId))} (hv : ∀ l, v = some l → Built sort l) :
    FibBuilt sort { st with fib := update st.fib pfx v } := by
  intro p l hl
  by_cases hp : p = pfx
  · simp only [hp, update_self] at hl
    exact hv l hl
  · simp only [update_of_ne hp] at hl
    exact h p l hl

lemma FibBuilt.changeFib (h : FibBuilt sort st) (ev : Event C) :
    FibBuilt sort (st.changeFib sort ev) := by
  cases ev with
  | addNextHop pfx face cost =>
    refine h.update pfx fun l hl => ?_
    cases hl
    refine .add ?_ face cost
    cases hold : st.fib pfx with
    | none => exact .nil
    | some l => exact h pfx l hold
  | removeNextHop pfx face =>
    refine h.update pfx fun l hl => ?_
    obtain ⟨l', hl', rfl⟩ := map_eq_some_iff.mp hl
    exact .remove (h pfx l' hl') face

structure Cheapest (P : NextHop FaceId → Prop) (l : List (NextHop FaceId)) (h : NextHop FaceId) :
    Prop where
  mem : h ∈ l
  holds : P h
  least : ∀ h' ∈ l, P h' → h.cost ≤ h'.cost

lemma cheapest_of_find? {P : NextHop FaceId → Prop} {p : NextHop FaceId → Bool}
    (hp : ∀ h, p h = true ↔ P h) (hl : l.Pairwise (·.cost ≤ ·.cost))
    (hfind : l.find? p = some h) : Cheapest P l h := by
  refine ⟨mem_of_find?_eq_some hfind, (hp h).mp (find?_some hfind), ?_⟩
  intro h' hmem hh'
  induction l with
  | nil => cases hmem
  | cons a l ih =>
    obtain ⟨hfirst, hrest⟩ := pairwise_cons.mp hl
    cases hpa : p a with
    | true =>
      rw [find?_cons_of_pos hpa] at hfind
      cases hfind
      rcases mem_cons.mp hmem with rfl | hmem
      · exact Nat.le_refl _
      · exact hfirst h' hmem
    | false =>
      rw [find?_cons_of_neg (by simp [hpa])] at hfind
      rcases mem_cons.mp hmem with rfl | hmem
      · rw [(hp h').mpr hh'] at hpa
        cases hpa
      · exact ih hrest hfind hmem

end Nexthops

section Decisions

variable {E : Setting C S} {x : Entry C S} {inFace : FaceId} {now : ℕ} {h : NextHop FaceId}
  {l : List (NextHop FaceId)}

def Eligible (E : Setting C S) (x : Entry C S) (inFace : FaceId) (h : NextHop FaceId) : Prop :=
  h.face ≠ inFace ∧ violatesScope E x h.face = false

def Unused (x : Entry C S) (now : ℕ) (h : NextHop FaceId) : Prop :=
  ∀ r, x.getOutRecord h.face = some r → r.expiry ≤ now

lemma eligible_iff : predicateNextHopEligible E x h inFace false now = true ↔
    Eligible E x inFace h := by
  unfold predicateNextHopEligible Eligible
  by_cases hface : h.face = inFace <;> simp [hface]

lemma eligible_unused_iff : predicateNextHopEligible E x h inFace true now = true ↔
    Eligible E x inFace h ∧ Unused x now h := by
  unfold predicateNextHopEligible Eligible Unused
  by_cases hface : h.face = inFace
  · simp [hface]
  cases hscope : violatesScope E x h.face with
  | true => simp [hface]
  | false => cases hr : x.getOutRecord h.face <;> simp [hface]

def SentWithin (x : Entry C S) (now interval : ℕ) : Prop :=
  ∃ r ∈ x.outRecords, (now : ℤ) - r.lastRenewed < interval

omit [DecidableEq C] in
lemma retxDecide_pending (interval : ℕ) (h : x.hasPendingOutRecords now = true) :
    retxDecide now x interval = some (.suppress, interval) ∧ SentWithin x now interval ∨
    retxDecide now x interval =
        some (.forward, min retxSuppressionMax (interval * defaultMultiplier)) ∧
      ¬ SentWithin x now interval := by
  have hne : x.outRecords ≠ [] := by
    intro hnil
    simp [Entry.hasPendingOutRecords, hnil] at h
  obtain ⟨m, hm⟩ : ∃ m, maxElement (keyLt fun r : OutRecord => r.lastRenewed) x.outRecords =
      some m := maxElement_isSome hne
  have hsent : SentWithin x now interval ↔ (now : ℤ) - m.lastRenewed < interval := by
    constructor
    · rintro ⟨r, hr, hlt⟩
      have hle := le_maxElement hm hr
      omega
    · exact fun hlt => ⟨m, maxElement_mem hm, hlt⟩
  have hdecide : retxDecide now x interval = some
      (if (now : ℤ) - m.lastRenewed < interval then (.suppress, interval)
        else (.forward, min retxSuppressionMax (interval * defaultMultiplier))) := by
    simp [retxDecide, h, Entry.getLastOutgoing, hm]
  rw [hdecide, hsent]
  by_cases hlt : (now : ℤ) - m.lastRenewed < interval
  · exact .inl ⟨by rw [if_pos hlt], hlt⟩
  · exact .inr ⟨by rw [if_neg hlt], hlt⟩

def EarliestRenewed (E : Setting C S) (x : Entry C S) (inFace : FaceId)
    (l : List (NextHop FaceId)) (h : NextHop FaceId) : Prop :=
  h ∈ l ∧ Eligible E x inFace h ∧ ∃ r, x.getOutRecord h.face = some r ∧
    ∀ h' ∈ l, Eligible E x inFace h' → ∃ r', x.getOutRecord h'.face = some r' ∧
      r.lastRenewed ≤ r'.lastRenewed

lemma findEarliest_spec (hout : ∀ h ∈ l, Eligible E x inFace h →
      ∃ r, x.getOutRecord h.face = some r) (found : Option (NextHop FaceId × ℕ)) :
    ∃ res, findEarliest E x inFace found l = some res ∧
      (∀ f, res = some f → found = some f ∨ f.1 ∈ l ∧ Eligible E x inFace f.1 ∧
        ∃ r, x.getOutRecord f.1.face = some r ∧ r.lastRenewed = f.2) ∧
      (∀ f, found = some f → ∃ g, res = some g ∧ g.2 ≤ f.2) ∧
      ∀ h ∈ l, Eligible E x inFace h →
        ∃ g r, res = some g ∧ x.getOutRecord h.face = some r ∧ g.2 ≤ r.lastRenewed := by
  induction l generalizing found with
  | nil => exact ⟨found, rfl, fun f hf => .inl hf, fun f hf => ⟨f, hf, Nat.le_refl _⟩, nofun⟩
  | cons it l ih =>
    have ih := ih fun h hh => hout h (.tail _ hh)
    by_cases helig : Eligible E x inFace it
    · obtain ⟨r, hr⟩ := hout it (.head _) helig
      -- what is kept of the two is no later than either
      obtain ⟨next, hstep, hnext, hfound, hit⟩ : ∃ next,
          findEarliest E x inFace found (it :: l) = findEarliest E x inFace next l ∧
          (∀ f, next = some f → found = some f ∨ f = (it, r.lastRenewed)) ∧
          (∀ f, found = some f → ∃ g, next = some g ∧ g.2 ≤ f.2) ∧
          ∃ g, next = some g ∧ g.2 ≤ r.lastRenewed := by
        rw [findEarliest, if_pos (eligible_iff.mpr helig), hr, bind_some]
        split
        next hall =>
          refine ⟨_, rfl, fun f hf => .inr (some.inj hf).symm, fun f hf => ?_,
            _, rfl, Nat.le_refl _⟩
          rw [hf] at hall
          exact ⟨_, rfl, Nat.le_of_lt (of_decide_eq_true hall)⟩
        rename_i hall
        cases found with
        | none => exact absurd rfl hall
        | some f =>
          refine ⟨_, rfl, fun g hg => .inl hg, fun g hg => ⟨g, hg, Nat.le_refl _⟩, f, rfl, ?_⟩
          exact Nat.le_of_not_lt fun hlt => hall (decide_eq_true hlt)
      obtain ⟨res, hres, hfrom, hbefore, hlist⟩ := ih next
      refine ⟨res, hstep.trans hres, fun f hf => ?_, fun f hf => ?_, fun h hh hhe => ?_⟩
      · rcases hfrom f hf with hf | ⟨hmem, hrest⟩
        · rcases hnext f hf with hf | rfl
          · exact .inl hf
          · exact .inr ⟨.head _, helig, r, hr, rfl⟩
        · exact .inr ⟨.tail _ hmem, hrest⟩
      · obtain ⟨g, hg, hgf⟩ := hfound f hf
        obtain ⟨g', hg', hle⟩ := hbefore g hg
        exact ⟨g', hg', Nat.le_trans hle hgf⟩
      rcases mem_cons.mp hh with rfl | hh
      · obtain ⟨g, hg, hgr⟩ := hit
        obtain ⟨g', hg', hle⟩ := hbefore g hg
        exact ⟨g', r, hg', hr, Nat.le_trans hle hgr⟩
      · exact hlist h hh hhe
    · obtain ⟨res, hres, hfrom, hbefore, hlist⟩ := ih found
      refine ⟨res, ?_, fun f hf => ?_, hbefore, fun h hh hhe => ?_⟩
      · rw [findEarliest, if_neg fun hp => helig (eligible_iff.mp hp)]
        exact hres
      · rcases hfrom f hf with hf | ⟨hmem, hrest⟩
        · exact .inl hf
        · exact .inr ⟨.tail _ hmem, hrest⟩
      · rcases mem_cons.mp hh with rfl | hh
        · exact absurd hhe helig
        · exact hlist h hh hhe

lemma findEligible_cases (hout : ∀ h ∈ l, Eligible E x inFace h →
      ∃ r, x.getOutRecord h.face = some r) :
    (∃ h, findEligibleNextHopWithEarliestOutRecord E x l inFace = some (some h) ∧
      EarliestRenewed E x inFace l h) ∨
    findEligibleNextHopWithEarliestOutRecord E x l inFace = some none ∧
      ∀ h ∈ l, ¬ Eligible E x inFace h := by
  obtain ⟨res, hres, hfrom, -, hlist⟩ := findEarliest_spec hout none
  unfold findEligibleNextHopWithEarliestOutRecord
  rw [hres]
  cases res with
  | none =>
    refine .inr ⟨rfl, fun h hh he => ?_⟩
    obtain ⟨g, r, hg, -⟩ := hlist h hh he
    cases hg
  | some f =>
    rcases hfrom f rfl with hf | ⟨hmem, helig, r, hr, hrenewed⟩
    · cases hf
    refine .inl ⟨f.1, rfl, hmem, helig, r, hr, fun h' hh' he' => ?_⟩
    obtain ⟨g, r', hg, hr', hle⟩ := hlist h' hh' he'
    cases hg
    exact ⟨r', hr', hrenewed ▸ hle⟩

inductive Handles (E : Setting C S) (now interval : ℕ) (x : Entry C S) (inFace : FaceId)
    (e : PitEntryId) (l : List (NextHop FaceId)) : List Action → Prop
  | forwarded {h : NextHop FaceId} (hnew : x.hasPendingOutRecords now = false)
      (hh : Cheapest (Eligible E x inFace) l h) :
    Handles E now interval x inFace e l [.sendInterest e h.face none]
  | rejected (hnew : x.hasPendingOutRecords now = false)
      (hnone : ∀ h ∈ l, ¬ Eligible E x inFace h) :
    Handles E now interval x inFace e l [.sendNack e inFace .noRoute, .rejectPendingInterest e]
  | suppressed (hpending : x.hasPendingOutRecords now = true) (hsent : SentWithin x now interval) :
    Handles E now interval x inFace e l []
  | toUnused {h : NextHop FaceId} (hpending : x.hasPendingOutRecords now = true)
      (hsent : ¬ SentWithin x now interval)
      (hh : Cheapest (fun h => Eligible E x inFace h ∧ Unused x now h) l h) :
    Handles E now interval x inFace e l [.sendInterest e h.face none]
  | retried {h : NextHop FaceId} (hpending : x.hasPendingOutRecords now = true)
      (hsent : ¬ SentWithin x now interval)
      (hnone : ∀ h ∈ l, ¬ (Eligible E x inFace h ∧ Unused x now h))
      (hh : EarliestRenewed E x inFace l h) :
    Handles E now interval x inFace e l [.sendInterest e h.face none]
  | noNextHop (hpending : x.hasPendingOutRecords now = true)
      (hsent : ¬ SentWithin x now interval) (hnone : ∀ h ∈ l, ¬ Eligible E x inFace h) :
    Handles E now interval x inFace e l []

def interestFaces (actions : List Action) : List FaceId :=
  actions.filterMap fun
    | .sendInterest _ f _ => some f
    | _ => none

lemma Handles.interestFaces {interval : ℕ} {actions : List Action}
    (h : Handles E now interval x inFace e l actions) :
    (interestFaces actions).length ≤ 1 ∧
      ∀ f ∈ interestFaces actions, f ≠ inFace ∧ violatesScope E x f = false := by
  have hone : ∀ h : NextHop FaceId, Eligible E x inFace h →
      ∀ f ∈ BestRoute.interestFaces [.sendInterest e h.face none],
        f ≠ inFace ∧ violatesScope E x f = false := by
    intro h hh f hf
    obtain rfl : f = h.face := mem_singleton.mp hf
    exact hh
  cases h with
  | forwarded _ hh => exact ⟨Nat.le_refl 1, hone _ hh.holds⟩
  | rejected | suppressed => exact ⟨Nat.zero_le 1, nofun⟩
  | toUnused _ _ hh => exact ⟨Nat.le_refl 1, hone _ hh.holds.1⟩
  | retried _ _ _ hh => exact ⟨Nat.le_refl 1, hone _ hh.2.1⟩
  | noNextHop => exact ⟨Nat.zero_le 1, nofun⟩

lemma handles_afterReceiveInterest (i : InterestPacket C S) (hx : fw.entries[e]? = some x)
    (hl : (st.findLongestPrefixMatch x.interest.name).Pairwise (·.cost ≤ ·.cost)) :
    ∃ st' actions, afterReceiveInterest E fw inFace i e st = some (st', actions) ∧
      Handles E fw.now ((st.suppressionInterval e).getD retxSuppressionInitial) x inFace e
        (st.findLongestPrefixMatch x.interest.name) actions := by
  generalize hnexthops : st.findLongestPrefixMatch x.interest.name = l at hl ⊢
  generalize hinterval : (st.suppressionInterval e).getD retxSuppressionInitial = interval
  simp only [afterReceiveInterest, hx, hnexthops, hinterval, bind_eq_bind, bind_some]
  cases hpending : x.hasPendingOutRecords fw.now with
  | false =>
    have hdecide : retxDecide fw.now x interval = some (.new, interval) := by
      simp [retxDecide, hpending]
    simp only [hdecide, bind_some]
    cases hfind : l.find? fun h => predicateNextHopEligible E x h inFace false 0 with
    | none =>
      have hnone := find?_eq_none.mp hfind
      exact ⟨_, _, rfl, .rejected hpending fun h hh he => hnone h hh (eligible_iff.mpr he)⟩
    | some h =>
      exact ⟨_, _, rfl, .forwarded hpending (cheapest_of_find? (fun _ => eligible_iff) hl hfind)⟩
  | true =>
    rcases retxDecide_pending interval hpending with ⟨hdecide, hsent⟩ | ⟨hdecide, hsent⟩
    · simp only [hdecide, bind_some]
      exact ⟨_, _, rfl, .suppressed hpending hsent⟩
    simp only [hdecide, bind_some]
    cases hfind : l.find? fun h => predicateNextHopEligible E x h inFace true fw.now with
    | some h =>
      exact ⟨_, _, rfl,
        .toUnused hpending hsent (cheapest_of_find? (fun _ => eligible_unused_iff) hl hfind)⟩
    | none =>
      -- nothing is unused, so that every eligible nexthop has an out-record
      have hused : ∀ h ∈ l, ¬ (Eligible E x inFace h ∧ Unused x fw.now h) :=
        fun h hh he => find?_eq_none.mp hfind h hh (eligible_unused_iff.mpr he)
      have hout : ∀ h ∈ l, Eligible E x inFace h → ∃ r, x.getOutRecord h.face = some r := by
        intro h hh he
        refine ne_none_iff_exists'.mp fun hnone => hused h hh ⟨he, fun r hr => ?_⟩
        cases hnone.symm.trans hr
      rcases findEligible_cases hout with ⟨h, hsearch, hearliest⟩ | ⟨hsearch, hnone⟩
      · simp only [hsearch, bind_some]
        exact ⟨_, _, rfl, .retried hpending hsent hused hearliest⟩
      · simp only [hsearch, bind_some]
        exact ⟨_, _, rfl, .noNextHop hpending hsent hnone⟩

/-- The trigger comes through for every PIT entry, and sends an Interest on one face at most. -/
theorem interest_sent_to_best_route {sort : List (NextHop FaceId) → List (NextHop FaceId)}
    (hsort : SortsByCost sort) (E : Setting C S) (st : BestRoute C) (hfib : FibBuilt sort st)
    (fw : Forwarder C S) (inFace : FaceId) (i : InterestPacket C S) (e : PitEntryId)
    (hx : fw.entries[e]? = some x) :
    ∃ st' actions, afterReceiveInterest E fw inFace i e st = some (st', actions) ∧
      (interestFaces actions).length ≤ 1 ∧
      (∀ f ∈ interestFaces actions, f ≠ inFace ∧ violatesScope E x f = false) ∧
      Handles E fw.now ((st.suppressionInterval e).getD retxSuppressionInitial) x inFace e
        (st.findLongestPrefixMatch x.interest.name) actions := by
  have htidy := (hfib.findLongestPrefixMatch x.interest.name).tidy hsort
  obtain ⟨st', actions, htrigger, hhandles⟩ := handles_afterReceiveInterest i hx htidy.sorted
  exact ⟨st', actions, htrigger, hhandles.interestFaces.1, hhandles.interestFaces.2, hhandles⟩

/-- Face 3 costs less than face 2. -/
theorem interest_sent_to_best_route_two :
    let sort := Table.Fib.sortByCost
    let st := (({} : BestRoute ℕ).changeFib sort (.addNextHop [5] 2 10)).changeFib sort
      (.addNextHop [5] 3 4)
    let i : InterestPacket ℕ Unit := ⟨⟨[5], ()⟩, 7, none⟩
    let x := ({ interest := i } : Entry ℕ Unit).insertOrUpdateInRecord 0 1 i
    let fw : Forwarder ℕ Unit := { entries := [x], pit := [0] }
    ∃ st' actions, afterReceiveInterest localSetting fw 1 i 0 st = some (st', actions) ∧
      actions = [.sendInterest 0 3 none] ∧
      Handles localSetting 0 retxSuppressionInitial x 1 0 (st.findLongestPrefixMatch [5])
        actions := by
  intro sort st i x fw
  have hfib : FibBuilt sort st := ((fibBuilt_empty sort).changeFib _).changeFib _
  obtain ⟨st', actions, htrigger, -, -, hhandles⟩ := interest_sent_to_best_route
    Table.Fib.sortsByCost_sortByCost localSetting st hfib fw 1 i 0 rfl
  have hactions : (afterReceiveInterest localSetting fw 1 i 0 st).map Prod.snd =
      some [.sendInterest 0 3 none] := by decide
  rw [htrigger] at hactions
  exact ⟨st', actions, htrigger, some.inj hactions, hhandles⟩

end Decisions

end BestRoute

end NfdGateway.Fw
