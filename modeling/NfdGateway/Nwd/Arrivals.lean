import NfdGateway.Nwd.Requests

/-! Which Interests under `/wsn` are passed on to the sensors. They wait in a queue that is emptied
when one of them comes in its time. -/
namespace NfdGateway.Nwd

open StdString Serial List Option Function

/-- An Interest, the time when it comes in and the data that are stored then. -/
structure Arrival where
  now : ℤ
  rest : Suffix
  dataSet : List WsnData := []

namespace Arrival

variable (a : Arrival)

def name : List Char := wsnName a.rest.decoded

/-- The time window contains the time itself, not what is left of it in an `int`. -/
def inWindow : Bool := (periodOf a.rest.decoded).any fun p => p.1 ≤ a.now ∧ a.now ≤ p.2

/-- The answer from the data set. -/
def answer : List Char × List Char := (a.name, (searchDataset a.name a.dataSet).getD [])

end Arrival

def Outcome.calls : Outcome → List (List Char)
  | .handled names => names
  | _ => []

def Outcome.answers : Outcome → List (List Char × List Char)
  | .answered name content => [(name, content)]
  | _ => []

def arrive (r : State × List Outcome) (a : Arrival) : State × List Outcome :=
  let o := handle a.now { r.1 with dataSet := a.dataSet } (.wsn a.rest)
  (o.1, r.2 ++ [o.2])

def arrivals (l : List Arrival) : State × List Outcome := l.foldl arrive ({}, [])

/-- At every time the calls are those for the Interests that have come in their window, and the
others have been answered from the data set. -/
def CallsExact (l : List Arrival) : Prop :=
  ∀ l', l' <+: l →
    (arrivals l').2.flatMap Outcome.calls = (l'.filter (·.inWindow)).map (·.name) ∧
    (arrivals l').2.flatMap Outcome.answers = (l'.filter (!·.inWindow)).map (·.answer)

variable {l : List Arrival} {a : Arrival} {s : State}

lemma arrivals_concat (l : List Arrival) (a : Arrival) :
    arrivals (l ++ [a]) = arrive (arrivals l) a := by
  simp [arrivals]

/-- The outcome is the right one for the Interest. -/
def Right (a : Arrival) (o : Outcome) : Prop :=
  o.calls = (if a.inWindow then [a.name] else []) ∧
    o.answers = if a.inWindow then [] else [a.answer]

lemma callsExact_concat (l : List Arrival) (a : Arrival) :
    CallsExact (l ++ [a]) ↔ CallsExact l ∧
      Right a (handle a.now { (arrivals l).1 with dataSet := a.dataSet } (.wsn a.rest)).2 := by
  have hlast : CallsExact (l ++ [a]) ↔ CallsExact l ∧
      ((arrivals (l ++ [a])).2.flatMap Outcome.calls =
          ((l ++ [a]).filter (·.inWindow)).map (·.name) ∧
        (arrivals (l ++ [a])).2.flatMap Outcome.answers =
          ((l ++ [a]).filter (!·.inWindow)).map (·.answer)) := by
    simp only [CallsExact, prefix_concat_iff, or_imp, forall_and, forall_eq]
    tauto
  rw [hlast]
  refine and_congr_right fun hl => ?_
  obtain ⟨hcalls, hanswers⟩ := hl l (prefix_refl l)
  rw [arrivals_concat]
  cases hin : a.inWindow <;> simp [arrive, hcalls, hanswers, Right, hin]

/-- The Interest is not ignored, the test of the code agrees with its window, and in its window its
name fits into the buffer. -/
structure Arrival.Timely (a : Arrival) : Prop where
  notIgnored : ¬ Ignored a.rest
  passes : a.rest.passes a.now = a.inWindow
  short : a.inWindow = true → a.name.length < 1024

/-- One Interest that finds nobody at work is treated right exactly if it is timely and, in its
window, alone in the queue. -/
lemma right_iff (hwf : WellFormed a.rest.decoded) (hidle : s.handleInterestBusy = false) :
    Right a (handle a.now { s with dataSet := a.dataSet } (.wsn a.rest)).2 ↔
      a.Timely ∧ (a.inWindow = true → s.receiveInQueue = []) := by
  by_cases hi : Ignored a.rest
  · rw [handle_ignored hi]
    refine iff_of_false ?_ fun h => h.1.notIgnored hi
    cases hin : a.inWindow <;> simp [Right, hin, Outcome.calls, Outcome.answers]
  have htimely : a.Timely ↔ a.rest.passes a.now = a.inWindow ∧
      (a.inWindow = true → a.name.length < 1024) := ⟨fun h => ⟨h.2, h.3⟩, fun h => ⟨hi, h.1, h.2⟩⟩
  rw [htimely]
  cases hpasses : a.rest.passes a.now with
  | true =>
    rw [handle_passes hi hwf hpasses, hidle, if_neg Bool.false_ne_true]
    split
    next hshort =>
      have hname : a.name.length < 1024 := hshort _ (by simp [Arrival.name])
      cases hin : a.inWindow <;> simp [Right, hin, Outcome.calls, Outcome.answers, Arrival.name]
      exact fun _ => hname
    rename_i hlong
    cases hin : a.inWindow with
    | false => simp [Right, hin, Outcome.answers]
    | true =>
      refine iff_of_false (by simp [Right, hin, Outcome.calls]) fun ⟨⟨_, hname⟩, hqueue⟩ => hlong ?_
      simpa [hqueue, Arrival.name] using hname rfl
  | false =>
    obtain ⟨content, hsearch, houtcome⟩ :=
      handle_answered (s := { s with dataSet := a.dataSet }) hi hwf hpasses
    rw [houtcome]
    cases hin : a.inWindow <;>
      simp [Right, hin, Outcome.calls, Outcome.answers, Arrival.answer, Arrival.name]
    exact (congrArg (·.getD []) hsearch).symm

/-- Every Interest is timely, and none in its window comes after one that is not. -/
def InTurn (l : List Arrival) : Prop :=
  (∀ a ∈ l, a.Timely) ∧ l.Pairwise fun a b => b.inWindow = true → a.inWindow = true

lemma inTurn_concat (l : List Arrival) (a : Arrival) : InTurn (l ++ [a]) ↔ InTurn l ∧
    a.Timely ∧ (a.inWindow = true → ∀ b ∈ l, b.inWindow = true) := by
  simp only [InTurn, mem_append, mem_singleton, or_imp, forall_and, forall_eq, pairwise_append,
    pairwise_singleton, true_and]
  constructor
  · exact fun ⟨⟨hall, ha⟩, hl, hlast⟩ => ⟨⟨hall, hl⟩, ha, fun hin b hb => hlast b hb hin⟩
  · exact fun ⟨⟨hall, hl⟩, ha, hlast⟩ => ⟨⟨hall, ha⟩, hl, fun b hb hin => hlast hin b hb⟩

/-- The calls are exact as long as the Interests are in turn, and then the queue has what came
outside of its window. -/
lemma callsExact_iff_inTurn (hwf : ∀ a ∈ l, WellFormed a.rest.decoded) :
    (CallsExact l ↔ InTurn l) ∧ (InTurn l → (arrivals l).1.handleInterestBusy = false ∧
      (arrivals l).1.receiveInQueue = (l.filter (!·.inWindow)).map (·.name)) := by
  induction l using List.reverseRecOn with
  | nil =>
    refine ⟨⟨fun _ => ⟨nofun, .nil⟩, fun _ l' hl' => ?_⟩, fun _ => ⟨rfl, rfl⟩⟩
    rw [prefix_nil.mp hl']
    exact ⟨rfl, rfl⟩
  | append_singleton l a ih =>
    obtain ⟨hexact, hqueue⟩ := ih fun b hb => hwf b (mem_append_left _ hb)
    have ha := hwf a (by simp)
    have hempty : InTurn l → ((arrivals l).1.receiveInQueue = [] ↔ ∀ b ∈ l, b.inWindow = true) := by
      intro hl
      simp [(hqueue hl).2]
    rw [callsExact_concat, hexact, inTurn_concat, arrivals_concat]
    constructor
    · refine and_congr_right fun hl => (right_iff ha (hqueue hl).1).trans ?_
      rw [hempty hl]
    rintro ⟨hl, htimely, hlast⟩
    obtain ⟨hidle, hwaiting⟩ := hqueue hl
    obtain ⟨hbusy, hafter⟩ := handle_queue a.now { (arrivals l).1 with dataSet := a.dataSet }
      htimely.notIgnored
    refine ⟨hbusy.trans hidle, hafter.trans ?_⟩
    rw [filter_append, map_append, ← hwaiting]
    cases hin : a.inWindow with
    | true =>
      have hnone := (hempty hl).mpr (hlast hin)
      have hshort : (wsnName a.rest.decoded).length < 1024 := htimely.short hin
      rw [handle_passes htimely.notIgnored ha (htimely.passes.trans hin)]
      simp [hidle, hnone, hin, hshort]
    | false =>
      obtain ⟨content, -, houtcome⟩ := handle_answered
        (s := { (arrivals l).1 with dataSet := a.dataSet }) htimely.notIgnored ha
        (htimely.passes.trans hin)
      rw [houtcome]
      simp [hin, Arrival.name]

/-- `handle_interest` is called as it should, and the other Interests are answered, exactly if the
Interests are in turn. -/
theorem calls_exact_iff (hwf : ∀ a ∈ l, WellFormed a.rest.decoded) : CallsExact l ↔ InTurn l :=
  (callsExact_iff_inTurn hwf).1

def arrivalUntil (c : Char) (hc : c ≠ '/') : Arrival where
  now := 10
  rest :=
    { components := [['1', '%', '2', 'C', '9'], ['9', '%', '2', 'C', '1'], ['0'], [c, '0'],
        ['t', 'e', 'm', 'p']]
      noSlash := by simp [hc.symm]
      size := by simp [joined] }

/-- An Interest for times that are over is passed on with the next one. -/
theorem late_interest_called :
    (arrivals [arrivalUntil '0' (by decide), arrivalUntil '2' (by decide)]).2.flatMap
        Outcome.calls = [(arrivalUntil '0' (by decide)).name, (arrivalUntil '2' (by decide)).name] ∧
      ¬ CallsExact [arrivalUntil '0' (by decide), arrivalUntil '2' (by decide)] := by
  refine ⟨by decide +kernel, fun h => absurd (h _ (prefix_refl _)) (by decide +kernel)⟩

/-- Two Interests that come in their time, and one that comes too late. -/
theorem calls_exact_iff_timely : CallsExact [arrivalUntil '2' (by decide),
    arrivalUntil '3' (by decide), arrivalUntil '0' (by decide)] := by
  refine (calls_exact_iff fun a ha => ?_).mpr ⟨fun a ha => ?_, by decide +kernel⟩
  · simp only [mem_cons, not_mem_nil, or_false] at ha
    rcases ha with rfl | rfl | rfl <;>
      refine ⟨['1'], ['9'], ['9'], ['1'], ['0'], [_, '0'], ['t', 'e', 'm', 'p'], rfl, ?_⟩
    all_goals
      intro n hn
      simp only [mem_cons, not_mem_nil, or_false] at hn
      rcases hn with rfl | rfl | rfl | rfl | rfl | rfl <;>
        exact ⟨false, [], _, rfl, by simp, by simp, by simp, by decide⟩
  · simp only [mem_cons, not_mem_nil, or_false] at ha
    rcases ha with rfl | rfl | rfl <;>
      exact ⟨by rw [ignored_iff]; decide +kernel, by decide +kernel, by decide +kernel⟩

end NfdGateway.Nwd
