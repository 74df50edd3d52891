import NfdGateway.Nwd.Handlers

/-! The timer that answers the pending Interests while it iterates over them. -/
namespace NfdGateway.Nwd

open Serial List

/-- A Data that was put, with the data set that it was made from. -/
structure Answer where
  name : List Char
  content : List Char
  stored : List WsnData

/-- `interest_list` in the order of its keys, and `data_set`. -/
structure Waiting where
  interestList : List (List Char × List (List Char))
  dataSet : List WsnData := []
  answers : List Answer := []

/-- `std::set::insert` with `WsnData::operator<`, which compares `data` only. -/
def insertDatum (d : WsnData) : List WsnData → List WsnData
  | [] => [d]
  | e :: l =>
    if d.data < e.data then d :: e :: l
    else if e.data < d.data then e :: insertDatum d l
    else e :: l

def insertData (now : ℤ) : List (List Char) → List WsnData → Option (List WsnData)
  | [], dataSet => some dataSet
  | data :: l, dataSet => (wsnData data now).bind fun d => insertData now l (insertDatum d dataSet)

namespace Waiting

/-- `send_data`, which erases the Interest. -/
def sendData (s : Waiting) (name content : List Char) : Waiting :=
  { s with
    answers := s.answers ++ [⟨name, content, s.dataSet⟩]
    interestList := s.interestList.filter fun itr => itr.1 ≠ name }

/-- The body of the loop in `wait_data` at an element. `none` is an exception. -/
def visit (now : ℤ) (s : Waiting) (itr : List Char × List (List Char)) : Option Waiting := do
  let dataSet ← insertData now itr.2 s.dataSet
  let content ← searchDataset itr.1 dataSet
  return { s with dataSet }.sendData itr.1 content

/-- `++itr`, which is undefined when the element is no longer in the map. -/
def advance (s : Waiting) (itr : List Char × List (List Char)) :
    Option (Option (List Char × List (List Char))) :=
  if itr.1 ∈ s.interestList.map Prod.fst then
    some (s.interestList.dropWhile fun other => other.1 ≠ itr.1).tail.head?
  else none

/-- The loop from an iterator on, where `none` is `end()`. The number bounds its rounds. -/
def waitFrom (now : ℤ) : ℕ → Option (List Char × List (List Char)) → Waiting → Option Waiting
  | _, none, s => some s
  | 0, some _, _ => none
  | rounds + 1, some itr, s => do
    let s ← s.visit now itr
    waitFrom now rounds (← s.advance itr) s

def waitData (now : ℤ) (s : Waiting) : Option Waiting :=
  waitFrom now s.interestList.length s.interestList.head? s

/-- The data of a set that match an Interest. -/
def matching (name : List Char) (dataSet : List WsnData) : List Char :=
  (dataSet.filter fun d => searchDatum name d = some true).flatMap fun d => d.data ++ ['$', '$']

/-- A call that is defined and answers every pending Interest once, from what was stored and
received for it. -/
def Served (now : ℤ) (s : Waiting) : Prop :=
  ∃ t, s.waitData now = some t ∧ t.interestList = [] ∧
    ∃ news, t.answers = s.answers ++ news ∧ news.map Answer.name = s.interestList.map Prod.fst ∧
      (∀ a ∈ news, a.content = matching a.name a.stored) ∧
      ∀ a ∈ news, ∀ itr ∈ s.interestList, itr.1 = a.name →
        ∀ data ∈ s.dataSet.map WsnData.data ++ itr.2, data ∈ a.stored.map WsnData.data

variable {now : ℤ} {s t : Waiting} {itr : List Char × List (List Char)}

lemma notMem_of_visit (h : s.visit now itr = some t) : itr.1 ∉ t.interestList.map Prod.fst := by
  simp only [visit, Option.bind_eq_bind, Option.bind_eq_some_iff] at h
  obtain ⟨dataSet, -, content, -, ht⟩ := h
  obtain rfl := Option.some.inj ht
  intro hmem
  obtain ⟨other, hother, heq⟩ := mem_map.mp hmem
  exact of_decide_eq_true (mem_filter.mp hother).2 heq

/-- No round of the loop gets to the next element. -/
lemma waitFrom_some (rounds : ℕ) : waitFrom now rounds (some itr) s = none := by
  cases rounds with
  | zero => rfl
  | succ rounds =>
    rw [waitFrom]
    cases hvisit : s.visit now itr with
    | none => rfl
    | some t =>
      have hnone : t.advance itr = none := if_neg (notMem_of_visit hvisit)
      simp [hnone]

/-- The element that the loop stands on is gone after its first round. -/
theorem served_iff (now : ℤ) (s : Waiting) : s.Served now ↔ s.interestList = [] := by
  constructor
  · rintro ⟨t, ht, -⟩
    cases hlist : s.interestList with
    | nil => rfl
    | cons itr l =>
      rw [waitData, hlist, head?_cons, waitFrom_some] at ht
      cases ht
  · intro hnil
    refine ⟨s, by simp [waitData, hnil, waitFrom], hnil, [], (append_nil _).symm, ?_, nofun, nofun⟩
    rw [hnil]
    rfl

end Waiting

/-- `wsn/1,9/9,1/0/20/temp`, for which nothing was received. -/
def onePending : Waiting where
  interestList := [(['w', 's', 'n', '/', '1', ',', '9', '/', '9', ',', '1', '/', '0', '/', '2',
    '0', '/', 't', 'e', 'm', 'p'], [])]

/-- It is answered, and then the iterator to it is advanced. -/
theorem erased_iterator_advanced :
    (∀ itr ∈ onePending.interestList, (onePending.visit 0 itr).isSome) ∧
      ¬ onePending.Served 0 := by
  have hnone : onePending.waitData 0 = none := by decide
  refine ⟨by decide, fun ⟨t, ht, _⟩ => ?_⟩
  rw [hnone] at ht
  cases ht

end NfdGateway.Nwd
