import NfdGateway.Nwd.Uri
import NfdGateway.Serial.Dataset

/-! The handlers of the gateway for Interests under `/wsn` and `/wifi/register`. They cut the URI
of the name into pieces; an exception that they throw is caught by nobody. -/
namespace NfdGateway.Nwd

open StdString Serial List Option Function

def wsn : List Char := ['/', 'w', 's', 'n']

def wifiRegister : List Char :=
  ['/', 'w', 'i', 'f', 'i', '/', 'r', 'e', 'g', 'i', 's', 't', 'e', 'r']

def replaceCommas : List Char → List Char
  | '%' :: '2' :: 'C' :: s => ',' :: replaceCommas s
  | c :: s => c :: replaceCommas s
  | [] => []

structure State where
  interestList : List Char → Option (List (List Char)) := fun _ => none
  receiveInQueue : List (List Char) := []
  dataSet : List WsnData := []
  wifiLocationMap : List Char → Option (List Char) := fun _ => none
  handleInterestBusy : Bool := false
  globeTimestamp : ℤ := 0

/-- How a handler ends: without effect, with the name in the queue, with the names it passed on to
`handle_interest`, with a Data, with an exception, or with a name written past the end of the buffer
for it. -/
inductive Outcome
  | ignored
  | queued
  | handled (names : List (List Char))
  | answered (name content : List Char)
  | thrown
  | overflowed
deriving DecidableEq

def searchDatum (name : List Char) (dataval : WsnData) : Option Bool := do
  if ← searchDatasetPosition name dataval then
    if ← searchDatasetTime name dataval then searchDatasetType name dataval
    else return false
  else return false

def searchDataset (name : List Char) : List WsnData → Option (List Char)
  | [] => some []
  | dataval :: dataSet => do
    let found ← searchDatum name dataval
    let rest ← searchDataset name dataSet
    return (if found then dataval.data ++ ['$', '$'] else []) ++ rest

def topo : List Char := ['t', 'o', 'p', 'o']

def location : List Char := ['l', 'o', 'c', 'a', 't', 'i', 'o', 'n']

def range : List Char := ['r', 'a', 'n', 'g', 'e']

def onInterest (now : ℤ) (uri : List Char) (s : State) : State × Outcome :=
  if contains uri topo || contains uri location || contains uri range then (s, .ignored)
  else
    let name := (replaceCommas uri).drop 1
    let s := { s with
      interestList := update s.interestList name (some ((s.interestList name).getD []))
      receiveInQueue := s.receiveInQueue ++ [name]
      globeTimestamp := now }
    match timeBelongInterest name (BitVec.ofInt 32 now).toInt with
    | none => (s, .thrown)
    | some true =>
      if s.handleInterestBusy then (s, .queued)
      -- each name is copied into `char tmp[1024]` with its terminating zero
      else if s.receiveInQueue.all (·.length < 1024) then
        ({ s with receiveInQueue := [] }, .handled s.receiveInQueue)
      else (s, .overflowed)
    | some false =>
      match searchDataset name s.dataSet with
      | none => (s, .thrown)
      | some content =>
        -- `send_data` deletes the Interest
        ({ s with interestList := update s.interestList name none },
          .answered name content)

def wifiUpdateIdLocation (str : List Char) (locations : List Char → Option (List Char)) :
    Option (List Char → Option (List Char)) := do
  let slash := find str '/' 1
  let userId ← substr str 1 (prev slash)
  let location ← substr str (next slash) npos
  let location ← replace location (find location '/' 0) 1 [',']
  return update locations userId (some location)

def success : List Char := ['s', 'u', 'c', 'c', 'e', 's', 's']

def wifiRegisterOnInterest (uri : List Char) (s : State) : State × Outcome :=
  match wifiUpdateIdLocation (uri.drop 14) s.wifiLocationMap with
  | none => (s, .thrown)
  | some locations => ({ s with wifiLocationMap := locations }, .answered uri success)

lemma replaceCommas_append (a b : List Char) :
    replaceCommas (a ++ '/' :: b) = replaceCommas a ++ '/' :: replaceCommas b := by
  induction a using replaceCommas.induct with
  | case1 s ih => simp [replaceCommas, ih]
  | case2 c s hne ih =>
    have hno : ∀ t, c = '%' → s ++ '/' :: b = '2' :: 'C' :: t → False := by
      intro t hc hs
      match s, hs with
      | [], hs => simp at hs
      | [x], hs => simp at hs
      | x :: y :: s, hs =>
        simp only [cons_append, List.cons.injEq] at hs
        exact hne s hc (by rw [hs.1, hs.2.1])
    rw [cons_append, replaceCommas, ih, replaceCommas, cons_append]
    · exact hne
    · exact hno
  | case3 => simp [replaceCommas]

lemma replaceCommas_joined (p : List Char) (cs : List (List Char)) :
    replaceCommas (joined p cs) = joined (replaceCommas p) (cs.map replaceCommas) := by
  induction cs generalizing p with
  | nil => simp
  | cons c cs ih => rw [joined_cons, ih, replaceCommas_append, map_cons, joined_cons]

lemma mem_replaceCommas {s : List Char} {c : Char} (h : c ∈ replaceCommas s) : c = ',' ∨ c ∈ s := by
  induction s using replaceCommas.induct with
  | case1 s ih =>
    rw [replaceCommas, mem_cons] at h
    rcases h with rfl | h
    · exact .inl rfl
    · exact (ih h).imp_right fun hs => by simp [hs]
  | case2 d s hne ih =>
    rw [replaceCommas, mem_cons] at h
    · rcases h with rfl | h
      · exact .inr mem_cons_self
      · exact (ih h).imp_right (mem_cons_of_mem d)
    · exact hne
  | case3 => cases h

lemma length_replaceCommas_le (s : List Char) : (replaceCommas s).length ≤ s.length := by
  induction s using replaceCommas.induct with
  | case1 s ih =>
    simp only [replaceCommas, length_cons]
    omega
  | case2 d s hne ih =>
    rw [replaceCommas, length_cons, length_cons]
    · omega
    · exact hne
  | case3 => exact le_rfl

section Period

variable {p a b t : List Char}

lemma interestPeriod_parts (ha : '/' ∉ a) (hb : '/' ∉ b) (ht : '/' ∉ t)
    (hlen : (p ++ '/' :: a ++ '/' :: b ++ '/' :: t).length ≤ npos) :
    interestPeriod (p ++ '/' :: a ++ '/' :: b ++ '/' :: t) =
      (stoi b).bind fun endtime => (stoi a).bind fun starttime => some (starttime, endtime) := by
  have hthird : (p ++ '/' :: a ++ '/' :: b).length ≤ npos := by
    rw [length_append] at hlen
    omega
  have hsecond : (p ++ '/' :: a).length ≤ npos := by
    rw [length_append] at hthird
    omega
  have hend := rfind_last ht hlen
  have hmiddle := rfind_prev hb hthird ('/' :: t)
  have hstart : rfind (p ++ '/' :: a ++ '/' :: b ++ '/' :: t) '/' (prev (p ++ '/' :: a).length) =
      p.length := by
    rw [append_assoc (p ++ '/' :: a)]
    exact rfind_prev ha hsecond _
  have hb' : between (p ++ '/' :: a ++ '/' :: b ++ '/' :: t) (p ++ '/' :: a).length
      (p ++ '/' :: a ++ '/' :: b).length = some b := by
    rw [append_assoc (p ++ '/' :: a)]
    exact between_append hthird _
  have ha' : between (p ++ '/' :: a ++ '/' :: b ++ '/' :: t) p.length (p ++ '/' :: a).length =
      some a := by
    rw [append_assoc (p ++ '/' :: a), append_assoc p]
    exact between_append hsecond _
  simp only [interestPeriod, hend, hmiddle, hstart, hb', ha', bind_eq_bind, bind_some]
  rfl

end Period

lemma interestScope_parts {p a b r : List Char} (hp : '/' ∉ p) (ha : '/' ∉ a) (hb : '/' ∉ b)
    (hlen : (p ++ '/' :: (a ++ '/' :: (b ++ '/' :: r))).length ≤ npos) :
    interestScope (p ++ '/' :: (a ++ '/' :: (b ++ '/' :: r))) =
      (stoiPair a).bind fun leftup => (stoiPair b).bind fun rightdown =>
        some (leftup, rightdown) := by
  have hlength : (p ++ '/' :: (a ++ '/' :: (b ++ '/' :: r))).length =
      p.length + a.length + b.length + r.length + 3 := by
    simp only [length_append, length_cons]
    omega
  have hassoc : p ++ '/' :: (a ++ '/' :: (b ++ '/' :: r)) =
      p ++ '/' :: a ++ '/' :: (b ++ '/' :: r) := by simp
  have hsecond : (p ++ '/' :: a).length = p.length + a.length + 1 := by
    simp only [length_append, length_cons]
    omega
  have hthird : (p ++ '/' :: a ++ '/' :: b).length = p.length + a.length + b.length + 2 := by
    simp only [length_append, length_cons]
    omega
  have hbegin : find (p ++ '/' :: (a ++ '/' :: (b ++ '/' :: r))) '/' 0 = p.length := by
    simpa using find_append_cons hp [] (a ++ '/' :: (b ++ '/' :: r))
  have hmiddle := find_next ha (p := p) (by omega) (b ++ '/' :: r)
  have hend : find (p ++ '/' :: (a ++ '/' :: (b ++ '/' :: r))) '/'
      (next (p ++ '/' :: a).length) = (p ++ '/' :: a ++ '/' :: b).length := by
    rw [hassoc]
    exact find_next hb (by omega) r
  have hleftup : between (p ++ '/' :: (a ++ '/' :: (b ++ '/' :: r))) p.length
      (p ++ '/' :: a).length = some a := between_append (by omega) _
  have hrightdown : between (p ++ '/' :: (a ++ '/' :: (b ++ '/' :: r))) (p ++ '/' :: a).length
      (p ++ '/' :: a ++ '/' :: b).length = some b := by
    rw [hassoc]
    exact between_append (by omega) _
  simp only [interestScope, hbegin, hmiddle, hend, hleftup, hrightdown, bind_eq_bind, bind_some]
  rfl

section Components

variable {cs : List (List Char)} {userId : List Char}

def periodOf (cs : List (List Char)) : Option (ℤ × ℤ) :=
  match cs.reverse with
  | _ :: b :: a :: _ => (stoi b).bind fun endtime => (stoi a).bind fun starttime =>
    some (starttime, endtime)
  | _ => none

def scopeOf : List (List Char) → Option ((ℤ × ℤ) × (ℤ × ℤ))
  | a :: b :: _ => (stoiPair a).bind fun leftup => (stoiPair b).bind fun rightdown =>
    some (leftup, rightdown)
  | _ => none

lemma three_last (h : 3 ≤ cs.length) : ∃ ds a b t, cs = ds ++ [a, b, t] := by
  obtain ⟨t, b, a, ds, hrev⟩ : ∃ t b a ds, cs.reverse = t :: b :: a :: ds := by
    match hrev : cs.reverse with
    | [] | [_] | [_, _] =>
      have hlen := congrArg List.length hrev
      simp only [length_reverse, length_cons, length_nil] at hlen
      omega
    | t :: b :: a :: ds => exact ⟨t, b, a, ds, rfl⟩
  refine ⟨ds.reverse, a, b, t, ?_⟩
  rw [← reverse_reverse cs, hrev]
  simp

lemma periodOf_append (ds : List (List Char)) (a b t : List Char) :
    periodOf (ds ++ [a, b, t]) = (stoi b).bind fun endtime => (stoi a).bind fun starttime =>
      some (starttime, endtime) := by
  simp [periodOf]

lemma joined_three (p : List Char) (ds : List (List Char)) (a b t : List Char) :
    joined p (ds ++ [a, b, t]) = joined p ds ++ '/' :: a ++ '/' :: b ++ '/' :: t := by
  rw [joined_append, joined_cons, joined_cons, joined_cons, joined_nil]

def wsnName (cs : List (List Char)) : List Char := joined ['w', 's', 'n'] cs

section

variable (hcs : ∀ c ∈ cs, '/' ∉ c) (hlen : (wsnName cs).length ≤ npos) (hthree : 3 ≤ cs.length)
include hcs hlen hthree

lemma interestPeriod_wsnName : interestPeriod (wsnName cs) = periodOf cs := by
  obtain ⟨ds, a, b, t, rfl⟩ := three_last hthree
  rw [periodOf_append]
  rw [wsnName, joined_three] at hlen ⊢
  exact interestPeriod_parts (hcs a (by simp)) (hcs b (by simp)) (hcs t (by simp)) hlen

lemma interestScope_wsnName : interestScope (wsnName cs) = scopeOf cs := by
  match cs, hthree with
  | a :: b :: c :: rest, _ =>
    have hsplit : wsnName (a :: b :: c :: rest) =
        ['w', 's', 'n'] ++ '/' :: (a ++ '/' :: (b ++ '/' :: joined c rest)) := by
      simp [wsnName, joined]
    exact interestScope_parts (by decide) (hcs a (by simp)) (hcs b (by simp)) hlen

lemma interestType_wsnName : interestType (wsnName cs) ≠ none := by
  obtain ⟨ds, a, b, t, rfl⟩ := three_last hthree
  rw [wsnName, joined_three] at hlen ⊢
  rw [interestType, rfind_last (hcs t (by simp)) hlen, substr_next hlen]
  exact some_ne_none t

end

lemma searchDataset_ne_none {name : List Char} (hperiod : interestPeriod name ≠ none)
    (htype : interestType name ≠ none) (hscope : interestScope name ≠ none)
    (dataSet : List WsnData) : searchDataset name dataSet ≠ none := by
  obtain ⟨period, hp⟩ := ne_none_iff_exists'.mp hperiod
  obtain ⟨type, ht⟩ := ne_none_iff_exists'.mp htype
  obtain ⟨scope, hs⟩ := ne_none_iff_exists'.mp hscope
  have hdatum : ∀ d, searchDatum name d ≠ none := by
    intro d
    simp only [searchDatum, searchDatasetPosition, searchDatasetTime, searchDatasetType, inScope,
      inPeriod, isOfType, hs, hp, ht, map_some, bind_eq_bind, bind_some]
    split <;> try split
    all_goals exact some_ne_none _
  induction dataSet with
  | nil => exact some_ne_none []
  | cons d dataSet ih =>
    obtain ⟨found, hfound⟩ := ne_none_iff_exists'.mp (hdatum d)
    obtain ⟨rest, hrest⟩ := ne_none_iff_exists'.mp ih
    simp [searchDataset, hfound, hrest]

/-- The identifier and the location that are registered. A single component is taken for both, and
more than three of them for a longer location. -/
def registered : List (List Char) → Option (List Char × List Char)
  | [] => none
  | [userId] => some (userId, ',' :: userId)
  | [_, _] => none
  | userId :: x :: y :: more => some (userId, joined (x ++ ',' :: y) more)

lemma wifiUpdateIdLocation_nil (locations : List Char → Option (List Char)) :
    wifiUpdateIdLocation [] locations = none := rfl

lemma wifiUpdateIdLocation_single (h : '/' ∉ userId)
    (hlen : userId.length < 2 ^ 63) (locations : List Char → Option (List Char)) :
    wifiUpdateIdLocation ('/' :: userId) locations =
      some (update locations userId (some (',' :: userId))) := by
  have hfind : find ('/' :: userId) '/' 1 = npos := find_of_not_mem h
  have huser : substr ('/' :: userId) 1 (prev npos) = some userId := by
    rw [substr, if_neg (by simp), drop_one, tail_cons, take_of_length_le]
    have hprev : prev npos = 2 ^ 64 - 2 := by decide
    omega
  have hlocation : substr ('/' :: userId) 0 npos = some ('/' :: userId) := by
    rw [substr, if_neg (Nat.not_lt_zero _), drop_zero, take_of_length_le]
    rw [length_cons, npos]
    omega
  have hslash : find ('/' :: userId) '/' 0 = 0 := find_append_cons (a := []) (by simp) [] userId
  have hreplace : StdString.replace ('/' :: userId) 0 1 [','] = some (',' :: userId) := by
    simp [StdString.replace]
  simp only [wifiUpdateIdLocation, hfind, huser, next_npos, hlocation, hslash, hreplace,
    bind_eq_bind, bind_some]
  rfl

lemma wifiUpdateIdLocation_more {rest : List Char} (h : '/' ∉ userId)
    (hlen : ('/' :: (userId ++ '/' :: rest)).length < 2 ^ 63)
    (locations : List Char → Option (List Char)) :
    wifiUpdateIdLocation ('/' :: (userId ++ '/' :: rest)) locations =
      (replace rest (find rest '/' 0) 1 [',']).map
        fun location => update locations userId (some location) := by
  have hsize : ('/' :: userId ++ '/' :: rest).length ≤ npos := by
    rw [cons_append, npos]
    omega
  have hsize' : ('/' :: userId).length ≤ npos := by
    rw [length_append] at hsize
    omega
  have hfind : find ('/' :: (userId ++ '/' :: rest)) '/' 1 = ('/' :: userId).length :=
    find_next (p := []) h (by decide) rest
  have huser : substr ('/' :: (userId ++ '/' :: rest)) 1 (prev ('/' :: userId).length) =
      some userId := between_append (p := []) hsize' ('/' :: rest)
  have hrest : substr ('/' :: (userId ++ '/' :: rest)) (next ('/' :: userId).length) npos =
      some rest := substr_next hsize
  simp only [wifiUpdateIdLocation, hfind, huser, hrest, bind_eq_bind, bind_some]
  cases replace rest (find rest '/' 0) 1 [','] <;> rfl

lemma wifiUpdateIdLocation_joined (hcs : ∀ c ∈ cs, '/' ∉ c)
    (hlen : (joined [] cs).length < 2 ^ 63) (locations : List Char → Option (List Char)) :
    wifiUpdateIdLocation (joined [] cs) locations =
      (registered cs).map fun r => update locations r.1 (some r.2) := by
  match cs with
  | [] => exact wifiUpdateIdLocation_nil locations
  | [userId] =>
    have hsplit : joined [] [userId] = '/' :: userId := by simp [joined]
    rw [hsplit, length_cons] at hlen
    rw [hsplit]
    exact wifiUpdateIdLocation_single (hcs userId (by simp)) (by omega) locations
  | [userId, x] =>
    have hsplit : joined [] [userId, x] = '/' :: (userId ++ '/' :: x) := by simp [joined]
    rw [hsplit] at hlen ⊢
    rw [wifiUpdateIdLocation_more (hcs userId (by simp)) hlen]
    have hx : find x '/' 0 = npos := find_of_not_mem (hcs x (by simp))
    have hshort : x.length < npos := by
      simp only [length_cons, length_append] at hlen
      unfold npos
      omega
    rw [hx, StdString.replace, if_pos hshort]
    rfl
  | userId :: x :: y :: more =>
    have hsplit : joined [] (userId :: x :: y :: more) =
        '/' :: (userId ++ '/' :: (x ++ '/' :: joined y more)) := by simp [joined]
    rw [hsplit] at hlen ⊢
    rw [wifiUpdateIdLocation_more (hcs userId (by simp)) hlen]
    have hx : find (x ++ '/' :: joined y more) '/' 0 = x.length := by
      have hfind := find_append_cons (hcs x (by simp)) [] (joined y more)
      rwa [nil_append, length_nil, Nat.zero_add] at hfind
    have hdrop : (x ++ '/' :: joined y more).drop (x.length + 1) = joined y more := by
      rw [← drop_drop, drop_left, drop_one, tail_cons]
    rw [hx, StdString.replace, if_neg (by simp), List.take_left, hdrop]
    simp [registered, joined]

end Components

end NfdGateway.Nwd
