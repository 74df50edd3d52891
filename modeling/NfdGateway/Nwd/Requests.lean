import NfdGateway.Nwd.Handlers

/-! Which Interests under `/wsn` and `/wifi/register` the gateway gets through. -/
namespace NfdGateway.Nwd

open StdString Serial List Function

inductive Request
  | wsn (rest : Suffix)
  | wifiRegister (rest : Suffix)

def handle (now : ℤ) (s : State) : Request → State × Outcome
  | .wsn rest => onInterest now (joined wsn rest.components) s
  | .wifiRegister rest => wifiRegisterOnInterest (joined wifiRegister rest.components) s

def IsNumber (s : List Char) : Prop :=
  ∃ negative : Bool, ∃ sign digits, s = sign ++ digits ∧
    (sign ∈ if negative then [['-']] else [[], ['+']]) ∧ digits ≠ [] ∧
    (∀ c ∈ digits, c.isDigit = true) ∧
    IsInt (if negative then -(Nat.ofDigitChars 10 digits 0 : ℤ) else Nat.ofDigitChars 10 digits 0)

def WellFormed (cs : List (List Char)) : Prop :=
  ∃ x₁ y₁ x₂ y₂ t₁ t₂ type, cs = [x₁ ++ ',' :: y₁, x₂ ++ ',' :: y₂, t₁, t₂, type] ∧
    ∀ n ∈ [x₁, y₁, x₂, y₂, t₁, t₂], IsNumber n

lemma IsNumber.stoi {s : List Char} (h : IsNumber s) : ∃ v, stoi s = some v := by
  obtain ⟨negative, sign, digits, rfl, hsign, hne, hdigits, hint⟩ := h
  have hall := takeWhile_eq_self_iff.mpr hdigits
  have hread : stoiDigits negative digits ≠ none := by
    simp only [stoiDigits, hall]
    rw [if_pos ⟨hne, hint⟩]
    exact Option.some_ne_none _
  obtain ⟨v, hv⟩ := Option.ne_none_iff_exists'.mp hread
  refine ⟨v, ?_⟩
  cases negative with
  | true =>
    obtain rfl : sign = ['-'] := by simpa using hsign
    exact hv
  | false =>
    rcases (by simpa using hsign : sign = [] ∨ sign = ['+']) with rfl | rfl
    · obtain ⟨d, ds, rfl⟩ := exists_cons_of_ne_nil hne
      rw [nil_append, stoi_of_isDigit (hdigits d mem_cons_self)]
      exact hv
    · exact hv

lemma IsNumber.no_comma {s : List Char} (h : IsNumber s) : ',' ∉ s := by
  obtain ⟨negative, sign, digits, rfl, hsign, -, hdigits, -⟩ := h
  intro hmem
  rcases mem_append.mp hmem with hmem | hmem
  · cases negative with
    | true =>
      obtain rfl : sign = ['-'] := by simpa using hsign
      revert hmem
      decide
    | false =>
      rcases (by simpa using hsign : sign = [] ∨ sign = ['+']) with rfl | rfl
      · cases hmem
      · revert hmem
        decide
  · have hcomma := hdigits ',' hmem
    revert hcomma
    decide

lemma stoiPair_of_isNumber {x y : List Char} (hx : IsNumber x) (hy : IsNumber y)
    (hlen : (x ++ ',' :: y).length ≤ npos) : stoiPair (x ++ ',' :: y) ≠ none := by
  obtain ⟨v, hv⟩ := hx.stoi
  obtain ⟨w, hw⟩ := hy.stoi
  rw [stoiPair_append hx.no_comma hlen, hv, hw]
  exact Option.some_ne_none _

lemma WellFormed.periodOf {cs : List (List Char)} (h : WellFormed cs) : periodOf cs ≠ none := by
  obtain ⟨x₁, y₁, x₂, y₂, t₁, t₂, type, rfl, hnumbers⟩ := h
  obtain ⟨v, hv⟩ := (hnumbers t₁ (by simp)).stoi
  obtain ⟨w, hw⟩ := (hnumbers t₂ (by simp)).stoi
  simp [Nwd.periodOf, hv, hw]

lemma WellFormed.scopeOf {cs : List (List Char)} (h : WellFormed cs)
    (hlen : ∀ c ∈ cs, c.length ≤ npos) : scopeOf cs ≠ none := by
  obtain ⟨x₁, y₁, x₂, y₂, t₁, t₂, type, rfl, hnumbers⟩ := h
  have hleftup := stoiPair_of_isNumber (hnumbers x₁ (by simp)) (hnumbers y₁ (by simp))
    (hlen _ (by simp))
  have hrightdown := stoiPair_of_isNumber (hnumbers x₂ (by simp)) (hnumbers y₂ (by simp))
    (hlen _ (by simp))
  obtain ⟨leftup, hl⟩ := Option.ne_none_iff_exists'.mp hleftup
  obtain ⟨rightdown, hr⟩ := Option.ne_none_iff_exists'.mp hrightdown
  simp [Nwd.scopeOf, hl, hr]

namespace Suffix

variable (rest : Suffix)

def decoded : List (List Char) := rest.components.map replaceCommas

lemma decoded_noSlash : ∀ c ∈ rest.decoded, '/' ∉ c := by
  intro c hc hslash
  obtain ⟨d, hd, rfl⟩ := List.mem_map.mp hc
  rcases mem_replaceCommas hslash with h | h
  · cases h
  · exact rest.noSlash d hd h

lemma length_decoded_le : (joined [] rest.decoded).length < 2 ^ 63 := by
  have hle := length_replaceCommas_le (joined [] rest.components)
  rw [replaceCommas_joined] at hle
  exact hle.trans_lt rest.size

lemma length_wsnName_le : (wsnName rest.decoded).length ≤ npos := by
  have hlt := rest.length_decoded_le
  rw [wsnName, length_joined, npos]
  simp only [length_cons, length_nil]
  omega

lemma length_le_of_mem_decoded {c : List Char} (hc : c ∈ rest.decoded) : c.length ≤ npos := by
  have hle : c.length ≤ (joined [] rest.decoded).length := by
    obtain ⟨ds, es, hsplit⟩ := append_of_mem hc
    rw [hsplit, joined_append, joined_cons, length_joined, length_append, length_cons]
    omega
  have hlt := rest.length_decoded_le
  unfold npos
  omega

lemma drop_replaceCommas :
    (replaceCommas (joined Nwd.wsn rest.components)).drop 1 = wsnName rest.decoded := by
  rw [replaceCommas_joined]
  rfl

end Suffix

def Ignored (rest : Suffix) : Prop :=
  contains (joined wsn rest.components) topo = true ∨
    contains (joined wsn rest.components) location = true ∨
    contains (joined wsn rest.components) range = true

def Request.WellFormed : Request → Prop
  | .wsn rest => Nwd.WellFormed rest.decoded
  | .wifiRegister rest => ∃ userId x y, rest.components = [userId, x, y]

/-- The handler neither throws nor overruns a buffer, a malformed name is ignored or answered and
leaves no trace, and a registration is stored. -/
structure Safe (now : ℤ) (s : State) (r : Request) : Prop where
  noException : (handle now s r).2 ≠ .thrown
  noOverflow : (handle now s r).2 ≠ .overflowed
  malformed : ¬ r.WellFormed → (handle now s r).1.interestList = s.interestList ∧
    (handle now s r).1.receiveInQueue = s.receiveInQueue ∧
    (handle now s r).1.wifiLocationMap = s.wifiLocationMap ∧
    ((handle now s r).2 = .ignored ∨ ∃ name content, (handle now s r).2 = .answered name content)
  registers : ∀ rest userId x y, r = .wifiRegister rest → rest.components = [userId, x, y] →
    (handle now s r).1.wifiLocationMap =
      update s.wifiLocationMap userId (some (x ++ ',' :: y))

/-- The period as the code compares it, with the time cut to an `int`. -/
def InPeriod (now : ℤ) (period : ℤ × ℤ) : Prop :=
  period.1 ≤ (BitVec.ofInt 32 now).toInt ∧ (BitVec.ofInt 32 now).toInt ≤ period.2

instance (now : ℤ) (period : ℤ × ℤ) : Decidable (InPeriod now period) :=
  inferInstanceAs (Decidable (_ ∧ _))

/-- The Interest passes the test of the code for its period. -/
def Suffix.passes (rest : Suffix) (now : ℤ) : Bool :=
  (periodOf rest.decoded).any fun period => InPeriod now period

/-- The requests that are handled as they should. A name under `/wsn` is queued before it is looked
at, so no malformed one is among them, and the names that leave the queue must fit into the
buffer. -/
def Tolerated (now : ℤ) (s : State) : Request → Prop
  | .wsn rest => Ignored rest ∨ WellFormed rest.decoded ∧
    (rest.passes now = true → s.handleInterestBusy = false →
      ∀ name ∈ s.receiveInQueue ++ [wsnName rest.decoded], name.length < 1024)
  | .wifiRegister rest => (∃ userId x y, rest.components = [userId, x, y]) ∨
    ∃ userId location, registered rest.components = some (userId, location) ∧
      s.wifiLocationMap userId = some location

section Wsn

variable {now : ℤ} {s : State} {rest : Suffix}

lemma ignored_iff : Ignored rest ↔ (contains (joined wsn rest.components) topo ||
    contains (joined wsn rest.components) location ||
    contains (joined wsn rest.components) range) = true := by
  simp only [Ignored, Bool.or_eq_true, or_assoc]

lemma handle_ignored (h : Ignored rest) : handle now s (.wsn rest) = (s, .ignored) := by
  rw [handle, onInterest, if_pos (ignored_iff.mp h)]

lemma WellFormed.three_le {cs : List (List Char)} (h : WellFormed cs) : 3 ≤ cs.length := by
  obtain ⟨x₁, y₁, x₂, y₂, t₁, t₂, type, rfl, -⟩ := h
  simp

lemma interestPeriod_decoded (hwf : WellFormed rest.decoded) :
    interestPeriod (wsnName rest.decoded) = periodOf rest.decoded :=
  interestPeriod_wsnName rest.decoded_noSlash rest.length_wsnName_le hwf.three_le

lemma timeBelongInterest_decoded (hwf : WellFormed rest.decoded) (now : ℤ) :
    timeBelongInterest (wsnName rest.decoded) (BitVec.ofInt 32 now).toInt =
      some (rest.passes now) := by
  obtain ⟨period, hperiod⟩ := Option.ne_none_iff_exists'.mp hwf.periodOf
  rw [timeBelongInterest, inPeriod, Suffix.passes, interestPeriod_decoded hwf, hperiod]
  rfl

/-- The name joins the queue, which is left empty if all of it is passed on. -/
lemma handle_queue (now : ℤ) (s : State) (h : ¬ Ignored rest) :
    (handle now s (.wsn rest)).1.handleInterestBusy = s.handleInterestBusy ∧
      (handle now s (.wsn rest)).1.receiveInQueue = match (handle now s (.wsn rest)).2 with
        | .handled _ => []
        | _ => s.receiveInQueue ++ [wsnName rest.decoded] := by
  rw [handle, onInterest, if_neg (mt ignored_iff.mpr h)]
  simp only [rest.drop_replaceCommas]
  split
  · exact ⟨rfl, rfl⟩
  · split
    · exact ⟨rfl, rfl⟩
    · split <;> exact ⟨rfl, rfl⟩
  · split <;> exact ⟨rfl, rfl⟩

lemma handle_passes (h : ¬ Ignored rest) (hwf : WellFormed rest.decoded)
    (hin : rest.passes now = true) :
    (handle now s (.wsn rest)).2 =
      if s.handleInterestBusy then .queued
      else if ∀ name ∈ s.receiveInQueue ++ [wsnName rest.decoded], name.length < 1024 then
        .handled (s.receiveInQueue ++ [wsnName rest.decoded])
      else .overflowed := by
  rw [handle, onInterest, if_neg (mt ignored_iff.mpr h)]
  simp only [rest.drop_replaceCommas, timeBelongInterest_decoded hwf, hin, all_eq_true,
    decide_eq_true_eq]
  split
  · rfl
  · split <;> rfl

/-- A well-formed Interest outside of its period is answered from the data set. -/
lemma handle_answered (h : ¬ Ignored rest) (hwf : WellFormed rest.decoded)
    (hout : rest.passes now = false) :
    ∃ content, searchDataset (wsnName rest.decoded) s.dataSet = some content ∧
      (handle now s (.wsn rest)).2 = .answered (wsnName rest.decoded) content := by
  have hslash := rest.decoded_noSlash
  have hlen := rest.length_wsnName_le
  have hscope : interestScope (wsnName rest.decoded) ≠ none := by
    rw [interestScope_wsnName hslash hlen hwf.three_le]
    exact hwf.scopeOf fun c hc => rest.length_le_of_mem_decoded hc
  have hperiod : interestPeriod (wsnName rest.decoded) ≠ none := by
    rw [interestPeriod_decoded hwf]
    exact hwf.periodOf
  obtain ⟨content, hcontent⟩ := Option.ne_none_iff_exists'.mp (searchDataset_ne_none hperiod
    (interestType_wsnName hslash hlen hwf.three_le) hscope s.dataSet)
  refine ⟨content, hcontent, ?_⟩
  rw [handle, onInterest, if_neg (mt ignored_iff.mpr h)]
  simp only [rest.drop_replaceCommas, timeBelongInterest_decoded hwf, hout, hcontent]

end Wsn

lemma safe_wsn_iff (now : ℤ) (s : State) (rest : Suffix) :
    Safe now s (.wsn rest) ↔ Tolerated now s (.wsn rest) := by
  by_cases hignored : Ignored rest
  · refine iff_of_true ?_ (.inl hignored)
    have hsame : handle now s (.wsn rest) = (s, .ignored) := handle_ignored hignored
    exact ⟨by simp [hsame], by simp [hsame], fun _ => by simp [hsame], fun _ _ _ _ h => by cases h⟩
  constructor
  · intro h
    have hwf : WellFormed rest.decoded := by
      -- the name is still in the queue, unless it has been passed on
      by_contra hmalformed
      obtain ⟨-, hqueue, -, hanswered⟩ := h.malformed hmalformed
      have hkept := (handle_queue now s hignored).2
      rw [hqueue] at hkept
      rcases hanswered with houtcome | ⟨name, content, houtcome⟩ <;> simp [houtcome] at hkept
    refine .inr ⟨hwf, fun hin hidle => ?_⟩
    have houtcome := handle_passes (s := s) hignored hwf hin
    by_contra hlong
    rw [hidle, if_neg Bool.false_ne_true, if_neg hlong] at houtcome
    exact h.noOverflow houtcome
  intro h
  obtain ⟨hwf, hshort⟩ := h.resolve_left hignored
  have houtcome : (handle now s (.wsn rest)).2 ≠ .thrown ∧
      (handle now s (.wsn rest)).2 ≠ .overflowed := by
    cases hin : rest.passes now with
    | true =>
      rw [handle_passes hignored hwf hin]
      split
      · simp
      rename_i hidle
      rw [if_pos (hshort hin (Bool.eq_false_of_not_eq_true hidle))]
      simp
    | false =>
      obtain ⟨content, -, hanswered⟩ := handle_answered (s := s) hignored hwf hin
      simp [hanswered]
  exact ⟨houtcome.1, houtcome.2, fun hmalformed => absurd hwf hmalformed,
    fun _ _ _ _ h => by cases h⟩

lemma handle_wifiRegister (now : ℤ) (s : State) (rest : Suffix) :
    handle now s (.wifiRegister rest) = match registered rest.components with
      | none => (s, .thrown)
      | some (userId, location) =>
        ({ s with wifiLocationMap := update s.wifiLocationMap userId (some location) },
          .answered (joined wifiRegister rest.components) success) := by
  have hdrop : (joined wifiRegister rest.components).drop 14 = joined [] rest.components := rfl
  rw [handle, wifiRegisterOnInterest, hdrop, wifiUpdateIdLocation_joined rest.noSlash rest.size]
  cases registered rest.components <;> rfl

example :
    let rest : Suffix := ⟨[['u'], ['1'], ['2']], by decide, by decide⟩
    (handle 0 {} (.wifiRegister rest)).1.wifiLocationMap ['u'] = some ['1', ',', '2'] := by
  decide

lemma safe_wifiRegister_iff (now : ℤ) (s : State) (rest : Suffix) :
    Safe now s (.wifiRegister rest) ↔ Tolerated now s (.wifiRegister rest) := by
  have hhandle := handle_wifiRegister now s rest
  cases hregistered : registered rest.components with
  | none =>
    rw [hregistered] at hhandle
    have hthrown : (handle now s (.wifiRegister rest)).2 = .thrown := by rw [hhandle]
    refine ⟨fun h => absurd hthrown h.noException, ?_⟩
    rintro (⟨userId, x, y, h⟩ | ⟨userId, location, h, -⟩)
    · rw [h] at hregistered
      cases hregistered
    · rw [hregistered] at h
      cases h
  | some r =>
    obtain ⟨userId, location⟩ := r
    rw [hregistered] at hhandle
    constructor
    · intro h
      by_cases hwf : ∃ userId x y, rest.components = [userId, x, y]
      · exact .inl hwf
      have hlocations := (h.malformed hwf).2.2.1
      rw [hhandle] at hlocations
      exact .inr ⟨userId, location, hregistered, (update_eq_self_iff.mp hlocations).symm⟩
    intro h
    refine ⟨by simp [hhandle], by simp [hhandle], fun hmalformed => ?_, ?_⟩
    · obtain ⟨userId', location', h', hstored⟩ := h.resolve_left hmalformed
      obtain ⟨rfl, rfl⟩ : userId = userId' ∧ location = location' := by
        simpa [hregistered] using h'
      rw [hhandle]
      exact ⟨rfl, rfl, update_eq_self_iff.mpr hstored.symm, .inr ⟨_, _, rfl⟩⟩
    intro rest' userId' x y heq hcomponents
    cases heq
    have hthree : registered rest.components = some (userId', x ++ ',' :: y) := by
      rw [hcomponents]
      simp [registered]
    obtain ⟨rfl, rfl⟩ : userId = userId' ∧ location = x ++ ',' :: y := by
      simpa [hregistered] using hthree
    rw [hhandle]

/-- An Interest is safe exactly if it is tolerated, at every time and in every state. -/
theorem safe_iff_tolerated (now : ℤ) (s : State) (r : Request) :
    Safe now s r ↔ Tolerated now s r := by
  cases r with
  | wsn rest => exact safe_wsn_iff now s rest
  | wifiRegister rest => exact safe_wifiRegister_iff now s rest

/-- A name that ends with its prefix throws under both prefixes, and a registration of `/a` alone
sets a location. -/
theorem short_names_throw : (handle 0 {} (.wsn ⟨[], by simp, by decide⟩)).2 = .thrown ∧
      (handle 0 {} (.wifiRegister ⟨[], by simp, by decide⟩)).2 = .thrown ∧
      (handle 0 {} (.wifiRegister ⟨[['a']], by decide, by decide⟩)).1.wifiLocationMap ['a'] =
        some [',', 'a'] := by
  exact ⟨by decide, by decide, by decide⟩

end NfdGateway.Nwd
