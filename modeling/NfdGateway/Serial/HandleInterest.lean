import NfdGateway.Serial.Dataset

/-! What `handle_interest` makes of an Interest under `wsn`: the arguments it cuts out of the name,
and the time window it asks the sensors for. -/
namespace NfdGateway.Serial

open StdString List Option

structure ArgScan where
  reads : ℕ
  writes : List (ℕ × ℕ × Char)

def startsArg (c : Char) : Bool := c ≠ ',' && c ≠ '/' && c ≠ '('

def endsArg (c : Char) : Bool := c = ',' || c = '/' || c = ')' || c = '\x00'

/-- The loops from the first of the given bytes on, the inner one with its `j`. Where it stops, the
outer loop goes on with the byte after. `none` is a read past the buffer. -/
def scanArgs (count : ℕ) : Option ℕ → List Char → Option ArgScan
  | _, [] => none
  | none, c :: rest =>
    if c = '\x00' then some ⟨1, []⟩
    else if startsArg c then
      if endsArg c then (scanArgs (count + 1) none rest).map fun r => ⟨r.reads + 1, r.writes⟩
      else (scanArgs count (some 1) rest).map fun r =>
        ⟨r.reads + 1, (count, 0, c) :: r.writes⟩
    else (scanArgs count none rest).map fun r => ⟨r.reads + 1, r.writes⟩
  | some j, c :: rest =>
    if endsArg c then (scanArgs (count + 1) none rest).map fun r => ⟨r.reads + 1, r.writes⟩
    else (scanArgs count (some (j + 1)) rest).map fun r =>
      ⟨r.reads + 1, (count, j, c) :: r.writes⟩

def interestArgs (buffer : List Char) : Option ArgScan :=
  if ['w', 's', 'n'].isPrefixOf buffer then scanArgs 0 none (buffer.dropWhile (· ≠ '/'))
  else none

def argAt (writes : List (ℕ × ℕ × Char)) (count j : ℕ) : Char :=
  ((writes.filter fun w => w.1 = count ∧ w.2.1 = j).getLast?.map (·.2.2)).getD '\x00'

structure Fields where
  fields : List (List Char)
  seven : fields.length = 7
  nonempty : ∀ f ∈ fields, f ≠ []
  fits : ∀ f ∈ fields, f.length ≤ 19
  plain : ∀ f ∈ fields, ∀ c ∈ f, startsArg c = true ∧ endsArg c = false

def separators : List Char := [',', '/', ',', '/', '/', '/', '\x00']

namespace Fields

def text (a : Fields) : List Char :=
  '/' :: (a.fields.zip separators).flatMap fun p => p.1 ++ [p.2]

def buffer (a : Fields) (rest : List Char) : List Char := ['w', 's', 'n'] ++ (a.text ++ rest)

/-- The arguments are the fields, nothing is read after the byte that ends the string, and nothing
is written outside of `arg[7][20]`. -/
def Extracted (a : Fields) (rest : List Char) : Prop :=
  ∃ r, interestArgs (a.buffer rest) = some r ∧
    (∀ k (hk : k < a.fields.length), ∀ j < 20, argAt r.writes k j = a.fields[k].getD j '\x00') ∧
    r.reads ≤ a.text.length ∧ ∀ w ∈ r.writes, w.1 < 7 ∧ w.2.1 < 20

end Fields

lemma scanArgs_inside (count j : ℕ) (rest : List Char) {f : List Char} {c : Char}
    (hf : ∀ x ∈ f, endsArg x = false) (hc : endsArg c = true) :
    ∃ writes, scanArgs count (some j) (f ++ c :: rest) =
      (scanArgs (count + 1) none rest).map fun r =>
        ⟨r.reads + f.length + 1, writes ++ r.writes⟩ := by
  induction f generalizing j with
  | nil => exact ⟨[], by simp [scanArgs, hc]⟩
  | cons x f ih =>
    obtain ⟨writes, ih⟩ := ih (j := j + 1) fun y hy => hf y (.tail _ hy)
    refine ⟨(count, j, x) :: writes, ?_⟩
    rw [cons_append, scanArgs, hf x (.head _), if_neg Bool.false_ne_true, ih, Option.map_map]
    congr 1

lemma scanArgs_field (count : ℕ) (rest : List Char) {f : List Char} {c : Char} (hne : f ≠ [])
    (hf : ∀ x ∈ f, startsArg x = true ∧ endsArg x = false) (hc : endsArg c = true) :
    ∃ writes, scanArgs count none (f ++ c :: rest) =
      (scanArgs (count + 1) none rest).map fun r =>
        ⟨r.reads + f.length + 1, writes ++ r.writes⟩ := by
  obtain ⟨x, f, rfl⟩ := exists_cons_of_ne_nil hne
  obtain ⟨hstart, hend⟩ := hf x (.head _)
  have hnul : x ≠ '\x00' := by
    rintro rfl
    cases hend
  obtain ⟨writes, h⟩ := scanArgs_inside count 1 rest (fun y hy => (hf y (.tail _ hy)).2) hc
  refine ⟨(count, 0, x) :: writes, ?_⟩
  rw [cons_append, scanArgs, if_neg hnul, if_pos hstart, hend, if_neg Bool.false_ne_true, h,
    Option.map_map]
  congr 1

lemma scanArgs_fields (count : ℕ) (rest : List Char) {l : List (List Char × Char)}
    (hl : ∀ p ∈ l, p.1 ≠ [] ∧ (∀ x ∈ p.1, startsArg x = true ∧ endsArg x = false) ∧
      endsArg p.2 = true) :
    ∃ writes, scanArgs count none (l.flatMap (fun p => p.1 ++ [p.2]) ++ rest) =
      (scanArgs (count + l.length) none rest).map fun r =>
        ⟨r.reads + (l.flatMap fun p => p.1 ++ [p.2]).length, writes ++ r.writes⟩ := by
  induction l generalizing count with
  | nil => exact ⟨[], by simp⟩
  | cons p l ih =>
    obtain ⟨hne, hf, hc⟩ := hl p (.head _)
    obtain ⟨writes, hfield⟩ :=
      scanArgs_field count (l.flatMap (fun p => p.1 ++ [p.2]) ++ rest) hne hf hc
    obtain ⟨writes', hrest⟩ := ih (count + 1) fun q hq => hl q (.tail _ hq)
    refine ⟨writes ++ writes', ?_⟩
    have hassoc : (p :: l).flatMap (fun p => p.1 ++ [p.2]) ++ rest =
        p.1 ++ p.2 :: (l.flatMap (fun p => p.1 ++ [p.2]) ++ rest) := by simp
    rw [hassoc, hfield, hrest, Option.map_map, length_cons, Nat.add_right_comm count]
    congr 1
    funext r
    simp
    omega

lemma reads_pos {count : ℕ} {inside : Option ℕ} {l : List Char} {r : ArgScan}
    (h : scanArgs count inside l = some r) : 0 < r.reads := by
  have hmap : ∀ {o : Option ArgScan} {f : ArgScan → List (ℕ × ℕ × Char)},
      o.map (fun r => (⟨r.reads + 1, f r⟩ : ArgScan)) = some r → 0 < r.reads := by
    intro o f h
    obtain ⟨r', -, rfl⟩ := map_eq_some_iff.mp h
    exact Nat.succ_pos _
  cases l with
  | nil => simp [scanArgs] at h
  | cons c l =>
    cases inside with
    | none =>
      rw [scanArgs] at h
      split at h
      · cases h
        exact Nat.one_pos
      split at h
      · split at h <;> exact hmap h
      · exact hmap h
    | some j =>
      rw [scanArgs] at h
      split at h <;> exact hmap h

/-- The loops step over the byte that ends the string, and read what is after it. -/
theorem arguments_not_extracted (a : Fields) (rest : List Char) : ¬ a.Extracted rest := by
  rintro ⟨r, hr, -, hreads, -⟩
  have hends : ∀ c ∈ separators, endsArg c = true := by simp [separators, endsArg]
  obtain ⟨writes, hscan⟩ := scanArgs_fields 0 rest fun p hp =>
      have hmem := of_mem_zip hp
      ⟨a.nonempty _ hmem.1, a.plain _ hmem.1, hends _ hmem.2⟩
  have hbuffer : interestArgs (a.buffer rest) =
      (scanArgs 0 none ((a.fields.zip separators).flatMap (fun p => p.1 ++ [p.2]) ++ rest)).map
        fun r => ⟨r.reads + 1, r.writes⟩ := rfl
  rw [hbuffer, hscan, Option.map_map] at hr
  obtain ⟨r', hr', rfl⟩ := map_eq_some_iff.mp hr
  have hpos := reads_pos hr'
  have hlength : a.text.length = _ := length_cons
  simp only [Function.comp] at hreads
  omega

def sampleFields : Fields where
  fields := [['1'], ['9'], ['9'], ['1'], ['0'], ['5'], ['t', 'e', 'm', 'p']]
  seven := by decide
  nonempty := by decide
  fits := by decide
  plain := by simp [startsArg, endsArg]

/-- An `x` after the string is written behind the last argument. -/
theorem argument_written_outside :
    (interestArgs (sampleFields.buffer ['x', '\x00', '\x00'])).map (·.writes.getLast?) =
      some (some (7, 0, 'x')) ∧ ¬ sampleFields.Extracted ['x', '\x00', '\x00'] := by
  refine ⟨by decide, ?_⟩
  rintro ⟨r, hr, -, -, hwrites⟩
  cases hr
  exact absurd (hwrites (7, 0, 'x') (by decide)) (by decide)

def timePeriod (starttime endtime globeTimestamp : ℤ) : Option (UInt16 × UInt16) :=
  if globeTimestamp ≤ starttime ∧ globeTimestamp ≤ endtime then
    let start := starttime - (BitVec.ofInt 32 globeTimestamp).toInt
    let stop := endtime - (BitVec.ofInt 32 globeTimestamp).toInt
    if IsInt start ∧ IsInt stop then some (UInt16.ofInt start, UInt16.ofInt stop) else none
  else some (0, 0)

def Within (lo hi time : ℤ) : Prop := lo ≤ time ∧ time ≤ hi

instance (lo hi time : ℤ) : Decidable (Within lo hi time) := inferInstanceAs (Decidable (_ ∧ _))

/-- The sensors are asked for the readings that the gateway takes when they come back; `g` is the
time that `std::time` gave, in seconds. -/
def WindowExact (interest : List Char) (g starttime endtime : ℤ) : Prop :=
  ∃ period, timePeriod starttime endtime g = some period ∧
    ∀ m : Msg, (Within period.1.toNat period.2.toNat m.startTime.toNat ↔
        Within starttime endtime (m.startTime.toNat + g)) ∧
      (dataTime m g).bind (timeBelongInterest interest) =
        some (decide (Within starttime endtime (m.startTime.toNat + g)))

/-- No reading is too late for an `int`. The window starts at `g` or later and ends in the range of
the sensors' clock, or it holds no later reading than `g`, or it wraps around and is still right. -/
def Encodable (g starttime endtime : ℤ) : Prop :=
  g + 65535 < 2 ^ 31 ∧ endtime - g < 2 ^ 31 ∧
    (starttime < g ∧ endtime = g ∨ g ≤ starttime ∧
      (endtime - g < 65536 ∨
        starttime - g < 65536 ∧ (endtime - g) % 65536 = 65535 ∨
        65536 ≤ starttime - g ∧ (endtime - g) % 65536 < (starttime - g) % 65536))

section Window

variable {interest : List Char} {g starttime endtime : ℤ}

lemma toNat_ofInt (v : ℤ) : ((UInt16.ofInt v).toNat : ℤ) = v % 65536 := by
  rw [UInt16.ofInt, UInt16.toNat_ofNat']
  omega

lemma toInt_ofInt_of_isInt {v : ℤ} (h : IsInt v) : (BitVec.ofInt 32 v).toInt = v := by
  unfold IsInt at h
  rw [BitVec.toInt_ofInt, Int.bmod_eq_of_le (by omega) (by omega)]

lemma within_mod_iff {a b : ℤ} (ha : 0 ≤ a) (hab : a ≤ b) :
    (∀ s : UInt16, Within (a % 65536) (b % 65536) s.toNat ↔ Within a b s.toNat) ↔
      b < 65536 ∨ a < 65536 ∧ b % 65536 = 65535 ∨ 65536 ≤ a ∧ b % 65536 < a % 65536 := by
  unfold Within
  constructor
  · intro h
    have hlast := h 65535
    have hstart := h (UInt16.ofInt a)
    rw [toNat_ofInt] at hstart
    simp only [show ((65535 : UInt16).toNat : ℤ) = 65535 from rfl] at hlast
    omega
  · intro h s
    have hs := s.toNat_lt
    omega

lemma accepted_iff (hperiod : interestPeriod interest = some (starttime, endtime)) (hg : IsInt g) :
    (∀ m : Msg, (dataTime m g).bind (timeBelongInterest interest) =
      some (decide (Within starttime endtime (m.startTime.toNat + g)))) ↔
        g + 65535 < 2 ^ 31 := by
  have hdata : ∀ m : Msg, dataTime m g =
      if IsInt (m.startTime.toNat + g) then some ((m.startTime.toNat : ℤ) + g) else none := by
    intro m
    rw [dataTime, toInt_ofInt_of_isInt hg]
  constructor
  · intro h
    have hlast := h ⟨0, ⟨⟨0, 0⟩, ⟨0, 0⟩⟩, 65535, 0, 0, 0⟩
    rw [hdata] at hlast
    split at hlast
    next hint =>
      have hlt := hint.2
      simp only [show ((65535 : UInt16).toNat : ℤ) = 65535 from rfl] at hlt
      omega
    · cases hlast
  · intro h m
    have hm := m.startTime.toNat_lt
    have hlow := hg.1
    rw [hdata, if_pos ⟨by omega, by omega⟩, bind_some, timeBelongInterest, inPeriod, hperiod]
    rfl

/-- The window for the sensors holds the readings that are taken when they come back exactly if it
can be encoded. -/
theorem window_exact_iff (hclock : -2 ^ 31 ≤ g) (hstart : IsInt starttime) (hend : IsInt endtime)
    (hle : starttime ≤ endtime) (hperiod : interestPeriod interest = some (starttime, endtime)) :
    WindowExact interest g starttime endtime ↔ Encodable g starttime endtime := by
  have hbound : starttime < 2 ^ 31 ∧ endtime < 2 ^ 31 := ⟨hstart.2, hend.2⟩
  -- the two parts of the statement, for the window that is encoded
  have hparts : ∀ period, timePeriod starttime endtime g = some period → IsInt g →
      (WindowExact interest g starttime endtime ↔
        (∀ s : UInt16, Within period.1.toNat period.2.toNat s.toNat ↔
          Within starttime endtime (s.toNat + g)) ∧ g + 65535 < 2 ^ 31) := by
    intro period hp hg
    rw [← accepted_iff hperiod hg]
    constructor
    · rintro ⟨period', hp', h⟩
      cases hp.symm.trans hp'
      exact ⟨fun s => (h ⟨0, ⟨⟨0, 0⟩, ⟨0, 0⟩⟩, s, 0, 0, 0⟩).1, fun m => (h m).2⟩
    · exact fun ⟨hs, hm⟩ => ⟨period, hp, fun m => ⟨hs m.startTime, hm m⟩⟩
  by_cases hearly : g ≤ starttime
  · have hg : IsInt g := ⟨hclock, by omega⟩
    by_cases hfar : 2 ^ 31 ≤ endtime - g
    · -- the difference overflows an `int`
      have hlost : ¬ Encodable g starttime endtime := fun h => absurd h.2.1 (not_lt.mpr hfar)
      refine iff_of_false ?_ hlost
      rintro ⟨period, hp, -⟩
      rw [timePeriod, if_pos ⟨hearly, hearly.trans hle⟩] at hp
      simp only [toInt_ofInt_of_isInt hg] at hp
      rw [if_neg fun h => absurd h.2.2 (not_lt.mpr hfar)] at hp
      cases hp
    have hwindow : timePeriod starttime endtime g =
        some (UInt16.ofInt (starttime - g), UInt16.ofInt (endtime - g)) := by
      rw [timePeriod, if_pos ⟨hearly, by omega⟩]
      simp only [toInt_ofInt_of_isInt hg]
      rw [if_pos]
      unfold IsInt
      omega
    have hshift : ∀ s : UInt16, Within starttime endtime (s.toNat + g) ↔
        Within (starttime - g) (endtime - g) s.toNat := by
      intro s
      unfold Within
      omega
    rw [hparts _ hwindow hg]
    simp only [toNat_ofInt, hshift]
    rw [within_mod_iff (by omega) (by omega), Encodable, and_comm]
    omega
  have hwindow : timePeriod starttime endtime g = some (0, 0) := by
    rw [timePeriod, if_neg fun h => hearly h.1]
  have hnow : (∀ s : UInt16, Within (0 : UInt16).toNat (0 : UInt16).toNat s.toNat ↔
      Within starttime endtime (s.toNat + g)) ↔ endtime = g := by
    unfold Within
    simp only [UInt16.toNat_zero]
    constructor
    · intro h
      have hzero := h 0
      have hone := h 1
      simp only [UInt16.toNat_zero, UInt16.toNat_one] at hzero hone
      omega
    · intro h s
      omega
  by_cases hg : IsInt g
  · rw [hparts _ hwindow hg, hnow, Encodable]
    omega
  have hnever : endtime ≠ g := by
    rintro rfl
    exact hg hend
  have hlost : ¬ Encodable g starttime endtime := by
    unfold Encodable
    omega
  refine iff_of_false ?_ hlost
  rintro ⟨period, hp, h⟩
  cases hwindow.symm.trans hp
  exact hnever (hnow.mp fun s => (h ⟨0, ⟨⟨0, 0⟩, ⟨0, 0⟩⟩, s, 0, 0, 0⟩).1)

def sampleInterest (starttime endtime : List Char) : List Char :=
  ['w', 's', 'n', '/', '1', ',', '9', '/', '9', ',', '1', '/'] ++
    (starttime ++ '/' :: (endtime ++ ['/', 't', 'e', 'm', 'p']))

/-- The readings from 50 to 200 are asked for at 100: the sensors are asked for those of 100
only. -/
theorem window_lost :
    interestPeriod (sampleInterest ['5', '0'] ['2', '0', '0']) = some (50, 200) ∧
      timePeriod 50 200 100 = some (0, 0) ∧
      ¬ WindowExact (sampleInterest ['5', '0'] ['2', '0', '0']) 100 50 200 := by
  refine ⟨by decide, by decide, ?_⟩
  rintro ⟨period, hp, h⟩
  cases hp
  exact absurd (h ⟨0, ⟨⟨0, 0⟩, ⟨0, 0⟩⟩, 10, 0, 0, 0⟩).1 (by decide)

theorem window_exact_iff_later :
    WindowExact (sampleInterest ['1', '0', '5'] ['2', '0', '0']) 100 105 200 :=
  (window_exact_iff (by decide) (by decide) (by decide) (by decide) (by decide)).mpr
    (by unfold Encodable; decide)

end Window

end NfdGateway.Serial
