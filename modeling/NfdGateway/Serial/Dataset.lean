import NfdGateway.Lib.StdString
import NfdGateway.Serial.ReadData

/-! Sensor data as text: what the reader of the serial port stores for the pending Interests, and
how the gateway reads it back to answer them. `none` is an exception or undefined behaviour. -/
namespace NfdGateway.Serial

open StdString List Option

def stoiPair (s : List Char) : Option (ℤ × ℤ) := do
  let x ← stoi (← substr s 0 (find s ',' 0))
  let y ← stoi (← substr s (next (find s ',' 0)) npos)
  return (x, y)

def interestScope (interest : List Char) : Option ((ℤ × ℤ) × (ℤ × ℤ)) := do
  let beginIdx := find interest '/' 0
  let middleIdx := find interest '/' (next beginIdx)
  let endIdx := find interest '/' (next middleIdx)
  let leftup ← between interest beginIdx middleIdx
  let rightdown ← between interest middleIdx endIdx
  return (← stoiPair leftup, ← stoiPair rightdown)

def interestPeriod (interest : List Char) : Option (ℤ × ℤ) := do
  let endPos := rfind interest '/' npos
  let middlePos := rfind interest '/' (prev endPos)
  let startPos := rfind interest '/' (prev middlePos)
  let endtime ← stoi (← between interest middlePos endPos)
  let starttime ← stoi (← between interest startPos middlePos)
  return (starttime, endtime)

def interestType (interest : List Char) : Option (List Char) :=
  substr interest (next (rfind interest '/' npos)) npos

def inScope (interest : List Char) (x y : ℤ) : Option Bool :=
  (interestScope interest).map fun r =>
    decide (r.1.1 ≤ x ∧ x ≤ r.2.1 ∧ r.2.2 ≤ y ∧ y ≤ r.1.2)

def inPeriod (interest : List Char) (time : ℤ) : Option Bool :=
  (interestPeriod interest).map fun r => decide (r.1 ≤ time ∧ time ≤ r.2)

def isOfType (interest type : List Char) : Option Bool :=
  (interestType interest).map fun r => decide (r = type)

def positionBelongInterest (interest : List Char) (pointX pointY : ℤ) : Option Bool :=
  inScope interest pointX pointY

def timeBelongInterest (interest : List Char) (datatime : ℤ) : Option Bool :=
  inPeriod interest datatime

def datatypeEqualInterest (interest datatype : List Char) : Option Bool :=
  isOfType interest datatype

inductive DataType
  | light
  | temp
  | humidity
deriving DecidableEq

namespace DataType

def code : DataType → UInt16
  | .light => 0
  | .temp => 1
  | .humidity => 2

def text : DataType → List Char
  | .light => ['l', 'i', 'g', 'h', 't']
  | .temp => ['t', 'e', 'm', 'p']
  | .humidity => ['h', 'u', 'm', 'i', 'd', 'i', 't', 'y']

end DataType

def key (dataType : UInt16) : List Char :=
  if dataType = DataType.light.code then DataType.light.text
  else if dataType = DataType.temp.code then DataType.temp.text
  else if dataType = DataType.humidity.code then DataType.humidity.text
  else []

def short (v : UInt16) : ℤ := v.toBitVec.toInt

def dataTime (m : Msg) (globeTimestamp : ℤ) : Option ℤ :=
  let time := m.startTime.toNat + (BitVec.ofInt 32 globeTimestamp).toInt
  if IsInt time then some time else none

def dataRet (m : Msg) (time : ℤ) : List Char :=
  let nameBuf := '/' :: printInt (short m.ability.leftUp.x) ++
    ',' :: printInt (short m.ability.leftUp.y) ++ '/' :: printInt time ++ '/' :: key m.dataType
  let contentBuf := '/' :: printInt (short m.data)
  nameBuf ++ contentBuf

def accepts (interest : List Char) (m : Msg) (time : ℤ) : Option Bool := do
  if ← positionBelongInterest interest m.ability.leftUp.x.toNat m.ability.leftUp.y.toNat then
    if ← timeBelongInterest interest time then
      datatypeEqualInterest interest (key m.dataType)
    else return false
  else return false

def storeFor (m : Msg) (time : ℤ) (itr : List Char × List (List Char)) :
    Option (List Char × List (List Char)) :=
  (accepts itr.1 m time).map fun accepted =>
    if accepted then (itr.1, itr.2.insert (dataRet m time)) else itr

def storeData (m : Msg) (globeTimestamp : ℤ) (inList : List (List Char × List (List Char))) :
    Option (List (List Char × List (List Char))) :=
  (dataTime m globeTimestamp).bind fun time => inList.mapM (storeFor m time)

structure WsnData where
  data : List Char
  positionX : ℤ
  positionY : ℤ
  wsnTime : ℤ
  type : List Char
  localTime : ℤ
deriving DecidableEq

def wsnData (data : List Char) (localTime : ℤ) : Option WsnData := do
  let scopeBeg := find data '/' 0
  let scopeMid := find data '/' (next scopeBeg)
  let scopeEnd := find data '/' (next scopeMid)
  let position ← stoiPair (← between data scopeBeg scopeMid)
  let wsnTime ← stoi (← between data scopeMid scopeEnd)
  let type ← between data scopeEnd (rfind data '/' npos)
  return ⟨data, position.1, position.2, wsnTime, type, localTime⟩

def searchDatasetPosition (interest : List Char) (dataval : WsnData) : Option Bool :=
  inScope interest dataval.positionX dataval.positionY

def searchDatasetTime (interest : List Char) (dataval : WsnData) : Option Bool :=
  inPeriod interest dataval.wsnTime

def searchDatasetType (interest : List Char) (dataval : WsnData) : Option Bool :=
  isOfType interest dataval.type

lemma stoiPair_append {a b : List Char} (ha : ',' ∉ a) (hlen : (a ++ ',' :: b).length ≤ npos) :
    stoiPair (a ++ ',' :: b) =
      (stoi a).bind fun x => (stoi b).bind fun y => some (x, y) := by
  have hfind : find (a ++ ',' :: b) ',' 0 = a.length := by simpa using find_append_cons ha [] b
  simp only [stoiPair, hfind, substr_zero_length, substr_next hlen, bind_eq_bind, bind_some]
  rfl

lemma wsnData_parts {position time type content : List Char} {x y t : ℤ}
    (hposition : '/' ∉ position) (htime : '/' ∉ time) (hcontent : '/' ∉ content)
    (hxy : stoiPair position = some (x, y)) (ht : stoi time = some t)
    (hlen : ('/' :: (position ++ '/' :: (time ++ '/' :: (type ++ '/' :: content)))).length ≤ npos)
    (localTime : ℤ) :
    wsnData ('/' :: (position ++ '/' :: (time ++ '/' :: (type ++ '/' :: content)))) localTime =
      some ⟨'/' :: (position ++ '/' :: (time ++ '/' :: (type ++ '/' :: content))), x, y, t, type,
        localTime⟩ := by
  set data := '/' :: (position ++ '/' :: (time ++ '/' :: (type ++ '/' :: content))) with hdata
  set first := '/' :: position with hfirst
  set second := first ++ '/' :: time with hsecond
  set third := second ++ '/' :: type with hthird
  have hsplit₁ : data = first ++ '/' :: (time ++ '/' :: (type ++ '/' :: content)) := rfl
  have hsplit₂ : data = second ++ '/' :: (type ++ '/' :: content) := by
    simp [hdata, hsecond, hfirst]
  have hsplit₃ : data = third ++ '/' :: content := by simp [hsplit₂, hthird]
  have hthird_le : third.length < npos := by
    rw [hsplit₃, length_append, length_cons] at hlen
    omega
  have hsecond_le : second.length < npos := by
    rw [hthird, length_append] at hthird_le
    omega
  have hfirst_le : first.length < npos := by
    rw [hsecond, length_append] at hsecond_le
    omega
  have hbeg : find data '/' 0 = ([] : List Char).length := by
    exact find_append_cons (a := []) (by simp) [] _
  have hmid : find data '/' (next ([] : List Char).length) = first.length :=
    find_next hposition (by decide) _
  have hend : find data '/' (next first.length) = second.length := by
    rw [hsplit₁]
    exact find_next htime hfirst_le _
  have hlast : rfind data '/' npos = third.length := by
    rw [hsplit₃] at hlen ⊢
    exact rfind_last hcontent hlen
  have hbetween₁ : between data ([] : List Char).length first.length = some position :=
    between_append (p := []) hfirst_le.le _
  have hbetween₂ : between data first.length second.length = some time := by
    rw [hsplit₁]
    exact between_append hsecond_le.le _
  have hbetween₃ : between data second.length third.length = some type := by
    rw [hsplit₂]
    exact between_append hthird_le.le _
  simp only [wsnData, hbeg, hmid, hend, hlast, hbetween₁, hbetween₂, hbetween₃, hxy, ht,
    bind_eq_bind, bind_some]
  rfl

lemma isInt_short (v : UInt16) : IsInt (short v) := by
  have hlo := BitVec.le_two_mul_toInt (x := v.toBitVec)
  have hhi := BitVec.two_mul_toInt_lt (x := v.toBitVec)
  unfold IsInt short
  omega

lemma short_eq_iff (v : UInt16) : short v = v.toNat ↔ v.toNat < 32768 := by
  have hlt := v.toBitVec.isLt
  have hcond := BitVec.toInt_eq_toNat_cond v.toBitVec
  unfold short
  rw [hcond]
  change (if 2 * v.toNat < 2 ^ 16 then (v.toNat : ℤ) else v.toNat - (2 ^ 16 : ℕ)) = v.toNat ↔ _
  split <;> omega

lemma not_mem_printInt {c : Char} (v : ℤ) (hne : c ≠ '-') (hc : c.isDigit = false) :
    c ∉ printInt v := by
  intro hmem
  rcases mem_printInt hmem with rfl | hdigit
  · exact hne rfl
  · rw [hdigit] at hc
    cases hc

lemma isInt_of_dataTime {m : Msg} {globeTimestamp time : ℤ}
    (h : dataTime m globeTimestamp = some time) : IsInt time := by
  unfold dataTime at h
  simp only at h
  split at h
  next hint =>
    rwa [← some.inj h]
  · cases h

lemma wsnData_dataRet (m : Msg) {time : ℤ} (h : IsInt time) (localTime : ℤ) :
    wsnData (dataRet m time) localTime = some ⟨dataRet m time, short m.ability.leftUp.x,
      short m.ability.leftUp.y, time, key m.dataType, localTime⟩ := by
  have hslash : ∀ v, '/' ∉ printInt v := fun v => not_mem_printInt v (by decide) (by decide)
  have hcomma : ∀ v, ',' ∉ printInt v := fun v => not_mem_printInt v (by decide) (by decide)
  set x := printInt (short m.ability.leftUp.x) with hx
  set y := printInt (short m.ability.leftUp.y) with hy
  have hxlen : x.length ≤ 11 := length_printInt (isInt_short _)
  have hylen : y.length ≤ 11 := length_printInt (isInt_short _)
  have htlen := length_printInt h
  have hdlen : (printInt (short m.data)).length ≤ 11 := length_printInt (isInt_short _)
  have hklen : (key m.dataType).length ≤ 8 := by
    unfold key
    split_ifs <;> decide
  have hparts : dataRet m time = '/' :: ((x ++ ',' :: y) ++ '/' :: (printInt time ++
      '/' :: (key m.dataType ++ '/' :: printInt (short m.data)))) := by
    simp [dataRet, hx, hy]
  have hposition : '/' ∉ x ++ ',' :: y := by simp [hx, hy, hslash]
  have hxy : stoiPair (x ++ ',' :: y) =
      some (short m.ability.leftUp.x, short m.ability.leftUp.y) := by
    have hlen : (x ++ ',' :: y).length ≤ npos := by
      simp only [length_append, length_cons, npos]
      omega
    rw [stoiPair_append (hcomma _) hlen, stoi_printInt (isInt_short _), bind_some, hy,
      stoi_printInt (isInt_short _), bind_some]
  rw [hparts]
  refine wsnData_parts hposition (hslash _) (hslash _) hxy (stoi_printInt h) ?_ localTime
  simp only [length_append, length_cons, npos]
  omega

lemma accepts_iff {interest : List Char} {m : Msg} {time : ℤ} :
    accepts interest m time = some true ↔
      positionBelongInterest interest m.ability.leftUp.x.toNat m.ability.leftUp.y.toNat =
        some true ∧
      timeBelongInterest interest time = some true ∧
      datatypeEqualInterest interest (key m.dataType) = some true := by
  unfold accepts
  rcases positionBelongInterest interest _ _ with _ | _ | _ <;>
    rcases timeBelongInterest interest time with _ | _ | _ <;> simp

lemma mem_of_mapM {α β : Type} {f : α → Option β} {l : List α} {l' : List β} {a : α} {b : β}
    (h : l.mapM f = some l') (ha : a ∈ l) (hf : f a = some b) : b ∈ l' := by
  induction l generalizing l' with
  | nil => cases ha
  | cons x l ih =>
    rw [mapM_cons, bind_eq_bind, bind_eq_some_iff] at h
    obtain ⟨y, hy, h⟩ := h
    obtain ⟨ys, hys, hcons⟩ := bind_eq_some_iff.mp h
    obtain rfl : y :: ys = l' := some.inj hcons
    rcases mem_cons.mp ha with rfl | ha
    · rw [hf] at hy
      exact some.inj hy ▸ mem_cons_self
    · exact mem_cons_of_mem y (ih hys ha)

lemma mem_of_storeData {m : Msg} {globeTimestamp time : ℤ}
    {inList inList' : List (List Char × List (List Char))} {interest : List Char}
    {stored : List (List Char)} (ht : dataTime m globeTimestamp = some time)
    (hstore : storeData m globeTimestamp inList = some inList')
    (hmem : (interest, stored) ∈ inList) (hacc : accepts interest m time = some true) :
    (interest, stored.insert (dataRet m time)) ∈ inList' := by
  rw [storeData, ht, bind_some] at hstore
  refine mem_of_mapM hstore hmem ?_
  rw [storeFor, hacc, map_some, if_pos rfl]

/-- Every Interest that accepts a data message gets a text that stands for the position, time and
type of the message, and that answers the Interest, if and only if both coordinates are below
32768. -/
theorem stored_answers_iff {m : Msg} {type : DataType} (htype : m.dataType = type.code)
    {globeTimestamp time : ℤ} (ht : dataTime m globeTimestamp = some time)
    {inList inList' : List (List Char × List (List Char))}
    (hstore : storeData m globeTimestamp inList = some inList') {interest : List Char}
    {stored : List (List Char)} (hmem : (interest, stored) ∈ inList)
    (hposition : positionBelongInterest interest m.ability.leftUp.x.toNat
      m.ability.leftUp.y.toNat = some true)
    (htime : timeBelongInterest interest time = some true)
    (hdatatype : datatypeEqualInterest interest type.text = some true) (localTime : ℤ) :
    ∃ text, (interest, stored.insert text) ∈ inList' ∧
      ((∃ d, wsnData text localTime = some d ∧ d.positionX = m.ability.leftUp.x.toNat ∧
          d.positionY = m.ability.leftUp.y.toNat ∧ d.wsnTime = time ∧ d.type = type.text ∧
          searchDatasetPosition interest d = some true ∧
          searchDatasetTime interest d = some true ∧
          searchDatasetType interest d = some true) ↔
        m.ability.leftUp.x.toNat < 32768 ∧ m.ability.leftUp.y.toNat < 32768) := by
  have hkey : key m.dataType = type.text := by
    rw [htype]
    cases type <;> rfl
  have hacc := accepts_iff.mpr ⟨hposition, htime, hkey.symm ▸ hdatatype⟩
  have hread := wsnData_dataRet m (isInt_of_dataTime ht) localTime
  rw [hkey] at hread
  refine ⟨dataRet m time, mem_of_storeData ht hstore hmem hacc, ?_⟩
  rw [← short_eq_iff, ← short_eq_iff]
  constructor
  · rintro ⟨d, hd, hx, hy, -⟩
    obtain rfl := some.inj (hread.symm.trans hd)
    exact ⟨hx, hy⟩
  rintro ⟨hx, hy⟩
  refine ⟨_, hread, hx, hy, rfl, rfl, ?_, htime, hdatatype⟩
  rw [searchDatasetPosition, hx, hy]
  exact hposition

def farInterest : List Char :=
  ['w', 's', 'n', '/', '0', ',', '9', '/', '4', '0', '0', '0', '0', ',', '0', '/', '0', '/', '9',
    '/', 't', 'e', 'm', 'p']

def temperatureAt (x y : UInt16) : Msg :=
  { msgType := 3, ability := ⟨⟨x, y⟩, ⟨x, y⟩⟩, startTime := 3, endTime := 3, dataType := 1,
    data := 21 }

/-- The sensor at `32768,4` is in the area of the Interest. It is stored with the position
`-32768,4`, which is not. -/
theorem far_sensor_not_found :
    ∃ text d, storeData (temperatureAt 32768 4) 0 [(farInterest, [])] =
        some [(farInterest, [text])] ∧
      wsnData text 0 = some d ∧ d.positionX = -32768 ∧
      searchDatasetPosition farInterest d = some false :=
  ⟨dataRet (temperatureAt 32768 4) 3, _, by decide, rfl, rfl, by decide⟩

theorem stored_answers_iff_near_sensor :
    ∃ text, (farInterest, [text]) ∈ [(farInterest, [dataRet (temperatureAt 32767 4) 3])] ∧
      ∃ d, wsnData text 0 = some d ∧ searchDatasetPosition farInterest d = some true := by
  have htype : (temperatureAt 32767 4).dataType = DataType.temp.code := rfl
  have htime : dataTime (temperatureAt 32767 4) 0 = some 3 := by decide
  have hstore : storeData (temperatureAt 32767 4) 0 [(farInterest, [])] =
      some [(farInterest, [dataRet (temperatureAt 32767 4) 3])] := by decide
  obtain ⟨text, hmem, hiff⟩ := stored_answers_iff htype htime hstore mem_cons_self
    (by decide) (by decide) (by decide) 0
  obtain ⟨d, hd, -, -, -, -, hfound, -⟩ := hiff.mpr (by decide)
  exact ⟨text, hmem, d, hd, hfound⟩

end NfdGateway.Serial
