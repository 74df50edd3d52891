import NfdGateway.Serial.ReadData

/-! The frames of a byte stream: when the reader dispatches all of them, however `read()` cuts the
stream. -/
namespace NfdGateway.Serial

open List Option

variable {a b l z usbbuf usbbuf' f : List UInt8} {reads rest : List (List UInt8)} {t : MessageType}
  {messages : List Message} {c : UInt8} {i k n : ℕ}

/-! The frames of a stream. -/

/-- The messages of the complete frames, from left to right, after the bytes that are skipped. A
frame that is not complete hides what follows its start mark. -/
def frames : ℕ → List UInt8 → List Message
  | _, [] => []
  | k + 1, _ :: l => frames k l
  | 0, b :: l =>
    if startMark <+: b :: l then
      match (b :: l)[10]? with
      | none => []
      | some c =>
        match MessageType.ofCode c with
        | none => frames 0 l
        | some t =>
          if (b :: l).length < t.frameLen then []
          else message ((b :: l).take t.frameLen) t :: frames (t.frameLen - 1) l
    else frames 0 l

def closed : ℕ → List UInt8 → Bool
  | k, [] => k == 0
  | k + 1, _ :: l => closed k l
  | 0, b :: l =>
    if startMark <+: b :: l then
      match (b :: l)[10]? with
      | none => false
      | some c =>
        match MessageType.ofCode c with
        | none => closed 0 l
        | some t => closed (t.frameLen - 1) l
    else !(b :: l).isPrefixOf startMark && closed 0 l

lemma frameLen_pos (t : MessageType) : 25 ≤ t.frameLen := by cases t <;> decide

lemma frames_drop : frames k l = frames 0 (l.drop k) := by
  induction l generalizing k with
  | nil => simp [frames]
  | cons b l ih =>
    cases k with
    | zero => rfl
    | succ k => simpa [frames] using ih

lemma closed_length (h : closed k l = true) : k ≤ l.length := by
  induction l generalizing k with
  | nil => simp_all [closed]
  | cons b l ih =>
    cases k with
    | zero => exact Nat.zero_le _
    | succ k => exact Nat.succ_le_succ (ih h)

lemma frames_mark (hm : startMark <+: l) (hc : l[10]? = some c)
    (ht : MessageType.ofCode c = some t) :
    frames 0 l = if l.length < t.frameLen then []
      else message (l.take t.frameLen) t :: frames 0 (l.drop t.frameLen) := by
  cases l with
  | nil => simp at hc
  | cons b l =>
    rw [frames, if_pos hm, hc]
    simp only [ht]
    rw [frames_drop]
    have hpos := frameLen_pos t
    obtain ⟨n, hn⟩ : ∃ n, t.frameLen = n + 1 := ⟨t.frameLen - 1, by omega⟩
    rw [hn, Nat.add_sub_cancel, drop_succ_cons]

lemma frames_mark_unknown (hm : startMark <+: l) (hc : l[10]? = some c)
    (ht : MessageType.ofCode c = none) : frames 0 l = frames 0 (l.drop 1) := by
  cases l with
  | nil => simp at hc
  | cons b l =>
    rw [frames, if_pos hm, hc]
    simp [ht]

lemma frames_no_mark (h : ∀ j < i, ¬ startMark <+: l.drop j) :
    frames 0 l = frames 0 (l.drop i) := by
  induction i generalizing l with
  | zero => rfl
  | succ i ih =>
    cases l with
    | nil => rfl
    | cons b l =>
      have hb : ¬ startMark <+: b :: l := h 0 (by omega)
      rw [frames, if_neg hb, drop_succ_cons]
      exact ih fun j hj => h (j + 1) (by omega)

lemma frames_short (h : l.length < 25) : frames 0 l = [] := by
  induction l with
  | nil => rfl
  | cons b l ih =>
    have hl : l.length < 25 := by simp at h; omega
    rw [frames]
    split
    · split
      · rfl
      split
      · exact ih hl
      rename_i t _
      have hpos := frameLen_pos t
      rw [if_pos (by omega)]
    · exact ih hl

lemma frames_append (h : closed k a = true) : frames k (a ++ b) = frames k a ++ frames 0 b := by
  induction a generalizing k with
  | nil =>
    obtain rfl : k = 0 := by simpa [closed] using h
    cases b <;> rfl
  | cons c a ih =>
    cases k with
    | succ k => exact ih h
    | zero =>
      rw [closed] at h
      rw [cons_append, frames, frames]
      split at h
      next hm =>
        have hm' : startMark <+: c :: (a ++ b) := hm.trans (prefix_append (c :: a) b)
        rw [if_pos hm, if_pos hm']
        cases hd : (c :: a)[10]? with
        | none => simp [hd] at h
        | some d =>
          have hlt := (List.getElem?_eq_some_iff.mp hd).1
          have hd' : (c :: (a ++ b))[10]? = some d := by
            rw [← cons_append, getElem?_append_left hlt, hd]
          rw [hd] at h
          rw [hd']
          simp only at h ⊢
          cases ht : MessageType.ofCode d with
          | none =>
            rw [ht] at h
            exact ih h
          | some t =>
            rw [ht] at h
            have hlen : t.frameLen ≤ (c :: a).length := by
              have hle := closed_length h
              simp only [length_cons]
              omega
            have hlen' : t.frameLen ≤ (c :: (a ++ b)).length := by
              simp only [length_cons, length_append] at hlen ⊢
              omega
            have htake : (c :: (a ++ b)).take t.frameLen = (c :: a).take t.frameLen :=
              take_append_of_le_length hlen
            simp only
            rw [if_neg (by omega), if_neg (by omega), ih h, htake, cons_append]
      next hm =>
        obtain ⟨hcut, hrest⟩ := Bool.and_eq_true_iff.mp h
        have hm' : ¬ startMark <+: c :: (a ++ b) := by
          intro hm'
          rcases prefix_or_prefix_of_prefix hm' (prefix_append (c :: a) b) with hp | hp
          · exact hm hp
          · have hcuts := isPrefixOf_iff_prefix.mpr hp
            simp [hcuts] at hcut
        rw [if_neg hm, if_neg hm', ih hrest]

/-! The first start mark. -/

def FirstMark (l : List UInt8) (i : ℕ) : Prop :=
  startMark <+: l.drop i ∧ ∀ j < i, ¬ startMark <+: l.drop j

lemma FirstMark.frames (h : FirstMark l i) : frames 0 l = Serial.frames 0 (l.drop i) :=
  frames_no_mark h.2

lemma length_of_mark (h : startMark <+: l.drop i) : i + 7 ≤ l.length := by
  have hlen := h.length_le
  rw [length_drop] at hlen
  have hseven : startMark.length = 7 := rfl
  omega

lemma mark_append (h : i + 7 ≤ l.length) :
    startMark <+: (l ++ b).drop i ↔ startMark <+: l.drop i := by
  rw [drop_append_of_le_length (by omega)]
  refine ⟨fun hm => ?_, fun hm => hm.trans (prefix_append _ _)⟩
  refine prefix_of_prefix_length_le hm (prefix_append _ _) ?_
  rw [length_drop]
  have hseven : startMark.length = 7 := rfl
  omega

lemma findStartMark_eq_some (h : findStartMark l = some i) : FirstMark (l ++ b) i := by
  rw [findStartMark, find?_range_eq_some] at h
  obtain ⟨hm, hlt, hno⟩ := h
  rw [mem_range] at hlt
  have hmark := isPrefixOf_iff_prefix.mp hm
  refine ⟨(mark_append (by omega)).mpr hmark, fun j hj hmj => ?_⟩
  rw [mark_append (by omega), ← isPrefixOf_iff_prefix] at hmj
  have hnot := hno j hj
  rw [hmj] at hnot
  cases hnot

lemma head_of_mark (h : startMark <+: l.drop i) : l[i]? = some delimiter := by
  obtain ⟨m, hm⟩ := h
  have hhead : (l.drop i)[0]? = some delimiter := by rw [← hm]; rfl
  simpa using hhead

lemma FirstMark.of_zeros (hz : ∀ x ∈ z, x = 0) (h : FirstMark (z ++ a) i) :
    ∃ j, i = z.length + j ∧ FirstMark a j := by
  have hi : z.length ≤ i := by
    by_contra hlt
    have hhead := head_of_mark h.1
    rw [getElem?_append_left (by omega)] at hhead
    have hzero := hz _ (mem_of_getElem? hhead)
    exact absurd hzero (by decide)
  obtain ⟨j, rfl⟩ := Nat.exists_eq_add_of_le hi
  have hdrop : ∀ j, (z ++ a).drop (z.length + j) = a.drop j := fun j => by simp
  refine ⟨j, rfl, ?_, fun j' hj' hm => ?_⟩
  · rw [← hdrop]
    exact h.1
  · exact h.2 (z.length + j') (by omega) (by rwa [hdrop])

lemma frames_of_not_found (h : findStartMark (z ++ a) = none) : frames 0 a = [] := by
  rw [findStartMark, find?_range_eq_none] at h
  rw [frames_no_mark (i := a.length - 7)]
  · apply frames_short
    rw [length_drop]
    omega
  intro j hj hm
  have hnot := h (z.length + j) (by rw [length_append]; omega)
  have hdrop : (z ++ a).drop (z.length + j) = a.drop j := by simp
  rw [hdrop, isPrefixOf_iff_prefix.mpr hm] at hnot
  cases hnot

/-! One turn. -/

lemma readUntil_cases (n : ℕ) (usbbuf : List UInt8) (reads : List (List UInt8)) :
    (readUntil n usbbuf reads = none ∧ (usbbuf ++ reads.flatten).length < n) ∨
      ∃ used rest, reads = used ++ rest ∧ n ≤ (usbbuf ++ used.flatten).length ∧
        readUntil n usbbuf reads = some (usbbuf ++ used.flatten, rest) := by
  induction reads generalizing usbbuf with
  | nil =>
    rw [readUntil]
    split
    · exact .inl ⟨rfl, by simpa⟩
    · exact .inr ⟨[], [], rfl, by simp; omega, by simp⟩
  | cons r reads ih =>
    rw [readUntil]
    split
    · rcases ih (usbbuf ++ r) with ⟨hnone, hlen⟩ | ⟨used, rest, rfl, hlen, hsome⟩
      · exact .inl ⟨hnone, by simpa using hlen⟩
      · exact .inr ⟨r :: used, rest, rfl, by simpa using hlen, by simpa using hsome⟩
    · exact .inr ⟨[], r :: reads, rfl, by simp; omega, by simp⟩

inductive Turned (z a : List UInt8) : List Message → Prop
  | nothing (h : findStartMark (z ++ a) = none) : Turned z a []
  | unknown {i : ℕ} {c : UInt8} (hi : FirstMark (z ++ a) i) (hc : (z ++ a)[i + 10]? = some c)
      (ht : MessageType.ofCode c = none) : Turned z a []
  | known {i : ℕ} {c : UInt8} {t : MessageType} (hi : FirstMark (z ++ a) i)
      (hc : (z ++ a)[i + 10]? = some c) (ht : MessageType.ofCode c = some t)
      (hlen : i + t.frameLen ≤ (z ++ a).length) : Turned z a (dispatch ((z ++ a).drop i) t)

inductive Waiting (z a : List UInt8) : Prop
  | short (hlen : (z ++ a).length < shortestDataFrameLen)
  | head {i : ℕ} (hi : FirstMark (z ++ a) i) (hlen : (z ++ a).length < i + shortestDataFrameLen)
  | frame {i : ℕ} {c : UInt8} {t : MessageType} (hi : FirstMark (z ++ a) i)
      (hc : (z ++ a)[i + 10]? = some c) (ht : MessageType.ofCode c = some t)
      (hlen : (z ++ a).length < i + t.frameLen)

lemma type_append (h : i < l.length) : (l ++ b)[i]? = some (l.getD i 0) := by
  rw [getElem?_append_left h, getD_eq_getElem?_getD, getElem?_eq_getElem h]
  rfl

lemma turn_cases (usbbuf : List UInt8) (reads : List (List UInt8))
    (hz : usbbuf.map (fun _ => 0) = z) :
    (turn usbbuf reads = none ∧ Waiting z reads.flatten) ∨
      ∃ used rest messages, reads = used ++ rest ∧ Turned z used.flatten messages ∧
        shortestDataFrameLen ≤ (z ++ used.flatten).length ∧
        turn usbbuf reads = some (keepTail (z ++ used.flatten), messages, rest) := by
  rw [turn, hz]
  rcases readUntil_cases shortestDataFrameLen z reads with
    ⟨h₁, hn₁⟩ | ⟨used₁, reads₁, rfl, hn₁, h₁⟩
  · exact .inl ⟨by rw [h₁, bind_none], .short hn₁⟩
  rw [h₁, bind_some]
  cases hf : findStartMark (z ++ used₁.flatten) with
  | none => exact .inr ⟨used₁, reads₁, [], rfl, .nothing hf, hn₁, by simp only [hf]⟩
  | some i =>
    -- whatever is read from now on, the mark and the first bytes stay
    have hi : ∀ more : List (List UInt8), FirstMark (z ++ (used₁ ++ more).flatten) i := by
      intro more
      rw [flatten_append, ← append_assoc]
      exact findStartMark_eq_some hf
    have hmore : ∀ more : List (List UInt8),
        shortestDataFrameLen ≤ (z ++ (used₁ ++ more).flatten).length := by
      intro more
      rw [flatten_append, ← append_assoc, length_append]
      omega
    simp only [hf]
    rcases readUntil_cases (i + shortestDataFrameLen) (z ++ used₁.flatten) reads₁ with
      ⟨h₂, hn₂⟩ | ⟨used₂, reads₂, rfl, hn₂, h₂⟩
    · rw [append_assoc, ← flatten_append] at hn₂
      exact .inl ⟨by rw [h₂, bind_none], .head (hi reads₁) hn₂⟩
    rw [h₂, bind_some]
    rw [append_assoc, ← flatten_append] at hn₂ ⊢
    have hc : ∀ more : List (List UInt8), (z ++ (used₁ ++ (used₂ ++ more)).flatten)[i + 10]? =
        some ((z ++ (used₁ ++ used₂).flatten).getD (i + 10) 0) := by
      intro more
      rw [← append_assoc used₁, flatten_append, ← append_assoc z]
      apply type_append
      unfold shortestDataFrameLen at hn₂
      omega
    cases ht : MessageType.ofCode ((z ++ (used₁ ++ used₂).flatten).getD (i + 10) 0) with
    | none =>
      have hc' := hc []
      rw [append_nil] at hc'
      exact .inr ⟨used₁ ++ used₂, reads₂, [], by simp, .unknown (hi used₂) hc' ht, hmore used₂, rfl⟩
    | some t =>
      simp only
      rcases readUntil_cases (i + t.frameLen) (z ++ (used₁ ++ used₂).flatten) reads₂ with
        ⟨h₃, hn₃⟩ | ⟨used₃, reads₃, rfl, hn₃, h₃⟩
      · rw [append_assoc, ← flatten_append, append_assoc] at hn₃
        exact .inl ⟨by rw [h₃, bind_none], .frame (hi _) (hc reads₂) ht hn₃⟩
      rw [h₃, bind_some]
      rw [append_assoc, ← flatten_append, append_assoc] at hn₃ ⊢
      exact .inr ⟨used₁ ++ (used₂ ++ used₃), reads₃, _, by simp,
        .known (hi _) (hc used₃) ht hn₃, hmore _, rfl⟩

lemma mem_zeros : ∀ x ∈ usbbuf.map (fun _ => (0 : UInt8)), x = 0 := by
  intro x hx
  obtain ⟨-, -, rfl⟩ := List.mem_map.mp hx
  rfl

lemma getElem?_zeros (j : ℕ) : (z ++ a)[z.length + j]? = a[j]? := by
  rw [getElem?_append_right (by omega), Nat.add_sub_cancel_left]

lemma Waiting.frames (h : Waiting z a) (hz : ∀ x ∈ z, x = 0) : Serial.frames 0 a = [] := by
  cases h with
  | short hlen =>
    apply frames_short
    rw [length_append] at hlen
    unfold shortestDataFrameLen at hlen
    omega
  | head hi hlen =>
    obtain ⟨j, rfl, hj⟩ := hi.of_zeros hz
    rw [hj.frames]
    apply frames_short
    rw [length_append] at hlen
    rw [length_drop]
    unfold shortestDataFrameLen at hlen
    omega
  | @frame i c t hi hc ht hlen =>
    obtain ⟨j, rfl, hj⟩ := hi.of_zeros hz
    rw [Nat.add_assoc, getElem?_zeros] at hc
    rw [hj.frames, frames_mark hj.1 (by rw [getElem?_drop]; exact hc) ht, if_pos]
    rw [length_append] at hlen
    have hpos := frameLen_pos t
    rw [length_drop]
    omega

/-! What a turn reads. -/

/-- The condition on the bytes of a turn: nothing is cut off at their end, and no frame follows
the first start mark but its own. The second byte of the type of a data message is zero. -/
def apart (a : List UInt8) : Bool :=
  closed 0 a &&
    match (List.range a.length).find? fun i => startMark.isPrefixOf (a.drop i) with
    | none => true
    | some i =>
      match a[i + 10]?.bind MessageType.ofCode with
      | none => frames 0 (a.drop (i + 1)) == []
      | some t => frames 0 (a.drop (i + t.frameLen)) == [] && (t != .data || a[i + 11]? == some 0)

lemma find?_mark (h : FirstMark a i) :
    ((List.range a.length).find? fun i => startMark.isPrefixOf (a.drop i)) = some i := by
  rw [find?_range_eq_some]
  have hlen := length_of_mark h.1
  have hmark := isPrefixOf_iff_prefix.mpr h.1
  refine ⟨hmark, mem_range.mpr (by omega), fun j hj => ?_⟩
  rw [Bool.not_eq_true', ← Bool.not_eq_true, isPrefixOf_iff_prefix]
  exact h.2 j hj

lemma word_take (h : i + 1 < n) : word (f.take n) i = word f i := by
  have hget : ∀ j < n, (f.take n).getD j 0 = f.getD j 0 := by
    intro j hj
    simp [getD_eq_getElem?_getD, hj]
  rw [word, word, hget i (by omega), hget (i + 1) h]

lemma message_take : message (f.take t.frameLen) t = message f t := by
  cases t with
  | data =>
    simp only [message, msg, location, MessageType.frameLen]
    simp (disch := omega) only [word_take]
  | mapping =>
    simp only [message, nodeInfo, location, MessageType.frameLen]
    simp (disch := omega) only [word_take]
  | topology =>
    have hdata : ((List.range 10).map fun j => word (f.take 37) (14 + 2 * j)) =
        (List.range 10).map fun j => word f (14 + 2 * j) := by
      refine map_congr_left fun j hj => word_take ?_
      have hlt := mem_range.mp hj
      omega
    simp only [message, topoMsg, MessageType.frameLen, hdata]
    simp (disch := omega) only [word_take]

lemma dispatch_data (h10 : f[10]? = some 3) (h11 : f[11]? = some 0) :
    dispatch f .data = [message f .data] := by
  have htype : (msg f).msgType = 3 := by simp [msg, word, getD_eq_getElem?_getD, h10, h11]
  rw [dispatch, if_pos htype]

lemma ofCode_eq_data (h : MessageType.ofCode c = some .data) : c = 3 := by
  rw [MessageType.ofCode] at h
  split at h
  · assumption
  split at h
  · cases h
  · split at h <;> cases h

lemma Turned.frames (h : Turned z a messages) (hz : ∀ x ∈ z, x = 0) (ha : apart a = true) :
    messages = Serial.frames 0 a := by
  rw [apart] at ha
  obtain ⟨-, ha⟩ := Bool.and_eq_true_iff.mp ha
  cases h with
  | nothing h => exact (frames_of_not_found h).symm
  | @unknown i c hi hc ht =>
    obtain ⟨j, rfl, hj⟩ := hi.of_zeros hz
    rw [Nat.add_assoc, getElem?_zeros] at hc
    simp only [find?_mark hj, hc, bind_some, ht] at ha
    have hrest : Serial.frames 0 (a.drop (j + 1)) = [] := by simpa using ha
    rw [hj.frames, frames_mark_unknown hj.1 (by rw [getElem?_drop]; exact hc) ht, drop_drop, hrest]
  | @known i c t hi hc ht hlen =>
    obtain ⟨j, rfl, hj⟩ := hi.of_zeros hz
    rw [Nat.add_assoc, getElem?_zeros] at hc
    simp only [find?_mark hj, hc, bind_some, ht] at ha
    obtain ⟨hrest, hdata⟩ := Bool.and_eq_true_iff.mp ha
    have hrest : Serial.frames 0 (a.drop (j + t.frameLen)) = [] := by simpa using hrest
    have hdrop : (z ++ a).drop (z.length + j) = a.drop j := by simp
    rw [hdrop, hj.frames, frames_mark hj.1 (by rw [getElem?_drop]; exact hc) ht, if_neg,
      drop_drop, hrest, message_take]
    · cases t with
      | data =>
        have h11 : a[j + 11]? = some 0 := by simpa using hdata
        obtain rfl := ofCode_eq_data ht
        exact dispatch_data (by rw [getElem?_drop]; exact hc) (by rw [getElem?_drop]; exact h11)
      | mapping | topology => rfl
    · rw [length_append] at hlen
      rw [length_drop]
      omega

lemma keepTail_length : (keepTail l).length ≤ 7 := by
  rw [keepTail]
  split
  · exact Nat.zero_le _
  rename_i movePos h
  have hmem := mem_of_find?_eq_some h
  obtain ⟨j, hj, rfl⟩ := List.mem_map.mp hmem
  have hlt := mem_range.mp hj
  rw [length_drop]
  omega

/-! The loop. -/

/-- The condition on the results of `read()`: the bytes that each turn of the loop takes are
apart. -/
inductive Served : List UInt8 → List (List UInt8) → Prop
  | waits {usbbuf : List UInt8} {reads : List (List UInt8)} (h : turn usbbuf reads = none) :
    Served usbbuf reads
  | turns {usbbuf usbbuf' : List UInt8} {used rest : List (List UInt8)} {messages : List Message}
      (h : turn usbbuf (used ++ rest) = some (usbbuf', messages, rest))
      (ha : apart used.flatten = true) (hs : Served usbbuf' rest) : Served usbbuf (used ++ rest)

lemma Served.readLoop (h : Served usbbuf reads) (hlen : usbbuf.length ≤ 7)
    (hfuel : reads.length < n) : readLoop n usbbuf reads = frames 0 reads.flatten := by
  induction h generalizing n with
  | @waits usbbuf reads h =>
    obtain ⟨m, rfl⟩ := Nat.exists_eq_add_of_lt hfuel
    rcases turn_cases usbbuf reads rfl with ⟨-, hwaits⟩ | ⟨_, _, _, _, _, _, hsome⟩
    · rw [Serial.readLoop, h, hwaits.frames mem_zeros]
    · rw [h] at hsome
      cases hsome
  | @turns usbbuf usbbuf' used rest messages h ha _ ih =>
    rcases turn_cases usbbuf (used ++ rest) rfl with
      ⟨hnone, -⟩ | ⟨used', rest', messages', heq, hturned, hmin, hsome⟩
    · rw [h] at hnone
      cases hnone
    rw [h, some.injEq, Prod.mk.injEq, Prod.mk.injEq] at hsome
    obtain ⟨hbuf, rfl, rfl⟩ := hsome
    obtain rfl := append_cancel_right heq
    -- a result at least was taken
    have hpos : 0 < used.length := by
      apply length_pos_iff.mpr
      rintro rfl
      unfold shortestDataFrameLen at hmin
      simp at hmin
      omega
    have hlen' : usbbuf'.length ≤ 7 := by
      rw [hbuf]
      exact keepTail_length
    obtain ⟨m, rfl⟩ := Nat.exists_eq_add_of_lt hfuel
    have hclosed := (Bool.and_eq_true_iff.mp ha).1
    rw [Serial.readLoop, h]
    simp only
    rw [ih hlen' (by rw [length_append]; omega), hturned.frames mem_zeros ha,
      flatten_append, frames_append hclosed]

/-- The same stream gives the same messages, those of its frames, however it is cut, if the cuts
meet the condition. -/
theorem dispatched_of_stream {reads₁ reads₂ : List (List UInt8)} (h₁ : Served [] reads₁)
    (h₂ : Served [] reads₂) (hstream : reads₁.flatten = reads₂.flatten) :
    readData reads₁ = readData reads₂ ∧ readData reads₁ = frames 0 reads₁.flatten := by
  have hone : readData reads₁ = frames 0 reads₁.flatten :=
    h₁.readLoop (Nat.zero_le _) (Nat.lt_succ_self _)
  have htwo : readData reads₂ = frames 0 reads₂.flatten :=
    h₂.readLoop (Nat.zero_le _) (Nat.lt_succ_self _)
  exact ⟨by rw [hone, htwo, hstream], hone⟩

def mappingFrame (node : UInt8) : List UInt8 :=
  startMark ++ [0, 0, 0, 4, 0] ++ List.replicate 8 0 ++ [node, 0, 0, 0, 0]

/-- Two frames that one `read()` returns: only the first is dispatched. -/
theorem second_frame_lost : ∃ reads₁ reads₂ : List (List UInt8),
    reads₁.flatten = reads₂.flatten ∧ reads₁.flatten.length ≤ 1024 ∧
      readData reads₁ = frames 0 reads₁.flatten ∧ readData reads₂ ≠ readData reads₁ :=
  ⟨[mappingFrame 1, mappingFrame 2], [mappingFrame 1 ++ mappingFrame 2], by decide, by decide,
    by decide +kernel, by decide +kernel⟩

/-- Two frames, each cut in its own way. -/
theorem dispatched_of_stream_two :
    readData [mappingFrame 1, mappingFrame 2] =
      readData [(mappingFrame 1).take 12, (mappingFrame 1).drop 12, mappingFrame 2] ∧
    readData [mappingFrame 1, mappingFrame 2] =
      frames 0 (mappingFrame 1 ++ mappingFrame 2) := by
  have hone : Served [] ([mappingFrame 1] ++ ([mappingFrame 2] ++ [])) :=
    .turns rfl (by decide +kernel) (.turns rfl (by decide +kernel) (.waits rfl))
  have htwo : Served []
      ([(mappingFrame 1).take 12, (mappingFrame 1).drop 12] ++ ([mappingFrame 2] ++ [])) :=
    .turns rfl (by decide +kernel) (.turns rfl (by decide +kernel) (.waits rfl))
  exact dispatched_of_stream hone htwo (by decide)

end NfdGateway.Serial
