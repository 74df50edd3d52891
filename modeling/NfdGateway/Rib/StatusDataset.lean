import NfdGateway.Lib.Transition

/-! The segments of a status dataset, and how the RIB manager fetches them. -/
namespace NfdGateway.Dataset

open List Transition

inductive Component (K : Type)
  | other (k : K)
  | segment (number : ℕ)
  deriving DecidableEq

variable {K : Type}

/-- It throws for a component without the marker of segment numbers. -/
def Component.toSegment : Component K → Option ℕ
  | .other _ => none
  | .segment number => some number

/-- An empty `finalBlockId` is `none`. -/
structure Data (K : Type) where
  name : List (Component K)
  content : List UInt8
  finalBlockId : Option (Component K)
  deriving DecidableEq

/-- `ndn::MAX_NDN_PACKET_SIZE`. -/
abbrev MaxPacketSize := { size : ℕ // 2 ≤ size }

def getMaxSegmentSize (m : MaxPacketSize) : ℕ := m.1 >>> 1

lemma getMaxSegmentSize_pos (m : MaxPacketSize) : 0 < getMaxSegmentSize m := by
  rw [getMaxSegmentSize, Nat.shiftRight_eq_div_pow]
  exact Nat.div_pos m.2 Nat.two_pos

/-- The loop of `publish`, where `rest` lies between `segmentBegin` and `end`. -/
def publishFrom (m : MaxPacketSize) (segmentPrefix : List (Component K)) (segmentNo : ℕ)
    (rest : List UInt8) : List (Data K) :=
  let segmentName := segmentPrefix ++ [.segment segmentNo]
  let content := rest.take (getMaxSegmentSize m)
  if rest.drop (getMaxSegmentSize m) = [] then
    [⟨segmentName, content, segmentName.getLast?⟩]
  else
    ⟨segmentName, content, none⟩ ::
      publishFrom m segmentPrefix (segmentNo + 1) (rest.drop (getMaxSegmentSize m))
termination_by rest.length
decreasing_by
  rename_i hrest
  have hlt := mt drop_eq_nil_iff.mpr hrest
  rw [length_drop]
  exact Nat.sub_lt (by omega) (getMaxSegmentSize_pos m)

def publish (m : MaxPacketSize) (mPrefix : List (Component K)) (version : K)
    (buffer : List UInt8) : List (Data K) :=
  publishFrom m (mPrefix ++ [.other version]) 0 buffer

/-- Segments with the numbers from `n` on that hold `rest`. -/
inductive Segments (m : MaxPacketSize) (segmentPrefix : List (Component K)) :
    ℕ → List UInt8 → List (Data K) → Prop
  | last {n : ℕ} {content : List UInt8} (hsize : content.length ≤ getMaxSegmentSize m) :
      Segments m segmentPrefix n content
        [⟨segmentPrefix ++ [.segment n], content, some (.segment n)⟩]
  | cons {n : ℕ} {content rest : List UInt8} {l : List (Data K)}
      (hsize : content.length ≤ getMaxSegmentSize m) (h : Segments m segmentPrefix (n + 1) rest l) :
      Segments m segmentPrefix n (content ++ rest)
        (⟨segmentPrefix ++ [.segment n], content, none⟩ :: l)

variable {m : MaxPacketSize} {segmentPrefix : List (Component K)} {n : ℕ} {rest : List UInt8}
  {l : List (Data K)}

lemma publishFrom_segments (segmentPrefix : List (Component K)) (n : ℕ) (rest : List UInt8) :
    Segments m segmentPrefix n rest (publishFrom m segmentPrefix n rest) := by
  fun_induction publishFrom m segmentPrefix n rest with
  | case1 n rest segmentName content hrest =>
    have hsize := drop_eq_nil_iff.mp hrest
    have hall : content = rest := take_of_length_le hsize
    rw [getLast?_concat, hall]
    exact .last hsize
  | case2 n rest segmentName content hrest ih =>
    have hcons := Segments.cons (length_take_le (getMaxSegmentSize m) rest) ih
    rwa [take_append_drop] at hcons

section

variable (h : Segments m segmentPrefix n rest l)
include h

lemma Segments.contents : (l.map Data.content).flatten = rest := by
  induction h with
  | last _ => simp
  | cons _ _ ih => rw [map_cons, flatten_cons, ih]

lemma Segments.ne_nil : l ≠ [] := by
  cases h <;> simp

lemma Segments.numbered {i : ℕ} {data : Data K} (hi : l[i]? = some data) :
    data.name = segmentPrefix ++ [.segment (n + i)] ∧ data.content.length ≤ getMaxSegmentSize m ∧
      data.finalBlockId = if i + 1 = l.length then some (.segment (n + i)) else none := by
  induction h generalizing i with
  | last hsize =>
    cases i with
    | zero =>
      obtain rfl := Option.some.inj hi
      exact ⟨rfl, hsize, rfl⟩
    | succ i => simp at hi
  | @cons n content rest l hsize htail ih =>
    cases i with
    | zero =>
      obtain rfl := Option.some.inj hi
      have hlen : 0 + 1 ≠ (l.length + 1) := by
        have := length_pos_iff.mpr htail.ne_nil
        omega
      exact ⟨rfl, hsize, (if_neg hlen).symm⟩
    | succ i =>
      have hnext := ih hi
      rw [show n + 1 + i = n + (i + 1) by omega] at hnext
      refine ⟨hnext.1, hnext.2.1, hnext.2.2.trans ?_⟩
      simp only [length_cons, Nat.add_right_cancel_iff]

end

/-- What the consumer waits for, with what it has, or the buffer that goes to
`removeInvalidFaces`. -/
inductive Fetch (K : Type)
  | fetching (interest : List (Component K)) (buffer : List UInt8)
  | done (buffer : List UInt8)
  deriving DecidableEq

/-- `none` is an exception of `toSegment`. -/
def fetchSegments (data : Data K) (buffer : List UInt8) : Option (Fetch K) := do
  let buffer := buffer ++ data.content
  let currentSegment ← data.name.getLast?.bind Component.toSegment
  let more ← match data.finalBlockId with
    | none => some true
    | some finalBlockId => finalBlockId.toSegment.map fun last => decide (last > currentSegment)
  if more then
    some (.fetching (data.name.dropLast ++ [.segment (currentSegment + 1)]) buffer)
  else
    some (.done buffer)

variable [DecidableEq K]

/-- A Data comes in. It is for the pending Interest if its name begins with that of the Interest. -/
def Fetch.receive : Fetch K → Data K → Option (Fetch K)
  | .fetching interest buffer, data =>
    if interest <+: data.name then fetchSegments data buffer else none
  | .done _, _ => none

/-- The consumer of the segments of `rest` when it has received a part of them. -/
def progress (segmentPrefix : List (Component K)) (rest : List UInt8)
    (l received : List (Data K)) : Fetch K :=
  if received = l then .done rest
  else .fetching (segmentPrefix ++ [.segment received.length]) (received.map Data.content).flatten

section

variable (h : Segments m segmentPrefix 0 rest l)
include h

lemma Segments.receive_next {received tail : List (Data K)}
    {data : Data K} (hl : l = received ++ data :: tail) :
    fetchSegments data (received.map Data.content).flatten =
      some (progress segmentPrefix rest l (received ++ [data])) := by
  have hat : l[received.length]? = some data := by simp [hl]
  obtain ⟨hname, -, hfinal⟩ := h.numbered hat
  rw [Nat.zero_add] at hname hfinal
  have hcontents := h.contents
  have hlen : (received.length + 1 = l.length) ↔ tail = [] := by
    rw [hl, length_append, length_cons, ← length_eq_zero_iff]
    omega
  by_cases htail : tail = []
  · have heq : received ++ [data] = l := by rw [hl, htail]
    rw [← heq, map_append, flatten_append] at hcontents
    rw [if_pos (hlen.mpr htail)] at hfinal
    simp [fetchSegments, hname, hfinal, Component.toSegment, progress, heq, ← hcontents]
  · have hne : received ++ [data] ≠ l := by simp [hl, htail]
    rw [if_neg (mt hlen.mp htail)] at hfinal
    simp [fetchSegments, hname, hfinal, Component.toSegment, progress, hne]

lemma Segments.receive_iff {received : List (Data K)}
    {data : Data K} {c : Fetch K} (hpre : received <+: l) (hmem : data ∈ l) :
    (progress segmentPrefix rest l received).receive data = some c ↔
      received ++ [data] <+: l ∧ c = progress segmentPrefix rest l (received ++ [data]) := by
  obtain ⟨_ | ⟨next, tail⟩, hl⟩ := hpre
  · rw [append_nil] at hl
    rw [progress, if_pos hl]
    refine ⟨nofun, fun hc => ?_⟩
    have := hc.1.length_le
    rw [← hl, length_append, length_singleton] at this
    omega
  have hne : received ≠ l := by simp [← hl]
  rw [progress, if_neg hne, Fetch.receive]
  have hnext : segmentPrefix ++ [.segment received.length] <+: data.name ↔ data = next := by
    obtain ⟨i, hi⟩ := mem_iff_getElem?.mp hmem
    have hat : l[received.length]? = some next := by simp [← hl]
    rw [(h.numbered hi).1, Nat.zero_add]
    constructor
    · intro hp
      have heq := hp.eq_of_length (by simp)
      obtain rfl : received.length = i := by simpa using heq
      exact Option.some.inj (hi.symm.trans hat)
    · rintro rfl
      have hname := (h.numbered hi).1.symm.trans (h.numbered hat).1
      obtain rfl : i = received.length := by simpa using hname
      exact prefix_rfl
  have hfront : received ++ [data] <+: l ↔ data = next := by
    rw [← hl, prefix_append_right_inj, cons_prefix_cons]
    simp
  rw [hfront, ← hnext]
  split
  · next hp =>
    obtain rfl := hnext.mp hp
    rw [h.receive_next hl.symm]
    simp [hp, eq_comm]
  · next hp => simp [hp]

/-- What was received is always a beginning of the segments. -/
lemma Segments.run_iff {received : List (Data K)}
    {c : Fetch K} (hmem : ∀ data ∈ received, data ∈ l) :
    run Fetch.receive (.fetching (segmentPrefix ++ [.segment 0]) []) received = some c ↔
      received <+: l ∧ c = progress segmentPrefix rest l received := by
  induction received using reverseRecOn generalizing c with
  | nil => simp [run, progress, h.ne_nil.symm, eq_comm]
  | append_singleton received data ih =>
    have hin : ∀ d ∈ received, d ∈ l := fun d hd => hmem d (mem_append_left _ hd)
    rw [run_append, Option.bind_eq_some_iff]
    constructor
    · rintro ⟨c', hc', hstep⟩
      obtain ⟨hpre, rfl⟩ := (ih hin).mp hc'
      rw [run, Option.bind_eq_some_iff] at hstep
      obtain ⟨c'', hrec, hlast⟩ := hstep
      obtain rfl := Option.some.inj hlast
      exact (h.receive_iff hpre (hmem _ (by simp))).mp hrec
    · rintro ⟨hpre, rfl⟩
      have hpre' := (prefix_append received [data]).trans hpre
      refine ⟨_, (ih hin).mpr ⟨hpre', rfl⟩, ?_⟩
      rw [run, (h.receive_iff hpre' (hmem _ (by simp))).mpr ⟨hpre, rfl⟩]
      rfl

end

/-- The segments carry the string, and the consumer is done with exactly this string when it has
received all of them, in their order. -/
theorem published_segments_fetched (m : MaxPacketSize) (mPrefix : List (Component K)) (version : K)
    (buffer : List UInt8) :
    let segmentPrefix := mPrefix ++ [.other version]
    let segments := publish m mPrefix version buffer
    (∀ i data, segments[i]? = some data →
      data.name = segmentPrefix ++ [.segment i] ∧ data.content.length ≤ getMaxSegmentSize m ∧
        data.finalBlockId = if i + 1 = segments.length then some (.segment i) else none) ∧
    (segments.map Data.content).flatten = buffer ∧
    (buffer = [] → segments.map Data.content = [[]]) ∧
    ∀ received c, (∀ data ∈ received, data ∈ segments) →
      (run Fetch.receive (.fetching (segmentPrefix ++ [.segment 0]) []) received = some c ↔
        received <+: segments ∧ (received = segments → c = .done buffer) ∧
          (received ≠ segments → c = .fetching (segmentPrefix ++ [.segment received.length])
            (received.map Data.content).flatten)) := by
  intro segmentPrefix segments
  have h : Segments m segmentPrefix 0 buffer segments := publishFrom_segments segmentPrefix 0 buffer
  refine ⟨fun i data hi => ?_, h.contents, ?_, fun received c hmem => ?_⟩
  · simpa using h.numbered hi
  · rintro rfl
    simp [segments, publish, publishFrom]
  · rw [h.run_iff hmem, progress]
    split <;> simp_all

end NfdGateway.Dataset
