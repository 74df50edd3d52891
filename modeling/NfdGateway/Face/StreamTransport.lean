import NfdGateway.Face.LpPacket
import NfdGateway.Lib.Frames
import NfdGateway.Lib.Transition

/-! Receiving from a stream socket: elements are cut out of whatever pieces the stream comes in. -/
namespace NfdGateway.Face

open Transition List Option

inductive TransportState
  | none | up | down | closing | failed | closed
deriving DecidableEq

inductive ErrorCode
  | operationAborted | shutDown | eof | other
deriving DecidableEq

structure StreamTransport where
  state : TransportState := .up
  /-- The first `m_receiveBufferSize` octets of the buffer. -/
  receiveBuffer : Bytes := []
  /-- The size of the read that is pending, if one is. -/
  request : Option ℕ
  /-- The elements passed to `receive`. -/
  received : List Bytes := []

namespace StreamTransport

def construct (maxPacketSize : ℕ) : StreamTransport where
  request := some maxPacketSize

/-- The loop of `handleReceive`, from `offset` on: the last `isOk`, the last `offset`, and the
elements received. It takes less than `fuel` rounds; `none` where the assertion fails. -/
def parseLoop (fromBuffer : Bytes → Option Bytes) (buffer : Bytes) :
    (fuel offset : ℕ) → Option (Bool × ℕ × List Bytes)
  | 0, _ => none
  | fuel + 1, offset =>
    if 0 < buffer.length - offset then
      match fromBuffer (buffer.drop offset) with
      | none => some (false, offset, [])
      | some element =>
        if offset + element.length ≤ buffer.length then
          (parseLoop fromBuffer buffer fuel (offset + element.length)).map fun result =>
            (result.1, result.2.1, element :: result.2.2)
        else none
    else some (true, offset, [])

def processErrorCode (s : StreamTransport) (error : ErrorCode) : StreamTransport :=
  if s.state = .closing ∨ s.state = .failed ∨ s.state = .closed ∨ error = .operationAborted ∨
      error = .shutDown then s
  else { s with state := .failed }

/-- `none` when no read is pending or it did not ask for so much. -/
def handleReceive (fromBuffer : Bytes → Option Bytes) (maxPacketSize : ℕ) (s : StreamTransport)
    (completion : Except ErrorCode Bytes) : Option StreamTransport :=
  match s.request with
  | none => none
  | some size =>
    let s := { s with request := none }
    match completion with
    | .error error => some (s.processErrorCode error)
    | .ok bytes =>
      if size < bytes.length then none
      else
        let buffer := s.receiveBuffer ++ bytes
        (parseLoop fromBuffer buffer (buffer.length + 1) 0).map fun (isOk, offset, elements) =>
          let s := { s with received := s.received ++ elements }
          if isOk = false ∧ buffer.length = maxPacketSize ∧ offset = 0 then
            { s with state := .failed, receiveBuffer := buffer }
          else
            let rest :=
              if 0 < offset then if offset ≠ buffer.length then buffer.drop offset else []
              else buffer
            { s with receiveBuffer := rest, request := some (maxPacketSize - rest.length) }

def step (fromBuffer : Bytes → Option Bytes) (maxPacketSize : ℕ) (s : StreamTransport)
    (bytes : Bytes) : Option StreamTransport :=
  s.handleReceive fromBuffer maxPacketSize (.ok bytes)

variable {C : FrameCode UInt8} {maxPacketSize : ℕ} {s t : StreamTransport} {bytes : Bytes}

lemma parseLoop_eq {buffer : Bytes} {fuel offset : ℕ} (hoffset : offset ≤ buffer.length)
    (hfuel : buffer.length - offset < fuel) :
    ∃ isOk o es, parseLoop C.first buffer fuel offset = some (isOk, o, es) ∧
      C.Splits (buffer.drop offset) es (buffer.drop o) ∧ offset ≤ o ∧ o ≤ buffer.length ∧
      (isOk = true → o = buffer.length) ∧
      (isOk = false → o < buffer.length) := by
  induction fuel generalizing offset with
  | zero => exact absurd hfuel (Nat.not_lt_zero _)
  | succ fuel ih =>
    rw [parseLoop]
    split
    next hpos =>
      split
      next hnone =>
        exact ⟨false, offset, [], rfl, ⟨rfl, nofun, hnone⟩, Nat.le_refl _, hoffset, nofun,
          fun _ => by omega⟩
      rename_i element hsome
      obtain ⟨hframe, rest, hrest⟩ := (C.first_eq_some _ _).mp hsome
      have hne := length_pos_of_ne_nil (C.ne_nil element hframe)
      have hlength := congrArg List.length hrest
      rw [length_append, length_drop] at hlength
      have hle : offset + element.length ≤ buffer.length := by omega
      obtain ⟨isOk, o, es, hloop, hsplits, hle', hend, htrue, hfalse⟩ := ih hle (by omega)
      have hdrop : buffer.drop (offset + element.length) = rest := by
        rw [← drop_drop, ← hrest, drop_left]
      rw [if_pos hle, hloop]
      refine ⟨isOk, o, element :: es, rfl, ?_, by omega, hend, htrue, hfalse⟩
      rw [hdrop] at hsplits
      rw [← hrest]
      exact hsplits.cons hframe
    next hpos =>
      have hall : offset = buffer.length := by omega
      refine ⟨true, offset, [], rfl, ⟨rfl, nofun, ?_⟩, Nat.le_refl _, hoffset, fun _ => hall, nofun⟩
      rw [drop_eq_nil_of_le (by omega)]
      exact C.first_nil

/-- What a transport has made of the stream so far: it waits for more, or the buffer is full and
starts with no element. -/
structure Read (C : FrameCode UInt8) (maxPacketSize : ℕ) (stream : Bytes) (s : StreamTransport) :
    Prop where
  splits : C.Splits stream s.received s.receiveBuffer
  small : ∀ e ∈ s.received, e.length ≤ maxPacketSize
  waits : s.state = .up ∧ s.receiveBuffer.length < maxPacketSize ∧
      s.request = some (maxPacketSize - s.receiveBuffer.length) ∨
    s.state = .failed ∧ s.receiveBuffer.length = maxPacketSize ∧ s.request = none

variable {stream : Bytes} {chunks : List Bytes}

section

variable (h : s.Read C maxPacketSize stream)
include h

lemma Read.handleReceive (hup : s.state = .up)
    (hbytes : bytes.length ≤ maxPacketSize - s.receiveBuffer.length) :
    ∃ t, step C.first maxPacketSize s bytes = some t ∧
      t.Read C maxPacketSize (stream ++ bytes) := by
  obtain ⟨-, hlt, hrequest⟩ | ⟨hfailed, -⟩ := h.waits
  swap
  · exact absurd (hup.symm.trans hfailed) nofun
  unfold step StreamTransport.handleReceive
  rw [hrequest]
  dsimp only
  rw [if_neg (Nat.not_lt.mpr hbytes)]
  have hfull : (s.receiveBuffer ++ bytes).length ≤ maxPacketSize := by
    rw [length_append]
    omega
  generalize hbuffer : s.receiveBuffer ++ bytes = buffer at hfull
  obtain ⟨isOk, o, es, hloop, hsplits, -, ho, htrue, hfalse⟩ :
      ∃ isOk o es, parseLoop C.first buffer (buffer.length + 1) 0 = some (isOk, o, es) ∧ _ :=
    parseLoop_eq (Nat.zero_le _) (Nat.lt_succ_self _)
  have hnew : C.Splits (stream ++ bytes) (s.received ++ es) (buffer.drop o) :=
    h.splits.append (hbuffer ▸ hsplits)
  have hsmall : ∀ e ∈ s.received ++ es, e.length ≤ maxPacketSize := by
    intro e he
    rcases mem_append.mp he with he | he
    · exact h.small e he
    have hle := (sublist_flatten_of_mem he).length_le
    have hlength := congrArg List.length hsplits.eq
    rw [drop_zero, length_append] at hlength
    omega
  rw [hloop]
  refine ⟨_, rfl, ?_⟩
  dsimp only
  split
  next hfail =>
    obtain ⟨-, hmax, rfl⟩ := hfail
    exact ⟨hnew, hsmall, .inr ⟨rfl, hmax, rfl⟩⟩
  rename_i hgoes
  have hrest : (if 0 < o then if o ≠ buffer.length then buffer.drop o else [] else buffer) =
      buffer.drop o := by
    split
    · split
      · rfl
      next hall =>
        rw [not_not.mp hall, drop_length]
    next hnot =>
      rw [Nat.eq_zero_of_not_pos hnot, drop_zero]
  rw [hrest]
  refine ⟨hnew, hsmall, .inl ⟨hup, ?_, rfl⟩⟩
  rw [length_drop]
  cases isOk with
  | true =>
    have hall := htrue rfl
    omega
  | false =>
    have hnot : ¬ (buffer.length = maxPacketSize ∧ o = 0) := fun hboth => hgoes ⟨rfl, hboth⟩
    omega

lemma Read.of_step (hstep : step C.first maxPacketSize s bytes = some t) :
    s.state = .up ∧ bytes.length ≤ maxPacketSize - s.receiveBuffer.length := by
  unfold step StreamTransport.handleReceive at hstep
  obtain ⟨hup, -, hrequest⟩ | ⟨-, -, hrequest⟩ := h.waits
  · rw [hrequest] at hstep
    dsimp only at hstep
    refine ⟨hup, Nat.le_of_not_lt fun hlt => ?_⟩
    rw [if_pos hlt] at hstep
    cases hstep
  · rw [hrequest] at hstep
    cases hstep

lemma Read.run (hrun : run (step C.first maxPacketSize) s chunks = some t) :
    t.Read C maxPacketSize (stream ++ chunks.flatten) := by
  induction chunks generalizing s stream with
  | nil =>
    cases hrun
    rwa [flatten_nil, append_nil]
  | cons bytes chunks ih =>
    obtain ⟨u, hu, hrest⟩ := bind_eq_some_iff.mp hrun
    obtain ⟨hup, hle⟩ := h.of_step hu
    obtain ⟨u', hu', hread⟩ := h.handleReceive hup hle
    obtain rfl := some.inj (hu'.symm.trans hu)
    rw [flatten_cons, ← append_assoc]
    exact ih hread hrest

end

lemma read_construct (C : FrameCode UInt8) (hmax : 0 < maxPacketSize) :
    (construct maxPacketSize).Read C maxPacketSize [] :=
  ⟨C.splits_nil, nofun, .inl ⟨rfl, hmax, rfl⟩⟩

structure Cut (C : FrameCode UInt8) (maxPacketSize : ℕ) (stream : Bytes) (chunks : List Bytes)
    (s : StreamTransport) : Prop where
  run : run (step C.first maxPacketSize) (construct maxPacketSize) chunks = some s
  pieces : chunks.flatten <+: stream
  ends : s.state = .failed ∨ chunks.flatten = stream

lemma Read.eq (hs : s.Read C maxPacketSize stream) (ht : t.Read C maxPacketSize stream) :
    s = t := by
  obtain ⟨hreceived, hbuffer⟩ := hs.splits.unique ht.splits
  cases s with
  | mk state buffer request received =>
  cases t with
  | mk state' buffer' request' received' =>
  have hwaits := hs.waits
  have hwaits' := ht.waits
  dsimp only at hreceived hbuffer hwaits hwaits'
  subst hreceived hbuffer
  obtain ⟨rfl, hlt, rfl⟩ | ⟨rfl, heq, rfl⟩ := hwaits
  · obtain ⟨rfl, -, rfl⟩ | ⟨-, heq, -⟩ := hwaits'
    · rfl
    · exact absurd heq (Nat.ne_of_lt hlt)
  · obtain ⟨-, hlt, -⟩ | ⟨rfl, -, rfl⟩ := hwaits'
    · exact absurd heq (Nat.ne_of_lt hlt)
    · rfl

lemma Read.length_le {more : Bytes} (hs : s.Read C maxPacketSize stream)
    (hfailed : s.state = .failed) (ht : t.Read C maxPacketSize (stream ++ more)) : more = [] := by
  obtain ⟨hup, -⟩ | ⟨-, hfull, -⟩ := hs.waits
  · exact absurd (hup.symm.trans hfailed) nofun
  have hsmall : t.receiveBuffer.length ≤ maxPacketSize := by
    obtain ⟨-, hlt, -⟩ | ⟨-, heq, -⟩ := ht.waits <;> omega
  obtain ⟨es, hes, hsplits⟩ := hs.splits.extend ht.splits
  cases es with
  | nil =>
    have hlength := congrArg List.length hsplits.eq
    simp only [length_append, flatten_nil, length_nil] at hlength
    exact length_eq_zero_iff.mp (by omega)
  | cons e es =>
    -- the next element does not fit into the buffer
    obtain ⟨-, hlt⟩ := hsplits.lt_length hs.splits.rest
    have hle := ht.small e (hes ▸ mem_append_right _ (.head _))
    omega

lemma pieces_eq {chunks' : List Bytes} (hs : s.Read C maxPacketSize chunks.flatten)
    (ht : t.Read C maxPacketSize chunks'.flatten) (h : Cut C maxPacketSize stream chunks s)
    (h' : Cut C maxPacketSize stream chunks' t)
    (hle : chunks.flatten.length ≤ chunks'.flatten.length) :
    chunks.flatten = chunks'.flatten := by
  obtain ⟨more, hmore⟩ := prefix_of_prefix_length_le h.pieces h'.pieces hle
  rcases h.ends with hfailed | hend
  · have hnil := hs.length_le hfailed (hmore ▸ ht)
    rwa [hnil, append_nil] at hmore
  · exact hend.trans (h'.pieces.eq_of_length_le (hend ▸ hle)).symm

def Incomplete (buffer : Bytes) : List Bytes → Prop
  | [] => buffer = []
  | e :: _ => buffer <+: e ∧ buffer.length < e.length

lemma Read.of_elements {es : List Bytes} {more : Bytes} (hmax : 0 < maxPacketSize)
    (h : s.Read C maxPacketSize stream) (hes : ∀ e ∈ es, C.IsFrame e ∧ e.length ≤ maxPacketSize)
    (heq : stream ++ more = es.flatten) :
    s.state = .up ∧ ∃ rest, es = s.received ++ rest ∧ Incomplete s.receiveBuffer rest := by
  have hall := heq ▸ FrameCode.splits_flatten fun e he => (hes e he).1
  obtain ⟨rest, rfl, hsplits⟩ := h.splits.extend hall
  have hrest : Incomplete s.receiveBuffer rest := by
    cases rest with
    | nil => exact (append_eq_nil_iff.mp hsplits.eq).1
    | cons e rest => exact hsplits.lt_length h.splits.rest
  refine ⟨?_, rest, rfl, hrest⟩
  obtain ⟨hup, -⟩ | ⟨-, hfull, -⟩ := h.waits
  · exact hup
  cases rest with
  | nil =>
    rw [show s.receiveBuffer = [] from hrest] at hfull
    exact absurd hfull (Nat.ne_of_lt hmax)
  | cons e rest =>
    have hle := (hes e (mem_append_right _ (.head _))).2
    have hlt := hrest.2
    omega

/-- However a stream is cut, the same elements are received, and the transport fails after the
same octets or not at all. It receives a sequence of elements that fit into the buffer as they
are, and it always has room for the next read. -/
theorem stream_pieces_irrelevant (C : FrameCode UInt8) {maxPacketSize : ℕ}
    (hmax : 0 < maxPacketSize) :
    (∀ stream chunks chunks' s s', Cut C maxPacketSize stream chunks s →
      Cut C maxPacketSize stream chunks' s' → s = s' ∧ chunks.flatten = chunks'.flatten) ∧
    (∀ chunks s,
      run (step C.first maxPacketSize) (construct maxPacketSize) chunks = some s →
      s.state = .up → (∃ size, s.request = some size ∧ 0 < size) ∧
        ∀ bytes, bytes.length ≤ maxPacketSize - s.receiveBuffer.length →
          (step C.first maxPacketSize s bytes).isSome) ∧
    ∀ es chunks s, (∀ e ∈ es, C.IsFrame e ∧ e.length ≤ maxPacketSize) →
      run (step C.first maxPacketSize) (construct maxPacketSize) chunks = some s →
      chunks.flatten <+: es.flatten →
      s.state = .up ∧ chunks.flatten = s.received.flatten ++ s.receiveBuffer ∧
        (∃ rest, es = s.received ++ rest ∧ Incomplete s.receiveBuffer rest) ∧
        (chunks.flatten = es.flatten → s.received = es ∧ s.receiveBuffer = []) := by
  have hread : ∀ chunks s,
      run (step C.first maxPacketSize) (construct maxPacketSize) chunks = some s →
      s.Read C maxPacketSize chunks.flatten :=
    fun chunks s hrun => (read_construct C hmax).run hrun
  refine ⟨?_, ?_, ?_⟩
  · intro stream chunks chunks' s s' h h'
    have hflat : chunks.flatten = chunks'.flatten := by
      -- the shorter one has failed, or has come to the end
      rcases Nat.le_total chunks.flatten.length chunks'.flatten.length with hle | hle
      · exact pieces_eq (hread _ _ h.run) (hread _ _ h'.run) h h' hle
      · exact (pieces_eq (hread _ _ h'.run) (hread _ _ h.run) h' h hle).symm
    exact ⟨(hread _ _ h.run).eq (hflat ▸ hread _ _ h'.run), hflat⟩
  · intro chunks s hrun hup
    have hs := hread _ _ hrun
    obtain ⟨-, hlt, hrequest⟩ | ⟨hfailed, -⟩ := hs.waits
    · refine ⟨⟨_, hrequest, Nat.sub_pos_of_lt hlt⟩, fun bytes hbytes => ?_⟩
      obtain ⟨t, ht, -⟩ := hs.handleReceive hup hbytes
      rw [ht]
      rfl
    · exact absurd (hup.symm.trans hfailed) nofun
  · rintro es chunks s hes hrun ⟨more, heq⟩
    have hs := hread _ _ hrun
    obtain ⟨hup, hrest⟩ := hs.of_elements hmax hes heq
    refine ⟨hup, hs.splits.eq, hrest, fun hall => ?_⟩
    exact hs.splits.unique (hall ▸ FrameCode.splits_flatten fun e he => (hes e he).1)

def octetElements : FrameCode UInt8 where
  IsFrame e := isElement e = true
  first
    | type :: length :: rest =>
      if length.toNat ≤ rest.length then some (type :: length :: rest.take length.toNat) else none
    | _ => none
  first_eq_some := by
    intro buffer frame
    match buffer, frame with
    | [], frame | [_], frame =>
      refine iff_of_false nofun ?_
      rintro ⟨hframe, hpre⟩
      match frame with
      | [] | [_] => cases hframe
      | _ :: _ :: _ => simpa using hpre.length_le
    | _ :: _ :: _, [] | _ :: _ :: _, [_] =>
      refine iff_of_false ?_ fun h => nomatch h.1
      split <;> simp
    | type :: length :: rest, type' :: length' :: value =>
      simp only [cons_prefix_cons, isElement, decide_eq_true_eq]
      constructor
      · intro h
        split at h
        next hle =>
          obtain ⟨rfl, rfl, rfl⟩ : type = type' ∧ length = length' ∧ _ = value := by simpa using h
          exact ⟨length_take_of_le hle, rfl, rfl, take_prefix ..⟩
        · cases h
      · rintro ⟨hlength, rfl, rfl, hpre⟩
        rw [if_pos (hlength ▸ hpre.length_le), ← hlength, ← prefix_iff_eq_take.mp hpre]
  ne_nil := by
    rintro _ h rfl
    cases h

/-- Two ways to receive two elements. -/
theorem stream_pieces_irrelevant_satisfied :
    ∃ s, Cut octetElements 4 [6, 1, 9, 7, 0] [[6, 1], [9, 7], [0]] s ∧
      Cut octetElements 4 [6, 1, 9, 7, 0] [[6], [1, 9, 7], [0]] s ∧
      s.received = [[6, 1, 9], [7, 0]] := by
  obtain ⟨s, hs, hreceived⟩ : ∃ s, Cut octetElements 4 [6, 1, 9, 7, 0] [[6, 1], [9, 7], [0]] s ∧
      s.received = [[6, 1, 9], [7, 0]] :=
    ⟨_, ⟨rfl, prefix_rfl, .inr rfl⟩, rfl⟩
  obtain ⟨s', hs'⟩ : ∃ s', Cut octetElements 4 [6, 1, 9, 7, 0] [[6], [1, 9, 7], [0]] s' :=
    ⟨_, ⟨rfl, prefix_rfl, .inr rfl⟩⟩
  obtain ⟨rfl, -⟩ := (stream_pieces_irrelevant octetElements (by decide)).1 _ _ _ _ _ hs hs'
  exact ⟨s, hs, hs', hreceived⟩

end StreamTransport

end NfdGateway.Face
