import NfdGateway.Serial.Crc
import NfdGateway.Serial.ReadData

/-! The frames that are written to the serial port. -/
namespace NfdGateway.Serial

open List

structure InterestName where
  ability : Location
  startTime : UInt16
  endTime : UInt16
  dataType : UInt16

def wordBytes (v : BitVec 16) : List (BitVec 8) := [v.setWidth 8, (v >>> 8).setWidth 8]

def InterestName.bytes (n : InterestName) : List (BitVec 8) :=
  [n.ability.leftUp.x, n.ability.leftUp.y, n.ability.rightDown.x, n.ability.rightDown.y,
    n.startTime, n.endTime, n.dataType].flatMap fun v => wordBytes v.toBitVec

/-- The packet between its first byte and the checksum: the rest of the head, the addresses, length,
group and handler, and the message, whose `data` stays 0. -/
def packetBody (interest : InterestName) (type : UInt16) : List (BitVec 8) :=
  [0x44, 0x26, 0x00] ++ wordBytes 0x0100 ++ wordBytes 0x0000 ++ [0x12, 0x22, 0x03] ++
    (wordBytes type.toBitVec ++ interest.bytes) ++ wordBytes 0

def packet (interest : InterestName) (type : UInt16) : List (BitVec 8) :=
  let body := packetBody interest type
  0x7e :: (body ++ wordBytes (crccal body) ++ [0x7e])

/-- What is handed to `write()`, given its results: it is tried again after up to five failures. -/
def usbWrite (interest : InterestName) (type : UInt16) : ℕ → List ℤ → List (List (BitVec 8))
  | _, [] => []
  | arq, nread :: results => packet interest type ::
    if nread = -1 ∧ arq < 5 then usbWrite interest type (arq + 1) results else []

def Delimited (frame : List (BitVec 8)) : Prop :=
  ∃ body, frame = 0x7e :: (body ++ [0x7e]) ∧ 0x7e ∉ body

lemma delimited_iff {body : List (BitVec 8)} :
    Delimited (0x7e :: (body ++ [0x7e])) ↔ 0x7e ∉ body := by
  constructor
  · rintro ⟨body', heq, hnot⟩
    rwa [append_cancel_right (cons.inj heq).2]
  · exact fun hnot => ⟨body, rfl, hnot⟩

lemma eq_packet_of_mem {interest : InterestName} {type : UInt16} {arq : ℕ} {results : List ℤ}
    {frame : List (BitVec 8)} (h : frame ∈ usbWrite interest type arq results) :
    frame = packet interest type := by
  induction results generalizing arq with
  | nil => cases h
  | cons nread results ih =>
    rcases mem_cons.mp h with rfl | h
    · rfl
    split at h
    · exact ih h
    · cases h

/-- The delimiter is not inside of a frame unless it is a byte of the message or of the remainder of
its packet, the bits of which go through the register of `X ^ 16 + X ^ 12 + X ^ 5 + 1`. -/
theorem frames_delimited_iff (interest : InterestName) (type : UInt16) (nread : ℤ)
    (results : List ℤ) :
    (∀ frame ∈ usbWrite interest type 0 (nread :: results), Delimited frame) ↔
      0x7e ∉ wordBytes type.toBitVec ++ interest.bytes ∧
        0x7e ∉ wordBytes ((bufferBits (packetBody interest type)).foldl
          (ShiftRegister.step 0x1021) 0) := by
  have hpacket : (∀ frame ∈ usbWrite interest type 0 (nread :: results), Delimited frame) ↔
      Delimited (packet interest type) :=
    ⟨fun h => h _ (.head _), fun h frame hframe => eq_packet_of_mem hframe ▸ h⟩
  -- the bytes that are the same in every packet are none
  have hfixed : (0x7e : BitVec 8) ∉ [0x44, 0x26, 0x00] ++ wordBytes 0x0100 ++ wordBytes 0x0000 ++
      [0x12, 0x22, 0x03] ∧ (0x7e : BitVec 8) ∉ wordBytes 0 := by decide
  rw [hpacket, packet, delimited_iff, crccal_eq_foldl_step, mem_append, not_or]
  refine and_congr_left fun _ => ?_
  rw [packetBody, mem_append, mem_append, not_or, not_or]
  simp only [hfixed, not_false_eq_true, true_and, and_true]

/-- An Interest for the area from (126,9) to (200,1). -/
theorem delimiter_inside : ¬ Delimited (packet ⟨⟨⟨126, 9⟩, ⟨200, 1⟩⟩, 0, 5, 1⟩ 2) := by
  rw [packet, delimited_iff, not_not]
  decide

end NfdGateway.Serial
