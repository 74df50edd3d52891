import Mathlib

/-! The reader of the serial port: how it finds frames in what `read()` returns and dispatches the
messages in them. -/
namespace NfdGateway.Serial

def shortestDataFrameLen : ℕ := 25

def startMark : List UInt8 := [0x7e, 0x45, 0x00, 0x00, 0x00, 0x00, 0x01]

def delimiter : UInt8 := 0x7e

inductive MessageType
  | data
  | mapping
  | topology
deriving DecidableEq

namespace MessageType

def code : MessageType → UInt8
  | .data => 3
  | .mapping => 4
  | .topology => 5

def frameLen : MessageType → ℕ
  | .data => 28
  | .mapping => 25
  | .topology => 37

def ofCode (b : UInt8) : Option MessageType :=
  if b = data.code then some .data
  else if b = topology.code then some .topology
  else if b = mapping.code then some .mapping
  else none

end MessageType

structure Point where
  x : UInt16
  y : UInt16
deriving DecidableEq

structure Location where
  leftUp : Point
  rightDown : Point
deriving DecidableEq

/-- `Msg`: the message type, the name of the interest with its area, time period and type of data,
and the value. -/
structure Msg where
  msgType : UInt16
  ability : Location
  startTime : UInt16
  endTime : UInt16
  dataType : UInt16
  data : UInt16
deriving DecidableEq

structure TopoMsg where
  num : UInt16
  data : List UInt16
deriving DecidableEq

structure NodeInfo where
  coordinate : Location
  nodeID : UInt16
deriving DecidableEq

inductive Message
  | data (msg : Msg)
  | mapping (node : NodeInfo)
  | topology (msg : TopoMsg)
deriving DecidableEq

/-! The packed structures, in little-endian order. -/

def word (frame : List UInt8) (i : ℕ) : UInt16 :=
  (frame.getD i 0).toUInt16 + 256 * (frame.getD (i + 1) 0).toUInt16

def location (frame : List UInt8) (i : ℕ) : Location :=
  ⟨⟨word frame i, word frame (i + 2)⟩, ⟨word frame (i + 4), word frame (i + 6)⟩⟩

def msg (frame : List UInt8) : Msg :=
  { msgType := word frame 10
    ability := location frame 12
    startTime := word frame 20
    endTime := word frame 22
    dataType := word frame 24
    data := word frame 26 }

def topoMsg (frame : List UInt8) : TopoMsg :=
  { num := word frame 12, data := (List.range 10).map fun j => word frame (14 + 2 * j) }

def nodeInfo (frame : List UInt8) : NodeInfo :=
  { coordinate := location frame 12, nodeID := word frame 20 }

def message (frame : List UInt8) : MessageType → Message
  | .data => .data (msg frame)
  | .mapping => .mapping (nodeInfo frame)
  | .topology => .topology (topoMsg frame)

def dispatch (frame : List UInt8) : MessageType → List Message
  | .data => if (msg frame).msgType = 3 then [message frame .data] else []
  | t => [message frame t]

/-! One turn of the loop. The buffer `usbbuf` holds `total_read` bytes; they are given as a
list. -/

def readUntil (n : ℕ) (usbbuf : List UInt8) :
    List (List UInt8) → Option (List UInt8 × List (List UInt8))
  | [] => if usbbuf.length < n then none else some (usbbuf, [])
  | r :: reads =>
    if usbbuf.length < n then readUntil n (usbbuf ++ r) reads else some (usbbuf, r :: reads)

def findStartMark (usbbuf : List UInt8) : Option ℕ :=
  (List.range (usbbuf.length - 7)).find? fun i => startMark.isPrefixOf (usbbuf.drop i)

def keepTail (usbbuf : List UInt8) : List UInt8 :=
  match ((List.range 7).map (usbbuf.length - 1 - ·)).find? (usbbuf[·]? = some delimiter) with
  | none => []
  | some movePos => usbbuf.drop movePos

/-- What is left in the buffer, what was dispatched, and the results of `read()` still to come.
`memset` clears what an earlier turn has left. -/
def turn (usbbuf : List UInt8) (reads : List (List UInt8)) :
    Option (List UInt8 × List Message × List (List UInt8)) :=
  (readUntil shortestDataFrameLen (usbbuf.map fun _ => 0) reads).bind fun (usbbuf, reads) =>
    match findStartMark usbbuf with
    | none => some (keepTail usbbuf, [], reads)
    | some i =>
      (readUntil (i + shortestDataFrameLen) usbbuf reads).bind fun (usbbuf, reads) =>
        match MessageType.ofCode (usbbuf.getD (i + 10) 0) with
        | none => some (keepTail usbbuf, [], reads)
        | some t =>
          (readUntil (i + t.frameLen) usbbuf reads).bind fun (usbbuf, reads) =>
            some (keepTail usbbuf, dispatch (usbbuf.drop i) t, reads)

def readLoop : ℕ → List UInt8 → List (List UInt8) → List Message
  | 0, _, _ => []
  | fuel + 1, usbbuf, reads =>
    match turn usbbuf reads with
    | none => []
    | some (usbbuf, messages, reads) => messages ++ readLoop fuel usbbuf reads

def readData (reads : List (List UInt8)) : List Message := readLoop (reads.length + 1) [] reads

end NfdGateway.Serial
