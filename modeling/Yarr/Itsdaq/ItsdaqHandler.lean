import Mathlib.Data.UInt
import Yarr.Core.Delimited

/-!
# Reading what the ITSDAQ firmware sends

A data packet of the network carries words of eight bytes for one stream: a byte of
flags for control bytes, and seven bytes, or a time stamp. The words between two
time stamps are gathered and read together, and so are those before the end of a
packet of the network.
-/

namespace Yarr.Itsdaq

inductive Fault where
  | outside
  | overflow

structure RawData where
  adr : UInt32
  buf : List UInt32

/-- What arrives: words in the order of the network, and whether a single byte follows. -/
structure Datagram where
  words : List UInt16
  odd : Bool

def Datagram.output_bytes (d : Datagram) : Nat := 2 * d.words.length + d.odd.toNat

/-- The members that outlast a packet. -/
structure ItsdaqPrivate where
  latest_status_regs : List UInt16
  latest_sys_status_regs : List UInt16
  rawData : List RawData
  partial_buffer : List UInt64

/-- A word of what was received. -/
def readWord (buf16 : List UInt16) (i : Nat) : Except Fault UInt16 :=
  match buf16[i]? with
  | some w => .ok w
  | none => .error .outside

/-! ## `QueueData` -/

def RawData.resize (d : RawData) (n : Nat) : RawData :=
  { d with buf := d.buf.take n ++ List.replicate (n - d.buf.length) 0 }

/-- An assignment to one word. -/
def RawData.assign (d : RawData) (i : Nat) (f : UInt32 → UInt32) : Except Fault RawData :=
  if i < d.buf.length then .ok { d with buf := d.buf.modify i f } else .error .outside

/-- New data, with the first word set to zero. -/
def newData (stream : UInt16) (len32 : Nat) : Except Fault RawData :=
  (⟨stream.toUInt32, List.replicate len32 0⟩ : RawData).assign 0 fun _ => 0

/-- Data under construction; what is only looked at for the log is left out. -/
structure Reading where
  data : RawData
  buf_off : Nat
  pushed : List RawData

/-- The seven bytes of a word, and which of them are for control. -/
def bytesOf (word : UInt64) : List (Bool × UInt8) :=
  let map := (word >>> 56).toUInt8
  [6, 5, 4, 3, 2, 1, 0].map fun m =>
    (decide (map &&& ((1 : UInt8) <<< UInt8.ofNat m) ≠ 0), (word >>> UInt64.ofNat (m * 8)).toUInt8)

def readByte (stream : UInt16) (len32 : Nat) (r : Reading) (b : Bool × UInt8) :
    Except Fault Reading :=
  if b.1 then
    if b.2 = 0xdc then
      (newData stream len32).map fun data =>
        ⟨data, 0, r.pushed ++ [r.data.resize ((r.buf_off + 3) / 4)]⟩
    else .ok r
  else
    (r.data.assign (r.buf_off / 4) fun w =>
      w ||| (b.2.toUInt32 <<< UInt32.ofNat (r.buf_off % 4 * 8))).bind fun data =>
        if (r.buf_off + 1) % 4 = 0 then
          (data.assign ((r.buf_off + 1) / 4) fun _ => 0).map fun data =>
            ⟨data, r.buf_off + 1, r.pushed⟩
        else .ok ⟨data, r.buf_off + 1, r.pushed⟩

/-- The words that were gathered. What has no end is queued as well. -/
def readPartial (stream : UInt16) (partial_buffer : List UInt64) : Except Fault (List RawData) :=
  let len32 := 2 * partial_buffer.length
  (newData stream len32).bind fun data =>
    ((partial_buffer.flatMap bytesOf).foldlM (readByte stream len32) ⟨data, 0, []⟩).map fun r =>
      if 0 < r.buf_off then r.pushed ++ [r.data.resize ((r.buf_off + 3) / 4)] else r.pushed

def flush (stream : UInt16) (h : ItsdaqPrivate) : Except Fault ItsdaqPrivate :=
  (readPartial stream h.partial_buffer).map fun pushed =>
    { h with rawData := h.rawData ++ pushed, partial_buffer := [] }

/-- The length is only tested against the number of the word. -/
def get64 (buf16 : List UInt16) (start : Nat) (len : UInt64) (i : Nat) : Except Fault UInt64 :=
  if len.toNat ≤ i then .ok 0
  else
    (readWord buf16 (start + (i * 4 + 3))).bind fun a =>
      (readWord buf16 (start + (i * 4 + 4))).bind fun b =>
        (readWord buf16 (start + (i * 4 + 5))).bind fun c =>
          (readWord buf16 (start + (i * 4 + 6))).map fun d =>
            (a.toUInt64 <<< 48) ||| (b.toUInt64 <<< 32) ||| (c.toUInt64 <<< 16) ||| d.toUInt64

def isTimestamp (word : UInt64) : Bool := (word >>> 60) &&& 0xf == 0xf

/-- The words from `i` on. The counter is an `int`; a time stamp right behind the last one that
was met does not end anything. -/
def queueLoop (stream : UInt16) (get : Nat → Except Fault UInt64) (wordCount : Nat) :
    Nat → Nat → Int → ItsdaqPrivate → Except Fault ItsdaqPrivate
  | 0, _, _, h => .ok h
  | n + 1, i, startOffset, h =>
      if 2 ^ 31 ≤ i then .error .overflow
      else
        (get i).bind fun thisWord =>
          if isTimestamp thisWord then
            if startOffset = i - 1 then queueLoop stream get wordCount n (i + 1) i h
            else (flush stream h).bind fun h => queueLoop stream get wordCount n (i + 1) i h
          else
            let h := { h with partial_buffer := h.partial_buffer ++ [thisWord] }
            if i ≠ wordCount - 1 then queueLoop stream get wordCount n (i + 1) startOffset h
            else (flush stream h).bind fun h => queueLoop stream get wordCount n (i + 1) i h

def ntohs (w : UInt16) : UInt16 := (w >>> 8) ||| (w <<< 8)

/-- Three words stand before the data and two behind it. -/
def QueueData (buf16 : List UInt16) (start : Nat) (len : UInt64) (h : ItsdaqPrivate) :
    Except Fault ItsdaqPrivate :=
  (get64 buf16 start len 0).bind fun _ =>
    (readWord buf16 start).bind fun stream =>
      let wordCount := ((len - (3 + 2)) / 4).toNat
      queueLoop (ntohs stream) (get64 buf16 start len) wordCount wordCount 0 (-1) h

/-! ## `ReceiverMain` -/

/-- Some words of what was received. -/
def readWords (buf16 : List UInt16) : Nat → Nat → Except Fault (List UInt16)
  | 0, _ => .ok []
  | n + 1, i => (readWord buf16 i).bind fun w => (readWords buf16 n (i + 1)).map (w :: ·)

def acks : List UInt16 := [0x50, 0x10, 0x78, 0xf2]

def reports : List UInt16 := [0x19, 0x15, 0xf9]

/-- What is done with one packet. -/
def receive (d : Datagram) (h : ItsdaqPrivate) : Except Fault ItsdaqPrivate :=
  let size := UInt64.ofNat (d.output_bytes / 2)
  (readWord d.words 4).bind fun opcode =>
    if opcode ∈ acks then .ok h
    else if opcode ∈ reports then
      (readWords d.words (size - 7).toNat 7).map fun regs =>
        { h with
          latest_status_regs := if opcode = 0x19 then regs else h.latest_status_regs
          latest_sys_status_regs := if opcode = 0xf9 then regs else h.latest_sys_status_regs }
    else if d.output_bytes < 7 * 2 then .ok h
    else if opcode &&& 0xf000 ≠ 0xd000 then .ok h
    else QueueData d.words 7 (size - (7 + 1)) h

def ReceiverMain (h : ItsdaqPrivate) (received : List Datagram) : Except Fault ItsdaqPrivate :=
  received.foldlM (fun h d => receive d h) h

/-- Before the first packet. -/
def start : ItsdaqPrivate := ⟨[], [], [], []⟩

end Yarr.Itsdaq
