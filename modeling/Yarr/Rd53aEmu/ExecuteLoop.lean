import Mathlib.Data.List.Basic
import Yarr.Rd53.GlobalCfg
import Yarr.Rd53.Rd53a

/-!
# The command loop of the RD53A emulator

The words of the Tx ring buffer are cut into halves. A header takes the halves
behind it that its command needs; a trigger answers with one event for each
bunch crossing of its pattern.
-/

namespace Yarr.Rd53aEmu

open Rd53 Rd53aGlobalCfg

/-- `Triggers`, the first eight bits of a trigger, and the pattern that they stand for. -/
def triggerPatterns : List (UInt8 × UInt8) :=
  [(0x2b, 0x1), (0x2d, 0x2), (0x2e, 0x3), (0x33, 0x4), (0x35, 0x5), (0x36, 0x6), (0x39, 0x7),
    (0x3a, 0x8), (0x3c, 0x9), (0x4b, 0xa), (0x4d, 0xb), (0x4e, 0xc), (0x53, 0xd), (0x55, 0xe),
    (0x56, 0xf)]

/-- The entries of `eightToFive` that are not `0xFF`. -/
def eightToFive : List (UInt8 × UInt8) :=
  [(0x6A, 0), (0x6C, 1), (0x71, 2), (0x72, 3), (0x74, 4), (0x8B, 5), (0x8D, 6), (0x8E, 7),
    (0x93, 8), (0x95, 9), (0x96, 10), (0x99, 11), (0x9A, 12), (0x9C, 13), (0xA3, 14), (0xA5, 15),
    (0xA6, 16), (0xA9, 17), (0xAA, 18), (0xAC, 19), (0xB1, 20), (0xB2, 21), (0xB4, 22), (0xC3, 23),
    (0xC5, 24), (0xC6, 25), (0xC9, 26), (0xCA, 27), (0xCC, 28), (0xD1, 29), (0xD2, 30), (0xD4, 31)]

/-- `none`: the assertion fails. -/
def to5bit (i : UInt8) : Option UInt8 := eightToFive.lookup i

def cmdTo5bitPair (command : UInt16) : Option (UInt8 × UInt8) :=
  match to5bit ((command &&& 0xFF00) >>> 8).toUInt8, to5bit (command &&& 0x00FF).toUInt8 with
  | some first, some second => some (first, second)
  | _, _ => none

/-- `Commands` that have an entry in `commandFuncs`. -/
inductive Header where
  | ecr
  | bcr
  | globalPulse
  | cal
  | wrReg
  | rdReg
  | noop
  | sync
  | zero
  deriving DecidableEq

def commandFuncs : List (UInt16 × Header) :=
  [(0x6666, .wrReg), (0x6565, .rdReg), (0x6363, .cal), (0x5a5a, .ecr), (0x5959, .bcr),
    (0x0000, .zero), (0x5c5c, .globalPulse), (0x6969, .noop), (0x817e, .sync)]

/-- What the loop has recognised. -/
inductive Recognised where
  | command (header : Header)
  | read (header : Header) (id address data : UInt32)
  | trigger (pattern tag : UInt8)
  deriving DecidableEq

structure Event where
  header : UInt32
  words : List UInt32

/--
What else an emulator works with: the registers, as the pool has left them when
a command is handled, and the hit words of an event.
-/
structure Surroundings where
  m_feCfg : Nat → Words numRegs
  outWords : Nat → List UInt32

structure Emu where
  m_txRingBuffer : List UInt32
  commandStream : List UInt16
  calTiming : UInt32
  injectTiming : UInt32
  l1id : UInt32
  bcid : UInt32
  /-- The tasks of the pool: data and address. -/
  enqueued : List (UInt16 × UInt32)
  /-- The words that answer register reads. -/
  regFrames : List (UInt32 × UInt32)
  events : List Event
  recognised : List Recognised

namespace Emu

/-- `none`: `read32` waits for a word. -/
def retrieve (s : Emu) : Option Emu :=
  match s.m_txRingBuffer with
  | [] => none
  | d :: ring =>
      some { s with
        m_txRingBuffer := ring
        commandStream := s.commandStream ++
          [((d &&& 0xFFFF0000) >>> 16).toUInt16, (d &&& 0x0000FFFF).toUInt16] }

/-- `while (commandStream.size() < fieldSize) retrieve()`, a word at a time. -/
def retrieveUntil (fieldSize : Nat) : Nat → Emu → Option Emu
  | 0, s => some s
  | n + 1, s =>
      if s.commandStream.length < fieldSize then s.retrieve.bind (retrieveUntil fieldSize n)
      else some s

def fieldSize : Header → Nat
  | .globalPulse => 1
  | .cal | .rdReg => 2
  | .wrReg => 3
  | _ => 0

/-- The fields in the halves behind a header: id, address and data. -/
def fields (command : Header) (halves : List UInt16) : Option (UInt32 × UInt32 × UInt32) := do
  let bp1 ← halves[0]?.bind cmdTo5bitPair
  let id := (bp1.1 >>> 1).toUInt32
  if command = .globalPulse then pure (id, 0, (bp1.2 >>> 1).toUInt32)
  else if command = .wrReg ∧ bp1.1 &&& 0x1 ≠ 0 then pure (id, 0, 0)
  else
    let bp2 ← halves[1]?.bind cmdTo5bitPair
    let address := (bp1.2.toUInt32 <<< 4) + (bp2.1 >>> 1).toUInt32
    if command = .rdReg then pure (id, address, 0)
    else if command = .wrReg then
      let bp3 ← halves[2]?.bind cmdTo5bitPair
      pure (id, address, ((bp2.1 &&& 0x1).toUInt32 <<< 15) + (bp2.2.toUInt32 <<< 10) +
        (bp3.1.toUInt32 <<< 5) + bp3.2.toUInt32)
    else
      pure (id, 0, ((bp1.1 &&& 0x1).toUInt32 <<< 15) + (bp1.2.toUInt32 <<< 10) +
        (bp2.1.toUInt32 <<< 5) + bp2.2.toUInt32)

/-- Three words are more than enough for any command. -/
def readIDAddrData (s : Emu) (command : Header) : Option ((UInt32 × UInt32 × UInt32) × Emu) := do
  let s ← retrieveUntil (fieldSize command) 3 s
  let output ← fields command s.commandStream
  pure (output, { s with commandStream := s.commandStream.drop (fieldSize command) })

def assembleRegFrame (m_cfg : Words numRegs) (address : UInt32) (haddress : address.toNat < numRegs)
    (zz status : UInt32) : UInt32 × UInt32 :=
  let regVal := m_cfg[address.toNat].toUInt32
  ((((zz <<< 4) ||| status) <<< 20) ||| (address <<< 10) ||| ((regVal &&& 0xFFC0) >>> 6),
    (regVal &&& 0x003F) <<< 26)

variable (w : Surroundings)

/-- The registers while the command at hand is handled. -/
def registers (s : Emu) : Words numRegs := w.m_feCfg s.recognised.length

def log (s : Emu) (r : Recognised) : Emu := { s with recognised := s.recognised ++ [r] }

def doWrReg (s : Emu) : Option Emu := do
  let (input, s) ← s.readIDAddrData .wrReg
  let s := s.log (.read .wrReg input.1 input.2.1 input.2.2)
  pure { s with enqueued := s.enqueued ++ [(input.2.2.toUInt16, input.2.1)] }

/-- `none` behind the frame: `m_cfg.at` throws. -/
def doRdReg (s : Emu) : Option Emu := do
  let (input, s) ← s.readIDAddrData .rdReg
  if haddress : input.2.1.toNat < numRegs then
    let frame := assembleRegFrame (s.registers w) input.2.1 haddress 0x99 0x0
    let s := s.log (.read .rdReg input.1 input.2.1 input.2.2)
    pure { s with regFrames := s.regFrames ++ [frame] }
  else none

def doCal (s : Emu) : Option Emu := do
  let (input, s) ← s.readIDAddrData .cal
  let injectTiming := (LatencyConfig.read (s.registers w)).toUInt32
  let s := s.log (.read .cal input.1 input.2.1 input.2.2)
  pure { s with
    calTiming := 0
    injectTiming := injectTiming
    bcid := s.bcid + 12 }

/-- `pop_front` of the half behind the header. -/
def doGlobalPulse (s : Emu) : Option Emu :=
  match s.commandStream with
  | [] => none
  | _ :: rest => some { s.log (.command .globalPulse) with commandStream := rest }

def doCommand (s : Emu) : Header → Option Emu
  | .wrReg => s.doWrReg
  | .rdReg => s.doRdReg w
  | .cal => s.doCal w
  | .globalPulse => s.doGlobalPulse
  | .ecr => some { s.log (.command .ecr) with l1id := 0 }
  | .bcr => some { s.log (.command .bcr) with bcid := 0 }
  | .noop => some { s.log (.command .noop) with calTiming := s.calTiming + 4, bcid := s.bcid + 4 }
  | .zero => some (s.log (.command .zero))
  | .sync => some (s.log (.command .sync))

/-- Fields of a hit word without a hit are filled with `0xf`. -/
def fillToT (w : UInt32) : UInt32 :=
  let w := if w &&& 0x000f = 0 then w ||| 0x000f else w
  let w := if (w &&& 0x00f0) >>> 4 = 0 then w ||| 0x00f0 else w
  let w := if (w &&& 0x0f00) >>> 8 = 0 then w ||| 0x0f00 else w
  if (w &&& 0xf000) >>> 12 = 0 then w ||| 0xf000 else w

def outputLoop (s : Emu) (tag : UInt8) : Event where
  header := ((0x1 : UInt32) <<< 25) ||| ((s.l1id &&& 0x1f) <<< 20) |||
    ((tag.toUInt32 &&& 0x1f) <<< 15) ||| (s.bcid &&& 0x7fff)
  words := ((w.outWords s.events.length).filter (· ≠ 0)).map fillToT

/-- One bunch crossing of a trigger. -/
def crossing (pattern tag : UInt8) (s : Emu) (iBC : Nat) : Emu :=
  if (pattern >>> UInt8.ofNat (3 - iBC)) &&& 0x1 ≠ 0 then
    { s with
      events := s.events ++ [s.outputLoop w tag]
      calTiming := s.calTiming + 1
      bcid := s.bcid + 1 }
  else s

def doTrigger (s : Emu) (pattern tag : UInt8) : Emu :=
  let s := (List.range 4).foldl (crossing w pattern tag) (s.log (.trigger pattern tag))
  { s with l1id := s.l1id + 1 }

/-- What the loop does with the half at the front, which is taken off before. -/
def handle (s : Emu) (front : UInt16) : Option Emu :=
  match commandFuncs.lookup front with
  | some header => s.doCommand w header
  | none =>
      match triggerPatterns.lookup (front >>> 8).toUInt8 with
      | some pattern => some (s.doTrigger w pattern (front &&& 0x00ff).toUInt8)
      | none => none

/-- One turn of `executeLoop`. `none`: the program ends, or waits inside a command. -/
def executeLoop (s : Emu) : Option Emu :=
  if s.m_txRingBuffer.isEmpty then some s
  else
    (if s.commandStream.isEmpty then s.retrieve else some s).bind fun s =>
      match s.commandStream with
      | [] => none
      | front :: rest => Emu.handle w { s with commandStream := rest } front

end Emu

end Yarr.Rd53aEmu
