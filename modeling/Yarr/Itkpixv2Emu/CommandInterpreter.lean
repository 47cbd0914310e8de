import Mathlib.Data.UInt
import Yarr.Core.Indices

/-!
# Commands of ITKPIXV2 as the emulator names them

The headers, the command that the interpreter hands on, and the look-up tables
for the symbols of a command.
-/

namespace Yarr.Itkpixv2Emu

namespace Commands

abbrev Sync : UInt8 := 0x81
abbrev PLLlock : UInt8 := 0xAA
abbrev Clear : UInt8 := 0x5A
abbrev GlobalPulse : UInt8 := 0x5C
abbrev Cal : UInt8 := 0x63
abbrev WrReg : UInt8 := 0x66
abbrev RdReg : UInt8 := 0x65

end Commands

/-- A command as the interpreter hands it on. -/
structure Cmd where
  header : UInt8
  id : UInt8
  address : UInt32
  data : UInt32
  deriving DecidableEq

def lut8to5Table : List (UInt8 × UInt8) :=
  [(0x6A, 0x00), (0x6C, 0x01), (0x71, 0x02), (0x72, 0x03), (0x74, 0x04), (0x8B, 0x05),
   (0x8D, 0x06), (0x8E, 0x07), (0x93, 0x08), (0x95, 0x09), (0x96, 0x0A), (0x99, 0x0B),
   (0x9A, 0x0C), (0x9C, 0x0D), (0xA3, 0x0E), (0xA5, 0x0F), (0xA6, 0x10), (0xA9, 0x11),
   (0x59, 0x12), (0xAC, 0x13), (0xB1, 0x14), (0xB2, 0x15), (0xB4, 0x16), (0xC3, 0x17),
   (0xC5, 0x18), (0xC6, 0x19), (0xC9, 0x1A), (0xCA, 0x1B), (0xCC, 0x1C), (0xD1, 0x1D),
   (0xD2, 0x1E), (0xD4, 0x1F)]

/-- `operator[]` enters 0 for a symbol that is not in the map. -/
def lut8to5 (symbol : UInt8) : UInt8 := (lut8to5Table.lookup symbol).getD 0

def triggerCommands : List UInt8 :=
  [0x2B, 0x2D, 0x2E, 0x33, 0x35, 0x36, 0x39, 0x3A, 0x3C, 0x4B, 0x4D, 0x4E, 0x53, 0x55, 0x56]

def lutTriggerPattern : List (UInt8 × UInt8) :=
  [(0x2B, 0x1), (0x2D, 0x2), (0x2E, 0x3), (0x33, 0x4), (0x35, 0x5), (0x36, 0x6), (0x39, 0x7),
   (0x3A, 0x8), (0x3C, 0x9), (0x4B, 0xA), (0x4D, 0xB), (0x4E, 0xC), (0x53, 0xD), (0x55, 0xE),
   (0x56, 0xF)]

def lutTriggerTagBase : List (UInt8 × UInt8) :=
  [(0x6A, 0x00), (0x6C, 0x01), (0x71, 0x02), (0x72, 0x03), (0x74, 0x04), (0x8B, 0x05),
   (0x8D, 0x06), (0x8E, 0x07), (0x93, 0x08), (0x95, 0x09), (0x96, 0x0A), (0x99, 0x0B),
   (0x9A, 0x0C), (0x9C, 0x0D), (0xA3, 0x0E), (0xA5, 0x0F), (0xA6, 0x10), (0xA9, 0x11),
   (0x59, 0x12), (0xAC, 0x13), (0xB1, 0x14), (0xB2, 0x15), (0xB4, 0x16), (0xC3, 0x17),
   (0xC5, 0x18), (0xC6, 0x19), (0xC9, 0x1A), (0xCA, 0x1B), (0xCC, 0x1C), (0xD1, 0x1D),
   (0xD2, 0x1E), (0xD4, 0x1F), (0x63, 0x20), (0x5A, 0x21), (0x5C, 0x22), (0xAA, 0x23),
   (0x65, 0x24), (0x69, 0x25), (0x2B, 0x26), (0x2D, 0x27), (0x2E, 0x28), (0x33, 0x29),
   (0x35, 0x2A), (0x36, 0x2B), (0x39, 0x2C), (0x3A, 0x2D), (0x3C, 0x2E), (0x4B, 0x2F),
   (0x4D, 0x30), (0x4E, 0x31), (0x53, 0x32), (0x55, 0x33), (0x56, 0x34), (0x66, 0x35)]

end Yarr.Itkpixv2Emu

/-!
## Command interpreter of the ITKPIXV2 emulator

The words of the Tx ring are broken into 8-bit units. A call reads a few words
ahead into the unit buffer and takes one command from its front; a multiple
write goes on, and reads further words, until it sees the header of another
command.
-/

namespace Yarr.Itkpixv2Emu

def unitsOf (commandWord : UInt32) : List UInt8 :=
  [(commandWord >>> 24).toUInt8, (commandWord >>> 16).toUInt8, (commandWord >>> 8).toUInt8,
    commandWord.toUInt8]

/-- `addDecodedUnits`; `none` if it takes a unit from an empty buffer. -/
def addDecodedUnits : Nat → UInt32 → List UInt8 → Option (UInt32 × List UInt8)
  | 0, var, units => some (var, units)
  | _ + 1, _, [] => none
  | unitCount + 1, var, unit :: units =>
      let decodedUnit := (lut8to5 unit).toUInt32
      addDecodedUnits unitCount (var ||| (decodedUnit <<< UInt32.ofNat (unitCount * 5))) units

/-- What the units at the front of the buffer begin. -/
inductive Front where
  | command (cmd : Cmd) (units : List UInt8)
  | multiple (cmd : Cmd) (units : List UInt8)

/-- The second unit as it stands. -/
def readRaw (header : UInt8) : List UInt8 → Option Front
  | id :: units => some (.command ⟨header, id, 0, 0⟩ units)
  | [] => none

/-- A chip ID, then `addressUnits` of address and `dataUnits` of data. -/
def readDecoded (header : UInt8) (addressUnits dataUnits : Nat) : List UInt8 → Option Front
  | id :: units => do
      let (address, units) ← addDecodedUnits addressUnits 0 units
      let (data, units) ← addDecodedUnits dataUnits 0 units
      some (.command ⟨header, lut8to5 id, address, data⟩ units)
  | [] => none

/-- The first bit of the address decides between single and multiple write. -/
def readWrReg : List UInt8 → Option Front
  | id :: first :: units =>
      if first >>> 7 = 0 then do
        let (address, units) ← addDecodedUnits 2 0 (first :: units)
        let (data, units) ← addDecodedUnits 4 0 units
        some (.command ⟨Commands.WrReg, lut8to5 id, address, data >>> 4⟩ units)
      else
        match units with
        | _ :: units => some (.multiple ⟨Commands.WrReg, lut8to5 id, 0x200, 0⟩ units)
        | [] => none
  | _ => none

/-- Pops the header and what belongs to it; `none` if the buffer has too few units. -/
def readFront (header : UInt8) (units : List UInt8) : Option Front :=
  if header = Commands.Sync then readRaw header units
  else if header = Commands.PLLlock then readRaw header units
  else if header = Commands.Clear then readDecoded header 0 0 units
  else if header = Commands.GlobalPulse then readDecoded header 0 0 units
  else if header = Commands.Cal then readDecoded header 0 4 units
  else if header = Commands.WrReg then readWrReg units
  else if header = Commands.RdReg then readDecoded header 2 0 units
  else readRaw header units

/-- The headers that end a multiple write. -/
def endsMultiple (unit : UInt8) : Bool :=
  unit = Commands.Sync || unit = Commands.PLLlock || unit = Commands.Clear
    || unit = Commands.GlobalPulse || unit = Commands.Cal || unit = Commands.WrReg
    || unit = Commands.RdReg

/-- The buffers of the interpreter. -/
structure CommandInterpreter where
  m_commandUnitBuffer : List UInt8
  m_commandsOut : List Cmd

namespace CommandInterpreter

def m_commandUnitBufferMaxSize : Nat := 8

def m_commandUnitBufferMinSize : Nat := 8

/-- `while (!tx->isEmpty() && size < max)`. -/
def refill : List UInt8 → List UInt32 → List UInt8 × List UInt32
  | units, [] => (units, [])
  | units, commandWord :: tx =>
      if units.length < m_commandUnitBufferMaxSize then refill (units ++ unitsOf commandWord) tx
      else (units, commandWord :: tx)

/--
The loop of a multiple write. `none`: it waits for a word that is not there, or
takes a unit from an empty buffer.
-/
def readMultiple (cmd : Cmd) (out : List Cmd) :
    List UInt8 → List UInt32 → Option (CommandInterpreter × List UInt32)
  | first :: second :: units, tx =>
      if endsMultiple first then some (⟨first :: second :: units, out⟩, tx)
      else
        let data := ((lut8to5 first).toUInt32 <<< 5) ||| (lut8to5 second).toUInt32
        readMultiple cmd (out ++ [{ cmd with data := data }]) units tx
  | units, commandWord :: tx => readMultiple cmd out (units ++ unitsOf commandWord) tx
  | _, [] => none
termination_by units tx => units.length + 5 * tx.length
decreasing_by
  · simp only [List.length_cons]
    omega
  · simp only [List.length_append, unitsOf, List.length_cons, List.length_nil]
    omega

/-- One call, with the words that are in the ring. -/
def readCommand (s : CommandInterpreter) (tx : List UInt32) :
    Option (CommandInterpreter × List UInt32) :=
  let (units, tx) :=
    if s.m_commandUnitBuffer.length < m_commandUnitBufferMinSize then
      refill s.m_commandUnitBuffer tx
    else (s.m_commandUnitBuffer, tx)
  match units with
  | [] => some (⟨[], s.m_commandsOut⟩, tx)
  | header :: units =>
      match readFront header units with
      | some (.command cmd units) => some (⟨units, s.m_commandsOut ++ [cmd]⟩, tx)
      | some (.multiple cmd units) => readMultiple cmd s.m_commandsOut units tx
      | none => none

end CommandInterpreter

end Yarr.Itkpixv2Emu
