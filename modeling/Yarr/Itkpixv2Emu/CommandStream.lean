import Mathlib.Tactic.FinCases
import Mathlib.Tactic.IntervalCases
import Yarr.Core.Transport
import Yarr.Itkpixv2Emu.CommandInterpreter
import Yarr.Rd53.Itkpixv2

/-!
# Units of the commands

What the frames of a command become when the words are broken into units, and
what the interpreter decodes from them.
-/

namespace Yarr.Itkpixv2Emu

open Rd53.Itkpixv2Cmd

/-! ## Frames and words -/

def unitsOfFrame (frame : UInt16) : List UInt8 := [(frame >>> 8).toUInt8, frame.toUInt8]

theorem unitsOf_word (first second : UInt16) :
    unitsOf (word first second) = unitsOfFrame first ++ unitsOfFrame second := by
  simp only [unitsOf, unitsOfFrame, word, List.cons_append, List.nil_append, List.cons.injEq,
    and_true]
  refine ⟨?_, ?_, ?_, ?_⟩
  all_goals
    apply UInt8.toBitVec_inj.mp
    apply BitVec.eq_of_getLsbD_eq
    intro i hi
    interval_cases i <;> simp

theorem unitsOf_afterPllLock (frame : UInt16) :
    unitsOf (afterPllLock frame) = [0xAA, 0xAA] ++ unitsOfFrame frame := by
  simp only [unitsOf, unitsOfFrame, afterPllLock, List.cons_append, List.nil_append,
    List.cons.injEq, and_true]
  refine ⟨?_, ?_, ?_, ?_⟩
  all_goals
    apply UInt8.toBitVec_inj.mp
    apply BitVec.eq_of_getLsbD_eq
    intro i hi
    interval_cases i <;> simp

theorem unitsOfFrame_pair (high low : UInt8) :
    unitsOfFrame ((high.toUInt16 <<< 8) ||| low.toUInt16) = [high, low] := by
  simp only [unitsOfFrame, List.cons.injEq, and_true]
  constructor
  all_goals
    apply UInt8.toBitVec_inj.mp
    apply BitVec.eq_of_getLsbD_eq
    intro i hi
    interval_cases i <;> simp

/-! ## Symbols -/

/-- The symbol for five bits. -/
def symbol (value : UInt16) : UInt8 := (enc5to8 value).toUInt8

theorem enc5to8_eq (value : UInt16) : enc5to8 value = (symbol value).toUInt16 := by
  have htable : ∀ i : Fin 32, enc5to8Table[i] = (enc5to8Table[i]).toUInt8.toUInt16 := by decide
  exact htable _

theorem lut8to5_symbol (value : UInt16) : lut8to5 (symbol value) = (value &&& 0x1F).toUInt8 := by
  have htable : ∀ i : Fin 32, lut8to5 (enc5to8Table[i]).toUInt8 = UInt8.ofNat i := by decide
  rw [symbol, enc5to8, htable]
  apply UInt8.toBitVec_inj.mp
  apply BitVec.eq_of_toNat_eq
  have hand : value.toNat % 256 &&& 31 = value.toNat % 256 % 32 :=
    Nat.and_two_pow_sub_one_eq_mod _ 5
  simp [hand]
  omega

theorem endsMultiple_symbol (value : UInt16) : endsMultiple (symbol value) = false := by
  have htable : ∀ i : Fin 32, endsMultiple (enc5to8Table[i]).toUInt8 = false := by decide
  exact htable _

theorem unitsOfFrame_symbols (high low : UInt16) :
    unitsOfFrame ((enc5to8 high <<< 8) ||| enc5to8 low) = [symbol high, symbol low] := by
  rw [enc5to8_eq high, enc5to8_eq low, unitsOfFrame_pair]

theorem unitsOfFrame_header (header : UInt8) (value : UInt16) :
    unitsOfFrame ((header.toUInt16 <<< 8) ||| enc5to8 value) = [header, symbol value] := by
  rw [enc5to8_eq value, unitsOfFrame_pair]

/-! ## Decoding -/

/-- The symbol of a chip ID. -/
def idSymbol (chipId : UInt8) : UInt8 := symbol (chipId.toUInt16 &&& 0x1F)

theorem lut8to5_idSymbol (chipId : UInt8) : lut8to5 (idSymbol chipId) = chipId &&& 0x1F := by
  rw [idSymbol, lut8to5_symbol]
  apply UInt8.toBitVec_inj.mp
  apply BitVec.eq_of_getLsbD_eq
  intro i hi
  interval_cases i <;> simp

/-- The symbols of a register address. -/
def addressHigh (address : UInt16) : UInt8 := symbol ((address &&& 0x1E0) >>> 5)

def addressLow (address : UInt16) : UInt8 := symbol (address &&& 0x1F)

theorem toUInt32_five (value : UInt16) :
    (value &&& 0x1F).toUInt8.toUInt32 = (value &&& 0x1F).toUInt32 := by
  have hle : value.toNat &&& 31 ≤ 31 := Nat.and_le_right
  have hmod : (value.toNat &&& 31) % 256 = value.toNat &&& 31 := Nat.mod_eq_of_lt (by omega)
  apply UInt32.toNat_inj.mp
  simp only [UInt8.toNat_toUInt32, UInt16.toNat_toUInt8, UInt16.toNat_toUInt32, UInt16.toNat_and,
    UInt16.toNat_ofNat]
  exact hmod

theorem addDecodedUnits_two (a b : UInt16) (units : List UInt8) :
    addDecodedUnits 2 0 (symbol a :: symbol b :: units) =
      some (((a &&& 0x1F).toUInt32 <<< 5) ||| (b &&& 0x1F).toUInt32, units) := by
  simp only [addDecodedUnits, lut8to5_symbol, toUInt32_five]
  simp

theorem addDecodedUnits_four (a b c d : UInt16) (units : List UInt8) :
    addDecodedUnits 4 0 (symbol a :: symbol b :: symbol c :: symbol d :: units) =
      some (((a &&& 0x1F).toUInt32 <<< 15) ||| ((b &&& 0x1F).toUInt32 <<< 10)
        ||| ((c &&& 0x1F).toUInt32 <<< 5) ||| (d &&& 0x1F).toUInt32, units) := by
  simp only [addDecodedUnits, lut8to5_symbol, toUInt32_five]
  simp

theorem addDecodedUnits_address (address : Fin Rd53.Itkpixv2GlobalCfg.numRegs)
    (units : List UInt8) :
    addDecodedUnits 2 0
        (addressHigh (UInt16.ofNat address) :: addressLow (UInt16.ofNat address) :: units) =
      some (UInt32.ofNat address, units) := by
  have htable : ∀ a : Fin Rd53.Itkpixv2GlobalCfg.numRegs,
      ((((UInt16.ofNat a &&& 0x1E0) >>> 5) &&& 0x1F).toUInt32 <<< 5) |||
        ((UInt16.ofNat a &&& 0x1F) &&& 0x1F).toUInt32 = UInt32.ofNat a := by decide +kernel
  rw [addressHigh, addressLow, addDecodedUnits_two, htable]

theorem addressHigh_single (address : Fin Rd53.Itkpixv2GlobalCfg.numRegs) :
    addressHigh (UInt16.ofNat address) >>> 7 = 0 := by
  have htable : ∀ a : Fin Rd53.Itkpixv2GlobalCfg.numRegs,
      addressHigh (UInt16.ofNat a) >>> 7 = 0 := by decide +kernel
  exact htable address

/-- The symbols of the data of a register. -/
def dataSymbols (data : UInt16) : List UInt8 :=
  [symbol ((data &&& 0xF800) >>> 11), symbol ((data &&& 0x7C0) >>> 6),
    symbol ((data &&& 0x3E) >>> 1), symbol ((data &&& 0x1) <<< 4)]

theorem addDecodedUnits_data (data : UInt16) (units : List UInt8) :
    ∃ var, addDecodedUnits 4 0 (dataSymbols data ++ units) = some (var, units) ∧
      var >>> 4 = data.toUInt32 := by
  refine ⟨_, addDecodedUnits_four _ _ _ _ units, ?_⟩
  apply UInt32.toBitVec_inj.mp
  apply BitVec.eq_of_getLsbD_eq
  intro i hi
  interval_cases i <;> simp [-UInt16.toUInt32_shiftLeft]

/-- The symbols of the parameters of an injection. -/
def calSymbols (p : CalParameters) : List UInt8 :=
  [symbol (((p.mode.toUInt16 &&& 0x1) <<< 4) ||| ((p.edgeDelay.toUInt16 &&& 0x1E) >>> 1)),
    symbol (((p.edgeDelay.toUInt16 &&& 0x1) <<< 4) |||
      ((p.edgeDuration.toUInt16 &&& 0xF0) >>> 4)),
    symbol (((p.edgeDuration.toUInt16 &&& 0xF) <<< 1) ||| (p.auxPar.toUInt16 &&& 0x1)),
    symbol (p.auxDelay.toUInt16 &&& 0x1F)]

/-- The 20 bits of an injection, in their order. -/
def calData (p : CalParameters) : UInt32 :=
  ((p.mode &&& 0x1).toUInt32 <<< 19) ||| ((p.edgeDelay &&& 0x1F).toUInt32 <<< 14)
    ||| (p.edgeDuration.toUInt32 <<< 6) ||| ((p.auxPar &&& 0x1).toUInt32 <<< 5)
    ||| (p.auxDelay &&& 0x1F).toUInt32

theorem addDecodedUnits_cal (p : CalParameters) (units : List UInt8) :
    addDecodedUnits 4 0 (calSymbols p ++ units) = some (calData p, units) := by
  rw [calSymbols, List.cons_append, List.cons_append, List.cons_append, List.cons_append,
    List.nil_append, addDecodedUnits_four]
  apply congrArg (fun var => some (var, units))
  apply UInt32.toBitVec_inj.mp
  apply BitVec.eq_of_getLsbD_eq
  intro i hi
  simp only [calData]
  interval_cases i <;> simp [-UInt16.toUInt32_shiftLeft]

end Yarr.Itkpixv2Emu

/-!
## The stream of units

A piece is what one call of the interpreter takes: the units of a head, and for
a multiple write the elements after it, up to a header that ends the block.
The words of every command are the units of a list of pieces.
-/

namespace Yarr.Itkpixv2Emu

open Rd53 Rd53.Itkpixv2Cmd

def readHead : List UInt8 → Option Front
  | [] => none
  | header :: units => readFront header units

/-- What a head begins. -/
inductive Body where
  | command (cmd : Cmd)
  | multiple (cmd : Cmd) (data : List UInt16)

namespace Body

def front (rest : List UInt8) : Body → Front
  | command cmd => .command cmd rest
  | multiple cmd _ => .multiple cmd rest

/-- The units of one element. -/
def element (d : UInt16) : List UInt8 := [symbol ((d >>> 5) &&& 0x1F), symbol (d &&& 0x1F)]

def units : Body → List UInt8
  | command _ => []
  | multiple _ data => data.flatMap element

/-- A block gives one write for each element, with the ten bits that are sent of it. -/
def emits : Body → List Cmd
  | command cmd => [cmd]
  | multiple cmd data => data.map fun d => { cmd with data := (d &&& 0x3FF).toUInt32 }

/-- A block goes on until a header that ends it. -/
def Followed : Body → List UInt8 → Prop
  | command _, _ => True
  | multiple _ _, rest => ∃ header id units, rest = header :: id :: units ∧ endsMultiple header

def isCommand : Body → Bool
  | command _ => true
  | multiple _ _ => false

theorem followed_of_isCommand {b : Body} (h : b.isCommand = true) (rest : List UInt8) :
    b.Followed rest := by
  cases b with
  | command cmd => trivial
  | multiple cmd data => cases h

end Body

structure Piece where
  head : List UInt8
  body : Body
  pos : 0 < head.length
  fits : head.length ≤ 8
  reads : ∀ rest, readHead (head ++ rest) = some (body.front rest)

namespace Piece

def units (p : Piece) : List UInt8 := p.head ++ p.body.units

def format : Transport.Format Piece UInt8 Cmd where
  units := units
  emits := fun p => p.body.emits
  Followed := fun p rest => p.body.Followed rest

/-! ## The pieces -/

/-- Two units, of which the second is kept as it stands. -/
def frame (header id : UInt8)
    (hraw : ∀ units, readFront header units = readRaw header units := by intro units; rfl) :
    Piece where
  head := [header, id]
  body := .command ⟨header, id, 0, 0⟩
  pos := by simp
  fits := by simp
  reads := fun rest => hraw (id :: rest)

def pllLock : Piece := frame 0xAA 0xAA

def sync : Piece := frame 0x81 0x7E

/-- Half of a word of zeros. -/
def zero : Piece := frame 0 0

/-- A header and a chip ID. -/
def withId (header : UInt8) (chipId : UInt8)
    (hdecoded : ∀ units, readFront header units = readDecoded header 0 0 units := by
      intro units; rfl) : Piece where
  head := [header, idSymbol chipId]
  body := .command ⟨header, chipId &&& 0x1F, 0, 0⟩
  pos := by simp
  fits := by simp
  reads := by
    intro rest
    rw [← lut8to5_idSymbol]
    exact hdecoded (idSymbol chipId :: rest)

def clear (chipId : UInt8) : Piece := withId Commands.Clear chipId

def globalPulse (chipId : UInt8) : Piece := withId Commands.GlobalPulse chipId

def cal (chipId : UInt8) (p : CalParameters) : Piece where
  head := [Commands.Cal, idSymbol chipId] ++ calSymbols p
  body := .command ⟨Commands.Cal, chipId &&& 0x1F, 0, calData p⟩
  pos := by simp
  fits := by simp [calSymbols]
  reads := by
    intro rest
    have hread : readHead ([Commands.Cal, idSymbol chipId] ++ calSymbols p ++ rest) =
        readDecoded Commands.Cal 0 4 (idSymbol chipId :: (calSymbols p ++ rest)) := rfl
    simp only [hread, readDecoded, addDecodedUnits, Option.bind_eq_bind, Option.bind_some,
      addDecodedUnits_cal, lut8to5_idSymbol]
    rfl

def rdReg (chipId : UInt8) (address : Fin Itkpixv2GlobalCfg.numRegs) : Piece where
  head := [Commands.RdReg, idSymbol chipId, addressHigh (UInt16.ofNat address),
    addressLow (UInt16.ofNat address)]
  body := .command ⟨Commands.RdReg, chipId &&& 0x1F, UInt32.ofNat address, 0⟩
  pos := by simp
  fits := by simp
  reads := by
    intro rest
    have hread : readHead ([Commands.RdReg, idSymbol chipId, addressHigh (UInt16.ofNat address),
        addressLow (UInt16.ofNat address)] ++ rest) =
        readDecoded Commands.RdReg 2 0 (idSymbol chipId :: addressHigh (UInt16.ofNat address) ::
          addressLow (UInt16.ofNat address) :: rest) := rfl
    rw [hread, readDecoded, addDecodedUnits_address, lut8to5_idSymbol]
    rfl

def wrReg (chipId : UInt8) (address : Fin Itkpixv2GlobalCfg.numRegs) (data : UInt16) :
    Piece where
  head := [Commands.WrReg, idSymbol chipId, addressHigh (UInt16.ofNat address),
    addressLow (UInt16.ofNat address)] ++ dataSymbols data
  body := .command ⟨Commands.WrReg, chipId &&& 0x1F, UInt32.ofNat address, data.toUInt32⟩
  pos := by simp
  fits := by simp [dataSymbols]
  reads := by
    intro rest
    have hread : readHead ([Commands.WrReg, idSymbol chipId, addressHigh (UInt16.ofNat address),
        addressLow (UInt16.ofNat address)] ++ dataSymbols data ++ rest) =
        readWrReg (idSymbol chipId :: addressHigh (UInt16.ofNat address) ::
          addressLow (UInt16.ofNat address) :: (dataSymbols data ++ rest)) := rfl
    obtain ⟨var, hvar, hdata⟩ := addDecodedUnits_data data rest
    simp only [hread, readWrReg, if_pos (addressHigh_single address), addDecodedUnits_address,
      Option.bind_eq_bind, Option.bind_some, hvar, hdata, lut8to5_idSymbol]
    rfl

/-- The address of a block has the first bit. -/
def multiple (chipId : UInt8) (data : List UInt16) : Piece where
  head := [Commands.WrReg, idSymbol chipId, symbol 0x10, symbol 0]
  body := .multiple ⟨Commands.WrReg, chipId &&& 0x1F, 0x200, 0⟩ data
  pos := by simp
  fits := by simp
  reads := by
    intro rest
    rw [← lut8to5_idSymbol]
    rfl

/-- A trigger with a pattern; without one it is a PLL lock. -/
def trigger (bc : Fin 16) (tag : Fin 54) : Piece :=
  frame (getElem encTrigger bc (bc_lt bc)).toUInt8
    (if 0 < bc then (getElem encTag tag (tag_lt tag)).toUInt8 else 0xAA) (by
      have htable : ∀ i : Fin 16, ∀ units,
          readFront (getElem encTrigger i (bc_lt i)).toUInt8 units =
            readRaw (getElem encTrigger i (bc_lt i)).toUInt8 units := by
        intro i units
        fin_cases i <;> rfl
      exact htable bc)

end Piece

end Yarr.Itkpixv2Emu
