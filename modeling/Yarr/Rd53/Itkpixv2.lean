import Mathlib.Data.UInt
import Yarr.Core.Indices
import Yarr.Rd53.ChipRegisters

/-!
# Writing registers of ITKPIXV2

The driver keeps the register words of the chip in `m_cfg`. Every register
write changes them there and sends one word, at the address that the register
object gives.
-/

namespace Yarr.Rd53

open Itkpixv2GlobalCfg

/-- A register write command as the chip gets it. -/
structure WrReg where
  chipId : UInt8
  address : Fin numRegs
  data : UInt16
  deriving DecidableEq

/-- The chip takes the word into the register at the address. -/
def WrReg.apply (chip : Words numRegs) (cmd : WrReg) : Words numRegs :=
  chip.set cmd.address cmd.data

inductive YarrStatus where
  | yarrSuccess
  | yarrFailure
  deriving DecidableEq

/-- The driver and what it has sent. -/
structure Itkpixv2 where
  m_chipId : UInt8
  m_cfg : Words numRegs
  sent : List WrReg

namespace Itkpixv2

variable (fe : Itkpixv2)

def sendWrReg (address : Fin numRegs) (data : UInt16) : Itkpixv2 :=
  { fe with sent := fe.sent ++ [⟨fe.m_chipId, address, data⟩] }

def writeRegister (ref : Reg numRegs) (value : UInt16) : Itkpixv2 :=
  let fe : Itkpixv2 := { fe with m_cfg := ref.write fe.m_cfg value }
  fe.sendWrReg ref.addr fe.m_cfg[ref.addr]

/-- What `writeNamedRegister` does: an unknown name is reported and nothing is sent. -/
def writeNamed (name : String) (value : UInt16) : Itkpixv2 :=
  (globalCfg.findReg name).elim fe fun ref => fe.writeRegister ref value

def writeNamedRegister (name : String) (value : UInt16) : Itkpixv2 × YarrStatus :=
  (fe.writeNamed name value,
    if (globalCfg.findReg name).isSome then .yarrSuccess else .yarrFailure)

/-- The loop of `configureGlobal` over the addresses. -/
def sendAll : Itkpixv2 :=
  (List.finRange numRegs).foldl
    (fun fe addr => fe.sendWrReg addr (getElem fe.m_cfg addr addr.isLt)) fe

/-- The thresholds are high while the words are sent. -/
def configureGlobal : Itkpixv2 :=
  let tmpTh1L := DiffTh1L.read fe.m_cfg
  let tmpTh1R := DiffTh1R.read fe.m_cfg
  let tmpTh1M := DiffTh1M.read fe.m_cfg
  let tmpTh2 := DiffTh2.read fe.m_cfg
  let fe := fe.writeRegister (.default DiffTh1L) 500
  let fe := fe.writeRegister (.default DiffTh1R) 500
  let fe := fe.writeRegister (.default DiffTh1M) 500
  let fe := fe.writeRegister (.default DiffTh2) 0
  let fe := fe.sendAll
  let fe := fe.writeRegister (.default DiffTh1L) tmpTh1L
  let fe := fe.writeRegister (.default DiffTh1R) tmpTh1R
  let fe := fe.writeRegister (.default DiffTh1M) tmpTh1M
  fe.writeRegister (.default DiffTh2) tmpTh2

/-- The words of the chip after the commands sent, if it started with `chip`. -/
def chipAfter (chip : Words numRegs) : Words numRegs := fe.sent.foldl WrReg.apply chip

/-- The two calls: with a member of the configuration, or with a name. -/
inductive Call where
  | writeRegister (ref : Reg numRegs) (named : ∃ name, globalCfg.findReg name = some ref)
      (value : UInt16)
  | writeNamedRegister (name : String) (value : UInt16)

def call : Call → Itkpixv2
  | .writeRegister ref _ value => fe.writeRegister ref value
  | .writeNamedRegister name value => fe.writeNamed name value

def calls (cs : List Call) : Itkpixv2 := cs.foldl call fe

end Itkpixv2

end Yarr.Rd53

/-!
## Commands of ITKPIXV2

A command is a list of 16-bit frames of two encoded symbols. The `send`
functions pack the frames into words of the Tx FIFO and release it, which adds
a word of zeros in the emulator.
-/

namespace Yarr.Rd53.Itkpixv2Cmd

/-- Custom encoding of five bits in eight. -/
def enc5to8Table : Vector UInt16 32 :=
  #v[0x6A, 0x6C, 0x71, 0x72, 0x74, 0x8B, 0x8D, 0x8E, 0x93, 0x95, 0x96, 0x99, 0x9A, 0x9C, 0xA3,
    0xA5, 0xA6, 0xA9, 0x59, 0xAC, 0xB1, 0xB2, 0xB4, 0xC3, 0xC5, 0xC6, 0xC9, 0xCA, 0xCC, 0xD1,
    0xD2, 0xD4]

/-- Trigger symbols. -/
def encTrigger : Vector UInt16 16 :=
  #v[0xAA, 0x2B, 0x2D, 0x2E, 0x33, 0x35, 0x36, 0x39, 0x3A, 0x3C, 0x4B, 0x4D, 0x4E, 0x53, 0x55,
    0x56]

/-- Symbols are reused for the tags. -/
def encTag : Vector UInt16 54 :=
  #v[0x6A, 0x6C, 0x71, 0x72, 0x74, 0x8B, 0x8D, 0x8E, 0x93, 0x95, 0x96, 0x99, 0x9A, 0x9C, 0xA3,
    0xA5, 0xA6, 0xA9, 0x59, 0xAC, 0xB1, 0xB2, 0xB4, 0xC3, 0xC5, 0xC6, 0xC9, 0xCA, 0xCC, 0xD1,
    0xD2, 0xD4, 0x63, 0x5A, 0x5C, 0xAA, 0x65, 0x69, 0x2B, 0x2D, 0x2E, 0x33, 0x35, 0x36, 0x39,
    0x3A, 0x3C, 0x4B, 0x4D, 0x4E, 0x53, 0x55, 0x56, 0x66]

/-- Every index in the source has five bits. -/
def enc5to8 (value : UInt16) : UInt16 := enc5to8Table[Fin.ofNat 32 value.toNat]

/-! ## Frames -/

def genPllLock : UInt16 := 0xAAAA

def genSync : UInt16 := 0x817E

theorem bc_lt (bc : Fin 16) : bc.val < 16 := bc.isLt

theorem tag_lt (tag : Fin 54) : tag.val < 54 := tag.isLt

def genTrigger (bc : Fin 16) (tag : Fin 54) : UInt16 :=
  (getElem encTrigger bc (bc_lt bc) <<< 8) |||
    (if 0 < bc then getElem encTag tag (tag_lt tag) else 0xAA)

def genClear (chipId : UInt8) : UInt16 := 0x5A00 ||| enc5to8 (chipId.toUInt16 &&& 0x1F)

def genGlobalPulse (chipId : UInt8) : UInt16 := 0x5C00 ||| enc5to8 (chipId.toUInt16 &&& 0x1F)

structure CalParameters where
  mode : UInt8
  edgeDelay : UInt8
  edgeDuration : UInt8
  auxPar : UInt8
  auxDelay : UInt8

def genCal (chipId : UInt8) (p : CalParameters) : Vector UInt16 3 :=
  let mode := p.mode.toUInt16
  let edgeDelay := p.edgeDelay.toUInt16
  let edgeDuration := p.edgeDuration.toUInt16
  let auxPar := p.auxPar.toUInt16
  let auxDelay := p.auxDelay.toUInt16
  #v[0x6300 ||| enc5to8 (chipId.toUInt16 &&& 0x1F),
    (enc5to8 (((mode &&& 0x1) <<< 4) ||| ((edgeDelay &&& 0x1E) >>> 1)) <<< 8)
      ||| enc5to8 (((edgeDelay &&& 0x1) <<< 4) ||| ((edgeDuration &&& 0xF0) >>> 4)),
    (enc5to8 (((edgeDuration &&& 0xF) <<< 1) ||| (auxPar &&& 0x1)) <<< 8)
      ||| enc5to8 (auxDelay &&& 0x1F)]

def genWrReg (chipId : UInt8) (address data : UInt16) : Vector UInt16 4 :=
  #v[0x6600 ||| enc5to8 (chipId.toUInt16 &&& 0x1F),
    (enc5to8 ((address &&& 0x1E0) >>> 5) <<< 8) ||| enc5to8 (address &&& 0x1F),
    (enc5to8 ((data &&& 0xF800) >>> 11) <<< 8) ||| enc5to8 ((data &&& 0x7C0) >>> 6),
    (enc5to8 ((data &&& 0x3E) >>> 1) <<< 8) ||| enc5to8 ((data &&& 0x1) <<< 4)]

def genRdReg (chipId : UInt8) (address : UInt16) : Vector UInt16 2 :=
  #v[0x6500 ||| enc5to8 (chipId.toUInt16 &&& 0x1F),
    (enc5to8 ((address &&& 0x1E0) >>> 5) <<< 8) ||| enc5to8 (address &&& 0x1F)]

def conv10Bit (value : UInt16) : UInt16 :=
  (enc5to8 ((value >>> 5) &&& 0x1F) <<< 8) ||| enc5to8 (value &&& 0x1F)

/-! ## Words -/

/-- Two frames in one word. -/
def word (first second : UInt16) : UInt32 := (first.toUInt32 <<< (16 : UInt32)) ||| second.toUInt32

/-- A frame after one of PLL lock. -/
def afterPllLock (frame : UInt16) : UInt32 := 0xAAAA0000 ||| frame.toUInt32

/-- `releaseFifo` of the emulator. -/
def padding : List UInt32 := [0x0]

def sendPllLock : List UInt32 := [afterPllLock genPllLock] ++ padding

def sendSync : List UInt32 := [afterPllLock genSync] ++ padding

def sendClear (chipId : UInt8) : List UInt32 :=
  [afterPllLock (genClear chipId)] ++ padding

def sendGlobalPulse (chipId : UInt8) : List UInt32 :=
  [afterPllLock (genGlobalPulse chipId)] ++ padding

def sendWrReg (chipId : UInt8) (address data : UInt16) : List UInt32 :=
  let wrReg := genWrReg chipId address data
  [word (getElem wrReg 0 Index.first_of_four) (getElem wrReg 1 Index.second_of_four),
    word (getElem wrReg 2 Index.third_of_four) (getElem wrReg 3 Index.fourth_of_four),
    0x817EAAAA] ++ padding

def sendRdReg (chipId : UInt8) (address : UInt16) : List UInt32 :=
  let rdReg := genRdReg chipId address
  [word (getElem rdReg 0 Index.first_of_two) (getElem rdReg 1 Index.second_of_two), 0x817EAAAA]
    ++ padding

/-- The elements of a block, two of them in each turn of the loop. -/
def blockWords (data : List (UInt16 × UInt16)) : List UInt32 :=
  data.map fun d => word (conv10Bit d.1) (conv10Bit d.2)

def sendPixRegBlock (chipId : UInt8) (data : List (UInt16 × UInt16)) : List UInt32 :=
  let wrReg := genWrReg chipId 0 0
  word (getElem wrReg 0 Index.first_of_four) (conv10Bit 0x0200) :: blockWords data
    ++ [0x817EAAAA] ++ padding

/-- The words of an injection in the buffer of the trigger loop. -/
def calWords (chipId : UInt8) (p : CalParameters) : List UInt32 :=
  let cal := genCal chipId p
  [afterPllLock (getElem cal 0 Index.first_of_three),
    word (getElem cal 1 Index.second_of_three) (getElem cal 2 Index.third_of_three)]

/-- The last words of that buffer: a trigger in the same word as the injection that rearms. -/
def rearmWords (bc : Fin 16) (tag : Fin 54) (chipId : UInt8) (p : CalParameters) :
    List UInt32 :=
  let cal := genCal chipId p
  [word (genTrigger bc tag) (getElem cal 0 Index.first_of_three),
    word (getElem cal 1 Index.second_of_three) (getElem cal 2 Index.third_of_three)]

/-- A word of two triggers in that buffer. -/
def trigWord (bc1 : Fin 16) (tag1 : Fin 54) (bc2 : Fin 16) (tag2 : Fin 54) : List UInt32 :=
  [word (genTrigger bc1 tag1) (genTrigger bc2 tag2)]

/-- What goes into the Tx FIFO. A register has an address of the register map. -/
inductive Command where
  | pllLock
  | sync
  | clear (chipId : UInt8)
  | globalPulse (chipId : UInt8)
  | wrReg (chipId : UInt8) (address : Fin Itkpixv2GlobalCfg.numRegs) (data : UInt16)
  | rdReg (chipId : UInt8) (address : Fin Itkpixv2GlobalCfg.numRegs)
  | pixRegBlock (chipId : UInt8) (data : List (UInt16 × UInt16))
  | cal (chipId : UInt8) (p : CalParameters)
  | rearm (bc : Fin 16) (tag : Fin 54) (chipId : UInt8) (p : CalParameters)
  | trigger (bc1 : Fin 16) (tag1 : Fin 54) (bc2 : Fin 16) (tag2 : Fin 54)
  | release

namespace Command

def words : Command → List UInt32
  | pllLock => sendPllLock
  | sync => sendSync
  | clear chipId => sendClear chipId
  | globalPulse chipId => sendGlobalPulse chipId
  | wrReg chipId address data => sendWrReg chipId (UInt16.ofNat address) data
  | rdReg chipId address => sendRdReg chipId (UInt16.ofNat address)
  | pixRegBlock chipId data => sendPixRegBlock chipId data
  | cal chipId p => calWords chipId p
  | rearm bc tag chipId p => rearmWords bc tag chipId p
  | trigger bc1 tag1 bc2 tag2 => trigWord bc1 tag1 bc2 tag2
  | release => padding

end Command

end Yarr.Rd53.Itkpixv2Cmd

/-!
## Pixel registers of ITKPIXV2

A register holds a pair of neighbouring pixels of one row, the even column in
its low byte and the odd column in its high byte.
-/

namespace Yarr.Rd53.Itkpixv2PixelCfg

abbrev n_DC : Nat := 200
abbrev n_Col : Nat := 400
abbrev n_Row : Nat := 384

abbrev PixelArray := Fin n_DC → Fin n_Row → UInt16

def getBit (word : UInt16) (bit : Nat) : UInt16 := (word >>> UInt16.ofNat bit) &&& 1

/-- The double column of a column. -/
def doubleColumn (col : Fin n_Col) : Fin n_DC := ⟨col / 2, Nat.div_lt_of_lt_mul col.isLt⟩

def getPixelBit (input : PixelArray) (col : Fin n_Col) (row : Fin n_Row) (bit : Nat) : UInt16 :=
  getBit (input (doubleColumn col) row) ((col % 2) * 8 + bit)

section Getters

variable (pixRegs : PixelArray) (col : Fin n_Col) (row : Fin n_Row)

def getEn : UInt16 := getPixelBit pixRegs col row 0

def getInjEn : UInt16 := getPixelBit pixRegs col row 1

def getHitbus : UInt16 := getPixelBit pixRegs col row 2

end Getters

theorem getBit_eq (word : UInt16) {bit : Nat} (hbit : bit < 16) :
    getBit word bit = if word.toBitVec.getLsbD bit then 1 else 0 := by
  have hmod : bit % 65536 % 16 = bit := by omega
  apply UInt16.toBitVec_inj.mp
  apply BitVec.eq_of_getLsbD_eq
  intro i _
  simp only [getBit, UInt16.toBitVec_and, UInt16.toBitVec_shiftRight, UInt16.toBitVec_ofNat']
  cases i with
  | zero =>
      by_cases hword : word.toBitVec.getLsbD bit
      · simp [hword, hmod]
      · simp [hword, hmod]
  | succ i =>
      by_cases hword : word.toBitVec.getLsbD bit
      · simp [hword]
      · simp [hword]

theorem getPixelBit_eq (input : PixelArray) (col : Fin n_Col) (row : Fin n_Row) {bit : Nat}
    (hbit : bit < 8) :
    getPixelBit input col row bit =
      if (input (doubleColumn col) row).toBitVec.getLsbD (col % 2 * 8 + bit) then 1 else 0 := by
  apply getBit_eq
  omega

end Yarr.Rd53.Itkpixv2PixelCfg

/-!
## Download of the pixel registers of ITKPIXV2

All the registers go out double column by double column, and the chip counts
the rows. A list of pixels goes out with a row for each of them, and with a
column where it changes.
-/

namespace Yarr.Rd53.Itkpixv2

open Itkpixv2GlobalCfg Itkpixv2PixelCfg

variable (pixRegs : PixelArray)

/-- The rows of one double column. -/
def sendColumn (fe : Itkpixv2) (dc : Fin n_DC) : Itkpixv2 :=
  let fe := fe.writeRegister (.default PixRegionCol) (UInt16.ofNat dc)
  let fe := fe.writeRegister (.default PixRegionRow) 0
  (List.finRange n_Row).foldl
    (fun fe row => fe.writeRegister (.default PixPortal) (pixRegs dc row)) fe

def configurePixels (fe : Itkpixv2) : Itkpixv2 :=
  let fe := fe.writeRegister (.default PixAutoRow) 1
  let fe := fe.writeRegister (.default PixBroadcast) 0
  (List.finRange n_DC).foldl (sendColumn pixRegs) fe

/-- One turn of the loop over a list; `old_dc` is the column that was sent last. -/
def sendPixel (s : Itkpixv2 × Nat) (pixel : Fin n_Col × Fin n_Row) : Itkpixv2 × Nat :=
  let dc := doubleColumn pixel.1
  let (fe, old_dc) :=
    if s.2 ≠ dc then (s.1.writeRegister (.default PixRegionCol) (UInt16.ofNat dc), dc.val) else s
  let fe := fe.writeRegister (.default PixRegionRow) (UInt16.ofNat pixel.2)
  (fe.writeRegister (.default PixPortal) (pixRegs dc pixel.2), old_dc)

def configurePixelList (fe : Itkpixv2) (pixels : List (Fin n_Col × Fin n_Row)) : Itkpixv2 :=
  let fe := fe.writeRegister (.default PixAutoRow) 0
  let fe := fe.writeRegister (.default PixBroadcast) 0
  (pixels.foldl (sendPixel pixRegs) (fe, 99999)).1

end Yarr.Rd53.Itkpixv2
