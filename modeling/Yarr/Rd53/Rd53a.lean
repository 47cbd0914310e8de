import Mathlib.Data.UInt
import Yarr.Core.Indices
import Yarr.Rd53.ChipRegisters

/-!
# Download of the pixel registers of RD53A

A register holds a pair of neighbouring pixels of one row; all of them are in
one array, one double column after the other. All the registers go out double
column by double column, and the chip is to count the rows. A list of pixels
goes out with a row for each of them, and with a column where it changes.
-/

namespace Yarr.Rd53

namespace Rd53aPixelCfg

abbrev n_DC : Nat := 200
abbrev n_Col : Nat := 400
abbrev n_Row : Nat := 192

abbrev PixRegs := Fin (n_DC * n_Row) → UInt16

/-- The register of a double column and a row. -/
def pairIndex (dc : Fin n_DC) (row : Fin n_Row) : Fin (n_DC * n_Row) :=
  ⟨dc * n_Row + row, by
    have hdc : (dc : Nat) < 200 := dc.isLt
    have hrow : (row : Nat) < 192 := row.isLt
    show (dc : Nat) * 192 + row < 200 * 192
    omega⟩

/-- The double column of a column. -/
def doubleColumn (col : Fin n_Col) : Fin n_DC := ⟨col / 2, Nat.div_lt_of_lt_mul col.isLt⟩

def toIndex (col : Fin n_Col) (row : Fin n_Row) : Fin (n_DC * n_Row) :=
  pairIndex (doubleColumn col) row

end Rd53aPixelCfg

open Rd53aGlobalCfg Rd53aPixelCfg

/-- A call of `wrRegister`. -/
structure WrRegister where
  chipId : UInt32
  address : UInt32
  value : UInt16
  deriving DecidableEq

/-- The driver and the register writes that it has sent. -/
structure Rd53a where
  m_chipId : UInt32
  m_cfg : Words numRegs
  sent : List WrRegister

namespace Rd53a

def writeRegister (fe : Rd53a) (ref : RegDefault numRegs) (value : UInt16) : Rd53a :=
  let m_cfg := ref.write fe.m_cfg value
  { fe with
    m_cfg := m_cfg
    sent := fe.sent ++ [⟨fe.m_chipId, UInt32.ofNat ref.m_addr,
      getElem m_cfg ref.m_addr ref.m_addr.isLt⟩] }

variable (pixRegs : PixRegs)

/-- The rows of one double column; `col` goes in steps of two. -/
def sendColumn (fe : Rd53a) (dc : Fin n_DC) : Rd53a :=
  let fe := fe.writeRegister PixRegionCol (UInt16.ofNat dc)
  let fe := fe.writeRegister PixRegionRow 0
  (List.finRange n_Row).foldl
    (fun fe row => fe.writeRegister PixPortal (pixRegs (pairIndex dc row))) fe

def configurePixels (fe : Rd53a) : Rd53a :=
  let fe := fe.writeRegister PixAutoCol 0
  let fe := fe.writeRegister PixAutoRow 1
  (List.finRange n_DC).foldl (sendColumn pixRegs) fe

/-- One turn of the loop over a list; `old_col` is the double column that was sent last. -/
def sendPixel (s : Rd53a × Int) (pixel : Fin n_Col × Fin n_Row) : Rd53a × Int :=
  let dc := doubleColumn pixel.1
  let (fe, old_col) :=
    if s.2 ≠ dc then (s.1.writeRegister PixRegionCol (UInt16.ofNat dc), (dc : Int)) else s
  let fe := fe.writeRegister PixRegionRow (UInt16.ofNat pixel.2)
  (fe.writeRegister PixPortal (pixRegs (toIndex pixel.1 pixel.2)), old_col)

def configurePixelList (fe : Rd53a) (pixels : List (Fin n_Col × Fin n_Row)) : Rd53a :=
  let fe := fe.writeRegister PixAutoCol 0
  let fe := fe.writeRegister PixAutoRow 0
  (pixels.foldl (sendPixel pixRegs) (fe, -1)).1

end Rd53a

end Yarr.Rd53

/-!
## Commands of RD53A

The fields of a command go out in groups of five bits, each encoded in eight.
Every command ends with a release of the Tx FIFO, which adds a word of zeros in
the emulator.
-/

namespace Yarr.Rd53.Rd53aCmd

/-- Custom encoding of five bits in eight. -/
def enc5to8 : Vector UInt8 32 :=
  #v[0x6A, 0x6C, 0x71, 0x72, 0x74, 0x8B, 0x8D, 0x8E, 0x93, 0x95, 0x96, 0x99, 0x9A, 0x9C, 0xA3,
    0xA5, 0xA6, 0xA9, 0xAA, 0xAC, 0xB1, 0xB2, 0xB4, 0xC3, 0xC5, 0xC6, 0xC9, 0xCA, 0xCC, 0xD1,
    0xD2, 0xD4]

def encTrigger : Vector UInt8 16 :=
  #v[0x00, 0x2B, 0x2D, 0x2E, 0x33, 0x35, 0x36, 0x39, 0x3A, 0x3C, 0x4B, 0x4D, 0x4E, 0x53, 0x55,
    0x56]

/-- The index is `val & 0x1F`. -/
def symbol (val : UInt32) : UInt8 := enc5to8[Fin.ofNat 32 val.toNat]

def encode5to8 (val : UInt32) : UInt32 := (symbol val).toUInt32

def triggerSymbol (bc : UInt32) : UInt8 := encTrigger[Fin.ofNat 16 bc.toNat]

/-! ## Words -/

def genTrigger (bc tag bc2 tag2 : UInt32) : UInt32 :=
  (if bc > 0 then ((triggerSymbol bc).toUInt32 <<< 24) ||| (encode5to8 tag <<< 16)
    else 0x69690000) +
  (if bc2 > 0 then ((triggerSymbol bc2).toUInt32 <<< 8) ||| encode5to8 tag2 else 0x6969)

/-- What `writeFifo` is called with, and the padding of `releaseFifo`. -/
def released (words : List UInt32) : List UInt32 := words ++ [0]

def trigger (bc tag bc2 tag2 : UInt32) : List UInt32 := released [genTrigger bc tag bc2 tag2]

def ecr : List UInt32 := released [0x5a5a6969]

def bcr : List UInt32 := released [0x59596969]

def sync : List UInt32 := released [0x6969817e]

def idle : List UInt32 := released [0x69696969]

def globalPulse (chipId duration : UInt32) : List UInt32 :=
  released [(0x5C5C0000 : UInt32) + (encode5to8 (chipId <<< 1) <<< 8) + encode5to8 (duration <<< 1)]

structure CalFields where
  mode : UInt32
  delay : UInt32
  duration : UInt32
  aux_mode : UInt32
  aux_delay : UInt32

def genCal (chipId : UInt32) (f : CalFields) : UInt32 :=
  (encode5to8 ((chipId <<< 1) + (f.mode &&& 0x1)) <<< 24) +
    (encode5to8 ((f.delay <<< 2) + ((f.duration >>> 4) &&& 0x3)) <<< 16) +
    (encode5to8 (((f.duration &&& 0xF) <<< 1) + (f.aux_mode &&& 0x1)) <<< 8) +
    encode5to8 f.aux_delay

def cal (chipId : UInt32) (f : CalFields) : List UInt32 :=
  released [0x69696363, genCal chipId f]

def wrRegister (chipId address : UInt32) (value : UInt16) : List UInt32 :=
  let value := value.toUInt32
  released [0x69696666,
    (encode5to8 ((chipId &&& 0xF) <<< 1) <<< 24) +
      (encode5to8 ((address >>> 4) &&& 0x1F) <<< 16) +
      (encode5to8 (((address &&& 0xF) <<< 1) + ((value >>> 15) &&& 0x1)) <<< 8) +
      encode5to8 ((value >>> 10) &&& 0x1F),
    (encode5to8 ((value >>> 5) &&& 0x1F) <<< 24) + (encode5to8 (value &&& 0x1F) <<< 16) + 0x6969]

def rdRegister (chipId address : UInt32) : List UInt32 :=
  released [0x69696565,
    (encode5to8 ((chipId &&& 0xF) <<< 1) <<< 24) +
      (encode5to8 ((address >>> 4) &&& 0x1F) <<< 16) +
      (encode5to8 ((address &&& 0xF) <<< 1) <<< 8) + encode5to8 0x0]

/-! ## The calls -/

/-- The calls with fields in range. -/
inductive Command where
  | wrRegister (chipId : Fin 16) (address : Fin 512) (value : UInt16)
  | rdRegister (chipId : Fin 16) (address : Fin 512)
  | cal (chipId : Fin 16) (mode : Fin 2) (delay : Fin 8) (duration : Fin 64) (aux_mode : Fin 2)
      (aux_delay : Fin 32)
  | globalPulse (chipId : Fin 16) (duration : Fin 16)
  | ecr
  | bcr
  | sync
  | idle
  | trigger (bc : Fin 16) (tag : Fin 32) (bc2 : Fin 16) (tag2 : Fin 32)

def arg {n : Nat} (i : Fin n) : UInt32 := UInt32.ofNat i

def Command.words : Command → List UInt32
  | wrRegister chipId address value => Rd53aCmd.wrRegister (arg chipId) (arg address) value
  | rdRegister chipId address => Rd53aCmd.rdRegister (arg chipId) (arg address)
  | cal chipId mode delay duration aux_mode aux_delay =>
      Rd53aCmd.cal (arg chipId) ⟨arg mode, arg delay, arg duration, arg aux_mode, arg aux_delay⟩
  | globalPulse chipId duration => Rd53aCmd.globalPulse (arg chipId) (arg duration)
  | ecr => Rd53aCmd.ecr
  | bcr => Rd53aCmd.bcr
  | sync => Rd53aCmd.sync
  | idle => Rd53aCmd.idle
  | trigger bc tag bc2 tag2 => Rd53aCmd.trigger (arg bc) (arg tag) (arg bc2) (arg tag2)

end Yarr.Rd53.Rd53aCmd
