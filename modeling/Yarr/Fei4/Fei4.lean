import Yarr.Core.BitField
import Yarr.Fei4.Fei4PixelCfg

/-!
# Global registers of the FE-I4

A register is a field of one of 36 words. In some of them the bits stand in
reverse order. The registers below are those that the emulator looks at and
that the download of the pixel registers writes.
-/

namespace Yarr.Fei4

/-! ## Reversing bits -/

namespace BitOps

def reverseLoop : Nat → Nat → Nat → Nat
  | 0, _, nrev => nrev
  | bits + 1, n, nrev => reverseLoop bits (n >>> 1) ((nrev ||| (n &&& 1)) <<< 1)

/-- The lowest `bits` bits in reverse order. -/
def reverse_bits (n bits : Nat) : Nat := reverseLoop bits n 0 >>> 1

theorem testBit_reverseLoop (bits n r i : Nat) :
    (reverseLoop bits n (r <<< 1) >>> 1).testBit i =
      if i < bits then n.testBit (bits - 1 - i) else r.testBit (i - bits) := by
  induction bits generalizing n r i with
  | zero => simp [reverseLoop]
  | succ bits ih =>
      rw [reverseLoop, ih]
      by_cases hlow : i < bits
      · rw [if_pos hlow, if_pos (Nat.lt_succ_of_lt hlow), Nat.testBit_shiftRight]
        exact congrArg n.testBit (by omega)
      · rw [if_neg hlow, Nat.testBit_or, Nat.testBit_and, Nat.testBit_shiftLeft]
        by_cases heq : i = bits
        · subst heq
          simp
        · have hpos : i - bits = i - (bits + 1) + 1 := by omega
          have hnot : ¬ i < bits + 1 := by omega
          rw [if_neg hnot, hpos, Nat.testBit_succ 1]
          simp

theorem testBit_reverse_bits (n bits i : Nat) :
    (reverse_bits n bits).testBit i = (decide (i < bits) && n.testBit (bits - 1 - i)) := by
  have hloop := testBit_reverseLoop bits n 0 i
  rw [Nat.zero_shiftLeft] at hloop
  rw [reverse_bits, hloop]
  by_cases hi : i < bits
  · simp [hi]
  · simp [hi]

theorem reverse_bits_reverse_bits (n bits : Nat) :
    reverse_bits (reverse_bits n bits) bits = n % 2 ^ bits := by
  apply Nat.eq_of_testBit_eq
  intro i
  rw [testBit_reverse_bits, testBit_reverse_bits, Nat.testBit_mod_two_pow]
  by_cases hi : i < bits
  · have hin : bits - 1 - i < bits := by omega
    have hback : bits - 1 - (bits - 1 - i) = i := by omega
    simp [hi, hin, hback]
  · simp [hi]

theorem reverse_bits_lt (n bits : Nat) : reverse_bits n bits < 2 ^ bits := by
  apply Nat.lt_pow_two_of_testBit
  intro i hi
  rw [testBit_reverse_bits]
  simp [Nat.not_lt.mpr hi]

end BitOps

/-! ## Registers -/

abbrev numRegs : Nat := 36

/-- The words `cfg` of the global registers. -/
abbrev Fei4GlobalCfg := Vector UInt16 numRegs

structure Fei4Register where
  m_mOffset : Fin numRegs
  field : BitField 16
  m_msbRight : Bool

namespace Fei4Register

/-- The arguments of `initReg`: word, lowest bit and number of bits. -/
def initReg (mOffset : Fin numRegs) (bOffset mask : Nat) (msbRight : Bool)
    (h : ¬16 < bOffset + mask) : Fei4Register :=
  ⟨mOffset, ⟨bOffset, mask, Nat.le_of_not_lt h⟩, msbRight⟩

variable (r : Fei4Register) (cfg : Fei4GlobalCfg)

def value : Nat :=
  let tmp := (r.field.read cfg[r.m_mOffset].toBitVec).toNat
  if r.m_msbRight then BitOps.reverse_bits tmp r.field.bits else tmp

def write (cfgBits : Nat) : Fei4GlobalCfg :=
  let bits := if r.m_msbRight then BitOps.reverse_bits cfgBits r.field.bits else cfgBits
  cfg.set r.m_mOffset
    (UInt16.ofBitVec (r.field.write cfg[r.m_mOffset].toBitVec (BitVec.ofNat 16 bits)))

/-! The registers, as `init` places them. -/

def Trig_Count := initReg 1 0xC 4 false (by omega)
def S1 := initReg 13 0xF 1 false (by omega)
def S0 := initReg 13 0xE 1 false (by omega)
def Pixel_latch_strobe := initReg 13 0x1 13 true (by omega)
def Vthin_Coarse := initReg 20 0x8 8 true (by omega)
def Vthin_Fine := initReg 20 0x0 8 true (by omega)
def HitLD := initReg 21 0xC 1 false (by omega)
def DigHitIn_Sel := initReg 21 0xA 1 false (by omega)
def PlsrDAC := initReg 21 0x0 10 true (by omega)
def Colpr_Mode := initReg 22 0x8 2 true (by omega)
def Colpr_Addr := initReg 22 0x2 6 true (by omega)
def HitDiscCnfg := initReg 26 0x0 2 false (by omega)
def Latch_Enable := initReg 27 0x2 1 false (by omega)
def SR_Clock := initReg 27 0x1 1 false (by omega)

/-! ## What a write does -/

/-- The register is in another word, or it has other bits of the word. -/
def Apart (r s : Fei4Register) : Prop :=
  r.m_mOffset ≠ s.m_mOffset ∨ r.field.offset + r.field.bits ≤ s.field.offset ∨
    s.field.offset + s.field.bits ≤ r.field.offset

instance (r s : Fei4Register) : Decidable (Apart r s) := inferInstanceAs (Decidable (_ ∨ _))

theorem getElem_write (cfgBits : Nat) (i : Fin numRegs) (h : i ≠ r.m_mOffset) :
    getElem (r.write cfg cfgBits) i i.isLt = getElem cfg i i.isLt := by
  unfold write
  rw [getElem_set, if_neg h]

theorem toBitVec_write (cfgBits : Nat) :
    (r.write cfg cfgBits)[r.m_mOffset].toBitVec =
      r.field.write cfg[r.m_mOffset].toBitVec
        (BitVec.ofNat 16
          (if r.m_msbRight then BitOps.reverse_bits cfgBits r.field.bits else cfgBits)) := by
  unfold write
  rw [getElem_set, if_pos rfl]

theorem read_lt (x : BitVec 16) : (r.field.read x).toNat < 2 ^ r.field.bits := by
  rw [BitField.read, BitField.toNat_and_mask]
  exact Nat.mod_lt _ (Nat.two_pow_pos _)

theorem value_lt : r.value cfg < 2 ^ r.field.bits := by
  unfold value
  dsimp only
  split
  · exact BitOps.reverse_bits_lt _ _
  · exact read_lt r _

theorem mod_field (v : Nat) : v % 2 ^ 16 % 2 ^ r.field.bits = v % 2 ^ r.field.bits :=
  Nat.mod_mod_of_dvd v (Nat.pow_dvd_pow 2 (Nat.le_of_add_left_le r.field.fits))

theorem value_write (cfgBits : Nat) :
    r.value (r.write cfg cfgBits) = cfgBits % 2 ^ r.field.bits := by
  unfold value
  dsimp only
  rw [toBitVec_write, BitField.read_write, BitField.toNat_and_mask, BitVec.toNat_ofNat, mod_field]
  by_cases hmsb : r.m_msbRight
  · rw [if_pos hmsb, if_pos hmsb, Nat.mod_eq_of_lt (BitOps.reverse_bits_lt _ _),
      BitOps.reverse_bits_reverse_bits]
  · rw [if_neg hmsb, if_neg hmsb]

theorem value_write_of_apart {r s : Fei4Register} (h : Apart r s) (cfg : Fei4GlobalCfg)
    (cfgBits : Nat) : r.value (s.write cfg cfgBits) = r.value cfg := by
  have hread : r.field.read (s.write cfg cfgBits)[r.m_mOffset].toBitVec =
      r.field.read cfg[r.m_mOffset].toBitVec := by
    by_cases hword : r.m_mOffset = s.m_mOffset
    · have happart : ∀ i, r.field.Covers i → ¬s.field.Covers i := by
        intro i hi hs
        have hr := hi
        unfold BitField.Covers at hr hs
        rcases h with hne | hlow | hhigh
        · exact hne hword
        · omega
        · omega
      have hget := congrArg (fun i : Fin numRegs => (s.write cfg cfgBits)[i].toBitVec) hword
      have hold := congrArg (fun i : Fin numRegs => cfg[i].toBitVec) hword
      rw [hget, hold, toBitVec_write]
      exact BitField.read_write_of_apart happart _ _
    · rw [getElem_write s cfg cfgBits r.m_mOffset hword]
  unfold value
  dsimp only
  rw [hread]

end Fei4Register

end Yarr.Fei4

/-!
## The front end of the FE-I4

The words of the commands go to the FIFO of the transmitter. A register is
changed in the software copy first, and its whole word is sent then.
-/

namespace Yarr

open Fei4 in
/-- The software copy of the registers, and the words that were written to the FIFO. -/
structure Fei4 where
  chipId : UInt32
  cfg : Fei4GlobalCfg
  pixels : Fei4PixelCfg
  fifo : List UInt32

namespace Fei4

open Fei4Register

variable (fe : Fei4)

/-! ## Commands -/

def writeFifo (values : List UInt32) : Fei4 := { fe with fifo := fe.fifo ++ values }

/-- The field of a command for the chip that it is for. -/
def chipField : UInt32 := (fe.chipId <<< (6 : UInt32)) &&& 0x3C0

def wrRegister (address : Fin numRegs) (value : UInt16) : Fei4 :=
  fe.writeFifo [0x005A0800 + fe.chipField + (UInt32.ofNat address &&& 0x3F),
    (value.toUInt32 <<< (16 : UInt32)) &&& 0xFFFF0000]

/-- The last word of the stream is sent first. -/
def wrFrontEnd (bitstream : DoubleColumnBit) : Fei4 :=
  fe.writeFifo ((0x005A1000 + fe.chipField) :: bitstream.toList.reverse)

def globalPulse (width : UInt32) : Fei4 :=
  fe.writeFifo [0x005A2400 + fe.chipField + (width &&& 0x3F)]

/-! ## Registers -/

def setValue (ref : Fei4Register) (cfgBits : Nat) : Fei4 :=
  { fe with cfg := ref.write fe.cfg cfgBits }

/-- `writeRegister` without a value: the word of the register is sent as it is. -/
def sendRegister (ref : Fei4Register) : Fei4 := fe.wrRegister ref.m_mOffset fe.cfg[ref.m_mOffset]

def writeRegister (ref : Fei4Register) (cfgBits : Nat) : Fei4 :=
  (fe.setValue ref cfgBits).sendRegister ref

/-! ## Pixels -/

def loadIntoPixel (pixel_latch : Nat) : Fei4 :=
  let fe := fe.writeRegister Pixel_latch_strobe pixel_latch
  let fe := fe.writeRegister Latch_Enable 0x1
  let fe := fe.globalPulse 10
  let fe := fe.writeRegister Latch_Enable 0x0
  fe.writeRegister Pixel_latch_strobe 0x0

/-- A latch of a double column; `none` where the stream is a null pointer. -/
def configureLatch (dc : Fin n_DC) (bit : Nat) : Option Fei4 :=
  (fe.pixels.getCfg bit dc).map fun bitstream => (fe.wrFrontEnd bitstream).loadIntoPixel (1 <<< bit)

def configureColumn (lsb msb : Nat) (dc : Fin n_DC) : Option Fei4 :=
  (List.range' lsb (msb - lsb)).foldlM (fun (fe : Fei4) bit => fe.configureLatch dc bit)
    (fe.writeRegister Colpr_Addr dc)

def configurePixels (lsb msb : Nat) : Option Fei4 :=
  let tmp := Vthin_Coarse.value fe.cfg
  let fe := fe.writeRegister Vthin_Coarse 255
  let fe := fe.writeRegister Colpr_Mode 0x0
  let columns :=
    (List.finRange n_DC).foldlM (fun (fe : Fei4) dc => fe.configureColumn lsb msb dc) fe
  columns.map fun fe => (fe.setValue Vthin_Coarse tmp).sendRegister Vthin_Coarse

end Fei4

end Yarr
