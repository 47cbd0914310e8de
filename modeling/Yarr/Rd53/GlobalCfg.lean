import Mathlib.Data.List.Pairwise
import Yarr.Core.BitField
import Yarr.Core.Maps

/-!
# Global configuration registers

The global configuration of a front-end chip is an array of 16-bit words. A
named register is a field of one of them; a virtual register stands for the
difference of two registers or for several registers at once. `ITKPIXV2` and
`RD53B` have the same register classes and different tables.
-/

namespace Yarr.Rd53

/-- The words `m_cfg` of a chip. -/
abbrev Words (numRegs : Nat) := Vector UInt16 numRegs

/-- A named register: its address, the word that its pointer goes to, and the bits of it. -/
structure RegDefault (numRegs : Nat) where
  m_addr : Fin numRegs
  m_cfg : Fin numRegs
  m_bOffset : Nat
  m_bits : Nat
  fits : m_bOffset + m_bits ≤ 16 := by decide
  deriving DecidableEq

namespace RegDefault

variable {numRegs : Nat} (r : RegDefault numRegs)

def mask : UInt32 := (1 <<< UInt32.ofNat r.m_bits) - 1

/-- The arithmetic is that of `unsigned`. -/
def writeWord (word value : UInt16) : UInt16 :=
  ((word.toUInt32 &&& ~~~(r.mask <<< UInt32.ofNat r.m_bOffset))
    ||| ((value.toUInt32 &&& r.mask) <<< UInt32.ofNat r.m_bOffset)).toUInt16

def readWord (word : UInt16) : UInt16 :=
  ((word.toUInt32 >>> UInt32.ofNat r.m_bOffset) &&& r.mask).toUInt16

def write (cfg : Words numRegs) (value : UInt16) : Words numRegs :=
  cfg.set r.m_cfg (r.writeWord cfg[r.m_cfg] value)

def read (cfg : Words numRegs) : UInt16 := r.readWord cfg[r.m_cfg]

def field : BitField 16 := ⟨r.m_bOffset, r.m_bits, r.fits⟩

end RegDefault

/-- The classes of registers. -/
inductive Reg (numRegs : Nat) where
  | default (r : RegDefault numRegs)
  | diff (lowRef highRef : RegDefault numRegs) (changeHigh : Bool)
  | multi (regList : List (RegDefault numRegs))

namespace Reg

variable {numRegs : Nat}

/-- A difference out of range is reported and not written. -/
def write (cfg : Words numRegs) (value : UInt16) : Reg numRegs → Words numRegs
  | default r => r.write cfg value
  | diff lowRef highRef changeHigh =>
      let highValue := highRef.read cfg
      let lowValue := lowRef.read cfg
      if changeHigh then
        if lowValue.toNat + value.toNat < 2 ^ highRef.m_bits then
          highRef.write cfg (value + lowValue)
        else cfg
      else
        if value.toNat ≤ highValue.toNat then lowRef.write cfg (highValue - value) else cfg
  | multi regList => regList.foldl (fun cfg reg => reg.write cfg value) cfg

def read (cfg : Words numRegs) : Reg numRegs → UInt16
  | default r => r.read cfg
  | diff lowRef highRef _ => highRef.read cfg - lowRef.read cfg
  | multi [] => 0
  | multi (reg :: _) => reg.read cfg

/-- Of several registers only the first is written in the chip. -/
def addr [NeZero numRegs] : Reg numRegs → Fin numRegs
  | default r => r.m_addr
  | diff lowRef highRef changeHigh => if changeHigh then highRef.m_addr else lowRef.m_addr
  | multi [] => 0
  | multi (reg :: _) => reg.m_addr

end Reg

/-- One line of `init`: a register, its name and its default. -/
structure RegInit (numRegs : Nat) where
  name : String
  reg : RegDefault numRegs
  value : UInt16

/-- The tables of a chip, and the name of its section in a configuration file. -/
structure GlobalCfg (numRegs : Nat) where
  chip : String
  regs : List (RegInit numRegs)
  virtRegMap : NameMap (Reg numRegs)

namespace GlobalCfg

variable {numRegs : Nat} (g : GlobalCfg numRegs)

def init : Words numRegs :=
  g.regs.foldl (fun cfg line => line.reg.write cfg line.value) (Vector.replicate numRegs 0)

/-- `init` enters every register under its name. -/
def regMap : NameMap (RegDefault numRegs) :=
  NameMap.ofList (g.regs.map fun line => (line.name, line.reg))

/-- `regMap` comes before `virtRegMap`. -/
def findReg (name : String) : Option (Reg numRegs) :=
  match g.regMap.find name with
  | some r => some (.default r)
  | none => g.virtRegMap.find name

def getValue (cfg : Words numRegs) (name : String) : UInt16 :=
  match g.findReg name with
  | some r => r.read cfg
  | none => 0

def setValue (cfg : Words numRegs) (name : String) (value : UInt16) : Words numRegs :=
  match g.findReg name with
  | some r => r.write cfg value
  | none => cfg

/-- `j[chip]["GlobalConfig"][name] = read()`. -/
def writeReg (cfg : Words numRegs) (j : Json) (reg : String × RegDefault numRegs) :
    Option Json :=
  j.update g.chip fun j => j.update "GlobalConfig" fun j =>
    j.set reg.1 (.int (reg.2.read cfg).toNat)

def writeConfig (cfg : Words numRegs) (j : Json) : Option Json :=
  g.regMap.foldlM (g.writeReg cfg) j

/-- A register that the file does not have keeps its value. -/
def loadReg (jconfig : Json) (cfg : Words numRegs) (reg : String × RegDefault numRegs) :
    Option (Words numRegs) :=
  match jconfig.find reg.1 with
  | some v => v.toUInt16.map (reg.2.write cfg)
  | none => some cfg

def loadConfig (cfg : Words numRegs) (j : Json) : Option (Words numRegs) :=
  match (j.find g.chip).bind (Json.find · "GlobalConfig") with
  | some jconfig => g.regMap.foldlM (loadReg jconfig) cfg
  | none => some cfg

end GlobalCfg

end Yarr.Rd53

/-!
## Laws of the registers

Reading and writing a named register are reading and writing a bit field of
its word. Two registers disturb each other only if they cover a bit together.
-/

namespace Yarr.Rd53

namespace RegDefault

variable {numRegs : Nat} (r s : RegDefault numRegs)

/-! ## One word -/

theorem toNat_ofNat_m_bits : (UInt32.ofNat r.m_bits).toBitVec.toNat = r.m_bits := by
  have hfits := r.fits
  rw [UInt32.toBitVec_ofNat', BitVec.toNat_ofNat]
  omega

theorem toNat_ofNat_m_bOffset : (UInt32.ofNat r.m_bOffset).toBitVec.toNat = r.m_bOffset := by
  have hfits := r.fits
  rw [UInt32.toBitVec_ofNat', BitVec.toNat_ofNat]
  omega

theorem getLsbD_mask (i : Nat) : r.mask.toBitVec.getLsbD i = decide (i < r.m_bits) := by
  have hfits := r.fits
  have hmask : r.mask.toBitVec = (BitField.mask ⟨0, r.m_bits, by omega⟩ : BitVec 32) := by
    apply BitVec.eq_of_toNat_eq
    have hpow := Nat.pow_le_pow_right (by omega : 0 < 2) (by omega : r.m_bits ≤ 16)
    have hpos := Nat.two_pow_pos r.m_bits
    rw [mask, UInt32.toBitVec_sub, UInt32.toBitVec_shiftLeft, BitField.mask]
    simp only [BitVec.toNat_sub, BitVec.toNat_ofNat, BitVec.shiftLeft_eq', BitVec.toNat_umod,
      BitVec.toNat_shiftLeft, toNat_ofNat_m_bits]
    have hbits : r.m_bits % 32 = r.m_bits := by omega
    simp [Nat.shiftLeft_eq, hbits]
    omega
  rw [hmask, BitField.getLsbD_mask]

theorem toBitVec_writeWord (word value : UInt16) :
    (r.writeWord word value).toBitVec = r.field.write word.toBitVec value.toBitVec := by
  have hfits := r.fits
  have hoff : r.m_bOffset % 32 = r.m_bOffset := by omega
  apply BitVec.eq_of_getLsbD_eq
  intro i hi
  rw [BitField.getLsbD_write]
  simp only [writeWord, UInt32.toBitVec_toUInt16, UInt32.toBitVec_or, UInt32.toBitVec_and,
    UInt32.toBitVec_not, UInt32.toBitVec_shiftLeft, UInt16.toBitVec_toUInt32,
    BitVec.shiftLeft_eq', BitVec.toNat_umod, toNat_ofNat_m_bOffset, BitVec.getLsbD_setWidth,
    BitVec.getLsbD_or, BitVec.getLsbD_and, BitVec.getLsbD_not, BitVec.getLsbD_shiftLeft,
    getLsbD_mask, field, BitField.Covers, BitVec.natCast_eq_ofNat, BitVec.toNat_ofNat, hoff]
  have hi32 : i < 32 := by omega
  by_cases hlow : i < r.m_bOffset
  · have hcov : ¬ (r.m_bOffset ≤ i ∧ i < r.m_bOffset + r.m_bits) := by omega
    simp [hi, hi32, hlow, hcov, hoff]
  · by_cases hin : i - r.m_bOffset < r.m_bits
    · have hcov : r.m_bOffset ≤ i ∧ i < r.m_bOffset + r.m_bits := by omega
      have hdiff : i - r.m_bOffset < 32 := by omega
      simp [hi, hi32, hlow, hcov, hin, hoff, hdiff]
    · have hcov : ¬ (r.m_bOffset ≤ i ∧ i < r.m_bOffset + r.m_bits) := by omega
      simp [hi, hi32, hlow, hcov, hin, hoff]

theorem toBitVec_readWord (word : UInt16) :
    (r.readWord word).toBitVec = r.field.read word.toBitVec := by
  have hfits := r.fits
  have hoff : r.m_bOffset % 32 = r.m_bOffset := by omega
  apply BitVec.eq_of_getLsbD_eq
  intro i hi
  rw [BitField.getLsbD_read]
  simp only [readWord, UInt32.toBitVec_toUInt16, UInt32.toBitVec_and, UInt32.toBitVec_shiftRight,
    UInt16.toBitVec_toUInt32, BitVec.ushiftRight_eq', BitVec.toNat_umod, toNat_ofNat_m_bOffset,
    BitVec.getLsbD_setWidth, BitVec.getLsbD_and, BitVec.getLsbD_ushiftRight, getLsbD_mask, field,
    BitVec.natCast_eq_ofNat, BitVec.toNat_ofNat]
  by_cases hin : i < r.m_bits
  · have hsum : r.m_bOffset + i < 32 := by omega
    simp [hi, hin, hoff, hsum]
  · simp [hin]

variable {r} in
theorem writeWord_of_whole (hoffset : r.m_bOffset = 0) (hbits : r.m_bits = 16)
    (word value : UInt16) : r.writeWord word value = value := by
  apply UInt16.toBitVec_inj.mp
  apply BitVec.eq_of_getLsbD_eq
  intro i hi
  have hcovers : r.field.Covers i := by
    show r.m_bOffset ≤ i ∧ i < r.m_bOffset + r.m_bits
    rw [hoffset, hbits]
    omega
  have hfield : r.field.offset = 0 := hoffset
  rw [toBitVec_writeWord, BitField.getLsbD_write, if_pos hcovers, hfield, Nat.sub_zero]

/-! ## The words of a chip -/

/-- Bit `i` of word `k`. -/
def bitAt (cfg : Words numRegs) (k : Fin numRegs) (i : Nat) : Bool := cfg[k].toBitVec.getLsbD i

/-- The register covers bit `i` of word `k`. -/
def Covers (k : Fin numRegs) (i : Nat) : Prop := k = r.m_cfg ∧ r.field.Covers i

/-- No bit belongs to both registers. -/
def Apart : Prop := ∀ k i, r.Covers k i → ¬ s.Covers k i

theorem getElem_write (cfg : Words numRegs) (value : UInt16) (k : Fin numRegs) :
    (r.write cfg value)[k] = if k = r.m_cfg then r.writeWord cfg[k] value else cfg[k] := by
  rw [write]
  by_cases hk : k = r.m_cfg
  · subst hk
    simp
  · have hne : (r.m_cfg : Nat) ≠ k := fun h => hk (Fin.ext h.symm)
    simp [hk, hne]

omit r in
theorem getElem_set (words : Words numRegs) (i k : Fin numRegs) (x : UInt16) :
    (words.set i x)[k] = if k = i then x else words[k] := by
  by_cases hk : k = i
  · subst hk
    simp
  · have hne : (i : Nat) ≠ k := fun h => hk (Fin.ext h.symm)
    simp [hk, hne]

theorem read_set_of_ne {a : Fin numRegs} (h : r.m_cfg ≠ a) (cfg : Words numRegs) (x : UInt16) :
    r.read (cfg.set a x) = r.read cfg := by
  rw [read, read, getElem_set, if_neg h]

theorem read_set_copy (cfg source : Words numRegs) :
    r.read (cfg.set r.m_cfg source[r.m_cfg]) = r.read source := by
  rw [read, read, getElem_set, if_pos rfl]

theorem bitAt_write (cfg : Words numRegs) (value : UInt16) (k : Fin numRegs) (i : Nat) :
    r.Covers k i ∧ bitAt (r.write cfg value) k i = value.toBitVec.getLsbD (i - r.m_bOffset) ∨
      ¬ r.Covers k i ∧ bitAt (r.write cfg value) k i = bitAt cfg k i := by
  rw [bitAt, bitAt, getElem_write]
  by_cases hk : k = r.m_cfg
  · rw [if_pos hk, toBitVec_writeWord, BitField.getLsbD_write]
    by_cases hcov : r.field.Covers i
    · rw [if_pos hcov]
      exact Or.inl ⟨⟨hk, hcov⟩, rfl⟩
    · rw [if_neg hcov]
      exact Or.inr ⟨fun h => hcov h.2, rfl⟩
  · rw [if_neg hk]
    exact Or.inr ⟨fun h => hk h.1, rfl⟩

theorem read_congr {cfg cfg' : Words numRegs}
    (h : ∀ k i, r.Covers k i → bitAt cfg k i = bitAt cfg' k i) : r.read cfg = r.read cfg' := by
  apply UInt16.toBitVec_inj.mp
  rw [read, read, toBitVec_readWord, toBitVec_readWord]
  apply BitField.read_congr
  intro i hcov
  exact h r.m_cfg i ⟨rfl, hcov⟩

theorem read_write (cfg : Words numRegs) (value : UInt16) :
    (r.read (r.write cfg value)).toNat = value.toNat % 2 ^ r.m_bits := by
  have hword : (r.write cfg value)[r.m_cfg] = r.writeWord cfg[r.m_cfg] value := by
    rw [getElem_write, if_pos rfl]
  have h := BitField.read_write r.field cfg[r.m_cfg].toBitVec value.toBitVec
  rw [← toBitVec_writeWord, ← toBitVec_readWord, ← hword] at h
  have htoNat := congrArg BitVec.toNat h
  rw [BitField.toNat_and_mask] at htoNat
  exact htoNat

theorem writeWord_eq_self_iff (word value : UInt16) :
    r.writeWord word value = word ↔ value.toNat % 2 ^ r.m_bits = (r.readWord word).toNat := by
  rw [← UInt16.toBitVec_inj, toBitVec_writeWord, BitField.write_eq_self_iff,
    ← BitVec.toNat_inj, BitField.toNat_and_mask, ← toBitVec_readWord]
  exact Iff.rfl

theorem read_write_of_apart {r s : RegDefault numRegs} (h : r.Apart s) (cfg : Words numRegs)
    (value : UInt16) : s.read (r.write cfg value) = s.read cfg := by
  apply read_congr
  intro k i hcov
  rcases r.bitAt_write cfg value k i with ⟨hr, -⟩ | ⟨-, hbit⟩
  · exact absurd hcov (h k i hr)
  · exact hbit

theorem bitAt_write_read (cfg source : Words numRegs) (k : Fin numRegs) (i : Nat) :
    r.Covers k i ∧ bitAt (r.write cfg (r.read source)) k i = bitAt source k i ∨
      ¬ r.Covers k i ∧ bitAt (r.write cfg (r.read source)) k i = bitAt cfg k i := by
  rcases r.bitAt_write cfg (r.read source) k i with ⟨⟨hk, hcov⟩, hbit⟩ | hother
  · apply Or.inl
    constructor
    · exact ⟨hk, hcov⟩
    · obtain ⟨hlow, hhigh⟩ := hcov
      have hlow' : r.m_bOffset ≤ i := hlow
      have hin : i - r.m_bOffset < r.field.bits := by
        have hhigh' : i < r.m_bOffset + r.m_bits := hhigh
        show i - r.m_bOffset < r.m_bits
        omega
      have hback : r.field.offset + (i - r.m_bOffset) = i := by
        show r.m_bOffset + (i - r.m_bOffset) = i
        omega
      rw [hbit, read, toBitVec_readWord, BitField.getLsbD_read, hback, decide_eq_true hin,
        Bool.true_and, bitAt, hk]
  · exact Or.inr hother

end RegDefault

end Yarr.Rd53
