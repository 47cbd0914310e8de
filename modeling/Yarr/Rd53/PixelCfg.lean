import Yarr.Core.BitField
import Yarr.Core.Bits
import Yarr.Core.Fields
import Yarr.Fei4.Fei4PixelCfg
import Yarr.Rd53.Itkpixv2
import Yarr.Rd53.Rd53a

/-!
# Pixel registers of RD53A and ITKPIXV2

Both chips keep two pixels in a word, the one of the even column in the low
byte. The setters and getters are written out for each register, with masks in
RD53A and with single bits in ITKPIXV2, and the sign of the TDAC has different
meanings.
-/

namespace Yarr.Rd53

/-! ## The byte of a pixel -/

/-- The union `pixelBits`, by its byte. -/
abbrev PixelBits := BitVec 8

namespace PixelBits

def en : BitField 8 := ⟨0, 1, by decide⟩
def injen : BitField 8 := ⟨1, 1, by decide⟩
def hitbus : BitField 8 := ⟨2, 1, by decide⟩
def tdac : BitField 8 := ⟨3, 4, by decide⟩
def sign : BitField 8 := ⟨7, 1, by decide⟩

end PixelBits

/-- Where the byte of a column stands in the word. -/
def byteShift (col : Nat) : Nat := col % 2 * 8

def byteOf (word : UInt16) (col : Nat) : PixelBits := (word.toBitVec >>> byteShift col).setWidth 8

/-- A word with another byte at the place of the column. -/
def setByte (word : UInt16) (col : Nat) (byte : PixelBits) : UInt16 :=
  ⟨(word.toBitVec &&& ~~~((0xFF : BitVec 16) <<< byteShift col)) |||
    (byte.setWidth 16 <<< byteShift col)⟩

theorem getLsbD_byteOf (word : UInt16) (col : Nat) {i : Nat} (hi : i < 8) :
    (byteOf word col).getLsbD i = word.toBitVec.getLsbD (byteShift col + i) := by
  unfold byteOf
  rw [BitVec.getLsbD_setWidth, BitVec.getLsbD_ushiftRight, decide_eq_true hi, Bool.true_and]

theorem getLsbD_0xFF (k : Nat) : (0xFF : BitVec 16).getLsbD k = decide (k < 8) := by
  show (BitVec.ofNat 16 (2 ^ 8 - 1)).getLsbD k = _
  rw [BitVec.getLsbD_ofNat, Nat.testBit_two_pow_sub_one]
  by_cases hk : k < 8
  · simp [hk, Nat.lt_trans hk (by omega : 8 < 16)]
  · simp [hk]

theorem getLsbD_setByte (word : UInt16) (col : Nat) (byte : PixelBits) {j : Nat} (hj : j < 16) :
    (setByte word col byte).toBitVec.getLsbD j =
      if byteShift col ≤ j ∧ j < byteShift col + 8 then byte.getLsbD (j - byteShift col)
      else word.toBitVec.getLsbD j := by
  unfold setByte
  rw [BitVec.getLsbD_or, BitVec.getLsbD_and, BitVec.getLsbD_not, BitVec.getLsbD_shiftLeft,
    getLsbD_0xFF, BitVec.getLsbD_shiftLeft, BitVec.getLsbD_setWidth]
  by_cases hlow : byteShift col ≤ j
  · by_cases hhigh : j < byteShift col + 8
    · have hin : j - byteShift col < 8 := by omega
      have hin' : j - byteShift col < 16 := by omega
      rw [if_pos ⟨hlow, hhigh⟩]
      simp [hj, Nat.not_lt.mpr hlow, hin, hin']
    · have hout : ¬ j - byteShift col < 8 := by omega
      rw [if_neg fun h => hhigh h.2]
      simp [hj, Nat.not_lt.mpr hlow, hout, BitVec.getLsbD_of_ge byte _ (Nat.not_lt.mp hout)]
  · rw [if_neg fun h => hlow h.1]
    simp [hj, Nat.lt_of_not_le hlow]

theorem byteOf_setByte (word : UInt16) (col col' : Nat) (byte : PixelBits) :
    byteOf (setByte word col byte) col' =
      if col' % 2 = col % 2 then byte else byteOf word col' := by
  apply BitVec.eq_of_getLsbD_eq
  intro i hi
  have hshift : byteShift col = col % 2 * 8 := rfl
  have hshift' : byteShift col' = col' % 2 * 8 := rfl
  rw [getLsbD_byteOf _ _ hi, getLsbD_setByte _ _ _ (by omega)]
  by_cases hside : col' % 2 = col % 2
  · have hsame : byteShift col' = byteShift col := by rw [hshift, hshift', hside]
    rw [if_pos hside, hsame, if_pos ⟨Nat.le_add_right _ _, Nat.add_lt_add_left hi _⟩,
      Nat.add_sub_cancel_left]
  · have hout : ¬(byteShift col ≤ byteShift col' + i ∧ byteShift col' + i < byteShift col + 8) := by
      omega
    rw [if_neg hside, if_neg hout, getLsbD_byteOf _ _ hi]

/-- The registers of a pixel that have setters of their own. -/
inductive PixelRegister where
  | En
  | Hitbus
  | InjEn
  | TDAC
  deriving DecidableEq

namespace PixelRegister

/-- The name in a configuration file. -/
def name : PixelRegister → String
  | En => "Enable"
  | Hitbus => "Hitbus"
  | InjEn => "InjEn"
  | TDAC => "TDAC"

/-- In the order of the source. -/
def all : List PixelRegister := [En, Hitbus, InjEn, TDAC]

theorem name_inj {r s : PixelRegister} (h : r.name = s.name) : r = s := by
  revert h
  cases r <;> cases s <;> decide

theorem mem_all (r : PixelRegister) : r ∈ all := by
  cases r <;> decide

end PixelRegister

/-- The pixel section of a file: a number by column, name and row, where there is one. -/
abbrev PixelConfig := Nat × String × Nat → Option Int

section Files

variable {n_Col n_Row : Nat}

/-- The order in which the source goes over columns, rows and registers. -/
def pixelOrder (n_Col n_Row : Nat) : List ((Fin n_Col × Fin n_Row) × PixelRegister) :=
  (List.finRange n_Col).flatMap fun col => (List.finRange n_Row).flatMap fun row =>
    PixelRegister.all.map fun r => ((col, row), r)

def pixelPlace (k : (Fin n_Col × Fin n_Row) × PixelRegister) : Nat × String × Nat :=
  (k.1.1, k.2.name, k.1.2)

theorem mem_pixelOrder (k : (Fin n_Col × Fin n_Row) × PixelRegister) :
    k ∈ pixelOrder n_Col n_Row :=
  List.mem_flatMap.mpr ⟨k.1.1, List.mem_finRange _, List.mem_flatMap.mpr
    ⟨k.1.2, List.mem_finRange _, List.mem_map.mpr ⟨k.2, k.2.mem_all, rfl⟩⟩⟩

theorem pixelPlace_inj (k k' : (Fin n_Col × Fin n_Row) × PixelRegister)
    (h : pixelPlace k = pixelPlace k') : k = k' := by
  have hcol : k.1.1.val = k'.1.1.val := congrArg Prod.fst h
  have hname : k.2.name = k'.2.name := congrArg (fun x => x.2.1) h
  have hrow : k.1.2.val = k'.1.2.val := congrArg (fun x => x.2.2) h
  exact Prod.ext (Prod.ext (Fin.ext hcol) (Fin.ext hrow)) (PixelRegister.name_inj hname)

end Files

/-! ## RD53A -/

namespace Rd53aPixelCfg

section Setters

variable (pixRegs : PixRegs) (col : Fin n_Col) (row : Fin n_Row)

/-- The bits of `mask` are cleared and those of `tmp` set, in the byte of the pixel. -/
def setMasked (mask tmp : PixelBits) : PixRegs :=
  let shift := (col.val &&& 0x1) * 8
  let word := (pixRegs (toIndex col row)).toBitVec &&& (0xFFFF &&& ~~~(mask.setWidth 16 <<< shift))
  let word := word ||| ((0xFF &&& tmp.setWidth 16) <<< shift)
  Function.update pixRegs (toIndex col row) ⟨word⟩

def setEn (v : UInt32) : PixRegs :=
  let mask := PixelBits.en.write 0x0 0x1
  let tmp := PixelBits.en.write 0x0 (v.toBitVec.setWidth 8)
  setMasked pixRegs col row mask tmp

def setHitbus (v : UInt32) : PixRegs :=
  let mask := PixelBits.hitbus.write 0x0 0x1
  let tmp := PixelBits.hitbus.write 0x0 (v.toBitVec.setWidth 8)
  setMasked pixRegs col row mask tmp

def setInjEn (v : UInt32) : PixRegs :=
  let mask := PixelBits.injen.write 0x0 0x1
  let tmp := PixelBits.injen.write 0x0 (v.toBitVec.setWidth 8)
  setMasked pixRegs col row mask tmp

/-- The sign bit is set for the values of the linear and for the negative ones of the
differential front end. -/
def setTDAC (v : Int) : PixRegs :=
  let mask := PixelBits.sign.write (PixelBits.tdac.write 0x0 0xF) 0x1
  let tmp :=
    if col.val < 264 ∧ v ≥ 0 then
      PixelBits.sign.write (PixelBits.tdac.write 0x0 (BitVec.ofInt 8 v)) 0x1
    else if v < 0 ∧ col.val ≥ 264 then
      PixelBits.sign.write (PixelBits.tdac.write 0x0 (BitVec.ofNat 8 v.natAbs)) 0x1
    else PixelBits.sign.write (PixelBits.tdac.write 0x0 (BitVec.ofNat 8 v.natAbs)) 0x0
  setMasked pixRegs col row mask tmp

def pixelBits : PixelBits :=
  ((pixRegs (toIndex col row)).toBitVec >>> (col.val % 2 * 8)).setWidth 8

def getEn : UInt32 := UInt32.ofNat (PixelBits.en.read (pixelBits pixRegs col row)).toNat

def getHitbus : UInt32 := UInt32.ofNat (PixelBits.hitbus.read (pixelBits pixRegs col row)).toNat

def getInjEn : UInt32 := UInt32.ofNat (PixelBits.injen.read (pixelBits pixRegs col row)).toNat

def getTDAC : Int :=
  let tmp := pixelBits pixRegs col row
  let tdac : Int := (PixelBits.tdac.read tmp).toNat
  if PixelBits.sign.read tmp = 0x1 ∧ col.val ≥ 264 then tdac * -1 else tdac

end Setters

/-- The registers by pixel; a file has them as numbers. -/
def registers : Fields PixRegs ((Fin n_Col × Fin n_Row) × PixelRegister) Int where
  get pixRegs k :=
    match k.2 with
    | .En => (getEn pixRegs k.1.1 k.1.2).toNat
    | .Hitbus => (getHitbus pixRegs k.1.1 k.1.2).toNat
    | .InjEn => (getInjEn pixRegs k.1.1 k.1.2).toNat
    | .TDAC => getTDAC pixRegs k.1.1 k.1.2
  set pixRegs k v :=
    match k.2 with
    | .En => setEn pixRegs k.1.1 k.1.2 (UInt32.ofInt v)
    | .Hitbus => setHitbus pixRegs k.1.1 k.1.2 (UInt32.ofInt v)
    | .InjEn => setInjEn pixRegs k.1.1 k.1.2 (UInt32.ofInt v)
    | .TDAC => setTDAC pixRegs k.1.1 k.1.2 v
  Valid k v :=
    match k.2 with
    | .TDAC => if k.1.1.val ≥ 264 then -15 ≤ v ∧ v ≤ 15 else 0 ≤ v ∧ v ≤ 15
    | _ => 0 ≤ v ∧ v ≤ 1

def writeConfig (pixRegs : PixRegs) (j : PixelConfig) : PixelConfig :=
  registers.write pixelPlace (pixelOrder n_Col n_Row) pixRegs j

/-- `none`: the section or a part of it is missing, where nothing is checked. -/
def loadConfig (j : PixelConfig) (pixRegs : PixRegs) : Option PixRegs :=
  registers.load pixelPlace (pixelOrder n_Col n_Row) j pixRegs

end Rd53aPixelCfg

/-! ## ITKPIXV2 -/

namespace Itkpixv2PixelCfg

section Setters

variable (pixRegs : PixelArray) (col : Fin n_Col) (row : Fin n_Row)

/-- An assignment to one word. -/
def setWord (word : UInt16) : PixelArray :=
  fun dc row' => if dc = doubleColumn col ∧ row' = row then word else pixRegs dc row'

def setBit (word : UInt16) (bit : Nat) (val : UInt8) : UInt16 :=
  ⟨(word.toBitVec &&& ~~~((1 : BitVec 16) <<< bit)) ||| (val.toBitVec.setWidth 16 <<< bit)⟩

def setPixelBit (bit : Nat) (v : UInt32) : PixelArray :=
  setWord pixRegs col row
    (setBit (pixRegs (doubleColumn col) row) ((col.val &&& 0x1) * 8 + bit) v.toUInt8)

def setEn (v : UInt32) : PixelArray := setPixelBit pixRegs col row 0 v

def setInjEn (v : UInt32) : PixelArray := setPixelBit pixRegs col row 1 v

def setHitbus (v : UInt32) : PixelArray := setPixelBit pixRegs col row 2 v

def pixelBits : PixelBits :=
  ((pixRegs (doubleColumn col) row).toBitVec >>> ((col.val &&& 0x1) * 8)).setWidth 8

def setTDAC (v : Int) : PixelArray :=
  let reg := PixelBits.tdac.write (pixelBits pixRegs col row) (BitVec.ofNat 8 v.natAbs)
  let reg := PixelBits.sign.write reg (if v < 0 then 0x1 else 0x0)
  let shift := (col.val &&& 0x1) * 8
  setWord pixRegs col row
    ⟨((pixRegs (doubleColumn col) row).toBitVec &&& ~~~((0xFF : BitVec 16) <<< shift)) |||
      (reg.setWidth 16 <<< shift)⟩

def getTDAC : Int :=
  let reg := pixelBits pixRegs col row
  (PixelBits.tdac.read reg).toNat * (if PixelBits.sign.read reg = 0 then 1 else -1)

end Setters

/-- The registers by pixel; a file has them as numbers. -/
def registers : Fields PixelArray ((Fin n_Col × Fin n_Row) × PixelRegister) Int where
  get pixRegs k :=
    match k.2 with
    | .En => (getEn pixRegs k.1.1 k.1.2).toNat
    | .Hitbus => (getHitbus pixRegs k.1.1 k.1.2).toNat
    | .InjEn => (getInjEn pixRegs k.1.1 k.1.2).toNat
    | .TDAC => getTDAC pixRegs k.1.1 k.1.2
  set pixRegs k v :=
    match k.2 with
    | .En => setEn pixRegs k.1.1 k.1.2 (UInt32.ofInt v)
    | .Hitbus => setHitbus pixRegs k.1.1 k.1.2 (UInt32.ofInt v)
    | .InjEn => setInjEn pixRegs k.1.1 k.1.2 (UInt32.ofInt v)
    | .TDAC => setTDAC pixRegs k.1.1 k.1.2 v
  Valid k v :=
    match k.2 with
    | .TDAC => -15 ≤ v ∧ v ≤ 15
    | _ => 0 ≤ v ∧ v ≤ 1

def writeConfig (pixRegs : PixelArray) (j : PixelConfig) : PixelConfig :=
  registers.write pixelPlace (pixelOrder n_Col n_Row) pixRegs j

/-- A file without the section is reported and changes nothing. -/
def loadConfig (j : Option PixelConfig) (pixRegs : PixelArray) : Option PixelArray :=
  match j with
  | none => some pixRegs
  | some j => registers.load pixelPlace (pixelOrder n_Col n_Row) j pixRegs

end Itkpixv2PixelCfg

/-! ## What the setters do to the byte of the pixel -/

theorem and_one (col : Nat) : (col &&& 0x1) * 8 = byteShift col := by
  rw [Nat.and_one_is_mod]
  rfl

theorem masked_eq (word : UInt16) (col : Nat) (mask tmp : PixelBits) :
    (⟨(word.toBitVec &&& (0xFFFF &&& ~~~(mask.setWidth 16 <<< byteShift col))) |||
      ((0xFF &&& tmp.setWidth 16) <<< byteShift col)⟩ : UInt16) =
      setByte word col (BitField.merge (byteOf word col) mask tmp) := by
  have hall : (0xFFFF : BitVec 16) = BitVec.allOnes 16 := rfl
  apply UInt16.toBitVec_inj.mp
  apply BitVec.eq_of_getLsbD_eq
  intro j hj
  rw [getLsbD_setByte _ _ _ hj, hall, BitVec.allOnes_and]
  unfold BitField.merge
  show ((word.toBitVec &&& _) ||| _).getLsbD j = _
  rw [BitVec.getLsbD_or, BitVec.getLsbD_and, BitVec.getLsbD_not, BitVec.getLsbD_shiftLeft,
    BitVec.getLsbD_shiftLeft, BitVec.getLsbD_and, getLsbD_0xFF, BitVec.getLsbD_setWidth,
    BitVec.getLsbD_setWidth]
  by_cases hlow : byteShift col ≤ j
  · by_cases hhigh : j < byteShift col + 8
    · have hin : j - byteShift col < 8 := by omega
      have hin' : j - byteShift col < 16 := by omega
      have hbit := getLsbD_byteOf word col hin
      rw [Nat.add_sub_cancel' hlow] at hbit
      rw [if_pos ⟨hlow, hhigh⟩, BitVec.getLsbD_or, BitVec.getLsbD_and, BitVec.getLsbD_not, hbit]
      simp [hj, Nat.not_lt.mpr hlow, hin, hin']
    · have hout : ¬ j - byteShift col < 8 := by omega
      rw [if_neg fun h => hhigh h.2]
      simp [hj, Nat.not_lt.mpr hlow, hout, BitVec.getLsbD_of_ge mask _ (Nat.not_lt.mp hout)]
  · rw [if_neg fun h => hlow h.1]
    simp [hj, Nat.lt_of_not_le hlow]

theorem setBit_eq (word : UInt16) (col : Nat) {f : BitField 8} (hf : f.bits = 1) {val : UInt8}
    (hval : val.toNat < 2) :
    Itkpixv2PixelCfg.setBit word (byteShift col + f.offset) val =
      setByte word col (f.write (byteOf word col) val.toBitVec) := by
  have hfits := f.fits
  have hshift : byteShift col ≤ 8 := by
    unfold byteShift
    omega
  have hhigh : ∀ k, 0 < k → val.toBitVec.getLsbD k = false := by
    intro k hk
    apply Nat.testBit_lt_two_pow
    exact Nat.lt_of_lt_of_le hval (Nat.le_self_pow (Nat.ne_of_gt hk) 2)
  apply UInt16.toBitVec_inj.mp
  apply BitVec.eq_of_getLsbD_eq
  intro j hj
  rw [getLsbD_setByte _ _ _ hj]
  show ((word.toBitVec &&& ~~~((1 : BitVec 16) <<< (byteShift col + f.offset))) |||
    (val.toBitVec.setWidth 16 <<< (byteShift col + f.offset))).getLsbD j = _
  rw [BitVec.getLsbD_or, BitVec.getLsbD_and, BitVec.getLsbD_not, BitVec.getLsbD_shiftLeft,
    BitVec.getLsbD_shiftLeft, BitVec.getLsbD_setWidth]
  by_cases hbyte : byteShift col ≤ j ∧ j < byteShift col + 8
  · have hbit := getLsbD_byteOf word col (by omega : j - byteShift col < 8)
    rw [Nat.add_sub_cancel' hbyte.1] at hbit
    rw [if_pos hbyte, BitField.getLsbD_write, hbit]
    by_cases hcov : j = byteShift col + f.offset
    · have hzero : j - byteShift col - f.offset = 0 := by omega
      have hplace : j - (byteShift col + f.offset) = 0 := by omega
      have hin : f.Covers (j - byteShift col) := ⟨by omega, by omega⟩
      have hlt : byteShift col + f.offset < 16 := hcov ▸ hj
      rw [if_pos hin, hzero, hplace]
      simp [hcov, hlt]
    · have hout : ¬f.Covers (j - byteShift col) := by
        rintro ⟨hlow, hhigh⟩
        omega
      rw [if_neg hout]
      by_cases hlow : j < byteShift col + f.offset
      · simp [hj, hlow]
      · have hpos : j - (byteShift col + f.offset) ≠ 0 := by omega
        simp [hj, hlow, hpos, hhigh _ (Nat.pos_of_ne_zero hpos), BitVec.getLsbD_one]
  · rw [if_neg hbyte]
    by_cases hlow : j < byteShift col + f.offset
    · simp [hj, hlow]
    · have hpos : j - (byteShift col + f.offset) ≠ 0 := by omega
      simp [hj, hlow, hpos, hhigh _ (Nat.pos_of_ne_zero hpos), BitVec.getLsbD_one]

/-! ## The registers in a byte -/

/-- The registers in the byte of a pixel. `sgn` says when the sign bit is set, and `neg` whether
it means a negative value. -/
def byteRegisters (sgn : Int → Bool) (neg : Bool) : Fields PixelBits PixelRegister Int where
  get byte r :=
    match r with
    | .En => (PixelBits.en.read byte).toNat
    | .Hitbus => (PixelBits.hitbus.read byte).toNat
    | .InjEn => (PixelBits.injen.read byte).toNat
    | .TDAC =>
        if neg && (PixelBits.sign.read byte == 1) then -(PixelBits.tdac.read byte).toNat
        else (PixelBits.tdac.read byte).toNat
  set byte r v :=
    match r with
    | .En => PixelBits.en.write byte (BitVec.ofInt 8 v)
    | .Hitbus => PixelBits.hitbus.write byte (BitVec.ofInt 8 v)
    | .InjEn => PixelBits.injen.write byte (BitVec.ofInt 8 v)
    | .TDAC =>
        PixelBits.sign.write (PixelBits.tdac.write byte (BitVec.ofNat 8 v.natAbs))
          (if sgn v then 1 else 0)
  Valid r v :=
    match r with
    | .TDAC => -15 ≤ v ∧ v ≤ 15 ∧ (neg = false → 0 ≤ v)
    | _ => 0 ≤ v ∧ v ≤ 1

namespace PixelRegister

/-- The bits of the byte that belong to a register. -/
def Covers (r : PixelRegister) (i : Nat) : Prop :=
  match r with
  | .En => PixelBits.en.Covers i
  | .Hitbus => PixelBits.hitbus.Covers i
  | .InjEn => PixelBits.injen.Covers i
  | .TDAC => PixelBits.tdac.Covers i ∨ PixelBits.sign.Covers i

theorem apart {r s : PixelRegister} (h : r ≠ s) {i : Nat} (hr : r.Covers i) : ¬s.Covers i := by
  revert h hr
  cases r <;> cases s <;>
    simp [Covers, BitField.Covers, PixelBits.en, PixelBits.hitbus, PixelBits.injen,
      PixelBits.tdac, PixelBits.sign] <;> omega

end PixelRegister

section ByteRegisters

variable {sgn : Int → Bool} {neg : Bool}

theorem byteRegisters_congr (r : PixelRegister) {a b : PixelBits}
    (h : ∀ i, r.Covers i → a.getLsbD i = b.getLsbD i) :
    (byteRegisters sgn neg).get a r = (byteRegisters sgn neg).get b r := by
  cases r with
  | En =>
      have hread := PixelBits.en.read_congr h
      simp only [byteRegisters, hread]
  | Hitbus =>
      have hread := PixelBits.hitbus.read_congr h
      simp only [byteRegisters, hread]
  | InjEn =>
      have hread := PixelBits.injen.read_congr h
      simp only [byteRegisters, hread]
  | TDAC =>
      have htdac := PixelBits.tdac.read_congr fun i hi => h i (Or.inl hi)
      have hsign := PixelBits.sign.read_congr fun i hi => h i (Or.inr hi)
      simp only [byteRegisters, htdac, hsign]

theorem byteRegisters_kept (r : PixelRegister) (byte : PixelBits) (v : Int) {i : Nat}
    (h : ¬r.Covers i) : ((byteRegisters sgn neg).set byte r v).getLsbD i = byte.getLsbD i := by
  cases r with
  | En => exact (BitField.getLsbD_write PixelBits.en byte _ i).trans (if_neg h)
  | Hitbus => exact (BitField.getLsbD_write PixelBits.hitbus byte _ i).trans (if_neg h)
  | InjEn => exact (BitField.getLsbD_write PixelBits.injen byte _ i).trans (if_neg h)
  | TDAC =>
      show (PixelBits.sign.write (PixelBits.tdac.write byte _) _).getLsbD i = _
      rw [BitField.getLsbD_write, if_neg fun hi => h (Or.inr hi), BitField.getLsbD_write,
        if_neg fun hi => h (Or.inl hi)]

theorem toNat_read_write (f : BitField 8) (byte v : PixelBits) (h : v.toNat < 2 ^ f.bits) :
    (f.read (f.write byte v)).toNat = v.toNat := by
  rw [BitField.read_write, BitField.toNat_and_mask, Nat.mod_eq_of_lt h]

theorem toNat_read_lt (f : BitField 8) (byte : PixelBits) : (f.read byte).toNat < 2 ^ f.bits := by
  unfold BitField.read
  rw [BitField.toNat_and_mask]
  exact Nat.mod_lt _ (Nat.two_pow_pos _)

theorem flag_toNat {v : Int} (hv : 0 ≤ v ∧ v ≤ 1) : ((BitVec.ofInt 8 v).toNat : Int) = v := by
  have hcases : v = 0 ∨ v = 1 := by omega
  rcases hcases with rfl | rfl
  · rfl
  · rfl

theorem flag_back {f : BitField 8} (hf : f.bits = 1) (byte : PixelBits) {v : Int}
    (hv : 0 ≤ v ∧ v ≤ 1) : ((f.read (f.write byte (BitVec.ofInt 8 v))).toNat : Int) = v := by
  have hflag := flag_toNat hv
  rw [toNat_read_write f byte _ (by rw [hf]; omega), hflag]

theorem flag_valid {f : BitField 8} (hf : f.bits = 1) (byte : PixelBits) :
    0 ≤ ((f.read byte).toNat : Int) ∧ ((f.read byte).toNat : Int) ≤ 1 := by
  have hlt := toNat_read_lt f byte
  rw [hf] at hlt
  omega

theorem sign_read (byte : PixelBits) (b : Bool) :
    (PixelBits.sign.read (PixelBits.sign.write byte (if b then 1 else 0)) == 1) = b := by
  rw [BitField.read_write]
  cases b <;> decide

theorem byteRegisters_independent (h : neg = true → ∀ v, sgn v = decide (v < 0)) :
    (byteRegisters sgn neg).Independent where
  get_set byte r v hv := by
    cases r with
    | En => exact flag_back rfl byte hv
    | Hitbus => exact flag_back rfl byte hv
    | InjEn => exact flag_back rfl byte hv
    | TDAC =>
        obtain ⟨hlow, hhigh, hpos⟩ := hv
        have habs : v.natAbs < 2 ^ 4 := by omega
        have hnat : (BitVec.ofNat 8 v.natAbs).toNat = v.natAbs := by
          rw [BitVec.toNat_ofNat]
          omega
        have happart : ∀ i, PixelBits.tdac.Covers i → ¬PixelBits.sign.Covers i := by
          intro i hi hsign
          simp [BitField.Covers, PixelBits.tdac, PixelBits.sign] at hi hsign
          omega
        have hread := toNat_read_write PixelBits.tdac byte (BitVec.ofNat 8 v.natAbs)
          (by rw [hnat]; exact habs)
        simp only [byteRegisters, sign_read, BitField.read_write_of_apart happart, hread, hnat]
        cases neg with
        | false =>
            have hnonneg := hpos rfl
            simp only [Bool.false_and, Bool.false_eq_true, if_false]
            omega
        | true =>
            rw [Bool.true_and, h rfl v]
            by_cases hneg : v < 0
            · rw [if_pos (decide_eq_true hneg)]
              omega
            · rw [if_neg (by simpa using hneg)]
              omega
  get_set_ne byte r s v _ hne :=
    byteRegisters_congr s fun _ hi => byteRegisters_kept r byte v (PixelRegister.apart hne hi)
  valid_get byte r := by
    cases r with
    | En => exact flag_valid rfl byte
    | Hitbus => exact flag_valid rfl byte
    | InjEn => exact flag_valid rfl byte
    | TDAC =>
        have hlt : (PixelBits.tdac.read byte).toNat < 2 ^ 4 := toNat_read_lt PixelBits.tdac byte
        by_cases hsign : (neg && (PixelBits.sign.read byte == 1)) = true
        · have hneg : neg = true := (Bool.and_eq_true_iff.mp hsign).1
          have hget : (byteRegisters sgn neg).get byte .TDAC =
              -((PixelBits.tdac.read byte).toNat : Int) := if_pos hsign
          rw [hget]
          refine ⟨by omega, by omega, fun hfalse => ?_⟩
          rw [hneg] at hfalse
          cases hfalse
        · have hget : (byteRegisters sgn neg).get byte .TDAC =
              ((PixelBits.tdac.read byte).toNat : Int) := if_neg hsign
          rw [hget]
          exact ⟨by omega, by omega, fun _ => by omega⟩

end ByteRegisters

theorem flag_argument {v : Int} (hv : 0 ≤ v ∧ v ≤ 1) :
    (UInt32.ofInt v).toBitVec.setWidth 8 = BitVec.ofInt 8 v ∧
      (UInt32.ofInt v).toUInt8.toBitVec = BitVec.ofInt 8 v ∧
      (UInt32.ofInt v).toUInt8.toNat < 2 := by
  have hcases : v = 0 ∨ v = 1 := by omega
  rcases hcases with rfl | rfl
  · exact ⟨rfl, rfl, by decide⟩
  · exact ⟨rfl, rfl, by decide⟩

theorem toNat_flag (f : BitField 8) (byte : PixelBits) :
    (UInt32.ofNat (f.read byte).toNat).toNat = (f.read byte).toNat := by
  have hlt := (f.read byte).isLt
  rw [UInt32.toNat_ofNat']
  omega

/-! ## RD53A, pixel by pixel -/

namespace Rd53aPixelCfg

theorem eq_of_toIndex {p q : Fin n_Col × Fin n_Row} (hindex : toIndex p.1 p.2 = toIndex q.1 q.2)
    (hside : p.1.val % 2 = q.1.val % 2) : p = q := by
  have hval : p.1.val / 2 * 192 + p.2.val = q.1.val / 2 * 192 + q.2.val := congrArg Fin.val hindex
  have hp : p.2.val < 192 := p.2.isLt
  have hq : q.2.val < 192 := q.2.isLt
  apply Prod.ext
  · apply Fin.ext
    omega
  · apply Fin.ext
    omega

/-- The bytes of the pixels. -/
def bytes : Fields PixRegs (Fin n_Col × Fin n_Row) PixelBits where
  get pixRegs p := byteOf (pixRegs (toIndex p.1 p.2)) p.1
  set pixRegs p byte :=
    Function.update pixRegs (toIndex p.1 p.2) (setByte (pixRegs (toIndex p.1 p.2)) p.1 byte)
  Valid _ _ := True

theorem bytes_independent : bytes.Independent where
  get_set pixRegs p byte _ := by
    show byteOf (Function.update pixRegs _ _ (toIndex p.1 p.2)) p.1 = byte
    rw [Function.update_self, byteOf_setByte, if_pos rfl]
  get_set_ne pixRegs p q byte _ hne := by
    show byteOf (Function.update pixRegs _ _ (toIndex q.1 q.2)) q.1 = byteOf _ q.1
    by_cases hindex : toIndex q.1 q.2 = toIndex p.1 p.2
    · have hside : ¬q.1.val % 2 = p.1.val % 2 := fun hside => hne (eq_of_toIndex hindex hside)
      rw [hindex, Function.update_self, byteOf_setByte, if_neg hside]
    · rw [Function.update_of_ne hindex]
  valid_get _ _ := trivial

section Setters

variable (pixRegs : PixRegs) (p : Fin n_Col × Fin n_Row)

theorem setMasked_eq (mask tmp : PixelBits) :
    setMasked pixRegs p.1 p.2 mask tmp =
      bytes.set pixRegs p (BitField.merge (bytes.get pixRegs p) mask tmp) := by
  unfold setMasked
  rw [and_one]
  exact congrArg (Function.update pixRegs _) (masked_eq _ _ mask tmp)

theorem setMasked_field {f : BitField 8} (v : PixelBits) {ones : PixelBits} (h : ones = f.mask) :
    setMasked pixRegs p.1 p.2 (f.write 0x0 ones) (f.write 0x0 v) =
      bytes.set pixRegs p (f.write (bytes.get pixRegs p) v) := by
  rw [setMasked_eq, h, BitField.merge_write]
  congr 2
  exact BitField.merge_zero _

theorem setTDAC_eq (v : Int) :
    setTDAC pixRegs p.1 p.2 v =
      bytes.set pixRegs p (PixelBits.sign.write
        (PixelBits.tdac.write (bytes.get pixRegs p) (BitVec.ofNat 8 v.natAbs))
        (if (p.1.val < 264 ∧ v ≥ 0) ∨ (v < 0 ∧ p.1.val ≥ 264) then 1 else 0)) := by
  have hmerge : ∀ t s : PixelBits,
      setMasked pixRegs p.1 p.2 (PixelBits.sign.write (PixelBits.tdac.write 0x0 0xF) 0x1)
        (PixelBits.sign.write (PixelBits.tdac.write 0x0 t) s) =
      bytes.set pixRegs p (PixelBits.sign.write
        (PixelBits.tdac.write (bytes.get pixRegs p) t) s) := by
    intro t s
    have hsign : (0x1 : PixelBits) = PixelBits.sign.mask := by rfl
    have htdac : (0xF : PixelBits) = PixelBits.tdac.mask := by rfl
    rw [setMasked_eq, hsign, htdac, BitField.merge_write, BitField.merge_write]
    congr 3
    exact BitField.merge_zero _
  unfold setTDAC
  dsimp only
  by_cases hlin : p.1.val < 264 ∧ v ≥ 0
  · have habs : BitVec.ofInt 8 v = BitVec.ofNat 8 v.natAbs := by
      have hv : (v.natAbs : Int) = v := Int.natAbs_of_nonneg hlin.2
      rw [← hv]
      exact BitVec.ofInt_natCast 8 _
    rw [if_pos hlin, if_pos (Or.inl hlin), habs]
    exact hmerge _ _
  · by_cases hdiff : v < 0 ∧ p.1.val ≥ 264
    · rw [if_neg hlin, if_pos hdiff, if_pos (Or.inr hdiff)]
      exact hmerge _ _
    · rw [if_neg hlin, if_neg hdiff, if_neg (not_or.mpr ⟨hlin, hdiff⟩)]
      exact hmerge _ _

end Setters

/-- When the sign bit is set, by the column. -/
def signBit (col : Fin n_Col) (v : Int) : Bool :=
  (col.val < 264 ∧ v ≥ 0) ∨ (v < 0 ∧ col.val ≥ 264)

/-- Whether the sign bit means a negative value, by the column. -/
def signed (col : Fin n_Col) : Bool := decide (col.val ≥ 264)

theorem signBit_eq {col : Fin n_Col} (h : signed col = true) (v : Int) :
    signBit col v = decide (v < 0) := by
  have hcol : ¬ col.val < 264 := Nat.not_lt.mpr (of_decide_eq_true h)
  have hcol' : col.val ≥ 264 := of_decide_eq_true h
  simp [signBit, hcol, hcol']

theorem registers_get (pixRegs : PixRegs) (p : Fin n_Col × Fin n_Row) (r : PixelRegister) :
    registers.get pixRegs (p, r) =
      (byteRegisters (signBit p.1) (signed p.1)).get (bytes.get pixRegs p) r := by
  cases r with
  | En => exact congrArg Int.ofNat (toNat_flag PixelBits.en (bytes.get pixRegs p))
  | Hitbus => exact congrArg Int.ofNat (toNat_flag PixelBits.hitbus (bytes.get pixRegs p))
  | InjEn => exact congrArg Int.ofNat (toNat_flag PixelBits.injen (bytes.get pixRegs p))
  | TDAC =>
      show (if PixelBits.sign.read (bytes.get pixRegs p) = 0x1 ∧ p.1.val ≥ 264 then
          ((PixelBits.tdac.read (bytes.get pixRegs p)).toNat : Int) * -1
        else (PixelBits.tdac.read (bytes.get pixRegs p)).toNat) =
        if signed p.1 && (PixelBits.sign.read (bytes.get pixRegs p) == 1) then
          -((PixelBits.tdac.read (bytes.get pixRegs p)).toNat : Int)
        else (PixelBits.tdac.read (bytes.get pixRegs p)).toNat
      have hiff : (signed p.1 && (PixelBits.sign.read (bytes.get pixRegs p) == 1)) = true ↔
          PixelBits.sign.read (bytes.get pixRegs p) = 0x1 ∧ p.1.val ≥ 264 := by
        simp [signed, and_comm]
      by_cases hneg : PixelBits.sign.read (bytes.get pixRegs p) = 0x1 ∧ p.1.val ≥ 264
      · rw [if_pos hneg, if_pos (hiff.mpr hneg), Int.mul_neg_one]
      · rw [if_neg hneg, if_neg fun h => hneg (hiff.mp h)]

theorem registers_set (pixRegs : PixRegs) (p : Fin n_Col × Fin n_Row) (r : PixelRegister) {v : Int}
    (hv : (byteRegisters (signBit p.1) (signed p.1)).Valid r v) :
    registers.set pixRegs (p, r) v = bytes.set pixRegs p
      ((byteRegisters (signBit p.1) (signed p.1)).set (bytes.get pixRegs p) r v) := by
  cases r with
  | En =>
      show setEn pixRegs p.1 p.2 (UInt32.ofInt v) = _
      unfold setEn
      rw [(flag_argument hv).1]
      exact setMasked_field pixRegs p _ rfl
  | Hitbus =>
      show setHitbus pixRegs p.1 p.2 (UInt32.ofInt v) = _
      unfold setHitbus
      rw [(flag_argument hv).1]
      exact setMasked_field pixRegs p _ rfl
  | InjEn =>
      show setInjEn pixRegs p.1 p.2 (UInt32.ofInt v) = _
      unfold setInjEn
      rw [(flag_argument hv).1]
      exact setMasked_field pixRegs p _ rfl
  | TDAC =>
      refine (setTDAC_eq pixRegs p v).trans ?_
      show _ = bytes.set pixRegs p (PixelBits.sign.write _ (if signBit p.1 v then 1 else 0))
      simp only [signBit, decide_eq_true_eq]

theorem registers_valid (p : Fin n_Col × Fin n_Row) (r : PixelRegister) (v : Int) :
    registers.Valid (p, r) v ↔ (byteRegisters (signBit p.1) (signed p.1)).Valid r v := by
  cases r with
  | En => exact Iff.rfl
  | Hitbus => exact Iff.rfl
  | InjEn => exact Iff.rfl
  | TDAC =>
      show (if p.1.val ≥ 264 then -15 ≤ v ∧ v ≤ 15 else 0 ≤ v ∧ v ≤ 15) ↔
        -15 ≤ v ∧ v ≤ 15 ∧ (signed p.1 = false → 0 ≤ v)
      unfold signed
      by_cases hcol : p.1.val ≥ 264
      · simp [hcol]
      · simp only [hcol, if_false, decide_false, forall_const]
        omega

theorem registers_independent : registers.Independent := by
  have hinner : ∀ p : Fin n_Col × Fin n_Row,
      (byteRegisters (signBit p.1) (signed p.1)).Independent := fun p =>
    byteRegisters_independent fun h => signBit_eq h
  apply (bytes_independent.comp (fun _ _ => trivial) hinner).congr
  · exact fun pixRegs k => registers_get pixRegs k.1 k.2
  · exact fun pixRegs k v hv => registers_set pixRegs k.1 k.2 hv
  · exact fun k v => registers_valid k.1 k.2 v

end Rd53aPixelCfg

/-! ## ITKPIXV2, pixel by pixel -/

namespace Itkpixv2PixelCfg

/-- The bytes of the pixels. -/
def bytes : Fields PixelArray (Fin n_Col × Fin n_Row) PixelBits where
  get pixRegs p := byteOf (pixRegs (doubleColumn p.1) p.2) p.1
  set pixRegs p byte :=
    setWord pixRegs p.1 p.2 (setByte (pixRegs (doubleColumn p.1) p.2) p.1 byte)
  Valid _ _ := True

theorem bytes_independent : bytes.Independent where
  get_set pixRegs p byte _ := by
    show byteOf (setWord pixRegs p.1 p.2 _ (doubleColumn p.1) p.2) p.1 = byte
    unfold setWord
    rw [if_pos ⟨rfl, rfl⟩, byteOf_setByte, if_pos rfl]
  get_set_ne pixRegs p q byte _ hne := by
    show byteOf (setWord pixRegs p.1 p.2 _ (doubleColumn q.1) q.2) q.1 = byteOf _ q.1
    unfold setWord
    by_cases hpair : doubleColumn q.1 = doubleColumn p.1 ∧ q.2 = p.2
    · have hside : ¬q.1.val % 2 = p.1.val % 2 := by
        intro hside
        have hdc : q.1.val / 2 = p.1.val / 2 := congrArg Fin.val hpair.1
        exact hne (Prod.ext (Fin.ext (by omega)) hpair.2)
      rw [if_pos hpair, byteOf_setByte, if_neg hside, hpair.1, hpair.2]
    · rw [if_neg hpair]
  valid_get _ _ := trivial

section Setters

variable (pixRegs : PixelArray) (p : Fin n_Col × Fin n_Row)

theorem setPixelBit_eq {f : BitField 8} (hf : f.bits = 1) {v : Int} (hv : 0 ≤ v ∧ v ≤ 1) :
    setPixelBit pixRegs p.1 p.2 f.offset (UInt32.ofInt v) =
      bytes.set pixRegs p (f.write (bytes.get pixRegs p) (BitVec.ofInt 8 v)) := by
  obtain ⟨-, hbits, hlt⟩ := flag_argument hv
  unfold setPixelBit
  rw [and_one, setBit_eq _ _ hf hlt, hbits]
  rfl

theorem toNat_read_flag {f : BitField 8} (hf : f.bits = 1) (byte : PixelBits) :
    (f.read byte).toNat = if byte.getLsbD f.offset then 1 else 0 := by
  have hread : f.read byte = if byte.getLsbD f.offset then 1 else 0 := by
    apply BitVec.eq_of_getLsbD_eq
    intro i _
    rw [BitField.getLsbD_read, hf]
    cases i with
    | zero => cases byte.getLsbD f.offset <;> simp
    | succ i => cases byte.getLsbD f.offset <;> simp
  rw [hread]
  split
  · rfl
  · rfl

theorem getPixelBit_toNat {f : BitField 8} (hf : f.bits = 1) :
    (getPixelBit pixRegs p.1 p.2 f.offset).toNat = (f.read (bytes.get pixRegs p)).toNat := by
  have hfits := f.fits
  have hoff : f.offset < 8 := by omega
  have hbit : (bytes.get pixRegs p).getLsbD f.offset =
      (pixRegs (doubleColumn p.1) p.2).toBitVec.getLsbD (p.1.val % 2 * 8 + f.offset) :=
    getLsbD_byteOf _ _ hoff
  rw [getPixelBit_eq pixRegs p.1 p.2 hoff, toNat_read_flag hf, hbit]
  split
  · rfl
  · rfl

theorem setTDAC_eq (v : Int) :
    setTDAC pixRegs p.1 p.2 v =
      bytes.set pixRegs p (PixelBits.sign.write
        (PixelBits.tdac.write (bytes.get pixRegs p) (BitVec.ofNat 8 v.natAbs))
        (if v < 0 then 1 else 0)) := by
  unfold setTDAC pixelBits
  dsimp only
  rw [and_one]
  rfl

end Setters

def signBit (v : Int) : Bool := v < 0

theorem registers_get (pixRegs : PixelArray) (p : Fin n_Col × Fin n_Row) (r : PixelRegister) :
    registers.get pixRegs (p, r) = (byteRegisters signBit true).get (bytes.get pixRegs p) r := by
  cases r with
  | En => exact congrArg Int.ofNat (getPixelBit_toNat pixRegs p (f := PixelBits.en) rfl)
  | Hitbus => exact congrArg Int.ofNat (getPixelBit_toNat pixRegs p (f := PixelBits.hitbus) rfl)
  | InjEn => exact congrArg Int.ofNat (getPixelBit_toNat pixRegs p (f := PixelBits.injen) rfl)
  | TDAC =>
      have hbyte : pixelBits pixRegs p.1 p.2 = bytes.get pixRegs p := by
        unfold pixelBits
        rw [and_one]
        rfl
      show getTDAC pixRegs p.1 p.2 =
        if true && (PixelBits.sign.read (bytes.get pixRegs p) == 1) then
          -((PixelBits.tdac.read (bytes.get pixRegs p)).toNat : Int)
        else (PixelBits.tdac.read (bytes.get pixRegs p)).toNat
      have hsign : PixelBits.sign.read (bytes.get pixRegs p) = 0 ∨
          PixelBits.sign.read (bytes.get pixRegs p) = 1 := by
        have hlt : (PixelBits.sign.read (bytes.get pixRegs p)).toNat < 2 ^ 1 :=
          toNat_read_lt PixelBits.sign (bytes.get pixRegs p)
        rw [← BitVec.toNat_inj, ← BitVec.toNat_inj]
        show _ = 0 ∨ _ = 1
        omega
      unfold getTDAC
      dsimp only
      rw [hbyte, Bool.true_and]
      rcases hsign with hsign | hsign
      · rw [hsign]
        exact Int.mul_one _
      · rw [hsign]
        exact Int.mul_neg_one _

theorem registers_set (pixRegs : PixelArray) (p : Fin n_Col × Fin n_Row) (r : PixelRegister)
    {v : Int} (hv : (byteRegisters signBit true).Valid r v) :
    registers.set pixRegs (p, r) v =
      bytes.set pixRegs p ((byteRegisters signBit true).set (bytes.get pixRegs p) r v) := by
  cases r with
  | En => exact setPixelBit_eq pixRegs p (f := PixelBits.en) rfl hv
  | Hitbus => exact setPixelBit_eq pixRegs p (f := PixelBits.hitbus) rfl hv
  | InjEn => exact setPixelBit_eq pixRegs p (f := PixelBits.injen) rfl hv
  | TDAC =>
      refine (setTDAC_eq pixRegs p v).trans ?_
      show _ = bytes.set pixRegs p (PixelBits.sign.write _ (if signBit v then 1 else 0))
      simp only [signBit, decide_eq_true_eq]

theorem registers_valid (p : Fin n_Col × Fin n_Row) (r : PixelRegister) (v : Int) :
    registers.Valid (p, r) v ↔ (byteRegisters signBit true).Valid r v := by
  cases r with
  | En => exact Iff.rfl
  | Hitbus => exact Iff.rfl
  | InjEn => exact Iff.rfl
  | TDAC =>
      show -15 ≤ v ∧ v ≤ 15 ↔ -15 ≤ v ∧ v ≤ 15 ∧ (true = false → 0 ≤ v)
      simp

theorem registers_independent : registers.Independent := by
  have hinner : ∀ _ : Fin n_Col × Fin n_Row, (byteRegisters signBit true).Independent := fun _ =>
    byteRegisters_independent fun _ _ => rfl
  apply (bytes_independent.comp (fun _ _ => trivial) hinner).congr
  · exact fun pixRegs k => registers_get pixRegs k.1 k.2
  · exact fun pixRegs k v hv => registers_set pixRegs k.1 k.2 hv
  · exact fun k v => registers_valid k.1 k.2 v

end Itkpixv2PixelCfg

/-! ## The three chips -/

open Fei4 in
/-- In each chip a setter brings back its value and disturbs no other register of any pixel, and
a configuration file makes all getters agree with those of the state that it was written from. -/
theorem pixel_registers :
    (Fei4PixelCfg.registers.Independent ∧
      ∀ (cfg other : Fei4PixelCfg) (j : Fei4PixelCfg.PixelConfig), ∃ loaded,
        Fei4PixelCfg.loadConfig (some (cfg.writeConfig j)) other = some loaded ∧
          ∀ k, Fei4PixelCfg.registers.get loaded k = Fei4PixelCfg.registers.get cfg k) ∧
    (Rd53aPixelCfg.registers.Independent ∧
      ∀ (pixRegs other : Rd53aPixelCfg.PixRegs) (j : PixelConfig), ∃ loaded,
        Rd53aPixelCfg.loadConfig (Rd53aPixelCfg.writeConfig pixRegs j) other = some loaded ∧
          ∀ k, Rd53aPixelCfg.registers.get loaded k = Rd53aPixelCfg.registers.get pixRegs k) ∧
    (Itkpixv2PixelCfg.registers.Independent ∧
      ∀ (pixRegs other : Itkpixv2PixelCfg.PixelArray) (j : PixelConfig), ∃ loaded,
        Itkpixv2PixelCfg.loadConfig (some (Itkpixv2PixelCfg.writeConfig pixRegs j)) other =
            some loaded ∧
          ∀ k, Itkpixv2PixelCfg.registers.get loaded k =
            Itkpixv2PixelCfg.registers.get pixRegs k) := by
  refine ⟨⟨Fei4PixelCfg.registers_independent, ?_⟩, ⟨Rd53aPixelCfg.registers_independent, ?_⟩,
    ⟨Itkpixv2PixelCfg.registers_independent, ?_⟩⟩
  · intro cfg other j
    rcases Fei4PixelCfg.registers_independent.load_write Fei4PixelCfg.place_inj cfg other j with
      ⟨loaded, hload, hget⟩
    exact ⟨loaded, hload, fun k => hget k (Fei4PixelCfg.mem_order k)⟩
  · intro pixRegs other j
    rcases Rd53aPixelCfg.registers_independent.load_write pixelPlace_inj pixRegs other j with
      ⟨loaded, hload, hget⟩
    exact ⟨loaded, hload, fun k => hget k (mem_pixelOrder k)⟩
  · intro pixRegs other j
    rcases Itkpixv2PixelCfg.registers_independent.load_write pixelPlace_inj pixRegs other j with
      ⟨loaded, hload, hget⟩
    exact ⟨loaded, hload, fun k => hget k (mem_pixelOrder k)⟩

end Yarr.Rd53
