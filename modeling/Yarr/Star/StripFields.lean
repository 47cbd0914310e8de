import Yarr.Star.ChipIDs
import Yarr.Star.SubRegisters

/-!
# Trims and masks of strips

A trim has four bits in one register and one bit in another, a mask has one
bit. The strips of an ABC share 40 and eight registers.
-/

namespace Yarr.Star

namespace ABCStarRegister

/-- `ABCStarRegisters::TrimLo`. -/
def TrimLo (i : Nat) : Nat := TrimDAC0 + i

/-- `ABCStarRegisters::TrimHi`. -/
def TrimHi (i : Nat) : Nat := TrimDAC32 + i

/-- `ABCStarRegisters::MaskInput`. -/
def MaskInput (i : Nat) : Nat := MaskInput0 + i

end ABCStarRegister

namespace AbcCfg

open ABCStarRegister

variable (abc : AbcCfg)

/-- A channel or a value out of range is logged, and nothing is set. -/
def setTrimDACRaw (channel : Nat) (value : Int) : Except Failure AbcCfg :=
  if StripsPerABC ≤ channel ∨ value < 0 ∨ 31 < value then .ok abc
  else do
    let lo_reg := TrimLo (channel / 8)
    let hi_reg := TrimHi (channel / 32)
    let lo_val := UInt32.ofInt value &&& 0xf
    let hi_val := (UInt32.ofInt value >>> 4) &&& 1
    let lo_offset := UInt32.ofNat (channel * 4 % 32)
    let hi_offset := UInt32.ofNat (channel % 32)
    let lo_reg_value ← abc.getRegisterValue lo_reg
    let hi_reg_value ← abc.getRegisterValue hi_reg
    let lo_reg_value := (lo_reg_value &&& ~~~(0xf <<< lo_offset)) ||| (lo_val <<< lo_offset)
    let hi_reg_value := (hi_reg_value &&& ~~~(0x1 <<< hi_offset)) ||| (hi_val <<< hi_offset)
    let abc ← abc.setRegisterValue lo_reg lo_reg_value
    abc.setRegisterValue hi_reg hi_reg_value

/-- From the order of strips to the order in the trim registers. -/
def trimRegOrderFromChannel (chn : UInt8) : UInt8 :=
  ((chn &&& (0x7e : UInt8)) <<< (1 : UInt8)) ||| (chn &&& (0x1 : UInt8)) |||
    ((chn &&& (0x80 : UInt8)) >>> (6 : UInt8))

def setMask (channel : Nat) (mask : Bool) : Except Failure AbcCfg := do
  let maskIndex := ((channel &&& 0x7f) <<< 1) ||| ((channel &&& 0x80) >>> 7)
  let maskReg := MaskInput ((maskIndex >>> 5) &&& 0x7)
  let maskValue ← abc.getRegisterValue maskReg
  let maskPattern : UInt32 := 1 <<< UInt32.ofNat (maskIndex &&& 0x1f)
  abc.setRegisterValue maskReg
    (if mask then maskValue ||| maskPattern else maskValue &&& ~~~maskPattern)

/-! ## Trims -/

def trimLoField (channel : Nat) : SubRegisterInfo := ⟨TrimLo (channel / 8), channel * 4 % 32, 4⟩

def trimHiField (channel : Nat) : SubRegisterInfo := ⟨TrimHi (channel / 32), channel % 32, 1⟩

theorem trimLoField_inside (channel : Nat) : (trimLoField channel).Inside := by
  have hmod : channel * 4 % 32 = 4 * (channel % 8) := by omega
  have hlt := Nat.mod_lt channel (by omega : 8 > 0)
  unfold trimLoField
  exact ⟨by dsimp only; omega, by dsimp only; omega, by dsimp only; omega⟩

theorem trimHiField_inside (channel : Nat) : (trimHiField channel).Inside := by
  have hlt := Nat.mod_lt channel (by omega : 32 > 0)
  unfold trimHiField
  exact ⟨by dsimp only; omega, by dsimp only; omega, by dsimp only; omega⟩

theorem trimLoField_maskBits (channel : Nat) : (trimLoField channel).maskBits = 0xf := by
  show (1 <<< UInt32.ofNat 4) - 1 = (0xf : UInt32)
  decide

theorem trimHiField_maskBits (channel : Nat) : (trimHiField channel).maskBits = 0x1 := by
  show (1 <<< UInt32.ofNat 1) - 1 = (0x1 : UInt32)
  decide

theorem trimRegisters_mem (version_1 : Bool) {channel : Nat} (h : channel < StripsPerABC) :
    TrimLo (channel / 8) ∈ abcAddresses version_1 ∧
      TrimHi (channel / 32) ∈ abcAddresses version_1 := by
  have hall : ∀ v : Bool, (∀ k < 32, TrimLo k ∈ abcAddresses v) ∧
      ∀ k < 8, TrimHi k ∈ abcAddresses v := by decide +kernel
  have hlt : channel < 256 := h
  exact ⟨(hall version_1).1 _ (by omega), (hall version_1).2 _ (by omega)⟩

theorem getTrimDACRaw_eq (channel : Nat) :
    abc.getTrimDACRaw channel =
      16 * (trimHiField channel).getValue (abc.registers.value (TrimHi (channel / 32))).toNat +
        (trimLoField channel).getValue (abc.registers.value (TrimLo (channel / 8))).toNat := by
  have hlo := (trimLoField_inside channel).getValue_lt
    (abc.registers.value (TrimLo (channel / 8)))
  have hor := Nat.shiftLeft_add_eq_or_of_lt (i := 4) hlo
    ((trimHiField channel).getValue (abc.registers.value (TrimHi (channel / 32))).toNat)
  rw [Nat.shiftLeft_eq, Nat.mul_comm] at hor
  have hshift : ∀ (info : SubRegisterInfo) (reg : Nat),
      info.getValue reg = (reg >>> info.m_bOffset) &&& ((1 <<< info.m_width) - 1) := by
    intro info reg
    unfold SubRegisterInfo.getValue
    dsimp only
    rw [Nat.shiftRight_and_distrib, Nat.shiftLeft_shiftRight]
  rw [hor, Nat.mul_comm, ← Nat.shiftLeft_eq, hshift, hshift]
  rfl

/-- The ABC after the trim of a channel was set. -/
def withTrim (channel : Nat) (value : UInt32) : AbcCfg :=
  (abc.written (TrimLo (channel / 8)) ⟨(trimLoField_inside channel).field.write
    (abc.registers.value (TrimLo (channel / 8))).toBitVec value.toBitVec⟩).written
    (TrimHi (channel / 32)) ⟨(trimHiField_inside channel).field.write
      (abc.registers.value (TrimHi (channel / 32))).toBitVec (value >>> 4).toBitVec⟩

theorem setTrimDACRaw_eq {channel : Nat} (h : channel < StripsPerABC) (value : Int) :
    abc.setTrimDACRaw channel value =
      if 0 ≤ value ∧ value ≤ 31 then .ok (abc.withTrim channel (UInt32.ofInt value))
      else .ok abc := by
  have hmem := trimRegisters_mem abc.version_1 h
  unfold setTrimDACRaw
  by_cases hv : 0 ≤ value ∧ value ≤ 31
  · have hlo : abc.getRegisterValue (TrimLo (channel / 8)) =
        .ok (abc.registers.value (TrimLo (channel / 8))) := if_pos hmem.1
    have hhi : abc.getRegisterValue (TrimHi (channel / 32)) =
        .ok (abc.registers.value (TrimHi (channel / 32))) := if_pos hmem.2
    have hlowrite := (trimLoField_inside channel).write_eq
      (abc.registers.value (TrimLo (channel / 8))) (UInt32.ofInt value)
    have hhiwrite := (trimHiField_inside channel).write_eq
      (abc.registers.value (TrimHi (channel / 32))) (UInt32.ofInt value >>> 4)
    rw [trimLoField_maskBits] at hlowrite
    rw [trimHiField_maskBits] at hhiwrite
    rw [if_neg (by simp only [not_or]; omega), if_pos hv]
    dsimp only
    rw [hlo, hhi]
    show (abc.setRegisterValue _ _ >>= fun abc => abc.setRegisterValue _ _) = _
    rw [abc.setRegisterValue_eq hmem.1]
    show AbcCfg.setRegisterValue _ _ _ = _
    rw [setRegisterValue_eq (abc.written _ _) (by exact hmem.2)]
    unfold withTrim
    rw [← hlowrite, ← hhiwrite]
    rfl
  · rw [if_pos (by omega), if_neg hv]

theorem trimLo_ne_trimHi {i : Nat} (hi : i < 32) (j : Nat) : TrimLo i ≠ TrimHi j := by
  unfold TrimLo TrimHi TrimDAC0 TrimDAC32
  omega

theorem trimLoField_apart {c channel : Nat} (hne : c ≠ channel) :
    (trimLoField channel).Apart (trimLoField c) := by
  intro haddr
  have hsame : TrimDAC0 + channel / 8 = TrimDAC0 + c / 8 := haddr
  show channel * 4 % 32 + 4 ≤ c * 4 % 32 ∨ c * 4 % 32 + 4 ≤ channel * 4 % 32
  omega

theorem trimHiField_apart {c channel : Nat} (hne : c ≠ channel) :
    (trimHiField channel).Apart (trimHiField c) := by
  intro haddr
  have hsame : TrimDAC32 + channel / 32 = TrimDAC32 + c / 32 := haddr
  show channel % 32 + 1 ≤ c % 32 ∨ c % 32 + 1 ≤ channel % 32
  omega

/-- The trim of the channel is the new value, the trims of all others are the old ones. -/
theorem getTrimDACRaw_withTrim {channel c : Nat} (h : channel < StripsPerABC)
    (hc : c < StripsPerABC) {value : UInt32} (hvalue : value.toNat < 32) :
    (abc.withTrim channel value).getTrimDACRaw c =
      if c = channel then value.toNat else abc.getTrimDACRaw c := by
  have hlt : channel < 256 := h
  have hlt' : c < 256 := hc
  have hlo : (abc.withTrim channel value).registers.value (TrimLo (c / 8)) =
      Function.update abc.registers.value (TrimLo (channel / 8))
        ⟨(trimLoField_inside channel).field.write
          (abc.registers.value (TrimLo (channel / 8))).toBitVec value.toBitVec⟩ (TrimLo (c / 8)) :=
    Function.update_of_ne (trimLo_ne_trimHi (by omega) _) _ _
  have hhi : (abc.withTrim channel value).registers.value (TrimHi (c / 32)) =
      Function.update abc.registers.value (TrimHi (channel / 32))
        ⟨(trimHiField_inside channel).field.write
          (abc.registers.value (TrimHi (channel / 32))).toBitVec (value >>> 4).toBitVec⟩
        (TrimHi (c / 32)) := by
    have hcomm := Function.update_comm (trimLo_ne_trimHi (i := channel / 8) (by omega) (channel / 32))
      (⟨(trimLoField_inside channel).field.write
        (abc.registers.value (TrimLo (channel / 8))).toBitVec value.toBitVec⟩ : UInt32)
      ⟨(trimHiField_inside channel).field.write
        (abc.registers.value (TrimHi (channel / 32))).toBitVec (value >>> 4).toBitVec⟩
      abc.registers.value
    apply (congrFun hcomm (TrimHi (c / 32))).trans
    exact Function.update_of_ne (trimLo_ne_trimHi (by omega) _).symm _ _
  rw [getTrimDACRaw_eq, hlo, hhi]
  by_cases heq : c = channel
  · subst heq
    rw [if_pos rfl, Function.update_self, Function.update_self,
      (trimLoField_inside c).getValue_write, (trimHiField_inside c).getValue_write,
      UInt32.toNat_shiftRight]
    show 16 * (value.toNat >>> 4 % 2 ^ 1) + value.toNat % 2 ^ 4 = value.toNat
    rw [Nat.shiftRight_eq_div_pow]
    omega
  · rw [if_neg heq, getTrimDACRaw_eq]
    exact congrArg₂ (fun hi lo => 16 * hi + lo)
      ((trimHiField_inside channel).getValue_apart (trimHiField_inside c) (trimHiField_apart heq) _ _)
      ((trimLoField_inside channel).getValue_apart (trimLoField_inside c) (trimLoField_apart heq) _ _)

/-- A trim after the setter was called. -/
def storedTrim (channel : Nat) (value : Int) : AbcCfg :=
  if 0 ≤ value ∧ value ≤ 31 then abc.withTrim channel (UInt32.ofInt value) else abc

/-- An address that holds no trims. -/
def NoTrim (addr : Nat) : Prop :=
  ∀ c, c < StripsPerABC → addr ≠ TrimLo (c / 8) ∧ addr ≠ TrimHi (c / 32)

@[simp] theorem storedTrim_id (channel : Nat) (value : Int) :
    (abc.storedTrim channel value).m_abcID = abc.m_abcID := by
  unfold storedTrim
  split <;> rfl

section Stored

variable {channel : Nat} (h : channel < StripsPerABC) (value : Int)

include h

theorem setTrimDACRaw_ok : abc.setTrimDACRaw channel value = .ok (abc.storedTrim channel value) := by
  rw [abc.setTrimDACRaw_eq h]
  unfold storedTrim
  split <;> rfl

theorem getTrimDACRaw_storedTrim {c : Nat} (hc : c < StripsPerABC) :
    ((abc.storedTrim channel value).getTrimDACRaw c : Int) =
      if c = channel ∧ 0 ≤ value ∧ value ≤ 31 then value else abc.getTrimDACRaw c := by
  unfold storedTrim
  by_cases hv : 0 ≤ value ∧ value ≤ 31
  · have hnat : (UInt32.ofInt value).toNat = value.toNat := by
      rw [UInt32.ofInt, UInt32.toNat_ofNat']
      omega
    rw [if_pos hv, abc.getTrimDACRaw_withTrim h hc (by rw [hnat]; omega), hnat]
    by_cases heq : c = channel
    · rw [if_pos heq, if_pos ⟨heq, hv⟩]
      omega
    · rw [if_neg heq, if_neg fun hboth => heq hboth.1]
  · rw [if_neg hv, if_neg fun hboth => hv hboth.2]

theorem value_storedTrim {addr : Nat} (haddr : NoTrim addr) :
    (abc.storedTrim channel value).registers.value addr = abc.registers.value addr := by
  have hne := haddr channel h
  unfold storedTrim
  by_cases hv : 0 ≤ value ∧ value ≤ 31
  · rw [if_pos hv]
    unfold withTrim
    rw [written_ne _ hne.2, written_ne _ hne.1]
  · rw [if_neg hv]

end Stored

/-! ## Masks -/

/-- From the order of strips to the order in the mask registers. -/
def maskIndex (channel : Nat) : Nat := ((channel &&& 0x7f) <<< 1) ||| ((channel &&& 0x80) >>> 7)

def maskWord (channel : Nat) : Nat := (maskIndex channel >>> 5) &&& 0x7

def maskBit (channel : Nat) : Nat := maskIndex channel &&& 0x1f

theorem mask_inj {c d : Nat} (hc : c < StripsPerABC) (hd : d < StripsPerABC)
    (hword : maskWord c = maskWord d) (hbit : maskBit c = maskBit d) : c = d := by
  have hback : ∀ c < 256, (32 * maskWord c + maskBit c) / 2 + 128 * (maskBit c % 2) = c := by
    decide +kernel
  rw [← hback c hc, ← hback d hd, hword, hbit]

theorem maskWord_mem (version_1 : Bool) (channel : Nat) :
    MaskInput (maskWord channel) ∈ abcAddresses version_1 := by
  have hall : ∀ v : Bool, ∀ k < 8, MaskInput k ∈ abcAddresses v := by decide +kernel
  exact hall version_1 _ (Nat.lt_of_le_of_lt Nat.and_le_right (by omega))

theorem maskBit_lt (channel : Nat) : maskBit channel < 32 :=
  Nat.lt_of_le_of_lt Nat.and_le_right (by omega)

theorem isMasked_eq (channel : Nat) : abc.isMasked channel =
    (abc.registers.value (MaskInput (maskWord channel))).toNat.testBit (maskBit channel) := rfl

theorem testBit_pattern (x : UInt32) (mask : Bool) {b : Nat} (hb : b < 32) (i : Nat) :
    (if mask then x ||| (1 <<< UInt32.ofNat b) else x &&& ~~~(1 <<< UInt32.ofNat b)).toNat.testBit i =
      if i = b then mask else x.toNat.testBit i := by
  have hpattern : ∀ i, ((1 : UInt32) <<< UInt32.ofNat b).toBitVec.getLsbD i = decide (b = i) := by
    intro i
    rw [Bits.toBitVec_shiftLeft_ofNat 1 hb, UInt32.toBitVec_one,
      ← BitVec.twoPow_eq, BitVec.getLsbD_twoPow, decide_eq_true hb, Bool.true_and]
  have hbits : ∀ y : UInt32, y.toNat.testBit i = y.toBitVec.getLsbD i := fun _ => rfl
  rw [hbits, hbits]
  cases mask with
  | true =>
      rw [if_pos rfl, UInt32.toBitVec_or, BitVec.getLsbD_or, hpattern]
      by_cases hi : i = b
      · simp [hi]
      · simp [hi, Ne.symm hi]
  | false =>
      rw [if_neg Bool.false_ne_true, UInt32.toBitVec_and, UInt32.toBitVec_not, BitVec.getLsbD_and,
        BitVec.getLsbD_not, hpattern]
      by_cases hi : i = b
      · simp [hi]
      · rw [if_neg hi]
        by_cases hlt : i < 32
        · simp [hlt, Ne.symm hi]
        · rw [BitVec.getLsbD_of_ge _ _ (by omega), Bool.false_and]

/-- The ABC after the mask of a channel was set. -/
def withMask (channel : Nat) (mask : Bool) : AbcCfg :=
  let maskValue := abc.registers.value (MaskInput (maskWord channel))
  abc.written (MaskInput (maskWord channel))
    (if mask then maskValue ||| (1 <<< UInt32.ofNat (maskBit channel))
      else maskValue &&& ~~~(1 <<< UInt32.ofNat (maskBit channel)))

theorem setMask_eq (channel : Nat) (mask : Bool) :
    abc.setMask channel mask = .ok (abc.withMask channel mask) := by
  have hmem := maskWord_mem abc.version_1 channel
  have hget : abc.getRegisterValue (MaskInput (maskWord channel)) =
      .ok (abc.registers.value (MaskInput (maskWord channel))) := if_pos hmem
  show (do
    let maskValue ← abc.getRegisterValue (MaskInput (maskWord channel))
    abc.setRegisterValue (MaskInput (maskWord channel))
      (if mask then maskValue ||| (1 <<< UInt32.ofNat (maskBit channel))
        else maskValue &&& ~~~(1 <<< UInt32.ofNat (maskBit channel)))) = _
  rw [hget]
  exact abc.setRegisterValue_eq hmem _

/-- The mask of the channel is the new one, the masks of all others are the old ones. -/
theorem isMasked_withMask {channel c : Nat} (h : channel < StripsPerABC) (hc : c < StripsPerABC)
    (mask : Bool) :
    (abc.withMask channel mask).isMasked c = if c = channel then mask else abc.isMasked c := by
  have hpattern := testBit_pattern (abc.registers.value (MaskInput (maskWord channel))) mask
    (maskBit_lt channel)
  rw [isMasked_eq, isMasked_eq]
  by_cases hword : maskWord c = maskWord channel
  · have hreg : (abc.withMask channel mask).registers.value (MaskInput (maskWord c)) =
        if mask then abc.registers.value (MaskInput (maskWord channel)) |||
            (1 <<< UInt32.ofNat (maskBit channel))
          else abc.registers.value (MaskInput (maskWord channel)) &&&
            ~~~(1 <<< UInt32.ofNat (maskBit channel)) := by
      rw [hword]
      exact Function.update_self _ _ _
    rw [hreg, hpattern, hword]
    by_cases hbit : maskBit c = maskBit channel
    · rw [if_pos hbit, if_pos (mask_inj hc h hword hbit)]
    · rw [if_neg hbit, if_neg (fun heq => hbit (congrArg maskBit heq))]
  · have hreg : (abc.withMask channel mask).registers.value (MaskInput (maskWord c)) =
        abc.registers.value (MaskInput (maskWord c)) := by
      apply Function.update_of_ne
      intro heq
      exact hword (Nat.add_left_cancel heq)
    rw [hreg, if_neg (fun heq => hword (congrArg maskWord heq))]

end AbcCfg

/-- Fields of registers, trims and masks do not disturb each other. -/
theorem register_fields_apart :
    FieldSetter AbcCfg.setSubRegister AbcCfg.getSubRegister AbcCfg.fieldWidth ∧
    FieldSetter HccCfg.setSubRegister HccCfg.getSubRegister HccCfg.fieldWidth ∧
    (∀ (abc : AbcCfg) (c : Fin StripsPerABC) (v : Fin 32), ∃ abc' : AbcCfg,
      abc.setTrimDACRaw c v = .ok abc' ∧
      ∀ d : Fin StripsPerABC, abc'.getTrimDACRaw d = if d = c then v.val else abc.getTrimDACRaw d) ∧
    (∀ (abc : AbcCfg) (c : Fin StripsPerABC) (m : Bool), ∃ abc' : AbcCfg,
      abc.setMask c m = .ok abc' ∧
      ∀ d : Fin StripsPerABC, abc'.isMasked d = if d = c then m else abc.isMasked d) := by
  apply And.intro AbcCfg.fieldSetter
  apply And.intro HccCfg.fieldSetter
  apply And.intro
  · intro abc c v
    have hset := abc.setTrimDACRaw_eq c.isLt v
    rw [if_pos ⟨by omega, by omega⟩] at hset
    apply Exists.intro _
    apply And.intro hset
    intro d
    have hvalue : (UInt32.ofInt (v.val : Int)).toNat = v.val := by
      rw [UInt32.ofInt, UInt32.toNat_ofNat']
      omega
    rw [abc.getTrimDACRaw_withTrim c.isLt d.isLt (by omega), hvalue]
    simp only [Fin.ext_iff]
  · intro abc c m
    apply Exists.intro _
    apply And.intro (abc.setMask_eq c m)
    intro d
    rw [abc.isMasked_withMask c.isLt d.isLt m]
    simp only [Fin.ext_iff]

end Yarr.Star
