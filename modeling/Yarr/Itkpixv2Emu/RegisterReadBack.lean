import Yarr.Core.Bits
import Yarr.Itkpixv2Emu.CommandExe

/-!
# Reading registers back from the ITKPIXV2 emulator

The answer to a read command is a service block of 64 bits, sent in two words.
The driver has two functions that take it apart.
-/

namespace Yarr.Itkpixv2Emu

open Rd53 Itkpixv2GlobalCfg Itkpixv2PixelCfg

/-! ## The service block -/

namespace CommandExe

/-- The frame code, the chip, no status, ten bits of address and sixteen of value. -/
def serviceBlock (m_chipId : UInt32) (addressField value : UInt64) : UInt64 :=
  let auroraKWord : UInt64 := 0x99
  let id : UInt64 := (m_chipId &&& 0x3).toUInt64
  let status : UInt64 := 0
  let block : UInt64 := 0
  let block := block ||| (auroraKWord <<< 56)
  let block := block ||| (id <<< 54)
  let block := block ||| (status <<< 52)
  let block := block ||| (addressField <<< 42)
  block ||| (value <<< 26)

theorem col_lt_of_pair {col row : Nat} (hpair : col < n_DC ∧ row < n_Row) : col < n_DC := hpair.1

theorem row_lt_of_pair {col row : Nat} (hpair : col < n_DC ∧ row < n_Row) : row < n_Row := hpair.2

/-- The pair that the pixel portal addresses. `none`: outside of the matrix. -/
def portal (s : CommandExe) : Option UInt16 :=
  let col := (PixRegionCol.read s.m_cfg).toNat
  let row := (PixRegionRow.read s.m_cfg).toNat
  if hpair : col < n_DC ∧ row < n_Row then
    some (s.pixRegs ⟨col, col_lt_of_pair hpair⟩ ⟨row, row_lt_of_pair hpair⟩)
  else none

/-- The case of address 0, with the value and the row after it. -/
def readPortal (s : CommandExe) : Option (UInt64 × CommandExe) :=
  s.portal.map fun pair => (pair.toUInt64, s.stepRow)

/--
The state after the command and the two words. There is no `break` after the case
of address 0, so that the default case follows it in every case: it sets the
address and adds the global register. `none`: the pair is outside of the matrix,
or there is no such register, where the program ends.
-/
def doRdReg (m_chipId : UInt32) (s : CommandExe) (cmd : Cmd) : Option (CommandExe × List UInt32) :=
  (if cmd.address = 0 then s.readPortal else some (0, s)).bind fun ahead =>
    if haddress : cmd.address.toNat < numRegs then
      let value := ahead.1 ||| ahead.2.m_cfg[cmd.address.toNat].toUInt64
      let block := serviceBlock m_chipId cmd.address.toUInt64 value
      some (ahead.2, [(block >>> 32).toUInt32, (block &&& 0xFFFFFFFF).toUInt32])
    else none

end CommandExe

/-! ## The driver -/

/-- What a decoder returns, and whether it logs that it could not decode. -/
structure Decoded (α : Type) where
  output : α
  error : Bool
  deriving DecidableEq

def decodeSingleRegRead (higher lower : UInt32) : Decoded (UInt32 × UInt32) :=
  if higher &&& 0x55000000 = 0x55000000 then
    ⟨((lower >>> (16 : UInt32)) &&& 0x3FF, lower &&& 0xFFFF), false⟩
  else if higher &&& 0x99000000 = 0x99000000 then
    ⟨((higher >>> (10 : UInt32)) &&& 0x3FF,
      ((lower >>> (26 : UInt32)) &&& 0x3F) + ((higher &&& 0x3FF) <<< (6 : UInt32))), false⟩
  else ⟨(999, 666), true⟩

def decodeSingleRegReadID (higher lower : UInt32) : Decoded (UInt8 × UInt32 × UInt32) :=
  if higher &&& 0xFF000000 = 0x55000000 then
    ⟨(((higher >>> (22 : UInt32)) &&& 0x3).toUInt8, (lower >>> (16 : UInt32)) &&& 0x3FF,
      lower &&& 0xFFFF), false⟩
  else if higher &&& 0xFF000000 = 0x99000000 then
    ⟨(((higher >>> (22 : UInt32)) &&& 0x3).toUInt8, (higher >>> (10 : UInt32)) &&& 0x3FF,
      ((lower >>> (26 : UInt32)) &&& 0x3F) + ((higher &&& 0x3FF) <<< (6 : UInt32))), false⟩
  else ⟨(16, 999, 666), true⟩

/-! ## What is asked of them -/

namespace CommandExe

/-- The address and the value that an address stands for. -/
def registerAt (s : CommandExe) (address : UInt32) : Option (UInt32 × UInt32) :=
  if address = 0 then
    s.portal.map fun pair => (0x200 + (PixRegionRow.read s.m_cfg).toUInt32, pair.toUInt32)
  else s.m_cfg[address.toNat]?.map fun value => (address, value.toUInt32)

/-- The state that a read of an address leaves. -/
def afterRead (s : CommandExe) (address : UInt32) : CommandExe :=
  if address = 0 then s.stepRow else s

/-- The two words bring the value, the address and the chip to both decoders. -/
def ReadsBack (m_chipId : UInt32) (s : CommandExe) (cmd : Cmd) : Prop :=
  ∃ higher lower register, s.registerAt cmd.address = some register ∧
    s.doRdReg m_chipId cmd = some (s.afterRead cmd.address, [higher, lower]) ∧
    decodeSingleRegRead higher lower = ⟨register, false⟩ ∧
    decodeSingleRegReadID higher lower = ⟨((m_chipId &&& 0x3).toUInt8, register), false⟩

end CommandExe

def firstByte (higher : UInt32) : UInt32 := higher >>> 24

def RegisterFrame (higher : UInt32) : Prop := firstByte higher = 0x55 ∨ firstByte higher = 0x99

/-- The decoders find the same address and value, and take no other word for a register. -/
def SameReading (higher lower : UInt32) : Prop :=
  (decodeSingleRegReadID higher lower).output.2 = (decodeSingleRegRead higher lower).output ∧
    ((decodeSingleRegRead higher lower).error = false → RegisterFrame higher) ∧
    ((decodeSingleRegReadID higher lower).error = false → RegisterFrame higher)

/-- All bits of a frame code are set, among others. -/
def Covers (higher : UInt32) : Prop :=
  firstByte higher &&& 0x55 = 0x55 ∨ firstByte higher &&& 0x99 = 0x99

/-! ## The fields of the block -/

namespace CommandExe

theorem toNat_placed {x : UInt64} {width : Nat} (k : UInt64) (hx : x.toNat < 2 ^ width)
    (hk : width + k.toNat ≤ 64) (hlt : k.toNat < 64) : (x <<< k).toNat = x.toNat * 2 ^ k.toNat := by
  rw [UInt64.toNat_shiftLeft, Nat.mod_eq_of_lt hlt, Nat.shiftLeft_eq]
  apply Nat.mod_eq_of_lt
  calc x.toNat * 2 ^ k.toNat < 2 ^ width * 2 ^ k.toNat :=
        Nat.mul_lt_mul_of_pos_right hx (Nat.two_pow_pos _)
    _ = 2 ^ (width + k.toNat) := (Nat.pow_add _ _ _).symm
    _ ≤ 2 ^ 64 := Nat.pow_le_pow_right (by omega) hk

theorem toNat_chip (m_chipId : UInt32) :
    (m_chipId &&& 0x3).toUInt64.toNat = m_chipId.toNat % 4 := by
  rw [UInt32.toNat_toUInt64, UInt32.toNat_and]
  exact Bits.and_mask 3 2 rfl m_chipId.toNat

theorem toNat_serviceBlock (m_chipId : UInt32) {addressField value : UInt64}
    (ha : addressField.toNat < 2 ^ 10) (hv : value.toNat < 2 ^ 16) :
    (serviceBlock m_chipId addressField value).toNat =
      0x99 * 2 ^ 56 + m_chipId.toNat % 4 * 2 ^ 54 + addressField.toNat * 2 ^ 42 +
        value.toNat * 2 ^ 26 := by
  have hchip := toNat_chip m_chipId
  have hid : (m_chipId &&& 0x3).toUInt64.toNat < 2 ^ 2 := by
    rw [hchip]
    exact Nat.mod_lt _ (by omega)
  have hidAt : ((m_chipId &&& 0x3).toUInt64 <<< 54).toNat = m_chipId.toNat % 4 * 2 ^ 54 := by
    rw [toNat_placed 54 hid (by decide) (by decide), hchip]
    rfl
  have haddressAt : (addressField <<< 42).toNat = addressField.toNat * 2 ^ 42 :=
    toNat_placed 42 ha (by decide) (by decide)
  have hvalueAt : (value <<< 26).toNat = value.toNat * 2 ^ 26 :=
    toNat_placed 26 hv (by decide) (by decide)
  have hcode : ((0 : UInt64) ||| ((0x99 : UInt64) <<< 56)).toNat = 0x99 * 2 ^ 56 := rfl
  have hstatus : ((0 : UInt64) <<< 52).toNat = 0 := rfl
  have hlt : m_chipId.toNat % 4 < 2 ^ 2 := Nat.mod_lt _ (by omega)
  unfold serviceBlock
  dsimp only
  rw [UInt64.toNat_or, UInt64.toNat_or, UInt64.toNat_or, UInt64.toNat_or, hcode, hidAt, hstatus,
    haddressAt, hvalueAt, Nat.or_zero]
  -- every field lies below the lowest bit of what is there
  have hwithID : 0x99 * 2 ^ 56 ||| m_chipId.toNat % 4 * 2 ^ 54 =
      0x99 * 2 ^ 56 + m_chipId.toNat % 4 * 2 ^ 54 :=
    Bits.or_add 56 (by omega) (by omega)
  rw [hwithID]
  have hwithAddress : 0x99 * 2 ^ 56 + m_chipId.toNat % 4 * 2 ^ 54 ||| addressField.toNat * 2 ^ 42 =
      0x99 * 2 ^ 56 + m_chipId.toNat % 4 * 2 ^ 54 + addressField.toNat * 2 ^ 42 :=
    Bits.or_add 54 (by omega) (by omega)
  rw [hwithAddress]
  exact Bits.or_add 42 (by omega) (by omega)

theorem toNat_halves (block : UInt64) :
    (block >>> 32).toUInt32.toNat = block.toNat / 2 ^ 32 ∧
      (block &&& 0xFFFFFFFF).toUInt32.toNat = block.toNat % 2 ^ 32 := by
  have hlt : block.toNat < 2 ^ 64 := block.toNat_lt
  constructor
  · rw [UInt64.toNat_toUInt32, UInt64.toNat_shiftRight]
    show block.toNat >>> 32 % 2 ^ 32 = _
    rw [Nat.shiftRight_eq_div_pow, Nat.mod_eq_of_lt (by omega)]
  · rw [UInt64.toNat_toUInt32, UInt64.toNat_and]
    show (block.toNat &&& 0xFFFFFFFF) % 2 ^ 32 = _
    rw [Bits.and_mask 0xFFFFFFFF 32 rfl, Nat.mod_mod]

end CommandExe

/-! ## The fields of the words -/

theorem toNat_field (w k mask : UInt32) (width : Nat) (hk : k.toNat < 32)
    (hmask : mask.toNat = 2 ^ width - 1) :
    ((w >>> k) &&& mask).toNat = w.toNat / 2 ^ k.toNat % 2 ^ width := by
  rw [UInt32.toNat_and, UInt32.toNat_shiftRight, Nat.mod_eq_of_lt hk]
  exact Bits.shiftRight_mask mask.toNat width hmask w.toNat k.toNat

theorem toNat_value (higher lower : UInt32) :
    (((lower >>> (26 : UInt32)) &&& 0x3F) + ((higher &&& 0x3FF) <<< (6 : UInt32))).toNat =
      lower.toNat / 2 ^ 26 + higher.toNat % 2 ^ 10 * 2 ^ 6 := by
  have hlow : ((lower >>> (26 : UInt32)) &&& 0x3F).toNat = lower.toNat / 2 ^ 26 := by
    have hlt := lower.toNat_lt
    rw [toNat_field lower 26 0x3F 6 (by decide) rfl]
    show lower.toNat / 2 ^ 26 % 2 ^ 6 = _
    omega
  have hhigh : ((higher &&& 0x3FF) <<< (6 : UInt32)).toNat = higher.toNat % 2 ^ 10 * 2 ^ 6 := by
    rw [UInt32.toNat_shiftLeft, UInt32.toNat_and]
    show (higher.toNat &&& 0x3FF) <<< 6 % 2 ^ 32 = _
    rw [Bits.and_mask 0x3FF 10 rfl, Nat.shiftLeft_eq]
    omega
  have hlt := lower.toNat_lt
  rw [UInt32.toNat_add, hlow, hhigh]
  omega

/-- A test of bits of the first byte, `m` being the mask and `c` what they are compared with. -/
theorem firstByte_iff (higher mask code : UInt32) (m c : UInt32)
    (hmask : mask.toNat = m.toNat <<< 24) (hcode : code.toNat = c.toNat <<< 24) :
    higher &&& mask = code ↔ firstByte higher &&& m = c := by
  have hbyte : (firstByte higher).toNat = higher.toNat >>> 24 := by
    unfold firstByte
    rw [UInt32.toNat_shiftRight]
    rfl
  rw [← UInt32.toNat_inj, ← UInt32.toNat_inj, UInt32.toNat_and, UInt32.toNat_and, hmask, hcode,
    hbyte, Bits.and_shiftLeft, Nat.shiftLeft_eq, Nat.shiftLeft_eq]
  exact Nat.mul_left_inj (by omega)

theorem firstByte_all (higher : UInt32) : firstByte higher &&& 0xFF = firstByte higher := by
  have hlt := higher.toNat_lt
  have hbyte : (firstByte higher).toNat = higher.toNat / 2 ^ 24 := by
    unfold firstByte
    rw [UInt32.toNat_shiftRight]
    exact Nat.shiftRight_eq_div_pow _ _
  rw [← UInt32.toNat_inj, UInt32.toNat_and]
  show (firstByte higher).toNat &&& 0xFF = _
  rw [Bits.and_mask 0xFF 8 rfl, hbyte]
  omega

theorem frame_iff (higher code c : UInt32) (hcode : code.toNat = c.toNat <<< 24) :
    higher &&& 0xFF000000 = code ↔ firstByte higher = c := by
  rw [firstByte_iff higher 0xFF000000 code 0xFF c (by rfl) hcode, firstByte_all]

theorem covers_iff (higher : UInt32) :
    Covers higher ↔ higher &&& 0x55000000 = 0x55000000 ∨ higher &&& 0x99000000 = 0x99000000 := by
  unfold Covers
  rw [firstByte_iff higher 0x55000000 _ 0x55 0x55 (by rfl) (by rfl),
    firstByte_iff higher 0x99000000 _ 0x99 0x99 (by rfl) (by rfl)]

/-! ## The decoders -/

theorem decoded_0x55 {higher : UInt32} (h : firstByte higher = 0x55) (lower : UInt32) :
    decodeSingleRegRead higher lower =
      ⟨((lower >>> (16 : UInt32)) &&& 0x3FF, lower &&& 0xFFFF), false⟩ ∧
    decodeSingleRegReadID higher lower =
      ⟨(((higher >>> (22 : UInt32)) &&& 0x3).toUInt8, (lower >>> (16 : UInt32)) &&& 0x3FF,
        lower &&& 0xFFFF), false⟩ := by
  have hcovered : higher &&& 0x55000000 = 0x55000000 :=
    (firstByte_iff higher _ _ 0x55 0x55 (by rfl) (by rfl)).mpr (by rw [h]; rfl)
  have hframe : higher &&& 0xFF000000 = 0x55000000 := (frame_iff higher _ 0x55 (by rfl)).mpr h
  exact ⟨if_pos hcovered, if_pos hframe⟩

theorem decoded_0x99 {higher : UInt32} (h : firstByte higher = 0x99) (lower : UInt32) :
    decodeSingleRegRead higher lower =
      ⟨((higher >>> (10 : UInt32)) &&& 0x3FF,
        ((lower >>> (26 : UInt32)) &&& 0x3F) + ((higher &&& 0x3FF) <<< (6 : UInt32))), false⟩ ∧
    decodeSingleRegReadID higher lower =
      ⟨(((higher >>> (22 : UInt32)) &&& 0x3).toUInt8, (higher >>> (10 : UInt32)) &&& 0x3FF,
        ((lower >>> (26 : UInt32)) &&& 0x3F) + ((higher &&& 0x3FF) <<< (6 : UInt32))), false⟩ := by
  have hnot : ¬ higher &&& 0x55000000 = 0x55000000 := by
    rw [firstByte_iff higher _ _ 0x55 0x55 (by rfl) (by rfl), h]
    decide
  have hnot' : ¬ higher &&& 0xFF000000 = 0x55000000 := by
    rw [frame_iff higher _ 0x55 (by rfl), h]
    decide
  have hcovered : higher &&& 0x99000000 = 0x99000000 :=
    (firstByte_iff higher _ _ 0x99 0x99 (by rfl) (by rfl)).mpr (by rw [h]; rfl)
  have hframe : higher &&& 0xFF000000 = 0x99000000 := (frame_iff higher _ 0x99 (by rfl)).mpr h
  unfold decodeSingleRegRead decodeSingleRegReadID
  rw [if_neg hnot, if_pos hcovered, if_neg hnot', if_pos hframe]
  exact ⟨rfl, rfl⟩

theorem decodeSingleRegReadID_error {higher : UInt32} (h : ¬ RegisterFrame higher)
    (lower : UInt32) : decodeSingleRegReadID higher lower = ⟨(16, 999, 666), true⟩ := by
  have hnot55 : ¬ higher &&& 0xFF000000 = 0x55000000 :=
    fun hframe => h (Or.inl ((frame_iff higher _ 0x55 (by rfl)).mp hframe))
  have hnot99 : ¬ higher &&& 0xFF000000 = 0x99000000 :=
    fun hframe => h (Or.inr ((frame_iff higher _ 0x99 (by rfl)).mp hframe))
  unfold decodeSingleRegReadID
  rw [if_neg hnot55, if_neg hnot99]

theorem decodeSingleRegRead_error_iff (higher lower : UInt32) :
    (decodeSingleRegRead higher lower).error = true ↔ ¬ Covers higher := by
  rw [covers_iff]
  unfold decodeSingleRegRead
  by_cases h55 : higher &&& 0x55000000 = 0x55000000
  · simp [h55]
  by_cases h99 : higher &&& 0x99000000 = 0x99000000
  · simp [h55, h99]
  · simp [h55, h99]

theorem sameReading_iff (higher lower : UInt32) :
    SameReading higher lower ↔ (Covers higher → RegisterFrame higher) := by
  have herror := decodeSingleRegRead_error_iff higher lower
  by_cases hframe : RegisterFrame higher
  · refine ⟨fun _ _ => hframe, fun _ => ⟨?_, fun _ => hframe, fun _ => hframe⟩⟩
    rcases hframe with h | h
    · rw [(decoded_0x55 h lower).1, (decoded_0x55 h lower).2]
    · rw [(decoded_0x99 h lower).1, (decoded_0x99 h lower).2]
  · have hID := decodeSingleRegReadID_error hframe lower
    constructor
    · rintro ⟨-, hstrict, -⟩ hcovers
      apply hstrict
      simpa [hcovers] using herror
    · intro h
      have hnot : ¬ Covers higher := fun hcovers => hframe (h hcovers)
      have hlogged := herror.mpr hnot
      refine ⟨?_, fun hfalse => ?_, fun hfalse => ?_⟩
      · rw [covers_iff, not_or] at hnot
        unfold decodeSingleRegRead
        rw [hID, if_neg hnot.1, if_neg hnot.2]
      · rw [hlogged] at hfalse
        cases hfalse
      · rw [hID] at hfalse
        cases hfalse

/-! ## Read-back -/

namespace CommandExe

/-- The words of a service block bring their fields to both decoders. -/
theorem decoded_serviceBlock (m_chipId : UInt32) {addressField value : UInt64}
    (ha : addressField.toNat < 2 ^ 10) (hv : value.toNat < 2 ^ 16) {block : UInt64}
    (hblock : block = serviceBlock m_chipId addressField value) :
    decodeSingleRegRead (block >>> 32).toUInt32 (block &&& 0xFFFFFFFF).toUInt32 =
      ⟨(addressField.toUInt32, value.toUInt32), false⟩ ∧
    decodeSingleRegReadID (block >>> 32).toUInt32 (block &&& 0xFFFFFFFF).toUInt32 =
      ⟨((m_chipId &&& 0x3).toUInt8, addressField.toUInt32, value.toUInt32), false⟩ := by
  obtain ⟨hhigher, hlower⟩ := toNat_halves block
  have hnat := toNat_serviceBlock m_chipId ha hv
  rw [← hblock] at hnat
  generalize (block >>> 32).toUInt32 = higher at *
  generalize (block &&& 0xFFFFFFFF).toUInt32 = lower at *
  have hframe : firstByte higher = 0x99 := by
    rw [← UInt32.toNat_inj]
    unfold firstByte
    rw [UInt32.toNat_shiftRight]
    show higher.toNat >>> 24 = 0x99
    rw [Nat.shiftRight_eq_div_pow]
    omega
  have hid : ((higher >>> (22 : UInt32)) &&& 0x3) = m_chipId &&& 0x3 := by
    rw [← UInt32.toNat_inj, toNat_field higher 22 0x3 2 (by decide) rfl, UInt32.toNat_and]
    show higher.toNat / 2 ^ 22 % 2 ^ 2 = m_chipId.toNat &&& 0x3
    rw [Bits.and_mask 0x3 2 rfl]
    omega
  have haddress : ((higher >>> (10 : UInt32)) &&& 0x3FF) = addressField.toUInt32 := by
    rw [← UInt32.toNat_inj, toNat_field higher 10 0x3FF 10 (by decide) rfl,
      UInt64.toNat_toUInt32]
    show higher.toNat / 2 ^ 10 % 2 ^ 10 = _
    omega
  have hvalue : ((lower >>> (26 : UInt32)) &&& 0x3F) + ((higher &&& 0x3FF) <<< (6 : UInt32)) =
      value.toUInt32 := by
    rw [← UInt32.toNat_inj, toNat_value, UInt64.toNat_toUInt32]
    omega
  rw [(decoded_0x99 hframe lower).1, (decoded_0x99 hframe lower).2, hid, haddress, hvalue]
  exact ⟨rfl, rfl⟩

theorem toNat_or_words (x y : UInt16) : (x.toUInt64 ||| y.toUInt64).toNat < 2 ^ 16 := by
  rw [UInt64.toNat_or]
  exact Nat.or_lt_two_pow x.toNat_lt y.toNat_lt

theorem portal_not_readBack (m_chipId : UInt32) (s : CommandExe) {cmd : Cmd}
    (h : cmd.address = 0) : ¬ s.ReadsBack m_chipId cmd := by
  rintro ⟨higher, lower, register, hregister, hwords, hdecoded, -⟩
  unfold registerAt at hregister
  rw [if_pos h] at hregister
  rcases Option.map_eq_some_iff.mp hregister with ⟨pair, hpair, rfl⟩
  have hrow : (PixRegionRow.read s.m_cfg).toNat < n_Row := by
    unfold portal at hpair
    by_cases hin : (PixRegionCol.read s.m_cfg).toNat < n_DC ∧
        (PixRegionRow.read s.m_cfg).toNat < n_Row
    · exact hin.2
    · rw [dif_neg hin] at hpair
      cases hpair
  unfold doRdReg readPortal at hwords
  rw [if_pos h, hpair] at hwords
  have hlt : cmd.address.toNat < numRegs := by
    rw [h]
    decide
  simp only [Option.map_some, Option.bind_some, dif_pos hlt, Option.some.injEq, Prod.mk.injEq,
    List.cons.injEq] at hwords
  obtain ⟨-, rfl, rfl, -⟩ := hwords
  rw [(decoded_serviceBlock m_chipId (by rw [h]; decide) (toNat_or_words _ _) rfl).1] at hdecoded
  have hfield : cmd.address.toUInt64.toUInt32 = 0x200 + (PixRegionRow.read s.m_cfg).toUInt32 :=
    congrArg (fun d => d.output.1) hdecoded
  rw [h, ← UInt32.toNat_inj, UInt32.toNat_add] at hfield
  have hrow' : (PixRegionRow.read s.m_cfg).toUInt32.toNat < 384 := hrow
  have hzero : (0 : UInt32).toUInt64.toUInt32.toNat = 0 := rfl
  have hbase : (0x200 : UInt32).toNat = 512 := rfl
  omega

theorem doRdReg_global (m_chipId : UInt32) (s : CommandExe) {cmd : Cmd} (h : ¬ cmd.address = 0)
    (hlt : cmd.address.toNat < numRegs) {block : UInt64}
    (hblock : block = serviceBlock m_chipId cmd.address.toUInt64
      (0 ||| s.m_cfg[cmd.address.toNat].toUInt64)) :
    s.doRdReg m_chipId cmd = some (s.afterRead cmd.address,
      [(block >>> 32).toUInt32, (block &&& 0xFFFFFFFF).toUInt32]) := by
  unfold doRdReg afterRead
  rw [if_neg h, Option.bind_some, dif_pos hlt, if_neg h, hblock]

theorem readsBack_iff (m_chipId : UInt32) (s : CommandExe) (cmd : Cmd) :
    s.ReadsBack m_chipId cmd ↔ 0 < cmd.address.toNat ∧ cmd.address.toNat < numRegs := by
  by_cases h : cmd.address = 0
  · refine ⟨fun hback => absurd hback (portal_not_readBack m_chipId s h), fun hpos => ?_⟩
    rw [h] at hpos
    exact absurd hpos.1 (Nat.lt_irrefl 0)
  have hpos : 0 < cmd.address.toNat :=
    Nat.pos_of_ne_zero fun hzero => h (UInt32.toNat_inj.mp hzero)
  by_cases hlt : cmd.address.toNat < numRegs
  · refine ⟨fun _ => ⟨hpos, hlt⟩, fun _ => ?_⟩
    have hsmall : cmd.address.toUInt64.toNat < 2 ^ 10 := Nat.lt_trans hlt (by decide)
    have hvalue : ((0 : UInt64) ||| s.m_cfg[cmd.address.toNat].toUInt64).toNat < 2 ^ 16 :=
      toNat_or_words 0 _
    obtain ⟨hfirst, hsecond⟩ := decoded_serviceBlock m_chipId hsmall hvalue rfl
    refine ⟨_, _, (cmd.address, s.m_cfg[cmd.address.toNat].toUInt32), ?_,
      doRdReg_global m_chipId s h hlt rfl, ?_, ?_⟩
    · unfold registerAt
      rw [if_neg h, Vector.getElem?_eq_getElem hlt]
      rfl
    · rw [hfirst]
      simp
    · rw [hsecond]
      simp
  · refine ⟨?_, fun hin => absurd hin.2 hlt⟩
    rintro ⟨_, _, _, -, hwords, -⟩
    unfold doRdReg at hwords
    rw [if_neg h, Option.bind_some, dif_neg hlt] at hwords
    cases hwords

/-- Exactly the reads of global registers come back. The decoders agree on the words whose first
byte is a frame code, or covers none. -/
theorem registers_read_back (m_chipId : UInt32) (s : CommandExe) (cmd : Cmd)
    (higher lower : UInt32) :
    (s.ReadsBack m_chipId cmd ↔ 0 < cmd.address.toNat ∧ cmd.address.toNat < numRegs) ∧
      (SameReading higher lower ↔ (Covers higher → RegisterFrame higher)) :=
  ⟨readsBack_iff m_chipId s cmd, sameReading_iff higher lower⟩

/-- The pixel portal of a new chip, and a word of ones. -/
theorem portal_lost :
    ¬ (fresh globalCfg.init).ReadsBack 15 ⟨0x65, 15, 0, 0⟩ ∧ ¬ SameReading 0xFFFFFFFF 0 := by
  constructor
  · exact portal_not_readBack 15 _ rfl
  · rw [sameReading_iff]
    intro h
    rcases h (Or.inl (by decide)) with hcode | hcode
    · exact absurd hcode (by decide)
    · exact absurd hcode (by decide)

end CommandExe

end Yarr.Itkpixv2Emu
