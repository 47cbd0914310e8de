import Mathlib.Algebra.BigOperators.Group.List.Basic
import Yarr.Star.LCB

/-!
# `StarSeqGenerator`

A sequence of bytes from commands, either for the encoder in the firmware or as
the frames themselves. Triggers are counted again in the bytes.
-/

namespace Yarr.Star

/-- Commands with the fields that are left of the tokens. -/
inductive SeqCommand where
  | idle (nframes : Nat)
  | l0 (mask : Fin 16) (tag : Fin 128) (bcr : Bool)
  | fast (type delay : Nat)
  | regWr (isABC : Bool) (address : Nat) (value : UInt32) (hccID abcID : Nat)
  | regRd (isABC : Bool) (address hccID abcID : Nat)
  deriving DecidableEq, Repr

namespace StarSeqGenerator

open LCB_FELIX SeqCommand

/-! ## Sequences -/

/-- High eight bits, low eight bits. -/
def frameBytes (frame : LCB.Frame) : List Nat := [(frame >>> 8) &&& 0xff, frame &&& 0xff]

def addFrames (frames : List LCB.Frame) : List Nat := frames.flatMap frameBytes

/-- The bytes of a command for the firmware. -/
def addFw : SeqCommand → List Nat
  | idle nframes => List.replicate nframes IDLE
  | l0 mask tag bcr => l0a_mask mask.val tag.val bcr
  | fast type delay => fast_command type delay
  | regWr true address value hccID abcID => write_abc_register address value hccID abcID
  | regWr false address value hccID _ => write_hcc_register address value hccID
  | regRd true address hccID abcID => read_abc_register address hccID abcID
  | regRd false address hccID _ => read_hcc_register address hccID

/-- The frames of a command. -/
def frames : SeqCommand → List LCB.Frame
  | idle nframes => List.replicate nframes LCB.IDLE
  | l0 mask tag bcr => [LCB.l0a_mask mask.val tag.val bcr]
  | fast type delay => [LCB.fast_command type delay]
  | regWr true address value hccID abcID =>
      StarCmd.command_sequence hccID abcID address false value false
  | regWr false address value hccID _ =>
      StarCmd.command_sequence hccID 0xf address false value true
  | regRd true address hccID abcID => StarCmd.command_sequence hccID abcID address true 0 false
  | regRd false address hccID _ => StarCmd.command_sequence hccID 0xf address true 0 true

/-- `m_sequence` behind a list of commands. -/
def m_sequence (m_fw : Bool) (cmds : List SeqCommand) : List Nat :=
  cmds.flatMap fun cmd => if m_fw then addFw cmd else addFrames (frames cmd)

/-! ## Counting -/

/-- The frames that two bytes each make up; a byte left over is not looked at. -/
def count_frames (f : LCB.Frame → Nat) : List Nat → Nat
  | hi :: lo :: rest => f ((hi <<< 8) + lo) + count_frames f rest
  | _ => 0

def count_l0a (m_fw : Bool) (m_sequence : List Nat) : Nat :=
  if m_fw then m_sequence.countP (· == L0A)
  else count_frames (fun frame => if LCB.is_l0a_bcr frame then 1 else 0) m_sequence

/-- The bytes behind a trigger are skipped; the first of them is read, whether it is there or not. -/
def count_triggers_fw : Nat → List Nat → Option Nat
  | _, [] => some 0
  | skip + 1, _ :: rest => count_triggers_fw skip rest
  | 0, byte :: rest =>
      if byte = L0A then
        match rest with
        | [] => none
        | l0mask :: _ => (count_triggers_fw 2 rest).map (popcount l0mask + ·)
      else count_triggers_fw 0 rest

def count_triggers (m_fw : Bool) (m_sequence : List Nat) : Option Nat :=
  if m_fw then count_triggers_fw 0 m_sequence
  else some (count_frames (fun frame =>
    if LCB.is_l0a_bcr frame then popcount (LCB.get_l0_mask frame) else 0) m_sequence)

end StarSeqGenerator

namespace SeqCommand

/-! ## What is to be counted -/

def isL0 : SeqCommand → Bool
  | l0 .. => true
  | _ => false

def triggers : SeqCommand → Nat
  | l0 mask _ _ => LCB_FELIX.popcount mask.val
  | _ => 0

/-- No byte of a register command looks like a trigger. -/
def NoTriggerByte : SeqCommand → Prop
  | regRd isABC address hccID abcID =>
      address % 256 ≠ 0x82 ∧ ¬(isABC = true ∧ hccID % 16 = 8 ∧ abcID % 16 = 2)
  | regWr isABC address value hccID abcID =>
      address % 256 ≠ 0x82 ∧ ¬(isABC = true ∧ hccID % 16 = 8 ∧ abcID % 16 = 2) ∧
        ∀ k < 4, value.toNat / 256 ^ k % 256 ≠ 0x82
  | _ => True

/-- Without triggers and reset the frame is not one for triggers. -/
def NonemptyL0 : SeqCommand → Prop
  | l0 mask _ bcr => mask.val ≠ 0 ∨ bcr = true
  | _ => True

end SeqCommand

end Yarr.Star

/-!
## Triggers counted in a sequence

The frames are two bytes each, so the count in software meets every frame. The
one for the firmware looks for the type of a trigger in all bytes, and finds it
in register commands too.
-/

namespace Yarr.Star

namespace StarSeqGenerator

open LCB_FELIX SeqCommand

/-! ## Bytes for the firmware -/

theorem idBytes (hccID abcID : Nat) :
    ((hccID &&& 0xf) <<< 4) + (abcID &&& 0xf) = hccID % 16 * 16 + abcID % 16 := by
  rw [Bits.and_mask 0xf 4 rfl, Bits.and_mask 0xf 4 rfl, Nat.shiftLeft_eq]
  simp only [Nat.reducePow]

theorem valueBytes_eq (value : UInt32) : valueBytes value =
    [value.toNat / 256 ^ 3 % 256, value.toNat / 256 ^ 2 % 256, value.toNat / 256 ^ 1 % 256,
      value.toNat / 256 ^ 0 % 256] := by
  have hlt : value.toNat < 4294967296 := value.toNat_lt
  unfold valueBytes
  rw [Bits.shiftRight_mask 0xff 8 rfl, Bits.shiftRight_mask 0xff 8 rfl, Bits.and_mask 0xff 8 rfl,
    Nat.shiftRight_eq_div_pow]
  simp only [List.cons.injEq, and_true]
  omega

/-- The bytes that a command has besides its own trigger. -/
theorem l0a_not_mem_iff {cmd : SeqCommand} (h : cmd.isL0 = false) :
    L0A ∉ addFw cmd ↔ cmd.NoTriggerByte := by
  have hid : ∀ hccID abcID : Nat,
      0x82 = hccID % 16 * 16 + abcID % 16 ↔ hccID % 16 = 8 ∧ abcID % 16 = 2 := by
    intro hccID abcID
    omega
  have hhcc : ∀ hccID : Nat, 0x82 ≠ (hccID &&& 0xf) <<< 4 := by
    intro hccID
    rw [Bits.and_mask 0xf 4 rfl, Nat.shiftLeft_eq]
    omega
  have haddress : ∀ address : Nat, address &&& 0xff = address % 256 := fun address =>
    Bits.and_mask 0xff 8 rfl address
  have hvalue : ∀ value : UInt32, 0x82 ∉ valueBytes value ↔
      ∀ k < 4, value.toNat / 256 ^ k % 256 ≠ 0x82 := by
    intro value
    rw [valueBytes_eq]
    simp only [List.mem_cons, List.not_mem_nil, or_false, not_or]
    constructor
    · intro hbytes k hk
      rcases hbytes with ⟨h3, h2, h1, h0⟩
      have hcases : k = 0 ∨ k = 1 ∨ k = 2 ∨ k = 3 := by omega
      rcases hcases with rfl | rfl | rfl | rfl
      · exact Ne.symm h0
      · exact Ne.symm h1
      · exact Ne.symm h2
      · exact Ne.symm h3
    · intro hbytes
      exact ⟨Ne.symm (hbytes 3 (by decide)), Ne.symm (hbytes 2 (by decide)),
        Ne.symm (hbytes 1 (by decide)), Ne.symm (hbytes 0 (by decide))⟩
  cases cmd with
  | idle nframes =>
      have hidle : L0A ≠ IDLE := by decide
      simp [addFw, NoTriggerByte, hidle]
  | l0 mask tag bcr => cases h
  | fast type delay =>
      have hfast : L0A ≠ ((delay &&& 3) <<< 4) + (type &&& 0xf) := by
        rw [Bits.and_mask 3 2 rfl, Bits.and_mask 0xf 4 rfl, Nat.shiftLeft_eq, L0A]
        omega
      have htype : L0A ≠ FASTCMD := by decide
      simp [addFw, fast_command, NoTriggerByte, hfast, htype]
  | regWr isABC address value hccID abcID =>
      cases isABC with
      | true =>
          have htype : 0x82 ≠ ABCREGWR := by decide
          simp only [addFw, write_abc_register, NoTriggerByte, List.mem_append, List.mem_cons, htype,
            false_or, L0A, idBytes, haddress, hid, List.not_mem_nil, or_false, not_or, hvalue,
            true_and, List.cons_append]
          constructor
          · rintro ⟨hbytes, haddr, hids⟩
            exact ⟨Ne.symm haddr, hids, hbytes⟩
          · rintro ⟨haddr, hids, hbytes⟩
            exact ⟨hbytes, Ne.symm haddr, hids⟩
      | false =>
          have htype : 0x82 ≠ HCCREGWR := by decide
          simp only [addFw, write_hcc_register, NoTriggerByte, List.mem_append, List.mem_cons, htype,
            false_or, L0A, haddress, hhcc, List.not_mem_nil, or_false, not_or, hvalue,
            List.cons_append, Bool.false_eq_true, false_and, not_false_eq_true, true_and]
          exact ⟨fun h => ⟨Ne.symm h.2, h.1⟩, fun h => ⟨h.2, Ne.symm h.1⟩⟩
  | regRd isABC address hccID abcID =>
      cases isABC with
      | true =>
          have htype : 0x82 ≠ ABCREGRD := by decide
          simp only [addFw, read_abc_register, NoTriggerByte, List.mem_cons, htype, false_or, L0A,
            idBytes, haddress, hid, List.not_mem_nil, or_false, not_or, true_and]
          exact ⟨fun h => ⟨Ne.symm h.1, h.2⟩, fun h => ⟨Ne.symm h.1, h.2⟩⟩
      | false =>
          have htype : 0x82 ≠ HCCREGRD := by decide
          simp only [addFw, read_hcc_register, NoTriggerByte, List.mem_cons, htype, false_or, L0A,
            haddress, hhcc, List.not_mem_nil, or_false, Bool.false_eq_true, false_and,
            not_false_eq_true, and_true]
          exact ⟨Ne.symm, Ne.symm⟩

theorem countP_addFw (cmd : SeqCommand) :
    cmd.isL0.toNat ≤ (addFw cmd).countP (· == L0A) ∧
      ((addFw cmd).countP (· == L0A) = cmd.isL0.toNat ↔ cmd.NoTriggerByte) := by
  cases hL0 : cmd.isL0 with
  | false =>
      have hcount : (addFw cmd).countP (· == L0A) = 0 ↔ L0A ∉ addFw cmd := by
        rw [List.countP_eq_zero]
        exact ⟨fun h hmem => h L0A hmem (beq_self_eq_true _), fun h b hb hbeq =>
          h (eq_of_beq hbeq ▸ hb)⟩
      exact ⟨Nat.zero_le _, hcount.trans (l0a_not_mem_iff hL0)⟩
  | true =>
      cases cmd with
      | l0 mask tag bcr =>
          have hmask : ∀ (mask : Fin 16) (bcr : Bool),
              ((bcr.toNat <<< 4) + (mask.val &&& 0xf) == L0A) = false := by decide
          have htag : (tag.val == L0A) = false := by
            have hlt := tag.isLt
            rw [beq_eq_false_iff_ne, L0A]
            omega
          have hcount : (addFw (l0 mask tag bcr)).countP (· == L0A) = 1 := by
            simp only [addFw, l0a_mask, List.countP_cons, List.countP_nil, hmask, htag,
              beq_self_eq_true]
            rfl
          rw [hcount]
          exact ⟨Nat.le_refl 1, iff_of_true rfl trivial⟩
      | _ => cases hL0

theorem countP_sequence_fw (cmds : List SeqCommand) :
    cmds.countP isL0 ≤ count_l0a true (m_sequence true cmds) ∧
      (count_l0a true (m_sequence true cmds) = cmds.countP isL0 ↔
        ∀ cmd ∈ cmds, cmd.NoTriggerByte) := by
  unfold count_l0a m_sequence
  simp only [if_true]
  induction cmds with
  | nil => exact ⟨Nat.le_refl 0, iff_of_true rfl fun cmd hcmd => absurd hcmd List.not_mem_nil⟩
  | cons cmd cmds ih =>
      rcases countP_addFw cmd with ⟨hle, hiff⟩
      rcases ih with ⟨hles, hiffs⟩
      have hcount : (cmd :: cmds).countP isL0 = cmds.countP isL0 + cmd.isL0.toNat := by
        rw [List.countP_cons]
        cases cmd.isL0 with
        | false => rfl
        | true => rfl
      rw [List.flatMap_cons, List.countP_append, hcount, List.forall_mem_cons, ← hiff, ← hiffs]
      omega

/-! ## Triggers in the firmware's bytes -/

theorem count_triggers_fw_append (bytes rest : List Nat) (h : L0A ∉ bytes) :
    count_triggers_fw 0 (bytes ++ rest) = count_triggers_fw 0 rest := by
  induction bytes with
  | nil => rfl
  | cons byte bytes ih =>
      have hne : byte ≠ L0A := fun heq => h (heq ▸ List.mem_cons_self)
      show (if byte = L0A then _ else _) = _
      rw [if_neg hne]
      exact ih fun hmem => h (List.mem_cons_of_mem _ hmem)

theorem count_triggers_fw_addFw {cmd : SeqCommand} (h : cmd.NoTriggerByte) (rest : List Nat) :
    count_triggers_fw 0 (addFw cmd ++ rest) =
      (count_triggers_fw 0 rest).map (cmd.triggers + ·) := by
  cases hL0 : cmd.isL0 with
  | false =>
      have htriggers : cmd.triggers = 0 := by
        cases cmd with
        | l0 mask tag bcr => cases hL0
        | _ => rfl
      rw [count_triggers_fw_append _ _ ((l0a_not_mem_iff hL0).mpr h), htriggers]
      simp
  | true =>
      cases cmd with
      | l0 mask tag bcr =>
          have hmask : ∀ (mask : Fin 16) (bcr : Bool),
              popcount ((bcr.toNat <<< 4) + (mask.val &&& 0xf)) = popcount mask.val := by
            decide
          show (count_triggers_fw 2 (_ :: _ :: rest)).map _ = _
          rw [hmask]
          rfl
      | _ => cases hL0

theorem count_triggers_fw_sequence (cmds : List SeqCommand) (h : ∀ cmd ∈ cmds, cmd.NoTriggerByte) :
    count_triggers true (m_sequence true cmds) = some (cmds.map triggers).sum := by
  unfold count_triggers m_sequence
  simp only [if_true]
  induction cmds with
  | nil => rfl
  | cons cmd cmds ih =>
      rw [List.flatMap_cons, count_triggers_fw_addFw (h cmd List.mem_cons_self),
        ih fun cmd hcmd => h cmd (List.mem_cons_of_mem _ hcmd)]
      rfl

/-! ## Frames -/

theorem codes_frameBytes (frame : LCB.Frame) :
    LCB.code0 ((((frame >>> 8) &&& 0xff) <<< 8) + (frame &&& 0xff)) = LCB.code0 frame ∧
      LCB.code1 ((((frame >>> 8) &&& 0xff) <<< 8) + (frame &&& 0xff)) = LCB.code1 frame := by
  unfold LCB.code0 LCB.code1
  simp only [Bits.shiftRight_mask 0xff 8 rfl, Bits.and_mask 0xff 8 rfl, Nat.shiftLeft_eq]
  omega

theorem count_frames_addFrames (f : LCB.Frame → Nat)
    (hf : ∀ frame frame', LCB.code0 frame = LCB.code0 frame' →
      LCB.code1 frame = LCB.code1 frame' → f frame = f frame')
    (frames : List LCB.Frame) (rest : List Nat) :
    count_frames f (addFrames frames ++ rest) = (frames.map f).sum + count_frames f rest := by
  induction frames with
  | nil => exact (Nat.zero_add _).symm
  | cons frame frames ih =>
      rcases codes_frameBytes frame with ⟨h0, h1⟩
      show f _ + count_frames f (addFrames frames ++ rest) = _
      rw [ih, hf _ frame h0 h1, List.map_cons, List.sum_cons, Nat.add_assoc]

theorem is_l0a_bcr_congr {frame frame' : LCB.Frame} (h0 : LCB.code0 frame = LCB.code0 frame')
    (h1 : LCB.code1 frame = LCB.code1 frame') :
    LCB.is_l0a_bcr frame = LCB.is_l0a_bcr frame' ∧
      LCB.get_l0_mask frame = LCB.get_l0_mask frame' := by
  unfold LCB.is_l0a_bcr LCB.get_l0_mask LCB.isData LCB.twelve
  rw [h0, h1]
  exact ⟨rfl, rfl⟩

theorem is_l0a_bcr_build_pair {f s : Nat} (hf : f < 256) (hs : s < 256)
    (hK : SixEight.isK f = true) : LCB.is_l0a_bcr (LCB.build_pair f s) = false := by
  unfold LCB.is_l0a_bcr LCB.isData
  rw [(LCB.codes_build_pair hf hs).1, hK]
  simp

theorem and_0xf80 (n : Nat) : n &&& 0xf80 = n / 128 % 32 * 128 := by
  have hfield : n &&& 0xf80 = ((n >>> 7) &&& 31) <<< 7 := by
    have hmask : 0xf80 = 31 <<< 7 := rfl
    apply Nat.eq_of_testBit_eq
    intro i
    rw [hmask]
    simp only [Nat.testBit_and, Nat.testBit_shiftLeft, Nat.testBit_shiftRight]
    by_cases hi : 7 ≤ i
    · have hsum : 7 + (i - 7) = i := by omega
      simp [hi, hsum]
    · simp [hi]
  rw [hfield, Bits.shiftRight_mask 31 5 rfl, Nat.shiftLeft_eq]
  simp only [Nat.reducePow]

theorem is_l0a_bcr_command_bits (data : Nat) :
    LCB.is_l0a_bcr (LCB.command_bits data) = false := by
  have hmask : data % 128 &&& 0xf80 = 0 := by
    rw [and_0xf80]
    omega
  unfold LCB.is_l0a_bcr
  rw [LCB.twelve_command_bits, hmask]
  simp

theorem l0a_mask_fields (mask : Fin 16) (tag : Fin 128) (bcr : Bool) :
    LCB.is_l0a_bcr (LCB.l0a_mask mask.val tag.val bcr) = (bcr || mask.val != 0) ∧
      LCB.get_l0_mask (LCB.l0a_mask mask.val tag.val bcr) = mask.val := by
  have hmask := mask.isLt
  have htag := tag.isLt
  have hbits : (if bcr then 0x800 else 0) ||| ((mask.val &&& 0xf) <<< 7) ||| (tag.val &&& 0x7f) =
      (bcr.toNat * 16 + mask.val) * 128 + tag.val := by
    have hjoin : (if bcr then 0x800 else 0) ||| mask.val * 2 ^ 7 =
        (bcr.toNat * 16 + mask.val) * 2 ^ 7 := by
      cases bcr with
      | false => simp
      | true =>
          rw [if_pos rfl, Bits.or_add 11 (by decide) (by omega), Bool.toNat_true]
          omega
    rw [Bits.and_mask 0xf 4 rfl, Bits.and_mask 0x7f 7 rfl, Nat.shiftLeft_eq,
      Nat.mod_eq_of_lt (show mask.val < 2 ^ 4 from hmask),
      Nat.mod_eq_of_lt (show tag.val < 2 ^ 7 from htag), hjoin, Bits.or_add 7 (by omega) (by omega)]
    simp only [Nat.reducePow]
  have hbcr : bcr.toNat ≤ 1 := Bool.toNat_le bcr
  have htwelve : LCB.twelve (LCB.l0a_mask mask.val tag.val bcr) =
      (bcr.toNat * 16 + mask.val) * 128 + tag.val := by
    rw [LCB.l0a_mask, LCB.twelve_raw_bits, hbits]
    omega
  have hdata : LCB.isData (LCB.l0a_mask mask.val tag.val bcr) = true := LCB.isData_raw_bits _
  have hfield : ((bcr.toNat * 16 + mask.val) * 128 + tag.val) &&& 0xf80 =
      (bcr.toNat * 16 + mask.val) * 128 := by
    rw [and_0xf80]
    omega
  unfold LCB.is_l0a_bcr LCB.get_l0_mask
  rw [hdata, htwelve, hfield, Bits.shiftRight_mask 0xf 4 rfl, Bool.true_and]
  constructor
  · cases bcr with
    | false =>
        by_cases hzero : mask.val = 0
        · simp [hzero]
        · have hne : (Bool.toNat false * 16 + mask.val) * 128 ≠ 0 := by
            rw [Bool.toNat_false]
            omega
          rw [bne_iff_ne.mpr hne, Bool.false_or, bne_iff_ne.mpr hzero]
    | true => simp
  · omega

theorem is_l0a_bcr_K2 (data6 : Nat) (h : data6 < 64) :
    LCB.is_l0a_bcr (LCB.build_pair LCB.K2 (SixEight.encode data6)) = false :=
  is_l0a_bcr_build_pair (by decide) (SixEight.encode_spec data6 h).2.1 rfl

theorem is_l0a_bcr_command_sequence (hccid abcid address : Nat) (readNotWrite : Bool)
    (value : UInt32) (hccNotAbc : Bool) :
    ∀ frame ∈ StarCmd.command_sequence hccid abcid address readNotWrite value hccNotAbc,
      LCB.is_l0a_bcr frame = false := by
  have hid : hccid &&& 0xf < 2 ^ 4 := Nat.and_lt_two_pow _ (by decide)
  intro frame hframe
  rcases List.mem_cons.mp hframe with rfl | hrest
  · apply is_l0a_bcr_K2
    have hABC : (if !hccNotAbc then 0x20 else 0) < 2 ^ 6 := by
      cases hccNotAbc with
      | false => decide
      | true => decide
    exact Nat.or_lt_two_pow (Nat.or_lt_two_pow (by omega) (by decide)) hABC
  · rcases List.mem_append.mp hrest with hfields | hend
    · rcases List.mem_append.mp hfields with hheader | hvalue
      · rw [StarCmd.headerFrames_eq] at hheader
        rcases List.mem_map.mp hheader with ⟨data, _, rfl⟩
        exact is_l0a_bcr_command_bits data
      · rcases List.mem_map.mp hvalue with ⟨i, _, rfl⟩
        exact is_l0a_bcr_command_bits _
    · rw [List.mem_singleton.mp hend]
      exact is_l0a_bcr_K2 _ (by omega)

theorem is_l0a_bcr_frames {cmd : SeqCommand} (h : cmd.isL0 = false) :
    ∀ frame ∈ frames cmd, LCB.is_l0a_bcr frame = false := by
  cases cmd with
  | idle nframes =>
      intro frame hframe
      rw [List.eq_of_mem_replicate hframe]
      rfl
  | l0 mask tag bcr => cases h
  | fast type delay =>
      intro frame hframe
      rw [List.mem_singleton.mp hframe]
      apply is_l0a_bcr_build_pair (by decide) (SixEight.encode_spec _ _).2.1 rfl
      have hdelay : (delay &&& 3) <<< 4 < 2 ^ 6 := by
        rw [Bits.and_mask 3 2 rfl, Nat.shiftLeft_eq]
        omega
      have htype : type &&& 0xf < 2 ^ 6 := by
        rw [Bits.and_mask 0xf 4 rfl]
        omega
      exact Nat.or_lt_two_pow hdelay htype
  | regWr isABC address value hccID abcID =>
      cases isABC with
      | true => exact is_l0a_bcr_command_sequence _ _ _ _ _ _
      | false => exact is_l0a_bcr_command_sequence _ _ _ _ _ _
  | regRd isABC address hccID abcID =>
      cases isABC with
      | true => exact is_l0a_bcr_command_sequence _ _ _ _ _ _
      | false => exact is_l0a_bcr_command_sequence _ _ _ _ _ _

theorem sum_map_frames {cmd : SeqCommand} (h : cmd.isL0 = false) (g : LCB.Frame → Nat) :
    ((frames cmd).map fun frame => if LCB.is_l0a_bcr frame then g frame else 0).sum = 0 := by
  apply List.sum_eq_zero
  intro n hn
  rcases List.mem_map.mp hn with ⟨frame, hframe, rfl⟩
  rw [is_l0a_bcr_frames h frame hframe]
  rfl

/-! ## Counts in the frames -/

theorem count_frames_sequence (g : LCB.Frame → Nat)
    (hg : ∀ frame frame', LCB.code0 frame = LCB.code0 frame' →
      LCB.code1 frame = LCB.code1 frame' → g frame = g frame') (cmds : List SeqCommand) :
    count_frames (fun frame => if LCB.is_l0a_bcr frame then g frame else 0)
        (m_sequence false cmds) =
      (cmds.map fun cmd =>
        ((frames cmd).map fun frame => if LCB.is_l0a_bcr frame then g frame else 0).sum).sum := by
  have hf : ∀ frame frame', LCB.code0 frame = LCB.code0 frame' →
      LCB.code1 frame = LCB.code1 frame' →
        (if LCB.is_l0a_bcr frame then g frame else 0) =
          if LCB.is_l0a_bcr frame' then g frame' else 0 := by
    intro frame frame' h0 h1
    rw [(is_l0a_bcr_congr h0 h1).1, hg frame frame' h0 h1]
  unfold m_sequence
  induction cmds with
  | nil => rfl
  | cons cmd cmds ih =>
      rw [List.flatMap_cons, if_neg Bool.false_ne_true, count_frames_addFrames _ hf, ih,
        List.map_cons, List.sum_cons]

theorem count_triggers_sequence_sw (cmds : List SeqCommand) :
    count_triggers false (m_sequence false cmds) = some (cmds.map triggers).sum := by
  have hcmd : ∀ cmd : SeqCommand, ((frames cmd).map fun frame =>
      if LCB.is_l0a_bcr frame then popcount (LCB.get_l0_mask frame) else 0).sum =
        cmd.triggers := by
    intro cmd
    cases hL0 : cmd.isL0 with
    | false =>
        rw [sum_map_frames hL0]
        cases cmd with
        | l0 mask tag bcr => cases hL0
        | _ => rfl
    | true =>
        cases cmd with
        | l0 mask tag bcr =>
            rcases l0a_mask_fields mask tag bcr with ⟨hl0a, hmask⟩
            simp only [frames, List.map_cons, List.map_nil, List.sum_cons, List.sum_nil, hl0a, hmask,
              Nat.add_zero, triggers]
            split
            · rfl
            · rename_i hnone
              have hzero : mask.val = 0 := by
                by_contra hne
                exact hnone (by rw [bne_iff_ne.mpr hne, Bool.or_true])
              rw [hzero]
              rfl
        | _ => cases hL0
  unfold count_triggers
  rw [if_neg Bool.false_ne_true, count_frames_sequence _ fun frame frame' h0 h1 => by
    rw [(is_l0a_bcr_congr h0 h1).2]]
  simp only [hcmd]

theorem count_l0a_sequence_sw (cmds : List SeqCommand) :
    count_l0a false (m_sequence false cmds) ≤ cmds.countP isL0 ∧
      (count_l0a false (m_sequence false cmds) = cmds.countP isL0 ↔
        ∀ cmd ∈ cmds, cmd.NonemptyL0) := by
  have hcmd : ∀ cmd : SeqCommand,
      ((frames cmd).map fun frame => if LCB.is_l0a_bcr frame then 1 else 0).sum ≤ cmd.isL0.toNat ∧
        (((frames cmd).map fun frame => if LCB.is_l0a_bcr frame then 1 else 0).sum =
          cmd.isL0.toNat ↔ cmd.NonemptyL0) := by
    intro cmd
    cases hL0 : cmd.isL0 with
    | false =>
        rw [sum_map_frames hL0 fun _ => 1]
        cases cmd with
        | l0 mask tag bcr => cases hL0
        | _ => exact ⟨Nat.le_refl 0, iff_of_true rfl trivial⟩
    | true =>
        cases cmd with
        | l0 mask tag bcr =>
            simp only [frames, List.map_cons, List.map_nil, List.sum_cons, List.sum_nil,
              (l0a_mask_fields mask tag bcr).1, Nat.add_zero, NonemptyL0, Bool.toNat_true]
            cases bcr with
            | true => simp
            | false =>
                by_cases hzero : mask = 0
                · simp [hzero]
                · simp [hzero]
        | _ => cases hL0
  unfold count_l0a
  rw [if_neg Bool.false_ne_true, count_frames_sequence (fun _ => 1) fun _ _ _ _ => rfl]
  induction cmds with
  | nil => exact ⟨Nat.le_refl 0, iff_of_true rfl fun cmd hmem => absurd hmem List.not_mem_nil⟩
  | cons cmd cmds ih =>
      rcases hcmd cmd with ⟨hle, hiff⟩
      rcases ih with ⟨hles, hiffs⟩
      have hcount : (cmd :: cmds).countP isL0 = cmds.countP isL0 + cmd.isL0.toNat := by
        rw [List.countP_cons]
        cases cmd.isL0 with
        | false => rfl
        | true => rfl
      rw [List.map_cons, List.sum_cons, hcount, List.forall_mem_cons, ← hiff, ← hiffs]
      omega

/-! ## Both counts in both ways -/

/-- Triggers and trigger commands are counted as they were added, whichever way the sequence is
made. -/
def CountsRight (cmds : List SeqCommand) : Prop :=
  ∀ m_fw : Bool, count_triggers m_fw (m_sequence m_fw cmds) = some (cmds.map triggers).sum ∧
    count_l0a m_fw (m_sequence m_fw cmds) = cmds.countP isL0

theorem countsRight_iff (cmds : List SeqCommand) :
    CountsRight cmds ↔ ∀ cmd ∈ cmds, cmd.NoTriggerByte ∧ cmd.NonemptyL0 := by
  constructor
  · intro hcounts cmd hcmd
    have hfw := (countP_sequence_fw cmds).2.mp (hcounts true).2
    have hsw := (count_l0a_sequence_sw cmds).2.mp (hcounts false).2
    exact ⟨hfw cmd hcmd, hsw cmd hcmd⟩
  · intro h m_fw
    cases m_fw with
    | true =>
        have hfw : ∀ cmd ∈ cmds, cmd.NoTriggerByte := fun cmd hcmd => (h cmd hcmd).1
        exact ⟨count_triggers_fw_sequence cmds hfw, (countP_sequence_fw cmds).2.mpr hfw⟩
    | false =>
        have hsw : ∀ cmd ∈ cmds, cmd.NonemptyL0 := fun cmd hcmd => (h cmd hcmd).2
        exact ⟨count_triggers_sequence_sw cmds, (count_l0a_sequence_sw cmds).2.mpr hsw⟩

/-- A counter of hits is read: its address looks like a trigger, and the IDs like a mask. -/
theorem readCounter_miscounted : ¬∀ cmds : List SeqCommand, CountsRight cmds := by
  intro h
  have hcount : count_triggers true (m_sequence true [regRd true 0x82 0xf 0xf]) = some 4 := rfl
  have hright := (h [regRd true 0x82 0xf 0xf] true).1
  rw [hcount] at hright
  cases hright

end StarSeqGenerator

end Yarr.Star
