import Yarr.Star.LCB
import Yarr.Star.RegisterPackets
import Yarr.Star.StarCfg

/-!
# `StarChipsetEmu`

The emulation of one HCCStar and its ABCStars: register commands, which arrive
as a sequence of frames, and the counters of hits.
-/

namespace Yarr.StarEmu

open Star StarPackets

/-- The hits of the 256 strips of an ABC. -/
abbrev StripData := BitVec 256

structure StarChipsetEmu where
  m_ignoreCmd : Bool
  m_isForABC : Bool
  m_reg_cmd_buffer : List Nat
  m_startHitCount : Bool
  m_rxbuffer : List (List Nat)
  m_starCfg : StarCfg

/-- `catch (std::out_of_range &)`. -/
def caught {α : Type} (x : Except Failure α) (a : α) : Except Failure α :=
  match x with
  | .error .outOfRange => .ok a
  | x => x

/-- ABC registers that cannot be written. -/
def abcReadOnly (reg : Nat) : Bool :=
  reg == ABCStarRegister.STAT0 || reg == ABCStarRegister.STAT1 || reg == ABCStarRegister.STAT2 ||
    reg == ABCStarRegister.STAT3 || reg == ABCStarRegister.STAT4 || reg == ABCStarRegister.HPR ||
    (ABCStarRegister.HitCountREG0 ≤ reg && reg ≤ ABCStarRegister.HitCountREG0 + 63)

/-- HCC registers that cannot be written. -/
def hccReadOnly (reg : Nat) : Bool :=
  reg == HCCStarRegister.SEU1 || reg == HCCStarRegister.SEU2 || reg == HCCStarRegister.SEU3 ||
    reg == HCCStarRegister.FrameRaw || reg == HCCStarRegister.LCBerr ||
    reg == HCCStarRegister.ADCStatus || reg == HCCStarRegister.Status ||
    reg == HCCStarRegister.HPR

namespace StarChipsetEmu

variable (s : StarChipsetEmu)

/-- The words of a packet go to the receiver. -/
def send (packet : List Nat) : StarChipsetEmu :=
  { s with m_rxbuffer := s.m_rxbuffer ++ [sendPacket packet] }

/-! ## Registers -/

def writeRegister (data : UInt32) (address : Nat) (isABC : Bool) (ABCID : Nat) :
    Except Failure StarChipsetEmu := do
  if isABC then
    if abcReadOnly address then return s
    else
      let cfg ← caught (s.m_starCfg.setABCRegisterByID address data ABCID) s.m_starCfg
      return { s with m_starCfg := cfg }
  else if hccReadOnly address then return s
  else if address = HCCStarRegister.Addressing then
    let hccid_cur ← s.m_starCfg.getHCCRegister HCCStarRegister.Addressing
    if data &&& 0xffffff = hccid_cur &&& 0xffffff then
      let cfg ← s.m_starCfg.setHCCRegister address data
      return { s with m_starCfg := cfg.setHCCChipId (data >>> 28).toNat }
    else return s
  else
    let cfg ← caught (s.m_starCfg.setHCCRegister address data) s.m_starCfg
    return { s with m_starCfg := cfg }

/-- A value of 32 bits for a packet. -/
def wordOf (data : UInt32) : Fin (2 ^ 32) := ⟨data.toNat, data.toNat_lt⟩

/-- A channel is below the number of channels wherever one is found. -/
def readRegister (address : Fin 256) (isABC : Bool) (ABCID : Nat) :
    Except Failure StarChipsetEmu := do
  if isABC then
    let ich ← s.m_starCfg.hccChannelForABCchipID ABCID
    let data ← caught (s.m_starCfg.getABCRegisterByID address.val ABCID) 0xffffffff
    let status : Fin (2 ^ 16) := ⟨((ABCID &&& 0xf) <<< 12) % 2 ^ 16, Nat.mod_lt _ (by decide)⟩
    return s.send (buildABCRegisterPacket .ABCRegRd address (wordOf data)
      ⟨ich.val, Nat.lt_trans ich.isLt (by decide)⟩ status)
  else
    let data ← caught (s.m_starCfg.getHCCRegister address.val) 0xffffffff
    return s.send (buildHCCRegisterPacket .HCCRegRd address (wordOf data))

/-! ## Register commands -/

/-- The IDs of all ABCs, which a broadcast goes to. -/
def abcIDs : List Nat := s.m_starCfg.m_ABCchips.map fun it => it.2.getABCchipID

/-- The value in the five parts of a write command. -/
def commandValue (parts : List Nat) : UInt32 :=
  UInt32.ofNat ((parts.take 5).zipIdx.foldl
    (fun data part => data ||| ((part.1 &&& 0x7f) <<< (7 * (4 - part.2)))) 0)

def execute_command_sequence : Except Failure StarChipsetEmu :=
  match s.m_reg_cmd_buffer with
  | header1 :: header2 :: rest =>
      have s := { s with m_reg_cmd_buffer := rest }
      let isRegRead := (header1 >>> 6) &&& 1 == 1
      have cmd_abcID := (header1 >>> 2) &&& 0xf
      let reg_addr : Fin 256 :=
        ⟨(((header1 &&& 3) <<< 6) ||| ((header2 >>> 1) &&& 0x3f)) % 256, Nat.mod_lt _ (by decide)⟩
      if isRegRead then
        if cmd_abcID = 0xf ∧ s.m_isForABC = true then
          s.abcIDs.foldlM (fun s abcID => s.readRegister reg_addr true abcID) s
        else s.readRegister reg_addr s.m_isForABC cmd_abcID
      else if rest.length ≠ 5 then .ok s
      else
        let data := commandValue rest
        have s := { s with m_reg_cmd_buffer := [] }
        if cmd_abcID = 0xf ∧ s.m_isForABC = true then
          s.abcIDs.foldlM (fun s abcID => s.writeRegister data reg_addr.val true abcID) s
        else s.writeRegister data reg_addr.val s.m_isForABC cmd_abcID
  | _ => .error .endIterator

/-- A frame that starts or ends a command, or with K-characters in no other place. -/
def doRegReadWrite (frame : LCB.Frame) : Except Failure StarChipsetEmu :=
  let code0 := LCB.code0 frame
  let code1 := LCB.code1 frame
  if code0 = LCB.K2 then
    let data6 := SixEight.decode code1
    let isK2Start := (data6 >>> 4) &&& 1 == 1
    let cmd_hccID := data6 &&& 0xf
    let m_ignoreCmd := !(cmd_hccID == s.m_starCfg.getHCCchipID &&& 0xf || cmd_hccID == 0xf)
    let s := { s with m_ignoreCmd := m_ignoreCmd }
    if m_ignoreCmd then .ok s
    else if isK2Start then
      .ok { s with m_isForABC := (data6 >>> 5) &&& 1 == 1, m_reg_cmd_buffer := [] }
    else
      let bufsize := s.m_reg_cmd_buffer.length
      if ¬(bufsize = 2 ∨ bufsize = 7) then .ok s
      else s.execute_command_sequence
  else if s.m_ignoreCmd then .ok s
  else
    let data12 := (SixEight.decode code0 <<< 6) ||| SixEight.decode code1
    .ok { s with m_reg_cmd_buffer := s.m_reg_cmd_buffer ++ [data12 &&& 0x7f] }

/-- The frames of a command, one after the other. -/
def doFrames (frames : List LCB.Frame) : Except Failure StarChipsetEmu :=
  frames.foldlM doRegReadWrite s

end StarChipsetEmu

end Yarr.StarEmu

/-!
## Register commands to a chipset

A command comes in a sequence of frames, of which the last one executes it. A
chipset ignores the sequence unless the ID of its HCC, or that of all HCCs, is
in its first frame.
-/

namespace Yarr.StarEmu

open Yarr.Star Yarr.Star.StarCmd

/-- What a command does. The frames for a value may be missing in a read. -/
inductive Access where
  | readShort
  | read (value : UInt32)
  | write (value : UInt32)
  deriving DecidableEq, Repr

structure Command where
  hccID : Fin 16
  abcID : Fin 16
  address : Fin 256
  hccNotAbc : Bool
  access : Access

namespace Command

variable (c : Command)

def readNotWrite : Bool :=
  match c.access with
  | .write _ => false
  | _ => true

def values : List LCB.Frame :=
  match c.access with
  | .readShort => []
  | .read value => valueFrames value
  | .write value => valueFrames value

def frames : List LCB.Frame :=
  startFrame c.hccID.val c.hccNotAbc ::
    (headerFrames c.abcID.val c.address.val c.readNotWrite ++ c.values ++ [endFrame c.hccID.val])

end Command

namespace StarChipsetEmu

variable (s : StarChipsetEmu) (c : Command)

/-- The chipset listens to the commands of an HCC. -/
def answers : Bool :=
  c.hccID.val == s.m_starCfg.getHCCchipID &&& 0xf || c.hccID.val == 0xf

/-! ## One frame -/

theorem doRegReadWrite_start : s.doRegReadWrite (startFrame c.hccID.val c.hccNotAbc) =
    if s.answers c then
      .ok { s with m_ignoreCmd := false, m_isForABC := !c.hccNotAbc, m_reg_cmd_buffer := [] }
    else .ok { s with m_ignoreCmd := true } := by
  rcases startFrame_codes c.hccID c.hccNotAbc with ⟨hK, hdata⟩
  have hfields : ∀ (h : Fin 16) (b : Bool),
      ((h.val + 16 + (if b then 0 else 32)) >>> 4) &&& 1 = 1 ∧
        (h.val + 16 + (if b then 0 else 32)) &&& 0xf = h.val ∧
        ((((h.val + 16 + (if b then 0 else 32)) >>> 5) &&& 1 == 1) = !b) := by
    decide +kernel
  rcases hfields c.hccID c.hccNotAbc with ⟨hstart, hID, habc⟩
  unfold doRegReadWrite
  dsimp only
  rw [if_pos hK, hdata, hstart, hID, habc]
  cases hanswers : s.answers c with
  | false =>
      have hmatch : (c.hccID.val == s.m_starCfg.getHCCchipID &&& 0xf || c.hccID.val == 0xf) =
          false := hanswers
      simp [hmatch]
  | true =>
      have hmatch : (c.hccID.val == s.m_starCfg.getHCCchipID &&& 0xf || c.hccID.val == 0xf) =
          true := hanswers
      simp [hmatch]

/-- The frame behind the last one executes the command. -/
theorem doRegReadWrite_end : s.doRegReadWrite (endFrame c.hccID.val) =
    if s.answers c then
      if s.m_reg_cmd_buffer.length = 2 ∨ s.m_reg_cmd_buffer.length = 7 then
        { s with m_ignoreCmd := false }.execute_command_sequence
      else .ok { s with m_ignoreCmd := false }
    else .ok { s with m_ignoreCmd := true } := by
  rcases endFrame_codes c.hccID with ⟨hK, hdata⟩
  have hfields : ∀ h : Fin 16, (h.val >>> 4) &&& 1 = 0 ∧ h.val &&& 0xf = h.val := by
    decide +kernel
  rcases hfields c.hccID with ⟨hend, hID⟩
  unfold doRegReadWrite
  dsimp only
  rw [if_pos hK, hdata, hend, hID]
  cases hanswers : s.answers c with
  | false =>
      have hmatch : (c.hccID.val == s.m_starCfg.getHCCchipID &&& 0xf || c.hccID.val == 0xf) =
          false := hanswers
      simp [hmatch]
  | true =>
      have hmatch : (c.hccID.val == s.m_starCfg.getHCCchipID &&& 0xf || c.hccID.val == 0xf) =
          true := hanswers
      by_cases hsize : s.m_reg_cmd_buffer.length = 2 ∨ s.m_reg_cmd_buffer.length = 7
      · simp only [hmatch, Bool.not_true, Bool.false_eq_true, if_false, if_true, if_pos hsize,
          not_not.mpr hsize]
        rfl
      · simp only [hmatch, Bool.not_true, Bool.false_eq_true, if_false, if_true, if_neg hsize]
        exact if_pos hsize

theorem doRegReadWrite_bits (data : Nat) : s.doRegReadWrite (LCB.command_bits data) =
    if s.m_ignoreCmd then .ok s
    else .ok { s with m_reg_cmd_buffer := s.m_reg_cmd_buffer ++ [data % 128] } := by
  have hbits : (SixEight.decode (LCB.code0 (LCB.command_bits data)) <<< 6 |||
      SixEight.decode (LCB.code1 (LCB.command_bits data))) &&& 0x7f = data % 128 := by
    rw [← LCB.twelve, LCB.twelve_command_bits, Bits.and_mask 0x7f 7 rfl]
    omega
  unfold doRegReadWrite
  dsimp only
  rw [if_neg (command_bits_code0 data), hbits]

/-! ## A sequence of frames -/

theorem doFrames_ignored (hignore : s.m_ignoreCmd = true) (datas : List Nat) :
    s.doFrames (datas.map LCB.command_bits) = .ok s := by
  induction datas with
  | nil => rfl
  | cons data datas ih =>
      rw [List.map_cons, doFrames, List.foldlM_cons, doRegReadWrite_bits, if_pos hignore]
      exact ih

theorem doFrames_buffered (hignore : s.m_ignoreCmd = false) (datas : List Nat) :
    s.doFrames (datas.map LCB.command_bits) =
      .ok { s with m_reg_cmd_buffer := s.m_reg_cmd_buffer ++ datas.map (· % 128) } := by
  induction datas generalizing s with
  | nil =>
      simp only [List.map_nil, List.append_nil]
      rfl
  | cons data datas ih =>
      rw [List.map_cons, doFrames, List.foldlM_cons, doRegReadWrite_bits,
        if_neg (by simp [hignore])]
      have hrest := ih { s with m_reg_cmd_buffer := s.m_reg_cmd_buffer ++ [data % 128] } hignore
      simp only [List.append_assoc, List.singleton_append] at hrest
      exact hrest

theorem doFrames_append {t : StarChipsetEmu} {frames frames' : List LCB.Frame}
    (h : s.doFrames frames = .ok t) : s.doFrames (frames ++ frames') = t.doFrames frames' := by
  unfold doFrames at h ⊢
  rw [List.foldlM_append, h]
  rfl

end StarChipsetEmu

namespace Command

variable (c : Command)

/-- The bits between the first frame and the last. -/
def bits : List Nat :=
  headerBits c.abcID.val c.address.val c.readNotWrite ++
    match c.access with
    | .readShort => []
    | .read value | .write value =>
        (List.range 5).map fun i => (value.toNat >>> ((4 - i) * 7)) &&& 0x7f

theorem frames_eq : c.frames = startFrame c.hccID.val c.hccNotAbc ::
    (c.bits.map LCB.command_bits ++ [endFrame c.hccID.val]) := by
  unfold frames bits values
  rw [headerFrames_eq, List.map_append]
  cases c.access with
  | readShort => rfl
  | read value => rfl
  | write value => rfl

theorem length_bits : c.bits.length = 2 ∨ c.bits.length = 7 := by
  unfold bits
  cases c.access with
  | readShort => exact Or.inl rfl
  | read value => exact Or.inr rfl
  | write value => exact Or.inr rfl

theorem bits_mod : c.bits.map (· % 128) = c.bits := by
  have hread : c.readNotWrite.toNat ≤ 1 := Bool.toNat_le c.readNotWrite
  have hlt : ∀ data ∈ c.bits, data < 128 := by
    intro data hdata
    unfold bits at hdata
    rcases List.mem_append.mp hdata with hheader | hvalue
    · simp only [headerBits, List.mem_cons, List.not_mem_nil, or_false] at hheader
      omega
    · cases haccess : c.access with
      | readShort =>
          rw [haccess] at hvalue
          cases hvalue
      | read value | write value =>
          rw [haccess] at hvalue
          rcases List.mem_map.mp hvalue with ⟨i, _, rfl⟩
          exact Nat.lt_of_le_of_lt Nat.and_le_right (by decide)
  rw [List.map_congr_left fun data hdata => Nat.mod_eq_of_lt (hlt data hdata), List.map_id']

end Command

namespace StarChipsetEmu

variable (s : StarChipsetEmu) (c : Command)

theorem doFrames_other (hother : s.answers c = false) :
    s.doFrames c.frames = .ok { s with m_ignoreCmd := true } := by
  have hstart : s.doRegReadWrite (startFrame c.hccID.val c.hccNotAbc) =
      .ok { s with m_ignoreCmd := true } := by
    rw [doRegReadWrite_start, hother]
    rfl
  rw [c.frames_eq, doFrames, List.foldlM_cons, hstart]
  refine (doFrames_append _ (doFrames_ignored _ (by rfl) c.bits)).trans ?_
  have hend : ({ s with m_ignoreCmd := true } : StarChipsetEmu).answers c = false := hother
  rw [doFrames, List.foldlM_cons, doRegReadWrite_end, hend]
  rfl

theorem doFrames_answered (hanswers : s.answers c = true) :
    s.doFrames c.frames =
      { s with
        m_ignoreCmd := false
        m_isForABC := !c.hccNotAbc
        m_reg_cmd_buffer := c.bits }.execute_command_sequence := by
  have hstart : s.doRegReadWrite (startFrame c.hccID.val c.hccNotAbc) =
      .ok { s with m_ignoreCmd := false, m_isForABC := !c.hccNotAbc, m_reg_cmd_buffer := [] } := by
    rw [doRegReadWrite_start, hanswers]
    rfl
  rw [c.frames_eq, doFrames, List.foldlM_cons, hstart]
  refine (doFrames_append _ (doFrames_buffered _ (by rfl) c.bits)).trans ?_
  rw [doFrames, List.foldlM_cons, doRegReadWrite_end, c.bits_mod]
  simp only [List.nil_append]
  rw [if_pos (by exact hanswers), if_pos c.length_bits]
  exact bind_pure _

/-! ## The registers of a command -/

theorem commandValue_parts (a b c d e : Nat) : commandValue [a, b, c, d, e] =
    UInt32.ofNat ((a &&& 0x7f) <<< 28 ||| (b &&& 0x7f) <<< 21 ||| (c &&& 0x7f) <<< 14 |||
      (d &&& 0x7f) <<< 7 ||| (e &&& 0x7f)) := by
  unfold commandValue
  simp only [List.take_succ_cons, List.take_nil, List.zipIdx_cons, List.zipIdx_nil, List.foldl_cons,
    List.foldl_nil, Nat.zero_or, Nat.reduceSub, Nat.reduceMul, Nat.reduceAdd, Nat.shiftLeft_zero]

theorem parts_join (v : Nat) (hlt : v < 4294967296) :
    (v / 268435456 % 128) <<< 28 ||| (v / 2097152 % 128) <<< 21 ||| (v / 16384 % 128) <<< 14 |||
      (v / 128 % 128) <<< 7 ||| v % 128 = v := by
  rw [Nat.shiftLeft_eq, Nat.shiftLeft_eq, Nat.shiftLeft_eq, Nat.shiftLeft_eq]
  have hjoin1 : v / 268435456 % 128 * 2 ^ 28 ||| v / 2097152 % 128 * 2 ^ 21 =
      v / 2097152 * 2 ^ 21 := by
    rw [Bits.or_add 28 (by omega) (by omega)]
    omega
  have hjoin2 : v / 2097152 * 2 ^ 21 ||| v / 16384 % 128 * 2 ^ 14 = v / 16384 * 2 ^ 14 := by
    rw [Bits.or_add 21 (by omega) (by omega)]
    omega
  have hjoin3 : v / 16384 * 2 ^ 14 ||| v / 128 % 128 * 2 ^ 7 = v / 128 * 2 ^ 7 := by
    rw [Bits.or_add 14 (by omega) (by omega)]
    omega
  rw [hjoin1, hjoin2, hjoin3, Bits.or_add 7 (by omega) (by omega)]
  omega

theorem commandValue_valueFrames (value : UInt32) :
    commandValue ((List.range 5).map fun i => (value.toNat >>> ((4 - i) * 7)) &&& 0x7f) = value := by
  have hlist : ((List.range 5).map fun i => (value.toNat >>> ((4 - i) * 7)) &&& 0x7f) =
      [(value.toNat >>> 28) &&& 0x7f, (value.toNat >>> 21) &&& 0x7f, (value.toNat >>> 14) &&& 0x7f,
        (value.toNat >>> 7) &&& 0x7f, value.toNat &&& 0x7f] := rfl
  have hpart : ∀ part : Nat, (part &&& 0x7f) &&& 0x7f = part % 128 := by
    intro part
    exact (Nat.and_assoc part _ _).trans (Bits.and_mask 0x7f 7 rfl part)
  rw [hlist, commandValue_parts]
  simp only [hpart, Nat.shiftRight_eq_div_pow]
  rw [parts_join value.toNat value.toNat_lt, UInt32.ofNat_toNat]

/-- What a command says is done with it: with all ABCs, with one of them, or with the HCC. -/
def perform : Except Failure StarChipsetEmu :=
  let forAll := c.abcID.val = 0xf ∧ s.m_isForABC = true
  match c.access with
  | .write value =>
      if forAll then
        s.abcIDs.foldlM (fun s abcID => s.writeRegister value c.address.val true abcID) s
      else s.writeRegister value c.address.val s.m_isForABC c.abcID.val
  | .read _ | .readShort =>
      if forAll then s.abcIDs.foldlM (fun s abcID => s.readRegister c.address true abcID) s
      else s.readRegister c.address s.m_isForABC c.abcID.val

theorem header_fields (abcid address : Nat) (readNotWrite : Bool) (habc : abcid < 16)
    (haddress : address < 256) :
    let header1 := readNotWrite.toNat * 64 + abcid % 16 * 4 + address / 64 % 4
    ((header1 >>> 6) &&& 1 == 1) = readNotWrite ∧ (header1 >>> 2) &&& 0xf = abcid ∧
      (((header1 &&& 3) <<< 6) ||| (((address % 64 * 2) >>> 1) &&& 0x3f)) % 256 = address := by
  have hread : readNotWrite.toNat ≤ 1 := Bool.toNat_le readNotWrite
  dsimp only
  rw [Bits.shiftRight_mask 1 1 rfl, Bits.shiftRight_mask 0xf 4 rfl, Bits.shiftRight_mask 0x3f 6 rfl,
    Bits.and_mask 3 2 rfl, Nat.shiftLeft_eq, Bits.or_add 6 (by omega) (by omega)]
  have hflag : (readNotWrite.toNat * 64 + abcid % 16 * 4 + address / 64 % 4) / 2 ^ 6 % 2 ^ 1 =
      readNotWrite.toNat := by
    omega
  rw [hflag]
  exact ⟨by cases readNotWrite <;> rfl, by omega, by omega⟩

theorem execute_command_sequence_bits (hbuffer : s.m_reg_cmd_buffer = c.bits) :
    s.execute_command_sequence =
      { s with
        m_reg_cmd_buffer := if c.readNotWrite then c.bits.drop 2 else [] }.perform c := by
  rcases header_fields c.abcID.val c.address.val c.readNotWrite c.abcID.isLt c.address.isLt with
    ⟨hflag, habc, haddress⟩
  unfold execute_command_sequence
  rw [hbuffer]
  simp only [Command.bits, headerBits, List.cons_append, List.nil_append, List.drop_succ_cons,
    List.drop_zero, hflag, habc, haddress]
  unfold perform
  cases haccess : c.access with
  | readShort => simp only [Command.readNotWrite, haccess, if_true]
  | read value => simp only [Command.readNotWrite, haccess, if_true]
  | write value =>
      simp only [Command.readNotWrite, haccess, commandValue_valueFrames, List.length_map,
        List.length_range]
      rfl

theorem doFrames_perform (hanswers : s.answers c = true) :
    s.doFrames c.frames =
      { s with
        m_ignoreCmd := false
        m_isForABC := !c.hccNotAbc
        m_reg_cmd_buffer := if c.readNotWrite then c.bits.drop 2 else [] }.perform c := by
  rw [doFrames_answered s c hanswers]
  exact execute_command_sequence_bits _ c rfl

end StarChipsetEmu

end Yarr.StarEmu
