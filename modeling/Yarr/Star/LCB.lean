import Yarr.Core.Bits
import Yarr.Core.Indices

/-!
# `LCBUtils.h`

Frames of the command link: two codes of eight bits, each for six bits of data
or for a K-character.
-/

namespace Yarr.Star

namespace SixEight

def count_bits (d : Nat) : Nat :=
  (List.range 6).foldl (fun n i => n + ((d >>> i) &&& 1)) 0

/-- The codes for five ones. -/
def encodeFive : Nat → Nat
  | 0x3e => 0x4e
  | 0x3d => 0x4d
  | 0x3b => 0x5a
  | 0x37 => 0x56
  | 0x2f => 0x6c
  | 0x1f => 0x5c
  | _ => 0xff

/-- The codes for a single one; the switch falls through to the next. -/
def encodeOne : Nat → Nat
  | 0x01 => 0x71
  | 0x02 => 0x72
  | 0x04 => 0x65
  | 0x08 => 0x69
  | 0x10 => 0x53
  | 0x20 => 0x63
  | data6 => encodeFive data6

/-- The switch is over the disparity, which is given by the number of ones. -/
def encode (data6 : Nat) : Nat :=
  match count_bits data6 with
  | 3 => 0x80 ||| data6
  | 4 => if data6 = 0x0f then 0x4b else 0x00 ||| data6
  | 2 => if data6 = 0x30 then 0x74 else 0xc0 ||| data6
  | 0 => 0x59
  | 6 => 0x66
  | 1 => encodeOne data6
  | 5 => encodeFive data6
  | _ => 0xff

/-- K-characters are decoded with bit 7 set. -/
def decode : Nat → Nat
  | 0x78 => 0x80
  | 0x55 => 0x81
  | 0x47 => 0x82
  | 0x6a => 0x83
  | 0x4e => 0x3e
  | 0x4d => 0x3d
  | 0x5a => 0x3b
  | 0x56 => 0x37
  | 0x6c => 0x2f
  | 0x5c => 0x1f
  | 0x71 => 0x01
  | 0x72 => 0x02
  | 0x65 => 0x04
  | 0x69 => 0x08
  | 0x53 => 0x10
  | 0x63 => 0x20
  | 0x59 => 0x00
  | 0x66 => 0x3f
  | 0x4b => 0x0f
  | 0x74 => 0x30
  | data8 => data8 &&& 0x3f

/-- The K-characters 0 to 3. -/
def isK (data8 : Nat) : Bool := data8 == 0x78 || data8 == 0x55 || data8 == 0x47 || data8 == 0x6a

theorem encode_spec : ∀ data6 < 64, decode (encode data6) = data6 ∧ encode data6 < 256 ∧
    isK (encode data6) = false := by
  decide +kernel

end SixEight

namespace LCB

def K0 : Nat := 0x78

def K1 : Nat := 0x55

def K2 : Nat := 0x47

def K3 : Nat := 0x6a

/-- A frame of 16 bits. -/
abbrev Frame := Nat

def build_pair (f s : Nat) : Frame := (f <<< 8) ||| s

def code0 (frame : Frame) : Nat := (frame >>> 8) &&& 0xff

def code1 (frame : Frame) : Nat := frame &&& 0xff

def IDLE : Frame := build_pair K0 K1

def raw_bits (bits : Nat) : Frame :=
  build_pair (SixEight.encode ((bits >>> 6) &&& 0x3f)) (SixEight.encode (bits &&& 0x3f))

/-- Neither code is a K-character. -/
def isData (frame : Frame) : Bool :=
  !SixEight.isK (code1 frame) && !SixEight.isK (code0 frame)

/-- The twelve bits of a frame. -/
def twelve (frame : Frame) : Nat :=
  (SixEight.decode (code0 frame) <<< 6) ||| SixEight.decode (code1 frame)

def command_bits (data : Nat) : Frame := raw_bits (data &&& 0x7f)

def l0a_mask (mask tag : Nat) (bcr : Bool) : Frame :=
  raw_bits ((if bcr then 0x800 else 0) ||| ((mask &&& 0xf) <<< 7) ||| (tag &&& 0x7f))

def fast_command (type delay : Nat) : Frame :=
  build_pair K3 (SixEight.encode (((delay &&& 3) <<< 4) ||| (type &&& 0xf)))

def is_l0a_bcr (f : Frame) : Bool := isData f && twelve f &&& 0xf80 != 0

def get_l0_mask (f : Frame) : Nat := (twelve f >>> 7) &&& 0xf

def get_l0_tag (f : Frame) : Nat := twelve f &&& 0x7f

def is_fast_command (f : Frame) : Bool := f >>> 8 == K3

theorem codes_build_pair {f s : Nat} (hf : f < 256) (hs : s < 256) :
    code0 (build_pair f s) = f ∧ code1 (build_pair f s) = s := by
  unfold code0 code1 build_pair
  rw [Bits.shiftLeft_or f (show s < 2 ^ 8 from hs), Bits.shiftRight_mask 0xff 8 rfl,
    Bits.and_mask 0xff 8 rfl]
  omega

theorem codes_raw_bits (bits : Nat) :
    code0 (raw_bits bits) = SixEight.encode (bits / 64 % 64) ∧
      code1 (raw_bits bits) = SixEight.encode (bits % 64) := by
  have hhigh := SixEight.encode_spec (bits / 64 % 64) (Nat.mod_lt _ (by decide))
  have hlow := SixEight.encode_spec (bits % 64) (Nat.mod_lt _ (by decide))
  have hraw : raw_bits bits =
      build_pair (SixEight.encode (bits / 64 % 64)) (SixEight.encode (bits % 64)) := by
    unfold raw_bits
    rw [Bits.shiftRight_mask 0x3f 6 rfl, Bits.and_mask 0x3f 6 rfl]
    simp only [Nat.reducePow]
  rw [hraw]
  exact codes_build_pair hhigh.2.1 hlow.2.1

theorem isData_raw_bits (bits : Nat) : isData (raw_bits bits) = true := by
  have hhigh := SixEight.encode_spec (bits / 64 % 64) (Nat.mod_lt _ (by decide))
  have hlow := SixEight.encode_spec (bits % 64) (Nat.mod_lt _ (by decide))
  rw [isData, (codes_raw_bits bits).1, (codes_raw_bits bits).2, hhigh.2.2, hlow.2.2]
  rfl

theorem twelve_raw_bits (bits : Nat) : twelve (raw_bits bits) = bits % 4096 := by
  have hhigh := SixEight.encode_spec (bits / 64 % 64) (Nat.mod_lt _ (by decide))
  have hlow := SixEight.encode_spec (bits % 64) (Nat.mod_lt _ (by decide))
  rw [twelve, (codes_raw_bits bits).1, (codes_raw_bits bits).2, hhigh.1, hlow.1,
    Bits.shiftLeft_or _ (show bits % 64 < 2 ^ 6 from Nat.mod_lt _ (by decide))]
  omega

theorem twelve_command_bits (data : Nat) : twelve (command_bits data) = data % 128 := by
  rw [command_bits, twelve_raw_bits, Bits.and_mask 0x7f 7 rfl]
  omega

end LCB

end Yarr.Star

/-!
## `LCBFwUtils.h`

Commands to the encoder in the firmware, as bytes: the first one says what the
command is and how many follow.
-/

namespace Yarr.Star

namespace LCB_FELIX

def IDLE : Nat := 0x80
def FASTCMD : Nat := 0x81
def L0A : Nat := 0x82
def ABCREGRD : Nat := 0xa0
def HCCREGRD : Nat := 0xa1
def ABCREGWR : Nat := 0xa2
def HCCREGWR : Nat := 0xa3

def fast_command (cmdID delay : Nat) : List Nat :=
  [FASTCMD, ((delay &&& 3) <<< 4) + (cmdID &&& 0xf)]

def l0a_mask (mask tag : Nat) (bcr : Bool) : List Nat :=
  [L0A, (bcr.toNat <<< 4) + (mask &&& 0xf), tag]

def read_hcc_register (address hccID : Nat) : List Nat :=
  [HCCREGRD, address &&& 0xff, (hccID &&& 0xf) <<< 4]

def read_abc_register (address hccID abcID : Nat) : List Nat :=
  [ABCREGRD, address &&& 0xff, ((hccID &&& 0xf) <<< 4) + (abcID &&& 0xf)]

/-- A value from the top byte down. -/
def valueBytes (value : UInt32) : List Nat :=
  [value.toNat >>> 24, (value.toNat >>> 16) &&& 0xff, (value.toNat >>> 8) &&& 0xff,
    value.toNat &&& 0xff]

def write_hcc_register (address : Nat) (value : UInt32) (hccID : Nat) : List Nat :=
  HCCREGWR :: valueBytes value ++ [address &&& 0xff, (hccID &&& 0xf) <<< 4]

def write_abc_register (address : Nat) (value : UInt32) (hccID abcID : Nat) : List Nat :=
  ABCREGWR :: valueBytes value ++ [address &&& 0xff, ((hccID &&& 0xf) <<< 4) + (abcID &&& 0xf)]

/-- The number of triggers in a mask. -/
def popcount (mask : Nat) : Nat := (List.range 4).countP mask.testBit

end LCB_FELIX

end Yarr.Star

/-!
## `StarCmd`

The frames of a register command: a start, two frames with the address, five
with the parts of a value, and an end.
-/

namespace Yarr.Star

namespace StarCmd

open LCB

def startFrame (hccid : Nat) (hccNotAbc : Bool) : Frame :=
  build_pair K2
    (SixEight.encode ((hccid &&& 0xf) ||| 0x10 ||| (if !hccNotAbc then 0x20 else 0)))

def headerFrames (abcid address : Nat) (readNotWrite : Bool) : List Frame :=
  [command_bits ((readNotWrite.toNat <<< 6) ||| ((abcid &&& 0xf) <<< 2) ||| ((address >>> 6) &&& 3)),
    command_bits ((address &&& 0x3f) <<< 1)]

def valueFrames (value : UInt32) : List Frame :=
  (List.range 5).map fun i => command_bits ((value.toNat >>> ((4 - i) * 7)) &&& 0x7f)

def endFrame (hccid : Nat) : Frame := build_pair K2 (SixEight.encode (hccid &&& 0xf))

def command_sequence (hccid abcid address : Nat) (readNotWrite : Bool) (value : UInt32)
    (hccNotAbc : Bool) : List Frame :=
  startFrame hccid hccNotAbc ::
    (headerFrames abcid address readNotWrite ++ valueFrames value ++ [endFrame hccid])

/-! ## What a receiver sees -/

theorem startFrame_codes (hccid : Fin 16) (hccNotAbc : Bool) :
    code0 (startFrame hccid.val hccNotAbc) = K2 ∧
      SixEight.decode (code1 (startFrame hccid.val hccNotAbc)) =
        hccid.val + 16 + (if hccNotAbc then 0 else 32) := by
  revert hccid hccNotAbc
  decide +kernel

theorem endFrame_codes (hccid : Fin 16) :
    code0 (endFrame hccid.val) = K2 ∧ SixEight.decode (code1 (endFrame hccid.val)) = hccid.val := by
  revert hccid
  decide +kernel

theorem command_bits_code0 (data : Nat) : code0 (command_bits data) ≠ K2 := by
  have hspec := (SixEight.encode_spec ((data &&& 0x7f) / 64 % 64) (Nat.mod_lt _ (by decide))).2.2
  rw [command_bits, (codes_raw_bits _).1]
  intro hK
  rw [hK] at hspec
  cases hspec

/-- The frames between start and end, as seven bits each. -/
def headerBits (abcid address : Nat) (readNotWrite : Bool) : List Nat :=
  [readNotWrite.toNat * 64 + abcid % 16 * 4 + address / 64 % 4, address % 64 * 2]

theorem headerFrames_eq (abcid address : Nat) (readNotWrite : Bool) :
    headerFrames abcid address readNotWrite =
      (headerBits abcid address readNotWrite).map command_bits := by
  have hread : readNotWrite.toNat ≤ 1 := Bool.toNat_le readNotWrite
  have hfirst : (readNotWrite.toNat <<< 6) ||| ((abcid &&& 0xf) <<< 2) ||| ((address >>> 6) &&& 3) =
      readNotWrite.toNat * 64 + abcid % 16 * 4 + address / 64 % 4 := by
    have hjoin : readNotWrite.toNat * 2 ^ 6 ||| abcid % 2 ^ 4 * 2 ^ 2 =
        readNotWrite.toNat * 2 ^ 6 + abcid % 2 ^ 4 * 2 ^ 2 := Bits.or_add 6 (by omega) (by omega)
    rw [Bits.and_mask 0xf 4 rfl, Bits.shiftRight_mask 3 2 rfl, Nat.shiftLeft_eq, Nat.shiftLeft_eq,
      hjoin, Bits.or_add 2 (by omega) (by omega)]
    simp only [Nat.reducePow]
  have hsecond : (address &&& 0x3f) <<< 1 = address % 64 * 2 := by
    rw [Bits.and_mask 0x3f 6 rfl, Nat.shiftLeft_eq]
    simp only [Nat.reducePow]
  unfold headerFrames headerBits
  rw [hfirst, hsecond]
  rfl

end StarCmd

end Yarr.Star
