import Mathlib.Tactic.Common
import Yarr.Core.Bits
import Yarr.Core.Indices

/-!
# `StarChipPacket`

The parser of HCCStar packets that collects its words first, between a start
and an end symbol, and walks over them with an index. Reading behind the last
word is a fault, so that the bounds the source checks and those it does not
check can be told apart.
-/

namespace Yarr.Star

/-- Undefined behaviour that the modelled code can run into. -/
inductive Fault where
  | outOfBounds
  | uninitialised
  deriving DecidableEq, Repr

/-- `Star::MaxABCsPerHCC`. -/
def MaxABCsPerHCC : Nat := 11

theorem MaxABCsPerHCC_pos : 0 < MaxABCsPerHCC := by decide

/-- `Star::StripsPerABCRow`. -/
def StripsPerABCRow : Nat := 128

/-- A read with an index that the source does not check. -/
def readAt (raw : List Nat) (i : Nat) : Except Fault Nat :=
  match raw[i]? with
  | some w => .ok w
  | none => .error .outOfBounds

theorem readAt_of_lt {raw : List Nat} {i : Nat} (h : i < raw.length) :
    readAt raw i = .ok raw[i] := by
  simp [readAt, List.getElem?_eq_getElem h]

inductive PacketType where
  | none
  | pr
  | lp
  | abc_rr
  | abc_transp
  | hcc_rr
  | abc_full
  | abc_hpr
  | hcc_hpr
  | unknown
  deriving DecidableEq, Repr

/-- The number of an enumerator. -/
def PacketType.code : PacketType → Nat
  | .none => 0
  | .pr => 1
  | .lp => 2
  | .abc_rr => 3
  | .abc_transp => 4
  | .hcc_rr => 5
  | .abc_full => 6
  | .abc_hpr => 7
  | .hcc_hpr => 8
  | .unknown => 9

/-- Map of the 4-bit header to the packet type. -/
def packet_type_headers : Nat → Option PacketType
  | 1 => some .pr
  | 2 => some .lp
  | 4 => some .abc_rr
  | 7 => some .abc_transp
  | 8 => some .hcc_rr
  | 11 => some .abc_full
  | 13 => some .abc_hpr
  | 14 => some .hcc_hpr
  | 0 => some .none
  | _ => none

/-- All four fields are eight bits wide. -/
structure Cluster where
  input_channel : Nat
  raw_cluster : Nat
  address : Nat
  next : Nat
  deriving DecidableEq, Repr

/-- The channels with an error, for each kind of error. -/
structure ErrorBlock where
  error_abc : List Nat
  error_bcid : List Nat
  error_l0tag : List Nat
  error_timeout : List Nat
  deriving DecidableEq, Repr

def ErrorBlock.parse (error_word : Nat) : ErrorBlock where
  error_abc := channels ((error_word >>> 36) &&& 0x7FF)
  error_bcid := channels ((error_word >>> 24) &&& 0x7FF)
  error_l0tag := channels ((error_word >>> 12) &&& 0x7FF)
  error_timeout := channels ((error_word >>> 0) &&& 0x7FF)
where
  channels (word : Nat) : List Nat :=
    (List.range 11).filter fun i_chan => (word >>> i_chan) &&& 1 == 1

structure StarChipPacket where
  raw_words : List Nat
  type : PacketType
  error_block : Option ErrorBlock
  address : Nat
  value : Nat
  channel_abc : Nat
  abc_status : Nat
  flag : Nat
  bcid : Nat
  bcid_parity : Nat
  l0id : Nat
  clusters : List Cluster
  deriving DecidableEq, Repr

namespace StarChipPacket

/-- `StarChipPacket()`. -/
def empty : StarChipPacket where
  raw_words := []
  type := .none
  error_block := none
  address := 0
  value := 0
  channel_abc := 0
  abc_status := 0
  flag := 0
  bcid := 0
  bcid_parity := 0
  l0id := 0
  clusters := []

/-- Words are kept in 16 bits. -/
def add_word (p : StarChipPacket) (word : Nat) : StarChipPacket :=
  { p with raw_words := p.raw_words ++ [word % 2 ^ 16] }

def n_clusters (p : StarChipPacket) : Nat := p.clusters.length

def is_parsed (p : StarChipPacket) : Bool := p.type != .none

/-- Every parsed field but `abc_status`. -/
def clear_parsed_info (p : StarChipPacket) : StarChipPacket :=
  { p with
    address := 0
    value := 0
    channel_abc := 0
    type := .none
    error_block := none
    flag := 0
    bcid := 0
    bcid_parity := 0
    l0id := 0
    clusters := [] }

/-- The parsing methods return zero, or one after an error; then the fields stay as far as
they were filled. -/
abbrev Parsed := Except Fault (Nat × StarChipPacket)

def word (p : StarChipPacket) (i : Nat) : Except Fault Nat := readAt p.raw_words i

/-- A register read out from an HCC. The length may differ a little, because the data come in
32-bit words. -/
def parse_data_HCC_read (p : StarChipPacket) : Parsed :=
  if p.raw_words.length ≠ 8 ∧ (p.raw_words.length - 2) / 4 ≠ 2 then .ok (1, p)
  else do
    let w1 ← p.word 1
    let w2 ← p.word 2
    let w3 ← p.word 3
    let w4 ← p.word 4
    let w5 ← p.word 5
    let w6 ← p.word 6
    return (0, { p with
      address := ((w1 &&& 0xF) <<< 4) ||| ((w2 >>> 4) &&& 0xF)
      value := ((w2 &&& 0xF) <<< 28) ||| ((w3 &&& 0xFF) <<< 20) ||| ((w4 &&& 0xFF) <<< 12) |||
        ((w5 &&& 0xFF) <<< 4) ||| ((w6 >>> 4) &&& 0xF) })

/-- A register read out from an ABC. -/
def parse_data_ABC_read (p : StarChipPacket) : Parsed :=
  if p.raw_words.length ≠ 11 ∧ (p.raw_words.length - 2) / 4 ≠ 3 then .ok (1, p)
  else do
    let w1 ← p.word 1
    let w2 ← p.word 2
    let w3 ← p.word 3
    let w4 ← p.word 4
    let w5 ← p.word 5
    let w6 ← p.word 6
    let w7 ← p.word 7
    let w8 ← p.word 8
    let w9 ← p.word 9
    return (0, { p with
      channel_abc := w1 &&& 0xF
      address := w2 &&& 0xFF
      value := ((w3 &&& 0xF) <<< 28) ||| ((w4 &&& 0xFF) <<< 20) ||| ((w5 &&& 0xFF) <<< 12) |||
        ((w6 &&& 0xFF) <<< 4) ||| ((w7 &&& 0xF0) >>> 4)
      abc_status := ((w7 &&& 0xF) <<< 12) ||| ((w8 &&& 0xFF) <<< 4) ||| ((w9 &&& 0xF0) >>> 4) })

/-! ## Physics packets -/

/-- The loop that ignores HCC idles: the index behind them, or nothing where they go on to
the end. -/
def skipIdles (raw : List Nat) (iW : Nat) : Except Fault (Option Nat) :=
  match raw[iW]? with
  | some w =>
      if w = 0x3FF then
        if iW + 2 ≥ raw.length then .ok none else skipIdles raw (iW + 1)
      else .ok (some iW)
  | none => .error .outOfBounds
termination_by raw.length - iW

theorem skipIdles_le {raw : List Nat} {iW j : Nat} (h : skipIdles raw iW = .ok (some j)) :
    iW ≤ j := by
  rw [skipIdles] at h
  cases hw : raw[iW]? with
  | none => simp [hw] at h
  | some w =>
      simp only [hw] at h
      split at h
      · split at h
        · simp at h
        · have hle := skipIdles_le h
          omega
      · simp only [Except.ok.injEq, Option.some.injEq] at h
        omega
termination_by raw.length - iW

/-- Six words in a row, joined to one number. -/
def errorWord (raw : List Nat) (iW : Nat) : Except Fault Nat :=
  (List.range 6).foldlM (fun error_word i => do
    let w ← readAt raw (iW + 2 + i)
    return error_word ||| (w <<< (8 * (5 - i)))) 0

/-- The cluster in a word. Its raw form is cut to eight bits as well. -/
def clusterOf (word : Nat) : Cluster where
  input_channel := (word >>> 11) &&& 0xF
  raw_cluster := (word &&& 0x7FF) % 2 ^ 8
  address := (word >>> 3) &&& 0xFF
  next := word &&& 0x7

/-- Where the loop over the words of a physics packet ended: `failed` without an end pattern,
otherwise with `iW` at this pattern. -/
structure Walk where
  failed : Bool
  iW : Nat
  clusters : List Cluster
  error_block : Option ErrorBlock
  deriving DecidableEq, Repr

/-- The loop of `parse_data_PRLP`. -/
def prlpLoop (raw : List Nat) (w : Walk) : Except Fault Walk :=
  if w.iW + 1 ≥ raw.length then .ok { w with failed := true }
  else
    match _h : skipIdles raw w.iW with
    | .error f => .error f
    | .ok none => .ok { w with failed := true }
    | .ok (some iW) =>
        match readAt raw iW, readAt raw (iW + 1) with
        | .ok w0, .ok w1 =>
            let word := ((w0 <<< 8) ||| w1) % 2 ^ 16
            if word = 0x77F4 then
              if raw.length < iW + 8 then .ok { w with failed := true, iW := iW }
              else
                match errorWord raw iW with
                | .error f => .error f
                | .ok error_word =>
                    prlpLoop raw { w with
                      iW := iW + 8, error_block := some (ErrorBlock.parse error_word) }
            else if word = 0x6FED then .ok { w with iW := iW }
            else if word &&& 0x7FF = 0x3FE then prlpLoop raw { w with iW := iW + 2 }
            else prlpLoop raw { w with iW := iW + 2, clusters := w.clusters ++ [clusterOf word] }
        | _, _ => .error .outOfBounds
termination_by raw.length - w.iW
decreasing_by
  all_goals
    have hle := skipIdles_le _h
    omega

/-- A PR or LP packet. Up to two words may follow the end pattern. -/
def parse_data_PRLP (p : StarChipPacket) : Parsed := do
  let w1 ← p.word 1
  let w2 ← p.word 2
  let walk ← prlpLoop p.raw_words ⟨false, 3, p.clusters, p.error_block⟩
  let p := { p with
    flag := (w1 >>> 3) &&& 1
    l0id := ((w1 &&& 0b111) <<< 4) ||| ((w2 >>> 4) &&& 0xF)
    bcid := (w2 >>> 1) &&& 0x7
    bcid_parity := w2 &&& 0x1
    clusters := walk.clusters
    error_block := walk.error_block }
  if walk.failed then return (1, p)
  else
    let used_count := walk.iW + 3
    let unused_count := (p.raw_words.length + 2 ^ 32 - used_count) % 2 ^ 32
    return (if unused_count > 2 then 1 else 0, p)

/-- One wrapped ABC packet. The nine words are read without a look at the length. -/
def parse_data_ABC_transparent (p : StarChipPacket) : Parsed := do
  let w1 ← p.word 1
  let _ ← (List.range 8).mapM fun i => p.word (2 + i)
  return (0, { p with channel_abc := w1 &&& 0xf })

def parse (p : StarChipPacket) : Parsed :=
  let p := if p.is_parsed then p.clear_parsed_info else p
  if p.raw_words.length < 4 then .ok (1, p)
  else if p.raw_words.head? ≠ some 0x13C then .ok (1, p)
  else if p.raw_words.getLast? ≠ some 0x1DC then .ok (1, p)
  else do
    let w1 ← p.word 1
    match packet_type_headers ((w1 >>> 4) &&& 0xF) with
    | none => return (1, { p with type := .unknown })
    | some type =>
        let p := { p with type := type }
        match type with
        | .hcc_rr | .hcc_hpr => p.parse_data_HCC_read
        | .abc_rr | .abc_hpr => p.parse_data_ABC_read
        | .lp | .pr => p.parse_data_PRLP
        | .abc_transp => p.parse_data_ABC_transparent
        | _ => return (0, p)

end StarChipPacket

end Yarr.Star
