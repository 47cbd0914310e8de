import Yarr.Core.Indices
import Yarr.Star.ClusterCover
import Yarr.Star.PacketFormat

/-!
# `StarPackets`

How the emulator builds the bytes of a physics packet, and how it puts them
into 32-bit words.
-/

namespace Yarr.Star

namespace StarPackets

inductive PacketTypes where
  | PR
  | LP
  | ABCRegRd
  | ABCPacketTransRegRd
  | HCCRegRd
  | ABCFullTransRegRd
  | ABCHPR
  | HCCHPR
  deriving DecidableEq, Repr

def PacketTypes.code : PacketTypes → Nat
  | PR => 1
  | LP => 2
  | ABCRegRd => 4
  | ABCPacketTransRegRd => 7
  | HCCRegRd => 8
  | ABCFullTransRegRd => 11
  | ABCHPR => 13
  | HCCHPR => 14

def getParity_8bits (val : Nat) : Nat :=
  let val := val ^^^ (val >>> 4)
  let val := val ^^^ (val >>> 2)
  let val := val ^^^ (val >>> 1)
  val &&& 1

/-- Packet type, error flag, seven bits of the L0 tag and three of the BC count with a parity. -/
def physicsHeader (typ : PacketTypes) (l0tag bc_count : Fin 256) : Nat :=
  ((typ.code <<< 12) ||| (0 <<< 11) ||| ((l0tag.val &&& 0x7f) <<< 4) |||
    ((bc_count.val &&& 7) <<< 1) ||| getParity_8bits bc_count.val) % 2 ^ 16

/-- The two bytes of a 16-bit word. -/
def wordBytes (word : Nat) : List Nat := [(word >>> 8) &&& 0xff, word &&& 0xff]

/-- A zero bit, the channel and the cluster without its mark. -/
def clusterBits (input_chan cluster : Nat) : Nat :=
  (((input_chan &&& 0xf) <<< 11) ||| (cluster &&& 0x7ff)) % 2 ^ 16

def endOfPacket : Nat := 0x6fed

/-- The packet of the clusters of all channels; no bytes where no channel has a word. -/
def buildPhysicsPacket (allClusters : Fin MaxABCsPerHCC → List Nat) (typ : PacketTypes)
    (l0tag bc_count : Fin 256) : List Nat :=
  let data_packets := wordBytes (physicsHeader typ l0tag bc_count) ++
    (List.finRange MaxABCsPerHCC).flatMap fun ichip =>
      (allClusters ichip).flatMap fun cluster => wordBytes (clusterBits ichip.val cluster)
  if data_packets.length = 2 then [] else data_packets ++ wordBytes endOfPacket

/-- Up to four bytes in a word, the first one lowest. -/
def packWord (bytes : List Nat) : Nat :=
  bytes.zipIdx.foldl (fun final b => final ||| (b.1 <<< (8 * b.2))) 0

/-- `sendPacket`: whole words, then what is left of the bytes. -/
def sendPacket : List Nat → List Nat
  | b0 :: b1 :: b2 :: b3 :: bytes => packWord [b0, b1, b2, b3] :: sendPacket bytes
  | [] => []
  | bytes => [packWord bytes]

/-! ## Bytes of a sent packet -/

theorem two_bytes_lt {b0 b1 : Nat} (h0 : b0 < 256) (h1 : b1 < 256) : b1 * 256 + b0 < 2 ^ 16 := by
  omega

theorem three_bytes_lt {b0 b1 b2 : Nat} (h0 : b0 < 256) (h1 : b1 < 256) (h2 : b2 < 256) :
    b2 * 65536 + (b1 * 256 + b0) < 2 ^ 24 := by
  omega

theorem four_bytes_eq (b0 b1 b2 b3 : Nat) :
    b3 * 16777216 + (b2 * 65536 + (b1 * 256 + b0)) =
      ((b3 * 256 + b2) * 256 + b1) * 256 + b0 := by
  omega

theorem packWord_four {b0 b1 b2 : Nat} (b3 : Nat) (h0 : b0 < 256) (h1 : b1 < 256)
    (h2 : b2 < 256) :
    packWord [b0, b1, b2, b3] = ((b3 * 256 + b2) * 256 + b1) * 256 + b0 := by
  have hfold : packWord [b0, b1, b2, b3] =
      (((0 ||| (b0 <<< 0)) ||| (b1 <<< 8)) ||| (b2 <<< 16)) ||| (b3 <<< 24) := by
    have hoffset1 : 8 * (0 + 1) = 8 := rfl
    have hoffset2 : 8 * (0 + 1 + 1) = 16 := rfl
    have hoffset3 : 8 * (0 + 1 + 1 + 1) = 24 := rfl
    unfold packWord
    rw [List.zipIdx_cons, List.zipIdx_cons, List.zipIdx_cons, List.zipIdx_cons, List.zipIdx_nil,
      List.foldl_cons, List.foldl_cons, List.foldl_cons, List.foldl_cons, List.foldl_nil]
    simp only [hoffset1, hoffset2, hoffset3, Nat.mul_zero]
  have hb1 := Bits.shiftLeft_or b1 (show b0 < 2 ^ 8 from h0)
  have hb2 := Bits.shiftLeft_or b2 (two_bytes_lt h0 h1)
  have hb3 := Bits.shiftLeft_or b3 (three_bytes_lt h0 h1 h2)
  rw [hfold, Nat.zero_or, Nat.shiftLeft_zero, Nat.or_comm b0, hb1, Nat.or_comm _ (b2 <<< 16)]
  refine (congrArg (· ||| (b3 <<< 24)) hb2).trans ?_
  rw [Nat.or_comm _ (b3 <<< 24)]
  exact hb3.trans (four_bytes_eq b0 b1 b2 b3)

theorem bytesOf_cons (w : Nat) (words : List Nat) :
    bytesOf (w :: words) =
      [w % 256, w / 256 % 256, w / 65536 % 256, w / 16777216 % 256] ++ bytesOf words := by
  have hbyte : ∀ k, (w >>> k) &&& 0xFF = w / 2 ^ k % 256 := fun k =>
    Bits.shiftRight_mask 0xFF 8 rfl w k
  simp only [bytesOf, List.flatMap_cons, List.range_succ, List.range_zero, List.nil_append,
    List.map_cons, List.map_nil, hbyte, List.cons_append]
  simp

theorem packWord_pad (bytes : List Nat) (k : Nat) :
    packWord (bytes ++ List.replicate k 0) = packWord bytes := by
  induction k with
  | zero => simp
  | succ k ih =>
      rw [List.replicate_succ', ← List.append_assoc]
      unfold packWord at ih ⊢
      rw [List.zipIdx_append, List.foldl_append, ih]
      simp

theorem bytesOf_packWord {b0 b1 b2 b3 : Nat} (h0 : b0 < 256) (h1 : b1 < 256) (h2 : b2 < 256)
    (h3 : b3 < 256) (words : List Nat) :
    bytesOf (packWord [b0, b1, b2, b3] :: words) = [b0, b1, b2, b3] ++ bytesOf words := by
  rw [bytesOf_cons, packWord_four b3 h0 h1 h2]
  have hb0 : (((b3 * 256 + b2) * 256 + b1) * 256 + b0) % 256 = b0 := by omega
  have hb1 : (((b3 * 256 + b2) * 256 + b1) * 256 + b0) / 256 % 256 = b1 := by omega
  have hb2 : (((b3 * 256 + b2) * 256 + b1) * 256 + b0) / 65536 % 256 = b2 := by omega
  have hb3 : (((b3 * 256 + b2) * 256 + b1) * 256 + b0) / 16777216 % 256 = b3 := by omega
  rw [hb0, hb1, hb2, hb3]

/-- A sent packet holds its bytes and fills the last word with zeros. -/
theorem bytesOf_sendPacket (bytes : List Nat) (h : ∀ b ∈ bytes, b < 256) :
    ∃ k, k < 4 ∧ bytesOf (sendPacket bytes) = bytes ++ List.replicate k 0 := by
  induction bytes using sendPacket.induct with
  | case1 b0 b1 b2 b3 bytes ih =>
      obtain ⟨k, hk, hrest⟩ := ih (fun b hb => h b (by simp [hb]))
      refine ⟨k, hk, ?_⟩
      rw [sendPacket, bytesOf_packWord (h b0 (by simp)) (h b1 (by simp)) (h b2 (by simp))
        (h b3 (by simp)), hrest]
      rfl
  | case2 => exact ⟨0, by decide, rfl⟩
  | case3 bytes hlong hnil =>
      have hzero : 0 < 256 := by decide
      match bytes, hlong, hnil with
      | [b0], _, _ =>
          have hword : sendPacket [b0] = [packWord [b0]] := rfl
          refine ⟨3, by decide, ?_⟩
          rw [hword, ← packWord_pad [b0] 3]
          exact bytesOf_packWord (h b0 (by simp)) hzero hzero hzero []
      | [b0, b1], _, _ =>
          have hword : sendPacket [b0, b1] = [packWord [b0, b1]] := rfl
          refine ⟨2, by decide, ?_⟩
          rw [hword, ← packWord_pad [b0, b1] 2]
          exact bytesOf_packWord (h b0 (by simp)) (h b1 (by simp)) hzero hzero []
      | [b0, b1, b2], _, _ =>
          have hword : sendPacket [b0, b1, b2] = [packWord [b0, b1, b2]] := rfl
          refine ⟨1, by decide, ?_⟩
          rw [hword, ← packWord_pad [b0, b1, b2] 1]
          exact bytesOf_packWord (h b0 (by simp)) (h b1 (by simp)) (h b2 (by simp)) hzero []
      | [], _, hnil => exact absurd rfl hnil
      | b0 :: b1 :: b2 :: b3 :: rest, hlong, _ => exact (hlong b0 b1 b2 b3 rest rfl).elim

/-! ## A physics packet in its format -/

theorem wordBytes_eq {word : Nat} (h : word < 2 ^ 16) : wordBytes word = [word / 256, word % 256] := by
  unfold wordBytes
  rw [Bits.shiftRight_mask 0xff 8 rfl, Bits.and_mask 0xff 8 rfl]
  congr 1
  omega

/-- The header without an error, with the counters cut to their widths. -/
def sentHeader (l0tag bc_count : Fin 256) : Header where
  flag := 0
  l0id := ⟨l0tag.val % 128, Nat.mod_lt _ (by decide)⟩
  bcid := ⟨bc_count.val % 8, Nat.mod_lt _ (by decide)⟩
  parity := ⟨getParity_8bits bc_count.val % 2, Nat.mod_lt _ (by decide)⟩

theorem getParity_8bits_lt (val : Nat) : getParity_8bits val < 2 := by
  unfold getParity_8bits
  exact Nat.lt_of_le_of_lt Nat.and_le_right (by decide)

theorem physicsHeader_eq (typ : PacketTypes) (l0tag bc_count : Fin 256) :
    physicsHeader typ l0tag bc_count =
      typ.code * 4096 + l0tag.val % 128 * 16 + bc_count.val % 8 * 2 +
        getParity_8bits bc_count.val := by
  have hparity := getParity_8bits_lt bc_count.val
  have htyp : typ.code < 16 := by cases typ <;> decide
  have htag : typ.code * 2 ^ 12 ||| l0tag.val % 2 ^ 7 * 2 ^ 4 =
      typ.code * 2 ^ 12 + l0tag.val % 2 ^ 7 * 2 ^ 4 := Bits.or_add 12 (by omega) (by omega)
  have hbc : (typ.code * 2 ^ 12 + l0tag.val % 2 ^ 7 * 2 ^ 4) ||| bc_count.val % 2 ^ 3 * 2 ^ 1 =
      typ.code * 2 ^ 12 + l0tag.val % 2 ^ 7 * 2 ^ 4 + bc_count.val % 2 ^ 3 * 2 ^ 1 :=
    Bits.or_add 4 (by omega) (by omega)
  unfold physicsHeader
  rw [Nat.zero_shiftLeft, Nat.or_zero, Bits.and_mask 0x7f 7 rfl, Bits.and_mask 7 3 rfl,
    Nat.shiftLeft_eq, Nat.shiftLeft_eq, Nat.shiftLeft_eq, htag, hbc,
    Bits.or_add 1 (by omega) (by omega)]
  omega

theorem header_bytes (typ : PacketTypes) (l0tag bc_count : Fin 256) :
    wordBytes (physicsHeader typ l0tag bc_count) = (sentHeader l0tag bc_count).bytes typ.code := by
  have hparity := getParity_8bits_lt bc_count.val
  have htyp : typ.code < 16 := by cases typ <;> decide
  have heq := physicsHeader_eq typ l0tag bc_count
  rw [wordBytes_eq (by omega), heq]
  simp only [Header.bytes, sentHeader]
  congr 1
  · simp only [Fin.val_zero]
    omega
  · congr 1
    omega

theorem clusterBits_eq (ichip : Fin MaxABCsPerHCC) (cluster : Nat) :
    clusterBits ichip.val cluster = ichip.val * 2048 + (cluster &&& 0x7ff) := by
  have hchip : ichip.val < 11 := ichip.isLt
  unfold clusterBits
  rw [Bits.and_mask 0x7ff 11 rfl, Bits.and_mask 0xf 4 rfl,
    Bits.shiftLeft_or _ (Nat.mod_lt _ (Nat.two_pow_pos 11))]
  omega

theorem items_of_words (words : List Nat) (h : ∀ w ∈ words, w < 11 * 2048) :
    ∃ items : List Item, items.flatMap Item.bytes = words.flatMap wordBytes ∧
      items.flatMap Item.clusters =
        (words.filter (· &&& 0x7FF ≠ 0x3FE)).map StarChipPacket.clusterOf := by
  induction words with
  | nil => exact ⟨[], rfl, rfl⟩
  | cons w words ih =>
      obtain ⟨items, hbytes, hclusters⟩ := ih (fun w hw => h w (by simp [hw]))
      have hw := h w (by simp)
      by_cases hempty : w &&& 0x7FF = 0x3FE
      · refine ⟨.noCluster ⟨w / 2048, by omega⟩ :: items, ?_, ?_⟩
        · rw [List.flatMap_cons, List.flatMap_cons, hbytes, wordBytes_eq (by omega)]
          rw [Bits.and_mask 0x7FF 11 rfl] at hempty
          simp only [Item.bytes]
          congr 2
          · omega
          · congr 1
            omega
        · simp [hempty, hclusters, Item.clusters]
      · refine ⟨.cluster ⟨w, by omega, hempty, by omega, by omega⟩ :: items, ?_, ?_⟩
        · rw [List.flatMap_cons, List.flatMap_cons, hbytes, wordBytes_eq (by omega)]
          rfl
        · simp [hempty, hclusters, Item.clusters]

/-- The words that the packet of `allClusters` carries. -/
def channelWords (allClusters : Fin MaxABCsPerHCC → List Nat) : List Nat :=
  (List.finRange MaxABCsPerHCC).flatMap fun ichip =>
    (allClusters ichip).map fun cluster => clusterBits ichip.val cluster

theorem channelWords_lt (allClusters : Fin MaxABCsPerHCC → List Nat) :
    ∀ w ∈ channelWords allClusters, w < 11 * 2048 := by
  intro w hw
  obtain ⟨ichip, _, hw⟩ := List.mem_flatMap.1 hw
  obtain ⟨cluster, _, rfl⟩ := List.mem_map.1 hw
  have hchip : ichip.val < 11 := ichip.isLt
  rw [clusterBits_eq, Bits.and_mask 0x7ff 11 rfl]
  omega

theorem wordBytes_lt (w : Nat) : ∀ b ∈ wordBytes w, b < 256 := by
  intro b hb
  simp only [wordBytes, List.mem_cons, List.not_mem_nil, or_false] at hb
  rcases hb with rfl | rfl <;> exact Nat.lt_of_le_of_lt Nat.and_le_right (by decide)

theorem buildPhysicsPacket_lt (allClusters : Fin MaxABCsPerHCC → List Nat) (typ : PacketTypes)
    (l0tag bc_count : Fin 256) :
    ∀ b ∈ buildPhysicsPacket allClusters typ l0tag bc_count, b < 256 := by
  intro b hb
  simp only [buildPhysicsPacket] at hb
  split at hb
  · cases hb
  · simp only [List.mem_append, List.mem_flatMap] at hb
    rcases hb with (hb | ⟨_, _, _, _, hb⟩) | hb
    · exact wordBytes_lt _ b hb
    · exact wordBytes_lt _ b hb
    · exact wordBytes_lt _ b hb

/-- A built packet is in the format, and arrives as it was built. -/
theorem buildPhysicsPacket_delivers (allClusters : Fin MaxABCsPerHCC → List Nat) (lp : Bool)
    (l0tag bc_count : Fin 256) (hsome : channelWords allClusters ≠ []) :
    ∃ items : List Item,
      Delivers (sendPacket (buildPhysicsPacket allClusters (if lp then .LP else .PR) l0tag
        bc_count)) (.physics lp (sentHeader l0tag bc_count) items) ∧
      items.flatMap Item.clusters =
        ((channelWords allClusters).filter (· &&& 0x7FF ≠ 0x3FE)).map
          StarChipPacket.clusterOf := by
  obtain ⟨items, hbytes, hclusters⟩ := items_of_words _ (channelWords_lt allClusters)
  refine ⟨items, ?_, hclusters⟩
  have hwords : ((List.finRange MaxABCsPerHCC).flatMap fun ichip =>
      (allClusters ichip).flatMap fun cluster => wordBytes (clusterBits ichip.val cluster)) =
      (channelWords allClusters).flatMap wordBytes := by
    simp only [channelWords, List.flatMap_assoc, List.flatMap_map]
  have hpacket : buildPhysicsPacket allClusters (if lp then .LP else .PR) l0tag bc_count =
      (Packet.physics lp (sentHeader l0tag bc_count) items).bytes := by
    have hlong : ((wordBytes (physicsHeader (if lp then .LP else .PR) l0tag bc_count)) ++
        (channelWords allClusters).flatMap wordBytes).length ≠ 2 := by
      obtain ⟨w, words, hw⟩ := List.exists_cons_of_ne_nil hsome
      simp [hw, wordBytes]
    unfold buildPhysicsPacket
    simp only [hwords, hlong, if_false]
    rw [header_bytes, ← hbytes, Packet.bytes]
    cases lp <;> rfl
  obtain ⟨k, hk, hsent⟩ := bytesOf_sendPacket _
    (buildPhysicsPacket_lt allClusters (if lp then .LP else .PR) l0tag bc_count)
  refine ⟨List.replicate k 0, ?_, by simpa using hk⟩
  rw [hsent, hpacket]

end StarPackets

end Yarr.Star
