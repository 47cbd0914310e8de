import Mathlib.Data.List.Perm.Basic
import Yarr.Star.PhysicsDecoding
import Yarr.Star.StarCfg
import Yarr.Star.StarPackets

/-!
# From hit strips to a decoded event

The emulator finds clusters, builds a packet and sends it in words; the
processor parses the words and gives back one event with the hit strips.
-/

namespace Yarr.Star

open Pixel (FrontEndHit FrontEndData)
open StarChipsetEmu StarPackets

/-- The clusters of each input channel; a channel without an ABCStar has none. -/
def allClusters (strips : Fin MaxABCsPerHCC → Option StripData)
    (maxCluster : Fin MaxABCsPerHCC → Nat) (ic : Fin MaxABCsPerHCC) : List Nat :=
  match strips ic with
  | none => []
  | some data => clusterFinder data (maxCluster ic)

/-- Where a strip of the chip in a histogram slot is found: columns and rows start at one. -/
def stripPosition (slot strip : Nat) : FrontEndHit where
  col := slot * StripsPerABCRow + strip % 128 + 1
  row := strip / 128 + 1
  tot := 1

/-- The hits of one channel. -/
def channelHits (chip_map : ChipMap) (strips : Fin MaxABCsPerHCC → Option StripData)
    (ic : Fin MaxABCsPerHCC) : List FrontEndHit :=
  match strips ic with
  | none => []
  | some data =>
      if chip_map ic = HCC_INPUT_CHANNEL_BAD_SLOT then []
      else (hitStrips data).map (stripPosition (chip_map ic))

/-! ## One word -/

theorem clusterOf_clusterBits (ic : Fin MaxABCsPerHCC) (cluster : Nat) :
    (StarChipPacket.clusterOf (clusterBits ic.val cluster)).input_channel = ic.val ∧
      (StarChipPacket.clusterOf (clusterBits ic.val cluster)).address =
        ((cluster &&& 0x7ff) >>> 3) &&& 0xFF ∧
      (StarChipPacket.clusterOf (clusterBits ic.val cluster)).next =
        (cluster &&& 0x7ff) &&& 0x7 := by
  have hchip : ic.val < 11 := ic.isLt
  rw [clusterBits_eq]
  simp only [StarChipPacket.clusterOf, Bits.shiftRight_mask 0xF 4 rfl,
    Bits.shiftRight_mask 0xFF 8 rfl, Bits.and_mask 0x7 3 rfl, Bits.and_mask 0x7ff 11 rfl]
  refine ⟨?_, ?_, ?_⟩
  · omega
  · omega
  · omega

theorem clusterHits_eq {chip_map : ChipMap} {ic : Fin MaxABCsPerHCC} {word : Nat}
    (hslot : chip_map ic = HCC_INPUT_CHANNEL_BAD_SLOT ∨ chip_map ic < MaxABCsPerHCC)
    (hsmall : word < 2 ^ 11)
    (hrow : ∀ strip ∈ wordStrips word, strip / 128 = word / 1024) :
    clusterHits 1 chip_map ic.val ((word >>> 3) &&& 0xFF) (word &&& 0x7) =
      if chip_map ic = HCC_INPUT_CHANNEL_BAD_SLOT then []
      else (wordStrips word).map (stripPosition (chip_map ic)) := by
  unfold clusterHits
  simp only [ic.isLt, dif_pos, Fin.eta]
  by_cases hbad : chip_map ic = HCC_INPUT_CHANNEL_BAD_SLOT
  · simp [hbad]
  · have hlt := hslot.resolve_left hbad
    have hmax : MaxABCsPerHCC = 11 := rfl
    have hstrips : StripsPerABCRow = 128 := rfl
    simp only [hbad, if_false]
    refine List.map_congr_left ?_
    intro strip hstrip
    have hside := hrow strip hstrip
    unfold stripHit storedHit stripPosition
    rw [Bits.and_mask 0x7f 7 rfl, Bits.shiftRight_mask 0xFF 8 rfl,
      Bits.shiftRight_mask 1 1 rfl, hstrips]
    congr 1
    · omega
    · omega

/-! ## A packet -/

theorem channel_hits {chip_map : ChipMap} {ic : Fin MaxABCsPerHCC} {words : List Nat}
    {data : StripData}
    (hslot : chip_map ic = HCC_INPUT_CHANNEL_BAD_SLOT ∨ chip_map ic < MaxABCsPerHCC)
    (hcover : Covers words data) :
    ((((words.map fun cluster => clusterBits ic.val cluster).filter
        (· &&& 0x7FF ≠ 0x3FE)).map StarChipPacket.clusterOf).flatMap fun c =>
      clusterHits 1 chip_map c.input_channel c.address c.next).Perm
      (if chip_map ic = HCC_INPUT_CHANNEL_BAD_SLOT then []
        else (hitStrips data).map (stripPosition (chip_map ic))) := by
  have hmask : ∀ cluster, clusterBits ic.val cluster &&& 0x7FF = cluster &&& 0x7ff := by
    intro cluster
    rw [clusterBits_eq, Bits.and_mask 0x7ff 11 rfl, Bits.and_mask 0x7FF 11 rfl]
    omega
  have hwords : (((words.map fun cluster => clusterBits ic.val cluster).filter
        (· &&& 0x7FF ≠ 0x3FE)).map StarChipPacket.clusterOf).flatMap (fun c =>
      clusterHits 1 chip_map c.input_channel c.address c.next) =
      ((words.map (· &&& 0x7ff)).filter (· ≠ 0x3fe)).flatMap fun word =>
        clusterHits 1 chip_map ic.val ((word >>> 3) &&& 0xFF) (word &&& 0x7) := by
    rw [List.filter_map, List.filter_map, List.map_map, List.flatMap_map, List.flatMap_map]
    have hpred : ((fun w => decide (w &&& 0x7FF ≠ 0x3FE)) ∘
        fun cluster => clusterBits ic.val cluster) =
        ((fun w => decide (w ≠ 0x3fe)) ∘ fun cluster => cluster &&& 0x7ff) := by
      funext cluster
      simp only [Function.comp_apply, hmask]
    rw [hpred]
    congr 1
    funext cluster
    obtain ⟨hchannel, haddress, hnext⟩ := clusterOf_clusterBits ic cluster
    simp only [Function.comp_apply, hchannel, haddress, hnext]
  have hhits : ((words.map (· &&& 0x7ff)).filter (· ≠ 0x3fe)).flatMap (fun word =>
        clusterHits 1 chip_map ic.val ((word >>> 3) &&& 0xFF) (word &&& 0x7)) =
      ((words.map (· &&& 0x7ff)).filter (· ≠ 0x3fe)).flatMap fun word =>
        if chip_map ic = HCC_INPUT_CHANNEL_BAD_SLOT then []
        else (wordStrips word).map (stripPosition (chip_map ic)) := by
    refine List.flatMap_congr ?_
    intro word hword
    have hsmall : word < 2 ^ 11 := by
      obtain ⟨cluster, _, rfl⟩ := List.mem_map.1 (List.mem_filter.1 hword).1
      rw [Bits.and_mask 0x7ff 11 rfl]
      exact Nat.mod_lt _ (Nat.two_pow_pos 11)
    exact clusterHits_eq hslot hsmall (hcover.oneRow word hword)
  rw [hwords, hhits]
  by_cases hbad : chip_map ic = HCC_INPUT_CHANNEL_BAD_SLOT
  · simp [hbad]
  · simp only [hbad, if_false]
    rw [← List.map_flatMap]
    exact hcover.strips.map _

/-- The hits of the clusters in a sent packet are the hit strips of its channels. -/
theorem packet_hits {chip_map : ChipMap} {strips : Fin MaxABCsPerHCC → Option StripData}
    {maxCluster : Fin MaxABCsPerHCC → Nat}
    (hslot : ∀ ic, chip_map ic = HCC_INPUT_CHANNEL_BAD_SLOT ∨ chip_map ic < MaxABCsPerHCC)
    (hmax : ∀ ic data, strips ic = some data → nClusters data ≤ maxCluster ic + 1) :
    ((((channelWords (allClusters strips maxCluster)).filter
        (· &&& 0x7FF ≠ 0x3FE)).map StarChipPacket.clusterOf).flatMap fun c =>
      clusterHits 1 chip_map c.input_channel c.address c.next).Perm
      ((List.finRange MaxABCsPerHCC).flatMap (channelHits chip_map strips)) := by
  unfold channelWords
  rw [List.filter_flatMap, List.map_flatMap, List.flatMap_assoc]
  refine List.Perm.flatMap_left _ ?_
  intro ic _
  cases hstrips : strips ic with
  | none =>
      have hnone : allClusters strips maxCluster ic = [] := by
        simp [allClusters, hstrips]
      rw [hnone, channelHits, hstrips]
      exact List.Perm.refl _
  | some data =>
      have hwords : allClusters strips maxCluster ic = clusterFinder data (maxCluster ic) := by
        simp [allClusters, hstrips]
      rw [hwords, channelHits, hstrips]
      exact channel_hits (hslot ic) (clusterFinder_covers (hmax ic data hstrips))

theorem filter_eq_nil_iff_of_covers {words : List Nat} {data : StripData}
    (h : Covers words data) :
    (words.map (· &&& 0x7ff)).filter (· ≠ 0x3fe) = [] ↔ hitStrips data = [] := by
  constructor
  · intro hnil
    have hperm := h.strips
    rw [hnil, List.flatMap_nil] at hperm
    exact List.Perm.nil_eq hperm |>.symm
  · intro hnil
    have hperm := h.strips
    rw [hnil] at hperm
    have hflat := hperm.eq_nil
    refine List.eq_nil_iff_forall_not_mem.2 ?_
    intro w hw
    have hstrips := List.flatMap_eq_nil_iff.1 hflat w hw
    simp [wordStrips, clusterStrips] at hstrips

/-- Words without a cluster belong to chips without a hit. -/
theorem clusters_eq_nil_iff {strips : Fin MaxABCsPerHCC → Option StripData}
    {maxCluster : Fin MaxABCsPerHCC → Nat}
    (hmax : ∀ ic data, strips ic = some data → nClusters data ≤ maxCluster ic + 1) :
    ((channelWords (allClusters strips maxCluster)).filter (· &&& 0x7FF ≠ 0x3FE)).map
        StarChipPacket.clusterOf = [] ↔
      ∀ ic data, strips ic = some data → hitStrips data = [] := by
  have hmask : ∀ (ic : Fin MaxABCsPerHCC) cluster,
      clusterBits ic.val cluster &&& 0x7FF = cluster &&& 0x7ff := by
    intro ic cluster
    rw [clusterBits_eq, Bits.and_mask 0x7ff 11 rfl, Bits.and_mask 0x7FF 11 rfl]
    omega
  have hchannel : ∀ ic data, strips ic = some data →
      ((∀ cluster ∈ allClusters strips maxCluster ic, cluster &&& 0x7ff = 0x3fe) ↔
        hitStrips data = []) := by
    intro ic data hdata
    have hwords : allClusters strips maxCluster ic = clusterFinder data (maxCluster ic) := by
      simp [allClusters, hdata]
    rw [← filter_eq_nil_iff_of_covers (clusterFinder_covers (hmax ic data hdata)), hwords]
    simp
  have hnone : ∀ ic, strips ic = none → allClusters strips maxCluster ic = [] := by
    intro ic hnone
    simp [allClusters, hnone]
  rw [List.map_eq_nil_iff, List.filter_eq_nil_iff]
  constructor
  · intro h ic data hdata
    refine (hchannel ic data hdata).1 ?_
    intro cluster hcluster
    have hmem : clusterBits ic.val cluster ∈ channelWords (allClusters strips maxCluster) :=
      List.mem_flatMap.2 ⟨ic, List.mem_finRange ic, List.mem_map.2 ⟨cluster, hcluster, rfl⟩⟩
    have hword := h _ hmem
    rw [hmask] at hword
    simpa using hword
  · intro h w hw
    obtain ⟨ic, _, hw⟩ := List.mem_flatMap.1 hw
    obtain ⟨cluster, hcluster, rfl⟩ := List.mem_map.1 hw
    rw [hmask]
    cases hdata : strips ic with
    | none =>
        rw [hnone ic hdata] at hcluster
        cases hcluster
    | some data =>
        have hempty := (hchannel ic data hdata).2 (h ic data hdata) cluster hcluster
        simp [hempty]

/-! ## The event -/

theorem stripPosition_injective {slot slot' strip strip' : Nat}
    (h : stripPosition slot strip = stripPosition slot' strip') : slot = slot' ∧ strip = strip' := by
  have hcol := congrArg FrontEndHit.col h
  have hrow := congrArg FrontEndHit.row h
  simp only [stripPosition, StripsPerABCRow] at hcol hrow
  omega

theorem channelHits_nodup {version_1 : Bool} {input_enables : Nat}
    (strips : Fin MaxABCsPerHCC → Option StripData) :
    ((List.finRange MaxABCsPerHCC).flatMap
      (channelHits (HccCfg.histoChipMap version_1 input_enables) strips)).Nodup := by
  have hmem : ∀ ic hit,
      hit ∈ channelHits (HccCfg.histoChipMap version_1 input_enables) strips ic →
      input_enables.testBit ic.val = true ∧
        ∃ strip, hit = stripPosition (HccCfg.histoChipMap version_1 input_enables ic) strip := by
    intro ic hit hhit
    unfold channelHits at hhit
    cases hdata : strips ic with
    | none =>
        rw [hdata] at hhit
        cases hhit
    | some data =>
        rw [hdata] at hhit
        by_cases hbad : HccCfg.histoChipMap version_1 input_enables ic =
            HCC_INPUT_CHANNEL_BAD_SLOT
        · simp [hbad] at hhit
        · simp only [hbad, if_false, List.mem_map] at hhit
          obtain ⟨strip, _, rfl⟩ := hhit
          refine ⟨?_, strip, rfl⟩
          rw [HccCfg.histoChipMap_eq_bad_iff] at hbad
          simpa using hbad
  refine List.nodup_flatMap.2 ⟨?_, ?_⟩
  · intro ic _
    unfold channelHits
    split
    · exact List.nodup_nil
    · split
      · exact List.nodup_nil
      · refine List.Nodup.map_on ?_ (List.nodup_range.filter _)
        intro s _ t _ heq
        exact (stripPosition_injective heq).2
  · refine List.Nodup.pairwise_of_forall_ne (List.nodup_finRange _) ?_
    intro ic _ jc _ hne
    intro hit hic hjc
    obtain ⟨hon, s, rfl⟩ := hmem ic hit hic
    obtain ⟨_, t, heq⟩ := hmem jc _ hjc
    exact hne (HccCfg.histoChipMap_injective hon (stripPosition_injective heq).1)

theorem mem_channelHits {version_1 : Bool} {input_enables : Nat}
    {strips : Fin MaxABCsPerHCC → Option StripData} {hit : FrontEndHit} :
    hit ∈ (List.finRange MaxABCsPerHCC).flatMap
        (channelHits (HccCfg.histoChipMap version_1 input_enables) strips) ↔
      ∃ ic data strip, strips ic = some data ∧ input_enables.testBit ic.val = true ∧
        data.getLsbD strip = true ∧
        hit = stripPosition (HccCfg.histoChipMap version_1 input_enables ic) strip := by
  have hin : ∀ (data : StripData) strip, strip ∈ hitStrips data ↔ data.getLsbD strip = true := by
    intro data strip
    unfold hitStrips
    rw [List.mem_filter, List.mem_range]
    constructor
    · intro h
      exact h.2
    · intro h
      exact ⟨BitVec.lt_of_getLsbD h, h⟩
  rw [List.mem_flatMap]
  constructor
  · rintro ⟨ic, _, hmem⟩
    unfold channelHits at hmem
    cases hdata : strips ic with
    | none =>
        rw [hdata] at hmem
        cases hmem
    | some data =>
        rw [hdata] at hmem
        by_cases hbad : HccCfg.histoChipMap version_1 input_enables ic =
            HCC_INPUT_CHANNEL_BAD_SLOT
        · simp [hbad] at hmem
        · simp only [hbad, if_false, List.mem_map] at hmem
          obtain ⟨strip, hstrip, rfl⟩ := hmem
          rw [HccCfg.histoChipMap_eq_bad_iff] at hbad
          exact ⟨ic, data, strip, hdata, by simpa using hbad, (hin data strip).1 hstrip, rfl⟩
  · rintro ⟨ic, data, strip, hdata, hon, hstrip, rfl⟩
    refine ⟨ic, List.mem_finRange ic, ?_⟩
    have hbad : ¬ HccCfg.histoChipMap version_1 input_enables ic =
        HCC_INPUT_CHANNEL_BAD_SLOT := by
      rw [HccCfg.histoChipMap_eq_bad_iff, hon]
      simp
    unfold channelHits
    rw [hdata]
    simp only [hbad, if_false]
    exact List.mem_map.2 ⟨strip, (hin data strip).2 hstrip, rfl⟩

/-- What `process_data` makes of a sent packet, for any place of the chips. -/
theorem process_data_sent {chip_map : ChipMap} (strips : Fin MaxABCsPerHCC → Option StripData)
    (maxCluster : Fin MaxABCsPerHCC → Nat)
    (hslot : ∀ ic, chip_map ic = HCC_INPUT_CHANNEL_BAD_SLOT ∨ chip_map ic < MaxABCsPerHCC)
    (hsome : ∃ ic data, strips ic = some data)
    (hmax : ∀ ic data, strips ic = some data → nClusters data ≤ maxCluster ic + 1)
    (lp : Bool) (l0tag bc_count : Fin 256) (curOut : FrontEndData) :
    ∃ decoded hits,
      process_data (sendPacket (buildPhysicsPacket (allClusters strips maxCluster)
        (if lp then .LP else .PR) l0tag bc_count)) curOut .initial chip_map = .ok decoded ∧
      hits.Perm ((List.finRange MaxABCsPerHCC).flatMap (channelHits chip_map strips)) ∧
      ((∀ ic data, strips ic = some data → hitStrips data = []) → decoded.curOut = curOut) ∧
      (¬ (∀ ic data, strips ic = some data → hitStrips data = []) →
        decoded.curOut = { curOut with events := curOut.events ++
          [⟨l0tag.val % 128, l0tag.val % 128, bc_count.val % 8, hits⟩] }) := by
  have hwords : channelWords (allClusters strips maxCluster) ≠ [] := by
    obtain ⟨ic, data, hdata⟩ := hsome
    have hcover := clusterFinder_covers (hmax ic data hdata)
    obtain ⟨w, words, hw⟩ := List.exists_cons_of_ne_nil hcover.nonempty
    have hchannel : allClusters strips maxCluster ic = w :: words := by
      simp [allClusters, hdata, hw]
    refine @List.ne_nil_of_mem _ (clusterBits ic.val w) _ ?_
    refine List.mem_flatMap.2 ⟨ic, List.mem_finRange ic, ?_⟩
    rw [hchannel]
    exact List.mem_map.2 ⟨w, by simp, rfl⟩
  obtain ⟨items, hdelivers, hclusters⟩ := buildPhysicsPacket_delivers
    (allClusters strips maxCluster) lp l0tag bc_count hwords
  have hitems : (Packet.physics lp (sentHeader l0tag bc_count) items).clusters =
      items.flatMap Item.clusters := rfl
  have hnil := clusters_eq_nil_iff hmax
  rw [← hclusters, ← hitems] at hnil
  refine ⟨_, (Packet.physics lp (sentHeader l0tag bc_count) items).hits 1 chip_map,
    process_data_physics hdelivers curOut chip_map, ?_, ?_, ?_⟩
  · rw [Packet.hits, hitems, hclusters]
    exact packet_hits hslot hmax
  · intro hempty
    simp [collectedEvent, hnil.2 hempty]
  · intro hhit
    have hl0id : l0tag.val % 128 % 2 ^ 32 = l0tag.val % 128 := by omega
    have hl1id : l0tag.val % 128 % 2 ^ 16 = l0tag.val % 128 := by omega
    have hbcid : bc_count.val % 8 % 2 ^ 16 = bc_count.val % 8 := by omega
    have hne : (Packet.physics lp (sentHeader l0tag bc_count) items).clusters ≠ [] :=
      fun h => hhit (hnil.1 h)
    rw [collectedEvent, if_neg hne, Header.event, addHits_newEvent]
    simp only [sentHeader, hl0id, hl1id, hbcid]

theorem histoChipMap_slot (version_1 : Bool) (input_enables : Nat) (ic : Fin MaxABCsPerHCC) :
    HccCfg.histoChipMap version_1 input_enables ic = HCC_INPUT_CHANNEL_BAD_SLOT ∨
      HccCfg.histoChipMap version_1 input_enables ic < MaxABCsPerHCC := by
  by_cases hon : input_enables.testBit ic.val = true
  · exact .inr (HccCfg.histoChipMap_lt hon)
  · exact .inl ((HccCfg.histoChipMap_eq_bad_iff _ _ _).2 (by simpa using hon))

/-- Front-end patterns go through emulator and processor: one event with the counters as far as
the header holds them, and each hit strip of an enabled channel once; chips without a hit give
no event. -/
theorem sent_physics_decoded (version_1 : Bool) (input_enables : Nat) (lp : Bool)
    (l0tag bc_count : Fin 256) (strips : Fin MaxABCsPerHCC → Option StripData)
    (maxCluster : Fin MaxABCsPerHCC → Nat) (curOut : FrontEndData)
    (hsome : ∃ ic data, strips ic = some data)
    (hmax : ∀ ic data, strips ic = some data → nClusters data ≤ maxCluster ic) :
    ∃ decoded,
      process_data (sendPacket (buildPhysicsPacket (allClusters strips maxCluster)
          (if lp then .LP else .PR) l0tag bc_count)) curOut .initial
        (HccCfg.histoChipMap version_1 input_enables) = .ok decoded ∧
      ((∀ ic data, strips ic = some data → hitStrips data = []) → decoded.curOut = curOut) ∧
      (¬ (∀ ic data, strips ic = some data → hitStrips data = []) →
        ∃ hits, decoded.curOut = { curOut with events := curOut.events ++
            [⟨l0tag.val % 128, l0tag.val % 128, bc_count.val % 8, hits⟩] } ∧
          hits.Nodup ∧
          ∀ hit, hit ∈ hits ↔ ∃ ic data strip, strips ic = some data ∧
            input_enables.testBit ic.val = true ∧ data.getLsbD strip = true ∧
            hit = stripPosition (HccCfg.histoChipMap version_1 input_enables ic) strip) := by
  have hslot := histoChipMap_slot version_1 input_enables
  have hroom : ∀ ic data, strips ic = some data → nClusters data ≤ maxCluster ic + 1 :=
    fun ic data hdata => Nat.le_succ_of_le (hmax ic data hdata)
  obtain ⟨decoded, hits, hok, hperm, hempty, hevent⟩ :=
    process_data_sent strips maxCluster hslot hsome hroom lp l0tag bc_count curOut
  refine ⟨decoded, hok, hempty, ?_⟩
  intro hhit
  refine ⟨hits, hevent hhit, hperm.nodup_iff.2 (channelHits_nodup strips), ?_⟩
  intro hit
  rw [hperm.mem_iff, mem_channelHits]

/-- A module with one chip, on the first channel. -/
def oneChip (chip : StripData) (ic : Fin MaxABCsPerHCC) : Option StripData :=
  if ic.val = 0 then some chip else none

theorem eq_of_oneChip {chip data : StripData} {ic : Fin MaxABCsPerHCC}
    (h : oneChip chip ic = some data) : data = chip := by
  unfold oneChip at h
  split at h
  · exact (Option.some.inj h).symm
  · cases h

/-- One chip with a hit on its first strip. -/
theorem sent_physics_decoded_strip :
    ∃ decoded,
      process_data (sendPacket (buildPhysicsPacket (allClusters (oneChip 1#256) fun _ => 63)
          (if true then .LP else .PR) 3 5)) (.ofStatus ⟨[], [], false, rfl⟩) .initial
        (HccCfg.histoChipMap true 1) = .ok decoded ∧
      ((∀ ic data, oneChip 1#256 ic = some data → hitStrips data = []) →
        decoded.curOut = .ofStatus ⟨[], [], false, rfl⟩) ∧
      (¬ (∀ ic data, oneChip 1#256 ic = some data → hitStrips data = []) →
        ∃ hits, decoded.curOut = { FrontEndData.ofStatus ⟨[], [], false, rfl⟩ with
            events := [] ++ [⟨3 % 128, 3 % 128, 5 % 8, hits⟩] } ∧
          hits.Nodup ∧
          ∀ hit, hit ∈ hits ↔ ∃ ic data strip, oneChip 1#256 ic = some data ∧
            Nat.testBit 1 ic.val = true ∧ data.getLsbD strip = true ∧
            hit = stripPosition (HccCfg.histoChipMap true 1 ic) strip) := by
  have hcount : nClusters 1#256 ≤ 63 := by decide +kernel
  exact sent_physics_decoded true 1 true 3 5 (oneChip 1#256) (fun _ => 63)
    (.ofStatus ⟨[], [], false, rfl⟩) ⟨⟨0, by decide⟩, 1#256, rfl⟩
    (fun ic data hdata => eq_of_oneChip hdata ▸ hcount)

/-- A chip without a hit gives no event at all, and of a BC value of eight nothing is left. -/
theorem sent_physics_differs :
    (∃ decoded,
      process_data (sendPacket (buildPhysicsPacket (allClusters (oneChip 0#256) fun _ => 63)
          (if true then .LP else .PR) 0 0)) (.ofStatus ⟨[], [], false, rfl⟩) .initial
        (HccCfg.histoChipMap true 1) = .ok decoded ∧ decoded.curOut.events = []) ∧
    (∃ decoded e,
      process_data (sendPacket (buildPhysicsPacket (allClusters (oneChip 1#256) fun _ => 63)
          (if true then .LP else .PR) 0 8)) (.ofStatus ⟨[], [], false, rfl⟩) .initial
        (HccCfg.histoChipMap true 1) = .ok decoded ∧ decoded.curOut.events = [e] ∧
      e.bcid ≠ 8) := by
  have hslot := histoChipMap_slot true 1
  constructor
  · have hnone : hitStrips 0#256 = [] := by decide +kernel
    have hcount : nClusters 0#256 ≤ 64 := by decide +kernel
    obtain ⟨decoded, hits, hok, _, hempty, _⟩ := process_data_sent (oneChip 0#256) (fun _ => 63)
      hslot ⟨⟨0, by decide⟩, 0#256, rfl⟩ (fun ic data hdata => eq_of_oneChip hdata ▸ hcount)
      true 0 0 (.ofStatus ⟨[], [], false, rfl⟩)
    refine ⟨decoded, hok, ?_⟩
    rw [hempty (fun ic data hdata => eq_of_oneChip hdata ▸ hnone)]
    rfl
  · have hcount : nClusters 1#256 ≤ 64 := by decide +kernel
    have hhit : hitStrips 1#256 ≠ [] := by decide +kernel
    obtain ⟨decoded, hits, hok, _, _, hevent⟩ := process_data_sent (oneChip 1#256) (fun _ => 63)
      hslot ⟨⟨0, by decide⟩, 1#256, rfl⟩ (fun ic data hdata => eq_of_oneChip hdata ▸ hcount)
      true 0 8 (.ofStatus ⟨[], [], false, rfl⟩)
    refine ⟨decoded, ⟨0, 0, 0, hits⟩, hok, ?_, Nat.zero_ne_add_one 7⟩
    rw [hevent (fun h => hhit (h ⟨0, by decide⟩ 1#256 rfl))]
    rfl

end Yarr.Star
