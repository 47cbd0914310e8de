import Yarr.Star.ClusterFinder

/-!
# The clusters of a chip cover its hits

The strips that the words of the cluster finder name are the strips that were
hit, each once, as long as the limit on the number of clusters is not reached.
-/

namespace Yarr.Star

namespace StarChipsetEmu

/-! ## Words -/

/-- The strips that a word names, counted over both rows. -/
def wordStrips (word : Nat) : List Nat := clusterStrips ((word >>> 3) &&& 0xFF) (word &&& 0x7)

/-- A word of eleven bits that stands for a cluster. -/
structure Found (word : Nat) : Prop where
  small : word < 2 ^ 11
  notEmpty : word ≠ 0x3fe
  notNone : word ≠ 0x3ff
  oneRow : ∀ strip ∈ wordStrips word, strip / 128 = word / 1024

theorem clusterStrips_add (a next k : Nat) :
    clusterStrips (a + k) next = (clusterStrips a next).map (· + k) := by
  simp only [clusterStrips, List.map_cons, List.map_map]
  congr 2
  funext i
  simp only [Function.comp_apply]
  omega

theorem hitpat_next3_lt (a : Nat) (r : Row) : hitpat_next3 a r < 8 := by
  have hbits : ∀ b1 b2 b3 : Bool,
      ((b1.toNat <<< 2) ||| (b2.toNat <<< 1) ||| b3.toNat) < 8 := by
    decide
  exact hbits _ _ _

theorem hitpat_next3_last (r : Row) : hitpat_next3 127 r = 0 := by
  simp [hitpat_next3, getBit_128b]

theorem clusterFinder_sub_fst {r : Row} (h : r.strips ≠ []) (isSecondRow : Bool) :
    (clusterFinder_sub r isSecondRow).1 =
      (hit_addr r + 128 * isSecondRow.toNat) * 8 + hitpat_next3 (hit_addr r) r := by
  have hlt := hit_addr_lt h
  have hne : hit_addr r ≠ 128 := by omega
  have hnext := hitpat_next3_lt (hit_addr r) r
  simp only [clusterFinder_sub, hne, if_false]
  rw [Bits.shiftLeft_or _ hnext, Nat.shiftLeft_eq]
  omega

theorem wordStrips_sub {r : Row} (h : r.strips ≠ []) (isSecondRow : Bool) :
    wordStrips (clusterFinder_sub r isSecondRow).1 =
      (clusterStrips (hit_addr r) (hitpat_next3 (hit_addr r) r)).map
        (· + 128 * isSecondRow.toNat) := by
  have hlt := hit_addr_lt h
  have hnext := hitpat_next3_lt (hit_addr r) r
  have hrow := Bool.toNat_le isSecondRow
  rw [← clusterStrips_add, clusterFinder_sub_fst h, wordStrips,
    Bits.shiftRight_mask 0xFF 8 rfl, Bits.and_mask 0x7 3 rfl]
  congr 1
  · omega
  · omega

theorem clusterFinder_sub_found {r : Row} (h : r.strips ≠ []) (isSecondRow : Bool) :
    Found (clusterFinder_sub r isSecondRow).1 := by
  have hlt := hit_addr_lt h
  have hnext := hitpat_next3_lt (hit_addr r) r
  have hrow := Bool.toNat_le isSecondRow
  have hfst := clusterFinder_sub_fst h isSecondRow
  have hlast : hit_addr r = 127 → hitpat_next3 (hit_addr r) r = 0 := by
    intro hlast
    rw [hlast]
    exact hitpat_next3_last r
  refine ⟨by omega, by omega, by omega, ?_⟩
  intro strip hstrip
  rw [wordStrips_sub h] at hstrip
  obtain ⟨i, hi, rfl⟩ := List.mem_map.1 hstrip
  have hmem : i ∈ r.strips := (strips_perm h).mem_iff.2 (List.mem_append_left _ hi)
  have hsmall := lt_of_mem_strips hmem
  omega

/-! ## The loop -/

/-- What one call does to the clusters found so far, whether the row has a hit or not. -/
theorem pushCluster_sub (clusters : List Nat) (r : Row) (isSecondRow : Bool) :
    ∃ cs, pushCluster clusters (clusterFinder_sub r isSecondRow).1 = clusters ++ cs ∧
      (∀ c ∈ cs, Found c) ∧
      cs.length + (clusterFinder_sub r isSecondRow).2.nClusters = r.nClusters ∧
      (r.strips.map (· + 128 * isSecondRow.toNat)).Perm (cs.flatMap wordStrips ++
        (clusterFinder_sub r isSecondRow).2.strips.map (· + 128 * isSecondRow.toNat)) := by
  rw [clusterFinder_sub_snd]
  by_cases h : r.strips = []
  · have haddr := hit_addr_of_nil h
    have hrest := strips_maskHits_of_nil h
    have hword : (clusterFinder_sub r isSecondRow).1 = 0x3ff := by
      simp [clusterFinder_sub, haddr]
    refine ⟨[], ?_, by simp, ?_, ?_⟩
    · simp [pushCluster, hword]
    · simp [nClusters_of_nil h, nClusters_of_nil hrest]
    · simp [h, hrest]
  · have hfound := clusterFinder_sub_found h isSecondRow
    refine ⟨[(clusterFinder_sub r isSecondRow).1], ?_, ?_, ?_, ?_⟩
    · simp [pushCluster, hfound.notNone]
    · simpa using hfound
    · rw [nClusters_maskHits h, List.length_singleton, Nat.add_comm]
    · rw [List.flatMap_singleton, wordStrips_sub h, ← List.map_append]
      exact (strips_perm h).map _

theorem strips_of_nClusters {r : Row} (h : r.nClusters = 0) : r.strips = [] := by
  by_contra hne
  have hpos := nClusters_maskHits hne
  omega

/-- The loop finds every hit of both rows before it meets its limit. -/
theorem finderLoop_spec (maxCluster : Nat) (d0 d1 : Row) (clusters : List Nat)
    (hmax : clusters.length + d0.nClusters + d1.nClusters ≤ maxCluster + 1) :
    ∃ cs, finderLoop maxCluster d0 d1 clusters = clusters ++ cs ∧
      (∀ c ∈ cs, Found c) ∧
      (d1.strips.map (· + 128) ++ d0.strips).Perm (cs.flatMap wordStrips) := by
  induction d0, d1, clusters using finderLoop.induct maxCluster with
  | case1 d0 d1 clusters hits hfull =>
      -- the limit is met only when no row has a hit left
      have h0 := @strips_of_nClusters d0 (by omega)
      have h1 := @strips_of_nClusters d1 (by omega)
      rcases strips_ne_nil_of_hits hits with h | h
      · exact absurd h0 h
      · exact absurd h1 h
  | case2 d0 d1 clusters hits hfree cluster1 clusters1 hfull =>
      obtain ⟨cs, hpush, hfound, hlen, hperm⟩ := pushCluster_sub clusters d1 true
      have hclusters : clusters1 = clusters ++ cs := hpush
      have hlong := hfull
      rw [hclusters, List.length_append] at hlong
      have h0 := @strips_of_nClusters d0 (by omega)
      have h1 := @strips_of_nClusters (clusterFinder_sub d1 true).2 (by omega)
      refine ⟨cs, ?_, hfound, ?_⟩
      · rw [finderLoop, dif_pos hits, if_neg hfree]
        exact (if_pos hfull).trans hclusters
      · simpa [h0, h1] using hperm
  | case3 d0 d1 clusters hits hfree cluster1 clusters1 hroom cluster0 ih =>
      obtain ⟨cs1, hpush1, hfound1, hlen1, hperm1⟩ := pushCluster_sub clusters d1 true
      obtain ⟨cs0, hpush0, hfound0, hlen0, hperm0⟩ := pushCluster_sub clusters1 d0 false
      have hclusters1 : clusters1 = clusters ++ cs1 := hpush1
      have hnext : pushCluster clusters1 cluster0.1 = clusters1 ++ cs0 := hpush0
      have hleft1 : cs1.length + cluster1.2.nClusters = d1.nClusters := hlen1
      have hleft0 : cs0.length + cluster0.2.nClusters = d0.nClusters := hlen0
      have hcount : (pushCluster clusters1 cluster0.1).length + cluster0.2.nClusters +
          cluster1.2.nClusters ≤ maxCluster + 1 := by
        rw [hnext, hclusters1]
        simp only [List.length_append]
        omega
      obtain ⟨cs, hloop, hfound, hperm⟩ := ih hcount
      refine ⟨cs1 ++ (cs0 ++ cs), ?_, ?_, ?_⟩
      · rw [finderLoop, dif_pos hits, if_neg hfree]
        refine (if_neg hroom).trans ?_
        rw [hloop, hnext, hclusters1]
        simp
      · intro c hc
        simp only [List.mem_append] at hc
        rcases hc with hc | hc | hc
        · exact hfound1 c hc
        · exact hfound0 c hc
        · exact hfound c hc
      · have hrow1 : (d1.strips.map (· + 128)).Perm
            (cs1.flatMap wordStrips ++ cluster1.2.strips.map (· + 128)) := hperm1
        have hrow0 : d0.strips.Perm (cs0.flatMap wordStrips ++ cluster0.2.strips) := by
          simpa using hperm0
        rw [List.flatMap_append, List.flatMap_append]
        -- the two rows are taken apart, what is left of them is the rest of the loop
        refine (hrow1.append hrow0).trans ?_
        rw [List.append_assoc]
        refine List.Perm.append_left _ ?_
        refine List.perm_append_comm_assoc _ _ _ |>.trans ?_
        exact List.Perm.append_left _ hperm
  | case4 d0 d1 clusters hits =>
      have hnone : d0.strips = [] ∧ d1.strips = [] := by
        simp only [not_or, not_not] at hits
        exact ⟨strips_eq_nil_iff.2 ⟨hits.1, hits.2.1⟩, strips_eq_nil_iff.2 hits.2.2⟩
      refine ⟨[], ?_, by simp, ?_⟩
      · rw [finderLoop, dif_neg hits, List.append_nil]
      · simp [hnone]

/-! ## A chip -/

/-- The strips of a chip that are hit, in ascending order. -/
def hitStrips (data : StripData) : List Nat := (List.range NStrips).filter fun i => data.getLsbD i

/-- The number of clusters of a chip. -/
def nClusters (data : StripData) : Nat := (row1 data).nClusters + (row2 data).nClusters

theorem getLsbD_selected (data : StripData) (start : Nat) {k : Nat} (hk : k < 64) :
    (((data >>> start) &&& 0xffffffffffffffff#256).setWidth 64).getLsbD k =
      data.getLsbD (start + k) := by
  have hones : ∀ k, k < 64 → (0xffffffffffffffff#256).getLsbD k = true := by decide
  rw [BitVec.getLsbD_setWidth, BitVec.getLsbD_and, hones k hk, BitVec.getLsbD_ushiftRight]
  simp [hk]

theorem getBit_row1 (data : StripData) {i : Nat} (h : i < 128) :
    getBit_128b i (row1 data) = data.getLsbD i := by
  have hi : ¬ i > 127 := by omega
  by_cases h64 : i < 64
  · have hlow := getLsbD_selected data 0 h64
    rw [Nat.zero_add, BitVec.ushiftRight_zero] at hlow
    simp only [getBit_128b, row1, hi, h64, if_false, if_true, hlow]
  · have hback : 64 + (i - 64) = i := by omega
    have hsub : i - 64 < 64 := by omega
    simp only [getBit_128b, row1, hi, h64, if_false, getLsbD_selected data 64 hsub, hback]

theorem getBit_row2 (data : StripData) {i : Nat} (h : i < 128) :
    getBit_128b i (row2 data) = data.getLsbD (i + 128) := by
  have hi : ¬ i > 127 := by omega
  by_cases h64 : i < 64
  · simp only [getBit_128b, row2, hi, h64, if_false, if_true, getLsbD_selected data 128 h64,
      Nat.add_comm 128]
  · have hback : 192 + (i - 64) = i + 128 := by omega
    have hsub : i - 64 < 64 := by omega
    simp only [getBit_128b, row2, hi, h64, if_false, getLsbD_selected data 192 hsub, hback]

theorem hitStrips_eq (data : StripData) :
    hitStrips data = (row1 data).strips ++ (row2 data).strips.map (· + 128) := by
  have hrange : List.range NStrips = List.range 128 ++ (List.range 128).map (· + 128) := by
    rw [show NStrips = 128 + 128 from rfl, List.range_add]
    simp only [Nat.add_comm]
  unfold hitStrips Row.strips
  rw [hrange, List.filter_append, List.filter_map]
  congr 1
  · refine List.filter_congr ?_
    intro i hi
    rw [getBit_row1 data (List.mem_range.1 hi)]
  · congr 1
    refine List.filter_congr ?_
    intro i hi
    rw [getBit_row2 data (List.mem_range.1 hi)]
    rfl

/-- Words whose clusters, without the mark of the last one and without the word for an empty
chip, name every strip that is hit, once. -/
structure Covers (words : List Nat) (data : StripData) : Prop where
  nonempty : words ≠ []
  oneRow : ∀ w ∈ (words.map (· &&& 0x7ff)).filter (· ≠ 0x3fe),
    ∀ strip ∈ wordStrips w, strip / 128 = w / 1024
  strips : (((words.map (· &&& 0x7ff)).filter (· ≠ 0x3fe)).flatMap wordStrips).Perm
    (hitStrips data)

theorem clusterFinder_covers {data : StripData} {maxCluster : Nat}
    (h : nClusters data ≤ maxCluster + 1) : Covers (clusterFinder data maxCluster) data := by
  have hcount : ([] : List Nat).length + (row1 data).nClusters + (row2 data).nClusters ≤
      maxCluster + 1 := by
    simpa [nClusters] using h
  obtain ⟨cs, hloop, hfound, hperm⟩ := finderLoop_spec maxCluster _ _ [] hcount
  rw [List.nil_append] at hloop
  have hcover : (cs.flatMap wordStrips).Perm (hitStrips data) := by
    rw [hitStrips_eq]
    exact hperm.symm.trans List.perm_append_comm
  unfold clusterFinder
  rw [hloop]
  by_cases hnil : cs = []
  · subst hnil
    exact ⟨by simp, by simp, by simpa using hcover⟩
  · have hmask : ∀ c ∈ cs, c &&& 0x7ff = c := by
      intro c hc
      rw [Bits.and_mask 0x7ff 11 rfl, Nat.mod_eq_of_lt (hfound c hc).small]
    have hlast : (cs.getLast hnil ||| (1 <<< 11)) &&& 0x7ff = cs.getLast hnil := by
      rw [Nat.and_or_distrib_right, hmask _ (List.getLast_mem hnil)]
      simp
    have hwords : (cs.dropLast ++ (cs.getLast?.map (· ||| (1 <<< 11))).toList).map (· &&& 0x7ff) =
        cs := by
      rw [List.map_append, List.getLast?_eq_some_getLast hnil]
      simp only [Option.map_some, Option.toList_some, List.map_cons, List.map_nil, hlast]
      rw [List.map_congr_left (fun c hc => hmask c (List.dropLast_subset cs hc)), List.map_id']
      exact List.dropLast_concat_getLast hnil
    have hfilter : cs.filter (· ≠ 0x3fe) = cs := by
      refine List.filter_eq_self.2 ?_
      intro c hc
      simpa using (hfound c hc).notEmpty
    rw [if_neg hnil]
    refine ⟨?_, ?_, ?_⟩
    · simp [List.getLast?_eq_some_getLast hnil]
    · rw [hwords, hfilter]
      exact fun w hw => (hfound w hw).oneRow
    · rw [hwords, hfilter]
      exact hcover

end StarChipsetEmu

end Yarr.Star
