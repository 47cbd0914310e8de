import Mathlib.Data.List.Nodup
import Yarr.Star.PacketFormat

/-!
# The cluster finder of the emulated ABCStar

The 256 strips of a chip are two rows of 128. In turns, a cluster is cut off
each row: the lowest hit and a pattern of the three strips behind it.
-/

namespace Yarr.Star

/-- `StarEmuNS::NStrips`. -/
def NStrips : Nat := 256

/-- `StarEmuNS::StripData`. -/
abbrev StripData := BitVec 256

namespace StarChipsetEmu

/-- The two words that hold one row of strips. -/
structure Row where
  high64 : BitVec 64
  low64 : BitVec 64
  deriving DecidableEq, Repr

def getBit_128b (bit_addr : Nat) (data : Row) : Bool :=
  if bit_addr > 127 then false
  else if bit_addr < 64 then data.low64.getLsbD bit_addr
  else data.high64.getLsbD (bit_addr - 64)

def setBit_128b (bit_addr : Nat) (value : Bool) (data : Row) : Row :=
  if bit_addr < 64 then
    { data with low64 := (data.low64 &&& ~~~(1#64 <<< bit_addr)) |||
        ((BitVec.ofBool value).setWidth 64 <<< bit_addr) }
  else if bit_addr < 128 then
    { data with high64 := (data.high64 &&& ~~~(1#64 <<< (bit_addr - 64))) |||
        ((BitVec.ofBool value).setWidth 64 <<< (bit_addr - 64)) }
  else data

/-- The lowest hit of a row; 128 where there is none. -/
def hit_addr (hits : Row) : Nat :=
  if hits.low64 ≠ 0 then hits.low64.ctz.toNat
  else if hits.high64 ≠ 0 then hits.high64.ctz.toNat + 64
  else 128

/-- The pattern of the three strips behind `hit_addr`. -/
def hitpat_next3 (hit_addr : Nat) (hits : Row) : Nat :=
  ((getBit_128b (hit_addr + 1) hits).toNat <<< 2) |||
    ((getBit_128b (hit_addr + 2) hits).toNat <<< 1) |||
    (getBit_128b (hit_addr + 3) hits).toNat

/-- The row without the four strips from `hit_addr` on. -/
def maskHits (hit_addr : Nat) (hits : Row) : Row :=
  (List.range 4).foldl (fun hits i => setBit_128b (hit_addr + i) false hits) hits

/-- One cluster and what it leaves of its row. -/
def clusterFinder_sub (hits : Row) (isSecondRow : Bool) : Nat × Row :=
  let addr := hit_addr hits
  let next3 := hitpat_next3 addr hits
  let hits := maskHits addr hits
  if addr = 128 then (0x3ff, hits)
  else (((addr + (isSecondRow.toNat <<< 7)) <<< 3) ||| next3, hits)

/-! ## Rows as lists of strips -/

/-- The strips of a row that are hit, in ascending order. -/
def Row.strips (r : Row) : List Nat := (List.range 128).filter fun i => getBit_128b i r

theorem mem_strips {r : Row} {i : Nat} : i ∈ r.strips ↔ getBit_128b i r = true := by
  unfold Row.strips
  rw [List.mem_filter, List.mem_range]
  constructor
  · intro h
    exact h.2
  · intro h
    refine ⟨?_, h⟩
    by_cases hi : i > 127
    · simp [getBit_128b, hi] at h
    · omega

theorem strips_nodup (r : Row) : r.strips.Nodup := List.nodup_range.filter _

theorem lt_of_mem_strips {r : Row} {i : Nat} (h : i ∈ r.strips) : i < 128 :=
  List.mem_range.1 (List.mem_filter.1 h).1

theorem getLsbD_put (x : BitVec 64) (v : Bool) {i j : Nat} (hi : i < 64) :
    ((x &&& ~~~(1#64 <<< j)) ||| ((BitVec.ofBool v).setWidth 64 <<< j)).getLsbD i =
      if i = j then v else x.getLsbD i := by
  by_cases hij : i = j
  · subst hij
    simp [hi]
  · have hsub : i < j ∨ i - j ≠ 0 := by omega
    rcases hsub with hlt | hne
    · simp [hi, hij, hlt]
    · simp [hi, hij, hne]

theorem getBit_setBit (i j : Nat) (v : Bool) (r : Row) :
    getBit_128b i (setBit_128b j v r) = if i = j ∧ j < 128 then v else getBit_128b i r := by
  by_cases hi : i > 127
  · have hne : ¬ (i = j ∧ j < 128) := by omega
    simp [getBit_128b, hi, hne]
  · unfold setBit_128b
    by_cases hj : j < 64
    · rw [if_pos hj]
      by_cases hi64 : i < 64
      · have hj128 : j < 128 := by omega
        simp only [getBit_128b, hi, hi64, if_false, if_true, getLsbD_put _ _ hi64, hj128, and_true]
      · have hne : ¬ (i = j ∧ j < 128) := by omega
        simp only [getBit_128b, hi, hi64, if_false, hne]
    · rw [if_neg hj]
      by_cases hj128 : j < 128
      · rw [if_pos hj128]
        by_cases hi64 : i < 64
        · have hne : ¬ (i = j ∧ j < 128) := by omega
          simp only [getBit_128b, hi, hi64, if_false, if_true, hne]
        · have hsub : i - 64 < 64 := by omega
          have heq : i - 64 = j - 64 ↔ i = j := by omega
          simp only [getBit_128b, hi, hi64, if_false, getLsbD_put _ _ hsub, heq, hj128, and_true]
      · have hne : ¬ (i = j ∧ j < 128) := by omega
        rw [if_neg hj128, if_neg hne]

theorem getBit_maskHits (i a : Nat) (r : Row) :
    getBit_128b i (maskHits a r) = (getBit_128b i r && !(a ≤ i && i < a + 4)) := by
  by_cases hi : i > 127
  · simp [getBit_128b, hi]
  · have hcases : (a ≤ i ∧ i < a + 4) ↔ i = a ∨ i = a + 1 ∨ i = a + 2 ∨ i = a + 3 := by omega
    simp only [maskHits, List.range_succ, List.range_zero, List.nil_append, List.foldl_append,
      List.foldl_cons, List.foldl_nil, getBit_setBit]
    by_cases hin : a ≤ i ∧ i < a + 4
    · rcases hcases.1 hin with h | h | h | h <;> simp [h] <;> grind
    · have h0 : i ≠ a := by omega
      have h1 : i ≠ a + 1 := by omega
      have h2 : i ≠ a + 2 := by omega
      have h3 : i ≠ a + 3 := by omega
      simp [h0, h1, h2, h3]
      grind

theorem ctz_toNat_lt {x : BitVec 64} (h : x ≠ 0) : x.ctz.toNat < 64 := by
  have hlt := BitVec.lt_def.1 (BitVec.ctz_lt_iff_ne_zero.2 h)
  simpa using hlt

theorem ctz_toNat_le {x : BitVec 64} {i : Nat} (h : x.getLsbD i = true) : x.ctz.toNat ≤ i := by
  by_cases hlt : i < x.ctz.toNat
  · rw [BitVec.getLsbD_false_of_lt_ctz hlt] at h
    cases h
  · omega

theorem strips_eq_nil_iff {r : Row} : r.strips = [] ↔ r.low64 = 0 ∧ r.high64 = 0 := by
  constructor
  · intro hnil
    have hno : ∀ i, getBit_128b i r ≠ true := by
      intro i hi
      have hmem := mem_strips.2 hi
      rw [hnil] at hmem
      cases hmem
    constructor
    · by_contra hlow
      have hlt := ctz_toNat_lt hlow
      have hbit := BitVec.getLsbD_true_ctz_of_ne_zero hlow
      have hle : ¬ r.low64.ctz.toNat > 127 := by omega
      refine hno r.low64.ctz.toNat ?_
      simp only [getBit_128b, hle, hlt, if_false, if_true, hbit]
    · by_contra hhigh
      have hlt := ctz_toNat_lt hhigh
      have hbit := BitVec.getLsbD_true_ctz_of_ne_zero hhigh
      have hle : ¬ r.high64.ctz.toNat + 64 > 127 := by omega
      have hge : ¬ r.high64.ctz.toNat + 64 < 64 := by omega
      refine hno (r.high64.ctz.toNat + 64) ?_
      simp only [getBit_128b, hle, hge, if_false, Nat.add_sub_cancel, hbit]
  · rintro ⟨hlow, hhigh⟩
    refine List.filter_eq_nil_iff.2 ?_
    intro i _
    simp [getBit_128b, hlow, hhigh]

theorem hit_addr_spec {r : Row} (h : r.strips ≠ []) :
    getBit_128b (hit_addr r) r = true ∧ ∀ i, getBit_128b i r = true → hit_addr r ≤ i := by
  unfold hit_addr
  by_cases hlow : r.low64 = 0
  · have hhigh : r.high64 ≠ 0 := fun hhigh => h (strips_eq_nil_iff.2 ⟨hlow, hhigh⟩)
    have hlt := ctz_toNat_lt hhigh
    have hle : ¬ r.high64.ctz.toNat + 64 > 127 := by omega
    have hge : ¬ r.high64.ctz.toNat + 64 < 64 := by omega
    simp only [hlow, hhigh, ne_eq, not_true_eq_false, not_false_eq_true, if_false, if_true]
    constructor
    · simp only [getBit_128b, hle, hge, if_false, Nat.add_sub_cancel,
        BitVec.getLsbD_true_ctz_of_ne_zero hhigh]
    · intro i hi
      simp only [getBit_128b, hlow] at hi
      split at hi
      · cases hi
      · split at hi
        · simp at hi
        · have hctz := ctz_toNat_le hi
          omega
  · have hlt := ctz_toNat_lt hlow
    have hle : ¬ r.low64.ctz.toNat > 127 := by omega
    simp only [hlow, ne_eq, not_false_eq_true, if_true]
    constructor
    · simp only [getBit_128b, hle, hlt, if_false, if_true,
        BitVec.getLsbD_true_ctz_of_ne_zero hlow]
    · intro i hi
      simp only [getBit_128b] at hi
      split at hi
      · cases hi
      · split at hi
        · exact ctz_toNat_le hi
        · omega

theorem hit_addr_of_nil {r : Row} (h : r.strips = []) : hit_addr r = 128 := by
  obtain ⟨hlow, hhigh⟩ := strips_eq_nil_iff.1 h
  simp [hit_addr, hlow, hhigh]

theorem hit_addr_lt {r : Row} (h : r.strips ≠ []) : hit_addr r < 128 :=
  lt_of_mem_strips (mem_strips.2 (hit_addr_spec h).1)

/-! ## One cluster -/

theorem strips_maskHits {r : Row} (h : r.strips ≠ []) :
    (maskHits (hit_addr r) r).strips = r.strips.filter fun i => hit_addr r + 3 < i := by
  unfold Row.strips
  rw [List.filter_filter]
  refine List.filter_congr ?_
  intro i _
  rw [getBit_maskHits]
  by_cases hi : getBit_128b i r = true
  · have hle := (hit_addr_spec h).2 i hi
    simp only [hi, Bool.true_and, Bool.and_true]
    by_cases hnear : hit_addr r + 3 < i
    · have hfar : ¬ i < hit_addr r + 4 := by omega
      simp [hnear, hfar]
    · have hin : i < hit_addr r + 4 := by omega
      simp [hnear, hle, hin]
  · simp [hi]

theorem testBit_hitpat_next3 (a : Nat) (r : Row) (k : Fin 3) :
    (hitpat_next3 a r).testBit k.val = getBit_128b (a + (3 - k.val)) r := by
  have hbits : ∀ (b1 b2 b3 : Bool) (k : Fin 3),
      ((b1.toNat <<< 2) ||| (b2.toNat <<< 1) ||| b3.toNat).testBit k.val =
        match k with
        | 0 => b3
        | 1 => b2
        | 2 => b1 := by
    decide
  unfold hitpat_next3
  rw [hbits]
  match k with
  | 0 => rfl
  | 1 => rfl
  | 2 => rfl

theorem mem_clusterStrips {a next i : Nat} :
    i ∈ clusterStrips a next ↔
      i = a ∨ ∃ k : Fin 3, next.testBit k.val = true ∧ i = a + (3 - k.val) := by
  unfold clusterStrips
  rw [List.mem_cons, List.mem_map]
  constructor
  · rintro (h | ⟨k, hk, rfl⟩)
    · exact .inl h
    · have hk := List.mem_filter.1 hk
      exact .inr ⟨⟨k, List.mem_range.1 hk.1⟩, hk.2, rfl⟩
  · rintro (h | ⟨k, hk, rfl⟩)
    · exact .inl h
    · exact .inr ⟨k.val, List.mem_filter.2 ⟨List.mem_range.2 k.isLt, hk⟩, rfl⟩

theorem clusterStrips_nodup (a next : Nat) : (clusterStrips a next).Nodup := by
  unfold clusterStrips
  refine List.nodup_cons.2 ⟨?_, ?_⟩
  · intro hmem
    obtain ⟨k, hk, hka⟩ := List.mem_map.1 hmem
    have hlt := List.mem_range.1 (List.mem_filter.1 hk).1
    omega
  · refine List.Nodup.map_on ?_ (List.nodup_range.filter _)
    intro i hi j hj hij
    have hi := List.mem_range.1 (List.mem_filter.1 hi).1
    have hj := List.mem_range.1 (List.mem_filter.1 hj).1
    omega

/-- A cluster takes its strips from the row and leaves the others. -/
theorem strips_perm {r : Row} (h : r.strips ≠ []) :
    r.strips.Perm (clusterStrips (hit_addr r) (hitpat_next3 (hit_addr r) r) ++
      (maskHits (hit_addr r) r).strips) := by
  have hlow := hit_addr_spec h
  have hcover : ∀ i, i ∈ clusterStrips (hit_addr r) (hitpat_next3 (hit_addr r) r) ↔
      getBit_128b i r = true ∧ i ≤ hit_addr r + 3 := by
    intro i
    rw [mem_clusterStrips]
    constructor
    · rintro (rfl | ⟨k, hk, rfl⟩)
      · exact ⟨hlow.1, by omega⟩
      · rw [testBit_hitpat_next3] at hk
        exact ⟨hk, by omega⟩
    · rintro ⟨hi, hnear⟩
      have hle := hlow.2 i hi
      by_cases heq : i = hit_addr r
      · exact .inl heq
      · refine .inr ⟨⟨hit_addr r + 3 - i, by omega⟩, ?_, by simp; omega⟩
        have hback : hit_addr r + (3 - (hit_addr r + 3 - i)) = i := by omega
        rw [testBit_hitpat_next3, hback]
        exact hi
  refine (List.perm_ext_iff_of_nodup (strips_nodup r) ?_).2 ?_
  · refine List.Nodup.append (clusterStrips_nodup _ _) (strips_nodup _) ?_
    intro i hi hrest
    rw [strips_maskHits h] at hrest
    have hfar := (List.mem_filter.1 hrest).2
    have hnear := ((hcover i).1 hi).2
    simp only [decide_eq_true_eq] at hfar
    omega
  · intro i
    rw [List.mem_append, hcover, strips_maskHits h, List.mem_filter, mem_strips]
    simp only [decide_eq_true_eq]
    by_cases hnear : i ≤ hit_addr r + 3
    · have hfar : ¬ hit_addr r + 3 < i := by omega
      simp [hnear, hfar]
    · have hfar : hit_addr r + 3 < i := by omega
      simp [hnear, hfar]

theorem strips_maskHits_of_nil {r : Row} (h : r.strips = []) :
    (maskHits (hit_addr r) r).strips = [] := by
  refine List.eq_nil_iff_forall_not_mem.2 ?_
  intro i hi
  have hbit := mem_strips.1 hi
  rw [getBit_maskHits, Bool.and_eq_true] at hbit
  have hmem := mem_strips.2 hbit.1
  rw [h] at hmem
  cases hmem

theorem length_strips_maskHits {r : Row} (h : r.strips ≠ []) :
    (maskHits (hit_addr r) r).strips.length < r.strips.length := by
  have hlen := (strips_perm h).length_eq
  rw [List.length_append] at hlen
  have hpos : 0 < (clusterStrips (hit_addr r) (hitpat_next3 (hit_addr r) r)).length := by
    simp [clusterStrips]
  omega

theorem length_strips_maskHits_le (r : Row) :
    (maskHits (hit_addr r) r).strips.length ≤ r.strips.length := by
  by_cases h : r.strips = []
  · simp [strips_maskHits_of_nil h]
  · exact Nat.le_of_lt (length_strips_maskHits h)

theorem clusterFinder_sub_snd (r : Row) (isSecondRow : Bool) :
    (clusterFinder_sub r isSecondRow).2 = maskHits (hit_addr r) r := by
  simp only [clusterFinder_sub]
  split <;> rfl

/-- `if (cluster != 0x3ff) clusters.push_back(cluster)`. -/
def pushCluster (clusters : List Nat) (cluster : Nat) : List Nat :=
  if cluster ≠ 0x3ff then clusters ++ [cluster] else clusters

theorem strips_ne_nil_of_hits {d0 d1 : Row}
    (h : d0.low64 ≠ 0 ∨ d0.high64 ≠ 0 ∨ d1.low64 ≠ 0 ∨ d1.high64 ≠ 0) :
    d0.strips ≠ [] ∨ d1.strips ≠ [] := by
  by_contra hno
  simp only [not_or, not_not] at hno
  have h0 := strips_eq_nil_iff.1 hno.1
  have h1 := strips_eq_nil_iff.1 hno.2
  simp [h0, h1] at h

/-- The loop of `clusterFinder`; a cluster of the second row comes first. -/
def finderLoop (maxCluster : Nat) (d0 d1 : Row) (clusters : List Nat) : List Nat :=
  if _h : d0.low64 ≠ 0 ∨ d0.high64 ≠ 0 ∨ d1.low64 ≠ 0 ∨ d1.high64 ≠ 0 then
    if clusters.length > maxCluster then clusters
    else
      let cluster1 := clusterFinder_sub d1 true
      let clusters := pushCluster clusters cluster1.1
      if clusters.length > maxCluster then clusters
      else
        let cluster0 := clusterFinder_sub d0 false
        finderLoop maxCluster cluster0.2 cluster1.2 (pushCluster clusters cluster0.1)
  else clusters
termination_by d0.strips.length + d1.strips.length
decreasing_by
  simp only [clusterFinder_sub_snd]
  have hle0 := length_strips_maskHits_le d0
  have hle1 := length_strips_maskHits_le d1
  rcases strips_ne_nil_of_hits _h with h0 | h1
  · have hlt := length_strips_maskHits h0
    omega
  · have hlt := length_strips_maskHits h1
    omega

/-- Row 1, strips 0 to 127. -/
def row1 (inputData : StripData) : Row where
  high64 := ((inputData >>> 64) &&& 0xffffffffffffffff#256).setWidth 64
  low64 := (inputData &&& 0xffffffffffffffff#256).setWidth 64

/-- Row 2, strips 128 to 255. -/
def row2 (inputData : StripData) : Row where
  high64 := ((inputData >>> 192) &&& 0xffffffffffffffff#256).setWidth 64
  low64 := ((inputData >>> 128) &&& 0xffffffffffffffff#256).setWidth 64

/-- The clusters of a chip, the last one marked; a single word where there is none. -/
def clusterFinder (inputData : StripData) (maxCluster : Nat) : List Nat :=
  let clusters := finderLoop maxCluster (row1 inputData) (row2 inputData) []
  if clusters = [] then [0x3fe]
  else clusters.dropLast ++ (clusters.getLast?.map (· ||| (1 <<< 11))).toList

/-! ## How many clusters a row has -/

/-- Where clusters start in an ascending list of strips, those below `free` being covered. -/
def clusterStarts (free : Nat) : List Nat → List Nat
  | [] => []
  | a :: rest =>
      if a < free then clusterStarts free rest else a :: clusterStarts (a + 4) rest

theorem clusterStarts_filter {free low : Nat} (h : low ≤ free) (strips : List Nat) :
    clusterStarts free (strips.filter fun i => low ≤ i) = clusterStarts free strips := by
  induction strips generalizing free with
  | nil => rfl
  | cons a rest ih =>
      by_cases hlow : low ≤ a
      · by_cases hfree : a < free
        · simp [hlow, clusterStarts, hfree, ih h]
        · have hnext : low ≤ a + 4 := by omega
          simp [hlow, clusterStarts, hfree, ih hnext]
      · have hfree : a < free := by omega
        simp [hlow, clusterStarts, hfree, ih h]

theorem clusterStarts_of_le {free low : Nat} (h : free ≤ low) {strips : List Nat}
    (hs : ∀ i ∈ strips, low ≤ i) : clusterStarts free strips = clusterStarts low strips := by
  cases strips with
  | nil => rfl
  | cons a rest =>
      have ha := hs a (by simp)
      have hlow : ¬ a < low := by omega
      have hfree : ¬ a < free := by omega
      simp only [clusterStarts, hlow, hfree, if_false]

/-- The number of clusters of a row. -/
def Row.nClusters (r : Row) : Nat := (clusterStarts 0 r.strips).length

theorem strips_eq_cons {r : Row} (h : r.strips ≠ []) :
    ∃ rest, r.strips = hit_addr r :: rest := by
  obtain ⟨b, rest, hb⟩ := List.exists_cons_of_ne_nil h
  have hspec := hit_addr_spec h
  have hmem : hit_addr r ∈ b :: rest := by
    rw [← hb]
    exact mem_strips.2 hspec.1
  have hle : hit_addr r ≤ b := hspec.2 b (mem_strips.1 (by simp [hb]))
  have hsorted : (b :: rest).Pairwise (· < ·) := by
    rw [← hb]
    exact List.pairwise_lt_range.filter _
  have hge : b ≤ hit_addr r := by
    rcases List.mem_cons.1 hmem with heq | hrest
    · omega
    · exact Nat.le_of_lt ((List.pairwise_cons.1 hsorted).1 _ hrest)
  have heq : b = hit_addr r := by omega
  exact ⟨rest, by rw [hb, heq]⟩

theorem nClusters_of_nil {r : Row} (h : r.strips = []) : r.nClusters = 0 := by
  rw [Row.nClusters, h]
  rfl

theorem nClusters_maskHits {r : Row} (h : r.strips ≠ []) :
    r.nClusters = (maskHits (hit_addr r) r).nClusters + 1 := by
  obtain ⟨rest, hrest⟩ := strips_eq_cons h
  have hself : ¬ hit_addr r + 4 ≤ hit_addr r := by omega
  have hleft : (maskHits (hit_addr r) r).strips = rest.filter fun i => hit_addr r + 4 ≤ i := by
    rw [strips_maskHits h]
    conv_lhs => rw [hrest]
    simp only [Nat.lt_iff_add_one_le, Nat.add_assoc, List.filter_cons, hself, decide_false]
    rfl
  have hstart : clusterStarts 0 (rest.filter fun i => hit_addr r + 4 ≤ i) =
      clusterStarts (hit_addr r + 4) rest := by
    rw [← clusterStarts_filter (Nat.le_refl (hit_addr r + 4)) rest]
    refine clusterStarts_of_le (Nat.zero_le _) ?_
    intro i hi
    simpa using (List.mem_filter.1 hi).2
  unfold Row.nClusters
  rw [hleft, hstart, hrest]
  rfl

end StarChipsetEmu

end Yarr.Star
