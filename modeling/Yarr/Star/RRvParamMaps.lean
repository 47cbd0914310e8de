import Yarr.Star.StarRRvParamAnalysis

/-!
# The maps of registers and their infos

Under each index stand the readings of all histograms of its point, one after
the other.
-/

namespace Yarr.Star

open Scan

/-- A histogram on its way into the maps: its index and its readings. -/
abbrev RRReading := Nat × (Nat → Int)

namespace RRvParamMaps

/-- The bits of the register. -/
def bits (reading : Nat → Int) : List Int := (List.range 32).map reading

/-- The bits of the address, and the flag. -/
def infos (reading : Nat → Int) : List Int :=
  (List.range 8).map (fun ra_bit => reading (ra_bit + 33)) ++ [reading 32]

/-- What stands under an index. -/
def rowOf (part : (Nat → Int) → List Int) (readings : List RRReading) (i : Nat) : List Int :=
  (readings.filter fun r => r.1 = i).flatMap fun r => part r.2

/-- The maps after these histograms. -/
structure Holds (m : RRvParamMaps) (size : Nat) (readings : List RRReading) : Prop where
  map : m.map = (List.range size).map (rowOf bits readings)
  info_map : m.info_map = (List.range size).map (rowOf infos readings)

theorem modify_range_map {α : Type} (n i : Nat) (f : Nat → α) (g : α → α) :
    ((List.range n).map f).modify i g =
      (List.range n).map fun j => if i = j then g (f j) else f j := by
  apply List.ext_getElem
  · simp
  · intro j hj hj'
    rw [List.getElem_modify]
    simp

theorem rowOf_concat (part : (Nat → Int) → List Int) (readings : List RRReading) (r : RRReading)
    (i : Nat) : rowOf part (readings ++ [r]) i =
      if r.1 = i then rowOf part readings i ++ part r.2 else rowOf part readings i := by
  unfold rowOf
  rw [List.filter_append, List.flatMap_append]
  by_cases h : r.1 = i
  · simp [h]
  · simp [h]

theorem holds_empty (size : Nat) :
    Holds ⟨List.replicate size [], List.replicate size []⟩ size [] := by
  have hempty : ∀ part, List.replicate size [] = (List.range size).map (rowOf part []) := by
    intro part
    show List.replicate size [] = (List.range size).map fun _ => []
    rw [List.map_const', List.length_range]
  exact ⟨hempty bits, hempty infos⟩

theorem Holds.add {m : RRvParamMaps} {size : Nat} {readings : List RRReading}
    (h : Holds m size readings) {param_val : Int} (hnonneg : 0 ≤ param_val)
    (hlt : param_val < size) (reading : Nat → Int) :
    ∃ m', m.add param_val reading = some m' ∧
      Holds m' size (readings ++ [(param_val.toNat, reading)]) := by
  have hmap : m.map.length = size := by
    rw [h.map, List.length_map, List.length_range]
  have hinfo : m.info_map.length = size := by
    rw [h.info_map, List.length_map, List.length_range]
  have hrow : ∀ part, ((List.range size).map (rowOf part readings)).modify param_val.toNat
      (· ++ part reading) =
      (List.range size).map (rowOf part (readings ++ [(param_val.toNat, reading)])) := by
    intro part
    rw [modify_range_map]
    apply List.map_congr_left
    intro j _
    rw [rowOf_concat]
  refine ⟨_, if_pos (by rw [hmap, hinfo]; exact ⟨hnonneg, hlt, hlt⟩), ?_, ?_⟩
  · dsimp only
    rw [h.map]
    exact hrow bits
  · dsimp only
    rw [h.info_map]
    exact hrow infos

/-- The indices of the histograms. -/
def Collected (readings : List RRReading) (i : Nat) : Prop := ∃ r ∈ readings, r.1 = i

theorem rowOf_eq_cons {part : (Nat → Int) → List Int} {readings : List RRReading} {i : Nat}
    (h : Collected readings i) : ∃ r rest, readings.find? (fun r => r.1 = i) = some r ∧
      rowOf part readings i = part r.2 ++ rest := by
  induction readings with
  | nil =>
      obtain ⟨r, hr, _⟩ := h
      exact absurd hr List.not_mem_nil
  | cons r readings ih =>
      by_cases hr : r.1 = i
      · refine ⟨r, rowOf part readings i, ?_, ?_⟩
        · simp [hr]
        · simp [rowOf, hr]
      · have htail : Collected readings i := by
          obtain ⟨r', hr', heq⟩ := h
          rcases List.mem_cons.mp hr' with rfl | hmem
          · exact absurd heq hr
          · exact ⟨r', hmem, heq⟩
        rcases ih htail with ⟨r', rest, hfind, hrow⟩
        refine ⟨r', rest, ?_, ?_⟩
        · simp [hr, hfind]
        · rw [← hrow]
          simp [rowOf, hr]

/-- How many histograms have an index. -/
def countOf (readings : List RRReading) (i : Nat) : Nat :=
  (readings.filter fun r => r.1 = i).length

theorem length_rowOf (part : (Nat → Int) → List Int) {n : Nat} (hpart : ∀ f, (part f).length = n)
    (readings : List RRReading) (i : Nat) :
    (rowOf part readings i).length = countOf readings i * n := by
  unfold rowOf countOf
  rw [List.length_flatMap]
  induction readings.filter fun r => r.1 = i with
  | nil => simp
  | cons r rs ih =>
      rw [List.map_cons, List.sum_cons, ih, hpart, List.length_cons, Nat.succ_mul]
      omega

theorem length_bits (f : Nat → Int) : (bits f).length = 32 := by simp [bits]

theorem length_infos (f : Nat → Int) : (infos f).length = 9 := by simp [infos]

theorem collected_iff {readings : List RRReading} {i : Nat} :
    Collected readings i ↔ countOf readings i ≠ 0 := by
  unfold Collected countOf
  rw [ne_eq, List.length_eq_zero_iff, List.filter_eq_nil_iff]
  simp

end RRvParamMaps

namespace StarRRvParamAnalysis

open RRvParamMaps

/-- The index of a point. -/
def indexOf (loops : List RRLoop) (values : List Int) : Nat :=
  ((paramVal loops values).getD 0).toNat

def readingsHCC (loops : List RRLoop) (inputs : List RRDist) : List RRReading :=
  inputs.filterMap fun
    | .starHCCRRDist values histo => some (indexOf loops values, readHCC histo)
    | .starABCRRDist _ _ => none

def readingsABC (loops : List RRLoop) (abc_ch : Nat) (inputs : List RRDist) : List RRReading :=
  inputs.filterMap fun
    | .starHCCRRDist _ _ => none
    | .starABCRRDist values histo => some (indexOf loops values, readABC histo abc_ch)

/-- The values in the position of a histogram. -/
def valuesOf : RRDist → List Int
  | .starHCCRRDist values _ => values
  | .starABCRRDist values _ => values

/-- The state after these inputs. -/
structure After (nest : List RRLoop) (size : Nat) (inputs : List RRDist)
    (a : StarRRvParamAnalysis) : Prop where
  loops : a.loops = nest
  hcc : a.hcc.Holds size (readingsHCC nest inputs)
  abc : ∀ abc_ch < RRMaxABCsPerHCC, (a.abc abc_ch).Holds size (readingsABC nest abc_ch inputs)
  filledHCCMap : a.filledHCCMap = true ↔ readingsHCC nest inputs ≠ []
  filledABCMaps : a.filledABCMaps = true ↔ readingsABC nest 0 inputs ≠ []

theorem mapM_range_some {β : Type} {f : Nat → Option β} {g : Nat → β} {n : Nat}
    (h : ∀ i < n, f i = some (g i)) : (List.range n).mapM f = some ((List.range n).map g) := by
  induction n with
  | zero => rfl
  | succ n ih =>
      rw [List.range_succ, List.mapM_append, ih fun i hi => h i (Nat.lt_succ_of_lt hi),
        List.map_append]
      simp [h n (Nat.lt_succ_self n)]

theorem After.processHistogram {nest : List RRLoop} {size : Nat} {inputs : List RRDist}
    {a : StarRRvParamAnalysis} (h : After nest size inputs a) {input : RRDist}
    (hindex : ∃ param_val, paramVal nest (valuesOf input) = some param_val ∧ 0 ≤ param_val ∧
      param_val < size) :
    ∃ a', a.processHistogram input = some a' ∧ After nest size (inputs ++ [input]) a' := by
  obtain ⟨param_val, hparam, hnonneg, hlt⟩ := hindex
  have hindexOf : indexOf nest (valuesOf input) = param_val.toNat := by
    unfold indexOf
    rw [hparam]
    rfl
  cases input with
  | starHCCRRDist values histo =>
      rcases h.hcc.add hnonneg hlt (readHCC histo) with ⟨hcc, hadd, hholds⟩
      refine ⟨{ a with hcc := hcc, filledHCCMap := true }, ?_, ?_⟩
      · unfold StarRRvParamAnalysis.processHistogram
        rw [h.loops]
        show (paramVal nest values >>= _) = _
        rw [show paramVal nest values = some param_val from hparam]
        show (a.hcc.add param_val (readHCC histo) >>= _) = _
        rw [hadd]
        rfl
      · have hreadings : readingsHCC nest (inputs ++ [.starHCCRRDist values histo]) =
            readingsHCC nest inputs ++ [(param_val.toNat, readHCC histo)] := by
          unfold readingsHCC
          rw [List.filterMap_append, ← hindexOf]
          rfl
        have habc : ∀ abc_ch, readingsABC nest abc_ch (inputs ++ [.starHCCRRDist values histo]) =
            readingsABC nest abc_ch inputs := by
          intro abc_ch
          unfold readingsABC
          rw [List.filterMap_append]
          exact List.append_nil _
        refine ⟨h.loops, ?_, ?_, ?_, ?_⟩
        · rw [hreadings]
          exact hholds
        · intro abc_ch hch
          rw [habc]
          exact h.abc abc_ch hch
        · rw [hreadings]
          simp
        · rw [habc]
          exact h.filledABCMaps
  | starABCRRDist values histo =>
      have hadds : ∀ abc_ch, ∃ m', abc_ch < RRMaxABCsPerHCC →
          (a.abc abc_ch).add param_val (readABC histo abc_ch) = some m' ∧
            m'.Holds size (readingsABC nest abc_ch inputs ++
              [(param_val.toNat, readABC histo abc_ch)]) := by
        intro abc_ch
        by_cases hch : abc_ch < RRMaxABCsPerHCC
        · rcases (h.abc abc_ch hch).add hnonneg hlt (readABC histo abc_ch) with ⟨m', hadd, hholds⟩
          exact ⟨m', fun _ => ⟨hadd, hholds⟩⟩
        · exact ⟨⟨[], []⟩, fun hch' => absurd hch' hch⟩
      choose abc habc using hadds
      refine ⟨{ a with
        abc := fun abc_ch => ((List.range RRMaxABCsPerHCC).map abc).getD abc_ch ⟨[], []⟩
        filledABCMaps := true }, ?_, ?_⟩
      · unfold StarRRvParamAnalysis.processHistogram
        rw [h.loops]
        show (paramVal nest values >>= _) = _
        rw [show paramVal nest values = some param_val from hparam]
        show ((List.range RRMaxABCsPerHCC).mapM (fun abc_ch =>
          (a.abc abc_ch).add param_val (readABC histo abc_ch)) >>= _) = _
        rw [mapM_range_some fun abc_ch hch => (habc abc_ch hch).1]
        rfl
      · have hreadings : ∀ abc_ch,
            readingsABC nest abc_ch (inputs ++ [.starABCRRDist values histo]) =
            readingsABC nest abc_ch inputs ++ [(param_val.toNat, readABC histo abc_ch)] := by
          intro abc_ch
          unfold readingsABC
          rw [List.filterMap_append, ← hindexOf]
          rfl
        have hhcc : readingsHCC nest (inputs ++ [.starABCRRDist values histo]) =
            readingsHCC nest inputs := by
          unfold readingsHCC
          rw [List.filterMap_append]
          exact List.append_nil _
        refine ⟨h.loops, ?_, ?_, ?_, ?_⟩
        · rw [hhcc]
          exact h.hcc
        · intro abc_ch hch
          rw [hreadings]
          have hget : ((List.range RRMaxABCsPerHCC).map abc).getD abc_ch ⟨[], []⟩ = abc abc_ch := by
            rw [List.getD_eq_getElem?_getD, List.getElem?_map, List.getElem?_range hch]
            rfl
          dsimp only
          rw [hget]
          exact (habc abc_ch hch).2
        · rw [hhcc]
          exact h.filledHCCMap
        · rw [hreadings]
          simp

/-- With an index for every point, every histogram finds its place. -/
theorem after_run {nest : List RRLoop} {size : Nat} (hsize : max_size nest = some size)
    (hindex : ∀ values, OnGrid nest values →
      ∃ param_val, paramVal nest values = some param_val ∧ 0 ≤ param_val ∧ param_val < size)
    {inputs : List RRDist} (hgrid : ∀ input ∈ inputs, OnGrid nest (valuesOf input)) :
    ∃ a a', init nest = some a ∧ a.run inputs = some a' ∧ After nest size inputs a' := by
  have hinit : init nest = some (resized nest size) := by
    unfold init
    rw [hsize]
    rfl
  suffices hrun : ∃ a', (resized nest size).run inputs = some a' ∧ After nest size inputs a' by
    rcases hrun with ⟨a', hrun⟩
    exact ⟨_, a', hinit, hrun⟩
  induction inputs using List.reverseRecOn with
  | nil =>
      refine ⟨_, rfl, rfl, holds_empty size, fun _ _ => holds_empty size, ?_, ?_⟩
      · simp [resized, readingsHCC]
      · simp [resized, readingsABC]
  | append_singleton inputs input ih =>
      rcases ih fun i hi => hgrid i (List.mem_append_left _ hi) with ⟨a', hrun, hafter⟩
      rcases hafter.processHistogram
        (hindex _ (hgrid input (List.mem_append_right _ (List.mem_singleton_self _))))
        with ⟨a'', hstep, hafter'⟩
      refine ⟨a'', ?_, hafter'⟩
      unfold run at hrun ⊢
      rw [List.foldlM_append, hrun]
      show (a'.processHistogram input >>= pure) = _
      rw [hstep]
      rfl

end StarRRvParamAnalysis

end Yarr.Star

/-!
## The bins of bits and indices

A histogram has a column for each bit, and a row for as many indices as there
are. An index falls into the row of its share of the range, which another one
may have as well; of those that have it the last one is seen.
-/

namespace Yarr.Star

open Scan

namespace RRvParamMaps

/-- A histogram of the output before it is filled. -/
def outputFrame (nBits : Nat) (paramMin paramMax : Int) (paramNBin : Nat) : Histo2d :=
  .new nBits (-1 / 2) (nBits - 1 / 2) paramNBin (paramMin - 1 / 2) (paramMax + 1 / 2)

/-- The row of an index. -/
def paramRow (paramMin paramMax : Int) (paramNBin : Nat) (param_val : Int) : Nat :=
  ((2 * (param_val - paramMin) + 1) * paramNBin / (2 * (paramMax - paramMin + 1))).toNat

section Frame

variable {X N : Nat} {lo hi v : Int}

theorem paramRow_lt (hN : 0 < N) (hlo : lo ≤ v) (hhi : v ≤ hi) : paramRow lo hi N v < N := by
  have hwidth : 0 < 2 * (hi - lo + 1) := by omega
  have hless : (2 * (v - lo) + 1) * N < N * (2 * (hi - lo + 1)) := by
    rw [mul_comm]
    exact mul_lt_mul_of_pos_left (by omega) (by exact_mod_cast hN)
  have hdiv := Int.ediv_lt_of_lt_mul hwidth hless
  unfold paramRow
  omega

/-- Halves around the whole numbers are cut into equal rows. -/
theorem floor_row (hlo : lo ≤ v) (hhi : v ≤ hi) :
    (((v : ℚ) - (lo - 1 / 2)) / (((hi + 1 / 2) - (lo - 1 / 2)) / N)).floor.toNat
      = paramRow lo hi N v := by
  have hwidth : ((2 * (hi - lo + 1)).toNat : Int) = 2 * (hi - lo + 1) :=
    Int.toNat_of_nonneg (by omega)
  have hwidthRat : (((2 * (hi - lo + 1)).toNat : Nat) : ℚ) = 2 * (hi - lo + 1) := by
    have hcast : ((((2 * (hi - lo + 1)).toNat : Nat) : Int) : ℚ)
        = ((2 * (hi - lo + 1) : Int) : ℚ) := congrArg _ hwidth
    push_cast at hcast
    exact hcast
  have hpos : (0 : ℚ) < hi - lo + 1 := by
    have hcast : (0 : ℚ) < ((hi - lo + 1 : Int) : ℚ) := by exact_mod_cast (by omega)
    push_cast at hcast
    exact hcast
  have hratio : ((v : ℚ) - (lo - 1 / 2)) / (((hi + 1 / 2) - (lo - 1 / 2)) / N)
      = (((2 * (v - lo) + 1) * N : Int) : ℚ) / (((2 * (hi - lo + 1)).toNat : Nat) : ℚ) := by
    rw [hwidthRat]
    push_cast
    have hsame : ((hi : ℚ) + 1 / 2) - (lo - 1 / 2) = hi - lo + 1 := by ring
    rw [hsame, div_div_eq_mul_div, div_eq_div_iff hpos.ne' (by linarith)]
    ring
  have hfloor : ((((2 * (v - lo) + 1) * N : Int) : ℚ)
      / (((2 * (hi - lo + 1)).toNat : Nat) : ℚ)).floor
      = (2 * (v - lo) + 1) * N / (2 * (hi - lo + 1)) := by
    rw [← hwidth]
    exact Rat.floor_intCast_div_natCast _ _
  rw [hratio, hfloor]
  rfl

theorem binNum_outputFrame (hlo : lo ≤ v) (hhi : v ≤ hi) (bit : Nat) :
    (outputFrame X lo hi N).binNum bit v
      = if bit < X then some (bit + paramRow lo hi N v * X) else none := by
  have hloRat : (lo : ℚ) ≤ v := by exact_mod_cast hlo
  have hhiRat : (v : ℚ) ≤ hi := by exact_mod_cast hhi
  have hbit : (0 : ℚ) ≤ bit := Nat.cast_nonneg bit
  have hlow : ¬((bit : ℚ) < -1 / 2 ∨ (v : ℚ) < lo - 1 / 2) := by
    rintro (hless | hless) <;> linarith
  unfold Histo2d.binNum outputFrame Histo2d.new
  rw [if_neg hlow]
  by_cases hX : bit < X
  · have hXRat : (bit : ℚ) + 1 ≤ X := by exact_mod_cast hX
    have hhigh : ¬((X : ℚ) - 1 / 2 < bit ∨ (hi : ℚ) + 1 / 2 < v) := by
      rintro (hless | hless) <;> linarith
    have hXpos : (X : ℚ) ≠ 0 := by
      have hpos : (0 : ℚ) < X := by linarith
      exact hpos.ne'
    have hcol : (((bit : ℚ) - -1 / 2) / (((X : ℚ) - 1 / 2 - -1 / 2) / X)).floor.toNat = bit := by
      have hone : ((X : ℚ) - 1 / 2 - -1 / 2) / X = 1 := by
        rw [div_eq_one_iff_eq hXpos]
        ring
      have hfloor : ((bit : ℚ) - -1 / 2).floor = (bit : Int) := by
        have hle : (((bit : Int)) : ℚ) ≤ (bit : ℚ) - -1 / 2 := by
          push_cast
          linarith
        have hlt : (bit : ℚ) - -1 / 2 < ((bit : Int) : ℚ) + 1 := by
          push_cast
          linarith
        exact Int.floor_eq_iff.mpr ⟨hle, hlt⟩
      rw [hone, div_one, hfloor]
      rfl
    rw [if_neg hhigh, if_pos hX]
    unfold Histo2d.index Histo2d.xbinWidth Histo2d.ybinWidth
    dsimp only
    rw [hcol, floor_row hlo hhi]
  · have hXRat : (X : ℚ) ≤ bit := by exact_mod_cast not_lt.mp hX
    have hhigh : (X : ℚ) - 1 / 2 < bit ∨ (hi : ℚ) + 1 / 2 < v := Or.inl (by linarith)
    rw [if_pos hhigh, if_neg hX]

end Frame

/-- The bins of a histogram are those of the frame. -/
structure Framed (h : Histo2d) (X : Nat) (lo hi : Int) (N : Nat) : Prop where
  binNum : ∀ x y, h.binNum x y = (outputFrame X lo hi N).binNum x y
  size : h.size = X * N

theorem framed_outputFrame (X : Nat) (lo hi : Int) (N : Nat) :
    Framed (outputFrame X lo hi N) X lo hi N := ⟨fun _ _ => rfl, rfl⟩

theorem binNum_setBin (h : Histo2d) (n : Nat) (v x y : ℚ) :
    (h.setBin n v).binNum x y = h.binNum x y := by
  unfold Histo2d.setBin
  split <;> rfl

section Filling

variable {h h' : Histo2d} {X N : Nat} {lo hi v : Int}

theorem Framed.setBit (hframe : Framed h X lo hi N) (bit : Nat) (param_val hits : Int) :
    Framed (setBit h bit param_val hits) X lo hi N := by
  unfold RRvParamMaps.setBit
  cases h.binNum bit param_val with
  | none => exact hframe
  | some n =>
      constructor
      · intro x y
        dsimp only
        rw [binNum_setBin]
        exact hframe.binNum x y
      · exact (Histo2d.size_setBin h n hits).trans hframe.size

theorem Framed.getBin_setBit (hframe : Framed h X lo hi N) (hN : 0 < N) (hlo : lo ≤ v)
    (hhi : v ≤ hi) (bit : Nat) (hits : Int) {n : Nat} (hn : n < X * N) :
    (RRvParamMaps.setBit h bit v hits).getBin n
      = if n % X = bit ∧ n / X = paramRow lo hi N v then (hits : ℚ) else h.getBin n := by
  have hX : 0 < X := Nat.pos_of_mul_pos_right (Nat.zero_lt_of_lt hn)
  have hmod := Nat.mod_lt n hX
  unfold RRvParamMaps.setBit
  rw [hframe.binNum, binNum_outputFrame hlo hhi]
  by_cases hbit : bit < X
  · rw [if_pos hbit]
    have hrow := paramRow_lt hN hlo hhi
    have hinside : bit + paramRow lo hi N v * X < h.size := by
      rw [hframe.size]
      have hle := Nat.mul_le_mul_right X (Nat.succ_le_of_lt hrow)
      rw [Nat.succ_mul, Nat.mul_comm N X] at hle
      omega
    have hiff : n = bit + paramRow lo hi N v * X ↔ n % X = bit ∧ n / X = paramRow lo hi N v := by
      constructor
      · rintro rfl
        rw [Nat.add_mul_mod_self_right, Nat.mod_eq_of_lt hbit, Nat.add_mul_div_right _ _ hX,
          Nat.div_eq_of_lt hbit, Nat.zero_add]
        exact ⟨rfl, rfl⟩
      · rintro ⟨hcol, hrow'⟩
        rw [← hcol, ← hrow', Nat.mul_comm]
        exact (Nat.mod_add_div n X).symm
    dsimp only
    rw [Histo2d.getBin_setBin _ hinside]
    simp only [hiff]
  · have hother : ¬(n % X = bit ∧ n / X = paramRow lo hi N v) := by
      rintro ⟨hcol, _⟩
      omega
    rw [if_neg hbit, if_neg hother]

/-! ## Rows of bits -/

theorem fillRow_succ (row : List Int) (nBits : Nat) (h : Histo2d) (param_val : Int) :
    fillRow row (nBits + 1) h param_val = (fillRow row nBits h param_val).bind fun h =>
      row[nBits]?.map (RRvParamMaps.setBit h nBits param_val) := by
  unfold fillRow
  rw [List.range_succ, List.foldlM_append]
  simp

theorem Framed.of_fillRow (hframe : Framed h X lo hi N) {row : List Int} {nBits : Nat}
    (hfill : fillRow row nBits h v = some h') :
    nBits ≤ row.length ∧ Framed h' X lo hi N := by
  induction nBits generalizing h' with
  | zero =>
      cases hfill
      exact ⟨Nat.zero_le _, hframe⟩
  | succ nBits ih =>
      rw [fillRow_succ] at hfill
      rcases Option.bind_eq_some_iff.mp hfill with ⟨h₁, hfill₁, hlast⟩
      rcases Option.map_eq_some_iff.mp hlast with ⟨hits, hhits, rfl⟩
      rcases List.getElem?_eq_some_iff.mp hhits with ⟨hlt, _⟩
      exact ⟨hlt, (ih hfill₁).2.setBit nBits v hits⟩

theorem Framed.fillRow (hframe : Framed h X lo hi N) (hN : 0 < N) (hlo : lo ≤ v) (hhi : v ≤ hi)
    {row : List Int} {nBits : Nat} (hrow : nBits ≤ row.length) :
    ∃ h', RRvParamMaps.fillRow row nBits h v = some h' ∧ ∀ n < X * N, h'.getBin n
      = if n % X < nBits ∧ n / X = paramRow lo hi N v then ((row.getD (n % X) 0 : Int) : ℚ)
        else h.getBin n := by
  induction nBits with
  | zero =>
      refine ⟨h, rfl, fun n _ => ?_⟩
      rw [if_neg fun hboth => Nat.not_lt_zero _ hboth.1]
  | succ nBits ih =>
      rcases ih (Nat.le_of_succ_le hrow) with ⟨h₁, hfill₁, hbins⟩
      have hhits : row[nBits]? = some (row.getD nBits 0) := by
        rw [List.getD_eq_getElem?_getD, List.getElem?_eq_getElem hrow, Option.getD_some]
      have hframe₁ := (hframe.of_fillRow hfill₁).2
      refine ⟨RRvParamMaps.setBit h₁ nBits v (row.getD nBits 0), ?_, fun n hn => ?_⟩
      · rw [fillRow_succ, hfill₁, Option.bind_some, hhits, Option.map_some]
      · rw [hframe₁.getBin_setBit hN hlo hhi nBits _ hn, hbins n hn]
        by_cases hrow' : n / X = paramRow lo hi N v
        · by_cases hcol : n % X = nBits
          · rw [if_pos ⟨hcol, hrow'⟩, if_pos ⟨by omega, hrow'⟩, hcol]
          · rw [if_neg fun hboth => hcol hboth.1]
            by_cases hless : n % X < nBits
            · rw [if_pos ⟨hless, hrow'⟩, if_pos ⟨by omega, hrow'⟩]
            · rw [if_neg fun hboth => hless hboth.1, if_neg fun hboth => by omega]
        · rw [if_neg fun hboth => hrow' hboth.2, if_neg fun hboth => hrow' hboth.2,
            if_neg fun hboth => hrow' hboth.2]

end Filling

/-! ## All indices -/

/-- The turn of one index. -/
def fillStep (map rows : RRvParamMap) (nBits : Nat) (h : Histo2d) (param_val : Int) :
    Option Histo2d :=
  if 0 ≤ param_val then do
    let row ← map[param_val.toNat]?
    if row.length ≠ 0 then fillRow (← rows[param_val.toNat]?) nBits h param_val else return h
  else none

section Run

variable {map rows : RRvParamMap} {size : Nat} {readings : List RRReading}
  {part : (Nat → Int) → List Int} {nBits : Nat} {X N : Nat} {lo hi : Int} {h : Histo2d}

theorem fillStep_eq (hmap : map = (List.range size).map (rowOf bits readings))
    (hrows : rows = (List.range size).map (rowOf part readings)) {v : Int} (hnonneg : 0 ≤ v)
    (hlt : v < size) [Decidable (Collected readings v.toNat)] :
    fillStep map rows nBits h v = if Collected readings v.toNat then
      fillRow (rowOf part readings v.toNat) nBits h v else some h := by
  have hindex : ∀ part, ((List.range size).map (rowOf part readings))[v.toNat]?
      = some (rowOf part readings v.toNat) := by
    intro part
    rw [List.getElem?_map, List.getElem?_range (by omega)]
    rfl
  unfold fillStep
  rw [if_pos hnonneg, hmap, hrows, hindex, hindex]
  show (if (rowOf bits readings v.toNat).length ≠ 0 then _ else _) = _
  have hfilled : (rowOf bits readings v.toNat).length ≠ 0 ↔ Collected readings v.toNat := by
    rw [length_rowOf bits length_bits, collected_iff]
    omega
  by_cases hcollected : Collected readings v.toNat
  · rw [if_pos hcollected, if_pos (hfilled.mpr hcollected)]
    rfl
  · rw [if_neg hcollected, if_neg fun hlength => hcollected (hfilled.mp hlength)]
    rfl

theorem Framed.of_fillSteps (hmap : map = (List.range size).map (rowOf bits readings))
    (hrows : rows = (List.range size).map (rowOf part readings)) {params : List Int}
    (hparams : ∀ v ∈ params, 0 ≤ v ∧ v < size) (hframe : Framed h X lo hi N) {h' : Histo2d}
    (hfill : params.foldlM (fillStep map rows nBits) h = some h') :
    (∀ v ∈ params, Collected readings v.toNat → nBits ≤ (rowOf part readings v.toNat).length) ∧
      Framed h' X lo hi N := by
  classical
  induction params generalizing h with
  | nil =>
      cases hfill
      exact ⟨fun v hv => absurd hv List.not_mem_nil, hframe⟩
  | cons v params ih =>
      rw [List.foldlM_cons] at hfill
      rcases Option.bind_eq_some_iff.mp hfill with ⟨h₁, hstep, hrest⟩
      have hv := hparams v List.mem_cons_self
      rw [fillStep_eq hmap hrows hv.1 hv.2] at hstep
      have hfirst : (Collected readings v.toNat →
          nBits ≤ (rowOf part readings v.toNat).length) ∧ Framed h₁ X lo hi N := by
        by_cases hcollected : Collected readings v.toNat
        · rw [if_pos hcollected] at hstep
          have hrow := hframe.of_fillRow hstep
          exact ⟨fun _ => hrow.1, hrow.2⟩
        · rw [if_neg hcollected] at hstep
          cases hstep
          exact ⟨fun hc => absurd hc hcollected, hframe⟩
      have htail := ih (fun w hw => hparams w (List.mem_cons_of_mem _ hw)) hfirst.2 hrest
      refine ⟨fun w hw => ?_, htail.2⟩
      rcases List.mem_cons.mp hw with rfl | hw
      · exact hfirst.1
      · exact htail.1 w hw

/-- Where no two indices have a row in common, each finds its bits in its row. -/
theorem Framed.fillSteps (hmap : map = (List.range size).map (rowOf bits readings))
    (hrows : rows = (List.range size).map (rowOf part readings)) (hN : 0 < N) {params : List Int}
    (hparams : ∀ v ∈ params, 0 ≤ v ∧ v < size ∧ lo ≤ v ∧ v ≤ hi)
    (hlength : ∀ v ∈ params, Collected readings v.toNat →
      nBits ≤ (rowOf part readings v.toNat).length)
    (hframe : Framed h X lo hi N) :
    ∃ h', params.foldlM (fillStep map rows nBits) h = some h' ∧
      ((∀ v ∈ params, ∀ w ∈ params, Collected readings v.toNat → Collected readings w.toNat →
          paramRow lo hi N v = paramRow lo hi N w → v = w) →
        ∀ n < X * N,
          (∀ v ∈ params, Collected readings v.toNat → n % X < nBits → n / X = paramRow lo hi N v →
            h'.getBin n = ((rowOf part readings v.toNat).getD (n % X) 0 : Int)) ∧
          ((∀ v ∈ params, Collected readings v.toNat → n % X < nBits →
              n / X ≠ paramRow lo hi N v) → h'.getBin n = h.getBin n)) := by
  classical
  induction params using List.reverseRecOn with
  | nil => exact ⟨h, rfl, fun _ n _ => ⟨fun v hv => absurd hv List.not_mem_nil, fun _ => rfl⟩⟩
  | append_singleton params v ih =>
      have hmem : ∀ w ∈ params, w ∈ params ++ [v] := fun w => List.mem_append_left _
      have hlast : v ∈ params ++ [v] := List.mem_append_right _ (List.mem_singleton_self v)
      rcases ih (fun w hw => hparams w (hmem w hw)) (fun w hw => hlength w (hmem w hw)) with
        ⟨h₁, hfill₁, hbins⟩
      have hframe₁ := (Framed.of_fillSteps hmap hrows
        (fun w hw => ⟨(hparams w (hmem w hw)).1, (hparams w (hmem w hw)).2.1⟩) hframe hfill₁).2
      have hv := hparams v hlast
      have hstep := @fillStep_eq map rows size readings part nBits h₁ hmap hrows v hv.1 hv.2.1 _
      by_cases hcollected : Collected readings v.toNat
      · rw [if_pos hcollected] at hstep
        rcases hframe₁.fillRow hN hv.2.2.1 hv.2.2.2 (hlength v hlast hcollected) with
          ⟨h', hfill', hbins'⟩
        refine ⟨h', ?_, fun hapart n hn => ?_⟩
        · rw [List.foldlM_append, hfill₁]
          simpa [hstep] using hfill'
        have hold := hbins (fun w hw u hu => hapart w (hmem w hw) u (hmem u hu)) n hn
        have hnew := hbins' n hn
        refine ⟨fun w hw hwcollected hcol hrow => ?_, fun hnone => ?_⟩
        · by_cases hsame : w = v
          · rw [hsame] at hrow ⊢
            rw [hnew, if_pos ⟨hcol, hrow⟩]
          · have hw' : w ∈ params := by
              rcases List.mem_append.mp hw with hw | hw
              · exact hw
              · exact absurd (List.mem_singleton.mp hw) hsame
            have hother : ¬(n % X < nBits ∧ n / X = paramRow lo hi N v) := fun hboth =>
              hsame (hapart w hw v hlast hwcollected hcollected (hrow.symm.trans hboth.2))
            rw [hnew, if_neg hother]
            exact hold.1 w hw' hwcollected hcol hrow
        · rw [hnew, if_neg fun hboth => hnone v hlast hcollected hboth.1 hboth.2]
          exact hold.2 fun w hw => hnone w (hmem w hw)
      · rw [if_neg hcollected] at hstep
        refine ⟨h₁, ?_, fun hapart n hn => ?_⟩
        · rw [List.foldlM_append, hfill₁]
          simpa using hstep
        have hold := hbins (fun w hw u hu => hapart w (hmem w hw) u (hmem u hu)) n hn
        refine ⟨fun w hw hwcollected hcol hrow => ?_, fun hnone => ?_⟩
        · rcases List.mem_append.mp hw with hw | hw
          · exact hold.1 w hw hwcollected hcol hrow
          · rw [List.mem_singleton.mp hw] at hwcollected
            exact absurd hwcollected hcollected
        · exact hold.2 fun w hw => hnone w (hmem w hw)

end Run

end RRvParamMaps

end Yarr.Star
