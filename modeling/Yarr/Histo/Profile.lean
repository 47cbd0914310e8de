import Mathlib.Algebra.BigOperators.Field
import Yarr.Histo.DerivedState

/-!
# The profile of a two-dimensional histogram

Each row is put into one bin of the profile, which is then set to the mean of
the row. The sum that is kept beside the bins has both, the row and its mean.
-/

namespace Yarr.Histo

open EqualBins Histo1d

namespace Histo2d

section Profile

variable {D S : Type} [Double D] [Element D S] (h : Histo2d D S)

def rowY (ybin : Nat) : D := h.y.low + (ybin : D) * h.y.binWidth

/-- Empty bins are not entered. -/
def fillColumn (ybin : Nat) (outH : Histo1d D) (xbin : Nat) : Option (Histo1d D) :=
  let cxy := h.getBin (xbin + ybin * h.x.bins)
  if Double.eqZero cxy then some outH else outH.fill (h.rowY ybin) cxy

/-- A number of `int` as `unsigned`. -/
def asUnsigned : Int → Nat
  | .ofNat n => n
  | .negSucc n => 2 ^ 32 - 1 - n

def profileRow (outH : Histo1d D) (ybin : Nat) : Option (Histo1d D) := do
  let outH ← (List.range h.x.bins).foldlM (h.fillColumn ybin) outH
  let binOnOutH := asUnsigned (outH.binNum (h.rowY ybin))
  return outH.setBin binOnOutH (outH.getBin binOnOutH / (h.x.bins : D))

def profileY : Option (Histo1d D) :=
  (List.range h.y.bins).foldlM h.profileRow
    { Histo1d.new (h.name ++ "_pfy") h.y.bins h.y.low h.y.high .iterationEnd with
      xAxisTitle := h.yAxisTitle }

end Profile

/-! ## Bins and sum -/

/-- The bins and the sum of a histogram over an axis. -/
structure Shows (outH : Histo1d ℝ) (axis : Axis ℝ) (f : Nat → ℝ) (sum : ℝ) : Prop where
  axis_eq : outH.x = axis
  length_data : outH.data.length = axis.bins
  data : ∀ i < axis.bins, outH.data.getD i 0 = f i
  sum_eq : outH.sum = sum

variable {outH : Histo1d ℝ} {axis : Axis ℝ} {f : Nat → ℝ} {sum : ℝ}

theorem Shows.congr {g : Nat → ℝ} {sum' : ℝ} (hshows : Shows outH axis f sum)
    (hfg : ∀ i < axis.bins, f i = g i) (hsum : sum = sum') : Shows outH axis g sum' :=
  ⟨hshows.axis_eq, hshows.length_data, fun i hi => (hshows.data i hi).trans (hfg i hi),
    hshows.sum_eq.trans hsum⟩

theorem Shows.getBin_eq (hshows : Shows outH axis f sum) {i : Nat} (hi : i < axis.bins) :
    outH.getBin i = f i := by
  have hlt : i < outH.x.bins := hshows.axis_eq ▸ hi
  rw [Histo1d.getBin_eq outH hlt, hshows.data i hi]

theorem holds_border (hcut : axis.Cut) (i : Nat) :
    Holds axis.low axis.binWidth i (axis.low + i * axis.binWidth) := by
  have hwidth := hcut.width_pos
  exact ⟨le_rfl, by linarith⟩

theorem place_border (hcut : axis.Cut) (i : Nat) :
    place axis.low axis.binWidth (axis.low + i * axis.binWidth) = i := by
  have hwidth := hcut.width_pos
  have hlow : axis.low ≤ axis.low + i * axis.binWidth := le_add_of_nonneg_right (by positivity)
  exact (holds_iff_place hwidth hlow i).mp (holds_border hcut i)

theorem border_between (hcut : axis.Cut) {i : Nat} (hi : i < axis.bins) :
    ¬axis.low + i * axis.binWidth < axis.low ∧ ¬axis.high ≤ axis.low + i * axis.binWidth := by
  have hin : Coordinate.InBin (axis, axis.low + i * axis.binWidth) i := ⟨hi, holds_border hcut i⟩
  obtain ⟨hlow, hhigh⟩ := hin.between hcut
  exact ⟨not_lt.mpr hlow, not_le.mpr hhigh⟩

theorem Shows.binNum_eq (hshows : Shows outH axis f sum) (hcut : axis.Cut) {i : Nat}
    (hi : i < axis.bins) : outH.binNum (axis.low + i * axis.binWidth) = i := by
  obtain ⟨hlow, hhigh⟩ := border_between hcut hi
  unfold Histo1d.binNum
  rw [hshows.axis_eq, if_neg hlow, if_neg fun hlt => hhigh hlt.le]
  exact congrArg Nat.cast (place_border hcut i)

theorem Shows.fill (hshows : Shows outH axis f sum) (hcut : axis.Cut) {i : Nat}
    (hi : i < axis.bins) (v : ℝ) :
    ∃ outH', outH.fill (axis.low + i * axis.binWidth) v = some outH' ∧
      Shows outH' axis (fun j => f j + if j = i then v else 0) (sum + v) := by
  obtain ⟨hlow, hhigh⟩ := border_between hcut hi
  have hnotlow : ¬axis.low + i * axis.binWidth < outH.x.low := hshows.axis_eq ▸ hlow
  have hnothigh : ¬outH.x.high ≤ axis.low + i * axis.binWidth := hshows.axis_eq ▸ hhigh
  have hplace : Double.toUnsigned
      ((axis.low + i * axis.binWidth - outH.x.low) / outH.x.binWidth) = i := by
    rw [hshows.axis_eq]
    exact place_border hcut i
  have hfill := fill_inside v hnotlow hnothigh hplace (hshows.length_data ▸ hi)
  refine ⟨_, hfill, hshows.axis_eq, ?_, ?_, congrArg (· + v) hshows.sum_eq⟩
  · exact (List.length_modify _ _ _).trans hshows.length_data
  · intro j hj
    have hlt : j < outH.data.length := hshows.length_data ▸ hj
    rw [← hshows.data j hj]
    simp only [List.getD_eq_getElem?_getD, List.getElem?_modify]
    by_cases heq : i = j
    · subst heq
      simp [hlt]
    · simp [heq, Ne.symm heq, hlt]

theorem Shows.setBin (hshows : Shows outH axis f sum) {n : Nat} (hn : n < axis.bins) (v : ℝ) :
    Shows (outH.setBin n v) axis (fun j => if j = n then v else f j) (sum + v) := by
  have hlt : n < outH.x.bins := hshows.axis_eq ▸ hn
  have hlength : n < outH.data.length := hshows.length_data ▸ hn
  refine ⟨(outH.axis_setBin n v).1.trans hshows.axis_eq,
    (outH.axis_setBin n v).2.trans hshows.length_data, ?_, ?_⟩
  · intro j hj
    have hset : (outH.setBin n v).data = outH.data.set n v := by simp [Histo1d.setBin, hlt]
    rw [hset, ← hshows.data j hj]
    by_cases heq : j = n
    · subst heq
      simp [List.getD_eq_getElem?_getD, hlength]
    · rw [if_neg heq, List.getD_eq_getElem?_getD, List.getElem?_set_ne (Ne.symm heq),
        List.getD_eq_getElem?_getD]
  · simp [Histo1d.setBin, hlt, hshows.sum_eq]

/-! ## The rows -/

variable {S : Type} [Element ℝ S] {h : Histo2d ℝ S}

/-- The first bins of a row. -/
noncomputable def rowPart (h : Histo2d ℝ S) (ybin m : Nat) : ℝ :=
  ∑ x ∈ Finset.range m, h.getBin (x + ybin * h.x.bins)

noncomputable def rowSum (h : Histo2d ℝ S) (ybin : Nat) : ℝ := h.rowPart ybin h.x.bins

theorem fillColumn_spec (hshows : Shows outH h.y f sum) (hcut : h.y.Cut) {ybin : Nat}
    (hy : ybin < h.y.bins) (xbin : Nat) :
    ∃ outH', h.fillColumn ybin outH xbin = some outH' ∧
      Shows outH' h.y
        (fun j => f j + if j = ybin then h.getBin (xbin + ybin * h.x.bins) else 0)
        (sum + h.getBin (xbin + ybin * h.x.bins)) := by
  by_cases hzero : h.getBin (xbin + ybin * h.x.bins) = 0
  · refine ⟨outH, ?_, hshows.congr ?_ ?_⟩
    · exact if_pos ((eqZero_iff _).mpr hzero)
    · intro i _
      simp [hzero]
    · rw [hzero, add_zero]
  · obtain ⟨outH', hfill, hshows'⟩ := hshows.fill hcut hy (h.getBin (xbin + ybin * h.x.bins))
    refine ⟨outH', ?_, hshows'⟩
    have hnot : ¬Double.eqZero (h.getBin (xbin + ybin * h.x.bins)) = true :=
      fun htrue => hzero ((eqZero_iff _).mp htrue)
    exact (if_neg hnot).trans hfill

theorem fillColumns_spec (hshows : Shows outH h.y f sum) (hcut : h.y.Cut) {ybin : Nat}
    (hy : ybin < h.y.bins) (m : Nat) :
    ∃ outH', (List.range m).foldlM (h.fillColumn ybin) outH = some outH' ∧
      Shows outH' h.y (fun j => f j + if j = ybin then h.rowPart ybin m else 0)
        (sum + h.rowPart ybin m) := by
  induction m with
  | zero =>
      refine ⟨outH, rfl, hshows.congr ?_ ?_⟩
      · intro i _
        simp [rowPart]
      · simp [rowPart]
  | succ m ih =>
      obtain ⟨outH₁, hfold, hshows₁⟩ := ih
      obtain ⟨outH₂, hcolumn, hshows₂⟩ := fillColumn_spec hshows₁ hcut hy m
      have hpart : h.rowPart ybin (m + 1) =
          h.rowPart ybin m + h.getBin (m + ybin * h.x.bins) := Finset.sum_range_succ _ _
      refine ⟨outH₂, ?_, hshows₂.congr ?_ ?_⟩
      · rw [List.range_succ, List.foldlM_append, hfold]
        simp [hcolumn]
      · intro i _
        rw [hpart]
        split
        · ring
        · ring
      · rw [hpart]
        ring

theorem profileRow_spec (hshows : Shows outH h.y f sum) (hcut : h.y.Cut) {ybin : Nat}
    (hy : ybin < h.y.bins) (hempty : f ybin = 0) :
    ∃ outH', h.profileRow outH ybin = some outH' ∧
      Shows outH' h.y (fun j => if j = ybin then h.rowSum ybin / h.x.bins else f j)
        (sum + (h.rowSum ybin + h.rowSum ybin / h.x.bins)) := by
  obtain ⟨outH₁, hfold, hshows₁⟩ := fillColumns_spec hshows hcut hy h.x.bins
  have hnum : outH₁.binNum (h.rowY ybin) = ybin := hshows₁.binNum_eq hcut hy
  have hindex : asUnsigned (outH₁.binNum (h.rowY ybin)) = ybin := by
    rw [hnum]
    rfl
  have hget : outH₁.getBin ybin = h.rowSum ybin := by
    rw [hshows₁.getBin_eq hy, if_pos rfl, hempty, zero_add]
    rfl
  have hshows₂ := hshows₁.setBin hy (h.rowSum ybin / h.x.bins)
  refine ⟨outH₁.setBin ybin (h.rowSum ybin / h.x.bins), ?_, hshows₂.congr ?_ ?_⟩
  · unfold profileRow
    rw [hfold]
    show some _ = some _
    rw [hindex, hget]
  · intro i _
    split
    · rfl
    · rw [add_zero]
  · exact add_assoc _ _ _

theorem profileRows_spec (hshows : Shows outH h.y (fun _ => 0) 0) (hcut : h.y.Cut)
    {k : Nat} (hk : k ≤ h.y.bins) :
    ∃ outH', (List.range k).foldlM h.profileRow outH = some outH' ∧
      Shows outH' h.y (fun j => if j < k then h.rowSum j / h.x.bins else 0)
        (∑ y ∈ Finset.range k, (h.rowSum y + h.rowSum y / h.x.bins)) := by
  induction k with
  | zero =>
      refine ⟨outH, rfl, hshows.congr ?_ ?_⟩
      · intro i _
        simp
      · simp
  | succ k ih =>
      obtain ⟨outH₁, hfold, hshows₁⟩ := ih (Nat.le_of_succ_le hk)
      obtain ⟨outH₂, hrow, hshows₂⟩ :=
        profileRow_spec hshows₁ hcut hk (if_neg (lt_irrefl k))
      refine ⟨outH₂, ?_, hshows₂.congr ?_ (Finset.sum_range_succ _ _).symm⟩
      · rw [List.range_succ, List.foldlM_append, hfold]
        simp [hrow]
      · intro i _
        by_cases heq : i = k
        · subst heq
          rw [if_pos rfl, if_pos (Nat.lt_succ_self i)]
        · rw [if_neg heq]
          by_cases hlt : i < k
          · rw [if_pos hlt, if_pos (Nat.lt_succ_of_lt hlt)]
          · rw [if_neg hlt, if_neg (by omega)]

theorem sum_rowSum (h : Histo2d ℝ S) (k : Nat) : ∑ y ∈ Finset.range k, h.rowSum y =
    ∑ n ∈ Finset.range (k * h.x.bins), h.getBin n := by
  induction k with
  | zero => simp
  | succ k ih =>
      rw [Finset.sum_range_succ, ih, Nat.succ_mul, Finset.sum_range_add]
      unfold rowSum rowPart
      congr 1
      apply Finset.sum_congr rfl
      intro x _
      rw [Nat.add_comm]

/-- All that is in the histogram. -/
noncomputable def content (h : Histo2d ℝ S) : ℝ := ∑ n ∈ Finset.range h.size, h.getBin n

theorem profileY_derived_iff (hwf : h.Wellformed) (hy : h.y.Proper) :
    ∃ p, h.profileY = some p ∧ (p.Derived ↔ h.content = 0) := by
  have hnew : Shows { Histo1d.new (h.name ++ "_pfy") h.y.bins h.y.low h.y.high .iterationEnd with
      xAxisTitle := h.yAxisTitle } h.y (fun _ => 0) 0 := by
    refine ⟨hwf.yAxis.symm, List.length_replicate, ?_, rfl⟩
    intro i hi
    simp [Histo1d.new, List.getD_eq_getElem?_getD, hi]
  obtain ⟨p, hp, hshows⟩ := profileRows_spec hnew (hy.cut hwf.yAxis) le_rfl
  have hrows : ∑ y ∈ Finset.range h.y.bins, h.rowSum y = h.content := by
    rw [sum_rowSum, Nat.mul_comm]
    rfl
  have hcontent : p.content = h.content / h.x.bins := by
    rw [← hrows, Finset.sum_div]
    unfold Histo1d.content
    rw [hshows.axis_eq]
    apply Finset.sum_congr rfl
    intro y hmem
    have hlt := Finset.mem_range.mp hmem
    rw [hshows.getBin_eq hlt, if_pos hlt]
  have hsum : p.sum = h.content + h.content / h.x.bins := by
    rw [hshows.sum_eq, Finset.sum_add_distrib, ← Finset.sum_div, hrows]
  refine ⟨p, hp, ?_, ?_⟩
  · intro hderived
    have heq := hderived.sum_eq
    rw [hsum, hcontent] at heq
    linarith
  · intro hzero
    rw [hzero, zero_div] at hcontent
    apply Kept.derived
    refine ⟨⟨?_, ?_⟩, ?_, fun _ => hcontent⟩
    · rw [hshows.length_data, hshows.axis_eq]
    · rw [hshows.axis_eq]
      exact hwf.yAxis
    · rw [hsum, hcontent, hzero, zero_div, add_zero]

end Histo2d

/-! ## Runs and profiles -/

/-- Sum, mean and deviation are those of the bins after every run whose changes fit, and in a
profile only if there is nothing in it. -/
theorem derived_state (name : String) :
    (∀ (bins : Nat) (low high : ℝ) (stat : Scan.LoopStatus)
      (cs : List (Change ℝ)) (h : Histo1d ℝ),
      (Histo1d.new name bins low high stat).Throughout Fits cs →
      (Histo1d.new name bins low high stat).run cs = some h → h.Derived) ∧
    (∀ (S : Type) [Element ℝ S] (h : Histo2d ℝ S), h.Wellformed → 0 < h.x.bins → h.y.Proper →
      ∃ p, h.profileY = some p ∧ (p.Derived ↔ h.content = 0)) := by
  constructor
  · intro bins low high stat cs h hfits hrun
    exact (kept_run cs (kept_new name bins low high stat) hfits hrun).derived
  · intro S _ h hwf _ hy
    exact Histo2d.profileY_derived_iff hwf hy

/-- A bin is set and doubled. -/
theorem one_bin_derived :
    (((Histo1d.new "h" 1 (0 : ℝ) 2 .iterationEnd).setBin 0 3).scale 2).Derived := by
  apply (derived_state "h").1 1 0 2 .iterationEnd [.setBin 0 3, .scale 2]
  · refine ⟨⟨?_, ?_⟩, ?_⟩
    · simp [Histo1d.new, Axis.of, Histo1d.getBin]
    · intro hzero
      simp [Histo1d.new] at hzero
    · intro h' _
      exact ⟨trivial, fun _ _ => trivial⟩
  · rfl

/-- A bin that is set twice, and the profile of one column with an entry in each of two rows. -/
theorem overwritten_sum :
    ¬(((Histo1d.new "h" 1 (0 : ℝ) 2 .iterationEnd).setBin 0 1).setBin 0 0).Derived ∧
    ∀ p, (((Histo2d.new "h" 1 0 1 2 0 2 .iterationEnd : Histo2d ℝ ℝ).setBin 0 1).setBin 1
      1).profileY = some p → ¬p.Derived := by
  constructor
  · intro hderived
    have hsum := hderived.sum_eq
    norm_num [Histo1d.setBin, Histo1d.new, Histo1d.content, Histo1d.getBin, Axis.of] at hsum
  · intro p hp hderived
    have hreach : (((Histo2d.new "h" 1 0 1 2 0 2 .iterationEnd : Histo2d ℝ ℝ).setBin 0 1).setBin 1
        1).Reachable := .setBin _ 1 1 (.setBin _ 0 1 (.new "h" 1 0 1 2 0 2 .iterationEnd))
    have hproper : (Axis.of 2 (0 : ℝ) 2).Proper := ⟨by decide, zero_lt_two⟩
    obtain ⟨p', hp', hiff⟩ := Histo2d.profileY_derived_iff hreach.wellformed hproper
    have hsame : p' = p := Option.some.inj (hp'.symm.trans hp)
    have hcontent := hiff.mp (hsame ▸ hderived)
    norm_num [Histo2d.content, Histo2d.size, Histo2d.setBin, Histo2d.new, Histo2d.getBin, Axis.of,
      Finset.sum_range_succ] at hcontent

end Yarr.Histo
