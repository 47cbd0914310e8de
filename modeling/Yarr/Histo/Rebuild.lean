import Mathlib.Data.Real.Sqrt
import Yarr.Histo.Histo1d
import Yarr.Histo.Histo2d
import Yarr.Histo.Histo3d

/-!
# One-dimensional histograms over exact numbers

A document leaves out the sum of the entries, and the sum of the bins stands in
for it. Over exact numbers the two are told apart unless they are equal, or
every bin has its middle at zero.
-/

namespace Yarr.Histo

open Observation

noncomputable instance : Double ℝ where
  decLt x y := Classical.dec (x < y)
  decLe x y := Classical.dec (x ≤ y)
  eqZero x := decide (x = 0)
  pow x n := x ^ n
  sqrt := Real.sqrt
  toUnsigned x := ⌊x⌋₊
  toUnsigned_natCast n _ := Nat.floor_natCast n

namespace Histo1d

theorem eqZero_iff (x : ℝ) : Double.eqZero x = true ↔ x = 0 := decide_eq_true_iff

/-- Every bin has its middle at zero. -/
def Centered (h : Histo1d ℝ) : Prop := ∀ i < h.x.bins, h.center i = 0

theorem foldl_zero {n : Nat} {f : Nat → ℝ} (hf : ∀ i < n, f i = 0) :
    (List.range n).foldl (fun s i => s + f i) 0 = 0 := by
  induction n with
  | zero => rfl
  | succ n ih =>
      have hinit := ih fun i hi => hf i (Nat.lt_succ_of_lt hi)
      rw [List.range_succ, List.foldl_append, hinit]
      simp [hf n (Nat.lt_succ_self n)]

theorem getMean_centered {h : Histo1d ℝ} (hcentered : h.Centered) : h.getMean = 0 := by
  have hsum : h.weighted_sum = 0 := by
    apply foldl_zero
    intro i hi
    rw [hcentered i hi, mul_zero]
  unfold getMean
  rw [hsum]
  simp

theorem getStdDev_centered {h : Histo1d ℝ} (hcentered : h.Centered) : h.getStdDev = 0 := by
  have hmu : (List.range h.x.bins).foldl
      (fun mu i => mu + h.data.getD i 0 * Double.pow (h.center i - h.getMean) 2) 0 = 0 := by
    apply foldl_zero
    intro i hi
    have hpow : Double.pow ((0 : ℝ) - 0) 2 = 0 := by
      show ((0 : ℝ) - 0) ^ 2 = 0
      norm_num
    rw [hcentered i hi, getMean_centered hcentered, hpow, mul_zero]
  unfold getStdDev
  simp only [hmu]
  split
  · rfl
  · show Real.sqrt (0 / h.sum) = 0
    rw [zero_div, Real.sqrt_zero]

theorem centered_of_axis {h h' : Histo1d ℝ} (haxis : h'.x = h.x) (hcentered : h.Centered) :
    h'.Centered := by
  intro i hi
  rw [center, haxis]
  exact hcentered i (haxis ▸ hi)

/-- The sum does not show where every bin has its middle at zero. -/
theorem equal_of_centered {sum : ℝ} {h h' : Histo1d ℝ} (hsame : SameBut sum h h')
    (hcentered : h.Centered) : Equal h h' := by
  apply alike_of_relation (fun s t => s.Centered ∧ ∃ sum, SameBut sum s t) ?_ ?_
    ⟨hcentered, sum, hsame⟩
  · rintro s t ⟨hs, sum, stat, max, min, hposition, rfl⟩
    have ht : Centered { s with lStat := stat, max := max, min := min, sum := sum } :=
      centered_of_axis rfl hs
    unfold observe
    rw [getMean_centered hs, getMean_centered ht, getStdDev_centered hs, getStdDev_centered ht,
      hposition]
    rfl
  · intro s t op hst
    obtain ⟨hs, sum, hsame⟩ := hst
    cases op with
    | fill x v =>
        rcases hsame.fill x v with ⟨hnone, hnone'⟩ | ⟨s', t', hs', ht', hnext⟩
        · rw [perform, perform, hnone, hnone']
          exact .none
        · have hcentered' := centered_of_axis (axis_fill hs').1 hs
          rw [perform, perform, hs', ht']
          rcases hnext with ⟨_, hnext⟩ | ⟨_, hnext⟩
          · exact .some ⟨hcentered', _, hnext⟩
          · exact .some ⟨hcentered', _, hnext⟩
    | add other =>
        exact .some ⟨centered_of_axis (s.axis_add other).1 hs, _, hsame.add other⟩

/-! ## Telling sums apart -/

theorem foldl_eq_sum (n : Nat) (f : Nat → ℝ) (start : ℝ) :
    (List.range n).foldl (fun s i => s + f i) start = start + ∑ i ∈ Finset.range n, f i := by
  induction n with
  | zero => simp
  | succ n ih =>
      rw [List.range_succ, List.foldl_append, ih, Finset.sum_range_succ]
      simp [add_assoc]

theorem sumOf_eq_sum (data : List ℝ) :
    sumOf data = ∑ i ∈ Finset.range data.length, data.getD i 0 := by
  have hfold : ∀ start, data.foldl (· + ·) start =
      start + ∑ i ∈ Finset.range data.length, data.getD i 0 := by
    induction data with
    | nil => simp
    | cons d data ih =>
        intro start
        rw [List.foldl_cons, ih, List.length_cons, Finset.sum_range_succ']
        simp only [List.getD_cons_succ, List.getD_cons_zero]
        ring
  rw [← zero_add (∑ i ∈ Finset.range data.length, data.getD i 0)]
  exact hfold 0

/-- The first bins are set one after the other. -/
def setBins {D : Type} [Double D] (h : Histo1d D) (f : Nat → D) : Nat → Histo1d D
  | 0 => h
  | n + 1 => (setBins h f n).setBin n (f n)

theorem setBins_spec {h : Histo1d ℝ} (hreach : Reachable h) (f : Nat → ℝ) (n : Nat)
    (hn : n ≤ h.x.bins) : Reachable (setBins h f n) ∧ (setBins h f n).x = h.x ∧
      ∀ i < n, (setBins h f n).data.getD i 0 = f i := by
  induction n with
  | zero => exact ⟨hreach, rfl, fun i hi => absurd hi (Nat.not_lt_zero i)⟩
  | succ n ih =>
      obtain ⟨hreach', haxis, hdata⟩ := ih (Nat.le_of_succ_le hn)
      have hlength := hreach'.wellformed.length_data
      have hlt : n < (setBins h f n).x.bins := by
        rw [haxis]
        exact hn
      refine ⟨.setBin _ n (f n) hreach', ?_, ?_⟩
      · rw [setBins, (axis_setBin _ _ _).1, haxis]
      · intro i hi
        have hset : (setBins h f (n + 1)).data = (setBins h f n).data.set n (f n) := by
          simp [setBins, setBin, hlt]
        rw [hset]
        by_cases heq : n = i
        · subst heq
          simp [List.getD_eq_getElem?_getD, hlength, hlt]
        · have hprev := hdata i (by omega)
          rw [List.getD_eq_getElem?_getD] at hprev ⊢
          rw [List.getElem?_set_ne heq, hprev]

/-- There is a histogram with given bins, whose entries are not a given number. -/
theorem exists_bins (bins : Nat) (f : Nat → ℝ) (entries : UInt32) :
    ∃ other : Histo1d ℝ, Reachable other ∧ other.x.bins = bins ∧
      (∀ i < bins, other.getBin i = f i) ∧ other.entries ≠ entries := by
  have hnew : Reachable (new "" bins (0 : ℝ) 0 .iterationEnd) := .new _ _ _ _ _
  obtain ⟨hreach, haxis, hdata⟩ := setBins_spec hnew f bins (Nat.le_refl _)
  have hbins : (setBins (new "" bins (0 : ℝ) 0 .iterationEnd) f bins).x.bins = bins := by
    rw [haxis]
    rfl
  generalize setBins (new "" bins (0 : ℝ) 0 .iterationEnd) f bins = h at hreach hbins hdata
  have hget : ∀ i < bins, h.getBin i = f i := by
    intro i hi
    rw [getBin, if_pos (hbins ▸ hi), hdata i hi]
  by_cases hentries : h.entries = entries
  · -- one more entry, behind the last bin
    have hnot : ¬bins < h.x.bins := by omega
    refine ⟨h.setBin bins 0, .setBin h bins 0 hreach, ?_, ?_, ?_⟩
    · rw [(h.axis_setBin bins 0).1, hbins]
    · intro i hi
      have hsame : (h.setBin bins 0).getBin i = h.getBin i := by
        simp [setBin, hnot, getBin]
      rw [hsame, hget i hi]
    · have hnext : (h.setBin bins 0).entries = h.entries + 1 := by
        simp [setBin, hnot]
      rw [hnext, hentries]
      simp
  · exact ⟨h, hreach, hbins, hget, hentries⟩

theorem add_spec {h other : Histo1d ℝ} (hwf : h.Wellformed) (hbins : other.x.bins = h.x.bins) :
    (h.add other).sum = h.sum + ∑ i ∈ Finset.range h.x.bins, other.getBin i ∧
      (h.add other).entries = h.entries + other.entries ∧
      ∀ i < h.x.bins, (h.add other).data.getD i 0 = h.data.getD i 0 + other.getBin i := by
  have hbins' : ¬other.x.bins ≠ h.x.bins := not_not.mpr hbins
  unfold add
  rw [if_neg hbins']
  refine ⟨foldl_eq_sum _ _ _, rfl, ?_⟩
  intro i hi
  have hlt : i < h.data.length := by
    rw [hwf.length_data]
    exact hi
  simp [List.getD_eq_getElem?_getD, List.getElem?_eq_getElem hlt]

/-- The mean of a histogram with one bin that is not empty. -/
theorem getMean_single {h : Histo1d ℝ} {i : Nat} {d : ℝ} (hi : i < h.x.bins) (hd : d ≠ 0)
    (hdata : ∀ j < h.x.bins, h.data.getD j 0 = if j = i then d else 0) (hsum : h.sum ≠ 0)
    (hentries : h.entries ≠ 0) : h.getMean = h.center i := by
  have htotal : h.total = d := by
    have hfold := foldl_eq_sum h.x.bins (fun j => h.data.getD j 0) 0
    rw [Finset.sum_congr rfl fun j hj => hdata j (Finset.mem_range.mp hj)] at hfold
    simp only [Finset.sum_ite_eq', Finset.mem_range, hi, if_true, zero_add] at hfold
    exact hfold
  have hweighted : h.weighted_sum = d * h.center i := by
    have hfold := foldl_eq_sum h.x.bins (fun j => h.data.getD j 0 * h.center j) 0
    rw [Finset.sum_congr rfl fun j hj => by rw [hdata j (Finset.mem_range.mp hj), ite_mul, zero_mul]]
      at hfold
    simp only [Finset.sum_ite_eq', Finset.mem_range, hi, if_true, zero_add] at hfold
    exact hfold
  have hnot : ¬(Double.eqZero h.sum || h.entries == 0) = true := by
    simp [Bool.or_eq_true, eqZero_iff, hsum, hentries]
  have hnot' : ¬Double.eqZero h.total = true := by
    rw [eqZero_iff, htotal]
    exact hd
  rw [getMean, if_neg hnot, if_neg hnot', htotal, hweighted]
  exact mul_div_cancel_left₀ (h.center i) hd

theorem getMean_of_sum_zero {h : Histo1d ℝ} (hsum : h.sum = 0) : h.getMean = 0 := by
  have hzero : (Double.eqZero h.sum || h.entries == 0) = true := by
    simp [Bool.or_eq_true, eqZero_iff, hsum]
  rw [getMean, if_pos hzero]

/-- One addition makes the sum zero and leaves one bin that is not empty. -/
theorem not_equal_of_sum {h h' : Histo1d ℝ} (hreach : Reachable h)
    (hsame : SameBut (sumOf h.data) h h') (hsum : h.sum ≠ sumOf h.data) {i : Nat}
    (hi : i < h.x.bins) (hcenter : h.center i ≠ 0) : ¬Equal h h' := by
  intro hequal
  have hwf := hreach.wellformed
  have hd : sumOf h.data - h.sum ≠ 0 := sub_ne_zero.mpr hsum.symm
  obtain ⟨other, hother, hbins, hget, hentries⟩ := exists_bins h.x.bins
    (fun j => (if j = i then sumOf h.data - h.sum else 0) - h.data.getD j 0) (-h.entries)
  have hadded : ∑ j ∈ Finset.range h.x.bins, other.getBin j = -h.sum := by
    rw [Finset.sum_congr rfl fun j hj => hget j (Finset.mem_range.mp hj), Finset.sum_sub_distrib,
      ← hwf.length_data, ← sumOf_eq_sum]
    simp only [Finset.sum_ite_eq', Finset.mem_range, hwf.length_data, hi, if_true]
    ring
  obtain ⟨stat, max, min, hposition, rfl⟩ := hsame
  have hwf' : Histo1d.Wellformed
      { h with lStat := stat, max := max, min := min, sum := sumOf h.data } :=
    ⟨hwf.length_data, hwf.axis⟩
  obtain ⟨hsum₁, _, _⟩ := add_spec hwf hbins
  obtain ⟨hsum₂, hentries₂, hdata₂⟩ := add_spec hwf' hbins
  have hmean := congrArg (Option.map Observed.mean) (hequal.next (i := .add other) hother)
  simp only [perform, Option.map_some, observe, Option.some.injEq] at hmean
  rw [getMean_of_sum_zero (by rw [hsum₁, hadded, add_neg_cancel]),
    getMean_single (d := sumOf h.data - h.sum) (i := i) ?_ hd ?_ ?_ ?_] at hmean
  · apply hcenter
    have haxis := (axis_add
      { h with lStat := stat, max := max, min := min, sum := sumOf h.data } other).1
    rw [center, haxis] at hmean
    exact hmean.symm
  · rw [(axis_add _ _).1]
    exact hi
  · intro j hj
    rw [(axis_add _ _).1] at hj
    rw [hdata₂ j hj, hget j hj]
    ring
  · rw [hsum₂, hadded, ← sub_eq_add_neg]
    exact hd
  · rw [hentries₂]
    intro hzero
    apply hentries
    dsimp only at hzero
    grind

theorem equal_iff_sum {h h' : Histo1d ℝ} (hreach : Reachable h)
    (hsame : SameBut (sumOf h.data) h h') :
    Equal h h' ↔ h.sum = sumOf h.data ∨ h.Centered := by
  constructor
  · intro hequal
    by_contra hnot
    rw [not_or] at hnot
    obtain ⟨hsum, hcentered⟩ := hnot
    obtain ⟨i, hi⟩ := not_forall.mp hcentered
    obtain ⟨hlt, hcenter⟩ := Classical.not_imp.mp hi
    exact not_equal_of_sum hreach hsame hsum hlt hcenter hequal
  · rintro (hsum | hcentered)
    · rw [← hsum] at hsame
      exact equal_of_sameShown hsame
    · exact equal_of_centered hsame hcentered

end Histo1d

end Yarr.Histo

/-!
## Histograms that are built again

A histogram is built again from the document that it was written to, or by a
constructor that copies. Here is when nothing tells it from the original.
-/

namespace Yarr.Histo

open Scan

/-- What `HistogramBase::fromJson` can return. -/
inductive Histogram (D S T : Type) where
  | histo1d (h : Histo1d D)
  | histo2d (h : Histo2d D S)
  | histo3d (h : Histo3dT D T)

variable {D : Type} [Double D] {S T : Type} [Element D S] [Element D T]

def readBounds (j : Doc D) : Option (Nat × D × D) := do
  let bins ← (← j.find "Bins").toNat
  let low ← (← j.find "Low").toDouble
  let high ← (← j.find "High").toDouble
  return (bins, low, high)

/-- `HistogramBase::fromJson`, with a template for the status. -/
def HistogramBase.fromJson (j : Doc D) (ltemplate : LoopStatus) : Option (Histogram D S T) := do
  let lstatus ← statusFromJson j ltemplate
  let type ← (← j.find "Type").toString
  let name ← (← j.find "Name").toString
  let (xbins, xlow, xhigh) ← readBounds (← j.find "x")
  if type = "Histo1d" then
    return .histo1d (← (Histo1d.new name xbins xlow xhigh lstatus).fromJson j)
  else if type = "Histo2d" then
    let (ybins, ylow, yhigh) ← readBounds (← j.find "y")
    return .histo2d
      (← (Histo2d.new name xbins xlow xhigh ybins ylow yhigh lstatus : Histo2d D S).fromJson j)
  else if type = "Histo3d" then
    let (ybins, ylow, yhigh) ← readBounds (← j.find "y")
    let (zbins, zlow, zhigh) ← readBounds (← j.find "z")
    return .histo3d
      (← (Histo3dT.new name xbins xlow xhigh ybins ylow yhigh zbins zlow zhigh lstatus :
        Histo3dT D T).fromJson j)
  else none

theorem readBounds_axisDoc (title : String) (axis : Axis D) :
    readBounds (axisDoc title axis) = some (axis.bins, axis.low, axis.high) := by
  simp [readBounds, axisDoc, NameMap.find]

/-! ## One dimension -/

namespace Histo1d

/-- The document leads back to an equal histogram. -/
def ComesBack (S T : Type) [Element D S] [Element D T] (h : Histo1d D) (template : LoopStatus) :
    Prop :=
  ∃ h', (HistogramBase.fromJson h.toJson template : Option (Histogram D S T)) =
    some (.histo1d h') ∧ Equal h h'

theorem fromJson_eq {h : Histo1d D} (hreach : Reachable h) {template : LoopStatus}
    (hstyles : template.styleVec = h.lStat.styleVec) :
    ∃ h', (HistogramBase.fromJson h.toJson template : Option (Histogram D S T)) =
      some (.histo1d h') ∧ SameBut (sumOf h.data) h h' := by
  obtain ⟨stat, hstat, hpositions, hstyles'⟩ :=
    statusFromJson_eq hstyles h.find_loopStatus
  obtain ⟨htype, hname, hx, _⟩ := h.find_toJson
  refine ⟨{ h with lStat := stat, max := 0, min := 0, sum := sumOf h.data }, ?_,
    stat, 0, 0, ?_, rfl⟩
  · simp [HistogramBase.fromJson, hstat, htype, hname, hx, readBounds_axisDoc,
      fromJson_toJson hreach.wellformed stat]
  · rw [HistogramBase.position, hpositions, hstyles']

/-- Over exact numbers the sum shows, unless every bin has its middle at zero. -/
theorem comesBack_iff_exact {S T : Type} [Element ℝ S] [Element ℝ T] {h : Histo1d ℝ}
    (hreach : Reachable h) {template : LoopStatus}
    (hstyles : template.styleVec = h.lStat.styleVec) :
    h.ComesBack S T template ↔ h.sum = sumOf h.data ∨ h.Centered := by
  obtain ⟨h', hread, hsame⟩ := fromJson_eq (S := S) (T := T) hreach hstyles
  rw [← equal_iff_sum hreach hsame]
  constructor
  · intro ⟨h₂, hread₂, hequal⟩
    rw [hread] at hread₂
    cases hread₂
    exact hequal
  · intro hequal
    exact ⟨h', hread, hequal⟩

end Histo1d

/-! ## Two dimensions -/

namespace Histo2d

/-- The document leads back to an equal histogram. -/
def ComesBack (T : Type) [Element D T] (h : Histo2d D S) (template : LoopStatus) : Prop :=
  ∃ h', (HistogramBase.fromJson h.toJson template : Option (Histogram D S T)) =
    some (.histo2d h') ∧ Equal h h'

theorem comesBack_iff {h : Histo2d D S} (hreach : Reachable h) {template : LoopStatus}
    (hstyles : template.styleVec = h.lStat.styleVec) :
    ComesBack T h template ↔ ∀ n < h.size, h.isFilled n = some true ↔ 0 < h.getBin n := by
  have hwf := hreach.wellformed
  obtain ⟨stat, hstat, hpositions, hstyles'⟩ :=
    statusFromJson_eq hstyles h.find_loopStatus
  obtain ⟨htype, hname, hx, hy, _⟩ := h.find_toJson
  have hread : (HistogramBase.fromJson h.toJson template : Option (Histogram D S T)) =
      some (.histo2d { h with
        lStat := stat
        max := maxRead h.data
        min := 0
        m_isFilled := positive (D := D) h.data }) := by
    simp [HistogramBase.fromJson, hstat, htype, hname, hx, hy, readBounds_axisDoc,
      fromJson_toJson hwf stat]
  have hposition : h.position = (stat.statVec, stat.styleVec) := by
    rw [HistogramBase.position, hpositions, hstyles']
  have hflags : (positive (D := D) h.data).length = h.size := by
    rw [positive, List.length_map, hwf.length_data]
  rw [← filled_eq_positive_iff hwf, ← equal_iff_filled hwf hposition hflags]
  constructor
  · rintro ⟨h', hh', hequal⟩
    rw [hread] at hh'
    cases hh'
    exact hequal
  · intro hequal
    exact ⟨_, hread, hequal⟩

end Histo2d

/-! ## Three dimensions -/

namespace Histo3dT

/-- The document leads back to an equal histogram. -/
def ComesBack (S : Type) [Element D S] (h : Histo3dT D T) (template : LoopStatus) : Prop :=
  ∃ h', (HistogramBase.fromJson h.toJson template : Option (Histogram D S T)) =
    some (.histo3d h') ∧ Equal h h'

theorem comesBack_iff {h : Histo3dT D T} (hreach : Reachable h) {template : LoopStatus}
    (hstyles : template.styleVec = h.lStat.styleVec) :
    ComesBack S h template ↔ ∀ n < h.size, h.isFilled n = some true ↔
      Element.gt D (h.data.getD n (Zero.zero : T)) Zero.zero = true := by
  have hwf := hreach.wellformed
  obtain ⟨stat, hstat, hpositions, hstyles'⟩ :=
    statusFromJson_eq hstyles h.find_loopStatus
  obtain ⟨htype, hname, hx, hy, hz, _⟩ := h.find_toJson
  have hread : (HistogramBase.fromJson h.toJson template : Option (Histogram D S T)) =
      some (.histo3d { h with
        lStat := stat
        max := maxRead (D := D) h.data
        min := Zero.zero
        m_isFilled := positive (D := D) h.data }) := by
    simp [HistogramBase.fromJson, hstat, htype, hname, hx, hy, hz, readBounds_axisDoc,
      fromJson_toJson hwf stat]
  have hposition : h.position = (stat.statVec, stat.styleVec) := by
    rw [HistogramBase.position, hpositions, hstyles']
  have hflags : (positive (D := D) h.data).length = h.size := by
    rw [positive, List.length_map, hwf.length_data]
  rw [← filled_eq_positive_iff hwf, ← equal_iff_filled hwf hposition hflags]
  constructor
  · rintro ⟨h', hh', hequal⟩
    rw [hread] at hh'
    cases hh'
    exact hequal
  · intro hequal
    exact ⟨_, hread, hequal⟩

end Histo3dT

/-! ## Together -/

/-- A document leads back to an equal histogram if the flags stand at the positive bins, and in
one dimension if the sum of the entries is that of the bins. A copy is equal if its titles are the
first ones; in three dimensions it also needs to be without bins. -/
theorem rebuilt_equal_iff (D S T : Type) [Double D] [Element D S] [Element D T] :
    ((∀ h : Histo1d D, h.Reachable → ∀ template : LoopStatus,
        template.styleVec = h.lStat.styleVec → h.sum = Histo1d.sumOf h.data →
        h.ComesBack S T template) ∧
      (∀ h : Histo2d D S, h.Reachable →
        (∀ template : LoopStatus, template.styleVec = h.lStat.styleVec →
          (h.ComesBack T template ↔
            ∀ n < h.size, h.isFilled n = some true ↔ 0 < h.getBin n)) ∧
        (h.Equal h.copy ↔ h.DefaultTitles)) ∧
      (∀ h : Histo3dT D T, h.Reachable →
        (∀ template : LoopStatus, template.styleVec = h.lStat.styleVec →
          (h.ComesBack S template ↔
            ∀ n < h.size, h.isFilled n = some true ↔
              Element.gt D (h.data.getD n (Zero.zero : T)) Zero.zero = true)) ∧
        (h.Equal h.copy ↔
          h.size = 0 ∧ h.z = Histo3dT.copiedAxis h.z ∧ h.DefaultTitles))) ∧
    (∀ (S T : Type) [Element ℝ S] [Element ℝ T] (h : Histo1d ℝ), h.Reachable →
      ∀ template : LoopStatus, template.styleVec = h.lStat.styleVec →
        (h.ComesBack S T template ↔ h.sum = Histo1d.sumOf h.data ∨ h.Centered)) := by
  constructor
  · refine ⟨?_, ?_, ?_⟩
    · intro h hreach template hstyles hsum
      obtain ⟨h', hread, hsame⟩ := Histo1d.fromJson_eq (S := S) (T := T) hreach hstyles
      rw [← hsum] at hsame
      exact ⟨h', hread, Histo1d.equal_of_sameShown hsame⟩
    · intro h hreach
      exact ⟨fun template => Histo2d.comesBack_iff hreach, Histo2d.equal_copy_iff hreach.wellformed⟩
    · intro h hreach
      exact ⟨fun template => Histo3dT.comesBack_iff hreach,
        Histo3dT.equal_copy_iff hreach.wellformed⟩
  · intro S T _ _ h hreach template hstyles
    exact Histo1d.comesBack_iff_exact hreach hstyles

noncomputable instance : Element ℝ ℝ where
  gt x y := decide (y < x)
  toDouble x := x
  ofDouble x := x
  toDoc x := .double x
  ofDoc := Doc.toDouble
  ofDouble_toDouble _ := rfl
  ofDoc_toDoc _ := rfl

@[simp] theorem toDouble_real (x : ℝ) : (Element.toDouble x : ℝ) = x := rfl

@[simp] theorem ofDouble_real (x : ℝ) : (Element.ofDouble x : ℝ) = x := rfl

/-- One bin with a positive number, in one dimension and in two. -/
theorem rebuilt_equal_one :
    (((Histo1d.new "h" 1 (0 : ℝ) 1 .iterationEnd).setBin 0 1).ComesBack ℝ UInt16 .iterationEnd) ∧
    ((Histo2d.new "h" 1 (0 : ℝ) 1 1 0 1 .iterationEnd : Histo2d ℝ ℝ).setBin 0 1).ComesBack UInt16
      .iterationEnd := by
  constructor
  · apply (rebuilt_equal_iff ℝ ℝ UInt16).1.1 _ (.setBin _ 0 1 (.new "h" 1 0 1 .iterationEnd))
      .iterationEnd rfl
    simp [Histo1d.setBin, Histo1d.new, Histo1d.sumOf, Axis.of]
  · apply ((((rebuilt_equal_iff ℝ ℝ UInt16).1.2.1 _
      (.setBin _ 0 1 (.new "h" 1 0 1 1 0 1 .iterationEnd))).1 .iterationEnd rfl)).mpr
    intro n hn
    simp [Histo2d.setBin, Histo2d.new, Histo2d.size, Axis.of] at hn
    subst hn
    simp [Histo2d.setBin, Histo2d.new, Histo2d.size, Axis.of, Histo2d.isFilled, Histo2d.getBin]

/-- A bin that is set twice, a negative bin, and the copy of a histogram with one bin. -/
theorem rebuilt_differs :
    ¬(((Histo1d.new "h" 1 (0 : ℝ) 2 .iterationEnd).setBin 0 1).setBin 0 2).ComesBack ℝ UInt16
      .iterationEnd ∧
    ¬((Histo2d.new "h" 1 (0 : ℝ) 1 1 0 1 .iterationEnd : Histo2d ℝ ℝ).setBin 0 (-1)).ComesBack
      UInt16 .iterationEnd ∧
    ¬Histo3dT.Equal (.new "h" 1 (0 : ℝ) 1 1 0 1 1 0 1 .iterationEnd : Histo3dT ℝ UInt16)
      (Histo3dT.new "h" 1 (0 : ℝ) 1 1 0 1 1 0 1 .iterationEnd).copy := by
  refine ⟨?_, ?_, ?_⟩
  · intro hback
    have hreach : Histo1d.Reachable
        (((Histo1d.new "h" 1 (0 : ℝ) 2 .iterationEnd).setBin 0 1).setBin 0 2) :=
      .setBin _ 0 2 (.setBin _ 0 1 (.new "h" 1 0 2 .iterationEnd))
    rcases (Histo1d.comesBack_iff_exact hreach rfl).mp hback with hsum | hcentered
    · norm_num [Histo1d.setBin, Histo1d.new, Histo1d.sumOf, Axis.of] at hsum
    · have hcenter := hcentered 0 (by decide)
      norm_num [Histo1d.setBin, Histo1d.new, Histo1d.center, Axis.of] at hcenter
  · intro hback
    have hreach : Histo2d.Reachable
        ((Histo2d.new "h" 1 (0 : ℝ) 1 1 0 1 .iterationEnd : Histo2d ℝ ℝ).setBin 0 (-1)) :=
      .setBin _ 0 (-1) (.new "h" 1 0 1 1 0 1 .iterationEnd)
    have hbin := (Histo2d.comesBack_iff hreach rfl).mp hback 0 (by decide)
    norm_num [Histo2d.setBin, Histo2d.new, Histo2d.size, Axis.of, Histo2d.isFilled,
      Histo2d.getBin] at hbin
  · rw [Histo3dT.equal_copy_iff
      (Histo3dT.Reachable.new "h" 1 (0 : ℝ) 1 1 0 1 1 0 1 .iterationEnd).wellformed]
    intro h
    exact absurd h.1 (by decide)

end Yarr.Histo
