import Mathlib.Analysis.Convex.Combination
import Yarr.Histo.Binning

/-!
# What is kept beside the bins

The sum and the number of the entries are kept beside the bins, and mean and
deviation rest on both. Each change is right about them under a condition of
its own.
-/

namespace Yarr.Histo

/-- The distance of the first edge from the middle of a bin numbered from 1. -/
noncomputable def half : ℝ := 1 / 2

/-- The middle of a bin. -/
noncomputable def Axis.middle (axis : Axis ℝ) (i : Nat) : ℝ :=
  axis.low + (i + 1 / 2) * ((axis.high - axis.low) / axis.bins)

namespace Histo1d

/-! ## The changes -/

section Changes

variable {D : Type} [Double D]

/-- `add` with the histogram itself, whose bins are read again when they are changed. -/
def addSelf (h : Histo1d D) : Histo1d D :=
  { h with
    data := h.data.map fun d => d + d
    sum := (List.range h.x.bins).foldl (fun sum i => sum + (h.getBin i + h.getBin i)) h.sum
    entries := h.entries + h.entries
    overflow := h.overflow + h.overflow
    underflow := h.underflow + h.underflow }

inductive Change (D : Type) where
  | fill (x v : D)
  | setBin (n : Nat) (v : D)
  | add (other : Histo1d D)
  | addSelf
  | scale (s : D)
  | fromJson (j : Doc D)

def change (h : Histo1d D) : Change D → Option (Histo1d D)
  | .fill x v => h.fill x v
  | .setBin n v => some (h.setBin n v)
  | .add other => some (h.add other)
  | .addSelf => some h.addSelf
  | .scale s => some (h.scale s)
  | .fromJson j => h.fromJson j

def run (h : Histo1d D) : List (Change D) → Option (Histo1d D)
  | [] => some h
  | c :: cs => (h.change c).bind fun h' => h'.run cs

/-- The condition is met before every change of the run. -/
def Throughout (P : Histo1d D → Change D → Prop) (h : Histo1d D) : List (Change D) → Prop
  | [] => True
  | c :: cs => P h c ∧ ∀ h', h.change c = some h' → Throughout P h' cs

end Changes

/-! ## What is to hold -/

/-- The sum of the bins. -/
noncomputable def content (h : Histo1d ℝ) : ℝ := ∑ i ∈ Finset.range h.x.bins, h.getBin i

/-- Sum, mean and deviation are those of the bins. -/
structure Derived (h : Histo1d ℝ) : Prop where
  sum_eq : h.sum = h.content
  mean : h.content ≠ 0 → h.getMean = (Finset.range h.x.bins).centerMass h.getBin h.x.middle
  stdDev : h.content ≠ 0 → h.getStdDev = √((Finset.range h.x.bins).centerMass h.getBin
    fun i => (h.x.middle i - h.getMean) ^ 2)
  inRange : (∀ i < h.x.bins, 0 ≤ h.getBin i) → (∃ i < h.x.bins, h.getBin i ≠ 0) →
    h.getMean ∈ Set.uIcc h.x.low h.x.high
  zero : h.content = 0 → h.getMean = 0 ∧ h.getStdDev = 0
  zero_only : (∀ i < h.x.bins, 0 ≤ h.getBin i) → h.getMean = 0 → h.getStdDev = 0 →
    h.content = 0 ∨ ∀ i < h.x.bins, h.getBin i ≠ 0 → h.x.middle i = 0

/-! ## When a change is right -/

/-- What a document says about the bins. -/
structure Tells (j : Doc ℝ) (axis : Axis ℝ) (entries : Nat) (data : List ℝ) : Prop where
  axis_eq : axis = .of axis.bins axis.low axis.high
  bounds : (j.find "x").bind readBounds = some (axis.bins, axis.low, axis.high)
  entries : (j.find "Entries").bind Doc.toNat = some entries
  data : readData j axis.bins = some data

/-- The entries do not come round to zero unless the bins sum up to zero. -/
def Room (h : Histo1d ℝ) (more : UInt32) (v : ℝ) : Prop :=
  h.entries + more = 0 → h.content + v = 0

/-- Only empty bins are set, a histogram is not added to itself, and a document has bins of the
width that there was before. -/
def Fits (h : Histo1d ℝ) : Change ℝ → Prop
  | .fill x v => h.x.low ≤ x → x < h.x.high → h.Room 1 v
  | .setBin n v => (if n < h.x.bins then h.getBin n = 0 else v = 0) ∧ h.Room 1 v
  | .add other => other.x.bins = h.x.bins → h.Room other.entries other.content
  | .addSelf => h.content = 0
  | .scale _ => True
  | .fromJson j => ∀ axis entries data, Tells j axis entries data →
      axis.binWidth = h.x.binWidth ∧ (UInt32.ofNat entries = 0 → sumOf data = 0)

/-- The invariant. -/
structure Kept (h : Histo1d ℝ) : Prop where
  wellformed : h.Wellformed
  sum_eq : h.sum = h.content
  entries : h.entries = 0 → h.content = 0

theorem content_congr {h h' : Histo1d ℝ} (haxis : h'.x = h.x)
    (hget : ∀ i < h.x.bins, h'.getBin i = h.getBin i) : h'.content = h.content := by
  unfold content
  rw [haxis]
  exact Finset.sum_congr rfl fun i hi => hget i (Finset.mem_range.mp hi)

theorem content_of_more {h h' : Histo1d ℝ} {n : Nat} {v : ℝ} (haxis : h'.x = h.x)
    (hn : n < h.x.bins)
    (hget : ∀ i < h.x.bins, h'.getBin i = h.getBin i + if i = n then v else 0) :
    h'.content = h.content + v := by
  unfold content
  rw [haxis, Finset.sum_congr rfl fun i hi => hget i (Finset.mem_range.mp hi),
    Finset.sum_add_distrib]
  simp [hn]

/-! ## Mean and deviation of kept histograms -/

namespace Kept

variable {h : Histo1d ℝ}

theorem center_eq (hkept : h.Kept) (i : Nat) : h.center i = h.x.middle i := by
  have hwidth : h.x.binWidth = (h.x.high - h.x.low) / h.x.bins := by
    rw [hkept.wellformed.axis]
    rfl
  unfold center Axis.middle
  rw [hwidth]
  push_cast
  ring

theorem foldl_bins (f : Nat → ℝ) :
    (List.range h.x.bins).foldl (fun s i => s + h.data.getD i 0 * f i) 0 =
      ∑ i ∈ Finset.range h.x.bins, h.getBin i * f i := by
  rw [foldl_eq_sum, zero_add]
  apply Finset.sum_congr rfl
  intro i hi
  rw [getBin, if_pos (Finset.mem_range.mp hi)]

theorem total_eq : h.total = h.content := by
  unfold total content
  rw [foldl_eq_sum, zero_add]
  apply Finset.sum_congr rfl
  intro i hi
  rw [getBin, if_pos (Finset.mem_range.mp hi)]

theorem centerMass_eq (f : Nat → ℝ) : (Finset.range h.x.bins).centerMass h.getBin f =
    (∑ i ∈ Finset.range h.x.bins, h.getBin i * f i) / h.content := by
  unfold Finset.centerMass content
  simp only [smul_eq_mul]
  rw [mul_comm, div_eq_mul_inv]

theorem busy (hkept : h.Kept) (hcontent : h.content ≠ 0) :
    ¬(Double.eqZero h.sum || h.entries == 0) = true := by
  have hentries : h.entries ≠ 0 := fun hzero => hcontent (hkept.entries hzero)
  simp [eqZero_iff, hkept.sum_eq, hcontent, hentries]

theorem getMean_eq (hkept : h.Kept) (hcontent : h.content ≠ 0) :
    h.getMean = (Finset.range h.x.bins).centerMass h.getBin h.x.middle := by
  have htotal : ¬Double.eqZero h.total = true := by
    rw [eqZero_iff, total_eq]
    exact hcontent
  rw [getMean, if_neg (hkept.busy hcontent), if_neg htotal, centerMass_eq, total_eq]
  unfold weighted_sum
  rw [foldl_bins, Finset.sum_congr rfl fun i _ => by rw [hkept.center_eq i]]

theorem getStdDev_eq (hkept : h.Kept) (hcontent : h.content ≠ 0) :
    h.getStdDev = √((Finset.range h.x.bins).centerMass h.getBin
      fun i => (h.x.middle i - h.getMean) ^ 2) := by
  rw [getStdDev, if_neg (hkept.busy hcontent), centerMass_eq]
  show √(_ / h.sum) = _
  rw [hkept.sum_eq]
  congr 2
  rw [← foldl_bins fun i => (h.x.middle i - h.getMean) ^ 2]
  simp only [hkept.center_eq]
  rfl

theorem zero (hkept : h.Kept) (hcontent : h.content = 0) : h.getMean = 0 ∧ h.getStdDev = 0 := by
  have hsum : Double.eqZero h.sum = true := by
    rw [eqZero_iff, hkept.sum_eq, hcontent]
  constructor
  · rw [getMean, if_pos (by rw [hsum]; rfl)]
  · rw [getStdDev, if_pos (by rw [hsum]; rfl)]

/-- Bins that are not negative sum up to zero only if they are all empty. -/
theorem content_pos (hnonneg : ∀ i < h.x.bins, 0 ≤ h.getBin i)
    (hfilled : ∃ i < h.x.bins, h.getBin i ≠ 0) : 0 < h.content := by
  obtain ⟨i, hi, hne⟩ := hfilled
  apply Finset.sum_pos'
  · intro j hj
    exact hnonneg j (Finset.mem_range.mp hj)
  · exact ⟨i, Finset.mem_range.mpr hi, lt_of_le_of_ne (hnonneg i hi) hne.symm⟩

theorem middle_mem {axis : Axis ℝ} {i : Nat} (hi : i < axis.bins) :
    axis.middle i ∈ Set.uIcc axis.low axis.high := by
  have hbins : (0 : ℝ) < axis.bins := by exact_mod_cast Nat.zero_lt_of_lt hi
  have hpart : axis.middle i = AffineMap.lineMap axis.low axis.high
      (((i : ℝ) + 1 / 2) / axis.bins) := by
    rw [AffineMap.lineMap_apply_ring', Axis.middle]
    ring
  have hcast : (i : ℝ) + 1 ≤ axis.bins := by exact_mod_cast hi
  rw [hpart, ← segment_eq_uIcc, segment_eq_image_lineMap]
  refine ⟨_, ⟨by positivity, ?_⟩, rfl⟩
  rw [div_le_one hbins]
  linarith

theorem inRange (hkept : h.Kept) (hnonneg : ∀ i < h.x.bins, 0 ≤ h.getBin i)
    (hfilled : ∃ i < h.x.bins, h.getBin i ≠ 0) : h.getMean ∈ Set.uIcc h.x.low h.x.high := by
  have hpos := content_pos hnonneg hfilled
  rw [hkept.getMean_eq hpos.ne']
  apply (convex_uIcc h.x.low h.x.high).centerMass_mem
  · intro i hi
    exact hnonneg i (Finset.mem_range.mp hi)
  · exact hpos
  · intro i hi
    exact middle_mem (Finset.mem_range.mp hi)

theorem zero_only (hkept : h.Kept) (hnonneg : ∀ i < h.x.bins, 0 ≤ h.getBin i)
    (hmean : h.getMean = 0) (hdev : h.getStdDev = 0) :
    h.content = 0 ∨ ∀ i < h.x.bins, h.getBin i ≠ 0 → h.x.middle i = 0 := by
  by_cases hcontent : h.content = 0
  · exact Or.inl hcontent
  · right
    have hcontent_pos : 0 < h.content :=
      lt_of_le_of_ne (Finset.sum_nonneg fun i hi => hnonneg i (Finset.mem_range.mp hi))
        (Ne.symm hcontent)
    have hterm : ∀ i ∈ Finset.range h.x.bins,
        0 ≤ h.getBin i * (h.x.middle i - h.getMean) ^ 2 := by
      intro i hi
      exact mul_nonneg (hnonneg i (Finset.mem_range.mp hi)) (sq_nonneg _)
    rw [hkept.getStdDev_eq hcontent, centerMass_eq, Real.sqrt_eq_zero
      (div_nonneg (Finset.sum_nonneg hterm) hcontent_pos.le), div_eq_zero_iff,
      or_iff_left hcontent, Finset.sum_eq_zero_iff_of_nonneg hterm] at hdev
    intro i hi hne
    have hzero := hdev i (Finset.mem_range.mpr hi)
    rw [hmean, sub_zero, mul_eq_zero, or_iff_right hne] at hzero
    exact pow_eq_zero_iff two_ne_zero |>.mp hzero

theorem derived (hkept : h.Kept) : h.Derived where
  sum_eq := hkept.sum_eq
  mean := hkept.getMean_eq
  stdDev := hkept.getStdDev_eq
  inRange := hkept.inRange
  zero := hkept.zero
  zero_only := hkept.zero_only

end Kept

/-! ## One change -/

theorem getBin_eq (h : Histo1d ℝ) {i : Nat} (hi : i < h.x.bins) : h.getBin i = h.data.getD i 0 :=
  if_pos hi

theorem Kept.more {h h' : Histo1d ℝ} (hkept : h.Kept) {n : Nat} {v : ℝ} (haxis : h'.x = h.x)
    (hlength : h'.data.length = h.data.length) (hn : n < h.x.bins)
    (hget : ∀ i < h.x.bins, h'.getBin i = h.getBin i + if i = n then v else 0)
    (hsum : h'.sum = h.sum + v) (hentries : h'.entries = h.entries + 1) (hroom : h.Room 1 v) :
    h'.Kept := by
  have hcontent := content_of_more haxis hn hget
  refine ⟨⟨?_, ?_⟩, ?_, ?_⟩
  · rw [hlength, haxis, hkept.wellformed.length_data]
  · rw [haxis]
    exact hkept.wellformed.axis
  · rw [hsum, hcontent, hkept.sum_eq]
  · intro hzero
    rw [hcontent]
    exact hroom (hentries ▸ hzero)

theorem Kept.same {h h' : Histo1d ℝ} (hkept : h.Kept) (haxis : h'.x = h.x)
    (hdata : h'.data = h.data) (hsum : h'.sum = h.sum)
    (hentries : h'.entries = 0 → h.content = 0) : h'.Kept := by
  have hcontent : h'.content = h.content := by
    apply content_congr haxis
    intro i hi
    rw [getBin_eq h' (haxis ▸ hi), getBin_eq h hi, hdata]
  refine ⟨⟨?_, ?_⟩, ?_, ?_⟩
  · rw [hdata, haxis, hkept.wellformed.length_data]
  · rw [haxis]
    exact hkept.wellformed.axis
  · rw [hsum, hcontent, hkept.sum_eq]
  · rw [hcontent]
    exact hentries

theorem kept_fill {h h' : Histo1d ℝ} {x v : ℝ} (hkept : h.Kept) (hfits : h.Fits (.fill x v))
    (hfill : h.fill x v = some h') : h'.Kept := by
  unfold fill at hfill
  by_cases hlow : x < h.x.low
  · rw [if_pos hlow] at hfill
    cases hfill
    exact hkept.same rfl rfl rfl hkept.entries
  · by_cases hhigh : h.x.high ≤ x
    · rw [if_neg hlow, if_pos hhigh] at hfill
      cases hfill
      exact hkept.same rfl rfl rfl hkept.entries
    · rw [if_neg hlow, if_neg hhigh] at hfill
      dsimp only at hfill
      generalize Double.toUnsigned ((x - h.x.low) / h.x.binWidth) = bin at hfill
      by_cases hbin : bin < h.data.length
      · rw [if_pos hbin] at hfill
        cases hfill
        have hroom := hfits (not_lt.mp hlow) (not_le.mp hhigh)
        refine hkept.more rfl (List.length_modify _ _ _) (hkept.wellformed.length_data ▸ hbin) ?_
          rfl rfl hroom
        intro i hi
        show (if i < h.x.bins then (h.data.modify bin (· + v)).getD i 0 else 0) = _
        rw [if_pos hi, getBin_eq h hi]
        simp only [List.getD_eq_getElem?_getD, List.getElem?_modify]
        have hlt : i < h.data.length := hkept.wellformed.length_data ▸ hi
        by_cases heq : bin = i
        · subst heq
          simp [hlt]
        · simp [heq, Ne.symm heq, hlt]
      · rw [if_neg hbin] at hfill
        cases hfill

theorem kept_setBin {h : Histo1d ℝ} {n : Nat} {v : ℝ} (hkept : h.Kept)
    (hfits : h.Fits (.setBin n v)) : (h.setBin n v).Kept := by
  obtain ⟨hempty, hroom⟩ := hfits
  by_cases hn : n < h.x.bins
  · rw [if_pos hn] at hempty
    have hlt : n < h.data.length := hkept.wellformed.length_data ▸ hn
    apply hkept.more (h.axis_setBin n v).1 (h.axis_setBin n v).2 hn ?_
      (by simp [setBin, hn]) (by simp [setBin, hn]) hroom
    intro i hi
    have hset : (h.setBin n v).data = h.data.set n v := by simp [setBin, hn]
    have hi' : i < (h.setBin n v).x.bins := (h.axis_setBin n v).1 ▸ hi
    rw [getBin_eq _ hi', hset]
    by_cases heq : i = n
    · subst heq
      rw [hempty]
      simp [List.getD_eq_getElem?_getD, hlt]
    · rw [getBin_eq h hi, if_neg heq, add_zero, List.getD_eq_getElem?_getD,
        List.getElem?_set_ne (Ne.symm heq), List.getD_eq_getElem?_getD]
  · rw [if_neg hn] at hempty
    subst hempty
    apply hkept.same (h.axis_setBin n 0).1
    · simp [setBin, hn]
    · simp [setBin, hn]
    · intro hzero
      rw [← add_zero h.content]
      apply hroom
      simpa [setBin, hn] using hzero

theorem kept_add {h other : Histo1d ℝ} (hkept : h.Kept) (hfits : h.Fits (.add other)) :
    (h.add other).Kept := by
  by_cases hbins : other.x.bins = h.x.bins
  · obtain ⟨hsum, hentries, hdata⟩ := add_spec hkept.wellformed hbins
    have haxis := (h.axis_add other).1
    have hother : other.content = ∑ i ∈ Finset.range h.x.bins, other.getBin i := by
      unfold content
      rw [hbins]
    have hcontent : (h.add other).content = h.content + other.content := by
      rw [hother]
      unfold content
      rw [haxis, ← Finset.sum_add_distrib]
      apply Finset.sum_congr rfl
      intro i hi
      have hlt := Finset.mem_range.mp hi
      rw [getBin_eq (h.add other) (haxis ▸ hlt), hdata i hlt, getBin_eq h hlt]
    refine ⟨⟨?_, ?_⟩, ?_, ?_⟩
    · rw [(h.axis_add other).2, haxis, hkept.wellformed.length_data]
    · rw [haxis]
      exact hkept.wellformed.axis
    · rw [hsum, hcontent, hkept.sum_eq, hother]
    · intro hzero
      rw [hcontent]
      exact hfits hbins (hentries ▸ hzero)
  · have hsame : h.add other = h := by
      unfold add
      exact if_pos hbins
    rw [hsame]
    exact hkept

theorem kept_addSelf {h : Histo1d ℝ} (hkept : h.Kept) (hfits : h.Fits .addSelf) :
    h.addSelf.Kept := by
  have hzero : h.content = 0 := hfits
  have hcontent : h.addSelf.content = h.content + h.content := by
    unfold content
    rw [← Finset.sum_add_distrib]
    apply Finset.sum_congr rfl
    intro i hi
    have hlt := Finset.mem_range.mp hi
    have hlength : i < h.data.length := hkept.wellformed.length_data ▸ hlt
    rw [getBin_eq h.addSelf hlt, getBin_eq h hlt]
    simp [addSelf, List.getD_eq_getElem?_getD, hlength]
  refine ⟨⟨?_, hkept.wellformed.axis⟩, ?_, ?_⟩
  · exact (List.length_map _).trans hkept.wellformed.length_data
  · show List.foldl _ _ _ = _
    rw [foldl_eq_sum, Finset.sum_add_distrib, hkept.sum_eq, hcontent]
    show h.content + (h.content + h.content) = _
    rw [hzero]
    simp
  · intro _
    rw [hcontent, hzero, add_zero]

theorem kept_scale {h : Histo1d ℝ} (hkept : h.Kept) (s : ℝ) : (h.scale s).Kept := by
  have hcontent : (h.scale s).content = h.content * s := by
    unfold content
    rw [Finset.sum_mul]
    apply Finset.sum_congr rfl
    intro i hi
    have hlt := Finset.mem_range.mp hi
    have hlength : i < h.data.length := hkept.wellformed.length_data ▸ hlt
    rw [getBin_eq (h.scale s) hlt, getBin_eq h hlt]
    simp [scale, List.getD_eq_getElem?_getD, hlength]
  refine ⟨⟨?_, hkept.wellformed.axis⟩, ?_, ?_⟩
  · exact (List.length_map _).trans hkept.wellformed.length_data
  · show h.sum * s = _
    rw [hcontent, hkept.sum_eq]
  · intro hzero
    rw [hcontent, hkept.entries hzero, zero_mul]

theorem length_of_mapM {α β : Type} {f : α → Option β} {l : List α} {l' : List β}
    (hmap : l.mapM f = some l') : l'.length = l.length := by
  induction l generalizing l' with
  | nil =>
      cases hmap
      rfl
  | cons a l ih =>
      rw [List.mapM_cons] at hmap
      obtain ⟨b, _, hmap⟩ := Option.bind_eq_some_iff.mp hmap
      obtain ⟨rest, hrest, hmap⟩ := Option.bind_eq_some_iff.mp hmap
      cases hmap
      rw [List.length_cons, List.length_cons, ih hrest]

theorem readBounds_of_readAxis {before x : Axis ℝ} {j : Doc ℝ} {title : String}
    (hread : readAxis before j = some (title, x)) :
    readBounds j = some (x.bins, x.low, x.high) ∧ x.binWidth = before.binWidth := by
  unfold readAxis at hread
  obtain ⟨_, _, hread⟩ := Option.bind_eq_some_iff.mp hread
  obtain ⟨_, _, hread⟩ := Option.bind_eq_some_iff.mp hread
  obtain ⟨binsDoc, hbinsDoc, hread⟩ := Option.bind_eq_some_iff.mp hread
  obtain ⟨bins, hbins, hread⟩ := Option.bind_eq_some_iff.mp hread
  obtain ⟨lowDoc, hlowDoc, hread⟩ := Option.bind_eq_some_iff.mp hread
  obtain ⟨low, hlow, hread⟩ := Option.bind_eq_some_iff.mp hread
  obtain ⟨highDoc, hhighDoc, hread⟩ := Option.bind_eq_some_iff.mp hread
  obtain ⟨high, hhigh, hread⟩ := Option.bind_eq_some_iff.mp hread
  cases hread
  refine ⟨?_, rfl⟩
  simp [readBounds, hbinsDoc, hbins, hlowDoc, hlow, hhighDoc, hhigh]

theorem fromJson_tells {h h' : Histo1d ℝ} {j : Doc ℝ} (hjson : h.fromJson j = some h') :
    ∃ axis entries data, Tells j axis entries data ∧ data.length = axis.bins ∧
      h'.x = { axis with binWidth := h.x.binWidth } ∧ h'.data = data ∧ h'.sum = sumOf data ∧
      h'.entries = UInt32.ofNat entries := by
  unfold fromJson at hjson
  obtain ⟨_, _, hjson⟩ := Option.bind_eq_some_iff.mp hjson
  obtain ⟨_, _, hjson⟩ := Option.bind_eq_some_iff.mp hjson
  obtain ⟨doc, hdoc, hjson⟩ := Option.bind_eq_some_iff.mp hjson
  obtain ⟨⟨_, x⟩, hread, hjson⟩ := Option.bind_eq_some_iff.mp hjson
  obtain ⟨_, _, hjson⟩ := Option.bind_eq_some_iff.mp hjson
  obtain ⟨_, _, hjson⟩ := Option.bind_eq_some_iff.mp hjson
  obtain ⟨_, _, hjson⟩ := Option.bind_eq_some_iff.mp hjson
  obtain ⟨_, _, hjson⟩ := Option.bind_eq_some_iff.mp hjson
  obtain ⟨_, _, hjson⟩ := Option.bind_eq_some_iff.mp hjson
  obtain ⟨_, _, hjson⟩ := Option.bind_eq_some_iff.mp hjson
  obtain ⟨_, _, hjson⟩ := Option.bind_eq_some_iff.mp hjson
  obtain ⟨_, _, hjson⟩ := Option.bind_eq_some_iff.mp hjson
  obtain ⟨_, _, hjson⟩ := Option.bind_eq_some_iff.mp hjson
  obtain ⟨_, _, hjson⟩ := Option.bind_eq_some_iff.mp hjson
  obtain ⟨entriesDoc, hfind, hjson⟩ := Option.bind_eq_some_iff.mp hjson
  obtain ⟨entries, hentries, hjson⟩ := Option.bind_eq_some_iff.mp hjson
  obtain ⟨data, hdata, hjson⟩ := Option.bind_eq_some_iff.mp hjson
  cases hjson
  obtain ⟨hbounds, hwidth⟩ := readBounds_of_readAxis hread
  refine ⟨.of x.bins x.low x.high, entries, data, ⟨rfl, ?_, ?_, hdata⟩, ?_, ?_, rfl, rfl, rfl⟩
  · rw [hdoc]
    exact hbounds
  · rw [hfind]
    exact hentries
  · rw [length_of_mapM hdata, List.length_range]
    rfl
  · show x = _
    rw [← hwidth]
    rfl

theorem kept_fromJson {h h' : Histo1d ℝ} {j : Doc ℝ} (hfits : h.Fits (.fromJson j))
    (hjson : h.fromJson j = some h') : h'.Kept := by
  obtain ⟨axis, entries, data, htells, hlength, hx, hdata, hsum, hentries⟩ := fromJson_tells hjson
  obtain ⟨hwidth, hroom⟩ := hfits axis entries data htells
  have haxis : h'.x = axis := by
    rw [hx, ← hwidth]
  have hcontent : h'.content = sumOf data := by
    rw [sumOf_eq_sum, hlength]
    unfold content
    rw [haxis]
    apply Finset.sum_congr rfl
    intro i hi
    rw [getBin_eq h' (haxis ▸ Finset.mem_range.mp hi), hdata]
  refine ⟨⟨?_, ?_⟩, ?_, ?_⟩
  · rw [hdata, haxis, hlength]
  · rw [haxis]
    exact htells.axis_eq
  · rw [hsum, hcontent]
  · intro hzero
    rw [hcontent]
    exact hroom (hentries ▸ hzero)

theorem kept_change {h h' : Histo1d ℝ} {c : Change ℝ} (hkept : h.Kept) (hfits : h.Fits c)
    (hchange : h.change c = some h') : h'.Kept := by
  cases c with
  | fill x v => exact kept_fill hkept hfits hchange
  | setBin n v =>
      cases hchange
      exact kept_setBin hkept hfits
  | add other =>
      cases hchange
      exact kept_add hkept hfits
  | addSelf =>
      cases hchange
      exact kept_addSelf hkept hfits
  | scale s =>
      cases hchange
      exact kept_scale hkept s
  | fromJson j => exact kept_fromJson hfits hchange

theorem kept_run {h h' : Histo1d ℝ} (cs : List (Change ℝ)) (hkept : h.Kept)
    (hfits : h.Throughout Fits cs) (hrun : h.run cs = some h') : h'.Kept := by
  induction cs generalizing h with
  | nil =>
      cases hrun
      exact hkept
  | cons c cs ih =>
      obtain ⟨h₁, hchange, hrun⟩ := Option.bind_eq_some_iff.mp hrun
      exact ih (kept_change hkept hfits.1 hchange) (hfits.2 h₁ hchange) hrun

theorem kept_new (name : String) (bins : Nat) (low high : ℝ) (stat : Scan.LoopStatus) :
    (new name bins low high stat).Kept := by
  have hcontent : (new name bins low high stat).content = 0 := by
    apply Finset.sum_eq_zero
    intro i hi
    have hlt : i < bins := Finset.mem_range.mp hi
    rw [getBin_eq _ hlt]
    simp [new, List.getD_eq_getElem?_getD, hlt]
  exact ⟨(Reachable.new name bins low high stat).wellformed, hcontent.symm, fun _ => hcontent⟩

end Histo1d

end Yarr.Histo
