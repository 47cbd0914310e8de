import Mathlib.Data.List.Count
import Mathlib.Tactic.FieldSimp
import Mathlib.Tactic.Linarith
import Yarr.Scan.OccupancyLaws

/-!
# Masks that are painted pixel by pixel

An analysis goes over all pixels, enters a value into a map for some of them, and
has some of them masked. Pixels count from one in the maps and from zero in the
calls.
-/

namespace Yarr.Scan

open OccupancyScan (binAt setAt)

/-! ## The bins of a matrix -/

/-- The axes of the maps of a matrix. -/
structure OnMatrix (nCol nRow : Nat) (h : Histo2d) : Prop where
  xbins : h.xbins = nCol
  xlow : h.xlow = 1 / 2
  xhigh : h.xhigh = nCol + 1 / 2
  ybins : h.ybins = nRow
  ylow : h.ylow = 1 / 2
  yhigh : h.yhigh = nRow + 1 / 2

variable {nCol nRow : Nat}

theorem onMatrix_emptyMap : OnMatrix nCol nRow (emptyMap nCol nRow) :=
  ⟨rfl, rfl, rfl, rfl, rfl, rfl⟩

theorem OnMatrix.size {h : Histo2d} (hmatrix : OnMatrix nCol nRow h) : h.size = nCol * nRow := by
  unfold Histo2d.size
  rw [hmatrix.xbins, hmatrix.ybins]

theorem OnMatrix.add {h : Histo2d} (hmatrix : OnMatrix nCol nRow h) (other : Histo2d) :
    OnMatrix nCol nRow (h.add other) := by
  unfold Histo2d.add
  split
  · exact ⟨hmatrix.xbins, hmatrix.xlow, hmatrix.xhigh, hmatrix.ybins, hmatrix.ylow, hmatrix.yhigh⟩
  · exact hmatrix

theorem OnMatrix.scale {h : Histo2d} (hmatrix : OnMatrix nCol nRow h) (s : ℚ) :
    OnMatrix nCol nRow (h.scale s) :=
  ⟨hmatrix.xbins, hmatrix.xlow, hmatrix.xhigh, hmatrix.ybins, hmatrix.ylow, hmatrix.yhigh⟩

theorem OnMatrix.setBin {h : Histo2d} (hmatrix : OnMatrix nCol nRow h) (n : Nat) (v : ℚ) :
    OnMatrix nCol nRow (h.setBin n v) := by
  unfold Histo2d.setBin
  split
  · exact ⟨hmatrix.xbins, hmatrix.xlow, hmatrix.xhigh, hmatrix.ybins, hmatrix.ylow, hmatrix.yhigh⟩
  · exact hmatrix

/-- The bin of a pixel. -/
def matrixBin (nCol : Nat) (p : Nat × Nat) : Nat := (p.1 - 1) + (p.2 - 1) * nCol

/-- A pixel, counted from one. -/
def InMatrix (nCol nRow : Nat) (p : Nat × Nat) : Prop :=
  (1 ≤ p.1 ∧ p.1 ≤ nCol) ∧ (1 ≤ p.2 ∧ p.2 ≤ nRow)

theorem floor_bin {n m : Nat} (hn : 1 ≤ n) (hm : n ≤ m) :
    (((n : ℚ) - 1 / 2) / (((m : ℚ) + 1 / 2 - 1 / 2) / m)).floor.toNat = n - 1 := by
  have hpos : (m : ℚ) ≠ 0 := by
    have hm' : m ≠ 0 := by omega
    exact_mod_cast hm'
  have hwidth : ((m : ℚ) + 1 / 2 - 1 / 2) / m = 1 := by
    rw [add_sub_cancel_right, div_self hpos]
  have hcast : ((n - 1 : Nat) : ℚ) = n - 1 := by
    rw [Nat.cast_sub hn, Nat.cast_one]
  have hfloor : ((n : ℚ) - 1 / 2).floor = ((n - 1 : Nat) : Int) := by
    have hbounds : (((n - 1 : Nat) : Int) : ℚ) ≤ n - 1 / 2 ∧
        (n : ℚ) - 1 / 2 < (((n - 1 : Nat) : Int) : ℚ) + 1 := by
      rw [Int.cast_natCast, hcast]
      exact ⟨by linarith, by linarith⟩
    exact Int.floor_eq_iff.mpr hbounds
  rw [hwidth, div_one, hfloor, Int.toNat_natCast]

theorem OnMatrix.binNum {h : Histo2d} (hmatrix : OnMatrix nCol nRow h) {p : Nat × Nat}
    (hp : InMatrix nCol nRow p) : h.binNum p.1 p.2 = some (matrixBin nCol p) := by
  obtain ⟨⟨hcol, hcol'⟩, ⟨hrow, hrow'⟩⟩ := hp
  have hx : (1 : ℚ) ≤ p.1 := by exact_mod_cast hcol
  have hx' : (p.1 : ℚ) ≤ nCol := by exact_mod_cast hcol'
  have hy : (1 : ℚ) ≤ p.2 := by exact_mod_cast hrow
  have hy' : (p.2 : ℚ) ≤ nRow := by exact_mod_cast hrow'
  have hlow : ¬((p.1 : ℚ) < 1 / 2 ∨ (p.2 : ℚ) < 1 / 2) := by
    rintro (hlt | hlt)
    · linarith
    · linarith
  have hhigh : ¬((nCol : ℚ) + 1 / 2 < p.1 ∨ (nRow : ℚ) + 1 / 2 < p.2) := by
    rintro (hlt | hlt)
    · linarith
    · linarith
  unfold Histo2d.binNum Histo2d.index Histo2d.xbinWidth Histo2d.ybinWidth
  rw [hmatrix.xlow, hmatrix.ylow, hmatrix.xhigh, hmatrix.yhigh, hmatrix.xbins, hmatrix.ybins,
    if_neg hlow, if_neg hhigh, floor_bin hcol hcol', floor_bin hrow hrow']
  rfl

theorem matrixBin_lt {p : Nat × Nat} (hp : InMatrix nCol nRow p) :
    matrixBin nCol p < nCol * nRow := by
  obtain ⟨⟨hcol, hcol'⟩, ⟨hrow, hrow'⟩⟩ := hp
  have hmul : (p.2 - 1 + 1) * nCol ≤ nRow * nCol := Nat.mul_le_mul_right _ (by omega)
  rw [Nat.succ_mul] at hmul
  unfold matrixBin
  rw [Nat.mul_comm nCol nRow]
  omega

theorem matrixBin_inj {p q : Nat × Nat} (hp : InMatrix nCol nRow p) (hq : InMatrix nCol nRow q)
    (heq : matrixBin nCol p = matrixBin nCol q) : p = q := by
  obtain ⟨⟨hcol, hcol'⟩, ⟨hrow, hrow'⟩⟩ := hp
  obtain ⟨⟨hcolq, hcolq'⟩, ⟨hrowq, hrowq'⟩⟩ := hq
  have hpos : 0 < nCol := by omega
  have hmod := congrArg (· % nCol) heq
  have hdiv := congrArg (· / nCol) heq
  simp only [matrixBin, Nat.add_mul_mod_self_right, Nat.add_mul_div_right _ _ hpos] at hmod hdiv
  rw [Nat.mod_eq_of_lt (by omega), Nat.mod_eq_of_lt (by omega)] at hmod
  rw [Nat.div_eq_of_lt (by omega), Nat.div_eq_of_lt (by omega)] at hdiv
  exact Prod.ext (by omega) (by omega)

theorem OnMatrix.binAt {h : Histo2d} (hmatrix : OnMatrix nCol nRow h) {p : Nat × Nat}
    (hp : InMatrix nCol nRow p) : binAt h p.1 p.2 = h.getBin (matrixBin nCol p) := by
  unfold OccupancyScan.binAt
  rw [hmatrix.binNum hp]

theorem OnMatrix.setAt {h : Histo2d} (hmatrix : OnMatrix nCol nRow h) {p : Nat × Nat}
    (hp : InMatrix nCol nRow p) (v : ℚ) :
    setAt h p.1 p.2 v = h.setBin (matrixBin nCol p) v := by
  unfold OccupancyScan.setAt
  rw [hmatrix.binNum hp]

/-! ## Painting -/

/-- The pixels in the order of the loops. -/
def matrixPixels (nCol nRow : Nat) : List (Nat × Nat) :=
  (List.range nCol).flatMap fun col => (List.range nRow).map fun row => (col + 1, row + 1)

theorem mem_matrixPixels {p : Nat × Nat} : p ∈ matrixPixels nCol nRow ↔ InMatrix nCol nRow p := by
  unfold matrixPixels InMatrix
  simp only [List.mem_flatMap, List.mem_map, List.mem_range]
  constructor
  · rintro ⟨col, hcol, row, hrow, rfl⟩
    exact ⟨⟨Nat.le_add_left 1 col, hcol⟩, ⟨Nat.le_add_left 1 row, hrow⟩⟩
  · rintro ⟨⟨hcol, hcol'⟩, ⟨hrow, hrow'⟩⟩
    exact ⟨p.1 - 1, by omega, p.2 - 1, by omega, Prod.ext (by dsimp only; omega)
      (by dsimp only; omega)⟩

theorem nodup_matrixPixels : (matrixPixels nCol nRow).Nodup := by
  unfold matrixPixels
  apply List.nodup_flatMap.mpr
  constructor
  · intro col _
    apply List.nodup_range.map
    intro row row' heq
    simpa using heq
  · apply List.Nodup.pairwise_of_forall_ne List.nodup_range
    intro col _ col' _ hne p hp hp'
    obtain ⟨row, -, rfl⟩ := List.mem_map.mp hp
    obtain ⟨row', -, heq⟩ := List.mem_map.mp hp'
    have hcol : col' + 1 = col + 1 := congrArg Prod.fst heq
    omega

/-- One pixel of a map. -/
def paintPixel (value : Nat × Nat → Option ℚ) (mask : Histo2d) (p : Nat × Nat) : Histo2d :=
  match value p with
  | some v => setAt mask p.1 p.2 v
  | none => mask

def paint (nCol nRow : Nat) (value : Nat × Nat → Option ℚ) : Histo2d :=
  (matrixPixels nCol nRow).foldl (paintPixel value) (emptyMap nCol nRow)

theorem foldl_paintPixel (value : Nat × Nat → Option ℚ) {ps : List (Nat × Nat)} (hnodup : ps.Nodup)
    (hps : ∀ p ∈ ps, InMatrix nCol nRow p) {mask : Histo2d} (hmask : OnMatrix nCol nRow mask) :
    OnMatrix nCol nRow (ps.foldl (paintPixel value) mask) ∧
      ∀ q, InMatrix nCol nRow q → (ps.foldl (paintPixel value) mask).getBin (matrixBin nCol q) =
        if q ∈ ps then (value q).getD (mask.getBin (matrixBin nCol q))
        else mask.getBin (matrixBin nCol q) := by
  induction ps generalizing mask with
  | nil => exact ⟨hmask, fun _ _ => rfl⟩
  | cons p ps ih =>
      obtain ⟨hp, hnodup⟩ := List.nodup_cons.mp hnodup
      have hin := hps p List.mem_cons_self
      have hnext : OnMatrix nCol nRow (paintPixel value mask p) ∧
          ∀ q, InMatrix nCol nRow q → (paintPixel value mask p).getBin (matrixBin nCol q) =
            if q = p then (value p).getD (mask.getBin (matrixBin nCol q))
            else mask.getBin (matrixBin nCol q) := by
        unfold paintPixel
        cases hv : value p with
        | none => exact ⟨hmask, fun q _ => (ite_self _).symm⟩
        | some v =>
            dsimp only
            rw [hmask.setAt hin]
            refine ⟨hmask.setBin _ _, ?_⟩
            intro q hq
            have hlt : matrixBin nCol p < mask.size := hmask.size ▸ matrixBin_lt hin
            rw [Histo2d.getBin_setBin _ hlt]
            by_cases hqp : q = p
            · rw [if_pos hqp, if_pos (congrArg _ hqp)]
              rfl
            · rw [if_neg hqp, if_neg fun heq => hqp (matrixBin_inj hq hin heq)]
      obtain ⟨hon, hbins⟩ := ih hnodup (fun q hq => hps q (List.mem_cons_of_mem _ hq)) hnext.1
      refine ⟨hon, ?_⟩
      intro q hq
      rw [List.foldl_cons, hbins q hq, hnext.2 q hq]
      by_cases hqp : q = p
      · subst hqp
        rw [if_neg hp, if_pos rfl, if_pos List.mem_cons_self]
      · rw [if_neg hqp]
        simp [hqp]

theorem onMatrix_paint (value : Nat × Nat → Option ℚ) :
    OnMatrix nCol nRow (paint nCol nRow value) :=
  (foldl_paintPixel value nodup_matrixPixels (fun _ => mem_matrixPixels.mp) onMatrix_emptyMap).1

theorem getBin_paint (value : Nat × Nat → Option ℚ) {p : Nat × Nat} (hp : InMatrix nCol nRow p) :
    (paint nCol nRow value).getBin (matrixBin nCol p) = (value p).getD 0 := by
  have hbin := (foldl_paintPixel value nodup_matrixPixels (fun _ => mem_matrixPixels.mp)
    onMatrix_emptyMap).2 p hp
  have hzero : (emptyMap nCol nRow).getBin (matrixBin nCol p) = 0 := Histo2d.getBin_new ..
  rw [if_pos (mem_matrixPixels.mpr hp), hzero] at hbin
  exact hbin

/-! ## What masks are to say -/

/-- Zero for the pixels that fail and one for the others. -/
def MaskRight (nCol nRow : Nat) (fails : Nat × Nat → Prop) (mask : Histo2d) : Prop :=
  ∀ p, InMatrix nCol nRow p → ∃ i, mask.binNum p.1 p.2 = some i ∧
    (fails p → mask.getBin i = 0) ∧ (¬fails p → mask.getBin i = 1)

/-- A pixel as `maskPixel` has it. -/
def fromZero (p : Nat × Nat) : Nat × Nat := (p.1 - 1, p.2 - 1)

/-- Once for each pixel that fails and not at all for another. -/
def CallsRight (nCol nRow : Nat) (fails : Nat × Nat → Prop) (calls : List (Nat × Nat)) : Prop :=
  (∀ p, InMatrix nCol nRow p → fails p → calls.count (fromZero p) = 1) ∧
    ∀ q ∈ calls, ∃ p, InMatrix nCol nRow p ∧ fails p ∧ q = fromZero p

theorem fromZero_inj {p q : Nat × Nat} (hp : InMatrix nCol nRow p) (hq : InMatrix nCol nRow q)
    (heq : fromZero p = fromZero q) : p = q := by
  obtain ⟨hcol, hrow⟩ := Prod.mk.inj heq
  obtain ⟨⟨hp1, -⟩, ⟨hp2, -⟩⟩ := hp
  obtain ⟨⟨hq1, -⟩, ⟨hq2, -⟩⟩ := hq
  exact Prod.ext (by omega) (by omega)

/-- The pixels that a test picks, for which `maskPixel` is called. -/
def pickedPixels (nCol nRow : Nat) (picked : Nat × Nat → Bool) : List (Nat × Nat) :=
  ((matrixPixels nCol nRow).filter picked).map fromZero

theorem mem_pickedPixels {picked : Nat × Nat → Bool} {q : Nat × Nat} :
    q ∈ pickedPixels nCol nRow picked ↔
      ∃ p, InMatrix nCol nRow p ∧ picked p = true ∧ fromZero p = q := by
  unfold pickedPixels
  simp only [List.mem_map, List.mem_filter, mem_matrixPixels, and_assoc]

theorem nodup_pickedPixels (picked : Nat × Nat → Bool) :
    (pickedPixels nCol nRow picked).Nodup := by
  apply (nodup_matrixPixels.filter picked).map_on
  intro p hp q hq heq
  exact fromZero_inj (mem_matrixPixels.mp (List.mem_of_mem_filter hp))
    (mem_matrixPixels.mp (List.mem_of_mem_filter hq)) heq

/-- The calls are right if and only if the test picks the pixels that fail. -/
theorem callsRight_iff {fails : Nat × Nat → Prop} (picked : Nat × Nat → Bool) :
    CallsRight nCol nRow fails (pickedPixels nCol nRow picked) ↔
      ∀ p, InMatrix nCol nRow p → (picked p = true ↔ fails p) := by
  constructor
  · rintro ⟨honce, honly⟩ p hp
    constructor
    · intro hpicked
      obtain ⟨q, hq, hfails, heq⟩ := honly _ (mem_pickedPixels.mpr ⟨p, hp, hpicked, rfl⟩)
      rw [fromZero_inj hp hq heq]
      exact hfails
    · intro hfails
      have hmem : fromZero p ∈ pickedPixels nCol nRow picked := by
        rw [← List.count_pos_iff, honce p hp hfails]
        exact Nat.one_pos
      obtain ⟨q, hq, hpicked, heq⟩ := mem_pickedPixels.mp hmem
      rw [← fromZero_inj hq hp heq]
      exact hpicked
  · intro hiff
    constructor
    · intro p hp hfails
      exact List.count_eq_one_of_mem (nodup_pickedPixels picked)
        (mem_pickedPixels.mpr ⟨p, hp, (hiff p hp).mpr hfails, rfl⟩)
    · intro q hq
      obtain ⟨p, hp, hpicked, rfl⟩ := mem_pickedPixels.mp hq
      exact ⟨p, hp, (hiff p hp).mp hpicked, rfl⟩

/-- A painted map is right if and only if the values are. -/
theorem maskRight_paint_iff {fails : Nat × Nat → Prop} (value : Nat × Nat → Option ℚ) :
    MaskRight nCol nRow fails (paint nCol nRow value) ↔
      ∀ p, InMatrix nCol nRow p →
        (fails p → (value p).getD 0 = 0) ∧ (¬fails p → (value p).getD 0 = 1) := by
  have hbin : ∀ p, InMatrix nCol nRow p →
      (paint nCol nRow value).binNum p.1 p.2 = some (matrixBin nCol p) :=
    fun p hp => (onMatrix_paint value).binNum hp
  constructor
  · intro hright p hp
    obtain ⟨i, hi, hvalues⟩ := hright p hp
    rw [hbin p hp] at hi
    cases hi
    rw [getBin_paint value hp] at hvalues
    exact hvalues
  · intro hvalues p hp
    refine ⟨_, hbin p hp, ?_⟩
    rw [getBin_paint value hp]
    exact hvalues p hp

end Yarr.Scan
