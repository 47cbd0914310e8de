import Yarr.Core.EqualBins
import Yarr.Core.FloatRounding
import Yarr.Core.Searches
import Yarr.Scan.Histograms

/-!
# The two edges of a strobe delay pulse

The occupancy of a strip over the delays of the loop. The pulse is split in the
middle of its plateau, and each part goes to a fit of one edge.
-/

namespace Yarr.Star

open LastMatch Scan

/-- The loop over the strobe delay, and the histogram of a strip with its counter. `fitted` are
the pulses that went to the fits. -/
structure PulseState where
  m_strobeDelayCnt : UInt32 := 0
  histo : Option Histo1d := none
  fitted : List Histo1d := []

/-- `{begin + first, begin + last}`, both within the array. -/
def slice {α : Type} (xs : List α) (first last : Nat) : Option (List α) :=
  if first ≤ last ∧ last ≤ xs.length then some ((xs.take last).drop first) else none

/-- What the two fits get. -/
structure PulseParts where
  strobeDelayVecLeft : List UInt32
  strobeDelayVecRight : List UInt32
  occVecLeft : List ℚ
  occVecRight : List ℚ

/-- The members of `StarStrobeDelayAnalysis` that come from the loop. -/
structure StrobeDelayLoop where
  m_strobeDelayMin : UInt32
  m_strobeDelayMax : UInt32
  m_strobeDelayStep : UInt32
  step_pos : 0 < m_strobeDelayStep

namespace StrobeDelayLoop

variable (a : StrobeDelayLoop)

def m_strobeDelayBins : UInt32 :=
  (a.m_strobeDelayMax - a.m_strobeDelayMin) / a.m_strobeDelayStep + 1

/-- The loop of `init` that fills `m_strobeDelayVec`, from the value `i` on. -/
def m_strobeDelayVec : Nat → UInt32 → Option (List UInt32)
  | 0, _ => none
  | fuel + 1, i =>
      if i ≤ a.m_strobeDelayMax then
        (m_strobeDelayVec fuel (i + a.m_strobeDelayStep)).map (i :: ·)
      else some []

def newPulse : Histo1d :=
  .new a.m_strobeDelayBins.toNat (a.m_strobeDelayMin.toNat - (a.m_strobeDelayStep.toNat : ℚ) / 2)
    (a.m_strobeDelayMax.toNat + (a.m_strobeDelayStep.toNat : ℚ) / 2)

/-- One occupancy map, for one strip. Too many maps end the program. -/
def processHistogram (s : PulseState) (strobeDelay : UInt32) (thisBin : ℚ) : Option PulseState :=
  let m_strobeDelayCnt := s.m_strobeDelayCnt + 1
  if a.m_strobeDelayBins < m_strobeDelayCnt then none
  else do
    let histo ← (s.histo.getD a.newPulse).fill strobeDelay.toNat thisBin
    if m_strobeDelayCnt = a.m_strobeDelayBins then
      return { m_strobeDelayCnt, histo := none, fitted := s.fitted ++ [histo] }
    else return { s with m_strobeDelayCnt, histo := some histo }

def threshold (maxVal fraction : ℚ) : ℚ := Single.round (maxVal * fraction)

def maxVal (data : List ℚ) : ℚ := data.foldl max 0

def findBinPassingThreshold (h_in : Histo1d) (fraction : ℚ) (goesAbove goesBelow : Bool) : Nat :=
  let bin := if goesAbove then 0 else a.m_strobeDelayBins.toNat - 1
  let y := threshold (maxVal h_in.data) fraction
  if goesBelow then
    lastMatch (fun i => y < h_in.getBin i) bin (List.range a.m_strobeDelayBins.toNat)
  else if goesAbove then
    lastMatch (fun i => y < h_in.getBin i) 1
      ((List.range' 1 (a.m_strobeDelayBins.toNat - 1)).reverse)
  else bin

/-- `0.9`, as a `float`. -/
def plateauFraction : ℚ := Single.round (9 / 10)

/-- `0.5`, as a `float`. -/
def edgeFraction : ℚ := Single.round (1 / 2)

def plateauCenterBin (h_in : Histo1d) : Nat :=
  (a.findBinPassingThreshold h_in plateauFraction true false +
    a.findBinPassingThreshold h_in plateauFraction false true) / 2

def splitStrobeDelayRange (delays : List UInt32) (h_in : Histo1d) : Option PulseParts := do
  let plateauCenterBin := a.plateauCenterBin h_in
  return {
    strobeDelayVecLeft := ← slice delays 0 (plateauCenterBin + 2)
    strobeDelayVecRight := ← slice delays plateauCenterBin delays.length
    occVecLeft := ← slice h_in.data 0 (plateauCenterBin + 2)
    occVecRight := ← slice h_in.data plateauCenterBin h_in.bins }

/-! ## The pulse of a scan -/

/-- The number of points of the loop. -/
def points : Nat := ((a.m_strobeDelayMax - a.m_strobeDelayMin) / a.m_strobeDelayStep).toNat + 1

/-- The value of the loop at its `k`-th point. -/
def delay (k : Nat) : UInt32 := a.m_strobeDelayMin + UInt32.ofNat k * a.m_strobeDelayStep

/-- The state after the first `n` points, with the occupancy measured at each. -/
def collect (occ : Nat → ℚ) (n : Nat) : Option PulseState :=
  (List.range n).foldlM (fun s k => a.processHistogram s (a.delay k) (occ k)) {}

/-- Neither the bounds nor a step behind the last point go through zero. -/
structure NoWrap : Prop where
  min_le_max : a.m_strobeDelayMin ≤ a.m_strobeDelayMax
  behind : a.m_strobeDelayMin.toNat + a.points * a.m_strobeDelayStep.toNat < 2 ^ 32

/-! ## Delays -/

variable {a}

theorem step_ne_zero : a.m_strobeDelayStep.toNat ≠ 0 := by
  have hpos := UInt32.lt_iff_toNat_lt.mp a.step_pos
  exact (Nat.pos_iff_ne_zero).mp hpos

theorem bins_toNat_le : a.m_strobeDelayBins.toNat ≤ a.points := by
  unfold m_strobeDelayBins points
  rw [UInt32.toNat_add]
  exact Nat.mod_le _ _

theorem points_eq (hmin : a.m_strobeDelayMin ≤ a.m_strobeDelayMax) : a.points =
    (a.m_strobeDelayMax.toNat - a.m_strobeDelayMin.toNat) / a.m_strobeDelayStep.toNat + 1 := by
  unfold points
  rw [UInt32.toNat_div, UInt32.toNat_sub_of_le _ _ hmin]

/-- The part of the range that is not a multiple of the step. -/
def rest (a : StrobeDelayLoop) : Nat :=
  (a.m_strobeDelayMax.toNat - a.m_strobeDelayMin.toNat) % a.m_strobeDelayStep.toNat

theorem max_eq (hmin : a.m_strobeDelayMin ≤ a.m_strobeDelayMax) : a.m_strobeDelayMax.toNat =
    a.m_strobeDelayMin.toNat + (a.points - 1) * a.m_strobeDelayStep.toNat + a.rest := by
  have hle := UInt32.le_iff_toNat_le.mp hmin
  have hdiv := Nat.div_add_mod (a.m_strobeDelayMax.toNat - a.m_strobeDelayMin.toNat)
    a.m_strobeDelayStep.toNat
  rw [points_eq hmin, Nat.add_sub_cancel, rest, Nat.mul_comm]
  omega

theorem rest_lt : a.rest < a.m_strobeDelayStep.toNat :=
  Nat.mod_lt _ (Nat.pos_of_ne_zero step_ne_zero)

theorem NoWrap.delay_toNat (hwrap : a.NoWrap) {k : Nat} (hk : k ≤ a.points) :
    (a.delay k).toNat = a.m_strobeDelayMin.toNat + k * a.m_strobeDelayStep.toNat := by
  have hmul := Nat.mul_le_mul_right a.m_strobeDelayStep.toNat hk
  have hbehind := hwrap.behind
  have hstep := Nat.pos_of_ne_zero (step_ne_zero (a := a))
  have hk' : k ≤ k * a.m_strobeDelayStep.toNat := Nat.le_mul_of_pos_right k hstep
  unfold delay
  rw [UInt32.toNat_add, UInt32.toNat_mul, UInt32.toNat_ofNat', Nat.mod_eq_of_lt (a := k) (by omega),
    Nat.mod_eq_of_lt (a := k * _) (by omega), Nat.mod_eq_of_lt (by omega)]

theorem delay_succ (k : Nat) : a.delay k + a.m_strobeDelayStep = a.delay (k + 1) := by
  unfold delay
  rw [UInt32.ofNat_add]
  grind

theorem NoWrap.delay_inj (hwrap : a.NoWrap) {i j : Nat} (hi : i < a.points) (hj : j < a.points)
    (h : a.delay i = a.delay j) : i = j := by
  have hnat := congrArg UInt32.toNat h
  rw [hwrap.delay_toNat hi.le, hwrap.delay_toNat hj.le] at hnat
  exact Nat.eq_of_mul_eq_mul_right (Nat.pos_of_ne_zero step_ne_zero) (Nat.add_left_cancel hnat)

theorem NoWrap.delay_le_iff (hwrap : a.NoWrap) {k : Nat} (hk : k ≤ a.points) :
    a.delay k ≤ a.m_strobeDelayMax ↔ k < a.points := by
  have hmax := max_eq hwrap.min_le_max
  have hrest := rest_lt (a := a)
  have hone : 1 ≤ a.points := Nat.le_add_left 1 _
  rw [UInt32.le_iff_toNat_le, hwrap.delay_toNat hk, hmax]
  apply Iff.intro
  · intro hle
    by_contra hlt
    have heq : k = (a.points - 1) + 1 := by omega
    rw [heq, Nat.succ_mul] at hle
    omega
  · intro hlt
    have hmul := Nat.mul_le_mul_right a.m_strobeDelayStep.toNat (Nat.le_sub_one_of_lt hlt)
    omega

theorem NoWrap.vec_delay (hwrap : a.NoWrap) {k m : Nat} (hk : k + m = a.points) :
    a.m_strobeDelayVec (m + 1) (a.delay k) = some ((List.range' k m).map a.delay) := by
  induction m generalizing k with
  | zero =>
      have hle := hwrap.delay_le_iff (k := k) (by omega)
      unfold m_strobeDelayVec
      rw [if_neg (by rw [hle]; omega)]
      rfl
  | succ m ih =>
      have hle := hwrap.delay_le_iff (k := k) (by omega)
      unfold m_strobeDelayVec
      rw [if_pos (hle.mpr (by omega)), delay_succ, ih (by omega)]
      rfl

theorem delay_zero : a.delay 0 = a.m_strobeDelayMin := by
  unfold delay
  simp

theorem NoWrap.vec_eq (hwrap : a.NoWrap) : a.m_strobeDelayVec (a.points + 1) a.m_strobeDelayMin =
    some ((List.range a.points).map a.delay) := by
  have hvec := hwrap.vec_delay (Nat.zero_add a.points)
  rw [delay_zero] at hvec
  rw [hvec, List.range_eq_range']

theorem length_vec {fuel k : Nat} {vec : List UInt32} (m : Nat)
    (hvec : a.m_strobeDelayVec fuel (a.delay k) = some vec)
    (hle : ∀ j < m, a.delay (k + j) ≤ a.m_strobeDelayMax) : m ≤ vec.length := by
  induction fuel generalizing k vec m with
  | zero => cases hvec
  | succ fuel ih =>
      cases m with
      | zero => exact Nat.zero_le _
      | succ m =>
          have hfirst : a.delay k ≤ a.m_strobeDelayMax := hle 0 (Nat.succ_pos m)
          unfold m_strobeDelayVec at hvec
          rw [if_pos hfirst, delay_succ] at hvec
          rcases Option.map_eq_some_iff.mp hvec with ⟨tail, htail, rfl⟩
          have hlength := ih m htail fun j hj => by
            have hnext := hle (j + 1) (by omega)
            rwa [show k + (j + 1) = k + 1 + j by omega] at hnext
          exact Nat.succ_le_succ hlength

/-- A vector that is not longer than the pulse has come to its end before the wrap. -/
theorem noWrap_of_length {fuel : Nat} {vec : List UInt32}
    (hvec : a.m_strobeDelayVec fuel a.m_strobeDelayMin = some vec)
    (hmin : a.m_strobeDelayMin ≤ a.m_strobeDelayMax)
    (hlength : vec.length ≤ a.m_strobeDelayBins.toNat) : a.NoWrap := by
  refine ⟨hmin, ?_⟩
  by_contra hbehind
  have hmax := max_eq hmin
  have hrest := rest_lt (a := a)
  have hone : 1 ≤ a.points := Nat.le_add_left 1 _
  have hlast := a.m_strobeDelayMax.toNat_lt
  have hstep := Nat.pos_of_ne_zero (step_ne_zero (a := a))
  have hmin' := UInt32.le_iff_toNat_le.mp hmin
  have hpoints : a.points * a.m_strobeDelayStep.toNat =
      (a.points - 1) * a.m_strobeDelayStep.toNat + a.m_strobeDelayStep.toNat := by
    rw [← Nat.succ_mul, Nat.succ_eq_add_one, Nat.sub_add_cancel hone]
  rw [← delay_zero] at hvec
  have htoNat : ∀ j, (a.delay j).toNat =
      (a.m_strobeDelayMin.toNat + j * a.m_strobeDelayStep.toNat) % 2 ^ 32 := by
    intro j
    unfold delay
    rw [UInt32.toNat_add, UInt32.toNat_mul, UInt32.toNat_ofNat', Nat.mod_mul_mod, Nat.add_mod_mod]
  -- one value more than the loop has points
  have hmore := length_vec (a.points + 1) hvec fun j hj => by
    rw [Nat.zero_add, UInt32.le_iff_toNat_le, htoNat]
    rcases Nat.lt_or_eq_of_le (Nat.le_of_lt_succ hj) with hlt | rfl
    · have hmul := Nat.mul_le_mul_right a.m_strobeDelayStep.toNat (Nat.le_sub_one_of_lt hlt)
      exact (Nat.mod_le _ _).trans (by omega)
    · have hwrapped : a.m_strobeDelayMin.toNat + a.points * a.m_strobeDelayStep.toNat =
          (a.m_strobeDelayMin.toNat + a.points * a.m_strobeDelayStep.toNat - 2 ^ 32) + 2 ^ 32 := by
        omega
      rw [hwrapped, Nat.add_mod_right]
      have hsmall := a.m_strobeDelayStep.toNat_lt
      exact (Nat.mod_le _ _).trans (by omega)
  have hbins := bins_toNat_le (a := a)
  omega

end StrobeDelayLoop

end Yarr.Star

/-!
## The pulse that a scan collects

The bins divide the range between the bounds, with half a step on either side.
When the range is not a multiple of the step they are wider than the step, and
the late points may slip into the bin before their own.
-/

namespace Yarr.Star.StrobeDelayLoop

open ShiftedBins Scan

variable {a : StrobeDelayLoop}

/-- The `k`-th point falls into bin `k`. -/
def OwnBin (a : StrobeDelayLoop) (k : Nat) : Prop :=
  2 * k * a.rest ≤ a.m_strobeDelayStep.toNat * a.points

instance : DecidablePred a.OwnBin := fun k =>
  inferInstanceAs (Decidable (2 * k * a.rest ≤ a.m_strobeDelayStep.toNat * a.points))

theorem ownBin_zero : a.OwnBin 0 := by
  unfold OwnBin
  rw [Nat.mul_zero, Nat.zero_mul]
  exact Nat.zero_le _

theorem ownBin_of_succ (k : Nat) (h : a.OwnBin (k + 1)) : a.OwnBin k := by
  have hle : 2 * k * a.rest ≤ 2 * (k + 1) * a.rest := Nat.mul_le_mul_right _ (by omega)
  exact hle.trans h

/-- The pulse after `n` points. -/
def pulseAt (a : StrobeDelayLoop) (occ : Nat → ℚ) (n : Nat) : Histo1d :=
  { a.newPulse with data := filled a.OwnBin occ a.points n }

theorem points_pos : 0 < a.points := Nat.succ_pos _

theorem NoWrap.points_lt (hwrap : a.NoWrap) : a.points < 2 ^ 32 := by
  have hbehind := hwrap.behind
  have hstep := Nat.pos_of_ne_zero (step_ne_zero (a := a))
  have hle : a.points ≤ a.points * a.m_strobeDelayStep.toNat :=
    Nat.le_mul_of_pos_right _ hstep
  omega

theorem NoWrap.bins_toNat (hwrap : a.NoWrap) : a.m_strobeDelayBins.toNat = a.points := by
  have hlt := hwrap.points_lt
  unfold points at hlt
  unfold m_strobeDelayBins points
  rw [UInt32.toNat_add]
  exact Nat.mod_eq_of_lt hlt

theorem NoWrap.pulseAt_zero (hwrap : a.NoWrap) (occ : Nat → ℚ) :
    a.pulseAt occ 0 = a.newPulse := by
  unfold pulseAt newPulse Histo1d.new filled
  rw [hwrap.bins_toNat]
  rfl

theorem NoWrap.binWidth_eq (hwrap : a.NoWrap) : a.newPulse.binWidth =
    ((a.points : ℚ) * a.m_strobeDelayStep.toNat + a.rest) / a.points := by
  have hmax : (a.m_strobeDelayMax.toNat : ℚ) = a.m_strobeDelayMin.toNat +
      ((a.points : ℚ) - 1) * a.m_strobeDelayStep.toNat + a.rest := by
    rw [max_eq hwrap.min_le_max]
    push_cast [points_pos (a := a)]
    rfl
  unfold newPulse Histo1d.new Histo1d.binWidth
  dsimp only
  rw [hwrap.bins_toNat, hmax]
  congr 1
  ring

theorem NoWrap.above_low (hwrap : a.NoWrap) {k : Nat} (hk : k < a.points) :
    ((a.delay k).toNat : ℚ) - a.newPulse.xlow =
      k * a.m_strobeDelayStep.toNat + (a.m_strobeDelayStep.toNat : ℚ) / 2 := by
  rw [hwrap.delay_toNat hk.le]
  unfold newPulse Histo1d.new
  push_cast
  ring

theorem floor_toNat {x : ℚ} {n : Nat} (hlow : (n : ℚ) ≤ x) (hhigh : x < n + 1) :
    x.floor.toNat = n := by
  have hlow' : ((n : ℤ) : ℚ) ≤ x := hlow
  have hhigh' : x < ((n : ℤ) : ℚ) + 1 := hhigh
  have hfloor : x.floor = (n : ℤ) := Int.floor_eq_iff.mpr ⟨hlow', hhigh'⟩
  rw [hfloor, Int.toNat_natCast]

theorem NoWrap.place_eq (hwrap : a.NoWrap) {k : Nat} (hk : k < a.points) :
    ((((a.delay k).toNat : ℚ) - a.newPulse.xlow) / a.newPulse.binWidth).floor.toNat =
      place a.OwnBin k := by
  have hstep : (0 : ℚ) < a.m_strobeDelayStep.toNat := by
    exact_mod_cast Nat.pos_of_ne_zero (step_ne_zero (a := a))
  have hpoints : (0 : ℚ) < a.points := by exact_mod_cast points_pos (a := a)
  have hrest : (0 : ℚ) ≤ a.rest := Nat.cast_nonneg _
  have hrest' : (a.rest : ℚ) < a.m_strobeDelayStep.toNat := by exact_mod_cast rest_lt (a := a)
  have hk' : (k : ℚ) + 1 ≤ a.points := by exact_mod_cast hk
  have hk0 : (0 : ℚ) ≤ k := Nat.cast_nonneg _
  have hrange : 0 < (a.points : ℚ) * a.m_strobeDelayStep.toNat + a.rest := by positivity
  rw [hwrap.above_low hk, hwrap.binWidth_eq, div_div_eq_mul_div]
  unfold place
  by_cases hown : a.OwnBin k
  · have hownQ : 2 * (k : ℚ) * a.rest ≤ a.m_strobeDelayStep.toNat * a.points := by
      exact_mod_cast hown
    rw [if_pos hown]
    apply floor_toNat
    · rw [le_div_iff₀ hrange]
      linarith
    · rw [div_lt_iff₀ hrange]
      nlinarith
  · have hownQ : (a.m_strobeDelayStep.toNat : ℚ) * a.points < 2 * k * a.rest := by
      have hlt := Nat.lt_of_not_le hown
      exact_mod_cast hlt
    have hpos : 1 ≤ k := by
      rcases Nat.eq_zero_or_pos k with rfl | hpos
      · exact absurd ownBin_zero hown
      · exact hpos
    rw [if_neg hown]
    apply floor_toNat
    · rw [le_div_iff₀ hrange]
      push_cast [hpos]
      nlinarith
    · rw [div_lt_iff₀ hrange]
      push_cast [hpos]
      nlinarith

theorem NoWrap.fill_pulseAt (hwrap : a.NoWrap) (occ : Nat → ℚ) {n : Nat} (hn : n < a.points) :
    (a.pulseAt occ n).fill (a.delay n).toNat (occ n) = some (a.pulseAt occ (n + 1)) := by
  have hstep : (0 : ℚ) < a.m_strobeDelayStep.toNat := by
    exact_mod_cast Nat.pos_of_ne_zero (step_ne_zero (a := a))
  have hplace := hwrap.place_eq hn
  have hlow : ¬(((a.delay n).toNat : ℚ) < (a.pulseAt occ n).xlow) := by
    have habove := hwrap.above_low hn
    have hnonneg : (0 : ℚ) ≤ n * a.m_strobeDelayStep.toNat := by positivity
    show ¬(((a.delay n).toNat : ℚ) < a.newPulse.xlow)
    linarith
  have hhigh : ¬((a.pulseAt occ n).xhigh ≤ ((a.delay n).toNat : ℚ)) := by
    have hle : ((a.delay n).toNat : ℚ) ≤ a.m_strobeDelayMax.toNat := by
      exact_mod_cast UInt32.le_iff_toNat_le.mp ((hwrap.delay_le_iff hn.le).mpr hn)
    show ¬((a.m_strobeDelayMax.toNat : ℚ) + (a.m_strobeDelayStep.toNat : ℚ) / 2 ≤ _)
    linarith
  have hbin : place a.OwnBin n < (filled a.OwnBin occ a.points n).length := by
    rw [length_filled]
    exact lt_of_le_of_lt (place_le n) hn
  unfold Histo1d.fill
  rw [if_neg hlow, if_neg hhigh]
  show (if (((a.delay n).toNat - a.newPulse.xlow) / a.newPulse.binWidth).floor.toNat <
      (filled a.OwnBin occ a.points n).length then _ else none) = _
  rw [hplace, if_pos hbin]
  unfold pulseAt
  rw [filled_succ, ← hplace]
  rfl

theorem NoWrap.collect_eq (hwrap : a.NoWrap) (occ : Nat → ℚ) {n : Nat} (hn : n < a.points) :
    ∃ histo, a.collect occ n = some ⟨UInt32.ofNat n, histo, []⟩ ∧
      histo.getD a.newPulse = a.pulseAt occ n := by
  induction n with
  | zero => exact ⟨none, rfl, (hwrap.pulseAt_zero occ).symm⟩
  | succ n ih =>
      rcases ih (by omega) with ⟨histo, hcollect, hhisto⟩
      have hpoints := hwrap.points_lt
      have hbins := hwrap.bins_toNat
      have hcnt : (UInt32.ofNat n + 1 : UInt32).toNat = n + 1 := by
        rw [UInt32.toNat_add, UInt32.toNat_ofNat', Nat.mod_eq_of_lt (a := n) (by omega)]
        show (n + 1) % _ = _
        exact Nat.mod_eq_of_lt (by omega)
      have hmore : ¬a.m_strobeDelayBins < UInt32.ofNat n + 1 := by
        rw [UInt32.lt_iff_toNat_lt, hcnt, hbins]
        omega
      have hlast : UInt32.ofNat n + 1 ≠ a.m_strobeDelayBins := by
        intro heq
        rw [heq, hbins] at hcnt
        omega
      refine ⟨some (a.pulseAt occ (n + 1)), ?_, rfl⟩
      unfold collect at hcollect ⊢
      rw [List.range_succ, List.foldlM_append, hcollect]
      show (a.processHistogram _ _ _ >>= pure) = _
      rw [bind_pure]
      unfold processHistogram
      dsimp only
      rw [if_neg hmore, hhisto, hwrap.fill_pulseAt occ (by omega)]
      show (if UInt32.ofNat n + 1 = a.m_strobeDelayBins then _ else _) = _
      rw [if_neg hlast, UInt32.ofNat_add]
      rfl

theorem NoWrap.collect_points (hwrap : a.NoWrap) (occ : Nat → ℚ) : a.collect occ a.points =
    some ⟨a.m_strobeDelayBins, none, [a.pulseAt occ a.points]⟩ := by
  have hpos := points_pos (a := a)
  have hpoints := hwrap.points_lt
  have hbins := hwrap.bins_toNat
  rcases hwrap.collect_eq occ (n := a.points - 1) (by omega) with ⟨histo, hcollect, hhisto⟩
  have hcnt : (UInt32.ofNat (a.points - 1) + 1 : UInt32) = a.m_strobeDelayBins := by
    apply UInt32.toNat_inj.mp
    rw [UInt32.toNat_add, UInt32.toNat_ofNat', Nat.mod_eq_of_lt (a := a.points - 1) (by omega),
      hbins]
    show (a.points - 1 + 1) % _ = _
    rw [Nat.mod_eq_of_lt (by omega)]
    omega
  have hfill := hwrap.fill_pulseAt occ (n := a.points - 1) (by omega)
  rw [Nat.sub_add_cancel hpos] at hfill
  have hsplit : List.range a.points = List.range (a.points - 1) ++ [a.points - 1] := by
    rw [← List.range_succ, Nat.succ_eq_add_one, Nat.sub_add_cancel hpos]
  unfold collect at hcollect ⊢
  rw [hsplit, List.foldlM_append, hcollect]
  show (a.processHistogram _ _ _ >>= pure) = _
  rw [bind_pure]
  unfold processHistogram
  dsimp only
  rw [hcnt, if_neg (UInt32.lt_irrefl _), hhisto, hfill]
  show (if a.m_strobeDelayBins = a.m_strobeDelayBins then _ else _) = _
  rw [if_pos rfl]
  rfl

theorem data_eq_iff (occ : Nat → ℚ) : (a.pulseAt occ a.points).data =
    (List.range a.points).map occ ↔ ∀ k < a.points, a.OwnBin k ∨ occ k = 0 :=
  filled_eq_iff ownBin_zero ownBin_of_succ a.points

end Yarr.Star.StrobeDelayLoop
