import Yarr.Rd53.PixelFeedback
import Yarr.Scan.GlobalFeedback

/-!
# The pixel tuning of the three chips

The RD53A computes in `unsigned` and tunes its linear pixels along the sign and its
differential ones against it; the RD53B and the ITkPixV2 compute in `int` and tune all
pixels against the sign.
-/

namespace Yarr.Rd53

open PixelFeedback

variable {S : Type} [Histo.Element ℝ S] {n : Nat}

/-- The two tests behind a sum. -/
def PixelFeedback.cutOff (min max v : Int) : Int :=
  let v := if v < min then min else v
  if max < v then max else v

theorem PixelFeedback.cutOff_eq {min max : Int} (hle : min ≤ max) (v : Int) :
    cutOff min max v = Max.max min (Min.min v max) := by
  unfold cutOff
  dsimp only
  split
  · split
    · omega
    · omega
  · split
    · omega
    · omega

/-! ## RD53A -/

namespace Rd53aPixelFeedback

def chip : Chip where
  n_Col := Rd53aPixelCfg.n_Col
  n_Row := Rd53aPixelCfg.n_Row
  PixRegs := Rd53aPixelCfg.PixRegs
  registers := Rd53aPixelCfg.registers
  independent := Rd53aPixelCfg.registers_independent

/-- What `loadConfig` reads. -/
structure Config where
  min : Int
  max : Int
  steps : List UInt32
  tuneLin : Bool
  tuneDiff : Bool
  m_resetTdac : Bool

variable (cfg : Config)

def isLin (p : chip.Pixel) : Prop := 128 < p.1.val + 1 ∧ p.1.val + 1 ≤ 264

def isDiff (p : chip.Pixel) : Prop := 264 < p.1.val + 1

instance (p : chip.Pixel) : Decidable (isLin p) := inferInstanceAs (Decidable (_ ∧ _))

instance (p : chip.Pixel) : Decidable (isDiff p) := inferInstanceAs (Decidable (_ < _))

/-- The value for `setTDAC`; that of a column which is not tuned is the one that was read. -/
def moved (p : chip.Pixel) (step : UInt32) (sign v : Int) : Option Int :=
  if isLin p ∧ cfg.tuneLin then
    let v := Fei4.Fei4PixelFeedback.wrapped (v + step.toNat * sign)
    some (cutOff cfg.min cfg.max v)
  else if isDiff p ∧ cfg.tuneDiff then
    let v := Fei4.Fei4PixelFeedback.wrapped (v + step.toNat * sign * -1)
    some (cutOff cfg.min cfg.max v)
  else some v

def reset (p : chip.Pixel) : Option Int :=
  if cfg.m_resetTdac then
    if isLin p ∧ cfg.tuneLin then some 8
    else if isDiff p ∧ cfg.tuneDiff then some 0
    else none
  else none

/-- Every entry of `fbDoneMap` begins as done. -/
def loop : Loop chip where
  min := cfg.min
  max := cfg.max
  steps := cfg.steps
  reset := reset cfg
  moved := moved cfg
  initDone := true

noncomputable def feedback (step : UInt32) (h : Histo.Histo2d ℝ S) (fe : Fe chip) :
    Option (Fe chip) :=
  PixelFeedback.feedback (loop cfg) step h fe

def init (s : State chip n) : State chip n := PixelFeedback.init (loop cfg) s

noncomputable def execPart2 (step : UInt32) (histos : Histos n S) (s : State chip n) :
    Option (State chip n) :=
  PixelFeedback.execPart2 (loop cfg) step histos s

def aim : Aim chip where
  tuned p := (isLin p ∧ cfg.tuneLin) ∨ (isDiff p ∧ cfg.tuneDiff)
  direction p := if isLin p then 1 else -1

/-- The sum is one of `int`, and the range cuts it off to what the pixel can hold. -/
def Fits (p : chip.Pixel) (step : UInt32) (sign t : Int) : Prop :=
  let x := t + (aim cfg).direction p * (step.toNat * sign)
  (-2 ^ 31 ≤ x ∧ x < 2 ^ 31) ∧
    chip.registers.Valid (p, .TDAC) (Max.max cfg.min (Min.min x cfg.max))

theorem sound (hle : cfg.min ≤ cfg.max) : Sound (loop cfg) (aim cfg) (Fits cfg) where
  tuned p step sign t htuned _ hfits := by
    obtain ⟨⟨hlow, hhigh⟩, hvalid⟩ := hfits
    have hclamped := @clamped_of_valid chip (loop cfg) p _ hle hvalid
    refine ⟨_, ?_, hclamped⟩
    show moved cfg p step sign t = some _
    unfold moved
    by_cases hlin : isLin p ∧ cfg.tuneLin
    · have hdir : (aim cfg).direction p = 1 := if_pos hlin.1
      rw [hdir, Int.one_mul] at hlow hhigh ⊢
      rw [if_pos hlin]
      dsimp only
      rw [Fei4.Fei4PixelFeedback.wrapped_of_small hlow hhigh, cutOff_eq hle]
      rfl
    · have hdiff : isDiff p ∧ cfg.tuneDiff := htuned.resolve_left hlin
      have hnot : ¬isLin p := fun h => Nat.not_lt.mpr h.2 hdiff.1
      have hdir : (aim cfg).direction p = -1 := if_neg hnot
      have hprod : (step.toNat : Int) * sign * -1 = -1 * (step.toNat * sign) := Int.mul_comm _ _
      rw [hdir] at hlow hhigh ⊢
      rw [if_neg hlin, if_pos hdiff]
      dsimp only
      rw [hprod, Fei4.Fei4PixelFeedback.wrapped_of_small hlow hhigh, cutOff_eq hle]
      rfl
  untuned p step sign t htuned := by
    show moved cfg p step sign t = some t
    unfold moved
    rw [if_neg fun h => htuned (Or.inl h), if_neg fun h => htuned (Or.inr h)]

end Rd53aPixelFeedback

/-! ## ITkPixV2 and RD53B -/

namespace Itkpixv2PixelFeedback

def chip : Chip where
  n_Col := Itkpixv2PixelCfg.n_Col
  n_Row := Itkpixv2PixelCfg.n_Row
  PixRegs := Itkpixv2PixelCfg.PixelArray
  registers := Itkpixv2PixelCfg.registers
  independent := Itkpixv2PixelCfg.registers_independent

/-- What `loadConfig` reads. -/
structure Config where
  min : Int
  max : Int
  steps : List UInt32
  m_pixelReg : Int
  m_rstPixelReg : Bool

variable (cfg : Config)

open Scan.GlobalFeedback in
/-- A product or a sum that is not one of `int` is undefined. -/
def moved (_ : chip.Pixel) (step : UInt32) (sign v : Int) : Option Int :=
  (toInt (step.toBitVec.toInt * sign)).bind fun q =>
    (toInt (q * -1)).bind fun q =>
      (toInt (v + q)).map fun v => cutOff cfg.min cfg.max v

def reset (_ : chip.Pixel) : Option Int := if cfg.m_rstPixelReg then some cfg.m_pixelReg else none

def loop : Loop chip where
  min := cfg.min
  max := cfg.max
  steps := cfg.steps
  reset := reset cfg
  moved := moved cfg
  initDone := false

noncomputable def feedback (step : UInt32) (h : Histo.Histo2d ℝ S) (fe : Fe chip) :
    Option (Fe chip) :=
  PixelFeedback.feedback (loop cfg) step h fe

def init (s : State chip n) : State chip n := PixelFeedback.init (loop cfg) s

noncomputable def execPart2 (step : UInt32) (histos : Histos n S) (s : State chip n) :
    Option (State chip n) :=
  PixelFeedback.execPart2 (loop cfg) step histos s

def aim : Aim chip where
  tuned _ := True
  direction _ := -1

/-- The step, the product and the sum are of `int`, and the range cuts the sum off to what the
pixel can hold. -/
def Fits (p : chip.Pixel) (step : UInt32) (sign t : Int) : Prop :=
  let x := t + -1 * (step.toNat * sign)
  step.toNat < 2 ^ 31 ∧ (-2 ^ 31 < step.toNat * sign ∧ step.toNat * sign < 2 ^ 31) ∧
    (-2 ^ 31 ≤ x ∧ x < 2 ^ 31) ∧
    chip.registers.Valid (p, .TDAC) (Max.max cfg.min (Min.min x cfg.max))

theorem sound (hle : cfg.min ≤ cfg.max) : Sound (loop cfg) aim (Fits cfg) where
  tuned p step sign t _ _ hfits := by
    obtain ⟨hstep, ⟨hlow, hhigh⟩, ⟨hlow', hhigh'⟩, hvalid⟩ := hfits
    have hclamped := @clamped_of_valid chip (loop cfg) p _ hle hvalid
    refine ⟨_, ?_, hclamped⟩
    show moved cfg p step sign t = some _
    have hcast : step.toBitVec.toInt = step.toNat := by
      rw [BitVec.toInt_eq_toNat_of_lt]
      · rfl
      · show 2 * step.toNat < 2 ^ 32
        omega
    have hprod : (step.toNat : Int) * sign * -1 = -1 * (step.toNat * sign) := Int.mul_comm _ _
    unfold moved
    rw [hcast, Scan.GlobalFeedback.toInt_of_fits ⟨Int.le_of_lt hlow, hhigh⟩, Option.bind_some,
      hprod, Scan.GlobalFeedback.toInt_of_fits ⟨by omega, by omega⟩, Option.bind_some,
      Scan.GlobalFeedback.toInt_of_fits ⟨hlow', hhigh'⟩, Option.map_some, cutOff_eq hle]
    rfl
  untuned p step sign t htuned := absurd trivial htuned

end Itkpixv2PixelFeedback

namespace Rd53bPixelFeedback

/-- The pixel registers of both chips have the same setters and getters. -/
abbrev chip : Chip := Itkpixv2PixelFeedback.chip

abbrev Config := Itkpixv2PixelFeedback.Config

variable (cfg : Config)

def loop : Loop chip := Itkpixv2PixelFeedback.loop cfg

noncomputable def feedback (step : UInt32) (h : Histo.Histo2d ℝ S) (fe : Fe chip) :
    Option (Fe chip) :=
  PixelFeedback.feedback (loop cfg) step h fe

def init (s : State chip n) : State chip n := PixelFeedback.init (loop cfg) s

noncomputable def execPart2 (step : UInt32) (histos : Histos n S) (s : State chip n) :
    Option (State chip n) :=
  PixelFeedback.execPart2 (loop cfg) step histos s

end Rd53bPixelFeedback

/-! ## The three loops -/

/-- When the sums fit, the RD53A has the rounds right for lists of one step only; the others
have them right unless there is no front-end at all. A histogram of another size leaves the
pixels in any round. -/
theorem pixel_tuning_iff :
    (∀ cfg : Rd53aPixelFeedback.Config, cfg.min ≤ cfg.max → cfg.steps ≠ [] →
      ∀ (n : Nat) (histos : Nat → Histos n S) (s : State Rd53aPixelFeedback.chip n),
      RightSize histos s → FitsAll (Rd53aPixelFeedback.loop cfg) (Rd53aPixelFeedback.Fits cfg)
        (Rd53aPixelFeedback.aim cfg) histos s →
      ((∃ between, Tunes (Rd53aPixelFeedback.loop cfg) (Rd53aPixelFeedback.aim cfg) histos s
        between) ↔ cfg.steps.length = 1)) ∧
    (∀ cfg : Itkpixv2PixelFeedback.Config, cfg.min ≤ cfg.max → cfg.steps ≠ [] →
      ∀ (n : Nat) (histos : Nat → Histos n S) (s : State Itkpixv2PixelFeedback.chip n),
      RightSize histos s → FitsAll (Itkpixv2PixelFeedback.loop cfg)
        (Itkpixv2PixelFeedback.Fits cfg) Itkpixv2PixelFeedback.aim histos s →
      ((∃ between, Tunes (Itkpixv2PixelFeedback.loop cfg) Itkpixv2PixelFeedback.aim histos s
        between) ↔ cfg.steps.length = 1 ∨ 0 < n)) ∧
    (∀ cfg : Rd53bPixelFeedback.Config, cfg.min ≤ cfg.max → cfg.steps ≠ [] →
      ∀ (n : Nat) (histos : Nat → Histos n S) (s : State Rd53bPixelFeedback.chip n),
      RightSize histos s → FitsAll (Rd53bPixelFeedback.loop cfg)
        (Itkpixv2PixelFeedback.Fits cfg) Itkpixv2PixelFeedback.aim histos s →
      ((∃ between, Tunes (Rd53bPixelFeedback.loop cfg) Itkpixv2PixelFeedback.aim histos s
        between) ↔ cfg.steps.length = 1 ∨ 0 < n)) ∧
    (∀ (chip : Chip) (l : Loop chip) (n : Nat) (histos : Histos n S) (s s' : State chip n),
      PixelFeedback.round l histos s = some s' → ∀ id,
      (histos id).size ≠ chip.n_Row * chip.n_Col → (s'.fes id).cfg = (s.fes id).cfg) := by
  have hopen : ∀ n : Nat, ¬(false = true ∨ n = 0) ↔ 0 < n := by
    intro n
    simp [Nat.pos_iff_ne_zero]
  refine ⟨?_, ?_, ?_, ?_⟩
  · intro cfg hle hne n histos s hright hfits
    have hiff := tunes_iff (Rd53aPixelFeedback.sound cfg hle) hright hfits
      (List.length_pos_iff.mpr hne)
    have hnone : NoneOpen (Rd53aPixelFeedback.loop cfg) n := Or.inl rfl
    exact hiff.trans (or_iff_left (not_not_intro hnone))
  · intro cfg hle hne n histos s hright hfits
    have hiff := tunes_iff (Itkpixv2PixelFeedback.sound cfg hle) hright hfits
      (List.length_pos_iff.mpr hne)
    exact hiff.trans (or_congr_right (hopen n))
  · intro cfg hle hne n histos s hright hfits
    have hiff := tunes_iff (Itkpixv2PixelFeedback.sound cfg hle) hright hfits
      (List.length_pos_iff.mpr hne)
    exact hiff.trans (or_congr_right (hopen n))
  · intro chip l n histos s s' hround id hsize
    exact round_wrongSize hround hsize

/-! ## Histograms without a sign -/

/-- The histograms of a matrix with nothing in them. -/
noncomputable def noSigns (chip : Chip) : Nat → Histos 1 ℝ :=
  fun _ _ => .new "h" chip.n_Col Histo.half (chip.n_Col + Histo.half) chip.n_Row Histo.half
    (chip.n_Row + Histo.half) .iterationEnd

theorem rightSize_noSigns {chip : Chip} (s : State chip 1) : RightSize (noSigns chip) s :=
  fun _ _ _ => Nat.mul_comm _ _

theorem sign_noSigns {chip : Chip} (k : Nat) (id : Fin 1) (p : chip.Pixel) :
    sign (noSigns chip k id) p = 0 := by
  have hbin : ∀ m, (noSigns chip k id).getBin m = 0 := by
    intro m
    unfold Histo.Histo2d.getBin
    split
    · have hdata : (noSigns chip k id).data = List.replicate (chip.n_Col * chip.n_Row) 0 := rfl
      rw [hdata, List.getD_eq_getElem?_getD]
      generalize chip.n_Col * chip.n_Row = size
      rw [List.getElem?_replicate]
      split
      · rfl
      · rfl
    · rfl
  unfold sign
  rw [hbin, Fei4.Fei4PixelFeedback.toInt, if_pos le_rfl, Int.floor_zero]

theorem kept_by_default {t : Int} (hlow : -15 ≤ t) (hhigh : t ≤ 15) :
    Max.max (-15) (Min.min t 15) = t := by
  omega

/-- The pixels with all bits zero. -/
def blankRd53a : State Rd53aPixelFeedback.chip 1 := ⟨0, false, fun _ => ⟨true, fun _ => 0, false⟩⟩

def blankItkpixv2 : State Itkpixv2PixelFeedback.chip 1 :=
  ⟨0, false, fun _ => ⟨true, fun _ _ => 0, false⟩⟩

noncomputable abbrev noSignsRd53a : Nat → Histos 1 ℝ := noSigns Rd53aPixelFeedback.chip

noncomputable abbrev noSignsItkpixv2 : Nat → Histos 1 ℝ := noSigns Itkpixv2PixelFeedback.chip

/-- The range of the constructor. -/
def defaultRd53a (steps : List UInt32) : Rd53aPixelFeedback.Config :=
  ⟨-15, 15, steps, true, true, true⟩

def defaultItkpixv2 (steps : List UInt32) : Itkpixv2PixelFeedback.Config :=
  ⟨-15, 15, steps, 0, true⟩

theorem fitsAll_rd53a (steps : List UInt32) :
    FitsAll (Rd53aPixelFeedback.loop (defaultRd53a steps))
      (Rd53aPixelFeedback.Fits (defaultRd53a steps))
      (Rd53aPixelFeedback.aim (defaultRd53a steps)) noSignsRd53a blankRd53a := by
  intro k step _ t _ id _ _ p _
  have hget : Rd53aPixelFeedback.chip.registers.Valid (p, .TDAC) (getTDAC t id p) :=
    Rd53aPixelFeedback.chip.independent.valid_get _ _
  rw [sign_noSigns]
  generalize getTDAC t id p = v at hget
  have hrange : -15 ≤ v ∧ v ≤ 15 := by
    have hvalid : if p.1.val ≥ 264 then -15 ≤ v ∧ v ≤ 15 else 0 ≤ v ∧ v ≤ 15 := hget
    split at hvalid
    · exact hvalid
    · exact ⟨by omega, hvalid.2⟩
  unfold Rd53aPixelFeedback.Fits
  dsimp only
  rw [Int.mul_zero, Int.mul_zero, Int.add_zero]
  have hkept : Max.max (defaultRd53a steps).min (Min.min v (defaultRd53a steps).max) = v :=
    kept_by_default hrange.1 hrange.2
  rw [hkept]
  exact ⟨⟨by omega, by omega⟩, hget⟩

theorem fitsAll_itkpixv2 (steps : List UInt32) (hsteps : ∀ step ∈ steps, step.toNat < 2 ^ 31) :
    FitsAll (Itkpixv2PixelFeedback.loop (defaultItkpixv2 steps))
      (Itkpixv2PixelFeedback.Fits (defaultItkpixv2 steps)) Itkpixv2PixelFeedback.aim noSignsItkpixv2
      blankItkpixv2 := by
  intro k step hstep t _ id _ _ p _
  have hsmall := hsteps step (List.mem_of_getElem? hstep)
  have hget : Itkpixv2PixelFeedback.chip.registers.Valid (p, .TDAC) (getTDAC t id p) :=
    Itkpixv2PixelFeedback.chip.independent.valid_get _ _
  rw [sign_noSigns]
  generalize getTDAC t id p = v at hget
  have hrange : -15 ≤ v ∧ v ≤ 15 := hget
  unfold Itkpixv2PixelFeedback.Fits
  dsimp only
  rw [Int.mul_zero, Int.mul_zero, Int.add_zero]
  have hkept : Max.max (defaultItkpixv2 steps).min (Min.min v (defaultItkpixv2 steps).max) = v :=
    kept_by_default hrange.1 hrange.2
  rw [hkept]
  exact ⟨hsmall, ⟨by decide, by decide⟩, ⟨by omega, by omega⟩, hget⟩

/-- One step for the RD53A, two for the others. -/
theorem default_ranges_tune :
    (∃ between, Tunes (Rd53aPixelFeedback.loop (defaultRd53a [4]))
      (Rd53aPixelFeedback.aim (defaultRd53a [4])) noSignsRd53a blankRd53a between) ∧
    (∃ between, Tunes (Itkpixv2PixelFeedback.loop (defaultItkpixv2 [4, 2]))
      Itkpixv2PixelFeedback.aim noSignsItkpixv2 blankItkpixv2 between) ∧
    (∃ between, Tunes (Rd53bPixelFeedback.loop (defaultItkpixv2 [4, 2]))
      Itkpixv2PixelFeedback.aim noSignsItkpixv2 blankItkpixv2 between) := by
  have hsmall : ∀ step ∈ ([4, 2] : List UInt32), step.toNat < 2 ^ 31 := by simp
  refine ⟨?_, ?_, ?_⟩
  · exact (pixel_tuning_iff.1 (defaultRd53a [4]) (by decide) (by decide) 1 noSignsRd53a blankRd53a
      (rightSize_noSigns _) (fitsAll_rd53a [4])).mpr rfl
  · exact (pixel_tuning_iff.2.1 (defaultItkpixv2 [4, 2]) (by decide) (by decide) 1 noSignsItkpixv2
      blankItkpixv2 (rightSize_noSigns _) (fitsAll_itkpixv2 [4, 2] hsmall)).mpr
      (Or.inr (by decide))
  · exact (pixel_tuning_iff.2.2.1 (defaultItkpixv2 [4, 2]) (by decide) (by decide) 1 noSignsItkpixv2
      blankItkpixv2 (rightSize_noSigns _) (fitsAll_itkpixv2 [4, 2] hsmall)).mpr
      (Or.inr (by decide))

/-- With two steps the RD53A does not come to the second one. -/
theorem second_step_left_out :
    ¬∃ between, Tunes (Rd53aPixelFeedback.loop (defaultRd53a [4, 2]))
      (Rd53aPixelFeedback.aim (defaultRd53a [4, 2])) noSignsRd53a blankRd53a between := by
  intro htunes
  have hle : (defaultRd53a [4, 2]).min ≤ (defaultRd53a [4, 2]).max := by decide
  have hiff := tunes_iff (Rd53aPixelFeedback.sound _ hle) (rightSize_noSigns blankRd53a)
    (fitsAll_rd53a [4, 2]) (by decide)
  rcases hiff.mp htunes with hone | hopen
  · cases hone
  · exact hopen (Or.inl rfl)

end Yarr.Rd53
