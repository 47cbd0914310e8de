import Yarr.Rd53.Itkpixv2GlobalFeedback

/-!
# Tuning a global register of the RD53A and of the RD53B

The RD53B is tuned like the ITkPixV2. The RD53A keeps zero for the sign as soon as
the sign has changed, and a step of one is its end condition.
-/

namespace Yarr.Rd53

open Scan.GlobalFeedback

namespace Rd53bGlobalFeedback

abbrev Config := Itkpixv2GlobalFeedback.Config

variable (cfg : Config)

def feedback (c : Channel) (sign : Int) (last : Bool) : Option Channel :=
  Itkpixv2GlobalFeedback.feedback cfg c sign last

def feedbackBinary (c : Channel) (sign : Int) (last : Bool) : Option Channel :=
  Itkpixv2GlobalFeedback.feedbackBinary c sign last

def init : Channel := ⟨cfg.max, cfg.step, -1, false⟩

def rule : Rounds.Party Channel Event := party (feedback cfg) feedbackBinary

end Rd53bGlobalFeedback

namespace Rd53aGlobalFeedback

abbrev Config := Itkpixv2GlobalFeedback.Config

variable (cfg : Config)

def turned (c : Channel) (sign : Int) : Channel :=
  if sign ≠ c.oldSign then { c with oldSign := 0, localStep := c.localStep / 2 } else c

def feedback (c : Channel) (sign : Int) (last : Bool) : Option Channel :=
  let c := turned c sign
  (toInt (c.values + c.localStep * sign)).map fun val =>
    let val := Itkpixv2GlobalFeedback.clamped cfg val
    { c with
      values := val
      done := c.done || last || c.localStep = 1 || val = cfg.min || val ≤ cfg.min }

/-- A value of zero is no end condition here. -/
def feedbackBinary (c : Channel) (sign : Int) (last : Bool) : Option Channel :=
  (toInt (c.values + c.localStep * sign)).map fun val =>
    let val := if val < 0 then 0 else val
    let localStep := c.localStep / 2
    { c with
      values := val
      localStep := localStep
      done := c.done || last || localStep = 1 }

def init : Channel := ⟨cfg.max, cfg.step, -1, false⟩

def rule : Rounds.Party Channel Event := party (feedback cfg) feedbackBinary

end Rd53aGlobalFeedback

/-! ## What moves a value -/

namespace Itkpixv2GlobalFeedback

variable {cfg : Config} {c c' : Channel} {sign : Int} {last : Bool}

theorem clamped_between (hle : cfg.min ≤ cfg.max) (val : Int) :
    cfg.min ≤ clamped cfg val ∧ clamped cfg val ≤ cfg.max := by
  unfold clamped
  dsimp only
  split
  · split
    · exact ⟨Int.le_refl _, hle⟩
    · exact ⟨hle, Int.le_refl _⟩
  · split
    · exact ⟨Int.le_refl _, hle⟩
    · exact ⟨by omega, by omega⟩

theorem clamped_step_iff (hle : cfg.min ≤ cfg.max) (hsign : sign = 1 ∨ sign = -1) {v : Int}
    {t : Nat} (ht : t ≠ 0) :
    clamped cfg (v + t * sign) = v ↔ (v = cfg.max ∧ sign = 1) ∨ (v = cfg.min ∧ sign = -1) := by
  have hpos : (0 : Int) < t := Int.natCast_pos.mpr (Nat.pos_of_ne_zero ht)
  unfold clamped
  dsimp only
  rcases hsign with hup | hdown
  · subst hup
    rw [Int.mul_one]
    split
    · split
      · omega
      · omega
    · split
      · omega
      · omega
  · subst hdown
    rw [Int.mul_neg, Int.mul_one]
    split
    · split
      · omega
      · omega
    · split
      · omega
      · omega

theorem toInt_eq_some {x val : Int} (h : toInt x = some val) : val = x := by
  unfold toInt at h
  split at h
  · exact (Option.some.inj h).symm
  · cases h

theorem toUnsigned_eq_some {x val : Int} (h : toUnsigned x = some val) : val = x ∧ 0 ≤ x := by
  unfold toUnsigned at h
  split at h
  · rename_i hfits
    exact ⟨(Option.some.inj h).symm, hfits.1⟩
  · cases h

theorem feedback_values (h : feedback cfg c sign last = some c') :
    if nextStep c sign = 0 then
      c'.values = clamped cfg c.values + sign ∧ 0 ≤ c'.values
    else c'.values = clamped cfg (c.values + nextStep c sign * sign) := by
  unfold feedback at h
  dsimp only at h
  rw [turned_eq] at h
  obtain ⟨val, hval, h⟩ := Option.bind_eq_some_iff.mp h
  obtain ⟨d, hd, h⟩ := Option.map_eq_some_iff.mp h
  have hsum := toInt_eq_some hval
  have hvalues : c'.values = d.values := by
    rw [← h]
    split
    · rfl
    · rfl
  unfold overshot at hd
  dsimp only at hd hsum
  by_cases hzero : nextStep c sign = 0
  · rw [if_pos hzero]
    rw [if_pos hzero] at hd
    obtain ⟨v, hv, hd⟩ := Option.map_eq_some_iff.mp hd
    obtain ⟨hv, hnonneg⟩ := toUnsigned_eq_some hv
    have hdv : d.values = v := by rw [← hd]
    rw [hzero, Int.natCast_zero, Int.zero_mul, Int.add_zero] at hsum
    rw [hvalues, hdv, hv, hsum]
    exact ⟨rfl, by rw [← hsum]; exact hnonneg⟩
  · rw [if_neg hzero]
    rw [if_neg hzero] at hd
    rw [hvalues, ← Option.some.inj hd, hsum]

theorem feedbackBinary_values (h : feedbackBinary c sign last = some c') :
    c'.values = Max.max 0 (c.values + c.localStep * sign) := by
  unfold feedbackBinary at h
  obtain ⟨val, hval, h⟩ := Option.map_eq_some_iff.mp h
  have hsum := toInt_eq_some hval
  rw [← h, ← hsum]
  dsimp only
  split
  · omega
  · omega

theorem max_step_iff {v : Int} {t : Nat} (hsign : sign = 1 ∨ sign = -1) (hv : 0 ≤ v) :
    Max.max 0 (v + t * sign) = v ↔ t = 0 ∨ (v = 0 ∧ sign = -1) := by
  rcases hsign with hup | hdown
  · subst hup
    rw [Int.mul_one]
    omega
  · subst hdown
    rw [Int.mul_neg, Int.mul_one]
    omega

/-- The feedbacks that leave the value. -/
def Rests (cfg : Config) (c : Channel) (event : Event) : Prop :=
  match event.kind with
  | .feedback =>
      if nextStep c event.sign = 0 then
        (c.values = cfg.max + 1 ∧ event.sign = 1) ∨ (c.values = cfg.min - 1 ∧ event.sign = -1)
      else (c.values = cfg.max ∧ event.sign = 1) ∨ (c.values = cfg.min ∧ event.sign = -1)
  | .feedbackBinary => c.localStep = 0 ∨ (c.values = 0 ∧ event.sign = -1)

theorem corrected_iff (hle : cfg.min ≤ cfg.max) (hsign : sign = 1 ∨ sign = -1) {v : Int} :
    clamped cfg v + sign = v ↔
      (v = cfg.max + 1 ∧ sign = 1) ∨ (v = cfg.min - 1 ∧ sign = -1) := by
  unfold clamped
  dsimp only
  split
  · split
    · omega
    · omega
  · split
    · omega
    · omega

theorem step_values_iff (hle : cfg.min ≤ cfg.max) {event : Event}
    (hsign : event.sign = 1 ∨ event.sign = -1) (hv : 0 ≤ c.values)
    (h : (rule cfg).step event c = some c') :
    c'.values = c.values ↔ Rests cfg c event := by
  unfold rule party at h
  unfold Rests
  dsimp only at h
  cases hkind : event.kind with
  | feedback =>
      rw [hkind] at h
      have hvalues := feedback_values h
      by_cases hzero : nextStep c event.sign = 0
      · rw [if_pos hzero] at hvalues
        simp only [hvalues.1, if_pos hzero]
        exact corrected_iff hle hsign
      · rw [if_neg hzero] at hvalues
        simp only [hvalues, if_neg hzero]
        exact clamped_step_iff hle hsign hzero
  | feedbackBinary =>
      rw [hkind] at h
      rw [feedbackBinary_values h]
      exact max_step_iff hsign hv

theorem step_nonneg (hmin : 0 ≤ cfg.min) (hle : cfg.min ≤ cfg.max) {event : Event}
    (h : (rule cfg).step event c = some c') : 0 ≤ c'.values := by
  unfold rule party at h
  dsimp only at h
  cases hkind : event.kind with
  | feedback =>
      rw [hkind] at h
      have hvalues := feedback_values h
      split at hvalues
      · exact hvalues.2
      · rw [hvalues]
        exact Int.le_trans hmin (clamped_between hle _).1
  | feedbackBinary =>
      rw [hkind] at h
      rw [feedbackBinary_values h]
      exact Int.le_max_left _ _

end Itkpixv2GlobalFeedback

namespace Rd53aGlobalFeedback

open Itkpixv2GlobalFeedback (clamped nextStep toInt_eq_some)

variable {cfg : Config} {c c' : Channel} {sign : Int} {last : Bool}

theorem turned_values (c : Channel) (sign : Int) :
    (turned c sign).values = c.values ∧ (turned c sign).localStep = nextStep c sign := by
  unfold turned nextStep
  split
  · exact ⟨rfl, rfl⟩
  · exact ⟨rfl, rfl⟩

theorem feedback_values (h : feedback cfg c sign last = some c') :
    c'.values = clamped cfg (c.values + nextStep c sign * sign) := by
  unfold feedback at h
  obtain ⟨val, hval, h⟩ := Option.map_eq_some_iff.mp h
  have hsum := toInt_eq_some hval
  obtain ⟨hvalues, hstep⟩ := turned_values c sign
  rw [hvalues, hstep] at hsum
  rw [← h, ← hsum]

theorem feedbackBinary_values (h : feedbackBinary c sign last = some c') :
    c'.values = Max.max 0 (c.values + c.localStep * sign) := by
  unfold feedbackBinary at h
  obtain ⟨val, hval, h⟩ := Option.map_eq_some_iff.mp h
  have hsum := toInt_eq_some hval
  rw [← h, ← hsum]
  dsimp only
  split
  · omega
  · omega

/-- Without a step a value in the range is left. -/
def Rests (cfg : Config) (c : Channel) (event : Event) : Prop :=
  match event.kind with
  | .feedback =>
      if nextStep c event.sign = 0 then cfg.min ≤ c.values ∧ c.values ≤ cfg.max
      else (c.values = cfg.max ∧ event.sign = 1) ∨ (c.values = cfg.min ∧ event.sign = -1)
  | .feedbackBinary => c.localStep = 0 ∨ (c.values = 0 ∧ event.sign = -1)

theorem clamped_iff (hle : cfg.min ≤ cfg.max) {v : Int} :
    clamped cfg v = v ↔ cfg.min ≤ v ∧ v ≤ cfg.max := by
  unfold clamped
  dsimp only
  split
  · split
    · omega
    · omega
  · split
    · omega
    · omega

theorem step_values_iff (hle : cfg.min ≤ cfg.max) {event : Event}
    (hsign : event.sign = 1 ∨ event.sign = -1) (hv : 0 ≤ c.values)
    (h : (rule cfg).step event c = some c') :
    c'.values = c.values ↔ Rests cfg c event := by
  unfold rule party at h
  unfold Rests
  dsimp only at h
  cases hkind : event.kind with
  | feedback =>
      rw [hkind] at h
      rw [feedback_values h]
      by_cases hzero : nextStep c event.sign = 0
      · simp only [if_pos hzero]
        rw [hzero, Int.natCast_zero, Int.zero_mul, Int.add_zero]
        exact clamped_iff hle
      · simp only [if_neg hzero]
        exact Itkpixv2GlobalFeedback.clamped_step_iff hle hsign hzero
  | feedbackBinary =>
      rw [hkind] at h
      rw [feedbackBinary_values h]
      exact Itkpixv2GlobalFeedback.max_step_iff hsign hv

theorem step_nonneg (hmin : 0 ≤ cfg.min) (hle : cfg.min ≤ cfg.max) {event : Event}
    (h : (rule cfg).step event c = some c') : 0 ≤ c'.values := by
  unfold rule party at h
  dsimp only at h
  cases hkind : event.kind with
  | feedback =>
      rw [hkind] at h
      rw [feedback_values h]
      exact Int.le_trans hmin (Itkpixv2GlobalFeedback.clamped_between hle _).1
  | feedbackBinary =>
      rw [hkind] at h
      rw [feedbackBinary_values h]
      exact Int.le_max_left _ _

end Rd53aGlobalFeedback

end Yarr.Rd53
