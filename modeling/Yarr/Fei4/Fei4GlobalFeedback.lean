import Yarr.Scan.GlobalFeedback

/-!
# Tuning a global register of the FE-I4

The sign that is kept is not negative, so every sign is found to be another
one. The loop asks whether it is done before a round and then makes the round.
-/

namespace Yarr.Fei4.Fei4GlobalFeedback

open Scan.GlobalFeedback

/-- The part of the configuration that the search goes by; the lower bound is not used. -/
structure Config where
  max : Int
  step : Nat

variable (cfg : Config)

/-- The new sign and the new step. -/
def turned (c : Channel) (sign : Int) : Channel :=
  if sign ≠ c.oldSign then { c with oldSign := 0, localStep := c.localStep / 2 } else c

def clamped (val : Int) : Int :=
  let val := if cfg.max < val then cfg.max else val
  if val < 0 then 0 else val

def feedback (c : Channel) (sign : Int) (last : Bool) : Option Channel :=
  let c := turned c sign
  (toInt (c.values + c.localStep * sign)).map fun val =>
    let val := clamped cfg val
    { c with
      values := val
      done := c.done || last || c.localStep = 1 || decide (val < 50) }

/-- Only zero is a bound here. -/
def feedbackBinary (c : Channel) (sign : Int) (last : Bool) : Option Channel :=
  (toInt (c.values + c.localStep * sign)).map fun val =>
    let val := if val < 0 then 0 else val
    let localStep := c.localStep / 2
    { c with
      values := val
      localStep := localStep
      done := c.done || last || localStep = 1 }

/-- The sign -1 as `unsigned`. -/
def init : Channel := ⟨cfg.max, cfg.step, 2 ^ 32 - 1, false⟩

def rule : Rounds.Party Channel Event := party (feedback cfg) feedbackBinary

/-! ## When a feedback is right -/

/-- The range. -/
structure Config.Valid (cfg : Config) : Prop where
  max_nonneg : 0 ≤ cfg.max
  max_lt : cfg.max < 2 ^ 31
  step_pos : 0 < cfg.step

/-- The sum fits into `int`. A sign is not given twice while there is a step. A binary search does
not go beyond the upper end. A step does not get below one before the search is done. -/
def Fits (before : Int) (c : Channel) (event : Event) : Prop :=
  match event.kind with
  | .feedback =>
      (-2 ^ 31 ≤ c.values + (c.localStep / 2 : Nat) * event.sign ∧
        c.values + (c.localStep / 2 : Nat) * event.sign < 2 ^ 31) ∧
      (event.sign ≠ before ∨ c.localStep = 0) ∧
      (c.done = false → 2 ≤ c.localStep ∨ event.last ∨ c.values < 50)
  | .feedbackBinary =>
      (-2 ^ 31 ≤ c.values + c.localStep * event.sign ∧
        c.values + c.localStep * event.sign ≤ cfg.max) ∧
      (c.done = false → 2 ≤ c.localStep ∨ event.last)

/-- Between two rounds. -/
structure Kept (c : Channel) : Prop where
  low : 0 ≤ c.values
  high : c.values ≤ cfg.max
  oldSign : c.oldSign = 0 ∨ c.oldSign = 2 ^ 32 - 1
  step_pos : c.done = false → 0 < c.localStep

variable {cfg}

theorem clamped_range (hvalid : cfg.Valid) (val : Int) :
    0 ≤ clamped cfg val ∧ clamped cfg val ≤ cfg.max := by
  have hmax := hvalid.max_nonneg
  unfold clamped
  dsimp only
  split
  · split
    · exact ⟨Int.le_refl _, hmax⟩
    · exact ⟨hmax, Int.le_refl _⟩
  · split
    · exact ⟨Int.le_refl _, hmax⟩
    · exact ⟨by omega, by omega⟩

theorem clamped_of_mem {val : Int} (hlow : 0 ≤ val) (hhigh : val ≤ cfg.max) :
    clamped cfg val = val := by
  unfold clamped
  dsimp only
  rw [if_neg (Int.not_lt.mpr hhigh), if_neg (Int.not_lt.mpr hlow)]

theorem turned_eq {c : Channel} (hkept : Kept cfg c) {sign : Int}
    (hsign : sign = 1 ∨ sign = -1) :
    turned c sign = { c with oldSign := 0, localStep := c.localStep / 2 } := by
  have hne : sign ≠ c.oldSign := by
    rcases hkept.oldSign with hold | hold
    · rw [hold]
      omega
    · rw [hold]
      omega
  exact if_pos hne

/-- What a feedback that fits leads to. -/
structure Leads (cfg : Config) (c c' : Channel) : Prop where
  kept : Kept cfg c'
  done : c.done = true → c'.done = true
  step : c'.localStep = c.localStep / 2

theorem Leads.nearer {c c' : Channel} (hleads : Leads cfg c c') (hkept : Kept cfg c)
    (hdone : c.done = false) : c'.done = true ∨ c'.localStep < c.localStep := by
  have hpos := hkept.step_pos hdone
  right
  rw [hleads.step]
  omega

theorem feedback_leads (hvalid : cfg.Valid) {before : Int} {c : Channel} {sign : Int} {last : Bool}
    (hkept : Kept cfg c) (hsign : sign = 1 ∨ sign = -1)
    (hfits : Fits cfg before c ⟨.feedback, sign, last⟩) :
    ∃ c', feedback cfg c sign last = some c' ∧ Leads cfg c c' := by
  unfold Fits at hfits
  dsimp only at hfits
  obtain ⟨hint, -, hlong⟩ := hfits
  have heval : feedback cfg c sign last =
      some ⟨clamped cfg (c.values + (c.localStep / 2 : Nat) * sign), c.localStep / 2, 0,
        c.done || last || decide (c.localStep / 2 = 1) ||
          decide (clamped cfg (c.values + (c.localStep / 2 : Nat) * sign) < 50)⟩ := by
    unfold feedback
    dsimp only
    rw [turned_eq hkept hsign]
    dsimp only
    rw [toInt_of_fits hint]
    rfl
  obtain ⟨hlow, hhigh⟩ := clamped_range hvalid (c.values + (c.localStep / 2 : Nat) * sign)
  refine ⟨_, heval, ⟨⟨hlow, hhigh, Or.inl rfl, ?_⟩, ?_, rfl⟩⟩
  · intro hdone
    simp only [Bool.or_eq_false_iff, decide_eq_false_iff_not] at hdone
    obtain ⟨⟨⟨hbefore, hlast⟩, hone⟩, hvalue⟩ := hdone
    show 0 < c.localStep / 2
    rcases hlong hbefore with htwo | htrue | hsmall
    · omega
    · rw [htrue] at hlast
      cases hlast
    · -- with a step of one the value would stay below the abort
      have hpos := hkept.step_pos hbefore
      by_cases hzero : c.localStep / 2 = 0
      · rw [hzero, Int.natCast_zero, Int.zero_mul, Int.add_zero,
          clamped_of_mem hkept.low hkept.high] at hvalue
        exact absurd hsmall hvalue
      · exact Nat.pos_of_ne_zero hzero
  · intro hdone
    show (c.done || _ || _ || _) = true
    rw [hdone]
    rfl

theorem feedbackBinary_leads (hvalid : cfg.Valid) {before : Int} {c : Channel} {sign : Int}
    {last : Bool} (hkept : Kept cfg c)
    (hfits : Fits cfg before c ⟨.feedbackBinary, sign, last⟩) :
    ∃ c', feedbackBinary c sign last = some c' ∧ Leads cfg c c' := by
  unfold Fits at hfits
  dsimp only at hfits
  obtain ⟨⟨hlow, hhigh⟩, hlong⟩ := hfits
  have hmax := hvalid.max_lt
  have hnonneg := hvalid.max_nonneg
  have heval : feedbackBinary c sign last =
      some ⟨if c.values + c.localStep * sign < 0 then 0 else c.values + c.localStep * sign,
        c.localStep / 2, c.oldSign, c.done || last || decide (c.localStep / 2 = 1)⟩ := by
    unfold feedbackBinary
    rw [toInt_of_fits ⟨hlow, Int.lt_of_le_of_lt hhigh hmax⟩]
    rfl
  have hvalue : 0 ≤ (if c.values + c.localStep * sign < 0 then 0
      else c.values + c.localStep * sign) ∧
      (if c.values + c.localStep * sign < 0 then 0 else c.values + c.localStep * sign) ≤
        cfg.max := by
    split
    · exact ⟨Int.le_refl 0, hnonneg⟩
    · exact ⟨by omega, hhigh⟩
  refine ⟨_, heval, ⟨⟨hvalue.1, hvalue.2, hkept.oldSign, ?_⟩, ?_, rfl⟩⟩
  · intro hdone
    simp only [Bool.or_eq_false_iff, decide_eq_false_iff_not] at hdone
    obtain ⟨⟨hbefore, hlast⟩, hone⟩ := hdone
    show 0 < c.localStep / 2
    rcases hlong hbefore with htwo | htrue
    · omega
    · rw [htrue] at hlast
      cases hlast
  · intro hdone
    show (c.done || _ || _) = true
    rw [hdone]
    rfl

/-! ## The loop -/

variable {n : Nat} {events : Feedback n}

/-- The number of rounds that are enough. -/
def rounds (cfg : Config) : Nat := cfg.step + 2

/-- The condition on a round, for a front-end. -/
def FitsRound (cfg : Config) (events : Feedback n) (k : Nat) (id : Fin n) (c : Channel) : Prop :=
  Fits cfg (preceding (fun j => events j id) k) c (events k id)

theorem step_leads (hvalid : cfg.Valid) (hsigned : events.Signed) {k : Nat} {id : Fin n}
    {c : Channel} (hkept : Kept cfg c) (hfits : FitsRound cfg events k id c) :
    ∃ c', (rule cfg).step (events k id) c = some c' ∧ Leads cfg c c' := by
  have hsign := hsigned k id
  unfold FitsRound at hfits
  show ∃ c', (party (feedback cfg) feedbackBinary).step (events k id) c = some c' ∧ _
  unfold party
  dsimp only
  generalize events k id = event at hfits hsign
  obtain ⟨kind, sign, last⟩ := event
  cases kind with
  | feedback => exact feedback_leads hvalid hkept hsign hfits
  | feedbackBinary => exact feedbackBinary_leads hvalid hkept hfits

theorem ranked (hvalid : cfg.Valid) (hsigned : events.Signed) :
    Rounds.Ranked (rule cfg) events (fun _ => init cfg) (FitsRound cfg events)
      (fun _ _ c => Kept cfg c) (fun c => c.localStep) cfg.step where
  start _ :=
    ⟨⟨hvalid.max_nonneg, Int.le_refl _, Or.inr rfl, fun _ => hvalid.step_pos⟩, Nat.le_refl _⟩
  step k id c hkept hfits := by
    obtain ⟨c', hc', hleads⟩ := step_leads hvalid hsigned hkept hfits
    exact ⟨c', hc', hleads.kept, hleads.done, hleads.nearer hkept⟩

theorem tunes (hvalid : cfg.Valid) (hsigned : events.Signed)
    (hfit : Rounds.AllFit (rule cfg) true events (fun _ => init cfg) (FitsRound cfg events)) :
    Tunes (rule cfg) true 0 cfg.max (rounds cfg) (init cfg) events where
  inRange k ended s hreached id := by
    have hkept := (Rounds.kept (ranked hvalid hsigned) hfit hreached id).1
    exact ⟨hkept.low, hkept.high⟩
  halved k s s' hreached hstep id hkind hne := by
    have hkept := (Rounds.kept (ranked hvalid hsigned) hfit hreached id).1
    have hfits := hfit k s hreached id
    obtain ⟨c', hc', hleads⟩ := step_leads hvalid hsigned hkept hfits
    have hsame : c' = s' id := Option.some.inj (hc'.symm.trans (hstep id))
    subst hsame
    rw [hleads.step] at hne
    unfold FitsRound Fits at hfits
    rw [hkind] at hfits
    rcases hfits.2.1 with hother | hzero
    · exact hother
    · rw [hzero] at hne
      exact absurd rfl hne
  ends := Rounds.ends (ranked hvalid hsigned) hfit

end Yarr.Fei4.Fei4GlobalFeedback
