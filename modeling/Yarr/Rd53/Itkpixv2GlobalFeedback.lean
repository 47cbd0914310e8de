import Yarr.Scan.GlobalFeedback

/-!
# Tuning a global register of the ITkPixV2

The search begins at the upper end of the range. When the step has come down to
zero the value is moved once more, behind the test of the range.
-/

namespace Yarr.Rd53.Itkpixv2GlobalFeedback

open Scan.GlobalFeedback

/-- The part of the configuration that the search goes by. -/
structure Config where
  min : Int
  max : Int
  step : Nat

variable (cfg : Config)

/-- The new sign and the new step. -/
def turned (c : Channel) (sign : Int) : Channel :=
  if sign ≠ c.oldSign then { c with oldSign := sign, localStep := c.localStep / 2 } else c

/-- The value inside the range. -/
def clamped (val : Int) : Int :=
  let val := if cfg.max < val then cfg.max else val
  if val < cfg.min then cfg.min else val

/-- The end condition. -/
def overshot (c : Channel) (sign : Int) : Option Channel :=
  if c.localStep = 0 then
    (toUnsigned (c.values + sign)).map fun v => { c with values := v, done := true }
  else some c

def feedback (c : Channel) (sign : Int) (_ : Bool) : Option Channel :=
  let c := turned c sign
  (toInt (c.values + c.localStep * sign)).bind fun val =>
    let val := clamped cfg val
    (overshot { c with values := val } sign).map fun c =>
      if val ≤ cfg.min then { c with done := true } else c

/-- Only zero is a bound here. -/
def feedbackBinary (c : Channel) (sign : Int) (last : Bool) : Option Channel :=
  (toInt (c.values + c.localStep * sign)).map fun val =>
    let val := if val < 0 then 0 else val
    let localStep := c.localStep / 2
    { c with
      values := val
      localStep := localStep
      done := c.done || last || localStep = 1 || val = 0 }

def init : Channel := ⟨cfg.max, cfg.step, -1, false⟩

def rule : Rounds.Party Channel Event := party (feedback cfg) feedbackBinary

/-! ## When a feedback is right -/

/-- The range. -/
structure Config.Valid (cfg : Config) : Prop where
  min_nonneg : 0 ≤ cfg.min
  min_le : cfg.min ≤ cfg.max
  max_lt : cfg.max < 2 ^ 31
  step_pos : 0 < cfg.step

/-- The new step. -/
def nextStep (c : Channel) (sign : Int) : Nat :=
  if sign ≠ c.oldSign then c.localStep / 2 else c.localStep

/-- The sum fits into `int`. With the last step the value has room for the correction. A search
that is not done is not sent on upwards at the upper end. A binary search stays in the range by
itself, and its step does not get below one before it is done. -/
def Fits (c : Channel) (event : Event) : Prop :=
  match event.kind with
  | .feedback =>
      (-2 ^ 31 ≤ c.values + nextStep c event.sign * event.sign ∧
        c.values + nextStep c event.sign * event.sign < 2 ^ 31) ∧
      (nextStep c event.sign = 0 →
        cfg.min ≤ c.values + event.sign ∧ c.values + event.sign ≤ cfg.max) ∧
      ¬(c.done = false ∧ event.sign = 1 ∧ c.oldSign = 1 ∧ c.values = cfg.max)
  | .feedbackBinary =>
      (-2 ^ 31 ≤ c.values + c.localStep * event.sign ∧
        c.values + c.localStep * event.sign < 2 ^ 31) ∧
      (cfg.min ≤ Max.max 0 (c.values + c.localStep * event.sign) ∧
        c.values + c.localStep * event.sign ≤ cfg.max) ∧
      (c.done = false →
        2 ≤ c.localStep ∨ event.last ∨ c.values + c.localStep * event.sign ≤ 0)

/-- Between two rounds. -/
structure Kept (sign : Int) (c : Channel) : Prop where
  low : cfg.min ≤ c.values
  high : c.values ≤ cfg.max
  oldSign : c.oldSign = sign
  signed : sign = 1 ∨ sign = -1
  step_pos : c.done = false → 0 < c.localStep

/-- How far it is to the end of the range in the direction of the last sign. -/
def distance (c : Channel) : Nat :=
  if c.oldSign = 1 then (cfg.max - c.values).toNat else (c.values - cfg.min).toNat

def width : Nat := (cfg.max - cfg.min).toNat

/-- Steps count more than values. -/
def rank (c : Channel) : Nat := c.localStep * (width cfg + 1) + distance cfg c

variable {cfg}

theorem distance_le {sign : Int} {c : Channel} (hkept : Kept cfg sign c) :
    distance cfg c ≤ width cfg := by
  have hlow := hkept.low
  have hhigh := hkept.high
  unfold distance width
  split
  · omega
  · omega

theorem clamped_range (hvalid : cfg.Valid) (val : Int) :
    cfg.min ≤ clamped cfg val ∧ clamped cfg val ≤ cfg.max := by
  have hle := hvalid.min_le
  unfold clamped
  dsimp only
  split
  · split
    · exact ⟨Int.le_refl _, hle⟩
    · exact ⟨hle, Int.le_refl _⟩
  · split
    · exact ⟨Int.le_refl _, hle⟩
    · exact ⟨by omega, by omega⟩

theorem rank_lt_of_step {c c' : Channel} (hlt : c'.localStep < c.localStep)
    (hdist : distance cfg c' ≤ width cfg) : rank cfg c' < rank cfg c := by
  unfold rank
  have hmul : (c'.localStep + 1) * (width cfg + 1) ≤ c.localStep * (width cfg + 1) :=
    Nat.mul_le_mul_right _ hlt
  rw [Nat.succ_mul] at hmul
  omega

/-! ## One feedback -/

theorem turned_eq (c : Channel) (sign : Int) :
    turned c sign = { c with oldSign := sign, localStep := nextStep c sign } := by
  unfold turned nextStep
  by_cases hsame : sign ≠ c.oldSign
  · rw [if_pos hsame, if_pos hsame]
  · have heq : sign = c.oldSign := Decidable.not_not.mp hsame
    rw [if_neg hsame, if_neg hsame, heq]

theorem clamped_of_mem {val : Int} (hlow : cfg.min ≤ val) (hhigh : val ≤ cfg.max) :
    clamped cfg val = val := by
  unfold clamped
  dsimp only
  rw [if_neg (Int.not_lt.mpr hhigh), if_neg (Int.not_lt.mpr hlow)]

theorem feedback_last (hvalid : cfg.Valid) {old sign : Int} {c : Channel} (last : Bool)
    (hkept : Kept cfg old c) (hzero : nextStep c sign = 0)
    (hroom : cfg.min ≤ c.values + sign ∧ c.values + sign ≤ cfg.max) :
    feedback cfg c sign last = some ⟨c.values + sign, 0, sign, true⟩ := by
  have hlow := hkept.low
  have hhigh := hkept.high
  have hmin := hvalid.min_nonneg
  have hmax := hvalid.max_lt
  have hint : toInt c.values = some c.values := toInt_of_fits ⟨by omega, by omega⟩
  have hunsigned : toUnsigned (c.values + sign) = some (c.values + sign) :=
    toUnsigned_of_fits ⟨by omega, by omega⟩
  unfold feedback
  dsimp only
  rw [turned_eq, hzero]
  dsimp only
  rw [Int.natCast_zero, Int.zero_mul, Int.add_zero, hint, Option.bind_some,
    clamped_of_mem hlow hhigh, overshot, if_pos rfl, hunsigned]
  show some (if c.values ≤ cfg.min then _ else _) = _
  split
  · rfl
  · rfl

theorem feedback_next {sign : Int} {c : Channel} (last : Bool) (hne : nextStep c sign ≠ 0)
    (hfits : -2 ^ 31 ≤ c.values + nextStep c sign * sign ∧
      c.values + nextStep c sign * sign < 2 ^ 31) :
    feedback cfg c sign last =
      some ⟨clamped cfg (c.values + nextStep c sign * sign), nextStep c sign, sign,
        c.done || decide (clamped cfg (c.values + nextStep c sign * sign) ≤ cfg.min)⟩ := by
  unfold feedback
  dsimp only
  rw [turned_eq, toInt_of_fits hfits, Option.bind_some, overshot, if_neg hne]
  show some (if clamped cfg _ ≤ cfg.min then _ else _) = _
  split
  · rename_i hle
    rw [decide_eq_true hle, Bool.or_true]
  · rename_i hgt
    rw [decide_eq_false hgt, Bool.or_false]

/-- What a feedback that fits leads to. -/
structure Leads (cfg : Config) (sign : Int) (c c' : Channel) : Prop where
  kept : Kept cfg sign c'
  done : c.done = true → c'.done = true
  nearer : c.done = false → c'.done = true ∨ rank cfg c' < rank cfg c

theorem distance_lt (hvalid : cfg.Valid) {sign : Int} {c c' : Channel} (hkept : Kept cfg sign c)
    (hstep : 0 < c.localStep) (hfree : ¬(sign = 1 ∧ c.values = cfg.max))
    (hvalue : c'.values = clamped cfg (c.values + c.localStep * sign))
    (hold : c'.oldSign = sign) (hinside : cfg.min < c'.values) :
    distance cfg c' < distance cfg c := by
  have hle := hvalid.min_le
  have hlow := hkept.low
  have hhigh := hkept.high
  have hpos : (0 : Int) < c.localStep := Int.natCast_pos.mpr hstep
  unfold distance
  rw [hold, hkept.oldSign]
  unfold clamped at hvalue
  dsimp only at hvalue
  rcases hkept.signed with hup | hdown
  · have hne : c.values ≠ cfg.max := fun heq => hfree ⟨hup, heq⟩
    rw [if_pos hup, if_pos hup]
    rw [hup, Int.mul_one] at hvalue
    split at hvalue
    · split at hvalue
      · omega
      · omega
    · split at hvalue
      · omega
      · omega
  · have hnot : ¬sign = 1 := by omega
    rw [if_neg hnot, if_neg hnot]
    rw [hdown, Int.mul_neg, Int.mul_one] at hvalue
    split at hvalue
    · split at hvalue
      · omega
      · omega
    · split at hvalue
      · omega
      · omega

theorem feedback_leads (hvalid : cfg.Valid) {old : Int} {c : Channel} {sign : Int} {last : Bool}
    (hkept : Kept cfg old c) (hsign : sign = 1 ∨ sign = -1)
    (hfits : Fits cfg c ⟨.feedback, sign, last⟩) :
    ∃ c', feedback cfg c sign last = some c' ∧ Leads cfg sign c c' ∧
      c'.localStep = nextStep c sign := by
  obtain ⟨hint, hlast, hfree⟩ := hfits
  by_cases hzero : nextStep c sign = 0
  · have hroom := hlast hzero
    refine ⟨_, feedback_last hvalid last hkept hzero hroom, ⟨?_, ?_, ?_⟩, hzero.symm⟩
    · exact ⟨hroom.1, hroom.2, rfl, hsign, fun hdone => by cases hdone⟩
    · intro _
      rfl
    · intro _
      exact Or.inl rfl
  · obtain ⟨hlow, hhigh⟩ := clamped_range hvalid (c.values + nextStep c sign * sign)
    refine ⟨_, feedback_next last hzero hint, ⟨?_, ?_, ?_⟩, rfl⟩
    · exact ⟨hlow, hhigh, rfl, hsign, fun _ => Nat.pos_of_ne_zero hzero⟩
    · intro hdone
      show (c.done || _) = true
      rw [hdone, Bool.true_or]
    · intro hdone
      by_cases hend : clamped cfg (c.values + nextStep c sign * sign) ≤ cfg.min
      · left
        show (c.done || decide _) = true
        rw [decide_eq_true hend, Bool.or_true]
      · right
        have hstep := hkept.step_pos hdone
        by_cases hturn : sign ≠ c.oldSign
        · have hhalf : nextStep c sign = c.localStep / 2 := if_pos hturn
          apply rank_lt_of_step
          · show nextStep c sign < c.localStep
            omega
          · have hkept' : Kept cfg sign
                ⟨clamped cfg (c.values + nextStep c sign * sign), nextStep c sign, sign,
                  c.done || decide (clamped cfg (c.values + nextStep c sign * sign) ≤ cfg.min)⟩ :=
              ⟨hlow, hhigh, rfl, hsign, fun _ => Nat.pos_of_ne_zero hzero⟩
            exact distance_le hkept'
        · have hsame : sign = c.oldSign := Decidable.not_not.mp hturn
          have hnext : nextStep c sign = c.localStep := if_neg hturn
          have hold : sign = old := hsame.trans hkept.oldSign
          subst hold
          rw [hnext] at hend
          have hdist := @distance_lt cfg hvalid sign c
            ⟨clamped cfg (c.values + nextStep c sign * sign), nextStep c sign, sign,
              c.done || decide (clamped cfg (c.values + nextStep c sign * sign) ≤ cfg.min)⟩
            hkept hstep (fun h => hfree ⟨hdone, h.1, hsame.symm.trans h.1, h.2⟩)
            (by rw [hnext]) rfl (by
              show cfg.min < clamped cfg (c.values + nextStep c sign * sign)
              rw [hnext]
              exact Int.not_le.mp hend)
          unfold rank
          show nextStep c sign * _ + _ < _
          rw [hnext] at hdist ⊢
          omega

theorem feedbackBinary_leads (hvalid : cfg.Valid) {old : Int} {c : Channel} {sign : Int}
    {last : Bool} (hkept : Kept cfg old c) (hfits : Fits cfg c ⟨.feedbackBinary, sign, last⟩) :
    ∃ c', feedbackBinary c sign last = some c' ∧ Leads cfg old c c' := by
  unfold Fits at hfits
  dsimp only at hfits
  obtain ⟨hint, hrange, hlong⟩ := hfits
  have hvalue : (if c.values + c.localStep * sign < 0 then 0 else c.values + c.localStep * sign) =
      Max.max 0 (c.values + c.localStep * sign) := by
    split
    · omega
    · omega
  have heval : feedbackBinary c sign last =
      some ⟨Max.max 0 (c.values + c.localStep * sign), c.localStep / 2, c.oldSign,
        c.done || last || decide (c.localStep / 2 = 1) ||
          decide (Max.max 0 (c.values + c.localStep * sign) = 0)⟩ := by
    unfold feedbackBinary
    rw [toInt_of_fits hint]
    show some _ = some _
    dsimp only
    rw [hvalue]
  have hhigh : Max.max 0 (c.values + c.localStep * sign) ≤ cfg.max := by
    have hmin := hvalid.min_nonneg
    have hle := hvalid.min_le
    have hbound := hrange.2
    omega
  -- a step of one is the last one
  have hgoes : (c.done || last || decide (c.localStep / 2 = 1) ||
      decide (Max.max 0 (c.values + c.localStep * sign) = 0)) = false → 2 ≤ c.localStep := by
    intro hdone
    simp only [Bool.or_eq_false_iff, decide_eq_false_iff_not] at hdone
    obtain ⟨⟨⟨hbefore, hlast⟩, -⟩, hvalue⟩ := hdone
    rcases hlong hbefore with htwo | htrue | hdown
    · exact htwo
    · have hlast' : last = true := htrue
      rw [hlast'] at hlast
      cases hlast
    · have hdown' : c.values + c.localStep * sign ≤ 0 := hdown
      omega
  have hkept' : Kept cfg old
      ⟨Max.max 0 (c.values + c.localStep * sign), c.localStep / 2, c.oldSign,
      c.done || last || decide (c.localStep / 2 = 1) ||
        decide (Max.max 0 (c.values + c.localStep * sign) = 0)⟩ := by
    refine ⟨hrange.1, hhigh, hkept.oldSign, hkept.signed, ?_⟩
    intro hdone
    have htwo := hgoes hdone
    show 0 < c.localStep / 2
    omega
  refine ⟨_, heval, ⟨hkept', ?_, ?_⟩⟩
  · intro hdone
    show (c.done || last || _ || _) = true
    rw [hdone]
    rfl
  · intro hdone
    right
    apply rank_lt_of_step
    · show c.localStep / 2 < c.localStep
      have hpos := hkept.step_pos hdone
      omega
    · exact distance_le hkept'

/-! ## The loop -/

variable {n : Nat} {events : Feedback n}

/-- The number of rounds that are enough. -/
def rounds (cfg : Config) : Nat := cfg.step * (width cfg + 1) + width cfg + 2

/-- The condition on a round, for a front-end. -/
def FitsRound (cfg : Config) (events : Feedback n) (k : Nat) (id : Fin n) (c : Channel) : Prop :=
  Fits cfg c (events k id)

theorem kept_init (hvalid : cfg.Valid) : Kept cfg (-1) (init cfg) :=
  ⟨hvalid.min_le, Int.le_refl _, rfl, Or.inr rfl, fun _ => hvalid.step_pos⟩

theorem step_leads (hvalid : cfg.Valid) (hsigned : events.Signed) {k : Nat} {id : Fin n}
    {c : Channel} (hkept : Kept cfg (preceding (fun j => events j id) k) c)
    (hfits : Fits cfg c (events k id)) :
    ∃ c', (rule cfg).step (events k id) c = some c' ∧
      Leads cfg (preceding (fun j => events j id) (k + 1)) c c' ∧
      ((events k id).kind = .feedback → c'.localStep = nextStep c (events k id).sign) := by
  have hsign := hsigned k id
  show ∃ c', (party (feedback cfg) feedbackBinary).step (events k id) c = some c' ∧ _ ∧ _
  unfold party preceding
  dsimp only
  generalize events k id = event at hfits hsign
  obtain ⟨kind, sign, last⟩ := event
  cases kind with
  | feedback =>
      obtain ⟨c', hc', hleads, hstep⟩ := feedback_leads hvalid hkept hsign hfits
      exact ⟨c', hc', hleads, fun _ => hstep⟩
  | feedbackBinary =>
      obtain ⟨c', hc', hleads⟩ := feedbackBinary_leads hvalid hkept hfits
      exact ⟨c', hc', hleads, fun hkind => by cases hkind⟩

theorem ranked (hvalid : cfg.Valid) (hsigned : events.Signed) :
    Rounds.Ranked (rule cfg) events (fun _ => init cfg) (FitsRound cfg events)
      (fun k id c => Kept cfg (preceding (fun j => events j id) k) c) (rank cfg)
      (cfg.step * (width cfg + 1) + width cfg) where
  start id := by
    refine ⟨kept_init hvalid, ?_⟩
    have hdist := distance_le (kept_init hvalid)
    exact Nat.add_le_add_left hdist _
  step k id c hkept hfits := by
    obtain ⟨c', hc', hleads, -⟩ := step_leads hvalid hsigned hkept hfits
    exact ⟨c', hc', hleads.kept, hleads.done, hleads.nearer⟩

theorem tunes (hvalid : cfg.Valid) (hsigned : events.Signed)
    (hfit : Rounds.AllFit (rule cfg) false events (fun _ => init cfg) (FitsRound cfg events)) :
    Tunes (rule cfg) false cfg.min cfg.max (rounds cfg) (init cfg) events where
  inRange k ended s hreached id := by
    have hkept := (Rounds.kept (ranked hvalid hsigned) hfit hreached id).1
    exact ⟨hkept.low, hkept.high⟩
  halved k s s' hreached hstep id hkind hne := by
    have hkept := (Rounds.kept (ranked hvalid hsigned) hfit hreached id).1
    obtain ⟨c', hc', -, hnext⟩ := step_leads hvalid hsigned hkept (hfit k s hreached id)
    have hsame : c' = s' id := Option.some.inj (hc'.symm.trans (hstep id))
    subst hsame
    rw [hnext hkind] at hne
    intro heq
    apply hne
    rw [← hkept.oldSign] at heq
    exact if_neg (not_not_intro heq)
  ends := Rounds.ends (ranked hvalid hsigned) hfit

end Yarr.Rd53.Itkpixv2GlobalFeedback
