import Yarr.Fei4.Fei4PixelFeedback
import Yarr.Rd53.PixelCfg

/-!
# Tuning rounds of the pixels

The loops of the three chips go over a list of steps and move each pixel, in every
round, against or along the sign that a histogram has for it. They differ in the
pixels they tune, in what they make of a step and a sign, and in what they enter
into `fbDoneMap` at the beginning.
-/

namespace Yarr.Rd53.PixelFeedback

open Histo

/-- A matrix and its pixel registers. -/
structure Chip where
  n_Col : Nat
  n_Row : Nat
  PixRegs : Type
  registers : Fields PixRegs ((Fin n_Col × Fin n_Row) × PixelRegister) Int
  independent : registers.Independent

abbrev Chip.Pixel (chip : Chip) : Type := Fin chip.n_Col × Fin chip.n_Row

variable {chip : Chip} {S : Type} [Element ℝ S] {n : Nat}

/-- Row by row. -/
def order (chip : Chip) : List chip.Pixel :=
  ((List.finRange chip.n_Row).product (List.finRange chip.n_Col)).map fun c => (c.2, c.1)

theorem nodup_order : (order chip).Nodup := by
  apply List.Nodup.map
  · intro c c' heq
    obtain ⟨hcol, hrow⟩ := Prod.mk.inj heq
    exact Prod.ext hrow hcol
  · exact (List.nodup_finRange _).product (List.nodup_finRange _)

theorem mem_order (p : chip.Pixel) : p ∈ order chip :=
  List.mem_map.mpr
    ⟨(p.2, p.1), List.mem_product.mpr ⟨List.mem_finRange _, List.mem_finRange _⟩, rfl⟩

/-- The fields of the order that hold a TDAC. -/
def tdacs (chip : Chip) : List (chip.Pixel × PixelRegister) :=
  (order chip).map fun p => (p, .TDAC)

theorem nodup_tdacs : (tdacs chip).Nodup :=
  nodup_order.map fun _ _ heq => (Prod.mk.inj heq).1

/-- What a chip does in its own way. `none` is arithmetic that is undefined. -/
structure Loop (chip : Chip) where
  min : Int
  max : Int
  steps : List UInt32
  /-- The value that a pixel begins with, if it is not left. -/
  reset : chip.Pixel → Option Int
  /-- The value for `setTDAC`, by step, sign and the TDAC that is read. -/
  moved : chip.Pixel → UInt32 → Int → Int → Option Int
  /-- What `init` enters into `fbDoneMap`. -/
  initDone : Bool

/-- A front-end with its entry of `fbDoneMap`. -/
structure Fe (chip : Chip) where
  active : Bool
  cfg : chip.PixRegs
  fbDone : Bool

structure State (chip : Chip) (n : Nat) where
  m_cur : Nat
  m_done : Bool
  fes : Fin n → Fe chip

/-- The histograms of one round. -/
abbrev Histos (n : Nat) (S : Type) := Fin n → Histo2d ℝ S

/-- Bins are counted from one. -/
noncomputable def sign (h : Histo2d ℝ S) (p : chip.Pixel) : Int :=
  Fei4.Fei4PixelFeedback.toInt
    (h.getBin (Histo2d.asUnsigned (h.binNum (p.1.val + 1 : Nat) (p.2.val + 1 : Nat))))

variable (l : Loop chip)

noncomputable def feedback (step : UInt32) (h : Histo2d ℝ S) (fe : Fe chip) : Option (Fe chip) :=
  if h.size ≠ chip.n_Row * chip.n_Col then some { fe with fbDone := true }
  else
    (chip.registers.updateAll (fun k v => l.moved k.1 step (sign h k.1) v) (tdacs chip) fe.cfg).map
      fun cfg => { fe with cfg := cfg }

/-- All entries of `fbDoneMap` are made anew, the pixels only of active front-ends. -/
def init (s : State chip n) : State chip n where
  m_cur := 0
  m_done := false
  fes id :=
    let fe := s.fes id
    { fe with
      fbDone := l.initDone
      cfg :=
        if fe.active then
          (order chip).foldl (fun cfg p =>
            match l.reset p with
            | some v => chip.registers.set cfg (p, .TDAC) v
            | none => cfg) fe.cfg
        else fe.cfg }

/-- The step is read for the log. -/
def execPart1 (s : State chip n) : Option UInt32 := l.steps[s.m_cur]?

noncomputable def execPart2 (step : UInt32) (histos : Histos n S) (s : State chip n) :
    Option (State chip n) :=
  (Fields.ofFunction.updateAll
    (fun id fe => if fe.active then feedback l step (histos id) fe else some fe)
    (List.finRange n) s.fes).map fun fes =>
      { m_cur := s.m_cur + 1
        fes := fes
        m_done :=
          if s.m_cur + 1 = l.steps.length then true
          else if ∀ id, (fes id).fbDone = true then true
          else s.m_done }

/-- One round. `none`: a read beyond the end of the list, or undefined arithmetic. -/
noncomputable def round (histos : Histos n S) (s : State chip n) : Option (State chip n) :=
  (execPart1 l s).bind fun step => execPart2 l step histos s

inductive Fault where
  | undefined
  | running

/-- Rounds until `m_done`, as far as the fuel goes. -/
noncomputable def run (histos : Nat → Histos n S) :
    Nat → Nat → State chip n → Except Fault (State chip n)
  | 0, _, _ => .error .running
  | fuel + 1, k, s =>
      if s.m_done then .ok s
      else
        match round l (histos k) s with
        | none => .error .undefined
        | some s => run histos fuel (k + 1) s

noncomputable def execute (histos : Nat → Histos n S) (fuel : Nat) (s : State chip n) :
    Except Fault (State chip n) :=
  run l histos fuel 0 (init l s)

/-- The state after some rounds, whether the loop is done by then or not. -/
noncomputable def after (histos : Nat → Histos n S) (s : State chip n) : Nat → Option (State chip n)
  | 0 => some (init l s)
  | k + 1 => (after histos s k).bind (round l (histos k))

/-! ## What the rounds are to do -/

def getTDAC (s : State chip n) (id : Fin n) (p : chip.Pixel) : Int :=
  chip.registers.get (s.fes id).cfg (p, .TDAC)

/-- The pixels that are tuned, and the direction in which a positive sign moves them. -/
structure Aim (chip : Chip) where
  tuned : chip.Pixel → Prop
  direction : chip.Pixel → Int

/-- A value of the range that the pixel can hold. -/
def Admits (p : chip.Pixel) (v : Int) : Prop :=
  chip.registers.Valid (p, .TDAC) v ∧ l.min ≤ v ∧ v ≤ l.max

/-- The admitted value that is nearest to a sum. -/
def Clamped (p : chip.Pixel) (x v : Int) : Prop :=
  Admits l p v ∧ ∀ u, Admits l p u → (v - x).natAbs ≤ (u - x).natAbs

variable (aim : Aim chip)

/-- The sum for a pixel. -/
noncomputable def target (step : UInt32) (h : Histo2d ℝ S) (s : State chip n) (id : Fin n)
    (p : chip.Pixel) : Int :=
  getTDAC s id p + aim.direction p * (step.toNat * sign h p)

structure RoundRight (step : UInt32) (histos : Histos n S) (s s' : State chip n) : Prop where
  tuned : ∀ id, (s.fes id).active → (histos id).size = chip.n_Row * chip.n_Col → ∀ p,
    aim.tuned p → Clamped l p (target aim step (histos id) s id p) (getTDAC s' id p)
  untuned : ∀ id p, ¬aim.tuned p → getTDAC s' id p = getTDAC s id p
  others : ∀ id p r, r ≠ .TDAC →
    chip.registers.get (s'.fes id).cfg (p, r) = chip.registers.get (s.fes id).cfg (p, r)
  wrongSize : ∀ id, (histos id).size ≠ chip.n_Row * chip.n_Col →
    (s'.fes id).cfg = (s.fes id).cfg
  inactive : ∀ id, ¬(s.fes id).active → s'.fes id = s.fes id

/-- An execution, with the states between the rounds. -/
structure Tunes (histos : Nat → Histos n S) (s : State chip n)
    (between : Nat → State chip n) : Prop where
  start : between 0 = init l s
  round : ∀ (k : Nat) (step : UInt32), l.steps[k]? = some step →
    round l (histos k) (between k) = some (between (k + 1)) ∧
      RoundRight l aim step (histos k) (between k) (between (k + 1))
  returns : ∀ fuel, execute l histos fuel s =
    if l.steps.length < fuel then .ok (between l.steps.length) else .error .running

/-! ## One pixel -/

/-- Which sums come out right. -/
structure Sound (fits : chip.Pixel → UInt32 → Int → Int → Prop) : Prop where
  tuned : ∀ p step sign t, aim.tuned p → chip.registers.Valid (p, .TDAC) t → fits p step sign t →
    ∃ v, l.moved p step sign t = some v ∧
      Clamped l p (t + aim.direction p * (step.toNat * sign)) v
  untuned : ∀ p step sign t, ¬aim.tuned p → l.moved p step sign t = some t

theorem clamped_of_valid {l : Loop chip} {p : chip.Pixel} {x : Int} (hle : l.min ≤ l.max)
    (hvalid : chip.registers.Valid (p, .TDAC) (Max.max l.min (Min.min x l.max))) :
    Clamped l p x (Max.max l.min (Min.min x l.max)) := by
  refine ⟨⟨hvalid, le_max_left _ _, max_le hle (min_le_right _ _)⟩, ?_⟩
  rintro u ⟨-, hmin, hmax⟩
  omega

/-! ## One round -/

variable {l aim} {fits : chip.Pixel → UInt32 → Int → Int → Prop}

theorem feedback_wrongSize {step : UInt32} {h : Histo2d ℝ S} (fe : Fe chip)
    (hsize : h.size ≠ chip.n_Row * chip.n_Col) :
    feedback l step h fe = some { fe with fbDone := true } :=
  if_pos hsize

/-- A histogram of the matrix, all of whose sums fit. -/
theorem feedback_spec (hsound : Sound l aim fits) {step : UInt32} {h : Histo2d ℝ S} (fe : Fe chip)
    (hsize : h.size = chip.n_Row * chip.n_Col)
    (hfits : ∀ p, aim.tuned p → fits p step (sign h p) (chip.registers.get fe.cfg (p, .TDAC))) :
    ∃ cfg, feedback l step h fe = some { fe with cfg := cfg } ∧
      (∀ p, aim.tuned p → Clamped l p (chip.registers.get fe.cfg (p, .TDAC) +
        aim.direction p * (step.toNat * sign h p)) (chip.registers.get cfg (p, .TDAC))) ∧
      (∀ p, ¬aim.tuned p →
        chip.registers.get cfg (p, .TDAC) = chip.registers.get fe.cfg (p, .TDAC)) ∧
      ∀ p r, r ≠ .TDAC → chip.registers.get cfg (p, r) = chip.registers.get fe.cfg (p, r) := by
  have hget := chip.independent.valid_get fe.cfg
  -- the value that each pixel gets
  have hvalue : ∀ p, ∃ v,
      l.moved p step (sign h p) (chip.registers.get fe.cfg (p, .TDAC)) = some v ∧
      chip.registers.Valid (p, .TDAC) v ∧
      (aim.tuned p → Clamped l p (chip.registers.get fe.cfg (p, .TDAC) +
        aim.direction p * (step.toNat * sign h p)) v) ∧
      (¬aim.tuned p → v = chip.registers.get fe.cfg (p, .TDAC)) := by
    intro p
    by_cases htuned : aim.tuned p
    · obtain ⟨v, hv, hclamped⟩ := hsound.tuned p step _ _ htuned (hget _) (hfits p htuned)
      exact ⟨v, hv, hclamped.1.1, fun _ => hclamped, fun hnot => absurd htuned hnot⟩
    · exact ⟨_, hsound.untuned p step _ _ htuned, hget _, fun h => absurd h htuned, fun _ => rfl⟩
  choose value hmoved hvalid htuned huntuned using hvalue
  have hkeys : ∀ k ∈ tdacs chip, ∃ p, k = (p, .TDAC) := by
    intro k hk
    obtain ⟨p, -, hp⟩ := List.mem_map.mp hk
    exact ⟨p, hp.symm⟩
  have hall : ∀ k ∈ tdacs chip, chip.registers.Valid k (value k.1) := by
    intro k hk
    obtain ⟨p, rfl⟩ := hkeys k hk
    exact hvalid p
  have hnew : ∀ k ∈ tdacs chip,
      l.moved k.1 step (sign h k.1) (chip.registers.get fe.cfg k) = some (value k.1) := by
    intro k hk
    obtain ⟨p, rfl⟩ := hkeys k hk
    exact hmoved p
  have hupdate := @Fields.Independent.updateAll_eq _ _ _ chip.registers chip.independent
    (fun k v => l.moved k.1 step (sign h k.1) v) (fun k => value k.1) (tdacs chip) nodup_tdacs
    fe.cfg hnew hall
  refine ⟨chip.registers.setAll (fun k => value k.1) (tdacs chip) fe.cfg, ?_, ?_, ?_, ?_⟩
  · unfold feedback
    rw [if_neg (not_not_intro hsize), hupdate]
    rfl
  · intro p hp
    rw [chip.independent.get_setAll hall (List.mem_map.mpr ⟨p, mem_order p, rfl⟩)]
    exact htuned p hp
  · intro p hp
    rw [chip.independent.get_setAll hall (List.mem_map.mpr ⟨p, mem_order p, rfl⟩)]
    exact huntuned p hp
  · intro p r hr
    apply chip.independent.get_setAll_of_not_mem hall
    intro hmem
    obtain ⟨q, hq⟩ := hkeys _ hmem
    exact hr (Prod.mk.inj hq).2

/-- The sums of a round fit. -/
def FitsRound (fits : chip.Pixel → UInt32 → Int → Int → Prop) (aim : Aim chip) (step : UInt32)
    (histos : Histos n S) (s : State chip n) : Prop :=
  ∀ id, (s.fes id).active → (histos id).size = chip.n_Row * chip.n_Col → ∀ p, aim.tuned p →
    fits p step (sign (histos id) p) (getTDAC s id p)

/-- What a round does beside the pixels. -/
structure NextRound (l : Loop chip) (histos : Histos n S) (s s' : State chip n) : Prop where
  m_cur : s'.m_cur = s.m_cur + 1
  active : ∀ id, (s'.fes id).active = (s.fes id).active
  fbDone : ∀ id, ((s.fes id).active → (histos id).size = chip.n_Row * chip.n_Col) →
    (s'.fes id).fbDone = (s.fes id).fbDone
  m_done : s'.m_done = (decide (s.m_cur + 1 = l.steps.length) ||
    decide (∀ id, (s'.fes id).fbDone = true) || s.m_done)

theorem round_spec (hsound : Sound l aim fits) {step : UInt32} {histos : Histos n S}
    {s : State chip n} (hstep : l.steps[s.m_cur]? = some step)
    (hfits : FitsRound fits aim step histos s) :
    ∃ s', round l histos s = some s' ∧ RoundRight l aim step histos s s' ∧
      NextRound l histos s s' := by
  -- the front-ends, one by one
  have hfe : ∀ id, ∃ fe,
      (if (s.fes id).active then feedback l step (histos id) (s.fes id) else some (s.fes id)) =
        some fe ∧ fe.active = (s.fes id).active ∧
      (((s.fes id).active → (histos id).size = chip.n_Row * chip.n_Col) →
        fe.fbDone = (s.fes id).fbDone) ∧
      ((s.fes id).active → (histos id).size = chip.n_Row * chip.n_Col → ∀ p, aim.tuned p →
        Clamped l p (target aim step (histos id) s id p) (chip.registers.get fe.cfg (p, .TDAC))) ∧
      (∀ p, ¬aim.tuned p → chip.registers.get fe.cfg (p, .TDAC) = getTDAC s id p) ∧
      (∀ p r, r ≠ .TDAC → chip.registers.get fe.cfg (p, r) =
        chip.registers.get (s.fes id).cfg (p, r)) ∧
      ((histos id).size ≠ chip.n_Row * chip.n_Col → fe.cfg = (s.fes id).cfg) ∧
      (¬(s.fes id).active → fe = s.fes id) := by
    intro id
    by_cases hactive : (s.fes id).active = true
    · rw [if_pos hactive]
      by_cases hsize : (histos id).size = chip.n_Row * chip.n_Col
      · obtain ⟨cfg, hcfg, htuned, huntuned, hothers⟩ :=
          feedback_spec hsound (s.fes id) hsize (hfits id hactive hsize)
        exact ⟨_, hcfg, rfl, fun _ => rfl, fun _ _ => htuned, huntuned, hothers,
          fun hne => absurd hsize hne, fun hnot => absurd hactive hnot⟩
      · exact ⟨_, feedback_wrongSize (s.fes id) hsize, rfl,
          fun heq => absurd (heq hactive) hsize,
          fun _ heq => absurd heq hsize, fun _ _ => rfl, fun _ _ _ => rfl, fun _ => rfl,
          fun hnot => absurd hactive hnot⟩
    · rw [if_neg hactive]
      exact ⟨_, rfl, rfl, fun _ => rfl, fun h => absurd h hactive, fun _ _ => rfl,
        fun _ _ _ => rfl, fun _ => rfl, fun _ => rfl⟩
  choose fes hnew hactive hdone htuned huntuned hothers hwrong hinactive using hfe
  have hall : (Fields.ofFunction.updateAll
      (fun id fe => if fe.active then feedback l step (histos id) fe else some fe)
      (List.finRange n) s.fes) = some fes := by
    have hvalid : ∀ k ∈ List.finRange n,
        (Fields.ofFunction : Fields (Fin n → Fe chip) (Fin n) (Fe chip)).Valid k (fes k) :=
      fun _ _ => trivial
    rw [Fields.ofFunction_independent.updateAll_eq (List.nodup_finRange n)
      (fun id _ => hnew id) hvalid]
    congr 1
    funext id
    exact Fields.ofFunction_independent.get_setAll hvalid (List.mem_finRange id) s.fes
  refine ⟨⟨s.m_cur + 1, if s.m_cur + 1 = l.steps.length then true
      else if ∀ id, (fes id).fbDone = true then true else s.m_done, fes⟩, ?_,
    ⟨htuned, huntuned, hothers, hwrong, hinactive⟩, ⟨rfl, hactive, hdone, ?_⟩⟩
  · unfold round execPart1 execPart2
    rw [hstep, Option.bind_some, hall]
    rfl
  · show (if s.m_cur + 1 = l.steps.length then true
      else if ∀ id, (fes id).fbDone = true then true else s.m_done) = _
    by_cases hlast : s.m_cur + 1 = l.steps.length
    · rw [if_pos hlast, decide_eq_true hlast]
      rfl
    · rw [if_neg hlast, decide_eq_false hlast, Bool.false_or]
      by_cases hend : ∀ id, (fes id).fbDone = true
      · rw [if_pos hend, decide_eq_true hend]
        rfl
      · rw [if_neg hend, decide_eq_false hend, Bool.false_or]

theorem round_wrongSize {histos : Histos n S} {s s' : State chip n}
    (hround : round l histos s = some s') {id : Fin n}
    (hsize : (histos id).size ≠ chip.n_Row * chip.n_Col) :
    (s'.fes id).cfg = (s.fes id).cfg := by
  unfold round at hround
  obtain ⟨step, -, hround⟩ := Option.bind_eq_some_iff.mp hround
  unfold execPart2 at hround
  obtain ⟨fes, hfes, rfl⟩ := Option.map_eq_some_iff.mp hround
  have hone := Fields.ofFunction_independent.get_of_updateAll (fun _ _ _ _ => trivial)
    (List.nodup_finRange n) hfes (List.mem_finRange id)
  have hone : (if (s.fes id).active then feedback l step (histos id) (s.fes id)
      else some (s.fes id)) = some (fes id) := hone
  show (fes id).cfg = _
  by_cases hactive : (s.fes id).active = true
  · rw [if_pos hactive, feedback_wrongSize (s.fes id) hsize] at hone
    rw [← Option.some.inj hone]
  · rw [if_neg hactive] at hone
    rw [← Option.some.inj hone]

/-! ## All rounds -/

variable {histos : Nat → Histos n S} {s : State chip n}

/-- The histograms for active front-ends are of the matrix. -/
def RightSize (histos : Nat → Histos n S) (s : State chip n) : Prop :=
  ∀ k id, (s.fes id).active → (histos k id).size = chip.n_Row * chip.n_Col

/-- The sums fit in every round that is reached. -/
def FitsAll (l : Loop chip) (fits : chip.Pixel → UInt32 → Int → Int → Prop) (aim : Aim chip)
    (histos : Nat → Histos n S) (s : State chip n) : Prop :=
  ∀ k step, l.steps[k]? = some step → ∀ t, after l histos s k = some t →
    FitsRound fits aim step (histos k) t

/-- What holds between two rounds. -/
structure Between (l : Loop chip) (s : State chip n) (k : Nat) (t : State chip n) : Prop where
  m_cur : t.m_cur = k
  active : ∀ id, (t.fes id).active = (s.fes id).active
  fbDone : ∀ id, (t.fes id).fbDone = l.initDone

theorem between_init (l : Loop chip) (s : State chip n) : Between l s 0 (init l s) :=
  ⟨rfl, fun _ => rfl, fun _ => rfl⟩

omit [Element ℝ S] in
theorem Between.next {k : Nat} {t t' : State chip n} (hbetween : Between l s k t)
    (hright : RightSize histos s) (hnext : NextRound l (histos k) t t') :
    Between l s (k + 1) t' where
  m_cur := hnext.m_cur.trans (congrArg (· + 1) hbetween.m_cur)
  active id := (hnext.active id).trans (hbetween.active id)
  fbDone id := by
    have hsize : (t.fes id).active → (histos k id).size = chip.n_Row * chip.n_Col := by
      intro hactive
      rw [hbetween.active id] at hactive
      exact hright k id hactive
    exact (hnext.fbDone id hsize).trans (hbetween.fbDone id)

theorem round_after (hsound : Sound l aim fits) (hright : RightSize histos s)
    (hfits : FitsAll l fits aim histos s) {k : Nat} {step : UInt32}
    (hstep : l.steps[k]? = some step) {t : State chip n} (ht : after l histos s k = some t)
    (hbetween : Between l s k t) :
    ∃ t', round l (histos k) t = some t' ∧ after l histos s (k + 1) = some t' ∧
      RoundRight l aim step (histos k) t t' ∧ NextRound l (histos k) t t' ∧
      Between l s (k + 1) t' := by
  have hcur : l.steps[t.m_cur]? = some step := by
    rw [hbetween.m_cur]
    exact hstep
  obtain ⟨t', ht', hroundRight, hnext⟩ := round_spec hsound hcur (hfits k step hstep t ht)
  refine ⟨t', ht', ?_, hroundRight, hnext, hbetween.next hright hnext⟩
  show (after l histos s k).bind _ = some t'
  rw [ht]
  exact ht'

theorem after_defined (hsound : Sound l aim fits) (hright : RightSize histos s)
    (hfits : FitsAll l fits aim histos s) {k : Nat} (hk : k ≤ l.steps.length) :
    ∃ t, after l histos s k = some t ∧ Between l s k t := by
  induction k with
  | zero => exact ⟨init l s, rfl, between_init l s⟩
  | succ k ih =>
      obtain ⟨t, ht, hbetween⟩ := ih (Nat.le_of_succ_le hk)
      have hstep : l.steps[k]? = some l.steps[k] := List.getElem?_eq_getElem hk
      obtain ⟨t', -, hafter, -, -, hnext⟩ := round_after hsound hright hfits hstep ht hbetween
      exact ⟨t', hafter, hnext⟩

/-- Nothing keeps the loop going but its counter: `fbDoneMap` has no entry that is not done. -/
def NoneOpen (l : Loop chip) (n : Nat) : Prop := l.initDone = true ∨ n = 0

theorem noneOpen_iff {k : Nat} {t : State chip n} (hbetween : Between l s k t) :
    (∀ id, (t.fes id).fbDone = true) ↔ NoneOpen l n := by
  constructor
  · intro hall
    by_cases hzero : n = 0
    · exact Or.inr hzero
    · have hid := hall ⟨0, Nat.pos_of_ne_zero hzero⟩
      rw [hbetween.fbDone] at hid
      exact Or.inl hid
  · rintro (hdone | hzero) id
    · exact (hbetween.fbDone id).trans hdone
    · exact absurd id.isLt (by omega)

theorem m_done_after (hsound : Sound l aim fits) (hright : RightSize histos s)
    (hfits : FitsAll l fits aim histos s) (hopen : ¬NoneOpen l n) (hpos : 0 < l.steps.length)
    {k : Nat} (hk : k ≤ l.steps.length) {t : State chip n} (ht : after l histos s k = some t) :
    t.m_done = decide (k = l.steps.length) := by
  induction k generalizing t with
  | zero =>
      cases ht
      exact (decide_eq_false (Nat.ne_of_lt hpos)).symm
  | succ k ih =>
      obtain ⟨t₀, ht₀, hbetween⟩ := after_defined hsound hright hfits (Nat.le_of_succ_le hk)
      have hstep : l.steps[k]? = some l.steps[k] := List.getElem?_eq_getElem hk
      obtain ⟨t', -, hafter, -, hnext, hbetween'⟩ :=
        round_after hsound hright hfits hstep ht₀ hbetween
      rw [ht] at hafter
      cases hafter
      have hmore : ¬∀ id, (t.fes id).fbDone = true :=
        fun hall => hopen ((noneOpen_iff hbetween').mp hall)
      have hbefore : t₀.m_done = false := by
        rw [ih (Nat.le_of_succ_le hk) ht₀]
        exact decide_eq_false (Nat.ne_of_lt hk)
      rw [hnext.m_done, hbetween.m_cur, decide_eq_false hmore, hbefore, Bool.or_false,
        Bool.or_false]

theorem m_done_first (hsound : Sound l aim fits) (hright : RightSize histos s)
    (hfits : FitsAll l fits aim histos s) (hopen : NoneOpen l n) (hpos : 0 < l.steps.length)
    {t : State chip n} (ht : after l histos s 1 = some t) : t.m_done = true := by
  have hstep : l.steps[0]? = some l.steps[0] := List.getElem?_eq_getElem hpos
  obtain ⟨t', -, hafter, -, hnext, hbetween⟩ :=
    round_after hsound hright hfits hstep rfl (between_init l s)
  rw [ht] at hafter
  cases hafter
  rw [hnext.m_done, decide_eq_true ((noneOpen_iff hbetween).mpr hopen), Bool.or_true]
  rfl

theorem run_eq {total : Nat} {between : Nat → State chip n}
    (hround : ∀ k < total, round l (histos k) (between k) = some (between (k + 1)))
    (hdone : ∀ k ≤ total, (between k).m_done = decide (k = total)) (fuel : Nat) {k : Nat}
    (hk : k ≤ total) : run l histos fuel k (between k) =
      if total - k < fuel then .ok (between total) else .error .running := by
  induction fuel generalizing k with
  | zero => rfl
  | succ fuel ih =>
      by_cases heq : k = total
      · subst heq
        rw [run, hdone k le_rfl, decide_eq_true rfl, if_pos rfl, if_pos (by omega)]
      · have hlt : k < total := by omega
        have hnext := @ih (k + 1) hlt
        rw [run, hdone k hk, decide_eq_false heq, if_neg Bool.false_ne_true, hround k hlt]
        refine hnext.trans ?_
        by_cases hfuel : total - k < fuel + 1
        · rw [if_pos hfuel, if_pos (by omega)]
        · rw [if_neg hfuel, if_neg (by omega)]

/-- The rounds are as many as the steps if and only if there is one step, or an open entry. -/
theorem tunes_iff (hsound : Sound l aim fits) (hright : RightSize histos s)
    (hfits : FitsAll l fits aim histos s) (hpos : 0 < l.steps.length) :
    (∃ between, Tunes l aim histos s between) ↔ l.steps.length = 1 ∨ ¬NoneOpen l n := by
  constructor
  · rintro ⟨between, hstart, hround, hreturns⟩
    by_cases hopen : NoneOpen l n
    · left
      by_contra hne
      have hstep : l.steps[0]? = some l.steps[0] := List.getElem?_eq_getElem hpos
      have hfirst := (hround 0 _ hstep).1
      rw [hstart] at hfirst
      have hafter : after l histos s 1 = some (between 1) := hfirst
      have hdone := m_done_first hsound hright hfits hopen hpos hafter
      have hrun : execute l histos 2 s = .ok (between 1) := by
        have hzero : (init l s).m_done = false := rfl
        unfold execute
        rw [run, hzero, if_neg Bool.false_ne_true, hfirst]
        dsimp only
        rw [run, hdone, if_pos rfl]
      have hmore := hreturns 2
      rw [hrun, if_neg (by omega)] at hmore
      cases hmore
    · exact Or.inr hopen
  · intro hcond
    -- the states that the rounds lead to
    have hafter : ∀ k ≤ l.steps.length,
        after l histos s k = some ((after l histos s k).getD (init l s)) ∧
          Between l s k ((after l histos s k).getD (init l s)) := by
      intro k hk
      obtain ⟨t, ht, hbetween⟩ := after_defined hsound hright hfits hk
      rw [ht]
      exact ⟨rfl, hbetween⟩
    generalize hdef : (fun k => (after l histos s k).getD (init l s)) = between
    have hat : ∀ k ≤ l.steps.length,
        after l histos s k = some (between k) ∧ Between l s k (between k) := by
      rw [← hdef]
      exact hafter
    have hround : ∀ (k : Nat) (step : UInt32), l.steps[k]? = some step →
        round l (histos k) (between k) = some (between (k + 1)) ∧
          RoundRight l aim step (histos k) (between k) (between (k + 1)) := by
      intro k step hstep
      have hlt : k < l.steps.length := (List.getElem?_eq_some_iff.mp hstep).1
      obtain ⟨hk, hbetween⟩ := hat k (Nat.le_of_lt hlt)
      obtain ⟨t', ht', hnext, hright', -, -⟩ := round_after hsound hright hfits hstep hk hbetween
      rw [(hat (k + 1) hlt).1] at hnext
      cases hnext
      exact ⟨ht', hright'⟩
    have hdone : ∀ k ≤ l.steps.length, (between k).m_done = decide (k = l.steps.length) := by
      intro k hk
      by_cases hopen : NoneOpen l n
      · have hone : l.steps.length = 1 := hcond.resolve_right (not_not_intro hopen)
        cases k with
        | zero =>
            have hzero : init l s = between 0 := Option.some.inj (hat 0 hk).1
            rw [← hzero]
            exact (decide_eq_false (Nat.ne_of_lt hpos)).symm
        | succ k =>
            have hk0 : k = 0 := by omega
            subst hk0
            rw [m_done_first hsound hright hfits hopen hpos (hat 1 hk).1]
            exact (decide_eq_true hone.symm).symm
      · exact m_done_after hsound hright hfits hopen hpos hk (hat k hk).1
    have hstart : between 0 = init l s := by
      rw [← hdef]
      rfl
    refine ⟨between, hstart, hround, ?_⟩
    intro fuel
    have hsteps : ∀ k < l.steps.length, round l (histos k) (between k) = some (between (k + 1)) :=
      fun k hk => (hround k _ (List.getElem?_eq_getElem hk)).1
    have hrun := run_eq hsteps hdone fuel (Nat.zero_le _)
    rw [hstart] at hrun
    exact hrun

end Yarr.Rd53.PixelFeedback
