import Yarr.Core.Periods
import Yarr.Fei4.Fei4PixelCfg
import Yarr.Histo.Profile

/-!
# Tuning of the pixels of the FE-I4

In each round every pixel is moved by a step in the direction that the feedback
has for it, and the step is halved. The step that is left over at the end is
the first one of the next execution.
-/

namespace Yarr.Fei4

open Histo Fei4PixelCfg

inductive FeedbackType where
  | TDAC_FB
  | FDAC_FB

namespace FeedbackType

def register : FeedbackType → Register
  | TDAC_FB => .TDAC
  | FDAC_FB => .FDAC

def getPixel (fbType : FeedbackType) (fe : Fei4PixelCfg) (p : Pixel) : UInt32 :=
  match fbType with
  | TDAC_FB => fe.getTDAC p
  | FDAC_FB => fe.getFDAC p

def setPixel (fbType : FeedbackType) (fe : Fei4PixelCfg) (p : Pixel) (v : UInt32) :
    Fei4PixelCfg :=
  match fbType with
  | TDAC_FB => fe.setTDAC p v
  | FDAC_FB => fe.setFDAC p v

variable (fbType : FeedbackType) (fe : Fei4PixelCfg) (p : Pixel)

theorem getPixel_eq : fbType.getPixel fe p = fe.get p fbType.register := by
  cases fbType with
  | TDAC_FB => rfl
  | FDAC_FB => rfl

theorem setPixel_eq (v : UInt32) : fbType.setPixel fe p v = fe.set p fbType.register v := by
  cases fbType with
  | TDAC_FB => rfl
  | FDAC_FB => rfl

end FeedbackType

/-! ## The pixels in the order of the loops -/

theorem Pixel.number_pos {n : Nat} (i : Fin n) : 0 < i.val + 1 := Nat.succ_pos _

def Pixel.at (col : Fin n_Col) (row : Fin n_Row) : Pixel where
  col := col.val + 1
  row := row.val + 1
  col_pos := Pixel.number_pos col
  col_le := col.isLt
  row_pos := Pixel.number_pos row
  row_le := row.isLt

theorem Pixel.at_inj {col col' : Fin n_Col} {row row' : Fin n_Row}
    (heq : Pixel.at col row = Pixel.at col' row') : col = col' ∧ row = row' := by
  have hcol : col.val + 1 = col'.val + 1 := congrArg Pixel.col heq
  have hrow : row.val + 1 = row'.val + 1 := congrArg Pixel.row heq
  exact ⟨Fin.ext (by omega), Fin.ext (by omega)⟩

theorem Pixel.exists_at (p : Pixel) : ∃ col row, Pixel.at col row = p := by
  have hcol := p.col_pos
  have hrow := p.row_pos
  have hcol' : p.col ≤ 80 := p.col_le
  have hrow' : p.row ≤ 336 := p.row_le
  refine ⟨⟨p.col - 1, ?_⟩, ⟨p.row - 1, ?_⟩, ?_⟩
  · show p.col - 1 < 80
    omega
  · show p.row - 1 < 336
    omega
  · apply Pixel.ext
    · show p.col - 1 + 1 = p.col
      omega
    · show p.row - 1 + 1 = p.row
      omega

/-- Column by column. -/
def columnOrder : List Pixel :=
  ((List.finRange n_Col).product (List.finRange n_Row)).map fun c => Pixel.at c.1 c.2

/-- Row by row. -/
def rowOrder : List Pixel :=
  ((List.finRange n_Row).product (List.finRange n_Col)).map fun c => Pixel.at c.2 c.1

/-- A list that has every pixel once. -/
structure Complete (ps : List Pixel) : Prop where
  nodup : ps.Nodup
  mem : ∀ p, p ∈ ps

theorem complete_columnOrder : Complete columnOrder where
  nodup := by
    apply List.Nodup.map
    · intro c c' heq
      obtain ⟨hcol, hrow⟩ := Pixel.at_inj heq
      exact Prod.ext hcol hrow
    · exact (List.nodup_finRange _).product (List.nodup_finRange _)
  mem p := by
    obtain ⟨col, row, rfl⟩ := p.exists_at
    exact List.mem_map.mpr
      ⟨(col, row), List.mem_product.mpr ⟨List.mem_finRange _, List.mem_finRange _⟩, rfl⟩

theorem complete_rowOrder : Complete rowOrder where
  nodup := by
    apply List.Nodup.map
    · intro c c' heq
      obtain ⟨hcol, hrow⟩ := Pixel.at_inj heq
      exact Prod.ext hrow hcol
    · exact (List.nodup_finRange _).product (List.nodup_finRange _)
  mem p := by
    obtain ⟨col, row, rfl⟩ := p.exists_at
    exact List.mem_map.mpr
      ⟨(row, col), List.mem_product.mpr ⟨List.mem_finRange _, List.mem_finRange _⟩, rfl⟩

attribute [irreducible] columnOrder rowOrder

theorem get_foldl (r : Register) (f : Pixel → UInt32 → UInt32)
    (hf : ∀ p v, v.toNat < 2 ^ r.width → (f p v).toNat < 2 ^ r.width) {ps : List Pixel}
    (hnodup : ps.Nodup) (cfg : Fei4PixelCfg) (q : Pixel) :
    (ps.foldl (fun cfg p => cfg.set p r (f p (cfg.get p r))) cfg).get q r =
      if q ∈ ps then f q (cfg.get q r) else cfg.get q r := by
  induction ps generalizing cfg with
  | nil => rfl
  | cons p ps ih =>
      obtain ⟨hp, hnodup⟩ := List.nodup_cons.mp hnodup
      rw [List.foldl_cons, ih hnodup, get_set_self cfg p q r (hf p _ (get_lt cfg p r))]
      by_cases hq : q = p
      · subst hq
        rw [if_neg hp, if_pos rfl, if_pos List.mem_cons_self]
      · simp only [List.mem_cons, hq, false_or, if_false]

theorem get_foldl_of_ne {r s : Register} (hne : s ≠ r) (f : Pixel → UInt32 → UInt32)
    (ps : List Pixel) (cfg : Fei4PixelCfg) (q : Pixel) :
    (ps.foldl (fun cfg p => cfg.set p r (f p (cfg.get p r))) cfg).get q s = cfg.get q s := by
  induction ps generalizing cfg with
  | nil => rfl
  | cons p ps ih =>
      rw [List.foldl_cons, ih, get_set_of_ne cfg p q hne]

/-! ## The loop -/

namespace Fei4PixelFeedback

variable {S : Type} [Element ℝ S] {n : Nat}

/-- The conversion from `double` to `int`. -/
noncomputable def toInt (x : ℝ) : Int := if 0 ≤ x then ⌊x⌋ else ⌈x⌉

/-- The direction that a histogram has for a pixel. -/
noncomputable def sign (histo : Histo2d ℝ S) (p : Pixel) : Int :=
  toInt (histo.getBin (Histo2d.asUnsigned (histo.binNum p.col p.row)))

/-- The product and the sum are made in `unsigned`, the tests in `int`. -/
def moved (max : Int) (step v : UInt32) (sign : Int) : UInt32 :=
  let v := (BitVec.ofInt 32 (v.toNat + step.toNat * sign)).toInt
  let v := if v < 0 then 0 else v
  let v := if max < v then max else v
  UInt32.ofInt v

structure Fe (S : Type) where
  active : Bool
  cfg : Fei4PixelCfg
  fbHisto : Option (Histo2d ℝ S)

structure State (n : Nat) (S : Type) where
  step : UInt32
  oldStep : UInt32
  cur : UInt32
  m_done : Bool
  fes : Fin n → Fe S

/-- The configuration. -/
structure Loop where
  fbType : FeedbackType
  min : Int
  max : Int

/-- The histograms of all rounds. -/
abbrev Feedback (n : Nat) (S : Type) := Nat → Fin n → Histo2d ℝ S

/-- A histogram of another size is not kept. -/
def feedback (fe : Fe S) (h : Histo2d ℝ S) : Fe S :=
  if h.size ≠ 26880 then fe else { fe with fbHisto := some h }

variable (l : Loop)

noncomputable def addFeedback (step : UInt32) (fe : Fe S) : Fe S :=
  match fe.fbHisto with
  | none => fe
  | some histo =>
      { fe with
        cfg := rowOrder.foldl (fun cfg p =>
          l.fbType.setPixel cfg p (moved l.max step (l.fbType.getPixel cfg p) (sign histo p)))
          fe.cfg
        fbHisto := none }

/-- `oldStep` and `step` are as an earlier execution has left them. -/
def init (s : State n S) : State n S :=
  { s with
    m_done := false
    cur := 0
    fes := fun id =>
      let fe := s.fes id
      if fe.active then
        { fe with
          cfg := columnOrder.foldl
            (fun cfg p => l.fbType.setPixel cfg p (UInt32.ofInt l.min)) fe.cfg
          fbHisto := none }
      else fe }

noncomputable def execPart2 (histos : Fin n → Histo2d ℝ S) (s : State n S) : State n S :=
  { m_done := if s.step == 1 && s.oldStep == 1 then true else s.m_done
    oldStep := s.step
    step := if s.step / 2 == 0 then 1 else s.step / 2
    cur := s.cur + 1
    fes := fun id =>
      let fe := s.fes id
      if fe.active then addFeedback l s.step (feedback fe (histos id)) else fe }

/-- One execution, from a round on. `none` is a loop that goes on when the fuel is used up. -/
noncomputable def run (fb : Feedback n S) : Nat → Nat → State n S → Option (State n S)
  | 0, _, _ => none
  | fuel + 1, k, s => if s.m_done then some s else run fb fuel (k + 1) (execPart2 l (fb k) s)

noncomputable def execute (fb : Feedback n S) (fuel : Nat) (s : State n S) : Option (State n S) :=
  run l fb fuel 0 (init l s)

/-- The state after some rounds. -/
noncomputable def after (fb : Feedback n S) (s : State n S) : Nat → State n S
  | 0 => init l s
  | k + 1 => execPart2 l (fb k) (after fb s k)

/-! ## What the rounds are to do -/

/-- The direction for a pixel; a histogram that is not of the matrix has none. -/
noncomputable def applied (h : Histo2d ℝ S) (p : Pixel) : Int :=
  if h.size = 26880 then sign h p else 0

def clamp (max x : Int) : Int := if x < 0 then 0 else if max < x then max else x

def rounds (start : Nat) : Nat := Nat.log 2 start + 2

/-- An execution with a given first step. -/
structure Tunes (fb : Feedback n S) (s : State n S) (start : Nat) : Prop where
  returns : ∀ fuel, execute l fb fuel s =
    if rounds start < fuel then some (after l fb s (rounds start)) else none
  steps : ∀ k < rounds start, (after l fb s k).step.toNat = halved start k
  starts : ∀ id, (s.fes id).active → ∀ p,
    ((l.fbType.getPixel ((after l fb s 0).fes id).cfg p).toNat : Int) = l.min
  moves : ∀ k < rounds start, ∀ id, (s.fes id).active → ∀ p,
    ((l.fbType.getPixel ((after l fb s (k + 1)).fes id).cfg p).toNat : Int) =
      clamp l.max (((l.fbType.getPixel ((after l fb s k).fes id).cfg p).toNat : Int) +
        halved start k * applied (fb k id) p)
  inRange : ∀ k ≤ rounds start, ∀ id, (s.fes id).active → ∀ p,
    ((l.fbType.getPixel ((after l fb s k).fes id).cfg p).toNat : Int) ≤ l.max
  others : ∀ k ≤ rounds start, ∀ id p r, r ≠ l.fbType.register →
    ((after l fb s k).fes id).cfg.get p r = (s.fes id).cfg.get p r
  inactive : ∀ k ≤ rounds start, ∀ id, ¬(s.fes id).active →
    (after l fb s k).fes id = s.fes id

/-! ## When they do -/

/-- The number that the code makes of a sum. -/
def wrapped (x : Int) : Int := (BitVec.ofInt 32 x).toInt

/-- A sum out of the range is on the same side of it in 32 bits, if the range has two sides. -/
def Straight (max x : Int) : Prop :=
  max ≠ 0 → (x < 0 → wrapped x ≤ 0) ∧ (max < x → max ≤ wrapped x)

/-- The value of a pixel that the rounds are to lead to. -/
noncomputable def ideal (fb : Feedback n S) (start : Nat) (id : Fin n) (p : Pixel) : Nat → Int
  | 0 => l.min
  | k + 1 => clamp l.max (ideal fb start id p k + halved start k * applied (fb k id) p)

/-- The first step is the one that is left in the object, the last step is not taken for done,
and no sum comes round to the other side of the range. -/
structure Ready (fb : Feedback n S) (s : State n S) (start : Nat) : Prop where
  step : s.step.toNat = start
  fresh : ¬(start = 1 ∧ s.oldStep = 1)
  straight : ∀ k < rounds start, ∀ id, (s.fes id).active → ∀ p,
    Straight l.max (ideal l fb start id p k + halved start k * applied (fb k id) p)

/-- The range is one of the register. -/
structure Loop.Valid (l : Loop) : Prop where
  min_nonneg : 0 ≤ l.min
  min_le : l.min ≤ l.max
  max_lt : l.max < 2 ^ l.fbType.register.width

/-! ## One pixel -/

theorem clamp_range {max : Int} (hmax : 0 ≤ max) (x : Int) :
    0 ≤ clamp max x ∧ clamp max x ≤ max := by
  unfold clamp
  split
  · exact ⟨le_rfl, hmax⟩
  · split
    · exact ⟨hmax, le_rfl⟩
    · exact ⟨by omega, by omega⟩

theorem wrapped_of_small {x : Int} (hlow : -2 ^ 31 ≤ x) (hhigh : x < 2 ^ 31) : wrapped x = x := by
  unfold wrapped
  rw [BitVec.toInt_ofInt]
  exact Int.bmod_eq_of_le (by omega) (by omega)

theorem moved_eq_clamp {max : Int} (hmax : 0 ≤ max) (hsmall : max < 2 ^ 31) (step v : UInt32)
    (sign : Int) : ((moved max step v sign).toNat : Int) =
      clamp max (wrapped (v.toNat + step.toNat * sign)) := by
  show ((UInt32.ofInt (if max < (if wrapped (v.toNat + step.toNat * sign) < 0 then 0
    else wrapped (v.toNat + step.toNat * sign)) then max else
      (if wrapped (v.toNat + step.toNat * sign) < 0 then 0
        else wrapped (v.toNat + step.toNat * sign)))).toNat : Int) = _
  generalize wrapped (v.toNat + step.toNat * sign) = w
  have hclamp : (if max < (if w < 0 then 0 else w) then max else (if w < 0 then 0 else w)) =
      clamp max w := by
    unfold clamp
    split
    · split
      · omega
      · rfl
    · split
      · rfl
      · rfl
  obtain ⟨hlow, hhigh⟩ := clamp_range hmax w
  rw [hclamp, Bits.toNat_ofInt hlow (by omega)]
  omega

/-- What comes of a sum is what is to come of it unless it comes round. -/
theorem clamp_wrapped_iff {max : Int} (hmax : 0 ≤ max) (hsmall : max < 2 ^ 31) (x : Int) :
    clamp max (wrapped x) = clamp max x ↔ Straight max x := by
  have hsame : ¬x < 0 → ¬max < x → wrapped x = x := by
    intro hlow hhigh
    exact wrapped_of_small (by omega) (by omega)
  by_cases hzero : max = 0
  · constructor
    · intro _ hne
      exact absurd hzero hne
    · intro _
      have hw := clamp_range hmax (wrapped x)
      have hx := clamp_range hmax x
      omega
  · have hpos : 0 < max := by omega
    have hiff : Straight max x ↔ (x < 0 → wrapped x ≤ 0) ∧ (max < x → max ≤ wrapped x) :=
      ⟨fun hstraight => hstraight hzero, fun h _ => h⟩
    rw [hiff]
    unfold clamp
    by_cases hlow : x < 0
    · rw [if_pos hlow]
      constructor
      · intro heq
        refine ⟨fun _ => ?_, fun hlt => by omega⟩
        split at heq
        · omega
        · split at heq
          · omega
          · omega
      · rintro ⟨hle, -⟩
        have hw := hle hlow
        split
        · rfl
        · rw [if_neg (by omega)]
          omega
    · rw [if_neg hlow]
      by_cases hhigh : max < x
      · rw [if_pos hhigh]
        constructor
        · intro heq
          refine ⟨fun hlt => by omega, fun _ => ?_⟩
          split at heq
          · omega
          · split at heq
            · omega
            · omega
        · rintro ⟨-, hle⟩
          have hw := hle hhigh
          rw [if_neg (by omega)]
          split
          · rfl
          · omega
      · rw [if_neg hhigh, hsame hlow hhigh, if_neg hlow, if_neg hhigh]
        exact ⟨fun _ => ⟨fun hlt => absurd hlt hlow, fun hlt => absurd hlt hhigh⟩, fun _ => rfl⟩

theorem clamp_of_mem {max x : Int} (hlow : 0 ≤ x) (hhigh : x ≤ max) : clamp max x = x := by
  unfold clamp
  rw [if_neg (not_lt.mpr hlow), if_neg (not_lt.mpr hhigh)]

theorem moved_zero {max : Int} (hsmall : max < 2 ^ 31) (step : UInt32) {v : UInt32}
    (hv : (v.toNat : Int) ≤ max) : moved max step v 0 = v := by
  have hmax : 0 ≤ max := le_trans (Int.natCast_nonneg _) hv
  apply UInt32.toNat_inj.mp
  have heq := moved_eq_clamp hmax hsmall step v 0
  rw [Int.mul_zero, Int.add_zero, wrapped_of_small (by omega) (by omega),
    clamp_of_mem (Int.natCast_nonneg _) hv] at heq
  exact_mod_cast heq

/-! ## One round -/

variable {l}

theorem Loop.Valid.small (hvalid : l.Valid) : 0 ≤ l.max ∧ l.max < 2 ^ 31 := by
  have hwidth : (2 : Int) ^ l.fbType.register.width ≤ 2 ^ 5 := by
    cases l.fbType with
    | TDAC_FB => exact le_rfl
    | FDAC_FB => exact (by norm_num : (2 : Int) ^ 4 ≤ 2 ^ 5)
  have hlt := hvalid.max_lt
  have hlow := hvalid.min_nonneg
  have hle := hvalid.min_le
  omega

theorem Loop.Valid.toNat_lt (hvalid : l.Valid) {v : UInt32} (hv : (v.toNat : Int) ≤ l.max) :
    v.toNat < 2 ^ l.fbType.register.width := by
  have hlt := lt_of_le_of_lt hv hvalid.max_lt
  exact_mod_cast hlt

theorem moved_le (hvalid : l.Valid) (step v : UInt32) (sign : Int) :
    ((moved l.max step v sign).toNat : Int) ≤ l.max := by
  rw [moved_eq_clamp hvalid.small.1 hvalid.small.2]
  exact (clamp_range hvalid.small.1 _).2

theorem addFeedback_feedback (step : UInt32) (fe : Fe S) {h : Histo2d ℝ S}
    (hsize : h.size = 26880) :
    addFeedback l step (feedback fe h) =
      { fe with
        cfg := rowOrder.foldl (fun cfg p => cfg.set p l.fbType.register
          (moved l.max step (cfg.get p l.fbType.register) (sign h p))) fe.cfg
        fbHisto := none } := by
  unfold feedback
  rw [if_neg (not_not.mpr hsize)]
  unfold addFeedback
  simp only [FeedbackType.setPixel_eq, FeedbackType.getPixel_eq]

theorem addFeedback_spec (hvalid : l.Valid) {fe : Fe S} (hnone : fe.fbHisto = none)
    (hin : ∀ p, ((l.fbType.getPixel fe.cfg p).toNat : Int) ≤ l.max) (step : UInt32)
    (h : Histo2d ℝ S) :
    (∀ p, l.fbType.getPixel (addFeedback l step (feedback fe h)).cfg p =
      moved l.max step (l.fbType.getPixel fe.cfg p) (applied h p)) ∧
    (∀ p r, r ≠ l.fbType.register →
      (addFeedback l step (feedback fe h)).cfg.get p r = fe.cfg.get p r) ∧
    (addFeedback l step (feedback fe h)).active = fe.active ∧
    (addFeedback l step (feedback fe h)).fbHisto = none := by
  unfold applied
  by_cases hsize : h.size = 26880
  · rw [addFeedback_feedback step fe hsize]
    simp only [if_pos hsize, FeedbackType.getPixel_eq]
    refine ⟨?_, ?_, trivial, trivial⟩
    · intro p
      have hf : ∀ (p : Pixel) (v : UInt32), v.toNat < 2 ^ l.fbType.register.width →
          (moved l.max step v (sign h p)).toNat < 2 ^ l.fbType.register.width :=
        fun p v _ => hvalid.toNat_lt (moved_le hvalid step v (sign h p))
      rw [get_foldl l.fbType.register (fun p v => moved l.max step v (sign h p)) hf
        complete_rowOrder.nodup, if_pos (complete_rowOrder.mem p)]
    · intro p r hr
      exact get_foldl_of_ne hr (fun p v => moved l.max step v (sign h p)) _ _ p
  · unfold feedback
    rw [if_pos hsize]
    simp only [if_neg hsize]
    unfold addFeedback
    rw [hnone]
    refine ⟨?_, fun _ _ _ => rfl, rfl, hnone⟩
    intro p
    exact (moved_zero hvalid.small.2 step (hin p)).symm

omit [Element ℝ S] in
theorem init_spec (hvalid : l.Valid) (s : State n S) (id : Fin n) (hactive : (s.fes id).active) :
    (∀ p, l.fbType.getPixel ((init l s).fes id).cfg p = UInt32.ofInt l.min) ∧
    (∀ p r, r ≠ l.fbType.register →
      ((init l s).fes id).cfg.get p r = (s.fes id).cfg.get p r) ∧
    ((init l s).fes id).active = (s.fes id).active ∧ ((init l s).fes id).fbHisto = none := by
  have hmin : ((UInt32.ofInt l.min).toNat : Int) ≤ l.max := by
    have hlow := hvalid.min_nonneg
    have hle := hvalid.min_le
    have hmax := hvalid.small.2
    rw [Bits.toNat_ofInt hlow (by omega)]
    omega
  have hfes : (init l s).fes id =
      { s.fes id with
        cfg := columnOrder.foldl (fun cfg p => cfg.set p l.fbType.register (UInt32.ofInt l.min))
          (s.fes id).cfg
        fbHisto := none } := by
    unfold init
    simp only [FeedbackType.setPixel_eq]
    exact if_pos hactive
  rw [hfes]
  refine ⟨?_, ?_, rfl, rfl⟩
  · intro p
    rw [FeedbackType.getPixel_eq, get_foldl l.fbType.register (fun _ _ => UInt32.ofInt l.min)
      (fun _ _ _ => hvalid.toNat_lt hmin) complete_columnOrder.nodup,
      if_pos (complete_columnOrder.mem p)]
  · intro p r hr
    exact get_foldl_of_ne hr (fun _ _ => UInt32.ofInt l.min) columnOrder (s.fes id).cfg p

/-! ## All rounds -/

variable {fb : Feedback n S} {s : State n S} {start : Nat}

theorem after_inactive (k : Nat) {id : Fin n} (hinactive : ¬(s.fes id).active) :
    (after l fb s k).fes id = s.fes id := by
  induction k with
  | zero => exact if_neg hinactive
  | succ k ih =>
      have hstep : (after l fb s (k + 1)).fes id =
          if ((after l fb s k).fes id).active then
            addFeedback l (after l fb s k).step (feedback ((after l fb s k).fes id) (fb k id))
          else (after l fb s k).fes id := rfl
      rw [hstep, ih, if_neg hinactive]

/-- What holds of an active front-end after each round. -/
structure Steady (l : Loop) (s : State n S) (id : Fin n) (fe : Fe S) : Prop where
  active : fe.active
  fbHisto : fe.fbHisto = none
  inRange : ∀ p, ((l.fbType.getPixel fe.cfg p).toNat : Int) ≤ l.max
  others : ∀ p r, r ≠ l.fbType.register → fe.cfg.get p r = (s.fes id).cfg.get p r

theorem steady_after (hvalid : l.Valid) (k : Nat) {id : Fin n} (hactive : (s.fes id).active) :
    Steady l s id ((after l fb s k).fes id) := by
  induction k with
  | zero =>
      obtain ⟨hpixel, hothers, hact, hnone⟩ := init_spec hvalid s id hactive
      refine ⟨hact.trans hactive, hnone, ?_, hothers⟩
      intro p
      have hlow := hvalid.min_nonneg
      have hle := hvalid.min_le
      have hmax := hvalid.small.2
      show ((l.fbType.getPixel ((init l s).fes id).cfg p).toNat : Int) ≤ l.max
      rw [hpixel p, Bits.toNat_ofInt hlow (by omega)]
      omega
  | succ k ih =>
      obtain ⟨hpixel, hothers, hact, hnone⟩ :=
        addFeedback_spec hvalid ih.fbHisto ih.inRange (after l fb s k).step (fb k id)
      have hstep : (after l fb s (k + 1)).fes id =
          addFeedback l (after l fb s k).step (feedback ((after l fb s k).fes id) (fb k id)) :=
        if_pos ih.active
      rw [hstep]
      refine ⟨hact.trans ih.active, hnone, ?_, ?_⟩
      · intro p
        rw [hpixel p]
        exact moved_le hvalid _ _ _
      · intro p r hr
        rw [hothers p r hr, ih.others p r hr]

theorem getPixel_after_succ (hvalid : l.Valid) (k : Nat) {id : Fin n}
    (hactive : (s.fes id).active) (p : Pixel) :
    l.fbType.getPixel ((after l fb s (k + 1)).fes id).cfg p =
      moved l.max (after l fb s k).step (l.fbType.getPixel ((after l fb s k).fes id).cfg p)
        (applied (fb k id) p) := by
  have hsteady : Steady l s id ((after l fb s k).fes id) := steady_after hvalid k hactive
  have hstep : (after l fb s (k + 1)).fes id =
      addFeedback l (after l fb s k).step (feedback ((after l fb s k).fes id) (fb k id)) :=
    if_pos hsteady.active
  rw [hstep]
  exact (addFeedback_spec hvalid hsteady.fbHisto hsteady.inRange _ (fb k id)).1 p

theorem step_after (hstart : 0 < start) (hstep : s.step.toNat = start) (k : Nat) :
    (after l fb s k).step.toNat = halved start k := by
  induction k with
  | zero => exact hstep.trans (halved_zero hstart).symm
  | succ k ih =>
      show (if (after l fb s k).step / 2 == 0 then 1 else (after l fb s k).step / 2).toNat = _
      have hdiv : ((after l fb s k).step / 2).toNat = halved start k / 2 := by
        rw [UInt32.toNat_div, ih]
        rfl
      rw [halved_succ]
      by_cases hzero : (after l fb s k).step / 2 = 0
      · rw [hzero] at hdiv
        have hhalf : halved start k / 2 = 0 := hdiv.symm
        rw [hzero, hhalf]
        rfl
      · have hne : halved start k / 2 ≠ 0 := by
          intro hhalf
          exact hzero (UInt32.toNat_inj.mp (hdiv.trans hhalf))
        rw [if_neg (by simpa using hzero), hdiv]
        omega

/-- The loop is done after a round with step one, when the step before was one, too. -/
theorem done_succ (k : Nat) : (after l fb s (k + 1)).m_done =
    ((after l fb s k).step == 1 && (after l fb s k).oldStep == 1 || (after l fb s k).m_done) := by
  show (if (after l fb s k).step == 1 && (after l fb s k).oldStep == 1 then true
    else (after l fb s k).m_done) = _
  cases (after l fb s k).step == 1 && (after l fb s k).oldStep == 1 with
  | false => rfl
  | true => rfl

theorem step_eq_one_iff (hstart : 0 < start) (hstep : s.step.toNat = start) (k : Nat) :
    (after l fb s k).step = 1 ↔ Nat.log 2 start ≤ k := by
  rw [← halved_eq_one_iff hstart, ← step_after hstart hstep k]
  exact ⟨fun heq => congrArg UInt32.toNat heq, fun heq => UInt32.toNat_inj.mp heq⟩

theorem done_after (hstart : 0 < start) (hstep : s.step.toNat = start)
    (hfresh : ¬(start = 1 ∧ s.oldStep = 1)) {k : Nat} (hk : k ≤ rounds start) :
    (after l fb s k).m_done = decide (k = rounds start) := by
  induction k with
  | zero => exact (decide_eq_false (Nat.succ_ne_zero _).symm).symm
  | succ k ih =>
      have hbefore : (after l fb s k).m_done = false := by
        rw [ih (Nat.le_of_succ_le hk)]
        exact decide_eq_false (Nat.ne_of_lt hk)
      have hold : ((after l fb s k).step = 1 ∧ (after l fb s k).oldStep = 1) ↔
          k + 1 = rounds start := by
        rw [step_eq_one_iff hstart hstep]
        unfold rounds at hk ⊢
        cases k with
        | zero =>
            constructor
            · rintro ⟨hlog, hone⟩
              have hstart1 : start = 1 := by
                have hhalved := (halved_eq_one_iff hstart 0).mpr hlog
                rwa [halved_zero hstart] at hhalved
              exact absurd ⟨hstart1, hone⟩ hfresh
            · intro heq
              omega
        | succ j =>
            have hprev : (after l fb s (j + 1)).oldStep = (after l fb s j).step := rfl
            rw [hprev, step_eq_one_iff hstart hstep]
            omega
      rw [done_succ, hbefore, Bool.or_false]
      by_cases heq : k + 1 = rounds start
      · rw [decide_eq_true heq]
        obtain ⟨hone, hone'⟩ := hold.mpr heq
        rw [hone, hone']
        rfl
      · rw [decide_eq_false heq, Bool.and_eq_false_iff]
        by_cases hone : (after l fb s k).step = 1
        · right
          have hne : (after l fb s k).oldStep ≠ 1 := fun hone' => heq (hold.mp ⟨hone, hone'⟩)
          simpa using hne
        · left
          simpa using hone

theorem run_eq {total : Nat} (hdone : ∀ k ≤ total, (after l fb s k).m_done = decide (k = total))
    (fuel : Nat) {k : Nat} (hk : k ≤ total) : run l fb fuel k (after l fb s k) =
      if total - k < fuel then some (after l fb s total) else none := by
  induction fuel generalizing k with
  | zero => rfl
  | succ fuel ih =>
      by_cases heq : k = total
      · subst heq
        rw [run, hdone k le_rfl, decide_eq_true rfl, if_pos rfl, if_pos (by omega)]
      · have hnext := @ih (k + 1) (by omega)
        rw [run, hdone k hk, decide_eq_false heq, if_neg Bool.false_ne_true]
        refine hnext.trans ?_
        by_cases hlt : total - k < fuel + 1
        · rw [if_pos hlt, if_pos (by omega)]
        · rw [if_neg hlt, if_neg (by omega)]

theorem starts_after (hvalid : l.Valid) {id : Fin n} (hactive : (s.fes id).active) (p : Pixel) :
    ((l.fbType.getPixel ((after l fb s 0).fes id).cfg p).toNat : Int) = l.min := by
  have hlow := hvalid.min_nonneg
  have hle := hvalid.min_le
  have hmax := hvalid.small.2
  show ((l.fbType.getPixel ((init l s).fes id).cfg p).toNat : Int) = l.min
  rw [(init_spec hvalid s id hactive).1 p, Bits.toNat_ofInt hlow (by omega)]
  omega

theorem move_iff (hvalid : l.Valid) (hstart : 0 < start) (hstep : s.step.toNat = start) (k : Nat)
    {id : Fin n} (hactive : (s.fes id).active) (p : Pixel) :
    ((l.fbType.getPixel ((after l fb s (k + 1)).fes id).cfg p).toNat : Int) =
      clamp l.max (((l.fbType.getPixel ((after l fb s k).fes id).cfg p).toNat : Int) +
        halved start k * applied (fb k id) p) ↔
    Straight l.max (((l.fbType.getPixel ((after l fb s k).fes id).cfg p).toNat : Int) +
      halved start k * applied (fb k id) p) := by
  obtain ⟨hmax, hsmall⟩ := hvalid.small
  rw [getPixel_after_succ hvalid k hactive p, moved_eq_clamp hmax hsmall,
    step_after hstart hstep k]
  exact clamp_wrapped_iff hmax hsmall _

theorem eq_ideal (hvalid : l.Valid) {id : Fin n} (hactive : (s.fes id).active) (p : Pixel) {k : Nat}
    (hmoves : ∀ j < k, ((l.fbType.getPixel ((after l fb s (j + 1)).fes id).cfg p).toNat : Int) =
      clamp l.max (((l.fbType.getPixel ((after l fb s j).fes id).cfg p).toNat : Int) +
        halved start j * applied (fb j id) p)) :
    ((l.fbType.getPixel ((after l fb s k).fes id).cfg p).toNat : Int) =
      ideal l fb start id p k := by
  induction k with
  | zero => exact starts_after hvalid hactive p
  | succ k ih =>
      rw [hmoves k (Nat.lt_succ_self k), ih fun j hj => hmoves j (Nat.lt_succ_of_lt hj)]
      rfl

theorem moves_of_ready (hvalid : l.Valid) (hstart : 0 < start) (hready : Ready l fb s start)
    {k : Nat} (hk : k ≤ rounds start) {id : Fin n} (hactive : (s.fes id).active) (p : Pixel) :
    ∀ j < k, ((l.fbType.getPixel ((after l fb s (j + 1)).fes id).cfg p).toNat : Int) =
      clamp l.max (((l.fbType.getPixel ((after l fb s j).fes id).cfg p).toNat : Int) +
        halved start j * applied (fb j id) p) := by
  induction k with
  | zero =>
      intro j hj
      exact absurd hj (Nat.not_lt_zero j)
  | succ k ih =>
      have hmoves := ih (Nat.le_of_succ_le hk)
      intro j hj
      by_cases heq : j = k
      · subst heq
        rw [move_iff hvalid hstart hready.step j hactive p, eq_ideal hvalid hactive p hmoves]
        exact hready.straight j hk id hactive p
      · exact hmoves j (by omega)

theorem left_over (k : Nat) (hdone : (after l fb s k).m_done = true) :
    (after l fb s k).step = 1 ∧ (after l fb s k).oldStep = 1 := by
  induction k with
  | zero => cases hdone
  | succ k ih =>
      have hbefore : (after l fb s k).step = 1 := by
        rw [done_succ, Bool.or_eq_true, Bool.and_eq_true] at hdone
        rcases hdone with ⟨hone, -⟩ | hdone
        · simpa using hone
        · exact (ih hdone).1
      refine ⟨?_, hbefore⟩
      show (if (after l fb s k).step / 2 == 0 then 1 else (after l fb s k).step / 2) = 1
      rw [hbefore]
      rfl

/-- The histograms have no direction but down, none and up. -/
theorem ready_of_signs (hvalid : l.Valid) (hstep : s.step.toNat = start)
    (hfresh : ¬(start = 1 ∧ s.oldStep = 1)) (hsmall : start ≤ 2 ^ 30)
    (hsigns : ∀ k id p, -1 ≤ applied (fb k id) p ∧ applied (fb k id) p ≤ 1) :
    Ready l fb s start := by
  refine ⟨hstep, hfresh, ?_⟩
  intro k _ id _ p _
  have hideal : 0 ≤ ideal l fb start id p k ∧ ideal l fb start id p k ≤ l.max := by
    cases k with
    | zero => exact ⟨hvalid.min_nonneg, hvalid.min_le⟩
    | succ k => exact clamp_range hvalid.small.1 _
  have hmax : l.max < 2 ^ 5 := by
    have hlt := hvalid.max_lt
    cases hl : l.fbType with
    | TDAC_FB =>
        rw [hl] at hlt
        exact hlt
    | FDAC_FB =>
        rw [hl] at hlt
        exact hlt.trans (by norm_num [FeedbackType.register, Register.width])
  have hhalved : (halved start k : Int) ≤ 2 ^ 30 := by
    have hle : start / 2 ^ k ≤ start := Nat.div_le_self _ _
    have hlt : halved start k ≤ 2 ^ 30 := Nat.max_le.mpr ⟨by norm_num, hle.trans hsmall⟩
    exact_mod_cast hlt
  have hnonneg : (0 : Int) ≤ halved start k := Int.natCast_nonneg _
  obtain ⟨hdown, hup⟩ := hsigns k id p
  have hlow : -(halved start k : Int) ≤ halved start k * applied (fb k id) p := by nlinarith
  have hhigh : halved start k * applied (fb k id) p ≤ (halved start k : Int) := by nlinarith
  rw [wrapped_of_small (by omega) (by omega)]
  exact ⟨fun hlt => hlt.le, fun hlt => hlt.le⟩

/-- An execution is right if and only if its first step is the start step, that step is not
already taken for the last one, and no sum comes round. -/
theorem pixel_rounds_iff (l : Loop) (hvalid : l.Valid) (fb : Feedback n S) (s : State n S)
    (start : Nat) (hstart : 0 < start) : Tunes l fb s start ↔ Ready l fb s start := by
  constructor
  · intro htunes
    have hpos : 0 < rounds start := Nat.succ_pos _
    have hstep : s.step.toNat = start := (htunes.steps 0 hpos).trans (halved_zero hstart)
    refine ⟨hstep, ?_, ?_⟩
    · rintro ⟨hone, hold⟩
      subst hone
      -- the first round is taken for the last one
      have hdone : (after l fb s 1).m_done = true := by
        have hstep' : (after l fb s 0).step = 1 := UInt32.toNat_inj.mp hstep
        have hold' : (after l fb s 0).oldStep = 1 := hold
        rw [done_succ, hstep', hold']
        rfl
      have hrounds : rounds 1 = 2 := rfl
      have hreturns := htunes.returns 2
      rw [hrounds, if_neg (lt_irrefl 2)] at hreturns
      have hrun : execute l fb 2 s = some (after l fb s 1) := by
        show (if (after l fb s 1).m_done = true then some (after l fb s 1) else _) = _
        exact if_pos hdone
      rw [hrun] at hreturns
      cases hreturns
    · intro k hk id hactive p
      have hideal : ((l.fbType.getPixel ((after l fb s k).fes id).cfg p).toNat : Int) =
          ideal l fb start id p k :=
        eq_ideal hvalid hactive p fun j hj => htunes.moves j (hj.trans hk) id hactive p
      rw [← hideal]
      exact (move_iff hvalid hstart hstep k hactive p).mp (htunes.moves k hk id hactive p)
  · intro hready
    have hdone : ∀ k ≤ rounds start, (after l fb s k).m_done = decide (k = rounds start) :=
      fun k hk => done_after hstart hready.step hready.fresh hk
    constructor
    · intro fuel
      exact run_eq hdone fuel (Nat.zero_le _)
    · intro k _
      exact step_after hstart hready.step k
    · intro id hactive p
      exact starts_after hvalid hactive p
    · intro k hk id hactive p
      exact moves_of_ready hvalid hstart hready hk hactive p k (Nat.lt_succ_self k)
    · intro k _ id hactive p
      exact (steady_after hvalid k hactive).inRange p
    · intro k _ id p r hr
      by_cases hactive : (s.fes id).active
      · exact (steady_after hvalid k hactive).others p r hr
      · rw [after_inactive k hactive]
    · intro k _ id hinactive
      exact after_inactive k hinactive

/-- A front-end with all bits zero. -/
def blank : Fei4PixelCfg where
  m_En := .replicate _ (.replicate _ 0)
  m_TDAC := .replicate _ ⟨.replicate _ (.replicate _ 0)⟩
  m_LCap := .replicate _ (.replicate _ 0)
  m_SCap := .replicate _ (.replicate _ 0)
  m_Hitbus := .replicate _ (.replicate _ 0)
  m_FDAC := .replicate _ ⟨.replicate _ (.replicate _ 0)⟩

/-- The defaults for the threshold. -/
def tdacLoop : Loop := ⟨.TDAC_FB, 16, 31⟩

theorem tdacLoop_valid : tdacLoop.Valid :=
  ⟨by decide, by decide, by decide⟩

/-- A histogram of the matrix with nothing in it. -/
noncomputable def noDirection : Feedback 1 ℝ :=
  fun _ _ => .new "h" 80 half (80 + half) 336 half (336 + half) .iterationEnd

def newLoop (step : UInt32) : State 1 ℝ :=
  ⟨step, 0, 0, false, fun _ => ⟨true, blank, none⟩⟩

theorem applied_noDirection (k : Nat) (id : Fin 1) (p : Pixel) :
    applied (noDirection k id) p = 0 := by
  have hbin : ∀ m, (noDirection k id).getBin m = 0 := by
    intro m
    unfold Histo2d.getBin
    split
    · have hdata : (noDirection k id).data = List.replicate (80 * 336) 0 := rfl
      rw [hdata, List.getD_eq_getElem?_getD]
      generalize 80 * 336 = size
      rw [List.getElem?_replicate]
      split
      · rfl
      · rfl
    · rfl
  unfold applied sign
  rw [hbin, toInt, if_pos le_rfl, Int.floor_zero, ite_self]

theorem ready_newLoop {start : Nat} (hlt : start ≤ 2 ^ 30) :
    Ready tdacLoop noDirection (newLoop (UInt32.ofNat start)) start := by
  apply ready_of_signs tdacLoop_valid
  · show (UInt32.ofNat start).toNat = start
    rw [UInt32.toNat_ofNat', Nat.mod_eq_of_lt (by omega)]
  · rintro ⟨-, hold⟩
    cases hold
  · exact hlt
  · intro k id p
    rw [applied_noDirection]
    exact ⟨by decide, by decide⟩

/-- The first execution of a new object with the default step. -/
theorem default_step_tunes : Tunes tdacLoop noDirection (newLoop 8) 8 :=
  (pixel_rounds_iff tdacLoop tdacLoop_valid noDirection (newLoop 8) 8 (by decide)).mpr
    (ready_newLoop (by decide))

/-- The second execution of the same object begins with a step of one. -/
theorem second_execution_differs :
    ∃ s, execute tdacLoop noDirection 6 (newLoop 8) = some s ∧ ¬Tunes tdacLoop noDirection s 8 := by
  have hready : Ready tdacLoop noDirection (newLoop 8) 8 := ready_newLoop (by decide)
  have hdone : ∀ k ≤ rounds 8, (after tdacLoop noDirection (newLoop 8) k).m_done =
      decide (k = rounds 8) :=
    fun k hk => done_after (by decide) hready.step hready.fresh hk
  have hrounds : rounds 8 = 5 := rfl
  rw [hrounds] at hdone
  refine ⟨after tdacLoop noDirection (newLoop 8) 5, run_eq hdone 6 (Nat.zero_le 5), ?_⟩
  intro htunes
  have hone := (left_over 5 ((hdone 5 le_rfl).trans (decide_eq_true rfl))).1
  have height := htunes.steps 0 (Nat.succ_pos _)
  have hstep : (after tdacLoop noDirection (newLoop 8) 5).step.toNat = 8 := height
  rw [hone] at hstep
  cases hstep

end Fei4PixelFeedback

end Yarr.Fei4
