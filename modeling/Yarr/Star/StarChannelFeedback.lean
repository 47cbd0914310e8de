import Yarr.Core.Attempts
import Yarr.Scan.Histograms
import Yarr.Star.ChipIDs
import Yarr.Star.StarParamFeedback
import Yarr.Star.StripFields

/-!
# `StarChannelFeedback`

The trims of all strips go up or down by the signs of a histogram, with a new
step in each iteration of the loop.
-/

namespace Yarr.Star

open Scan

structure StarChannelFeedback where
  min : Int
  max : Int
  m_steps : List UInt32
  m_resetTdac : Bool
  m_cur : Nat
  m_done : Bool
  /-- Entries are only made for histograms of the wrong size. -/
  fbDoneMap : List (Nat × Bool)
  /-- Whether each front-end of the keeper is active. -/
  getActive : List Bool
  /-- `keeper->getFe`. -/
  fes : Nat → StarCfg

/-- `getBin(binNum(x, y))`: there is no bin -1. -/
def binAt (h : Histo2d) (x y : Nat) : ℚ :=
  match h.binNum x y with
  | some n => h.getBin n
  | none => 0

namespace StarChannelFeedback

open StarParamFeedback (nCol)

def nRow : Nat := RowsPerABC

/-- The active front-ends. -/
def ids (s : StarChannelFeedback) : List Nat :=
  (List.range s.getActive.length).filter fun id => s.getActive.getD id false

/-! ## One strip -/

/-- `v + ((m_steps[m_cur])*sign)`: the step is unsigned, and so are the product and the sum. -/
def stepped (v : Int) (step : UInt32) (sign : Int) : Int :=
  (UInt32.ofInt v + step * UInt32.ofInt sign).toBitVec.toInt

def clamped (min max v : Int) : Int :=
  let v := if v < min then min else v
  if max < v then max else v

/-- The sign of a strip. Columns and rows count from one. -/
def signOf (h : Histo2d) (histo_abc chan row : Nat) : Int :=
  toInt (binAt h (1 + histo_abc * StripsPerABCRow + chan) row)

def trimOrder (chan row : Nat) : Nat :=
  (AbcCfg.trimRegOrderFromChannel (UInt8.ofNat (chan + (row - 1) * StripsPerABCRow))).toNat

variable (s : StarChannelFeedback)

def updateStrip (h : Histo2d) (histo_abc : Nat) (abc : AbcCfg) (strip : Nat × Nat) :
    Except Failure AbcCfg :=
  let (chan, row) := strip
  let sign := signOf h histo_abc chan row
  let v : Int := abc.getTrimDACRaw (trimOrder chan row)
  match s.m_steps[s.m_cur]? with
  | none => .error .endIterator
  | some step =>
      abc.setTrimDACRaw (trimOrder chan row) (clamped s.min s.max (stepped v step sign))

/-! ## Loops -/

/-- The loops over the strips and rows of an ABC. -/
def abcStrips : List (Nat × Nat) :=
  (List.range StripsPerABCRow).flatMap fun chan => (List.range nRow).map fun r => (chan, r + 1)

def updateABC (h : Histo2d) (fe : StarCfg) (histo_abc : Nat) : Except Failure StarCfg := do
  let (ic, abc) ← fe.abcForHistoChip histo_abc
  let abc ← abcStrips.foldlM (s.updateStrip h histo_abc) abc
  return fe.replaceABC ic abc

def feedback (id : Nat) (h : Histo2d) : Except Failure StarChannelFeedback := do
  let fe := s.fes id
  if h.size ≠ nRow * nCol fe then
    return { s with fbDoneMap := (id, true) :: s.fbDoneMap.filter fun entry => entry.1 != id }
  else
    let fe ← (List.range (nCol fe / StripsPerABCRow)).foldlM (s.updateABC h) fe
    return { s with fes := Function.update s.fes id fe }

/-- Also true without any entry. -/
def isFeedbackDone : Bool := s.fbDoneMap.all Prod.snd

/-- `waitForFeedback` takes the histogram of each front-end. -/
def receive (fb : Nat → Histo2d) : Except Failure StarChannelFeedback :=
  s.ids.foldlM (fun s id => s.feedback id (fb id)) s

def execPart2 (fb : Nat → Histo2d) : Except Failure StarChannelFeedback := do
  let s ← s.receive fb
  let s := { s with m_cur := s.m_cur + 1 }
  if s.m_cur = s.m_steps.length then return { s with m_done := true }
  else if s.isFeedbackDone then return { s with m_done := true }
  else return s

/-! ## The start -/

def resetABC (fe : StarCfg) (ic : Fin MaxABCsPerHCC) : Except Failure StarCfg := do
  let abc ← fe.abcForInputChannel ic
  let abc ← (List.range StripsPerABC).foldlM (fun abc chan => abc.setTrimDACRaw chan 15) abc
  return fe.replaceABC ic abc

/-- `eachAbc`. -/
def resetTrims (fe : StarCfg) : Except Failure StarCfg :=
  (fe.m_ABCchips.map Prod.fst).foldlM resetABC fe

def resetFE (id : Nat) : Except Failure StarChannelFeedback := do
  let fe ← resetTrims (s.fes id)
  return { s with fes := Function.update s.fes id fe }

def init : Except Failure StarChannelFeedback := do
  let s := { s with m_done := false, m_cur := 0 }
  if s.m_resetTdac then s.ids.foldlM resetFE s else return s

end StarChannelFeedback

end Yarr.Star

/-!
## Steps of a trim

When the value that is passed to the setter is accepted and is the sum, limited
to the values that are configured and can be stored.
-/

namespace Yarr.Star

open Attempts Scan

namespace StarChannelFeedback

/-! ## Arithmetic -/

/-- The sum in the integers. -/
def trueSum (v : Int) (step : UInt32) (sign : Int) : Int := v + step.toNat * sign

theorem stepped_eq (v : Int) (step : UInt32) (sign : Int) :
    stepped v step sign = (trueSum v step sign).bmod (2 ^ 32) := by
  have hbits : (UInt32.ofInt v + step * UInt32.ofInt sign).toBitVec =
      BitVec.ofInt 32 (trueSum v step sign) := by
    have hstep : step.toBitVec = BitVec.ofInt 32 step.toNat := by
      rw [BitVec.ofInt_natCast, ← UInt32.toNat_toBitVec, BitVec.ofNat_toNat, BitVec.setWidth_eq]
    have hv : ∀ n : Int, (UInt32.ofInt n).toBitVec = BitVec.ofInt 32 n := by
      intro n
      apply BitVec.eq_of_toNat_eq
      rw [UInt32.toNat_toBitVec, UInt32.ofInt, UInt32.toNat_ofNat', BitVec.toNat_ofInt]
      omega
    unfold trueSum
    rw [UInt32.toBitVec_add, UInt32.toBitVec_mul, hv, hv, hstep, BitVec.ofInt_add, BitVec.ofInt_mul]
  unfold stepped
  rw [hbits, BitVec.toInt_ofInt]

/-- The limits of the configuration and of the setter. -/
def lowest (min : Int) : Int := Max.max min 0

def highest (max : Int) : Int := Min.min max 31

/-- The sum, limited to the values that are allowed and can be stored. -/
def lawful (min max v : Int) (step : UInt32) (sign : Int) : Int :=
  clamped (lowest min) (highest max) (trueSum v step sign)

/-- There is a value that is allowed and can be stored, sums outside of 0..31 are kept out by the
limits, and a sum that wraps comes out at the same limit. -/
structure Fits (min max v : Int) (step : UInt32) (sign : Int) : Prop where
  reachable : 0 ≤ max ∧ min ≤ 31
  low : 0 ≤ min ∨ 0 ≤ (trueSum v step sign).bmod (2 ^ 32)
  high : max ≤ 31 ∨ (trueSum v step sign).bmod (2 ^ 32) ≤ 31
  wrap : (trueSum v step sign).bmod (2 ^ 32) = trueSum v step sign ∨ lowest min = highest max ∨
    (highest max ≤ (trueSum v step sign).bmod (2 ^ 32) ∧ highest max ≤ trueSum v step sign) ∨
    ((trueSum v step sign).bmod (2 ^ 32) ≤ lowest min ∧ trueSum v step sign ≤ lowest min)

/-- The value that is passed to the setter. -/
def passed (min max v : Int) (step : UInt32) (sign : Int) : Int :=
  clamped min max (stepped v step sign)

theorem clamped_eq {min max : Int} (hle : min ≤ max) (v : Int) :
    clamped min max v = Max.max min (Min.min max v) := by
  unfold clamped
  dsimp only
  split <;> split <;> omega

/-- The value is accepted and is the right one. -/
def Obeyed (min max v : Int) (step : UInt32) (sign : Int) : Prop :=
  (0 ≤ passed min max v step sign ∧ passed min max v step sign ≤ 31) ∧
    passed min max v step sign = lawful min max v step sign

theorem clamped_accepted_iff {min max : Int} (hle : min ≤ max) (v : Int) :
    0 ≤ clamped min max v ∧ clamped min max v ≤ 31 ↔
      (0 ≤ max ∧ min ≤ 31) ∧ (0 ≤ min ∨ 0 ≤ v) ∧ (max ≤ 31 ∨ v ≤ 31) := by
  rw [clamped_eq hle]
  omega

theorem clamped_limits {min max : Int} (hle : min ≤ max) (hreach : 0 ≤ max ∧ min ≤ 31) {v : Int}
    (hlow : 0 ≤ min ∨ 0 ≤ v) (hhigh : max ≤ 31 ∨ v ≤ 31) :
    clamped min max v = clamped (lowest min) (highest max) v := by
  have hle' : lowest min ≤ highest max := by
    unfold lowest highest
    omega
  rw [clamped_eq hle, clamped_eq hle']
  unfold lowest highest
  omega

theorem clamped_eq_iff {lo hi : Int} (hle : lo ≤ hi) (v w : Int) :
    clamped lo hi v = clamped lo hi w ↔
      v = w ∨ lo = hi ∨ (hi ≤ v ∧ hi ≤ w) ∨ (v ≤ lo ∧ w ≤ lo) := by
  rw [clamped_eq hle, clamped_eq hle]
  omega

theorem obeyed_iff {min max : Int} (hle : min ≤ max) (v : Int) (step : UInt32) (sign : Int) :
    Obeyed min max v step sign ↔ Fits min max v step sign := by
  have hlimits (hreach : 0 ≤ max ∧ min ≤ 31) : lowest min ≤ highest max := by
    unfold lowest highest
    omega
  unfold Obeyed passed lawful
  rw [stepped_eq, clamped_accepted_iff hle]
  constructor
  · rintro ⟨⟨hreach, hlow, hhigh⟩, hlaw⟩
    rw [clamped_limits hle hreach hlow hhigh, clamped_eq_iff (hlimits hreach)] at hlaw
    exact ⟨hreach, hlow, hhigh, hlaw⟩
  · rintro ⟨hreach, hlow, hhigh, hwrap⟩
    rw [clamped_limits hle hreach hlow hhigh, clamped_eq_iff (hlimits hreach)]
    exact ⟨⟨hreach, hlow, hhigh⟩, hwrap⟩

/-! ## The strips of an ABC -/

theorem trimOrder_lt (chan row : Nat) : trimOrder chan row < StripsPerABC := UInt8.toNat_lt _

theorem trimOrders_nodup : (abcStrips.map fun p => trimOrder p.1 p.2).Nodup := by
  have hback : (abcStrips.map fun p => trimOrder p.1 p.2).map
      (fun c => 4 * (c / 4) + 2 * (c % 2) + c / 2 % 2) = List.range 256 := by decide +kernel
  apply List.Nodup.of_map
  rw [hback]
  exact List.nodup_range

section ABC

variable (s : StarChannelFeedback) (h : Histo2d) (k : Nat) (step : UInt32)

/-- The value that is passed for a strip, from the trim it has. -/
def passedFor (abc : AbcCfg) (strip : Nat × Nat) : Int :=
  passed s.min s.max (abc.getTrimDACRaw (trimOrder strip.1 strip.2)) step (signOf h k strip.1 strip.2)

theorem updateStrip_eq (hstep : s.m_steps[s.m_cur]? = some step) (abc : AbcCfg)
    (strip : Nat × Nat) : s.updateStrip h k abc strip =
      .ok (abc.storedTrim (trimOrder strip.1 strip.2) (s.passedFor h k step abc strip)) := by
  unfold updateStrip passedFor passed
  rw [hstep]
  exact abc.setTrimDACRaw_ok (trimOrder_lt strip.1 strip.2) _

/-- After some of the strips: each of them has the value that was passed if it was accepted, and
nothing else has changed. -/
structure Updated (abc : AbcCfg) (done : List (Nat × Nat)) (abc' : AbcCfg) : Prop where
  id : abc'.m_abcID = abc.m_abcID
  trims : ∀ strip ∈ done, (abc'.getTrimDACRaw (trimOrder strip.1 strip.2) : Int) =
    if 0 ≤ s.passedFor h k step abc strip ∧ s.passedFor h k step abc strip ≤ 31 then
      s.passedFor h k step abc strip
    else abc.getTrimDACRaw (trimOrder strip.1 strip.2)
  left : ∀ c, c < StripsPerABC → (∀ strip ∈ done, trimOrder strip.1 strip.2 ≠ c) →
    abc'.getTrimDACRaw c = abc.getTrimDACRaw c
  others : ∀ addr, AbcCfg.NoTrim addr → abc'.registers.value addr = abc.registers.value addr

theorem updateStrips_ok (hstep : s.m_steps[s.m_cur]? = some step) (abc : AbcCfg) :
    ∃ abc', abcStrips.foldlM (s.updateStrip h k) abc = .ok abc' ∧
      s.Updated h k step abc abcStrips abc' := by
  apply foldlM_ok (R := fun done abc' => s.Updated h k step abc done abc')
  · intro done strip abc₁ hprefix hbefore
    have hnew : ∀ p ∈ done, trimOrder p.1 p.2 ≠ trimOrder strip.1 strip.2 := fun p hp =>
      map_ne_of_concat trimOrders_nodup hprefix hp
    have hlt := trimOrder_lt strip.1 strip.2
    have hold : abc₁.getTrimDACRaw (trimOrder strip.1 strip.2) =
        abc.getTrimDACRaw (trimOrder strip.1 strip.2) := hbefore.left _ hlt hnew
    have hpassed : s.passedFor h k step abc₁ strip = s.passedFor h k step abc strip := by
      unfold passedFor
      rw [hold]
    refine ⟨_, s.updateStrip_eq h k step hstep abc₁ strip, ?_, ?_, ?_, ?_⟩
    · rw [AbcCfg.storedTrim_id, hbefore.id]
    · intro p hp
      rw [abc₁.getTrimDACRaw_storedTrim hlt _ (trimOrder_lt p.1 p.2), hpassed]
      rcases List.mem_append.mp hp with hdone | hlast
      · rw [if_neg fun hboth => hnew p hdone hboth.1]
        exact hbefore.trims p hdone
      · rw [List.mem_singleton.mp hlast, hold]
        simp only [true_and]
    · intro c hc hnot
      have hne := hnot strip (List.mem_append_right done List.mem_cons_self)
      have hsame := abc₁.getTrimDACRaw_storedTrim hlt (s.passedFor h k step abc₁ strip) hc
      rw [if_neg fun hboth => hne hboth.1.symm] at hsame
      rw [Int.ofNat_inj.mp hsame]
      exact hbefore.left c hc fun p hp => hnot p (List.mem_append_left _ hp)
    · intro addr haddr
      rw [abc₁.value_storedTrim hlt _ haddr, hbefore.others addr haddr]
  · exact {
      id := rfl
      trims := fun _ hp => absurd hp List.not_mem_nil
      left := fun _ _ _ => rfl
      others := fun _ _ => rfl }

end ABC

end StarChannelFeedback

end Yarr.Star
