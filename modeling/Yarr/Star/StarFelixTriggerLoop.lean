import Yarr.Core.FloatRounding
import Yarr.Star.LCB

/-!
# `StarFelixTriggerLoop`

The trigger sequence in the memory of the firmware: what comes before the
triggers, bursts of trigger segments with a readout of the hit counters behind
each, and what comes after.
-/

namespace Yarr.Star

open LCB_FELIX

/-- What the loop does with a `double`. The conversion to `int` has a value for some only. -/
class Frequency (D : Type) extends IntCast D, Div D, LT D, LE D where
  decLt : ∀ x y : D, Decidable (x < y)
  decLe : ∀ x y : D, Decidable (x ≤ y)
  toInt : D → Option Int

instance decidableLt {D : Type} [Frequency D] (x y : D) : Decidable (x < y) := Frequency.decLt x y

instance decidableLe {D : Type} [Frequency D] (x y : D) : Decidable (x ≤ y) := Frequency.decLe x y

instance : Frequency ℚ where
  decLt := inferInstance
  decLe := inferInstance
  toInt x :=
    let n := x.num.tdiv x.den
    if -2147483648 ≤ n ∧ n < 2147483648 then some n else none

/-- What can go wrong in the loop. -/
inductive LoopFault where
  | conversion
  | overflow
  | badSize
  | outside
  | underflow
  | divideByZero
  | shift
  deriving DecidableEq, Repr

structure StarFelixTriggerLoop (D : Type) where
  m_trigCnt : Nat
  m_trigDelay : Nat
  m_trigFreq : D
  m_noInject : Bool
  m_digital : Bool
  m_useHitCount : Bool
  m_seqMemAddrWidth : Nat
  m_nTrigsTrickle : Nat
  m_nPulse : Nat
  m_trickleSeq : List Nat

namespace StarFelixTriggerLoop

variable {D : Type} [Frequency D] (l : StarFelixTriggerLoop D)

def ABC_CAL_PULSE : Nat := 5
def ABC_DIGITAL_PULSE : Nat := 6
def ABC_HIT_COUNT_RESET : Nat := 7
def ABC_HIT_COUNT_START : Nat := 8
def ABC_HIT_COUNT_STOP : Nat := 9
def OPmode : Nat := 41
def HitCountREG0 : Nat := 128

/-- `-1` in an `unsigned`. -/
def minusOne : Nat := 4294967295

/-! ## A trigger segment -/

def freq (hz : Int) : D := (hz : D)

/-- The number of frames from one trigger to the next, at low frequencies. -/
def nFrames : Option Int := Frequency.toInt (freq 1000000000 / l.m_trigFreq / freq 100)

/-- One trigger behind idle frames. -/
def lowSegment (n : Nat) : List Nat := List.replicate n IDLE ++ l0a_mask 1 0 false

/-- From 10 to 15 MHz. -/
def segment13MHz (max_trigs : Nat) : List Nat × Nat :=
  let triggers := l0a_mask 2 0 false
  let (triggers, nTriggers) :=
    if max_trigs > 1 then (triggers ++ l0a_mask 4 0 false, 2) else (triggers, 1)
  if max_trigs = 3 then (triggers ++ l0a_mask 8 0 false, nTriggers + 1)
  else if max_trigs > 3 then (triggers ++ l0a_mask 9 0 false, nTriggers + 2)
  else (triggers, nTriggers)

/-- From 15 to 30 MHz. -/
def segment20MHz (max_trigs : Nat) : List Nat × Nat :=
  if max_trigs < 2 then (l0a_mask 4 0 false, 1) else (l0a_mask 5 0 false, 2)

def segment40MHz (max_trigs : Nat) : List Nat × Nat :=
  let mask :=
    if max_trigs = 3 then 14 else if max_trigs = 2 then 12 else if max_trigs = 1 then 8 else 15
  (l0a_mask mask 0 false, min 4 max_trigs)

/-- The segment, the number of triggers in it, and the frequency that it has. -/
def getTriggerSegment (max_trigs : Nat) :
    Except LoopFault (List Nat × Nat × StarFelixTriggerLoop D) :=
  if max_trigs = 0 then .ok ([], 0, l)
  else if l.m_trigFreq ≤ freq 10000000 then
    match l.nFrames with
    | none => .error .conversion
    | some n =>
        if n - 1 < 0 then .error .badSize
        else if 2147483648 ≤ n * 100 then .error .overflow
        else .ok (lowSegment (n - 1).toNat, 1,
          { l with m_trigFreq := freq 1000000000 / freq (n * 100) })
  else if l.m_trigFreq < freq 15000000 then
    let (triggers, nTriggers) := segment13MHz max_trigs
    .ok (triggers, nTriggers, { l with m_trigFreq := freq 1000000000 / freq (3 * 25) })
  else if l.m_trigFreq < freq 30000000 then
    let (triggers, nTriggers) := segment20MHz max_trigs
    .ok (triggers, nTriggers, { l with m_trigFreq := freq 1000000000 / freq (2 * 25) })
  else
    let (triggers, nTriggers) := segment40MHz max_trigs
    .ok (triggers, nTriggers, { l with m_trigFreq := freq 1000000000 / freq 25 })

/-! ## Charge injection -/

/-- No gap between the triggers. -/
def tooFast : Prop := freq 5000000 < l.m_trigFreq

/-- The delay is not below the interval between triggers. -/
def tooLate : Prop :=
  freq 1000000000 / l.m_trigFreq / freq 25 ≤ freq l.m_trigDelay

instance : Decidable l.tooFast := inferInstanceAs (Decidable (_ < _))

instance : Decidable l.tooLate := inferInstanceAs (Decidable (_ ≤ _))

/-- The pulse command goes to the place of an idle frame. -/
def addChargeInjection (trig_segment : List Nat) :
    Except LoopFault (List Nat × StarFelixTriggerLoop D) :=
  if l.tooFast then .ok (trig_segment, { l with m_trigDelay := minusOne })
  else if l.tooLate then .ok (trig_segment, { l with m_trigDelay := minusOne })
  else
    let index_l0a : Int := trig_segment.length - 3
    let bcsel := 3 - l.m_trigDelay % 4
    let inj := fast_command (if l.m_digital then ABC_DIGITAL_PULSE else ABC_CAL_PULSE) bcsel
    let nIDLE : Int := l.m_trigDelay / 4
    let iInj := index_l0a - nIDLE - 1
    if iInj < 0 ∨ trig_segment.length ≤ iInj then .error .outside
    else
      let i := iInj.toNat
      .ok (trig_segment.take i ++ inj ++ trig_segment.drop (i + 1), l)

/-! ## The sequence -/

def getHitCounterSegment : List Nat :=
  List.replicate 10 IDLE ++
    (List.range 64).flatMap (fun i =>
      read_abc_register (HitCountREG0 + i) 0xf 0xf ++ List.replicate 10 IDLE) ++
    fast_command ABC_HIT_COUNT_RESET 0 ++ fast_command ABC_HIT_COUNT_START 0 ++
    List.replicate 10 IDLE

def stopCnt : List Nat := fast_command ABC_HIT_COUNT_STOP 0

def trickleSeq_pre : List Nat :=
  read_hcc_register OPmode 0xf ++ stopCnt ++
    (if l.m_useHitCount then
      fast_command ABC_HIT_COUNT_RESET 0 ++ fast_command ABC_HIT_COUNT_START 0 else []) ++
    List.replicate 10 IDLE

def hitcount_seg : List Nat := if l.m_useHitCount then getHitCounterSegment else []

/-- Unsigned subtraction. -/
def subtract (a b : Nat) : Except LoopFault Nat := if b ≤ a then .ok (a - b) else .error .underflow

def divide (a b : Nat) : Except LoopFault Nat := if b = 0 then .error .divideByZero else .ok (a / b)

/-- `std::ceil(static_cast<float>(a) / b)`, converted to `unsigned`. -/
def ceilQuotient (a b : Nat) : Except LoopFault Nat :=
  if b = 0 then .error .divideByZero
  else
    let quotient := Single.ceilDiv (Single.ofNat a) (Single.ofNat b)
    if 4294967296 ≤ quotient then .error .conversion else .ok quotient.toNat

/-- `1 << m_seqMemAddrWidth`. -/
def TRICKLE_MEM_SIZE : Except LoopFault Nat :=
  if l.m_seqMemAddrWidth < 32 then .ok (2 ^ l.m_seqMemAddrWidth) else .error .shift

/-- The sequence does not fit. -/
def reject : StarFelixTriggerLoop D :=
  { l with
    m_nTrigsTrickle := 0
    m_nPulse := 0
    m_trigFreq := freq (-1)
    m_trigCnt := 0 }

/-- The burst, as often as needed or as the memory allows, and the pulses for the triggers. -/
def repeatBurst (memSize : Nat) (trickleSeq_burst : List Nat) (ntrig_per_burst : Nat) :
    Except LoopFault (StarFelixTriggerLoop D) := do
  let available ← subtract memSize (l.trickleSeq_pre.length + stopCnt.length)
  let nBurstMax ← divide available trickleSeq_burst.length
  let nBurstNeed ← ceilQuotient l.m_trigCnt ntrig_per_burst
  let nBurst := min nBurstNeed nBurstMax
  let nTrigsTrickle := ntrig_per_burst * nBurst
  let nPulse ← ceilQuotient l.m_trigCnt nTrigsTrickle
  return { l with
    m_trickleSeq := l.trickleSeq_pre ++ (List.replicate nBurst trickleSeq_burst).flatten ++ stopCnt
    m_nTrigsTrickle := nTrigsTrickle
    m_nPulse := nPulse
    m_trigCnt := nPulse * nTrigsTrickle % 4294967296 }

/-- Whole segments, one for the triggers that are left over, and the hit counters. -/
def makeBurst (memSize : Nat) (trigger_seg : List Nat) (ntrig_per_seg nMaxSeg_by_size : Nat) :
    Except LoopFault (StarFelixTriggerLoop D) := do
  let l := if nMaxSeg_by_size < 2 then { l with m_trigFreq := freq (-1) } else l
  let ntrig_per_burst := min 250 l.m_trigCnt
  let nSeg_per_burst ← divide ntrig_per_burst ntrig_per_seg
  let (nSeg_per_burst, ntrig_per_burst) :=
    if nSeg_per_burst ≥ nMaxSeg_by_size then (nMaxSeg_by_size, nMaxSeg_by_size * ntrig_per_seg)
    else (nSeg_per_burst, ntrig_per_burst)
  let trickleSeq_burst := (List.replicate nSeg_per_burst trigger_seg).flatten
  let (trigger_last, _, l) ← l.getTriggerSegment (ntrig_per_burst % ntrig_per_seg)
  l.repeatBurst memSize (trickleSeq_burst ++ trigger_last ++ l.hitcount_seg) ntrig_per_burst

/-- Charge injection if needed. -/
def inject (trigger_seg : List Nat) : Except LoopFault (List Nat × StarFelixTriggerLoop D) :=
  if l.m_noInject then .ok (trigger_seg, l) else l.addChargeInjection trigger_seg

/-- The segments that the memory has room for. -/
def fillMemory (memSize : Nat) (trigger_seg : List Nat) (ntrig_per_seg : Nat) :
    Except LoopFault (StarFelixTriggerLoop D) := do
  let bytes_available ←
    subtract memSize (l.trickleSeq_pre.length + stopCnt.length + l.hitcount_seg.length)
  let nMaxSeg_by_size ← divide bytes_available trigger_seg.length
  if nMaxSeg_by_size = 0 then return l.reject
  else l.makeBurst memSize trigger_seg ntrig_per_seg nMaxSeg_by_size

def makeTrickleSequence : Except LoopFault (StarFelixTriggerLoop D) := do
  let memSize ← l.TRICKLE_MEM_SIZE
  let l := { l with m_trickleSeq := [] }
  let (trigger_seg, ntrig_per_seg, l) ← l.getTriggerSegment minusOne
  let (trigger_seg, l) ← l.inject trigger_seg
  l.fillMemory memSize trigger_seg ntrig_per_seg

end StarFelixTriggerLoop

end Yarr.Star

/-!
## Charge injection

A pulse command takes the place of an idle frame, at a distance from the trigger
that is the delay. A frame lasts four bunch crossings. The crossings of a pulse
are counted from the end of its frame, those of a trigger from the start.
-/

namespace Yarr.Star

open LCB_FELIX

/-! ## Pulses and triggers in time -/

inductive Signal where
  | pulse
  | trigger
  deriving DecidableEq, Repr

def commandLength (type : Nat) : Nat :=
  if type = FASTCMD then 2
  else if type = L0A ∨ type = ABCREGRD ∨ type = HCCREGRD then 3
  else if type = ABCREGWR ∨ type = HCCREGWR then 7
  else 1

/-- The bunch crossings that a command takes. -/
def commandBCs (type : Nat) : Nat :=
  if type = ABCREGRD ∨ type = HCCREGRD then 16
  else if type = ABCREGWR ∨ type = HCCREGWR then 36
  else 4

def maskTriggers (bc mask : Nat) : List (Nat × Signal) :=
  ((List.range 4).filter fun s => mask.testBit (3 - s)).map fun s => (bc + s, .trigger)

def commandSignals (bc type : Nat) (rest : List Nat) : List (Nat × Signal) :=
  match rest with
  | [] => []
  | byte :: _ =>
      if type = FASTCMD then
        if byte % 16 = StarFelixTriggerLoop.ABC_CAL_PULSE ∨
            byte % 16 = StarFelixTriggerLoop.ABC_DIGITAL_PULSE then
          [(bc + 4 + byte / 16 % 4, .pulse)]
        else []
      else if type = L0A then maskTriggers bc byte
      else []

/-- The signals of a sequence that starts at a bunch crossing, behind bytes to skip. -/
def signals (bc : Nat) : Nat → List Nat → List (Nat × Signal)
  | _, [] => []
  | skip + 1, _ :: rest => signals bc skip rest
  | 0, type :: rest =>
      commandSignals bc type rest ++ signals (bc + commandBCs type) (commandLength type - 1) rest

def times (signal : Signal) (sequence : List Nat) : List Nat :=
  (signals 0 0 sequence).filterMap fun it => if it.2 = signal then some it.1 else none

theorem signals_idle (bc n : Nat) (rest : List Nat) :
    signals bc 0 (List.replicate n IDLE ++ rest) = signals (bc + 4 * n) 0 rest := by
  induction n generalizing bc with
  | zero => rfl
  | succ n ih =>
      have hidle : commandSignals bc IDLE (List.replicate n IDLE ++ rest) = [] := by
        cases List.replicate n IDLE ++ rest with
        | nil => rfl
        | cons byte bytes => rfl
      have hbc : bc + 4 + 4 * n = bc + 4 * (n + 1) := by omega
      show commandSignals bc IDLE (List.replicate n IDLE ++ rest) ++
        signals (bc + 4) 0 (List.replicate n IDLE ++ rest) = _
      rw [hidle, ih, hbc]
      rfl

theorem signals_trigger (bc : Nat) :
    signals bc 0 (l0a_mask 1 0 false) = [(bc + 3, .trigger)] := rfl

theorem signals_pulse (bc bcsel : Nat) (hbcsel : bcsel < 4) (digital : Bool) (rest : List Nat) :
    signals bc 0 (fast_command (if digital then StarFelixTriggerLoop.ABC_DIGITAL_PULSE
      else StarFelixTriggerLoop.ABC_CAL_PULSE) bcsel ++ rest) =
      (bc + 4 + bcsel, .pulse) :: signals (bc + 4) 0 rest := by
  have hcases : bcsel = 0 ∨ bcsel = 1 ∨ bcsel = 2 ∨ bcsel = 3 := by omega
  rcases hcases with rfl | rfl | rfl | rfl <;> cases digital <;> rfl

namespace StarFelixTriggerLoop

variable {D : Type} [Frequency D] (l : StarFelixTriggerLoop D)

/-- The delay is not turned down. -/
def Accepted : Prop := ¬l.tooFast ∧ ¬l.tooLate

/-- Each trigger has a pulse before it, at the distance of the delay, and no trigger has moved. -/
def Injected (trig_segment : List Nat) : Prop :=
  ∃ result l', l.addChargeInjection trig_segment = .ok (result, l') ∧
    (∀ t ∈ times .trigger result, ∃ p ∈ times .pulse result, p + l.m_trigDelay = t) ∧
    times .trigger result = times .trigger trig_segment

theorem length_lowSegment (n : Nat) : (lowSegment n).length = n + 3 := by
  rw [lowSegment, List.length_append, List.length_replicate]
  rfl

theorem lowSegment_split (before after : Nat) :
    (lowSegment (before + 1 + after)).take before = List.replicate before IDLE ∧
      (lowSegment (before + 1 + after)).drop (before + 1) = lowSegment after := by
  have hsplit : lowSegment (before + 1 + after) =
      List.replicate before IDLE ++ (IDLE :: lowSegment after) := by
    unfold lowSegment
    rw [List.replicate_add, List.replicate_succ', List.append_assoc, List.append_assoc]
    rfl
  rw [hsplit]
  constructor
  · rw [List.take_left' List.length_replicate]
  · have hdrop : before + 1 = (List.replicate before IDLE).length + 1 := by
      rw [List.length_replicate]
    rw [hdrop, List.drop_append]
    simp

theorem addChargeInjection_eq {n : Nat} (haccepted : l.Accepted)
    (hdelay : l.m_trigDelay / 4 < n) :
    l.addChargeInjection (lowSegment n) = .ok (List.replicate (n - 1 - l.m_trigDelay / 4) IDLE ++
      fast_command (if l.m_digital then ABC_DIGITAL_PULSE else ABC_CAL_PULSE)
        (3 - l.m_trigDelay % 4) ++ lowSegment (l.m_trigDelay / 4), l) := by
  have hindex : ((n + 3 : Nat) : Int) - 3 - ((l.m_trigDelay / 4 : Nat) : Int) - 1 =
      ((n - 1 - l.m_trigDelay / 4 : Nat) : Int) := by
    omega
  have hn : n = n - 1 - l.m_trigDelay / 4 + 1 + l.m_trigDelay / 4 := by omega
  rcases lowSegment_split (n - 1 - l.m_trigDelay / 4) (l.m_trigDelay / 4) with ⟨htake, hdrop⟩
  rw [← hn] at htake hdrop
  unfold addChargeInjection
  rw [if_neg haccepted.1, if_neg haccepted.2]
  dsimp only
  rw [length_lowSegment]
  have hinside : ¬(((n + 3 : Nat) : Int) - 3 - (l.m_trigDelay : Int) / 4 - 1 < 0 ∨
      ((n + 3 : Nat) : Int) ≤ ((n + 3 : Nat) : Int) - 3 - (l.m_trigDelay : Int) / 4 - 1) := by
    omega
  have hnat : (((n + 3 : Nat) : Int) - 3 - (l.m_trigDelay : Int) / 4 - 1).toNat =
      n - 1 - l.m_trigDelay / 4 := by
    omega
  rw [if_neg hinside, hnat, htake, hdrop]

/-- With too few idle frames the place is before the segment. -/
theorem addChargeInjection_outside {n : Nat} (haccepted : l.Accepted)
    (hdelay : n ≤ l.m_trigDelay / 4) :
    l.addChargeInjection (lowSegment n) = .error .outside := by
  unfold addChargeInjection
  rw [if_neg haccepted.1, if_neg haccepted.2]
  dsimp only
  rw [length_lowSegment]
  have hbefore : ((n + 3 : Nat) : Int) - 3 - (l.m_trigDelay : Int) / 4 - 1 < 0 := by
    omega
  rw [if_pos (Or.inl hbefore)]

theorem times_lowSegment (n : Nat) : times .trigger (lowSegment n) = [4 * n + 3] := by
  unfold times lowSegment
  rw [signals_idle, Nat.zero_add, signals_trigger]
  rfl

/-- The delay has to leave a whole idle frame before the trigger's. -/
theorem addChargeInjection_iff (n : Nat) (haccepted : l.Accepted) :
    l.Injected (lowSegment n) ↔ l.m_trigDelay < 4 * n := by
  by_cases hdelay : l.m_trigDelay / 4 < n
  · have hlt : l.m_trigDelay < 4 * n := by omega
    have hsignals : signals 0 0 (List.replicate (n - 1 - l.m_trigDelay / 4) IDLE ++
        fast_command (if l.m_digital then ABC_DIGITAL_PULSE else ABC_CAL_PULSE)
          (3 - l.m_trigDelay % 4) ++ lowSegment (l.m_trigDelay / 4)) =
        [(4 * (n - l.m_trigDelay / 4) + (3 - l.m_trigDelay % 4), .pulse),
          (4 * n + 3, .trigger)] := by
      rw [List.append_assoc, signals_idle, signals_pulse _ _ (by omega), lowSegment, signals_idle,
        signals_trigger]
      simp only [List.cons.injEq, Prod.mk.injEq, and_true]
      omega
    have htriggers : ∀ result, signals 0 0 result =
        [(4 * (n - l.m_trigDelay / 4) + (3 - l.m_trigDelay % 4), .pulse),
          (4 * n + 3, .trigger)] → times .trigger result = [4 * n + 3] ∧
        times .pulse result = [4 * (n - l.m_trigDelay / 4) + (3 - l.m_trigDelay % 4)] := by
      intro result hresult
      unfold times
      rw [hresult]
      exact ⟨rfl, rfl⟩
    rcases htriggers _ hsignals with ⟨htrigger, hpulse⟩
    have hbefore : 4 * (n - l.m_trigDelay / 4) + (3 - l.m_trigDelay % 4) + l.m_trigDelay =
        4 * n + 3 := by
      omega
    refine iff_of_true ⟨_, l, l.addChargeInjection_eq haccepted hdelay, ?_, ?_⟩ hlt
    · intro t ht
      rw [htrigger, List.mem_singleton] at ht
      rw [hpulse, ht]
      exact ⟨_, List.mem_singleton_self _, hbefore⟩
    · rw [htrigger, times_lowSegment]
  · have hge : ¬l.m_trigDelay < 4 * n := by omega
    apply iff_of_false _ hge
    rintro ⟨result, l', hrun, _⟩
    rw [l.addChargeInjection_outside haccepted (by omega)] at hrun
    cases hrun

/-- Triggers at 1 MHz, 40 bunch crossings apart. -/
def oneMHz (m_trigDelay : Nat) : StarFelixTriggerLoop ℚ where
  m_trigCnt := 50
  m_trigDelay := m_trigDelay
  m_trigFreq := 1000000
  m_noInject := false
  m_digital := false
  m_useHitCount := true
  m_seqMemAddrWidth := 12
  m_nTrigsTrickle := 0
  m_nPulse := 0
  m_trickleSeq := []

theorem oneMHz_accepted {m_trigDelay : Nat} (h : m_trigDelay < 40) :
    (oneMHz m_trigDelay).Accepted := by
  constructor
  · show ¬((5000000 : Int) : ℚ) < 1000000
    norm_num
  · show ¬((1000000000 : Int) : ℚ) / 1000000 / ((25 : Int) : ℚ) ≤ ((m_trigDelay : Int) : ℚ)
    have hdelay : ((m_trigDelay : Int) : ℚ) < 40 := by exact_mod_cast h
    norm_num
    exact_mod_cast h

theorem addChargeInjection_iff_oneMHz :
    (oneMHz 35).Injected (lowSegment 9) ↔ (oneMHz 35).m_trigDelay < 4 * 9 :=
  (oneMHz 35).addChargeInjection_iff 9 (oneMHz_accepted (by decide))

theorem addChargeInjection_before_segment :
    ¬∀ (l : StarFelixTriggerLoop ℚ) (n : Nat), l.Accepted → l.Injected (lowSegment n) := by
  intro h
  have haccepted : (oneMHz 38).Accepted := oneMHz_accepted (by decide)
  rcases h (oneMHz 38) 9 haccepted with ⟨result, l', hrun, _⟩
  rw [(oneMHz 38).addChargeInjection_outside haccepted (by decide)] at hrun
  cases hrun

end StarFelixTriggerLoop

end Yarr.Star
