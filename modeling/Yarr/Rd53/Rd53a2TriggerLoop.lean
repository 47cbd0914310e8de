import Yarr.Core.FloatRounding
import Yarr.Rd53.Rd53a
import Yarr.Rd53.TriggerTrain

/-!
# Double injections of RD53A

The words for two injections, each with a train of triggers behind it. Up to
16 bunch crossings apart they are the two edges of one command, from then on
there is a command for each. Offsets count words, delays bunch crossings and
durations quarters of them.
-/

namespace Yarr.Rd53

/-- The words under construction, and the triggers that they hold. -/
structure Burst where
  m_trigWord : TrigWords
  m_trigPulses : Vector UInt8 32

structure Rd53a2TriggerLoop where
  m_trigDelay : UInt32
  m_trigDelay2 : UInt32
  m_doubleDelay : ℚ
  m_Ntrig1 : UInt32
  m_Ntrig2 : UInt32
  m_noInject : Bool := false
  m_noInject2 : Bool := false
  m_synPulse : Bool := false
  /-- The double delay is a float. -/
  float_doubleDelay : FloatRounding.Representable 24 m_doubleDelay

namespace Rd53a2TriggerLoop

open Rd53aCmd

/-! ## Floats -/

/-- Values of the type `float`, without its bounds of the exponent. -/
def toFloat (x : ℚ) : ℚ := FloatRounding.round 24 x

/-- Towards zero. -/
def trunc (x : ℚ) : Int := if 0 ≤ x then ⌊x⌋ else ⌈x⌉

/-- `none`: the conversion is not defined. -/
def toInt (x : ℚ) : Option Int :=
  if -2 ^ 31 ≤ trunc x ∧ trunc x < 2 ^ 31 then some (trunc x) else none

def toUInt8 (x : ℚ) : Option UInt8 :=
  if 0 ≤ trunc x ∧ trunc x < 256 then some (UInt8.ofNat (trunc x).toNat) else none

/-- `std::round` of what is not negative. -/
def roundHalfUp (x : ℚ) : Int := ⌊x + 1 / 2⌋

/-- An `unsigned` where an `int` is expected. -/
def asInt (n : UInt32) : Int := n.toInt32.toInt

/-! ## Writing words -/

def idle : UInt32 := 0x69696969

def header : UInt32 := 0x69696363

def arm : UInt32 := genCal 8 ⟨1, 0, 0, 0, 0⟩

/-- Global pulse for the synchronous front end. -/
def pulse : UInt32 :=
  (0x5c5c0000 : UInt32) + (encode5to8 ((0x8 : UInt32) <<< 1) <<< 8)
    + encode5to8 ((8 : UInt32) <<< 1)

def m_trigWordLength : UInt32 := 32

/-- A word at an index, which an `int` may put in front of the array. -/
def putWord (s : Burst) (j : Int) (word : UInt32) : Option Burst :=
  if 0 ≤ j then
    (setTrigWord s.m_trigWord j.toNat word).map fun words => { s with m_trigWord := words }
  else none

/-- The triggers of the frame `n` of a train. -/
def trigPattern (trig_start_i trig_end_i : UInt8) (full_frames : Int) (n : Nat) : UInt8 :=
  let trig_pattern : UInt8 := if n = 0 then 0xFF <<< trig_start_i else 0xFF
  if (n : Int) = full_frames + 1 then trig_pattern &&& (0xFF >>> (7 - trig_end_i))
  else trig_pattern

def triggerWord (trig_pattern : UInt8) (n : Nat) : UInt32 :=
  genTrigger (trig_pattern &&& 0xF).toUInt32 (UInt32.ofNat (2 * n + 1))
    (trig_pattern >>> 4).toUInt32 (UInt32.ofNat (2 * n + 2))

/-- A frame keeps the triggers that it has. -/
def putFrame (s : Burst) (framei trig_pattern : UInt8) (n : Nat) : Option Burst :=
  if h : framei.toNat < 32 then
    let trig_pattern := s.m_trigPulses[framei.toNat] ||| trig_pattern
    some
      { m_trigWord := s.m_trigWord.set framei.toNat (triggerWord trig_pattern n)
        m_trigPulses := s.m_trigPulses.set framei.toNat trig_pattern }
  else none

def flexibleTrigger (offset : UInt8) (injDelay triggers delay : Int) (s : Burst) :
    Option Burst :=
  if triggers = 0 then some s
  else
    let empty_trigs := UInt16.ofInt (delay + injDelay - 8)
    let empty_frames := (empty_trigs / 8).toUInt8
    let trig_start_i := (empty_trigs % 8).toUInt8
    let full_frames := ⌊toFloat (triggers - (8 - trig_start_i.toNat) - 1) / 8⌋
    let trig_end_i := UInt8.ofInt ((empty_trigs.toNat + triggers - 1).tmod 8)
    (List.range (full_frames + 2).toNat).foldlM (fun s n =>
      putFrame s (offset - 2 - empty_frames - UInt8.ofNat n)
        (trigPattern trig_start_i trig_end_i full_frames n) n) s

variable (loop : Rd53a2TriggerLoop)

/-! ## One command for both injections -/

/-- Added up in the order of the source. -/
def secondEnd : ℚ :=
  toFloat (toFloat (toFloat (toFloat (loop.m_doubleDelay
    + toFloat loop.m_trigDelay2.toNat) + 16) - 5) + toFloat loop.m_Ntrig2.toNat)

def firstEnd : ℚ := toFloat (loop.m_trigDelay + 16 - 5 + loop.m_Ntrig1).toNat

/-- The index at which the header is to be inserted. -/
def singleOffset : Option UInt8 :=
  toUInt8 (toFloat (3 + toFloat (toFloat (max loop.firstEnd loop.secondEnd - 1) / 8)))

/-- The duration of the edge at 160 MHz. -/
def m_edgeDuration : Option UInt32 :=
  (toInt (toFloat (loop.m_doubleDelay * 4))).map UInt32.ofInt

/-- From the beginning of the command to the second injection. -/
def secondInjDelay (edgeDuration : UInt32) : Option Int :=
  toInt (toFloat (8 + roundHalfUp (toFloat (toFloat edgeDuration.toNat / 4))))

def singleCommand (edgeDuration : UInt32) : UInt32 :=
  if loop.m_noInject2 then genCal 8 ⟨0, 4, 1, 0, 1⟩
  else genCal 8 ⟨1, 4, edgeDuration, 1, 17⟩

def singleCmdInject (s : Burst) : Option Burst :=
  loop.singleOffset.bind fun of =>
    (putWord s of.toNat header).bind fun s =>
      loop.m_edgeDuration.bind fun edgeDuration =>
        (putWord s (of.toNat - 1) (loop.singleCommand edgeDuration)).bind fun s =>
          (secondInjDelay edgeDuration).bind fun injDelay =>
            (flexibleTrigger of injDelay (asInt loop.m_Ntrig2)
                (if loop.m_noInject2 then 0 else asInt loop.m_trigDelay2) s).bind
              fun s => flexibleTrigger of 8 (asInt loop.m_Ntrig1) (asInt loop.m_trigDelay) s

/-! ## A command for each injection -/

def secondOffset : UInt8 := ((loop.m_trigDelay2 + loop.m_Ntrig2) / 8).toUInt8

def secondCommand : UInt32 := genCal 8 ⟨1, 0, 0, 1, 0⟩

/-- The second command and its triggers. -/
def injectSecond (s : Burst) : Option Burst :=
  let of := loop.secondOffset
  if loop.m_noInject2 then
    (toUInt8 (5 / 2 + of.toNat)).bind fun offset =>
      flexibleTrigger offset 0 (asInt loop.m_Ntrig2) 0 s
  else
    (putWord s (3 + of.toNat) header).bind fun s =>
      (putWord s (2 + of.toNat) secondCommand).bind fun s =>
        (toUInt8 (7 / 2 + of.toNat)).bind fun offset =>
          flexibleTrigger offset 0 (asInt loop.m_Ntrig2) (asInt loop.m_trigDelay2) s

/-- What the delay leaves to the edge, for a whole number of bunch crossings. -/
def m_edgeDelay (doubleDelay : Int) : UInt32 := UInt32.ofInt (7 - (doubleDelay - 4).tmod 8)

def firstOffset (doubleDelay : Int) : UInt8 :=
  UInt8.ofInt (5 + (doubleDelay - 4).tdiv 8 + loop.secondOffset.toNat)

def firstCommand (edgeDelay : UInt32) : UInt32 :=
  genCal 8 ⟨0, edgeDelay, 1, 1, edgeDelay * 4 + 2⟩

def doubleCmdInject (s : Burst) : Option Burst :=
  (loop.injectSecond s).bind fun s =>
    (toInt loop.m_doubleDelay).bind fun doubleDelay =>
      let edgeDelay := m_edgeDelay doubleDelay
      let of := loop.firstOffset doubleDelay
      (flexibleTrigger of (asInt (edgeDelay + 5 - 1)) (asInt loop.m_Ntrig1)
          (asInt loop.m_trigDelay) s).bind fun s =>
        (putWord s of.toNat header).bind fun s =>
          putWord s (of.toNat - 1) (firstCommand edgeDelay)

/-! ## Checks -/

/-- The turn `n` of the loop of `findSmallestDelay`. -/
def smallestStep (k : Int8) (n : Nat) : Int8 :=
  let empty := loop.m_trigDelay + UInt32.ofNat (n + 4) - 9
  let empty_frames := (empty / 8).toUInt8
  let full_frames := ((loop.m_Ntrig1 - (8 - empty % 8) - 1) / 8).toUInt8.toInt8
  let frames : Int := empty_frames.toNat + full_frames.toInt
  if k.toInt < frames then Int8.ofInt frames else k

def findSmallestDelay : UInt8 :=
  if loop.m_Ntrig1 = 0 then 3
  else UInt8.ofInt ((((List.range 8).foldl loop.smallestStep (-10)).toInt + 4) * 8 - 11)

def synWords : UInt32 := if loop.m_synPulse then 1 else 0

def greatestDelay : UInt8 :=
  ((m_trigWordLength - 1 - loop.synWords - 5) * 8
    - (loop.m_trigDelay2 + loop.m_Ntrig2) / 8 * 8 - 5 + 9 + 7).toUInt8

/-- The number of errors that are logged. -/
def verifyParameters : Nat :=
  (if 16 ≤ loop.m_doubleDelay then
    (if 8 ≤ loop.m_trigDelay ∧ 8 ≤ loop.m_trigDelay2 ∧
        loop.m_trigDelay + loop.m_trigDelay2 ≤ 168 then 0 else 1)
      + (if (loop.findSmallestDelay.toNat : ℚ) > loop.m_doubleDelay then 1 else 0)
      + (if (loop.greatestDelay.toNat : ℚ) < loop.m_doubleDelay then 1 else 0)
    else 0)
    + (if loop.m_Ntrig2 ≤ 16 ∧ loop.m_Ntrig1 ≤ 16 then 0 else 1)

/-- `doubleCmdInject` logs that there are too many words. -/
def tooLarge : Bool :=
  decide (16 ≤ loop.m_doubleDelay) && match toInt loop.m_doubleDelay with
    | none => false
    | some doubleDelay => decide
        ((loop.firstOffset doubleDelay).toUInt32 > m_trigWordLength - 1 - loop.synWords)

/-- Neither check logs an error. -/
def Accepted : Prop := loop.verifyParameters = 0 ∧ loop.tooLarge = false

instance : Decidable loop.Accepted := inferInstanceAs (Decidable (_ ∧ _))

/-! ## All the words -/

/-- Shift the words by one, with a pulse in front. -/
def setAutozeroPulse (s : Burst) : Burst :=
  { s with
    m_trigWord := Vector.ofFn fun n =>
      if n.val = 0 then pulse else wordAt s.m_trigWord (n.val - 1) }

def empty : Burst where
  m_trigWord := Vector.replicate 32 idle
  m_trigPulses := Vector.replicate 32 0

/-- `init` up to the words for the Tx core. -/
def fill : Option Burst :=
  (if loop.m_doubleDelay < 16 then loop.singleCmdInject empty else loop.doubleCmdInject empty).bind
    fun s =>
      (putWord s 1 header).bind fun s =>
        (putWord s 0 arm).map fun s =>
          if loop.m_synPulse then setAutozeroPulse s else s

/-- What the Tx core gets. -/
def init : Option TrigWords :=
  loop.fill.map fun s =>
    if loop.m_noInject then Vector.replicate 32 idle else s.m_trigWord

end Rd53a2TriggerLoop

end Yarr.Rd53
