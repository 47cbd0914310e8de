import Yarr.Core.Bits
import Yarr.Itkpixv2Emu.CommandTransport
import Yarr.Rd53.TriggerTrain

/-!
# The triggers of a single injection

The trigger loops of ITkPixV2 and RD53B put an injection command at the front of
the words and a re-arm command at their end, with a train of triggers between.
The mode with edges and the one without injection overwrite the commands.
-/

namespace Yarr.Rd53

open Itkpixv2Cmd Itkpixv2Emu

/-- The settings that the two loops have alike. -/
structure InjectionLoop where
  m_trigCnt : UInt32
  m_trigDelay : UInt32
  m_calEdgeDelay : UInt32
  m_noInject : Bool
  m_edgeMode : Bool
  m_edgeDuration : UInt32
  m_trigMultiplier : UInt32

/-- Where they differ. -/
structure InjectionChip where
  /-- The command before the header of the re-arm command. -/
  beforeRearm : UInt16
  /-- The indices that the loop over the debug output uses. -/
  printed : Nat → List Nat
  getExpEvents : InjectionLoop → UInt32

namespace InjectionLoop

/-- An index of type `int`. -/
def setAt (words : TrigWords) (j : Int) (word : UInt32) : Option TrigWords :=
  if j < 0 then none else setTrigWord words j.toNat word

def idle : UInt32 := 0xAAAAAAAA

def calHead (p : CalParameters) : UInt32 :=
  afterPllLock (getElem (genCal 16 p) 0 Index.first_of_three)

def calTail (p : CalParameters) : UInt32 :=
  word (getElem (genCal 16 p) 1 Index.second_of_three)
    (getElem (genCal 16 p) 2 Index.third_of_three)

/-- The tags are at most 15 where the shifts are defined. -/
def train (m_maxTrigWordLength : Int32) (delay : UInt32) : Train where
  accepts i :=
    delay > UInt32.ofInt (m_maxTrigWordLength.toInt - 2) &&
      delay < (UInt32.ofInt (m_maxTrigWordLength.toInt - 4) - UInt32.ofNat i) * 8
  index i :=
    (UInt32.ofInt (m_maxTrigWordLength.toInt - 2) - delay / 8 - UInt32.ofNat i).toNat
  word bc1 bc2 i :=
    word (genTrigger (Fin.ofNat 16 bc1.toNat) (Fin.ofNat 54 (2 * i)))
      (genTrigger (Fin.ofNat 16 bc2.toNat) (Fin.ofNat 54 (2 * i + 1)))

variable (chip : InjectionChip) (loop : InjectionLoop) (m_maxTrigWordLength : Int32)

def cal : CalParameters := ⟨0, loop.m_calEdgeDelay.toUInt8, 1, 0, 0⟩

def arm : CalParameters := ⟨1, 0, 0, 0, 0⟩

def edge : CalParameters := ⟨1, 0, loop.m_edgeDuration.toUInt8, 0, 0⟩

def putTriggers (s : TrigBuffer) : Option TrigBuffer :=
  if loop.m_trigMultiplier ≠ 0 then
    (trigStream loop.m_trigMultiplier loop.m_trigDelay).bind fun trigStream =>
      (train m_maxTrigWordLength loop.m_trigDelay).putAll trigStream
        (loop.m_trigMultiplier.toNat / 8 + 1) s
  else some s

def setTrigDelay (s : TrigBuffer) : Option TrigBuffer :=
  (setAt (Vector.replicate 32 idle) (m_maxTrigWordLength.toInt - 1) (calHead loop.cal)).bind
    fun words =>
  (setAt words (m_maxTrigWordLength.toInt - 2) (calTail loop.cal)).bind fun words =>
  (loop.putTriggers m_maxTrigWordLength { s with m_trigWord := words }).bind fun s =>
  (setTrigWord s.m_trigWord 1
    (word chip.beforeRearm (getElem (genCal 16 arm) 0 Index.first_of_three))).bind fun words =>
  (setTrigWord words 0 (calTail arm)).bind fun words =>
  if ∀ j ∈ chip.printed m_maxTrigWordLength.toInt.toNat, j < 32 then
    some { s with m_trigWord := words }
  else none

/-- Two words at the front, and idle ones at the end. -/
def setEnds (high low : UInt32) (s : TrigBuffer) : Option TrigBuffer :=
  (setAt s.m_trigWord (m_maxTrigWordLength.toInt - 1) high).bind fun words =>
  (setAt words (m_maxTrigWordLength.toInt - 2) low).bind fun words =>
  (setTrigWord words 1 idle).bind fun words =>
  (setTrigWord words 0 idle).map fun words => { s with m_trigWord := words }

def setEdgeMode (s : TrigBuffer) : Option TrigBuffer :=
  setEnds m_maxTrigWordLength (calHead loop.edge) (calTail loop.edge) s

def setNoInject (s : TrigBuffer) : Option TrigBuffer := setEnds m_maxTrigWordLength idle idle s

/-- The words are sent with the length that the controller gives. -/
def init : Option TrigBuffer :=
  (setTrigDelay chip loop m_maxTrigWordLength
    ⟨Vector.replicate 32 idle, if m_maxTrigWordLength.toInt < 4 then 1 else 0⟩).bind fun s =>
  (if loop.m_edgeMode then loop.setEdgeMode m_maxTrigWordLength s else some s).bind fun s =>
  if loop.m_noInject then setNoInject m_maxTrigWordLength s else some s

end InjectionLoop

namespace Itkpixv2TriggerLoop

def getExpEvents (loop : InjectionLoop) : UInt32 :=
  loop.m_trigCnt * (loop.m_trigMultiplier + if loop.m_edgeMode then 0 else 1)

def chip : InjectionChip where
  beforeRearm := genTrigger 1 53
  printed m_trigWordLength := (List.range m_trigWordLength).map fun i => m_trigWordLength - 1 - i
  getExpEvents := getExpEvents

end Itkpixv2TriggerLoop

namespace Rd53bTriggerLoop

def getExpEvents (loop : InjectionLoop) : UInt32 := loop.m_trigCnt * loop.m_trigMultiplier

def chip : InjectionChip where
  beforeRearm := genSync
  printed m_trigWordLength := (List.range (m_trigWordLength + 1)).map fun i => m_trigWordLength - i
  getExpEvents := getExpEvents

end Rd53bTriggerLoop

namespace InjectionLoop

variable (chip : InjectionChip) (loop : InjectionLoop) (m_maxTrigWordLength : Int32)

/-! ## What is to be sent -/

/-- The re-arm word has a trigger, and it is not overwritten. -/
def Rearms : Prop :=
  ¬Silent (word chip.beforeRearm (getElem (genCal 16 arm) 0 Index.first_of_three)) ∧
    loop.m_edgeMode = false ∧ loop.m_noInject = false

instance : Decidable (Rearms chip loop) := inferInstanceAs (Decidable (_ ∧ _))

/-- The bunch crossing of the trigger in the re-arm word. -/
def rearm (order : BitOrder) : Option Nat :=
  if Rearms chip loop then some (8 * (m_maxTrigWordLength.toInt.toNat - 2) + order.place 0)
  else none

/-- The four words that are not for the train. -/
def ends : (UInt32 × UInt32) × (UInt32 × UInt32) :=
  if loop.m_noInject then ((idle, idle), (idle, idle))
  else if loop.m_edgeMode then ((calHead loop.edge, calTail loop.edge), (idle, idle))
  else ((calHead loop.cal, calTail loop.cal),
    (word chip.beforeRearm (getElem (genCal 16 arm) 0 Index.first_of_three), calTail arm))

/-- The bunch crossings are counted from the first word that is sent, the injection word is the
second one. -/
structure Sent (order : BitOrder) (s : TrigBuffer) : Prop where
  injection : wordAt s.m_trigWord (m_maxTrigWordLength.toInt.toNat - 1) = (loop.ends chip).1.1 ∧
    wordAt s.m_trigWord (m_maxTrigWordLength.toInt.toNat - 2) = (loop.ends chip).1.2
  rearmed : wordAt s.m_trigWord 1 = (loop.ends chip).2.1 ∧
    wordAt s.m_trigWord 0 = (loop.ends chip).2.2
  triggers : ∀ p < 8 * m_maxTrigWordLength.toInt.toNat,
    requests order s.m_trigWord m_maxTrigWordLength.toInt.toNat p = true ↔
      (8 + loop.m_trigDelay.toNat ≤ p ∧
        p < 8 + loop.m_trigDelay.toNat + loop.m_trigMultiplier.toNat) ∨
      loop.rearm chip m_maxTrigWordLength order = some p
  events : (chip.getExpEvents loop).toNat = loop.m_trigCnt.toNat *
    ((Finset.range (8 * m_maxTrigWordLength.toInt.toNat)).filter fun p =>
      requests order s.m_trigWord m_maxTrigWordLength.toInt.toNat p = true).card

/-- No error is logged. -/
def Quiet : Prop :=
  4 ≤ m_maxTrigWordLength.toInt ∧
    (loop.m_trigMultiplier ≠ 0 → ∀ i < loop.m_trigMultiplier.toNat / 8 + 1,
      (train m_maxTrigWordLength loop.m_trigDelay).accepts i = true)

instance : Decidable (loop.Quiet m_maxTrigWordLength) :=
  inferInstanceAs (Decidable (_ ∧ (_ → ∀ i < _, _)))

/-! ## The range check -/

variable {chip loop m_maxTrigWordLength}

theorem toNat_limit (m_maxTrigWordLength : Int32) {k : Int}
    (hk : k ≤ m_maxTrigWordLength.toInt) (hpos : 0 ≤ k) :
    (UInt32.ofInt (m_maxTrigWordLength.toInt - k)).toNat =
      (m_maxTrigWordLength.toInt - k).toNat := by
  have hlt := m_maxTrigWordLength.toInt_lt
  exact Bits.toNat_ofInt (by omega) (by omega)

/-- The accepted trains end before the words of the re-arm command. -/
theorem room_of_quiet (hquiet : loop.Quiet m_maxTrigWordLength) (hm : loop.m_trigMultiplier ≠ 0) :
    loop.m_trigDelay.toNat / 8 + loop.m_trigMultiplier.toNat / 8 + 5 ≤
      m_maxTrigWordLength.toInt.toNat := by
  obtain ⟨hfour, hall⟩ := hquiet
  have hlimit := toNat_limit m_maxTrigWordLength hfour (by decide)
  have hlt := m_maxTrigWordLength.toInt_lt
  have hmult := loop.m_trigMultiplier.toNat_lt
  have hupper : ∀ i < loop.m_trigMultiplier.toNat / 8 + 1,
      i ≤ m_maxTrigWordLength.toInt.toNat - 4 →
      loop.m_trigDelay.toNat < (m_maxTrigWordLength.toInt.toNat - 4 - i) * 8 := by
    intro i hi hle
    have hacc := (Bool.and_eq_true_iff.mp (hall hm i hi)).2
    have hless := of_decide_eq_true hacc
    rw [UInt32.lt_iff_toNat_lt, UInt32.toNat_mul] at hless
    have hi' : (UInt32.ofNat i).toNat = i := by
      rw [UInt32.toNat_ofNat']
      omega
    have hsub : (UInt32.ofInt (m_maxTrigWordLength.toInt - 4) - UInt32.ofNat i).toNat =
        m_maxTrigWordLength.toInt.toNat - 4 - i := by
      rw [UInt32.toNat_sub_of_le _ _ (by rw [UInt32.le_iff_toNat_le, hlimit, hi']; omega), hlimit,
        hi']
      omega
    rw [hsub] at hless
    exact Nat.lt_of_lt_of_le hless (Nat.mod_le _ _)
  have hshort : loop.m_trigMultiplier.toNat / 8 < m_maxTrigWordLength.toInt.toNat - 4 := by
    apply Nat.lt_of_not_le
    intro hge
    have hzero := hupper (m_maxTrigWordLength.toInt.toNat - 4) (by omega) (Nat.le_refl _)
    rw [Nat.sub_self, Nat.zero_mul] at hzero
    exact Nat.not_lt_zero _ hzero
  have hlast := hupper (loop.m_trigMultiplier.toNat / 8) (by omega) (by omega)
  omega

theorem index_train {i : Nat} (hi : loop.m_trigDelay.toNat / 8 + i + 2 ≤
    m_maxTrigWordLength.toInt.toNat) :
    (train m_maxTrigWordLength loop.m_trigDelay).index i =
      m_maxTrigWordLength.toInt.toNat - 2 - loop.m_trigDelay.toNat / 8 - i := by
  have hlimit := toNat_limit m_maxTrigWordLength (k := 2) (by omega) (by decide)
  have hlt := m_maxTrigWordLength.toInt_lt
  have hdiv : (loop.m_trigDelay / 8).toNat = loop.m_trigDelay.toNat / 8 := UInt32.toNat_div _ _
  have hi' : (UInt32.ofNat i).toNat = i := by
    rw [UInt32.toNat_ofNat']
    omega
  have hfirst : (UInt32.ofInt (m_maxTrigWordLength.toInt - 2) - loop.m_trigDelay / 8).toNat =
      m_maxTrigWordLength.toInt.toNat - 2 - loop.m_trigDelay.toNat / 8 := by
    rw [UInt32.toNat_sub_of_le _ _ (by rw [UInt32.le_iff_toNat_le, hlimit, hdiv]; omega), hlimit,
      hdiv]
    omega
  show (UInt32.ofInt (m_maxTrigWordLength.toInt - 2) - loop.m_trigDelay / 8 -
    UInt32.ofNat i).toNat = _
  rw [UInt32.toNat_sub_of_le _ _ (by rw [UInt32.le_iff_toNat_le, hfirst, hi']; omega), hfirst, hi']

/-! ## What the words request -/

theorem pattern_genTrigger (bc : Fin 16) (tag : Fin 54) :
    pattern (genTrigger bc tag >>> 8).toUInt8 = bc := by
  have hall : ∀ bc : Fin 16, pattern (encTrigger[bc]).toUInt8 = bc := by decide
  have hfirst : (genTrigger bc tag >>> 8).toUInt8 = (encTrigger[bc]).toUInt8 :=
    (List.cons.inj (unitsOf_trigger bc tag)).1
  rw [hfirst]
  exact hall bc

theorem pattern_symbol (value : UInt16) : pattern (symbol value) = 0 := by
  have hall : ∀ i : Fin 32, pattern (enc5to8Table[i]).toUInt8 = 0 := by decide
  exact hall _

theorem symbols_of_units {w : UInt32} {a b c d : UInt8} (h : unitsOf w = [a, b, c, d]) :
    (w >>> 24).toUInt8 = a ∧ (w >>> 8).toUInt8 = c := by
  unfold unitsOf at h
  simp only [List.cons.injEq] at h
  exact ⟨h.1, h.2.2.1⟩

theorem train_reads (m_maxTrigWordLength : Int32) (delay : UInt32) :
    (train m_maxTrigWordLength delay).Reads := by
  intro bc1 bc2 i _ h1 h2
  obtain ⟨hfirst, hsecond⟩ := symbols_of_units (unitsOf_word
    (genTrigger (Fin.ofNat 16 bc1.toNat) (Fin.ofNat 54 (2 * i)))
    (genTrigger (Fin.ofNat 16 bc2.toNat) (Fin.ofNat 54 (2 * i + 1))))
  show pattern (word _ _ >>> 24).toUInt8 = _ ∧ pattern (word _ _ >>> 8).toUInt8 = _
  rw [hfirst, hsecond, pattern_genTrigger, pattern_genTrigger]
  exact ⟨Nat.mod_eq_of_lt h1, Nat.mod_eq_of_lt h2⟩

theorem silent_idle : Silent idle := by decide

theorem silent_calHead (p : CalParameters) : Silent (calHead p) := by
  have hframe : unitsOfFrame (genCal 16 p)[0] = [0x63, idSymbol 16] := unitsOfFrame_header 0x63 _
  have hunits := unitsOf_afterPllLock (genCal 16 p)[0]
  rw [hframe] at hunits
  obtain ⟨hfirst, hsecond⟩ := symbols_of_units hunits
  show pattern (afterPllLock _ >>> 24).toUInt8 = 0 ∧ pattern (afterPllLock _ >>> 8).toUInt8 = 0
  rw [hfirst, hsecond]
  exact ⟨by decide, by decide⟩

theorem silent_calTail (p : CalParameters) : Silent (calTail p) := by
  have hunits := unitsOf_word (genCal 16 p)[1] (genCal 16 p)[2]
  have hhigh : unitsOfFrame (genCal 16 p)[1] = [symbol _, symbol _] := unitsOfFrame_symbols _ _
  have hlow : unitsOfFrame (genCal 16 p)[2] = [symbol _, symbol _] := unitsOfFrame_symbols _ _
  rw [hhigh, hlow] at hunits
  obtain ⟨hfirst, hsecond⟩ := symbols_of_units hunits
  show pattern (word _ _ >>> 24).toUInt8 = 0 ∧ pattern (word _ _ >>> 8).toUInt8 = 0
  rw [hfirst, hsecond]
  exact ⟨pattern_symbol _, pattern_symbol _⟩

theorem silent_ends (chip : InjectionChip) (loop : InjectionLoop) :
    Silent (loop.ends chip).1.1 ∧ Silent (loop.ends chip).1.2 ∧ Silent (loop.ends chip).2.2 := by
  unfold ends
  cases loop.m_noInject with
  | true => exact ⟨silent_idle, silent_idle, silent_idle⟩
  | false =>
      cases loop.m_edgeMode with
      | true => exact ⟨silent_calHead _, silent_calTail _, silent_idle⟩
      | false => exact ⟨silent_calHead _, silent_calTail _, silent_calTail _⟩

/-- The word before the re-arm command has no trigger, or one for the last bit of its pattern. -/
def OneTrigger (chip : InjectionChip) : Prop :=
  pattern (chip.beforeRearm >>> 8).toUInt8 ≤ 1

theorem readWord_rearm (hchip : OneTrigger chip) (order : BitOrder) {c : Nat} (hc : c < 8) :
    readWord order (word chip.beforeRearm (getElem (genCal 16 arm) 0 Index.first_of_three)) c =
      decide (¬Silent (word chip.beforeRearm (getElem (genCal 16 arm) 0 Index.first_of_three)) ∧
        c = order.place 0) := by
  have hframe : unitsOfFrame (genCal 16 arm)[0] = [0x63, idSymbol 16] := unitsOfFrame_header 0x63 _
  have hunits := unitsOf_word chip.beforeRearm (genCal 16 arm)[0]
  rw [hframe] at hunits
  obtain ⟨hfirst, hsecond⟩ := symbols_of_units hunits
  have hlow : pattern (0x63 : UInt8) = 0 := by decide
  generalize word chip.beforeRearm (genCal 16 arm)[0] = w at hfirst hsecond ⊢
  simp only [Silent, readWord, hfirst, hsecond, hlow]
  unfold OneTrigger at hchip
  generalize pattern (chip.beforeRearm >>> 8).toUInt8 = k at hchip ⊢
  have hread : ∀ c < 8, (if c < 4 then Nat.testBit 1 (order.place c)
      else Nat.testBit 0 (order.place (c - 4))) = decide (c = order.place 0) := by
    cases order with
    | lsbFirst => decide
    | msbFirst => decide
  rcases Nat.le_one_iff_eq_zero_or_eq_one.mp hchip with rfl | rfl
  · simp
  · rw [hread c hc]
    apply decide_eq_decide.mpr
    simp

/-! ## Writing the words -/

theorem setAt_of (words : TrigWords) {j : Int} (w : UInt32) (hlow : 0 ≤ j) (hhigh : j < 32) :
    ∃ words', setAt words j w = some words' ∧
      ∀ j', wordAt words' j' = if j' = j.toNat then w else wordAt words j' := by
  have hlt : j.toNat < 32 := by omega
  obtain ⟨words', hwords, hat⟩ := setTrigWord_of_lt words w hlt
  exact ⟨words', (if_neg (by omega)).trans hwords, hat⟩

theorem setAt_eq_none (words : TrigWords) {j : Int} (w : UInt32) (hj : 32 ≤ j) :
    setAt words j w = none :=
  (if_neg (by omega)).trans (setTrigWord_eq_none words w (by omega))

/-- The words of the train. -/
def InTrain (loop : InjectionLoop) (m_maxTrigWordLength : Int32) (j : Nat) : Prop :=
  loop.m_trigMultiplier ≠ 0 ∧
    m_maxTrigWordLength.toInt.toNat - 2 - loop.m_trigDelay.toNat / 8 <
      j + (loop.m_trigMultiplier.toNat / 8 + 1) ∧
    j ≤ m_maxTrigWordLength.toInt.toNat - 2 - loop.m_trigDelay.toNat / 8

/-- The words of the train hold the stream. -/
def HoldsTrain (loop : InjectionLoop) (m_maxTrigWordLength : Int32) (words : TrigWords) : Prop :=
  ∀ order j c, loop.InTrain m_maxTrigWordLength j → c < 8 →
    readWord order (wordAt words j) c =
      decide (loop.m_trigDelay.toNat % 8 ≤ order.place
          (8 * (m_maxTrigWordLength.toInt.toNat - 2 - loop.m_trigDelay.toNat / 8 - j) + c) ∧
        order.place
          (8 * (m_maxTrigWordLength.toInt.toNat - 2 - loop.m_trigDelay.toNat / 8 - j) + c) <
          min 64 (loop.m_trigDelay.toNat % 8 + loop.m_trigMultiplier.toNat))

theorem putTriggers_spec (hquiet : loop.Quiet m_maxTrigWordLength)
    (hsize : m_maxTrigWordLength.toInt ≤ 32) (hm : loop.m_trigMultiplier.toNat < 64)
    (s : TrigBuffer) :
    ∃ s', loop.putTriggers m_maxTrigWordLength s = some s' ∧
      (∀ j, ¬loop.InTrain m_maxTrigWordLength j →
        wordAt s'.m_trigWord j = wordAt s.m_trigWord j) ∧
      loop.HoldsTrain m_maxTrigWordLength s'.m_trigWord := by
  unfold putTriggers
  by_cases hzero : loop.m_trigMultiplier = 0
  · rw [if_neg (not_not_intro hzero)]
    exact ⟨s, rfl, fun _ _ => rfl, fun _ _ _ hin _ => absurd hzero hin.1⟩
  · have hroom := room_of_quiet hquiet hzero
    obtain ⟨stream, hstream, hones⟩ := @trigStream_ones _ loop.m_trigDelay (Nat.le_of_lt hm)
    obtain ⟨s', hs', hother, hread⟩ := Train.putAll_spec
      (train_reads m_maxTrigWordLength loop.m_trigDelay) hones
      (show loop.m_trigMultiplier.toNat / 8 + 1 ≤ 8 by omega) (hquiet.2 hzero)
      (fun i hi => index_train (by omega)) (by omega) (by omega) s
    rw [if_pos hzero, hstream]
    exact ⟨s', hs', fun j hout => hother j fun h => hout ⟨hzero, h.1, h.2⟩,
      fun order j c hin hc => hread order j c hin.2.1 hin.2.2 hc⟩

/-- The words between the four at the ends. -/
structure Middle (loop : InjectionLoop) (m_maxTrigWordLength : Int32) (words : TrigWords) :
    Prop where
  train : loop.HoldsTrain m_maxTrigWordLength words
  silent : ∀ j, 2 ≤ j → j + 3 ≤ m_maxTrigWordLength.toInt.toNat →
    ¬loop.InTrain m_maxTrigWordLength j → wordAt words j = idle

/-- The four words at the ends. -/
def HasEnds (m_maxTrigWordLength : Int32) (words : TrigWords)
    (ends : (UInt32 × UInt32) × (UInt32 × UInt32)) : Prop :=
  (wordAt words (m_maxTrigWordLength.toInt.toNat - 1) = ends.1.1 ∧
      wordAt words (m_maxTrigWordLength.toInt.toNat - 2) = ends.1.2) ∧
    wordAt words 1 = ends.2.1 ∧ wordAt words 0 = ends.2.2

/-- The train keeps away from the words at the ends. -/
def Apart (loop : InjectionLoop) : Prop := loop.m_trigMultiplier = 0 ∨ 8 ≤ loop.m_trigDelay.toNat

instance (loop : InjectionLoop) : Decidable loop.Apart := inferInstanceAs (Decidable (_ ∨ _))

theorem InTrain.bounds (hquiet : loop.Quiet m_maxTrigWordLength) (hapart : loop.Apart) {j : Nat}
    (hin : loop.InTrain m_maxTrigWordLength j) :
    2 < j ∧ j + 3 ≤ m_maxTrigWordLength.toInt.toNat := by
  obtain ⟨hm, hlow, hhigh⟩ := hin
  have hroom := room_of_quiet hquiet hm
  have hdelay := hapart.resolve_left hm
  omega

theorem Middle.congr (hquiet : loop.Quiet m_maxTrigWordLength) (hapart : loop.Apart)
    {words words' : TrigWords} (h : loop.Middle m_maxTrigWordLength words)
    (hsame : ∀ j, 2 ≤ j → j + 3 ≤ m_maxTrigWordLength.toInt.toNat →
      wordAt words' j = wordAt words j) :
    loop.Middle m_maxTrigWordLength words' := by
  constructor
  · intro order j c hin hc
    obtain ⟨hlow, hhigh⟩ := hin.bounds hquiet hapart
    rw [hsame j (by omega) hhigh]
    exact h.train order j c hin hc
  · intro j hlow hhigh hout
    rw [hsame j hlow hhigh]
    exact h.silent j hlow hhigh hout

theorem setTrigDelay_spec (hquiet : loop.Quiet m_maxTrigWordLength)
    (hsize : m_maxTrigWordLength.toInt ≤ 32) (hm : loop.m_trigMultiplier.toNat < 64)
    (hapart : loop.Apart)
    (hprinted : ∀ j ∈ chip.printed m_maxTrigWordLength.toInt.toNat, j < 32) (s : TrigBuffer) :
    ∃ s', setTrigDelay chip loop m_maxTrigWordLength s = some s' ∧
      loop.Middle m_maxTrigWordLength s'.m_trigWord ∧
      HasEnds m_maxTrigWordLength s'.m_trigWord ((calHead loop.cal, calTail loop.cal),
        (word chip.beforeRearm (getElem (genCal 16 arm) 0 Index.first_of_three), calTail arm)) := by
  have hfour := hquiet.1
  have hidle : ∀ j < 32, wordAt (Vector.replicate 32 idle) j = idle := by
    intro j hj
    unfold wordAt
    rw [dif_pos hj, Vector.getElem_replicate]
  obtain ⟨words₁, hwords₁, hat₁⟩ := setAt_of (Vector.replicate 32 idle) (calHead loop.cal)
    (show 0 ≤ m_maxTrigWordLength.toInt - 1 by omega) (by omega)
  obtain ⟨words₂, hwords₂, hat₂⟩ := setAt_of words₁ (calTail loop.cal)
    (show 0 ≤ m_maxTrigWordLength.toInt - 2 by omega) (by omega)
  obtain ⟨s₃, hs₃, hother₃, htrain₃⟩ :=
    putTriggers_spec hquiet hsize hm { s with m_trigWord := words₂ }
  obtain ⟨words₄, hwords₄, hat₄⟩ := setTrigWord_of_lt s₃.m_trigWord
    (word chip.beforeRearm (genCal 16 arm)[0]) (show 1 < 32 by decide)
  obtain ⟨words₅, hwords₅, hat₅⟩ := setTrigWord_of_lt words₄ (calTail arm)
    (show 0 < 32 by decide)
  have hfront : ∀ j, m_maxTrigWordLength.toInt.toNat < j + 3 →
      wordAt words₅ j = wordAt words₂ j := by
    intro j hj
    have hout : ¬loop.InTrain m_maxTrigWordLength j := fun hin => by
      have := (hin.bounds hquiet hapart).2
      omega
    rw [hat₅, if_neg (by omega), hat₄, if_neg (by omega), hother₃ j hout]
  refine ⟨{ s₃ with m_trigWord := words₅ }, ?_, ⟨?_, ?_⟩, ⟨?_, ?_⟩, ?_, ?_⟩
  · unfold setTrigDelay
    rw [hwords₁, Option.bind_some, hwords₂, Option.bind_some, hs₃, Option.bind_some, hwords₄,
      Option.bind_some, hwords₅, Option.bind_some, if_pos hprinted]
  · intro order j c hin hc
    obtain ⟨hlow, -⟩ := hin.bounds hquiet hapart
    show readWord order (wordAt words₅ j) c = _
    rw [hat₅, if_neg (by omega), hat₄, if_neg (by omega)]
    exact htrain₃ order j c hin hc
  · intro j hlow hhigh hout
    show wordAt words₅ j = _
    rw [hat₅, if_neg (by omega), hat₄, if_neg (by omega), hother₃ j hout]
    show wordAt words₂ j = _
    rw [hat₂, if_neg (by omega), hat₁, if_neg (by omega)]
    exact hidle j (by omega)
  · show wordAt words₅ _ = _
    rw [hfront _ (by omega), hat₂, if_neg (by omega), hat₁, if_pos (by omega)]
  · show wordAt words₅ _ = _
    rw [hfront _ (by omega), hat₂, if_pos (by omega)]
  · show wordAt words₅ _ = _
    rw [hat₅, if_neg (by omega), hat₄, if_pos rfl]
  · show wordAt words₅ _ = _
    rw [hat₅, if_pos rfl]

theorem setEnds_spec (hfour : 4 ≤ m_maxTrigWordLength.toInt)
    (hsize : m_maxTrigWordLength.toInt ≤ 32) (high low : UInt32) (s : TrigBuffer) :
    ∃ s', setEnds m_maxTrigWordLength high low s = some s' ∧
      (∀ j, 2 ≤ j → j + 3 ≤ m_maxTrigWordLength.toInt.toNat →
        wordAt s'.m_trigWord j = wordAt s.m_trigWord j) ∧
      HasEnds m_maxTrigWordLength s'.m_trigWord ((high, low), (idle, idle)) := by
  obtain ⟨words₁, hwords₁, hat₁⟩ := setAt_of s.m_trigWord high
    (show 0 ≤ m_maxTrigWordLength.toInt - 1 by omega) (by omega)
  obtain ⟨words₂, hwords₂, hat₂⟩ := setAt_of words₁ low
    (show 0 ≤ m_maxTrigWordLength.toInt - 2 by omega) (by omega)
  obtain ⟨words₃, hwords₃, hat₃⟩ := setTrigWord_of_lt words₂ idle (show 1 < 32 by decide)
  obtain ⟨words₄, hwords₄, hat₄⟩ := setTrigWord_of_lt words₃ idle (show 0 < 32 by decide)
  refine ⟨{ s with m_trigWord := words₄ }, ?_, ?_, ⟨?_, ?_⟩, ?_, ?_⟩
  · unfold setEnds
    rw [hwords₁, Option.bind_some, hwords₂, Option.bind_some, hwords₃, Option.bind_some, hwords₄]
    rfl
  · intro j hlow hhigh
    show wordAt words₄ j = _
    rw [hat₄, if_neg (by omega), hat₃, if_neg (by omega), hat₂, if_neg (by omega), hat₁,
      if_neg (by omega)]
  · show wordAt words₄ _ = _
    rw [hat₄, if_neg (by omega), hat₃, if_neg (by omega), hat₂, if_neg (by omega), hat₁,
      if_pos (by omega)]
  · show wordAt words₄ _ = _
    rw [hat₄, if_neg (by omega), hat₃, if_neg (by omega), hat₂, if_pos (by omega)]
  · show wordAt words₄ _ = _
    rw [hat₄, if_neg (by omega), hat₃, if_pos rfl]
  · show wordAt words₄ _ = _
    rw [hat₄, if_pos rfl]

/-- The words that are sent, when every index is inside the array and every shift is defined. -/
theorem init_spec (hquiet : loop.Quiet m_maxTrigWordLength)
    (hsize : m_maxTrigWordLength.toInt ≤ 32) (hm : loop.m_trigMultiplier.toNat < 64)
    (hapart : loop.Apart)
    (hprinted : ∀ j ∈ chip.printed m_maxTrigWordLength.toInt.toNat, j < 32) :
    ∃ s, init chip loop m_maxTrigWordLength = some s ∧
      loop.Middle m_maxTrigWordLength s.m_trigWord ∧
      HasEnds m_maxTrigWordLength s.m_trigWord (loop.ends chip) := by
  obtain ⟨s₁, hs₁, hmiddle₁, hends₁⟩ := setTrigDelay_spec hquiet hsize hm hapart hprinted
    ⟨Vector.replicate 32 idle, if m_maxTrigWordLength.toInt < 4 then 1 else 0⟩
  have hedge : ∃ s₂, (if loop.m_edgeMode then loop.setEdgeMode m_maxTrigWordLength s₁
      else some s₁) = some s₂ ∧ loop.Middle m_maxTrigWordLength s₂.m_trigWord ∧
      HasEnds m_maxTrigWordLength s₂.m_trigWord (ends chip { loop with m_noInject := false }) := by
    cases hmode : loop.m_edgeMode with
    | false =>
        exact ⟨s₁, rfl, hmiddle₁, hends₁⟩
    | true =>
        obtain ⟨s₂, hs₂, hsame, hends₂⟩ := setEnds_spec hquiet.1 hsize (calHead loop.edge)
          (calTail loop.edge) s₁
        exact ⟨s₂, hs₂, hmiddle₁.congr hquiet hapart hsame, hends₂⟩
  obtain ⟨s₂, hs₂, hmiddle₂, hends₂⟩ := hedge
  unfold init
  rw [hs₁, Option.bind_some, hs₂, Option.bind_some]
  cases hinject : loop.m_noInject with
  | false =>
      refine ⟨s₂, rfl, hmiddle₂, ?_⟩
      have hloop : ends chip { loop with m_noInject := false } = ends chip loop := by
        unfold ends
        simp only [hinject]
        rfl
      exact hloop ▸ hends₂
  | true =>
      obtain ⟨s₃, hs₃, hsame, hends₃⟩ := setEnds_spec hquiet.1 hsize idle idle s₂
      refine ⟨s₃, hs₃, hmiddle₂.congr hquiet hapart hsame, ?_⟩
      unfold ends
      rw [hinject]
      exact hends₃

theorem of_init (hquiet : loop.Quiet m_maxTrigWordLength) {s : TrigBuffer}
    (h : init chip loop m_maxTrigWordLength = some s) :
    m_maxTrigWordLength.toInt ≤ 32 ∧ loop.m_trigMultiplier.toNat < 64 ∧
      ∀ j ∈ chip.printed m_maxTrigWordLength.toInt.toNat, j < 32 := by
  unfold init at h
  obtain ⟨s₁, hset, -⟩ := Option.bind_eq_some_iff.mp h
  unfold setTrigDelay at hset
  obtain ⟨words₁, hwords₁, hset⟩ := Option.bind_eq_some_iff.mp hset
  obtain ⟨words₂, -, hset⟩ := Option.bind_eq_some_iff.mp hset
  obtain ⟨s₃, hput, hset⟩ := Option.bind_eq_some_iff.mp hset
  obtain ⟨words₄, -, hset⟩ := Option.bind_eq_some_iff.mp hset
  obtain ⟨words₅, -, hset⟩ := Option.bind_eq_some_iff.mp hset
  refine ⟨?_, ?_, ?_⟩
  · apply Int.le_of_not_gt
    intro hgt
    rw [setAt_eq_none _ _ (by omega)] at hwords₁
    cases hwords₁
  · apply Nat.lt_of_not_le
    intro hge
    have hm : loop.m_trigMultiplier ≠ 0 := by
      intro hzero
      rw [hzero] at hge
      exact absurd hge (by decide)
    unfold putTriggers at hput
    rw [if_pos hm] at hput
    obtain ⟨stream, hstream, hput⟩ := Option.bind_eq_some_iff.mp hput
    by_cases hmany : 64 < loop.m_trigMultiplier.toNat
    · rw [trigStream_eq_none hmany] at hstream
      cases hstream
    · have hnine : 8 < loop.m_trigMultiplier.toNat / 8 + 1 := by omega
      have hnone : ∀ s, (train m_maxTrigWordLength loop.m_trigDelay).put stream s 8 = none := by
        intro s
        unfold Train.put
        rw [if_pos (hquiet.2 hm 8 hnine)]
        rfl
      rw [Train.putAll_eq_none _ hnine hnone] at hput
      cases hput
  · by_contra hprinted
    rw [if_neg hprinted] at hset
    cases hset

/-! ## The bunch crossings -/

theorem rearm_eq_some_iff (order : BitOrder) (p : Nat) :
    loop.rearm chip m_maxTrigWordLength order = some p ↔
      Rearms chip loop ∧ 8 * (m_maxTrigWordLength.toInt.toNat - 2) + order.place 0 = p := by
  unfold rearm
  by_cases h : Rearms chip loop
  · rw [if_pos h, Option.some_inj]
    exact (and_iff_right h).symm
  · rw [if_neg h]
    exact ⟨fun hnone => (by cases hnone), fun hand => absurd hand.1 h⟩

/-- Whether the re-arm word has its trigger in a bunch crossing. -/
def rearmsAt (chip : InjectionChip) (loop : InjectionLoop) (m_maxTrigWordLength : Int32)
    (order : BitOrder) (p : Nat) : Bool :=
  decide (loop.rearm chip m_maxTrigWordLength order = some p)

theorem readWord_one (hchip : OneTrigger chip) {words : TrigWords}
    (hends : HasEnds m_maxTrigWordLength words (loop.ends chip)) (order : BitOrder) {c : Nat}
    (hc : c < 8) :
    readWord order (wordAt words 1) c = decide (Rearms chip loop ∧ c = order.place 0) := by
  rw [hends.2.1]
  by_cases hinject : loop.m_noInject = true
  · have hword : (loop.ends chip).2.1 = idle := by
      unfold ends
      rw [if_pos hinject]
    have hno : ¬Rearms chip loop := fun h => Bool.false_ne_true (h.2.2.symm.trans hinject)
    rw [hword, readWord_of_silent silent_idle, decide_eq_false fun h => hno h.1]
  · by_cases hmode : loop.m_edgeMode = true
    · have hword : (loop.ends chip).2.1 = idle := by
        unfold ends
        rw [if_neg hinject, if_pos hmode]
      have hno : ¬Rearms chip loop := fun h => Bool.false_ne_true (h.2.1.symm.trans hmode)
      rw [hword, readWord_of_silent silent_idle, decide_eq_false fun h => hno h.1]
    · have hword : (loop.ends chip).2.1 = word chip.beforeRearm (genCal 16 arm)[0] := by
        unfold ends
        rw [if_neg hinject, if_neg hmode]
      have hboth : loop.m_edgeMode = false ∧ loop.m_noInject = false :=
        ⟨Bool.eq_false_iff.mpr hmode, Bool.eq_false_iff.mpr hinject⟩
      rw [hword, readWord_rearm hchip order hc]
      apply decide_eq_decide.mpr
      exact and_congr_left fun _ => (and_iff_left hboth).symm

theorem place_zero_lt (order : BitOrder) : order.place 0 < 8 := by
  cases order with
  | lsbFirst => decide
  | msbFirst => decide

/-- Outside of the train there is the trigger of the re-arm word only. -/
theorem requests_of_out (hchip : OneTrigger chip) (hquiet : loop.Quiet m_maxTrigWordLength)
    {words : TrigWords} (hmiddle : loop.Middle m_maxTrigWordLength words)
    (hends : HasEnds m_maxTrigWordLength words (loop.ends chip)) (order : BitOrder) {p : Nat}
    (hp : p < 8 * m_maxTrigWordLength.toInt.toNat)
    (hout : ¬loop.InTrain m_maxTrigWordLength (m_maxTrigWordLength.toInt.toNat - 1 - p / 8)) :
    requests order words m_maxTrigWordLength.toInt.toNat p =
      rearmsAt chip loop m_maxTrigWordLength order p := by
  have hfour := hquiet.1
  have hplace := place_zero_lt order
  obtain ⟨hsilent₁, hsilent₂, hsilent₀⟩ := silent_ends chip loop
  have hrearm : rearmsAt chip loop m_maxTrigWordLength order p = decide (Rearms chip loop ∧
      8 * (m_maxTrigWordLength.toInt.toNat - 2) + order.place 0 = p) :=
    decide_eq_decide.mpr (rearm_eq_some_iff order p)
  unfold requests
  rw [hrearm]
  by_cases hone : m_maxTrigWordLength.toInt.toNat - 1 - p / 8 = 1
  · rw [hone, readWord_one hchip hends order (by omega)]
    have hsame : (p % 8 = order.place 0) ↔
        8 * (m_maxTrigWordLength.toInt.toNat - 2) + order.place 0 = p := by omega
    exact decide_eq_decide.mpr (and_congr_right fun _ => hsame)
  · have hsilent : Silent (wordAt words (m_maxTrigWordLength.toInt.toNat - 1 - p / 8)) := by
      by_cases hzero : m_maxTrigWordLength.toInt.toNat - 1 - p / 8 = 0
      · rw [hzero, hends.2.2]
        exact hsilent₀
      · by_cases hfirst : p / 8 = 0
        · rw [hfirst, Nat.sub_zero, hends.1.1]
          exact hsilent₁
        · by_cases hsecond : p / 8 = 1
          · rw [hsecond, Nat.sub_sub, hends.1.2]
            exact hsilent₂
          · rw [hmiddle.silent _ (by omega) (by omega) hout]
            exact silent_idle
    rw [readWord_of_silent hsilent]
    symm
    exact decide_eq_false fun heq => hone (by omega)

theorem requests_train (hchip : OneTrigger chip) (hquiet : loop.Quiet m_maxTrigWordLength)
    (hm : loop.m_trigMultiplier ≠ 0) {words : TrigWords}
    (hmiddle : loop.Middle m_maxTrigWordLength words)
    (hends : HasEnds m_maxTrigWordLength words (loop.ends chip)) (order : BitOrder) {p : Nat}
    (hp : p < 8 * m_maxTrigWordLength.toInt.toNat) :
    requests order words m_maxTrigWordLength.toInt.toNat p =
      if 8 + 8 * (loop.m_trigDelay.toNat / 8) ≤ p ∧ p < 8 + 8 * (loop.m_trigDelay.toNat / 8) +
          8 * (loop.m_trigMultiplier.toNat / 8 + 1) then
        decide (loop.m_trigDelay.toNat % 8 ≤
            order.place (p - (8 + 8 * (loop.m_trigDelay.toNat / 8))) ∧
          order.place (p - (8 + 8 * (loop.m_trigDelay.toNat / 8))) <
            min 64 (loop.m_trigDelay.toNat % 8 + loop.m_trigMultiplier.toNat))
      else rearmsAt chip loop m_maxTrigWordLength order p := by
  have hroom := room_of_quiet hquiet hm
  by_cases hin : 8 + 8 * (loop.m_trigDelay.toNat / 8) ≤ p ∧
      p < 8 + 8 * (loop.m_trigDelay.toNat / 8) + 8 * (loop.m_trigMultiplier.toNat / 8 + 1)
  · have htrain : loop.InTrain m_maxTrigWordLength (m_maxTrigWordLength.toInt.toNat - 1 - p / 8) :=
      ⟨hm, by omega, by omega⟩
    have hplace : 8 * (m_maxTrigWordLength.toInt.toNat - 2 - loop.m_trigDelay.toNat / 8 -
        (m_maxTrigWordLength.toInt.toNat - 1 - p / 8)) + p % 8 =
          p - (8 + 8 * (loop.m_trigDelay.toNat / 8)) := by omega
    rw [if_pos hin]
    unfold requests
    rw [hmiddle.train order _ _ htrain (by omega), hplace]
  · rw [if_neg hin]
    apply requests_of_out hchip hquiet hmiddle hends order hp
    rintro ⟨-, hlow, hhigh⟩
    omega

/-- The bunch crossings are as they are to be exactly if the train fits its words. -/
theorem triggers_iff (hchip : OneTrigger chip) (hquiet : loop.Quiet m_maxTrigWordLength)
    (hmult : loop.m_trigMultiplier.toNat < 64) {words : TrigWords}
    (hmiddle : loop.Middle m_maxTrigWordLength words)
    (hends : HasEnds m_maxTrigWordLength words (loop.ends chip)) (order : BitOrder) :
    (∀ p < 8 * m_maxTrigWordLength.toInt.toNat,
      requests order words m_maxTrigWordLength.toInt.toNat p = true ↔
        (8 + loop.m_trigDelay.toNat ≤ p ∧
          p < 8 + loop.m_trigDelay.toNat + loop.m_trigMultiplier.toNat) ∨
        loop.rearm chip m_maxTrigWordLength order = some p) ↔
      Exact order loop.m_trigDelay loop.m_trigMultiplier := by
  by_cases hm : loop.m_trigMultiplier = 0
  · have hzero : loop.m_trigMultiplier.toNat = 0 := by
      rw [hm]
      rfl
    refine ⟨fun _ => Or.inl hzero, fun _ p hp => ?_⟩
    rw [requests_of_out hchip hquiet hmiddle hends order hp fun hin => hin.1 hm]
    unfold rearmsAt
    rw [decide_eq_true_iff]
    exact ⟨Or.inr, fun h => h.resolve_left (by omega)⟩
  · have hroom := room_of_quiet hquiet hm
    have hplace := place_zero_lt order
    have hiff := @requested_iff order _
      (rearmsAt chip loop m_maxTrigWordLength order) _
      m_maxTrigWordLength.toInt.toNat _ (loop.m_trigDelay.toNat % 8) loop.m_trigMultiplier.toNat
      (by omega) rfl (by omega) (by omega)
      (fun p hp => requests_train hchip hquiet hm hmiddle hends order hp) (by
        intro p hlow hhigh
        apply decide_eq_false
        intro hrearm
        have heq := (rearm_eq_some_iff order p).mp hrearm
        omega)
    rw [exact_iff order hmult, ← hiff]
    apply forall_congr'
    intro p
    apply imp_congr_right
    intro _
    have hstart : 8 + 8 * (loop.m_trigDelay.toNat / 8) + loop.m_trigDelay.toNat % 8 =
        8 + loop.m_trigDelay.toNat := by omega
    unfold rearmsAt
    rw [hstart, decide_eq_true_iff]

theorem card_eq (hquiet : loop.Quiet m_maxTrigWordLength) (order : BitOrder) {words : TrigWords}
    (htriggers : ∀ p < 8 * m_maxTrigWordLength.toInt.toNat,
      requests order words m_maxTrigWordLength.toInt.toNat p = true ↔
        (8 + loop.m_trigDelay.toNat ≤ p ∧
          p < 8 + loop.m_trigDelay.toNat + loop.m_trigMultiplier.toNat) ∨
        loop.rearm chip m_maxTrigWordLength order = some p) :
    ((Finset.range (8 * m_maxTrigWordLength.toInt.toNat)).filter fun p =>
      requests order words m_maxTrigWordLength.toInt.toNat p = true).card =
        loop.m_trigMultiplier.toNat + if Rearms chip loop then 1 else 0 := by
  have hfour := hquiet.1
  have hplace := place_zero_lt order
  have hlength : (loop.rearm chip m_maxTrigWordLength order).toList.length =
      if Rearms chip loop then 1 else 0 := by
    unfold rearm
    split
    · rfl
    · rfl
  rw [← hlength]
  by_cases hm : loop.m_trigMultiplier = 0
  · have hzero : loop.m_trigMultiplier.toNat = 0 := by
      rw [hm]
      rfl
    rw [hzero]
    apply @card_requested _ _ 0 0 _ (Nat.zero_le _)
    · intro r hr
      have heq := ((rearm_eq_some_iff order r).mp hr).2
      omega
    · intro p hp
      have hempty : (8 + loop.m_trigDelay.toNat ≤ p ∧ p < 8 + loop.m_trigDelay.toNat + 0) ↔
          (0 ≤ p ∧ p < 0 + 0) := by omega
      rw [htriggers p hp, hzero]
      exact or_congr_left hempty
  · have hroom := room_of_quiet hquiet hm
    apply @card_requested _ _ (8 + loop.m_trigDelay.toNat) _ _ (by omega) _ htriggers
    intro r hr
    have heq := ((rearm_eq_some_iff order r).mp hr).2
    omega

theorem apart_of_sent (hquiet : loop.Quiet m_maxTrigWordLength) {order : BitOrder}
    {s : TrigBuffer} (hsent : loop.Sent chip m_maxTrigWordLength order s) : loop.Apart := by
  by_cases hm : loop.m_trigMultiplier = 0
  · exact Or.inl hm
  · apply Or.inr
    apply Nat.le_of_not_lt
    intro hdelay
    have hroom := room_of_quiet hquiet hm
    have hpos : 0 < loop.m_trigMultiplier.toNat :=
      Nat.pos_of_ne_zero fun hzero => hm (UInt32.toNat_inj.mp hzero)
    have hrequest := (hsent.triggers (8 + loop.m_trigDelay.toNat) (by omega)).mpr
      (Or.inl ⟨Nat.le_refl _, by omega⟩)
    have hword : m_maxTrigWordLength.toInt.toNat - 1 - (8 + loop.m_trigDelay.toNat) / 8 =
        m_maxTrigWordLength.toInt.toNat - 2 := by omega
    unfold requests at hrequest
    rw [hword, hsent.injection.2, readWord_of_silent (silent_ends chip loop).2.1] at hrequest
    cases hrequest

/-- The number of events that are waited for is that of the triggers. -/
def CountsTriggers (chip : InjectionChip) (loop : InjectionLoop) : Prop :=
  (chip.getExpEvents loop).toNat =
    loop.m_trigCnt.toNat * (loop.m_trigMultiplier.toNat + if Rearms chip loop then 1 else 0)

theorem sent_iff (hchip : OneTrigger chip) (hquiet : loop.Quiet m_maxTrigWordLength)
    (order : BitOrder) :
    (∃ s, init chip loop m_maxTrigWordLength = some s ∧
        loop.Sent chip m_maxTrigWordLength order s) ↔
      m_maxTrigWordLength.toInt ≤ 32 ∧
        (∀ j ∈ chip.printed m_maxTrigWordLength.toInt.toNat, j < 32) ∧ loop.Apart ∧
        Exact order loop.m_trigDelay loop.m_trigMultiplier ∧ CountsTriggers chip loop := by
  constructor
  · rintro ⟨s, hinit, hsent⟩
    obtain ⟨hsize, hmult, hprinted⟩ := of_init hquiet hinit
    have hapart := apart_of_sent hquiet hsent
    obtain ⟨s', hinit', hmiddle, hends⟩ := init_spec hquiet hsize hmult hapart hprinted
    rw [hinit] at hinit'
    cases hinit'
    refine ⟨hsize, hprinted, hapart,
      (triggers_iff hchip hquiet hmult hmiddle hends order).mp hsent.triggers, ?_⟩
    unfold CountsTriggers
    rw [← card_eq hquiet order hsent.triggers]
    exact hsent.events
  · rintro ⟨hsize, hprinted, hapart, hexact, hevents⟩
    have hmult : loop.m_trigMultiplier.toNat < 64 := by
      rcases hexact with hzero | ⟨hlt, -, -⟩
      · omega
      · exact hlt
    obtain ⟨s, hinit, hmiddle, hends⟩ := init_spec hquiet hsize hmult hapart hprinted
    have htriggers := (triggers_iff hchip hquiet hmult hmiddle hends order).mpr hexact
    refine ⟨s, hinit, hends.1, hends.2, htriggers, ?_⟩
    rw [card_eq hquiet order htriggers]
    exact hevents

end InjectionLoop

end Yarr.Rd53
