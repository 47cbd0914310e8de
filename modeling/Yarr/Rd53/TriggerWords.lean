import Yarr.Rd53.InjectionTriggers
import Yarr.Rd53aEmu.CommandPieces

/-!
# The triggers of RD53A, and of all the single injections

The loop of RD53A has its commands at fixed places of the 32 words. Its range
check is about the index, which is unsigned.
-/

namespace Yarr.Rd53

structure Rd53aTriggerLoop where
  m_trigCnt : UInt32
  m_trigDelay : UInt32
  m_noInject : Bool
  m_edgeMode : Bool
  m_trigMultiplier : UInt32
  m_sendEcr : Bool

namespace Rd53aTriggerLoop

open Rd53aCmd

def idle : UInt32 := 0x69696969

def header : UInt32 := 0x69696363

def ecr : UInt32 := 0x5a5a6969

def inject : UInt32 := genCal 8 ⟨0, 0, 1, 0, 0⟩

def arm : UInt32 := genCal 8 ⟨1, 0, 0, 0, 0⟩

/-- The duration of the argument is not used. -/
def edge : UInt32 := genCal 8 ⟨1, 0, 40, 0, 0⟩

def m_pulseDuration : UInt32 := 8

def pulse : UInt32 :=
  (0x5c5c0000 : UInt32) + (encode5to8 ((0x8 : UInt32) <<< 1) <<< 8) +
    encode5to8 (m_pulseDuration <<< 1)

def train (delay : UInt32) : Train where
  accepts i := decide (14 - delay / 8 - UInt32.ofNat i > 2) && decide (delay > 16)
  index i := (14 - delay / 8 - UInt32.ofNat i).toNat
  word bc1 bc2 i := genTrigger bc1 (UInt32.ofNat (2 * i)) bc2 (UInt32.ofNat (2 * i + 1))

variable (loop : Rd53aTriggerLoop) (softwareAZ : Bool)

def front : TrigWords :=
  let words : TrigWords := Vector.replicate 32 idle
  let words := if loop.m_sendEcr then words.set 16 ecr else words
  (words.set 15 header).set 14 inject

def setTrigDelay : Option TrigBuffer :=
  (trigStream loop.m_trigMultiplier loop.m_trigDelay).bind fun trigStream =>
    ((train loop.m_trigDelay).putAll trigStream (loop.m_trigMultiplier.toNat / 8 + 1)
      ⟨loop.front, 0⟩).map fun s =>
        let words := (s.m_trigWord.set 2 header).set 1 arm
        { s with m_trigWord := if softwareAZ then words.set 0 pulse else words }

def setEdgeMode (s : TrigBuffer) : TrigBuffer :=
  { s with m_trigWord := s.m_trigWord.set 14 edge }

def setNoInject (s : TrigBuffer) : TrigBuffer :=
  { s with m_trigWord :=
      (((s.m_trigWord.set 15 idle).set 14 idle).set 2 idle).set 1 idle }

def init : Option TrigBuffer :=
  (loop.setTrigDelay softwareAZ).map fun s =>
    let s := if loop.m_edgeMode then setEdgeMode s else s
    if loop.m_noInject then setNoInject s else s

def getExpEvents : UInt32 := loop.m_trigCnt * loop.m_trigMultiplier

/-! ## What is to be sent -/

/-- The words 15, 14, 2 and 1. -/
def ends : (UInt32 × UInt32) × (UInt32 × UInt32) :=
  if loop.m_noInject then ((idle, idle), (idle, idle))
  else ((header, if loop.m_edgeMode then edge else inject), (header, arm))

/-- All the words are sent; the injection word is the eighteenth one. -/
structure Sent (order : BitOrder) (s : TrigBuffer) : Prop where
  injection : wordAt s.m_trigWord 15 = loop.ends.1.1 ∧ wordAt s.m_trigWord 14 = loop.ends.1.2
  rearmed : wordAt s.m_trigWord 2 = loop.ends.2.1 ∧ wordAt s.m_trigWord 1 = loop.ends.2.2
  triggers : ∀ p < 8 * 32, requests order s.m_trigWord 32 p = true ↔
    136 + loop.m_trigDelay.toNat ≤ p ∧
      p < 136 + loop.m_trigDelay.toNat + loop.m_trigMultiplier.toNat
  events : loop.getExpEvents.toNat = loop.m_trigCnt.toNat *
    ((Finset.range (8 * 32)).filter fun p => requests order s.m_trigWord 32 p = true).card

/-- No error is logged. -/
def Quiet : Prop :=
  ∀ i < loop.m_trigMultiplier.toNat / 8 + 1, (train loop.m_trigDelay).accepts i = true

instance : Decidable loop.Quiet := inferInstanceAs (Decidable (∀ i < _, _))

variable {loop softwareAZ}

/-! ## The range check -/

theorem toNat_delay_div (delay : UInt32) : (delay / 8).toNat = delay.toNat / 8 :=
  UInt32.toNat_div _ _

theorem index_train {i : Nat} (hi : loop.m_trigDelay.toNat / 8 + i ≤ 14) :
    (train loop.m_trigDelay).index i = 14 - loop.m_trigDelay.toNat / 8 - i := by
  have hdiv := toNat_delay_div loop.m_trigDelay
  have hi' : (UInt32.ofNat i).toNat = i := by
    rw [UInt32.toNat_ofNat']
    omega
  have hlast : (14 : UInt32).toNat = 14 := rfl
  have hfirst : ((14 : UInt32) - loop.m_trigDelay / 8).toNat =
      14 - loop.m_trigDelay.toNat / 8 := by
    rw [UInt32.toNat_sub_of_le _ _ (by rw [UInt32.le_iff_toNat_le, hdiv, hlast]; omega), hdiv,
      hlast]
  show ((14 : UInt32) - loop.m_trigDelay / 8 - UInt32.ofNat i).toNat = _
  rw [UInt32.toNat_sub_of_le _ _ (by rw [UInt32.le_iff_toNat_le, hfirst, hi']; omega), hfirst, hi']

/-- Behind the end of the words the unsigned difference is large: it is accepted, and the index
is outside of the array. -/
theorem index_late (hlate : 120 ≤ loop.m_trigDelay.toNat) :
    32 ≤ (train loop.m_trigDelay).index 0 := by
  have hdiv := toNat_delay_div loop.m_trigDelay
  have hlt := loop.m_trigDelay.toNat_lt
  show 32 ≤ ((14 : UInt32) - loop.m_trigDelay / 8 - UInt32.ofNat 0).toNat
  have hzero : UInt32.ofNat 0 = 0 := rfl
  have hfour : (14 : UInt32).toNat = 14 := rfl
  rw [hzero, UInt32.sub_zero, UInt32.toNat_sub, hdiv, hfour]
  omega

theorem room_of_quiet (hquiet : loop.Quiet) (hearly : loop.m_trigDelay.toNat < 120) :
    16 < loop.m_trigDelay.toNat ∧
      loop.m_trigDelay.toNat / 8 + loop.m_trigMultiplier.toNat / 8 ≤ 11 := by
  have hdelay : 16 < loop.m_trigDelay.toNat := by
    have hless := of_decide_eq_true (Bool.and_eq_true_iff.mp (hquiet 0 (Nat.succ_pos _))).2
    rw [gt_iff_lt, UInt32.lt_iff_toNat_lt] at hless
    exact hless
  refine ⟨hdelay, ?_⟩
  apply Nat.le_of_not_lt
  intro hlong
  have hacc := hquiet (12 - loop.m_trigDelay.toNat / 8) (by omega)
  have hindex := @index_train loop (12 - loop.m_trigDelay.toNat / 8) (by omega)
  have hless := of_decide_eq_true (Bool.and_eq_true_iff.mp hacc).1
  rw [gt_iff_lt, UInt32.lt_iff_toNat_lt] at hless
  have htwo : (2 : UInt32).toNat < (train loop.m_trigDelay).index
      (12 - loop.m_trigDelay.toNat / 8) := hless
  rw [hindex] at htwo
  have heq : (2 : UInt32).toNat = 2 := rfl
  omega

/-! ## What the words request -/

theorem symbols_of_toNat {w : UInt32} {a b c d : UInt8}
    (h : w.toNat = a.toNat * 16777216 + b.toNat * 65536 + (c.toNat * 256 + d.toNat)) :
    (w >>> 24).toUInt8 = a ∧ (w >>> 8).toUInt8 = c := by
  have ha := a.toNat_lt
  have hb := b.toNat_lt
  have hc := c.toNat_lt
  have hd := d.toNat_lt
  have hshift24 : (24 : UInt32).toNat % 32 = 24 := rfl
  have hshift8 : (8 : UInt32).toNat % 32 = 8 := rfl
  constructor
  · apply UInt8.toNat_inj.mp
    rw [UInt32.toNat_toUInt8, UInt32.toNat_shiftRight, hshift24, Nat.shiftRight_eq_div_pow, h]
    omega
  · apply UInt8.toNat_inj.mp
    rw [UInt32.toNat_toUInt8, UInt32.toNat_shiftRight, hshift8, Nat.shiftRight_eq_div_pow, h]
    omega

theorem pattern_triggerPair (bc : Fin 16) (tag : Fin 32) :
    pattern (Command.triggerPair bc tag).1 = bc := by
  have hall : ∀ bc : Fin 16, pattern (Command.triggerPair bc 0).1 = bc := by decide +kernel
  have hsame : (Command.triggerPair bc tag).1 = (Command.triggerPair bc 0).1 := by
    unfold Command.triggerPair
    split
    · rfl
    · rfl
  rw [hsame, hall bc]

theorem arg_toNat {n : Nat} (bc : UInt32) (hbc : bc.toNat < n) :
    arg (⟨bc.toNat, hbc⟩ : Fin n) = bc := UInt32.ofNat_toNat

/-- The commands of a word stand for what they were made of. -/
theorem pattern_genTrigger {bc1 bc2 : UInt32} (h1 : bc1.toNat < 16) (h2 : bc2.toNat < 16)
    {tag1 tag2 : Nat} (ht1 : tag1 < 32) (ht2 : tag2 < 32) :
    pattern (genTrigger bc1 (UInt32.ofNat tag1) bc2 (UInt32.ofNat tag2) >>> 24).toUInt8
        = bc1.toNat ∧
      pattern (genTrigger bc1 (UInt32.ofNat tag1) bc2 (UInt32.ofNat tag2) >>> 8).toUInt8
        = bc2.toNat := by
  have htag1 : UInt32.ofNat tag1 = arg (⟨tag1, ht1⟩ : Fin 32) := rfl
  have htag2 : UInt32.ofNat tag2 = arg (⟨tag2, ht2⟩ : Fin 32) := rfl
  have hhigh := Command.toNat_highTrigger ⟨bc1.toNat, h1⟩ ⟨tag1, ht1⟩
  have hlow := Command.toNat_lowTrigger ⟨bc2.toNat, h2⟩ ⟨tag2, ht2⟩
  have hsum : (genTrigger bc1 (UInt32.ofNat tag1) bc2 (UInt32.ofNat tag2)).toNat =
      (Command.triggerPair ⟨bc1.toNat, h1⟩ ⟨tag1, ht1⟩).1.toNat * 16777216 +
        (Command.triggerPair ⟨bc1.toNat, h1⟩ ⟨tag1, ht1⟩).2.toNat * 65536 +
        ((Command.triggerPair ⟨bc2.toNat, h2⟩ ⟨tag2, ht2⟩).1.toNat * 256 +
          (Command.triggerPair ⟨bc2.toNat, h2⟩ ⟨tag2, ht2⟩).2.toNat) := by
    have ha := (Command.triggerPair ⟨bc1.toNat, h1⟩ ⟨tag1, ht1⟩).1.toNat_lt
    have hb := (Command.triggerPair ⟨bc1.toNat, h1⟩ ⟨tag1, ht1⟩).2.toNat_lt
    have hc := (Command.triggerPair ⟨bc2.toNat, h2⟩ ⟨tag2, ht2⟩).1.toNat_lt
    have hd := (Command.triggerPair ⟨bc2.toNat, h2⟩ ⟨tag2, ht2⟩).2.toNat_lt
    rw [arg_toNat, ← htag1] at hhigh
    rw [arg_toNat, ← htag2] at hlow
    rw [genTrigger, UInt32.toNat_add, hhigh, hlow]
    omega
  rcases symbols_of_toNat hsum with ⟨hfirst, hsecond⟩
  rw [hfirst, hsecond, pattern_triggerPair, pattern_triggerPair]
  exact ⟨rfl, rfl⟩

theorem train_reads (delay : UInt32) : (train delay).Reads :=
  fun _ _ _ hi h1 h2 => pattern_genTrigger h1 h2 (by omega) (by omega)

/-! ## Writing the words -/

/-- The words of the train. -/
def InTrain (loop : Rd53aTriggerLoop) (j : Nat) : Prop :=
  14 - loop.m_trigDelay.toNat / 8 < j + (loop.m_trigMultiplier.toNat / 8 + 1) ∧
    j ≤ 14 - loop.m_trigDelay.toNat / 8

/-- The train is in its words, and there are no triggers in the others. -/
structure Written (loop : Rd53aTriggerLoop) (words : TrigWords) : Prop where
  train : ∀ order j c, loop.InTrain j → c < 8 → readWord order (wordAt words j) c =
    decide (loop.m_trigDelay.toNat % 8 ≤
        order.place (8 * (14 - loop.m_trigDelay.toNat / 8 - j) + c) ∧
      order.place (8 * (14 - loop.m_trigDelay.toNat / 8 - j) + c) <
        min 64 (loop.m_trigDelay.toNat % 8 + loop.m_trigMultiplier.toNat))
  silent : ∀ j, j < 32 → ¬loop.InTrain j → Silent (wordAt words j)

theorem Written.set {words : TrigWords} (h : loop.Written words) {j : Nat} (hj : j < 32)
    (hout : ¬loop.InTrain j) {w : UInt32} (hw : Silent w) : loop.Written (words.set j w) := by
  constructor
  · intro order j' c hin hc
    have hne : j' ≠ j := fun heq => hout (heq ▸ hin)
    rw [wordAt_set words w hj, if_neg hne]
    exact h.train order j' c hin hc
  · intro j' hj' hout'
    rw [wordAt_set words w hj]
    split
    · exact hw
    · exact h.silent j' hj' hout'

theorem InTrain.bounds (hquiet : loop.Quiet) (hearly : loop.m_trigDelay.toNat < 120) {j : Nat}
    (hin : loop.InTrain j) : 2 < j ∧ j < 13 := by
  obtain ⟨hlow, hhigh⟩ := hin
  obtain ⟨hdelay, hroom⟩ := room_of_quiet hquiet hearly
  omega

theorem silent_front (loop : Rd53aTriggerLoop) {j : Nat} (hj : j < 32) :
    Silent (wordAt loop.front j) := by
  have hidle : ∀ j < 32, Silent (wordAt (Vector.replicate 32 idle) j) := by
    intro j hj
    unfold wordAt
    rw [dif_pos hj, Vector.getElem_replicate]
    decide
  unfold front
  rw [wordAt_set, wordAt_set]
  split
  · decide
  · split
    · decide
    · split
      · rw [wordAt_set]
        split
        · decide
        · exact hidle j hj
      · exact hidle j hj

theorem front_ends (loop : Rd53aTriggerLoop) :
    wordAt loop.front 15 = header ∧ wordAt loop.front 14 = inject := by
  unfold front
  constructor
  · rw [wordAt_set, if_neg (by decide), wordAt_set, if_pos rfl]
  · rw [wordAt_set, if_pos rfl]

theorem setTrigDelay_spec (hquiet : loop.Quiet) (hearly : loop.m_trigDelay.toNat < 120)
    (hm : loop.m_trigMultiplier.toNat < 64) :
    ∃ s, loop.setTrigDelay softwareAZ = some s ∧ loop.Written s.m_trigWord ∧
      wordAt s.m_trigWord 15 = header ∧ wordAt s.m_trigWord 14 = inject ∧
      wordAt s.m_trigWord 2 = header ∧ wordAt s.m_trigWord 1 = arm := by
  obtain ⟨hdelay, hroom⟩ := room_of_quiet hquiet hearly
  obtain ⟨stream, hstream, hones⟩ := @trigStream_ones _ loop.m_trigDelay (Nat.le_of_lt hm)
  obtain ⟨s, hs, hother, hread⟩ := Train.putAll_spec (train_reads loop.m_trigDelay) hones
    (show loop.m_trigMultiplier.toNat / 8 + 1 ≤ 8 by omega) hquiet
    (fun i hi => index_train (by omega)) (show 14 - loop.m_trigDelay.toNat / 8 < 32 by omega)
    (by omega) ⟨loop.front, 0⟩
  have hkeep : ∀ j, ¬loop.InTrain j → wordAt s.m_trigWord j = wordAt loop.front j := hother
  have hout : ∀ j, j < 3 ∨ 12 < j → ¬loop.InTrain j := by
    intro j hj hin
    have hbounds := hin.bounds hquiet hearly
    omega
  have hwritten : loop.Written s.m_trigWord := by
    constructor
    · exact fun order j c hin hc => hread order j c hin.1 hin.2 hc
    · intro j hj hnot
      rw [hkeep j hnot]
      exact silent_front loop hj
  have hwords : loop.Written ((s.m_trigWord.set 2 header).set 1 arm) :=
    (hwritten.set (by decide) (hout 2 (by decide)) (by decide)).set (by decide)
      (hout 1 (by decide)) (by decide)
  refine ⟨_, by unfold setTrigDelay; rw [hstream, Option.bind_some, hs]; rfl, ?_⟩
  have hends : ∀ j, 12 < j → wordAt ((s.m_trigWord.set 2 header).set 1 arm) j =
      wordAt loop.front j := by
    intro j hj
    rw [wordAt_set, if_neg (by omega), wordAt_set, if_neg (by omega)]
    exact hkeep j (hout j (Or.inr hj))
  cases softwareAZ with
  | false =>
      refine ⟨hwords, ?_, ?_, ?_, ?_⟩
      · exact (hends 15 (by decide)).trans (front_ends loop).1
      · exact (hends 14 (by decide)).trans (front_ends loop).2
      · show wordAt ((s.m_trigWord.set 2 header).set 1 arm) 2 = _
        rw [wordAt_set, if_neg (by decide), wordAt_set, if_pos rfl]
      · show wordAt ((s.m_trigWord.set 2 header).set 1 arm) 1 = _
        rw [wordAt_set, if_pos rfl]
  | true =>
      have hzero : ∀ j, j ≠ 0 → wordAt (((s.m_trigWord.set 2 header).set 1 arm).set 0 pulse) j =
          wordAt ((s.m_trigWord.set 2 header).set 1 arm) j := by
        intro j hj
        rw [wordAt_set, if_neg hj]
      refine ⟨hwords.set (by decide) (hout 0 (by decide)) (by decide), ?_, ?_, ?_, ?_⟩
      · exact (hzero 15 (by decide)).trans ((hends 15 (by decide)).trans (front_ends loop).1)
      · exact (hzero 14 (by decide)).trans ((hends 14 (by decide)).trans (front_ends loop).2)
      · apply (hzero 2 (by decide)).trans
        rw [wordAt_set, if_neg (by decide), wordAt_set, if_pos rfl]
      · apply (hzero 1 (by decide)).trans
        rw [wordAt_set, if_pos rfl]

theorem init_spec (hquiet : loop.Quiet) (hearly : loop.m_trigDelay.toNat < 120)
    (hm : loop.m_trigMultiplier.toNat < 64) :
    ∃ s, loop.init softwareAZ = some s ∧ loop.Written s.m_trigWord ∧
      (wordAt s.m_trigWord 15 = loop.ends.1.1 ∧ wordAt s.m_trigWord 14 = loop.ends.1.2) ∧
      wordAt s.m_trigWord 2 = loop.ends.2.1 ∧ wordAt s.m_trigWord 1 = loop.ends.2.2 := by
  obtain ⟨s, hs, hwritten, h15, h14, h2, h1⟩ :=
    @setTrigDelay_spec loop softwareAZ hquiet hearly hm
  have hout : ∀ j, j < 3 ∨ 12 < j → ¬loop.InTrain j := by
    intro j hj hin
    have hbounds := hin.bounds hquiet hearly
    omega
  have hedge : ∃ words,
      (if loop.m_edgeMode then setEdgeMode s else s) = { s with m_trigWord := words } ∧
      loop.Written words ∧ wordAt words 15 = header ∧
      wordAt words 14 = (if loop.m_edgeMode then edge else inject) ∧
      wordAt words 2 = header ∧ wordAt words 1 = arm := by
    cases loop.m_edgeMode with
    | false => exact ⟨s.m_trigWord, rfl, hwritten, h15, h14, h2, h1⟩
    | true =>
        refine ⟨s.m_trigWord.set 14 edge, rfl,
          hwritten.set (by decide) (hout 14 (by decide)) (by decide), ?_, ?_, ?_, ?_⟩
        · rw [wordAt_set, if_neg (by decide), h15]
        · rw [wordAt_set, if_pos rfl, if_pos rfl]
        · rw [wordAt_set, if_neg (by decide), h2]
        · rw [wordAt_set, if_neg (by decide), h1]
  obtain ⟨words, hwords, hwritten', h15', h14', h2', h1'⟩ := hedge
  refine ⟨_, by unfold init; rw [hs]; rfl, ?_⟩
  dsimp only
  rw [hwords]
  unfold ends
  cases loop.m_noInject with
  | false => exact ⟨hwritten', ⟨h15', h14'⟩, h2', h1'⟩
  | true =>
      have hsilent : Silent idle := by decide
      refine ⟨(((hwritten'.set (by decide) (hout 15 (by decide)) hsilent).set (by decide)
        (hout 14 (by decide)) hsilent).set (by decide) (hout 2 (by decide)) hsilent).set
          (by decide) (hout 1 (by decide)) hsilent, ⟨?_, ?_⟩, ?_, ?_⟩
      · show wordAt ((((words.set 15 idle).set 14 idle).set 2 idle).set 1 idle) 15 = idle
        rw [wordAt_set, if_neg (by decide), wordAt_set, if_neg (by decide), wordAt_set,
          if_neg (by decide), wordAt_set, if_pos rfl]
      · show wordAt ((((words.set 15 idle).set 14 idle).set 2 idle).set 1 idle) 14 = idle
        rw [wordAt_set, if_neg (by decide), wordAt_set, if_neg (by decide), wordAt_set, if_pos rfl]
      · show wordAt ((((words.set 15 idle).set 14 idle).set 2 idle).set 1 idle) 2 = idle
        rw [wordAt_set, if_neg (by decide), wordAt_set, if_pos rfl]
      · show wordAt ((((words.set 15 idle).set 14 idle).set 2 idle).set 1 idle) 1 = idle
        rw [wordAt_set, if_pos rfl]

theorem of_init (hquiet : loop.Quiet) {s : TrigBuffer} (h : loop.init softwareAZ = some s) :
    loop.m_trigDelay.toNat < 120 ∧ loop.m_trigMultiplier.toNat < 64 := by
  unfold init setTrigDelay at h
  obtain ⟨_, hset, -⟩ := Option.map_eq_some_iff.mp h
  obtain ⟨stream, hstream, hset⟩ := Option.bind_eq_some_iff.mp hset
  obtain ⟨_, hput, -⟩ := Option.map_eq_some_iff.mp hset
  constructor
  · apply Nat.lt_of_not_le
    intro hlate
    have hnone : ∀ s, (train loop.m_trigDelay).put stream s 0 = none := by
      intro s
      unfold Train.put
      rw [if_pos (hquiet 0 (Nat.succ_pos _))]
      apply Option.eq_none_iff_forall_not_mem.mpr
      intro s' hs'
      obtain ⟨_, -, hs'⟩ := Option.bind_eq_some_iff.mp hs'
      obtain ⟨_, -, hs'⟩ := Option.bind_eq_some_iff.mp hs'
      rw [setTrigWord_eq_none _ _ (index_late hlate)] at hs'
      cases hs'
    rw [Train.putAll_eq_none _ (Nat.succ_pos _) hnone] at hput
    cases hput
  · apply Nat.lt_of_not_le
    intro hge
    by_cases hmany : 64 < loop.m_trigMultiplier.toNat
    · rw [trigStream_eq_none hmany] at hstream
      cases hstream
    · have hnine : 8 < loop.m_trigMultiplier.toNat / 8 + 1 := by omega
      have hnone : ∀ s, (train loop.m_trigDelay).put stream s 8 = none := by
        intro s
        unfold Train.put
        rw [if_pos (hquiet 8 hnine)]
        rfl
      rw [Train.putAll_eq_none _ hnine hnone] at hput
      cases hput

/-! ## The bunch crossings -/

theorem requests_eq (hquiet : loop.Quiet) (hearly : loop.m_trigDelay.toNat < 120)
    {words : TrigWords} (hwritten : loop.Written words) (order : BitOrder) {p : Nat}
    (hp : p < 8 * 32) :
    requests order words 32 p =
      if 136 + 8 * (loop.m_trigDelay.toNat / 8) ≤ p ∧ p < 136 + 8 * (loop.m_trigDelay.toNat / 8) +
          8 * (loop.m_trigMultiplier.toNat / 8 + 1) then
        decide (loop.m_trigDelay.toNat % 8 ≤
            order.place (p - (136 + 8 * (loop.m_trigDelay.toNat / 8))) ∧
          order.place (p - (136 + 8 * (loop.m_trigDelay.toNat / 8))) <
            min 64 (loop.m_trigDelay.toNat % 8 + loop.m_trigMultiplier.toNat))
      else false := by
  obtain ⟨hdelay, hroom⟩ := room_of_quiet hquiet hearly
  unfold requests
  by_cases hin : 136 + 8 * (loop.m_trigDelay.toNat / 8) ≤ p ∧
      p < 136 + 8 * (loop.m_trigDelay.toNat / 8) + 8 * (loop.m_trigMultiplier.toNat / 8 + 1)
  · have htrain : loop.InTrain (32 - 1 - p / 8) := ⟨by omega, by omega⟩
    have hplace : 8 * (14 - loop.m_trigDelay.toNat / 8 - (32 - 1 - p / 8)) + p % 8 =
        p - (136 + 8 * (loop.m_trigDelay.toNat / 8)) := by omega
    rw [if_pos hin, hwritten.train order _ _ htrain (by omega), hplace]
  · rw [if_neg hin]
    apply readWord_of_silent
    apply hwritten.silent _ (by omega)
    rintro ⟨hlow, hhigh⟩
    omega

theorem triggers_iff (hquiet : loop.Quiet) (hearly : loop.m_trigDelay.toNat < 120)
    (hmult : loop.m_trigMultiplier.toNat < 64) {words : TrigWords}
    (hwritten : loop.Written words) (order : BitOrder) :
    (∀ p < 8 * 32, requests order words 32 p = true ↔
      136 + loop.m_trigDelay.toNat ≤ p ∧
        p < 136 + loop.m_trigDelay.toNat + loop.m_trigMultiplier.toNat) ↔
      Exact order loop.m_trigDelay loop.m_trigMultiplier := by
  obtain ⟨hdelay, hroom⟩ := room_of_quiet hquiet hearly
  have hiff := @requested_iff order _ (fun _ => false) _ 32 _ (loop.m_trigDelay.toNat % 8)
    loop.m_trigMultiplier.toNat (by omega) rfl (by omega) (by omega)
    (fun p hp => requests_eq hquiet hearly hwritten order hp) (fun _ _ _ => rfl)
  rw [exact_iff order hmult, ← hiff]
  apply forall_congr'
  intro p
  apply imp_congr_right
  intro _
  have hstart : 136 + 8 * (loop.m_trigDelay.toNat / 8) + loop.m_trigDelay.toNat % 8 =
      136 + loop.m_trigDelay.toNat := by omega
  rw [hstart]
  simp only [Bool.false_eq_true, or_false]

/-- The conditions under which the loop does what it is to do. -/
def Fine (order : BitOrder) (loop : Rd53aTriggerLoop) : Prop :=
  loop.m_trigDelay.toNat < 120 ∧ Exact order loop.m_trigDelay loop.m_trigMultiplier ∧
    loop.m_trigCnt.toNat * loop.m_trigMultiplier.toNat < 2 ^ 32

instance (order : BitOrder) (loop : Rd53aTriggerLoop) : Decidable (Fine order loop) :=
  inferInstanceAs (Decidable (_ ∧ _))

theorem events_iff (cnt multiplier : UInt32) :
    (cnt * multiplier).toNat = cnt.toNat * multiplier.toNat ↔
      cnt.toNat * multiplier.toNat < 2 ^ 32 := by
  rw [UInt32.toNat_mul]
  exact Nat.mod_eq_iff_lt (by decide)

theorem card_eq (hquiet : loop.Quiet) (hearly : loop.m_trigDelay.toNat < 120) {order : BitOrder}
    {words : TrigWords} (htriggers : ∀ p < 8 * 32, requests order words 32 p = true ↔
      136 + loop.m_trigDelay.toNat ≤ p ∧
        p < 136 + loop.m_trigDelay.toNat + loop.m_trigMultiplier.toNat) :
    ((Finset.range (8 * 32)).filter fun p => requests order words 32 p = true).card =
      loop.m_trigMultiplier.toNat := by
  obtain ⟨hdelay, hroom⟩ := room_of_quiet hquiet hearly
  have hnone : ∀ p < 8 * 32, requests order words 32 p = true ↔
      (136 + loop.m_trigDelay.toNat ≤ p ∧
        p < 136 + loop.m_trigDelay.toNat + loop.m_trigMultiplier.toNat) ∨
      (none : Option Nat) = some p := by
    intro p hp
    rw [htriggers p hp]
    exact (or_iff_left (Option.some_ne_none p).symm).symm
  have hcard := @card_requested (requests order words 32) 32 (136 + loop.m_trigDelay.toNat)
    loop.m_trigMultiplier.toNat none (by omega) (fun r hr => by cases hr) hnone
  exact hcard

theorem sent_iff (hquiet : loop.Quiet) (order : BitOrder) :
    (∃ s, loop.init softwareAZ = some s ∧ loop.Sent order s) ↔ Fine order loop := by
  constructor
  · rintro ⟨s, hinit, hsent⟩
    obtain ⟨hearly, hmult⟩ := of_init hquiet hinit
    obtain ⟨s', hinit', hwritten, -⟩ := @init_spec loop softwareAZ hquiet hearly hmult
    rw [hinit] at hinit'
    cases hinit'
    refine ⟨hearly, (triggers_iff hquiet hearly hmult hwritten order).mp hsent.triggers, ?_⟩
    have hevents := hsent.events
    rw [card_eq hquiet hearly hsent.triggers] at hevents
    exact (events_iff _ _).mp hevents
  · rintro ⟨hearly, hexact, hevents⟩
    have hmult : loop.m_trigMultiplier.toNat < 64 := by
      rcases hexact with hzero | ⟨hlt, -, -⟩
      · omega
      · exact hlt
    obtain ⟨s, hinit, hwritten, hfront, hback⟩ := @init_spec loop softwareAZ hquiet hearly hmult
    have htriggers := (triggers_iff hquiet hearly hmult hwritten order).mpr hexact
    refine ⟨s, hinit, hfront, hback, htriggers, ?_⟩
    rw [card_eq hquiet hearly htriggers]
    exact (events_iff _ _).mpr hevents

end Rd53aTriggerLoop

/-! ## All the loops -/

open InjectionLoop in
/-- The train is apart from the commands and fits its words; the trigger of the re-arm word is
counted if it is there. -/
def Itkpixv2TriggerLoop.Fine (order : BitOrder) (m_maxTrigWordLength : Int32)
    (loop : InjectionLoop) : Prop :=
  m_maxTrigWordLength.toInt ≤ 32 ∧ loop.Apart ∧
    Exact order loop.m_trigDelay loop.m_trigMultiplier ∧
    (loop.m_trigCnt = 0 ∨ ((loop.m_noInject = true → loop.m_edgeMode = true) ∧
      loop.m_trigCnt.toNat * (loop.m_trigMultiplier.toNat + if loop.m_edgeMode then 0 else 1) <
        2 ^ 32))

instance (order : BitOrder) (m_maxTrigWordLength : Int32) (loop : InjectionLoop) :
    Decidable (Itkpixv2TriggerLoop.Fine order m_maxTrigWordLength loop) :=
  inferInstanceAs (Decidable (_ ∧ _ ∧ _ ∧ (_ ∨ ((_ → _) ∧ _))))

/-- The output for debugging reads one word behind those that are sent. -/
def Rd53bTriggerLoop.Fine (order : BitOrder) (m_maxTrigWordLength : Int32)
    (loop : InjectionLoop) : Prop :=
  m_maxTrigWordLength.toInt ≤ 31 ∧ loop.Apart ∧
    Exact order loop.m_trigDelay loop.m_trigMultiplier ∧
    loop.m_trigCnt.toNat * loop.m_trigMultiplier.toNat < 2 ^ 32

instance (order : BitOrder) (m_maxTrigWordLength : Int32) (loop : InjectionLoop) :
    Decidable (Rd53bTriggerLoop.Fine order m_maxTrigWordLength loop) :=
  inferInstanceAs (Decidable (_ ∧ _))

theorem Itkpixv2TriggerLoop.oneTrigger : InjectionLoop.OneTrigger chip := by
  show pattern (Itkpixv2Cmd.genTrigger 1 53 >>> 8).toUInt8 ≤ 1
  decide

theorem Rd53bTriggerLoop.oneTrigger : InjectionLoop.OneTrigger chip := by
  show pattern (Itkpixv2Cmd.genSync >>> 8).toUInt8 ≤ 1
  decide

theorem Itkpixv2TriggerLoop.printed_iff {length : Nat} (h : length ≤ 32) :
    ∀ j ∈ chip.printed length, j < 32 := by
  intro j hj
  obtain ⟨i, hi, rfl⟩ := List.mem_map.mp hj
  have hlt := List.mem_range.mp hi
  omega

theorem Rd53bTriggerLoop.printed_iff {length : Nat} :
    (∀ j ∈ chip.printed length, j < 32) ↔ length ≤ 31 := by
  constructor
  · intro h
    have hfirst := h (length - 0) (List.mem_map.mpr ⟨0, List.mem_range.mpr (Nat.succ_pos _), rfl⟩)
    omega
  · intro h j hj
    obtain ⟨i, -, rfl⟩ := List.mem_map.mp hj
    omega

open InjectionLoop

theorem Itkpixv2TriggerLoop.not_silent_rearm :
    ¬Silent (Itkpixv2Cmd.word chip.beforeRearm
      (getElem (Itkpixv2Cmd.genCal 16 arm) 0 Index.first_of_three)) := by
  show ¬Silent (Itkpixv2Cmd.word (Itkpixv2Cmd.genTrigger 1 53)
    (getElem (Itkpixv2Cmd.genCal 16 arm) 0 Index.first_of_three))
  decide

theorem Rd53bTriggerLoop.silent_rearm :
    Silent (Itkpixv2Cmd.word chip.beforeRearm
      (getElem (Itkpixv2Cmd.genCal 16 arm) 0 Index.first_of_three)) := by
  show Silent (Itkpixv2Cmd.word Itkpixv2Cmd.genSync
    (getElem (Itkpixv2Cmd.genCal 16 arm) 0 Index.first_of_three))
  decide

theorem Itkpixv2TriggerLoop.trigCounts_iff (loop : InjectionLoop)
    (hmult : loop.m_trigMultiplier.toNat < 64) :
    CountsTriggers chip loop ↔ loop.m_trigCnt = 0 ∨
      ((loop.m_noInject = true → loop.m_edgeMode = true) ∧ loop.m_trigCnt.toNat *
        (loop.m_trigMultiplier.toNat + if loop.m_edgeMode then 0 else 1) < 2 ^ 32) := by
  have hcnt := loop.m_trigCnt.toNat_lt
  have hsum : (loop.m_trigMultiplier + if loop.m_edgeMode then 0 else 1 : UInt32).toNat =
      loop.m_trigMultiplier.toNat + if loop.m_edgeMode then 0 else 1 := by
    rw [UInt32.toNat_add]
    cases loop.m_edgeMode with
    | true =>
        show (loop.m_trigMultiplier.toNat + 0) % 2 ^ 32 = _
        exact Nat.mod_eq_of_lt (by omega)
    | false =>
        show (loop.m_trigMultiplier.toNat + 1) % 2 ^ 32 = _
        exact Nat.mod_eq_of_lt (by omega)
  have hevents : (chip.getExpEvents loop).toNat = loop.m_trigCnt.toNat *
      (loop.m_trigMultiplier.toNat + if loop.m_edgeMode then 0 else 1) % 2 ^ 32 := by
    show (loop.m_trigCnt * (loop.m_trigMultiplier + if loop.m_edgeMode then 0 else 1)).toNat = _
    rw [UInt32.toNat_mul, hsum]
  have hzero : loop.m_trigCnt = 0 ↔ loop.m_trigCnt.toNat = 0 := by
    rw [← UInt32.toNat_inj]
    rfl
  unfold CountsTriggers
  rw [hevents, hzero]
  by_cases hedge : loop.m_edgeMode = true
  · have hno : ¬Rearms chip loop := fun h => Bool.false_ne_true (h.2.1.symm.trans hedge)
    rw [if_neg hno, if_pos hedge, Nat.mod_eq_iff_lt (by decide)]
    constructor
    · exact fun h => Or.inr ⟨fun _ => hedge, h⟩
    · rintro (h | ⟨-, h⟩)
      · rw [h, Nat.zero_mul]
        decide
      · exact h
  · by_cases hinject : loop.m_noInject = true
    · have hno : ¬Rearms chip loop := fun h => Bool.false_ne_true (h.2.2.symm.trans hinject)
      rw [if_neg hno, if_neg hedge, Nat.mul_add, Nat.mul_add, Nat.mul_one, Nat.mul_zero]
      constructor
      · intro h
        apply Or.inl
        omega
      · rintro (h | ⟨himp, -⟩)
        · rw [h]
          simp
        · exact absurd (himp hinject) hedge
    · have hyes : Rearms chip loop :=
        ⟨not_silent_rearm, Bool.eq_false_iff.mpr hedge, Bool.eq_false_iff.mpr hinject⟩
      rw [if_pos hyes, if_neg hedge, Nat.mod_eq_iff_lt (by decide)]
      constructor
      · exact fun h => Or.inr ⟨fun h => absurd h hinject, h⟩
      · rintro (h | ⟨-, h⟩)
        · rw [h, Nat.zero_mul]
          decide
        · exact h

theorem Rd53bTriggerLoop.trigCounts_iff (loop : InjectionLoop) :
    CountsTriggers chip loop ↔
      loop.m_trigCnt.toNat * loop.m_trigMultiplier.toNat < 2 ^ 32 := by
  have hno : ¬Rearms chip loop := fun h => h.1 silent_rearm
  unfold CountsTriggers
  rw [if_neg hno]
  exact Rd53aTriggerLoop.events_iff _ _

/-- For either order of the bits in a command, and for all settings without an error in the log. -/
theorem trigger_words (order : BitOrder) :
    (∀ (loop : InjectionLoop) (m_maxTrigWordLength : Int32), loop.Quiet m_maxTrigWordLength →
      ((∃ s, init Itkpixv2TriggerLoop.chip loop m_maxTrigWordLength = some s ∧
          loop.Sent Itkpixv2TriggerLoop.chip m_maxTrigWordLength order s) ↔
        Itkpixv2TriggerLoop.Fine order m_maxTrigWordLength loop)) ∧
    (∀ (loop : InjectionLoop) (m_maxTrigWordLength : Int32), loop.Quiet m_maxTrigWordLength →
      ((∃ s, init Rd53bTriggerLoop.chip loop m_maxTrigWordLength = some s ∧
          loop.Sent Rd53bTriggerLoop.chip m_maxTrigWordLength order s) ↔
        Rd53bTriggerLoop.Fine order m_maxTrigWordLength loop)) ∧
    ∀ (loop : Rd53aTriggerLoop) (softwareAZ : Bool), loop.Quiet →
      ((∃ s, loop.init softwareAZ = some s ∧ loop.Sent order s) ↔
        Rd53aTriggerLoop.Fine order loop) := by
  refine ⟨?_, ?_, ?_⟩
  · intro loop m_maxTrigWordLength hquiet
    rw [sent_iff Itkpixv2TriggerLoop.oneTrigger hquiet order]
    constructor
    · rintro ⟨hsize, -, hapart, hexact, hcounts⟩
      have hmult : loop.m_trigMultiplier.toNat < 64 := by
        rcases hexact with hzero | ⟨hlt, -, -⟩
        · omega
        · exact hlt
      exact ⟨hsize, hapart, hexact, (Itkpixv2TriggerLoop.trigCounts_iff loop hmult).mp hcounts⟩
    · rintro ⟨hsize, hapart, hexact, hcounts⟩
      have hmult : loop.m_trigMultiplier.toNat < 64 := by
        rcases hexact with hzero | ⟨hlt, -, -⟩
        · omega
        · exact hlt
      exact ⟨hsize, Itkpixv2TriggerLoop.printed_iff (by omega), hapart, hexact,
        (Itkpixv2TriggerLoop.trigCounts_iff loop hmult).mpr hcounts⟩
  · intro loop m_maxTrigWordLength hquiet
    have hfour := hquiet.1
    rw [sent_iff Rd53bTriggerLoop.oneTrigger hquiet order, Rd53bTriggerLoop.printed_iff,
      Rd53bTriggerLoop.trigCounts_iff]
    constructor
    · rintro ⟨-, hprinted, hapart, hexact, hcounts⟩
      exact ⟨by omega, hapart, hexact, hcounts⟩
    · rintro ⟨hsize, hapart, hexact, hcounts⟩
      exact ⟨by omega, by omega, hapart, hexact, hcounts⟩
  · intro loop softwareAZ hquiet
    exact Rd53aTriggerLoop.sent_iff hquiet order

/-- The settings of the constructors, with the trigger delay, the multiplier and `noInject`. -/
def defaultLoop (m_trigDelay m_trigMultiplier : UInt32) (m_noInject : Bool) : InjectionLoop :=
  ⟨50, m_trigDelay, 0, m_noInject, false, 40, m_trigMultiplier⟩

def Rd53aTriggerLoop.defaultLoop (m_trigDelay : UInt32) : Rd53aTriggerLoop :=
  ⟨50, m_trigDelay, false, false, 16, false⟩

theorem default_words :
    (∃ s, init Itkpixv2TriggerLoop.chip (defaultLoop 48 16 false) 32 = some s ∧
      (defaultLoop 48 16 false).Sent Itkpixv2TriggerLoop.chip 32 .msbFirst s) ∧
    (∃ s, init Rd53bTriggerLoop.chip (defaultLoop 48 16 false) 16 = some s ∧
      (defaultLoop 48 16 false).Sent Rd53bTriggerLoop.chip 16 .msbFirst s) ∧
    ∃ s, (Rd53aTriggerLoop.defaultLoop 48).init true = some s ∧
      (Rd53aTriggerLoop.defaultLoop 48).Sent .msbFirst s :=
  ⟨((trigger_words .msbFirst).1 _ 32 (by decide +kernel)).mpr (by decide +kernel),
    ((trigger_words .msbFirst).2.1 _ 16 (by decide +kernel)).mpr (by decide +kernel),
    ((trigger_words .msbFirst).2.2 _ true (by decide +kernel)).mpr (by decide +kernel)⟩

/-- No error is logged for any of them. Without injections one trigger too many is waited for; the
last of fifteen triggers is lost; the debug output reads word 32; a late train is written outside
of the words. -/
theorem words_that_fail :
    ((defaultLoop 48 16 true).Quiet 32 ∧ ∀ order s,
      init Itkpixv2TriggerLoop.chip (defaultLoop 48 16 true) 32 = some s →
        ¬(defaultLoop 48 16 true).Sent Itkpixv2TriggerLoop.chip 32 order s) ∧
    ((defaultLoop 50 15 false).Quiet 32 ∧ ∀ order s,
      init Itkpixv2TriggerLoop.chip (defaultLoop 50 15 false) 32 = some s →
        ¬(defaultLoop 50 15 false).Sent Itkpixv2TriggerLoop.chip 32 order s) ∧
    ((defaultLoop 48 16 false).Quiet 32 ∧
      init Rd53bTriggerLoop.chip (defaultLoop 48 16 false) 32 = none) ∧
    ((Rd53aTriggerLoop.defaultLoop 120).Quiet ∧
      (Rd53aTriggerLoop.defaultLoop 120).init true = none) := by
  have hquiet : (defaultLoop 48 16 true).Quiet 32 := by decide +kernel
  have hlost : (defaultLoop 50 15 false).Quiet 32 := by decide +kernel
  have hprinted : (defaultLoop 48 16 false).Quiet 32 := by decide +kernel
  have hlate : (Rd53aTriggerLoop.defaultLoop 120).Quiet := by decide +kernel
  refine ⟨⟨hquiet, ?_⟩, ⟨hlost, ?_⟩, ⟨hprinted, ?_⟩, ⟨hlate, ?_⟩⟩
  · intro order s hinit hsent
    obtain ⟨-, -, -, -, hcounts⟩ :=
      (sent_iff Itkpixv2TriggerLoop.oneTrigger hquiet order).mp ⟨s, hinit, hsent⟩
    revert hcounts
    rw [Itkpixv2TriggerLoop.trigCounts_iff _ (by decide)]
    decide
  · intro order s hinit hsent
    obtain ⟨-, -, -, hexact, -⟩ :=
      (sent_iff Itkpixv2TriggerLoop.oneTrigger hlost order).mp ⟨s, hinit, hsent⟩
    revert hexact
    cases order with
    | lsbFirst => decide
    | msbFirst => decide
  · apply Option.eq_none_iff_forall_not_mem.mpr
    intro s hinit
    exact absurd ((of_init hprinted hinit).2.2 32 (by decide +kernel)) (by decide)
  · apply Option.eq_none_iff_forall_not_mem.mpr
    intro s hinit
    exact absurd (Rd53aTriggerLoop.of_init hlate hinit).1 (by decide)

end Yarr.Rd53
