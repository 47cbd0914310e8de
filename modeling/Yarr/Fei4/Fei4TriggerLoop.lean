import Mathlib.Logic.Basic
import Yarr.Core.Indices

/-!
# The trigger of the FE-I4

Four words are sent, the highest index first: the calibration command in its
own word, then 96 bits with the trigger command, which may begin anywhere in
them.
-/

namespace Yarr.Fei4

def TRIG_CMD : UInt32 := 0xe8000000

def CAL_CMD : UInt32 := 0x00000164

structure Fei4TriggerLoop where
  m_trigDelay : UInt32
  m_trigWord : Vector UInt32 4
  m_trigWordLength : UInt32

namespace Fei4TriggerLoop

/-- `none`: the index is outside the array. -/
def setWord (words : Vector UInt32 4) (i : UInt32) (word : UInt32) : Option (Vector UInt32 4) :=
  if h : i.toNat < 4 then some (words.set i.toNat word) else none

def setTrigDelay (s : Fei4TriggerLoop) (delay : UInt32) : Option Fei4TriggerLoop :=
  let pos := (delay - 1) % 32
  let word := (delay - 1) / 32
  let words : Vector UInt32 4 := #v[0, 0, 0, CAL_CMD]
  if (word < 3 ∧ pos ≤ 27) ∨ word < 2 then
    (setWord words (2 - word) (TRIG_CMD >>> pos)).bind fun words =>
      (if 27 < pos then setWord words (2 - 1 - word) (TRIG_CMD <<< (5 - (32 - pos)))
        else some words).map fun words => ⟨delay, words, 4⟩
  else some { s with m_trigWord := words, m_trigWordLength := 4 }

/-! ## What is sent -/

/-- The bits behind the calibration word. -/
def bitAt (words : Vector UInt32 4) (n : Nat) : Bool :=
  (words.getD (2 - n / 32) 0).toBitVec.getMsbD (n % 32)

/-- The bits of the command, `11101`. -/
def trigBit (k : Nat) : Bool := decide (k < 5 ∧ k ≠ 3)

/-- The command ends before the end of the words. -/
def Fits (delay : UInt32) : Prop := 1 ≤ delay.toNat ∧ delay.toNat - 1 + 5 ≤ 96

instance (delay : UInt32) : Decidable (Fits delay) := inferInstanceAs (Decidable (_ ∧ _))

/-- The words with the command `delay - 1` bits behind the calibration word, and nothing else. -/
structure Sent (delay : UInt32) (s : Fei4TriggerLoop) : Prop where
  m_trigDelay : s.m_trigDelay = delay
  cal : getElem s.m_trigWord 3 Index.fourth_of_four = CAL_CMD
  bits : ∀ n < 96, bitAt s.m_trigWord n =
    (decide (delay.toNat - 1 ≤ n) && trigBit (n - (delay.toNat - 1)))

/-- A delay that fits is sent, and another one is refused. -/
def Delayed (s : Fei4TriggerLoop) (delay : UInt32) : Prop :=
  ∃ s', s.setTrigDelay delay = some s' ∧ (Fits delay → Sent delay s') ∧
    (¬Fits delay → s'.m_trigDelay = s.m_trigDelay)

/-! ## The words -/

theorem toNat_pred {delay : UInt32} (h : 1 ≤ delay.toNat) :
    (delay - 1).toNat = delay.toNat - 1 :=
  UInt32.toNat_sub_of_le delay 1 h

theorem accepts_iff (delay : UInt32) :
    ((delay - 1) / 32 < 3 ∧ (delay - 1) % 32 ≤ 27) ∨ (delay - 1) / 32 < 2 ↔ Fits delay := by
  have hlt := delay.toNat_lt
  have hpred : (delay - 1).toNat = (2 ^ 32 - 1 + delay.toNat) % 2 ^ 32 := UInt32.toNat_sub delay 1
  have hword (k : UInt32) : (delay - 1) / 32 < k ↔ (delay - 1).toNat / 32 < k.toNat := by
    rw [UInt32.lt_iff_toNat_lt, UInt32.toNat_div]
    rfl
  have hpos : (delay - 1) % 32 ≤ 27 ↔ (delay - 1).toNat % 32 ≤ 27 := by
    rw [UInt32.le_iff_toNat_le, UInt32.toNat_mod]
    rfl
  have htwo : (2 : UInt32).toNat = 2 := rfl
  have hthree : (3 : UInt32).toNat = 3 := rfl
  rw [hword, hword, hpos, hpred, htwo, hthree]
  unfold Fits
  omega

theorem getMsbD_TRIG_CMD (k : Nat) : TRIG_CMD.toBitVec.getMsbD k = trigBit k := by
  by_cases hk : k < 32
  · have hall : ∀ k < 32, TRIG_CMD.toBitVec.getMsbD k = trigBit k := by decide
    exact hall k hk
  · have hlong : ¬(k < 5 ∧ k ≠ 3) := fun h => hk (Nat.lt_of_lt_of_le h.1 (by decide))
    rw [BitVec.getMsbD_of_ge _ _ (Nat.not_lt.mp hk), trigBit, decide_eq_false hlong]

theorem getMsbD_shiftRight {pos : UInt32} (hpos : pos.toNat < 32) {i : Nat} (hi : i < 32) :
    (TRIG_CMD >>> pos).toBitVec.getMsbD i =
      (decide (pos.toNat ≤ i) && trigBit (i - pos.toNat)) := by
  have hmod : (pos.toBitVec % 32).toNat = pos.toNat := Nat.mod_eq_of_lt hpos
  have hnot : (!decide (i < pos.toNat)) = decide (pos.toNat ≤ i) := by
    rw [← decide_not]
    exact decide_eq_decide.mpr Nat.not_lt
  rw [UInt32.toBitVec_shiftRight, BitVec.ushiftRight_eq', hmod, BitVec.getMsbD_ushiftRight,
    getMsbD_TRIG_CMD, decide_eq_true hi, Bool.true_and, hnot]

theorem getMsbD_shiftLeft {k : UInt32} (hk : k.toNat < 32) (i : Nat) :
    (TRIG_CMD <<< k).toBitVec.getMsbD i = trigBit (i + k.toNat) := by
  have hmod : (k.toBitVec % 32).toNat = k.toNat := Nat.mod_eq_of_lt hk
  rw [UInt32.toBitVec_shiftLeft, BitVec.shiftLeft_eq', hmod, BitVec.getMsbD_shiftLeft,
    getMsbD_TRIG_CMD]

/-- The words with the command from bit `pos` of word `w` on, counted from the calibration. -/
structure Placed (words : Vector UInt32 4) (w : Nat) (pos : UInt32) : Prop where
  cal : getElem words 3 Index.fourth_of_four = CAL_CMD
  first : words.getD (2 - w) 0 = TRIG_CMD >>> pos
  second : w < 2 → words.getD (2 - (w + 1)) 0 =
    if 27 < pos then TRIG_CMD <<< (5 - (32 - pos)) else 0
  other : ∀ j < 3, j ≠ w → j ≠ w + 1 → words.getD (2 - j) 0 = 0

theorem setTrigDelay_of_fits (s : Fei4TriggerLoop) {delay : UInt32} (h : Fits delay) :
    ∃ words, s.setTrigDelay delay = some ⟨delay, words, 4⟩ ∧
      Placed words ((delay - 1).toNat / 32) ((delay - 1) % 32) := by
  have hpred := toNat_pred h.1
  have hacc := (accepts_iff delay).mpr h
  have hdiv : ((delay - 1) / 32).toNat = (delay - 1).toNat / 32 := UInt32.toNat_div _ _
  have hword : (delay - 1) / 32 = 0 ∨ (delay - 1) / 32 = 1 ∨ (delay - 1) / 32 = 2 := by
    have hle := h.2
    rw [← UInt32.toNat_inj, ← UInt32.toNat_inj, ← UInt32.toNat_inj, hdiv, hpred]
    show _ = 0 ∨ _ = 1 ∨ _ = 2
    omega
  unfold setTrigDelay
  dsimp only
  rw [if_pos hacc, ← hdiv]
  generalize (delay - 1) % 32 = pos at hacc ⊢
  rcases hword with hw | hw | hw
  · rw [hw]
    refine ⟨#v[0, if 27 < pos then TRIG_CMD <<< (5 - (32 - pos)) else 0, TRIG_CMD >>> pos, CAL_CMD],
      ?_, rfl, rfl, fun _ => rfl, ?_⟩
    · by_cases hpos : 27 < pos
      · simp only [if_pos hpos]
        rfl
      · simp only [if_neg hpos]
        rfl
    · intro j hj h0 h1
      have htwo : j = 2 := by
        have h0' : j ≠ 0 := h0
        have h1' : j ≠ 1 := h1
        omega
      subst htwo
      rfl
  · rw [hw]
    refine ⟨#v[if 27 < pos then TRIG_CMD <<< (5 - (32 - pos)) else 0, TRIG_CMD >>> pos, 0, CAL_CMD],
      ?_, rfl, rfl, fun _ => rfl, ?_⟩
    · by_cases hpos : 27 < pos
      · simp only [if_pos hpos]
        rfl
      · simp only [if_neg hpos]
        rfl
    · intro j hj h1 h2
      have hzero : j = 0 := by
        have h1' : j ≠ 1 := h1
        have h2' : j ≠ 2 := h2
        omega
      subst hzero
      rfl
  · have hpos : ¬27 < pos := by
      rw [hw] at hacc
      rcases hacc with hlast | hlast
      · exact UInt32.not_lt.mpr hlast.2
      · exact absurd hlast (by decide)
    rw [hw]
    refine ⟨#v[TRIG_CMD >>> pos, 0, 0, CAL_CMD], ?_, rfl, rfl, fun h => absurd h (by decide), ?_⟩
    · simp only [if_neg hpos]
      rfl
    · intro j hj h2 h3
      have hother : j = 0 ∨ j = 1 := by
        have h2' : j ≠ 2 := h2
        omega
      rcases hother with rfl | rfl
      · rfl
      · rfl

theorem bitAt_of_inside {words : Vector UInt32 4} {w : Nat} {pos : UInt32} (h : Placed words w pos)
    (hw : w < 3) (hpos : pos.toNat ≤ 27) {n : Nat} (hn : n < 96) :
    bitAt words n =
      (decide (32 * w + pos.toNat ≤ n) && trigBit (n - (32 * w + pos.toNat))) := by
  have hshort : ¬27 < pos := UInt32.not_lt.mpr (UInt32.le_iff_toNat_le.mpr hpos)
  have hrem : n % 32 < 32 := Nat.mod_lt _ (by decide)
  have hsplit := Nat.div_add_mod n 32
  unfold bitAt
  by_cases hfirst : n / 32 = w
  · have hle : pos.toNat ≤ n % 32 ↔ 32 * w + pos.toNat ≤ n := by omega
    have hsub : n % 32 - pos.toNat = n - (32 * w + pos.toNat) := by omega
    rw [hfirst, h.first, getMsbD_shiftRight (by omega) hrem, hsub]
    exact congrArg (· && _) (decide_eq_decide.mpr hle)
  · have hzero : words.getD (2 - n / 32) 0 = 0 := by
      by_cases hsecond : n / 32 = w + 1
      · rw [hsecond, h.second (by omega), if_neg hshort]
      · exact h.other (n / 32) (by omega) hfirst hsecond
    have hno : (decide (32 * w + pos.toNat ≤ n) && trigBit (n - (32 * w + pos.toNat))) = false := by
      rw [trigBit, ← Bool.decide_and, decide_eq_false]
      omega
    rw [hzero, hno]
    exact BitVec.getMsbD_zero

/-- Over the border of two words, a bit behind it is wrong. -/
theorem exists_bitAt_ne {words : Vector UInt32 4} {w : Nat} {pos : UInt32} (h : Placed words w pos)
    (hw : w < 2) (hpos : 27 < pos.toNat) (hlt : pos.toNat < 32) :
    ∃ n < 96, bitAt words n ≠
      (decide (32 * w + pos.toNat ≤ n) && trigBit (n - (32 * w + pos.toNat))) := by
  have hlong : 27 < pos := UInt32.lt_iff_toNat_lt.mpr hpos
  have hshift : (5 - (32 - pos)).toNat = pos.toNat - 27 := by
    have hleft : (32 - pos).toNat = 32 - pos.toNat :=
      UInt32.toNat_sub_of_le 32 pos (UInt32.le_iff_toNat_le.mpr (Nat.le_of_lt hlt))
    have hle : 32 - pos ≤ 5 := by
      rw [UInt32.le_iff_toNat_le, hleft]
      show _ ≤ 5
      omega
    rw [UInt32.toNat_sub_of_le 5 _ hle, hleft]
    show 5 - (32 - pos.toNat) = _
    omega
  -- The code shifts by `pos - 27` where `32 - pos` bits are in the word before.
  have hbit (i : Nat) (hi : i < 32) :
      bitAt words (32 * (w + 1) + i) = trigBit (i + (pos.toNat - 27)) := by
    have hdiv : (32 * (w + 1) + i) / 32 = w + 1 := by omega
    have hmod : (32 * (w + 1) + i) % 32 = i := by omega
    rw [bitAt, hdiv, hmod, h.second hw, if_pos hlong,
      getMsbD_shiftLeft (by rw [hshift]; omega), hshift]
  have hwanted (i : Nat) : (decide (32 * w + pos.toNat ≤ 32 * (w + 1) + i) &&
      trigBit (32 * (w + 1) + i - (32 * w + pos.toNat))) = trigBit (i + (32 - pos.toNat)) := by
    have hle : 32 * w + pos.toNat ≤ 32 * (w + 1) + i := by omega
    rw [decide_eq_true hle, Bool.true_and]
    congr 1
    omega
  have hdiffer : ∀ p < 32, 27 < p →
      ∃ i < 2, trigBit (i + (p - 27)) ≠ trigBit (i + (32 - p)) := by decide
  obtain ⟨i, hi, hne⟩ := hdiffer pos.toNat hlt hpos
  refine ⟨32 * (w + 1) + i, by omega, ?_⟩
  rw [hbit i (by omega), hwanted i]
  exact hne

/-- A delay is handled as it should be exactly if it is refused or the command does not go over
the border of two words. -/
theorem delayed_iff (s : Fei4TriggerLoop) (delay : UInt32) :
    s.Delayed delay ↔ (Fits delay → (delay.toNat - 1) % 32 ≤ 27) := by
  by_cases hfits : Fits delay
  · obtain ⟨words, hset, hplaced⟩ := s.setTrigDelay_of_fits hfits
    have hpred := toNat_pred hfits.1
    have hpos : ((delay - 1) % 32).toNat = (delay.toNat - 1) % 32 := by
      rw [UInt32.toNat_mod, hpred]
      rfl
    have hstart : 32 * ((delay - 1).toNat / 32) + ((delay - 1) % 32).toNat = delay.toNat - 1 := by
      rw [hpos, hpred]
      exact Nat.div_add_mod _ 32
    have hrange := hfits.2
    constructor
    · rintro ⟨s', hs', hsent, -⟩ _
      rw [hset] at hs'
      cases hs'
      apply Nat.le_of_not_lt
      intro hlong
      obtain ⟨n, hn, hne⟩ := exists_bitAt_ne hplaced (by omega) (by omega)
        (by rw [hpos]; exact Nat.mod_lt _ (by decide))
      rw [hstart] at hne
      exact hne ((hsent hfits).bits n hn)
    · intro hshort
      refine ⟨_, hset, fun _ => ⟨rfl, hplaced.cal, fun n hn => ?_⟩, fun hnot => absurd hfits hnot⟩
      rw [← hstart]
      exact bitAt_of_inside hplaced (by omega) (by rw [hpos]; exact hshort hfits) hn
  · have hrefused : ¬(((delay - 1) / 32 < 3 ∧ (delay - 1) % 32 ≤ 27) ∨ (delay - 1) / 32 < 2) :=
      fun h => hfits ((accepts_iff delay).mp h)
    constructor
    · exact fun _ h => absurd h hfits
    · intro _
      exact ⟨⟨s.m_trigDelay, #v[0, 0, 0, CAL_CMD], 4⟩, if_neg hrefused,
        fun h => absurd h hfits, fun _ => rfl⟩

/-- The last bit of the command is in the next word, behind three bits of it once more. -/
theorem border_misplaced : ¬Delayed ⟨33, #v[0, 0, 0, 0], 4⟩ 29 := by
  rintro ⟨s', hs', hsent, -⟩
  have hwords : s'.m_trigWord = #v[0, 0xd0000000, 0x0000000e, CAL_CMD] := by
    cases hs'
    decide
  have hbit := (hsent (by decide)).bits 33 (by decide)
  rw [hwords] at hbit
  exact absurd hbit (by decide)

end Fei4TriggerLoop

end Yarr.Fei4
