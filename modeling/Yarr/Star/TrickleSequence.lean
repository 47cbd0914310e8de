import Yarr.Star.StarFelixTriggerLoop

/-!
# The trickle sequence

How many triggers the sequence in the memory of the firmware has, and whether it
fits: a budget of bytes and triggers for segments, bursts and the whole.
-/

namespace Yarr.Star

open LCB_FELIX

/-! ## Triggers of a sequence -/

/-- Triggers behind bytes to skip, command by command. -/
def triggerCount : Nat → List Nat → Nat
  | _, [] => 0
  | skip + 1, _ :: rest => triggerCount skip rest
  | 0, type :: rest =>
      (if type = L0A then popcount (rest.headD 0) else 0) +
        triggerCount (commandLength type - 1) rest

/-- Whole commands, with a number of triggers. -/
def Counts (bytes : List Nat) (n : Nat) : Prop :=
  ∀ rest, triggerCount 0 (bytes ++ rest) = n + triggerCount 0 rest

namespace Counts

theorem nil : Counts [] 0 := fun rest => (Nat.zero_add (triggerCount 0 rest)).symm

theorem append {xs ys : List Nat} {m n : Nat} (hx : Counts xs m) (hy : Counts ys n) :
    Counts (xs ++ ys) (m + n) := by
  intro rest
  rw [List.append_assoc, hx, hy, Nat.add_assoc]

theorem flatten_replicate {xs : List Nat} {m : Nat} (hx : Counts xs m) (k : Nat) :
    Counts (List.replicate k xs).flatten (m * k) := by
  induction k with
  | zero => exact nil
  | succ k ih =>
      rw [List.replicate_succ, List.flatten_cons, Nat.mul_succ, Nat.add_comm]
      exact hx.append ih

theorem flatMap_zero {α : Type} {f : α → List Nat} (h : ∀ x, Counts (f x) 0) (xs : List α) :
    Counts (xs.flatMap f) 0 := by
  induction xs with
  | nil => exact nil
  | cons x xs ih => exact (h x).append ih

theorem idle (n : Nat) : Counts (List.replicate n IDLE) 0 := by
  induction n with
  | zero => exact nil
  | succ n ih =>
      have hidle : Counts [IDLE] 0 := fun _ => rfl
      exact hidle.append ih

theorem fast_command (cmdID delay : Nat) : Counts (LCB_FELIX.fast_command cmdID delay) 0 :=
  fun _ => rfl

theorem read_abc_register (address hccID abcID : Nat) :
    Counts (LCB_FELIX.read_abc_register address hccID abcID) 0 :=
  fun _ => rfl

theorem read_hcc_register (address hccID : Nat) :
    Counts (LCB_FELIX.read_hcc_register address hccID) 0 :=
  fun _ => rfl

theorem l0a_mask (mask : Nat) (hmask : mask < 16) :
    Counts (LCB_FELIX.l0a_mask mask 0 false) (popcount mask) := by
  intro rest
  have hbyte : (false.toNat <<< 4) + (mask &&& 0xf) = mask := by
    rw [Bits.and_mask 0xf 4 rfl]
    simp only [Bool.toNat_false, Nat.zero_shiftLeft, Nat.zero_add, Nat.reducePow]
    omega
  unfold LCB_FELIX.l0a_mask
  rw [hbyte]
  rfl

theorem lowSegment (n : Nat) : Counts (StarFelixTriggerLoop.lowSegment n) 1 :=
  (idle n).append (l0a_mask 1 (by decide))

end Counts

/-- Frequencies that the loop sets itself are in the range they were set for. -/
class LawfulFrequency (D : Type) [Frequency D] : Prop where
  set13MHz : ¬((1000000000 : Int) : D) / ((75 : Int) : D) ≤ ((10000000 : Int) : D) ∧
    ((1000000000 : Int) : D) / ((75 : Int) : D) < ((15000000 : Int) : D) ∧
    ((5000000 : Int) : D) < ((1000000000 : Int) : D) / ((75 : Int) : D)
  set20MHz : ¬((1000000000 : Int) : D) / ((50 : Int) : D) ≤ ((10000000 : Int) : D) ∧
    ¬((1000000000 : Int) : D) / ((50 : Int) : D) < ((15000000 : Int) : D) ∧
    ((1000000000 : Int) : D) / ((50 : Int) : D) < ((30000000 : Int) : D) ∧
    ((5000000 : Int) : D) < ((1000000000 : Int) : D) / ((50 : Int) : D)
  set40MHz : ¬((1000000000 : Int) : D) / ((25 : Int) : D) ≤ ((10000000 : Int) : D) ∧
    ¬((1000000000 : Int) : D) / ((25 : Int) : D) < ((15000000 : Int) : D) ∧
    ¬((1000000000 : Int) : D) / ((25 : Int) : D) < ((30000000 : Int) : D) ∧
    ((5000000 : Int) : D) < ((1000000000 : Int) : D) / ((25 : Int) : D)
  invalid : ((-1 : Int) : D) ≤ ((10000000 : Int) : D) ∧
    Frequency.toInt (((1000000000 : Int) : D) / ((-1 : Int) : D) / ((100 : Int) : D)) =
      some (-10000000)

instance : LawfulFrequency ℚ where
  set13MHz := by norm_num
  set20MHz := by norm_num
  set40MHz := by norm_num
  invalid := by
    have hquotient : ((1000000000 : Int) : ℚ) / ((-1 : Int) : ℚ) / ((100 : Int) : ℚ) =
        ((-10000000 : Int) : ℚ) := by
      norm_num
    rw [hquotient]
    exact ⟨by norm_num, rfl⟩

namespace StarFelixTriggerLoop

section Parts

variable {D : Type} (l : StarFelixTriggerLoop D)

/-! ## Parts of fixed size -/

theorem counts_hitcount_seg : Counts l.hitcount_seg 0 := by
  unfold hitcount_seg
  split
  · have hread : ∀ i, Counts (read_abc_register (HitCountREG0 + i) 0xf 0xf ++
        List.replicate 10 IDLE) 0 := fun i =>
      (Counts.read_abc_register _ _ _).append (Counts.idle 10)
    exact ((((Counts.idle 10).append (Counts.flatMap_zero hread _)).append
      (Counts.fast_command _ _)).append (Counts.fast_command _ _)).append (Counts.idle 10)
  · exact Counts.nil

theorem counts_trickleSeq_pre : Counts l.trickleSeq_pre 0 := by
  have hcounters : Counts (if l.m_useHitCount then
      fast_command ABC_HIT_COUNT_RESET 0 ++ fast_command ABC_HIT_COUNT_START 0 else []) 0 := by
    split
    · exact (Counts.fast_command _ _).append (Counts.fast_command _ _)
    · exact Counts.nil
  exact (((Counts.read_hcc_register _ _).append (Counts.fast_command _ _)).append hcounters).append
    (Counts.idle 10)

end Parts

/-! ## Bands of frequencies -/

inductive Band where
  | low
  | mhz13
  | mhz20
  | mhz40
  deriving DecidableEq, Repr

namespace Band

/-- The triggers of a whole segment. -/
def triggers : Band → Nat
  | low => 1
  | mhz13 => 4
  | mhz20 => 2
  | mhz40 => 4

/-- The bytes of a segment for the triggers that are left over. -/
def lastBytes : Band → Nat → Nat
  | mhz13, r => 3 * r
  | _, r => if r = 0 then 0 else 3

def segment : Band → Nat → List Nat × Nat
  | low, _ => ([], 0)
  | mhz13, max_trigs => segment13MHz max_trigs
  | mhz20, max_trigs => segment20MHz max_trigs
  | mhz40, max_trigs => segment40MHz max_trigs

def period : Band → Int
  | low => 100
  | mhz13 => 3 * 25
  | mhz20 => 2 * 25
  | mhz40 => 25

theorem triggers_pos (b : Band) : 0 < b.triggers := by
  cases b <;> decide

theorem counts_segment (b : Band) (hlow : b ≠ .low) :
    Counts (b.segment minusOne).1 b.triggers ∧ (b.segment minusOne).2 = b.triggers ∧
      (b.segment minusOne).1.length = if b = .mhz13 then 9 else 3 := by
  have hone : ∀ mask, mask < 16 → Counts (l0a_mask mask 0 false) (popcount mask) :=
    Counts.l0a_mask
  cases b with
  | low => exact absurd rfl hlow
  | mhz13 =>
      exact ⟨((hone 2 (by decide)).append (hone 4 (by decide))).append (hone 9 (by decide)),
        rfl, rfl⟩
  | mhz20 => exact ⟨hone 5 (by decide), rfl, rfl⟩
  | mhz40 => exact ⟨hone 15 (by decide), rfl, rfl⟩

theorem counts_last (b : Band) (hlow : b ≠ .low) {r : Nat} (hpos : 0 < r) (hr : r < b.triggers) :
    Counts (b.segment r).1 r ∧ (b.segment r).1.length = b.lastBytes r := by
  have hone : ∀ mask, mask < 16 → Counts (l0a_mask mask 0 false) (popcount mask) :=
    Counts.l0a_mask
  have hsmall : r = 1 ∨ r = 2 ∨ r = 3 := by
    have hfour : b.triggers ≤ 4 := by cases b <;> decide
    omega
  cases b with
  | low => exact absurd rfl hlow
  | mhz13 =>
      rcases hsmall with rfl | rfl | rfl
      · exact ⟨hone 2 (by decide), rfl⟩
      · exact ⟨(hone 2 (by decide)).append (hone 4 (by decide)), rfl⟩
      · exact ⟨((hone 2 (by decide)).append (hone 4 (by decide))).append (hone 8 (by decide)), rfl⟩
  | mhz20 =>
      have heq : r = 1 := by
        change r < 2 at hr
        omega
      subst heq
      exact ⟨hone 4 (by decide), rfl⟩
  | mhz40 =>
      rcases hsmall with rfl | rfl | rfl
      · exact ⟨hone 8 (by decide), rfl⟩
      · exact ⟨hone 12 (by decide), rfl⟩
      · exact ⟨hone 14 (by decide), rfl⟩

end Band

section Bands

variable {D : Type} [Frequency D] (l : StarFelixTriggerLoop D)

def band : Band :=
  if l.m_trigFreq ≤ freq 10000000 then .low
  else if l.m_trigFreq < freq 15000000 then .mhz13
  else if l.m_trigFreq < freq 30000000 then .mhz20
  else .mhz40

/-- The loop behind a segment of a band. -/
def afterBand (b : Band) : StarFelixTriggerLoop D :=
  { l with m_trigFreq := freq 1000000000 / freq b.period }

/-- The loop behind a segment with a number of frames. -/
def afterFrames (n : Int) : StarFelixTriggerLoop D :=
  { l with m_trigFreq := freq 1000000000 / freq (n * 100) }

theorem getTriggerSegment_zero : l.getTriggerSegment 0 = .ok ([], 0, l) := rfl

theorem getTriggerSegment_band {b : Band} (hband : l.band = b) (hlow : b ≠ .low) {k : Nat}
    (hk : k ≠ 0) :
    l.getTriggerSegment k = .ok ((b.segment k).1, (b.segment k).2, l.afterBand b) := by
  unfold getTriggerSegment
  unfold band at hband
  rw [if_neg hk]
  by_cases h10 : l.m_trigFreq ≤ freq 10000000
  · rw [if_pos h10] at hband
    exact absurd hband.symm hlow
  · rw [if_neg h10] at hband ⊢
    by_cases h15 : l.m_trigFreq < freq 15000000
    · rw [if_pos h15] at hband ⊢
      subst hband
      rfl
    · rw [if_neg h15] at hband ⊢
      by_cases h30 : l.m_trigFreq < freq 30000000
      · rw [if_pos h30] at hband ⊢
        subst hband
        rfl
      · rw [if_neg h30] at hband ⊢
        subst hband
        rfl

theorem getTriggerSegment_low (hband : l.band = .low) {k : Nat} (hk : k ≠ 0) {n : Int}
    (hn : l.nFrames = some n) (hpos : 1 ≤ n) (hsmall : n * 100 < 2147483648) :
    l.getTriggerSegment k = .ok (lowSegment (n - 1).toNat, 1, l.afterFrames n) := by
  have h10 : l.m_trigFreq ≤ freq 10000000 := by
    by_contra hnot
    unfold band at hband
    rw [if_neg hnot] at hband
    split at hband <;> first | cases hband | (split at hband <;> cases hband)
  unfold getTriggerSegment
  rw [if_neg hk, if_pos h10, hn]
  show (if n - 1 < 0 then _ else _) = _
  rw [if_neg (by omega), if_neg (by omega)]
  rfl

theorem getTriggerSegment_low_fails (hband : l.band = .low) {k : Nat} (hk : k ≠ 0)
    (hbad : ∀ n, l.nFrames = some n → ¬(1 ≤ n ∧ n * 100 < 2147483648)) :
    ∃ fault, l.getTriggerSegment k = .error fault := by
  have h10 : l.m_trigFreq ≤ freq 10000000 := by
    by_contra hnot
    unfold band at hband
    rw [if_neg hnot] at hband
    split at hband <;> first | cases hband | (split at hband <;> cases hband)
  unfold getTriggerSegment
  rw [if_neg hk, if_pos h10]
  cases hn : l.nFrames with
  | none => exact ⟨_, rfl⟩
  | some n =>
      show ∃ fault, (if n - 1 < 0 then _ else _) = _
      by_cases hneg : n - 1 < 0
      · exact ⟨_, if_pos hneg⟩
      · have hbig : 2147483648 ≤ n * 100 := by
          have hboth := hbad n hn
          omega
        rw [if_neg hneg, if_pos hbig]
        exact ⟨_, rfl⟩

variable [LawfulFrequency D]

theorem band_afterBand {b : Band} (hlow : b ≠ .low) : (l.afterBand b).band = b := by
  unfold band afterBand freq
  cases b with
  | low => exact absurd rfl hlow
  | mhz13 =>
      rcases LawfulFrequency.set13MHz (D := D) with ⟨h10, h15, _⟩
      exact (if_neg h10).trans (if_pos h15)
  | mhz20 =>
      rcases LawfulFrequency.set20MHz (D := D) with ⟨h10, h15, h30, _⟩
      exact (if_neg h10).trans ((if_neg h15).trans (if_pos h30))
  | mhz40 =>
      rcases LawfulFrequency.set40MHz (D := D) with ⟨h10, h15, h30, _⟩
      exact (if_neg h10).trans ((if_neg h15).trans (if_neg h30))

theorem tooFast_afterBand {b : Band} (hlow : b ≠ .low) : (l.afterBand b).tooFast := by
  cases b with
  | low => exact absurd rfl hlow
  | mhz13 => exact (LawfulFrequency.set13MHz (D := D)).2.2
  | mhz20 => exact (LawfulFrequency.set20MHz (D := D)).2.2.2
  | mhz40 => exact (LawfulFrequency.set40MHz (D := D)).2.2.2

theorem getTriggerSegment_invalid {k : Nat} (hk : k ≠ 0) :
    ({ l with m_trigFreq := freq (-1) } : StarFelixTriggerLoop D).getTriggerSegment k =
      .error .badSize := by
  rcases LawfulFrequency.invalid (D := D) with ⟨h10, hframes⟩
  have hn : ({ l with m_trigFreq := freq (-1) } : StarFelixTriggerLoop D).nFrames =
      some (-10000000) := hframes
  unfold getTriggerSegment
  rw [if_neg hk, if_pos (by exact h10), hn]
  rfl

end Bands

end StarFelixTriggerLoop

end Yarr.Star
