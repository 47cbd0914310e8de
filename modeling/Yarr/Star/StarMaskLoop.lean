import Mathlib.Logic.Function.Iterate
import Yarr.Core.Searches
import Yarr.Star.LCB
import Yarr.Star.StarCfg

/-!
# `StarMaskLoop`

A loop over patterns of strips. Each stage writes the mask registers of all
ABCs and, unless only masks are asked for, their calibration registers.
-/

namespace Yarr.Star

/-- `write_abc_register`, to all chips unless told otherwise. -/
def StarCmd.write_abc_register (address : Nat) (value : UInt32) (hccID abcID : Nat) :
    List LCB.Frame :=
  command_sequence hccID abcID address false value false

/-- Eight words. -/
abbrev MaskType := Nat → UInt32

/-- `masks[word] |= bit << place`. -/
def MaskType.orBit (masks : MaskType) (word : Nat) (bit : Bool) (place : Nat) : MaskType :=
  Function.update masks word (masks word ||| bit.toUInt32 <<< UInt32.ofNat place)

/-! ## The ring -/

/-- A pattern of 256 channels, in the order of hit data. -/
structure ChannelRing where
  pos : Nat
  bits : Nat → Bool

namespace ChannelRing

def reset : ChannelRing := ⟨0, fun _ => false⟩

variable (r : ChannelRing)

def full : Bool := 256 ≤ r.pos

def fill (newBit : Bool) : ChannelRing :=
  if r.full then r else { pos := r.pos + 1, bits := Function.update r.bits r.pos newBit }

/-- `for (i < n) fill(newBit)`. -/
def fillMany (n : Nat) (newBit : Bool) : ChannelRing := (fun r => r.fill newBit)^[n] r

/-- The positions of the blocks of four bits. -/
def blocks : List Nat := (List.range 64).map fun i => 4 * i

def maskBlock (offset : Nat) (masks : MaskType) (curpos : Nat) : MaskType :=
  let posBlock := curpos % 32
  let masks := masks.orBit (curpos / 32) (r.bits ((offset + curpos / 2) % 256)) posBlock
  let masks := masks.orBit (curpos / 32) (r.bits ((offset + curpos / 2 + 128) % 256)) (posBlock + 1)
  let masks := masks.orBit (curpos / 32) (r.bits ((offset + curpos / 2 + 1) % 256)) (posBlock + 2)
  masks.orBit (curpos / 32) (r.bits ((offset + curpos / 2 + 128 + 1) % 256)) (posBlock + 3)

/-- A bit of the register is set where the channel is masked. -/
def readMask (offset : Nat) : MaskType := fun m_i =>
  ~~~(blocks.foldl (r.maskBlock offset) fun _ => 0) m_i

def calBlock (offset : Nat) (masks : MaskType) (curpos : Nat) : MaskType :=
  let posBlock := curpos % 32
  let masks := masks.orBit (curpos / 32) (r.bits ((offset + curpos / 2) % 256)) posBlock
  let masks := masks.orBit (curpos / 32) (r.bits ((offset + curpos / 2 + 1) % 256)) (posBlock + 1)
  let masks := masks.orBit (curpos / 32) (r.bits ((offset + curpos / 2 + 128) % 256)) (posBlock + 2)
  masks.orBit (curpos / 32) (r.bits ((offset + curpos / 2 + 128 + 1) % 256)) (posBlock + 3)

def readCalEnable (offset : Nat) : MaskType := blocks.foldl (r.calBlock offset) fun _ => 0

/-- `while (!full())`: `n` channels, and the others of a group, for at most `fuel` groups. -/
def fillGroups (max n : Nat) : Nat → ChannelRing → ChannelRing
  | 0, r => r
  | fuel + 1, r =>
      if r.full then r
      else
        let r := r.fillMany n true
        let r := if r.full then r
          else r.fillMany ((18446744073709551616 + max - n) % 18446744073709551616) false
        fillGroups max n fuel r

end ChannelRing

/-! ## Configuration -/

/-- What the file says. -/
structure MaskLoopJson where
  min : Nat
  max : Nat
  step : Nat
  nMaskedStripsPerGroup : Nat
  nEnabledStripsPerGroup : Nat
  EnabledMaskedShift : Nat
  maskOnly : Bool
  doNmask : Bool
  deriving DecidableEq, Repr

/-- Without enabled strips in a group, there are no masked ones either. -/
structure MaskLoopConfig where
  min : Nat
  max : Nat
  step : Nat
  m_nMaskedStripsPerGroup : Nat
  m_nEnabledStripsPerGroup : Nat
  m_EnabledMaskedShift : Nat
  m_onlyMask : Bool
  m_doNmask : Bool
  unset : m_nEnabledStripsPerGroup = 0 → m_nMaskedStripsPerGroup = 0

/-- The loop before its configuration is loaded. -/
def MaskLoopConfig.initial : MaskLoopConfig where
  min := 0
  max := 16
  step := 1
  m_nMaskedStripsPerGroup := 0
  m_nEnabledStripsPerGroup := 0
  m_EnabledMaskedShift := 0
  m_onlyMask := false
  m_doNmask := false
  unset := fun _ => rfl

/-- With no enabled strips in the file, there is one in each group. -/
def MaskLoopConfig.loadConfig (config : MaskLoopJson) : MaskLoopConfig :=
  if h : config.nEnabledStripsPerGroup = 0 then
    { min := config.min
      max := config.max
      step := config.step
      m_nMaskedStripsPerGroup := 1
      m_nEnabledStripsPerGroup := 1
      m_EnabledMaskedShift := 0
      m_onlyMask := config.maskOnly
      m_doNmask := config.doNmask
      unset := fun hzero => (nomatch hzero) }
  else
    { min := config.min
      max := config.max
      step := config.step
      m_nMaskedStripsPerGroup := config.nMaskedStripsPerGroup
      m_nEnabledStripsPerGroup := config.nEnabledStripsPerGroup
      m_EnabledMaskedShift := config.EnabledMaskedShift
      m_onlyMask := config.maskOnly
      m_doNmask := config.doNmask
      unset := fun hzero => absurd hzero h }

/-! ## The loop -/

structure StarMaskLoop extends MaskLoopConfig where
  m_cur : Nat
  m_done : Bool
  m_maskedChannelsRing : ChannelRing
  m_enabledChannelsRing : ChannelRing

namespace StarMaskLoop

variable (l : StarMaskLoop)

/-- The loop at its start, with rings that nothing has been filled into. -/
def ofConfig (config : MaskLoopConfig) : StarMaskLoop :=
  { toMaskLoopConfig := config
    m_cur := 0
    m_done := false
    m_maskedChannelsRing := ChannelRing.reset
    m_enabledChannelsRing := ChannelRing.reset }

/-- A ring of 256 channels is full behind as many groups, none of which is empty. -/
def initMasks : StarMaskLoop :=
  { l with
    m_maskedChannelsRing :=
      ChannelRing.reset.fillGroups l.max l.m_nMaskedStripsPerGroup 256
    m_enabledChannelsRing :=
      (ChannelRing.reset.fillMany l.m_EnabledMaskedShift false).fillGroups l.max
        l.m_nEnabledStripsPerGroup 256 }

def setupNmask (count : Nat) : StarMaskLoop :=
  { l with
    m_maskedChannelsRing := (ChannelRing.reset.fillMany count true).fillMany (256 - count) false
    m_enabledChannelsRing := (ChannelRing.reset.fillMany count true).fillMany (256 - count) false }

def init : StarMaskLoop :=
  let l := { l with m_done := false, m_cur := l.min }
  if l.m_doNmask then l
  else if l.m_nEnabledStripsPerGroup ≠ 0 then l.initMasks
  else l

/-- The writes go to all ABCs of all HCCs. -/
def applyMask (masks enables : MaskType) : List (List LCB.Frame) :=
  (List.range 8).map (fun index =>
    StarCmd.write_abc_register (ABCStarRegister.MaskInput0 + index) (masks index) 0xf 0xf) ++
  if l.m_onlyMask then []
  else (List.range 8).map fun index =>
    StarCmd.write_abc_register (ABCStarRegister.CalREG0 + index) (enables index) 0xf 0xf

/-- The rings and the offset of a stage. -/
def prepare : StarMaskLoop × Nat :=
  if l.m_doNmask then (l.setupNmask l.m_cur, 0)
  else (l, (4294967296 + 256 - l.m_cur) % 4294967296 % 256)

/-- The writes are made once for each front end that is active. -/
def execPart1 (nActive : Nat) : StarMaskLoop × List (List LCB.Frame) :=
  let (l, offset) := l.prepare
  let masks := l.m_maskedChannelsRing.readMask offset
  let enables := l.m_enabledChannelsRing.readCalEnable offset
  (l, (List.replicate nActive (l.applyMask masks enables)).flatten)

def execPart2 : StarMaskLoop :=
  let m_cur := l.m_cur + l.step
  { l with m_cur := m_cur, m_done := if ¬m_cur < l.max then true else l.m_done }

/-- `while (!done()) execStep()` for at most `fuel` steps: the commands of each stage. -/
def run (nActive : Nat) : Nat → StarMaskLoop → List (List (List LCB.Frame))
  | 0, _ => []
  | fuel + 1, l =>
      if l.m_done then []
      else
        let (l, commands) := l.execPart1 nActive
        commands :: run nActive fuel l.execPart2

end StarMaskLoop

end Yarr.Star

/-!
## Mask registers

Which channel of the ring each bit of the registers is for.
-/

namespace Yarr.Star

theorem testBit_or (x y : UInt32) (b : Nat) :
    (x ||| y).toNat.testBit b = (x.toNat.testBit b || y.toNat.testBit b) := by
  rw [UInt32.toNat_or, Nat.testBit_or]

theorem testBit_not (x : UInt32) {b : Nat} (hb : b < 32) :
    (~~~x).toNat.testBit b = !x.toNat.testBit b := by
  have hlt : x.toNat < 2 ^ 32 := x.toNat_lt
  have hvalue : (~~~x).toNat = 2 ^ 32 - (x.toNat + 1) := by
    have hsize : UInt32.size = 2 ^ 32 := rfl
    rw [UInt32.toNat_not, hsize]
    omega
  rw [hvalue, Nat.testBit_two_pow_sub_succ hlt, decide_eq_true hb, Bool.true_and]

theorem testBit_place (bit : Bool) {place b : Nat} (hplace : place < 32) :
    (bit.toUInt32 <<< UInt32.ofNat place).toNat.testBit b = (place == b && bit) := by
  have hvalue : (bit.toUInt32 <<< UInt32.ofNat place).toNat = bit.toNat * 2 ^ place := by
    have hone : (UInt32.ofNat place).toNat = place := UInt32.toNat_ofNat_of_lt' (by
      show place < 2 ^ 32
      omega)
    have hlt : bit.toNat * 2 ^ place < 2 ^ 32 := by
      have hle := Nat.mul_le_mul (Bool.toNat_le bit) (Nat.pow_le_pow_right (by decide : 0 < 2)
        (by omega : place ≤ 31))
      omega
    rw [UInt32.toNat_shiftLeft, hone, Nat.mod_eq_of_lt hplace, Nat.shiftLeft_eq]
    have hbit : bit.toUInt32.toNat = bit.toNat := by cases bit <;> rfl
    rw [hbit, Nat.mod_eq_of_lt hlt]
  rw [hvalue]
  cases bit with
  | false => simp
  | true =>
      rw [Bool.toNat_true, Nat.one_mul, Nat.testBit_two_pow, Bool.and_true]
      exact (beq_eq_decide place b).symm

namespace MaskType

def bit (masks : MaskType) (word b : Nat) : Bool := (masks word).toNat.testBit b

theorem bit_orBit (masks : MaskType) (at' : Nat) (newBit : Bool) {place : Nat} (hplace : place < 32)
    (word b : Nat) : (masks.orBit at' newBit place).bit word b =
      (masks.bit word b || (at' == word && (place == b && newBit))) := by
  unfold bit orBit
  by_cases hword : word = at'
  · subst hword
    rw [Function.update_self, testBit_or, testBit_place newBit hplace, beq_self_eq_true,
      Bool.true_and]
  · have hne : (at' == word) = false := beq_eq_false_iff_ne.mpr fun h => hword h.symm
    rw [Function.update_of_ne hword, hne, Bool.false_and, Bool.or_false]

end MaskType

namespace ChannelRing

variable (r : ChannelRing)

theorem any_blocks (x : Nat → Nat → Bool) {word b : Nat} (hword : word < 8) (hb : b < 32) :
    (blocks.any fun curpos => (List.range 4).any fun t =>
      curpos / 32 == word && (curpos % 32 + t == b && x curpos t)) =
      x (32 * word + 4 * (b / 4)) (b % 4) := by
  rw [Bool.eq_iff_iff, List.any_eq_true]
  constructor
  · rintro ⟨curpos, hcurpos, hany⟩
    rcases List.mem_map.mp hcurpos with ⟨i, hi, rfl⟩
    rcases List.any_eq_true.mp hany with ⟨t, ht, hbit⟩
    rw [Bool.and_eq_true, Bool.and_eq_true, beq_iff_eq, beq_iff_eq] at hbit
    rcases hbit with ⟨hhere, hplace, hx⟩
    have ht4 := List.mem_range.mp ht
    have hblock : 4 * i = 32 * word + 4 * (b / 4) := by omega
    have hrest : t = b % 4 := by omega
    rwa [hblock, hrest] at hx
  · intro hx
    have hmem : 32 * word + 4 * (b / 4) ∈ blocks :=
      List.mem_map.mpr ⟨8 * word + b / 4, List.mem_range.mpr (by omega), by omega⟩
    have hbit : ((32 * word + 4 * (b / 4)) / 32 == word &&
        ((32 * word + 4 * (b / 4)) % 32 + b % 4 == b &&
          x (32 * word + 4 * (b / 4)) (b % 4))) = true := by
      rw [Bool.and_eq_true, Bool.and_eq_true, beq_iff_eq, beq_iff_eq]
      exact ⟨by omega, by omega, hx⟩
    exact ⟨_, hmem, List.any_eq_true.mpr ⟨b % 4, List.mem_range.mpr (by omega), hbit⟩⟩

theorem blocks_lt {curpos : Nat} (h : curpos ∈ blocks) : curpos % 32 + 3 < 32 := by
  rcases List.mem_map.mp h with ⟨i, _, rfl⟩
  omega

/-- The channel that a bit of a mask register is for. -/
def maskChannel (word b : Nat) : Nat := 16 * word + b / 2 + 128 * (b % 2)

/-- The channel that a bit of a calibration register is for. -/
def calChannel (word b : Nat) : Nat := 16 * word + 2 * (b / 4) + b % 2 + 128 * (b % 4 / 2)

theorem bit_maskBlock (offset : Nat) (masks : MaskType) {curpos : Nat} (h : curpos ∈ blocks)
    (word b : Nat) : (r.maskBlock offset masks curpos).bit word b =
      (masks.bit word b || (List.range 4).any fun t => curpos / 32 == word &&
        (curpos % 32 + t == b &&
          r.bits ((offset + curpos / 2 + 128 * (t % 2) + t / 2) % 256))) := by
  have hlt := blocks_lt h
  unfold maskBlock
  dsimp only
  rw [MaskType.bit_orBit _ _ _ (by omega), MaskType.bit_orBit _ _ _ (by omega),
    MaskType.bit_orBit _ _ _ (by omega), MaskType.bit_orBit _ _ _ (by omega)]
  simp [List.range_succ, Bool.or_assoc]

theorem bit_calBlock (offset : Nat) (masks : MaskType) {curpos : Nat} (h : curpos ∈ blocks)
    (word b : Nat) : (r.calBlock offset masks curpos).bit word b =
      (masks.bit word b || (List.range 4).any fun t => curpos / 32 == word &&
        (curpos % 32 + t == b &&
          r.bits ((offset + curpos / 2 + 128 * (t / 2) + t % 2) % 256))) := by
  have hlt := blocks_lt h
  unfold calBlock
  dsimp only
  rw [MaskType.bit_orBit _ _ _ (by omega), MaskType.bit_orBit _ _ _ (by omega),
    MaskType.bit_orBit _ _ _ (by omega), MaskType.bit_orBit _ _ _ (by omega)]
  simp [List.range_succ, Bool.or_assoc]

theorem readCalEnable_bit (offset : Nat) {word b : Nat} (hword : word < 8) (hb : b < 32) :
    (r.readCalEnable offset).bit word b = r.bits ((offset + calChannel word b) % 256) := by
  have hfold := Patterns.foldl_or (f := fun masks : MaskType => masks.bit word b) blocks
    (fun masks curpos h => r.bit_calBlock offset masks h word b) (fun _ => 0)
  have hchannel : offset + (32 * word + 4 * (b / 4)) / 2 + 128 * (b % 4 / 2) + b % 4 % 2 =
      offset + calChannel word b := by
    unfold calChannel
    omega
  have hzero : MaskType.bit (fun _ => 0) word b = false := Nat.zero_testBit b
  have hany := any_blocks (fun curpos t =>
    r.bits ((offset + curpos / 2 + 128 * (t / 2) + t % 2) % 256)) hword hb
  rw [hany, hchannel, hzero, Bool.false_or] at hfold
  exact hfold

theorem readMask_bit (offset : Nat) {word b : Nat} (hword : word < 8) (hb : b < 32) :
    (r.readMask offset).bit word b = !r.bits ((offset + maskChannel word b) % 256) := by
  have hfold := Patterns.foldl_or (f := fun masks : MaskType => masks.bit word b) blocks
    (fun masks curpos h => r.bit_maskBlock offset masks h word b) (fun _ => 0)
  have hchannel : offset + (32 * word + 4 * (b / 4)) / 2 + 128 * (b % 4 % 2) + b % 4 / 2 =
      offset + maskChannel word b := by
    unfold maskChannel
    omega
  have hzero : MaskType.bit (fun _ => 0) word b = false := Nat.zero_testBit b
  have hany := any_blocks (fun curpos t =>
    r.bits ((offset + curpos / 2 + 128 * (t % 2) + t / 2) % 256)) hword hb
  rw [hany, hchannel, hzero, Bool.false_or] at hfold
  rw [← hfold]
  exact testBit_not _ hb

end ChannelRing

end Yarr.Star

/-!
## Mask patterns

What is in the rings, and how often a channel comes by as the rings turn.
-/

namespace Yarr.Star

namespace ChannelRing

/-! ## Filling -/

/-- What has been filled in is as a predicate says. -/
structure Follows (p : Nat → Prop) [DecidablePred p] (r : ChannelRing) : Prop where
  le : r.pos ≤ 256
  bits : ∀ i, r.bits i = decide (i < r.pos ∧ p i)

variable {p : Nat → Prop} [DecidablePred p] {r : ChannelRing}

theorem full_iff : r.full = true ↔ 256 ≤ r.pos := decide_eq_true_iff

theorem follows_reset : reset.Follows p :=
  ⟨by decide, fun i => (decide_eq_false fun h => Nat.not_lt_zero i h.1).symm⟩

theorem Follows.fill (h : r.Follows p) (newBit : Bool)
    (hbit : r.pos < 256 → decide (p r.pos) = newBit) :
    (r.fill newBit).Follows p ∧ (r.fill newBit).pos = min 256 (r.pos + 1) := by
  have hle := h.le
  unfold ChannelRing.fill
  by_cases hfull : r.full = true
  · have hpos := full_iff.mp hfull
    rw [if_pos hfull]
    exact ⟨h, by omega⟩
  · have hpos : r.pos < 256 := not_le.mp (mt full_iff.mpr hfull)
    have hbits : ∀ i, Function.update r.bits r.pos newBit i = decide (i < r.pos + 1 ∧ p i) := by
      intro i
      by_cases hi : i = r.pos
      · subst hi
        rw [Function.update_self, ← hbit hpos]
        exact decide_eq_decide.mpr ⟨fun hp => ⟨Nat.lt_succ_self _, hp⟩, fun hp => hp.2⟩
      · rw [Function.update_of_ne hi, h.bits]
        exact decide_eq_decide.mpr (and_congr_left fun _ => by omega)
    rw [if_neg hfull]
    exact ⟨⟨hpos, hbits⟩, by show r.pos + 1 = _; omega⟩

theorem Follows.fillMany (h : r.Follows p) (n : Nat) (newBit : Bool)
    (hbit : ∀ i, r.pos ≤ i → i < r.pos + n → decide (p i) = newBit) :
    (r.fillMany n newBit).Follows p ∧ (r.fillMany n newBit).pos = min 256 (r.pos + n) := by
  have hle := h.le
  induction n with
  | zero => exact ⟨h, by show r.pos = _; omega⟩
  | succ n ih =>
      rcases ih fun i hlow hhigh => hbit i hlow (by omega) with ⟨hmany, hpos⟩
      have hnext := hmany.fill newBit fun hlt => hbit _ (by omega) (by omega)
      have hsucc : r.fillMany (n + 1) newBit = (r.fillMany n newBit).fill newBit :=
        Function.iterate_succ_apply' _ n r
      rw [hsucc]
      exact ⟨hnext.1, by omega⟩

/-- Groups of `max` channels, the first `n` of each set. -/
theorem Follows.fillGroups {max n start : Nat} (hn : n ≤ max) (hmax : max ≤ 256)
    (hp : ∀ i, start ≤ i → (p i ↔ (i - start) % max < n)) (fuel k : Nat) (h : r.Follows p)
    (hpos : r.pos = min 256 (start + k * max)) :
    (r.fillGroups max n fuel).Follows p ∧
      (r.fillGroups max n fuel).pos = min 256 (start + (k + fuel) * max) := by
  induction fuel generalizing r k with
  | zero => exact ⟨h, hpos⟩
  | succ fuel ih =>
      unfold ChannelRing.fillGroups
      have hmul : (k + (fuel + 1)) * max = k * max + (fuel + 1) * max := Nat.add_mul _ _ _
      by_cases hfull : r.full = true
      · have h256 := full_iff.mp hfull
        rw [if_pos hfull]
        exact ⟨h, by omega⟩
      · have hlt : r.pos < 256 := not_le.mp (mt full_iff.mpr hfull)
        have hstart : r.pos = start + k * max := by omega
        have hmod : ∀ i, r.pos ≤ i → i < r.pos + max → (i - start) % max = i - r.pos := by
          intro i hlow hhigh
          have hsplit : i - start = k * max + (i - r.pos) := by omega
          rw [hsplit, Nat.mul_add_mod_self_right, Nat.mod_eq_of_lt (by omega)]
        have hset : ∀ i, r.pos ≤ i → i < r.pos + n → decide (p i) = true := by
          intro i hlow hhigh
          rw [decide_eq_true_eq, hp i (by omega), hmod i hlow (by omega)]
          omega
        have hclear : ∀ i, r.pos + n ≤ i → i < r.pos + max → decide (p i) = false := by
          intro i hlow hhigh
          rw [decide_eq_false_iff_not, hp i (by omega), hmod i (by omega) hhigh]
          omega
        rcases h.fillMany n true hset with ⟨hmany, hmanypos⟩
        have hwidth : (18446744073709551616 + max - n) % 18446744073709551616 = max - n := by
          omega
        have hgroup : ∀ r' : ChannelRing, r' = (if (r.fillMany n true).full then r.fillMany n true
            else (r.fillMany n true).fillMany (max - n) false) →
            r'.Follows p ∧ r'.pos = min 256 (start + (k + 1) * max) := by
          intro r' hr'
          have hnext : (k + 1) * max = k * max + max := Nat.succ_mul k max
          by_cases hfull' : (r.fillMany n true).full = true
          · have h256 := full_iff.mp hfull'
            rw [hr', if_pos hfull']
            exact ⟨hmany, by omega⟩
          · have hlt' : (r.fillMany n true).pos < 256 := not_le.mp (mt full_iff.mpr hfull')
            rw [hr', if_neg hfull']
            rcases hmany.fillMany (max - n) false fun i hlow hhigh =>
              hclear i (by omega) (by omega) with ⟨hall, hallpos⟩
            exact ⟨hall, by omega⟩
        rw [if_neg hfull]
        dsimp only
        rw [hwidth]
        rcases hgroup _ rfl with ⟨hfollows, hgrouppos⟩
        have hrest := ih (k + 1) hfollows hgrouppos
        have hcount : k + 1 + fuel = k + (fuel + 1) := by omega
        rwa [hcount] at hrest

/-- Channels left out at the start, and then the first `n` of each `max`. -/
theorem bits_fillGroups {max n : Nat} (shift : Nat) (hn : n ≤ max) (hpos : 0 < max)
    (hmax : max ≤ 256) {i : Nat} (hi : i < 256) :
    ((reset.fillMany shift false).fillGroups max n 256).bits i =
      decide (shift ≤ i ∧ (i - shift) % max < n) := by
  have hstart : reset.Follows fun i => shift ≤ i ∧ (i - shift) % max < n := follows_reset
  have hzero : reset.pos = 0 := rfl
  rcases hstart.fillMany shift false fun i _ hlt =>
    decide_eq_false fun h => by omega with ⟨hshift, hshiftpos⟩
  have hgroups := hshift.fillGroups hn hmax (fun i hle => and_iff_right hle) 256 0 (by omega)
  have hall : (0 + 256) * max ≥ 256 := by omega
  rw [hgroups.1.bits]
  exact decide_eq_decide.mpr (and_iff_right (by omega))

end ChannelRing

namespace StarMaskLoop

variable (l : StarMaskLoop)

/-! ## The rings of a loop -/

/-- The offset of a stage. -/
def offset (cur : Nat) : Nat := (4294967296 + 256 - cur) % 4294967296 % 256

theorem offset_add {cur ch : Nat} (hcur : cur ≤ 256) :
    (offset cur + ch) % 256 = (256 + ch - cur) % 256 := by
  unfold offset
  omega

theorem count_groups {max n shift ch : Nat} (hdvd : max ∣ 256) (hn : shift + n ≤ max) :
    Nat.count (fun cur => ((ChannelRing.reset.fillMany shift false).fillGroups max n 256).bits
      ((offset cur + ch) % 256) = true) max = n := by
  have hpos : 0 < max := Nat.pos_of_dvd_of_pos hdvd (by decide)
  have hmax : max ≤ 256 := Nat.le_of_dvd (by decide) hdvd
  have hwindow := Patterns.count_window (Patterns.periodic_mod (· < n) max)
    (256 + ch + (max - shift)) (by omega)
  rw [Patterns.count_mod_lt (by omega)] at hwindow
  apply Eq.trans _ hwindow
  rw [Nat.count_eq_card_filter_range, Nat.count_eq_card_filter_range]
  apply congrArg Finset.card
  apply Finset.filter_congr
  intro cur hcur
  have hlt := Finset.mem_range.mp hcur
  rw [offset_add (by omega), ChannelRing.bits_fillGroups shift (by omega) hpos hmax
    (Nat.mod_lt _ (by decide)), decide_eq_true_eq]
  have hturn : (256 + ch + (max - shift) - cur) % max =
      ((256 + ch - cur) % 256 + (max - shift)) % max := by
    have hsplit : 256 + ch + (max - shift) - cur = 256 + ch - cur + (max - shift) := by omega
    rw [hsplit, Nat.add_mod, Nat.add_mod ((256 + ch - cur) % 256), Nat.mod_mod_of_dvd _ hdvd]
  rw [hturn]
  by_cases hle : shift ≤ (256 + ch - cur) % 256
  · have hgroup : (256 + ch - cur) % 256 + (max - shift) =
        (256 + ch - cur) % 256 - shift + max := by
      omega
    rw [hgroup, Nat.add_mod_right]
    exact and_iff_right hle
  · -- the channels left out are at the end of a group of their own
    have hlast : ((256 + ch - cur) % 256 + (max - shift)) % max =
        (256 + ch - cur) % 256 + (max - shift) := Nat.mod_eq_of_lt (by omega)
    rw [hlast]
    exact iff_of_false (fun h => hle h.1) (by omega)

end StarMaskLoop

end Yarr.Star
