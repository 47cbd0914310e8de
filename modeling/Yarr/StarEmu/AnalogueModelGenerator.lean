import Yarr.Star.StripFields
import Yarr.StarEmu.StripRegisters

/-!
# `AnalogueModelGenerator`

The analogue model of each strip is asked for a hit, with the charge that is
injected, the threshold and the trim.
-/

namespace Yarr.StarEmu

open Yarr.Star

/-- The arguments of `StripModel::calculateHit`. -/
structure StripInput where
  BCAL : Nat
  BVT : Nat
  TrimDAC : Nat
  TrimRange : Nat
  deriving DecidableEq, Repr

/-- `hits.set(i, value)`. -/
def StripData.put (bits : StripData) (i : Nat) (value : Bool) : StripData :=
  if value then bits ||| BitVec.twoPow 256 i else bits &&& ~~~(BitVec.twoPow 256 i)

namespace AnalogueModelGenerator

/-- In the loop over the strips: the charge, the hits and what the models were asked. -/
structure Filling where
  BCAL : Nat
  hits : StripData
  calls : List StripInput

/-- One strip of the loop. `calculateHit` is the model of the strip, noise included. -/
def fillStrip (calculateHit : Nat → StripInput → Bool) (abc : AbcCfg) (enables : StripData)
    (BVT BTRANGE : Nat) (f : Filling) (istrip : Nat) : Filling :=
  let TrimDAC := abc.getTrimDACRaw istrip
  let BCAL := if enables.getLsbD istrip then f.BCAL else 0
  let input : StripInput := ⟨BCAL, BVT, TrimDAC, BTRANGE⟩
  ⟨BCAL, f.hits.put istrip (calculateHit istrip input), f.calls ++ [input]⟩

/-- The charge that is injected with a calibration pulse. -/
def charge (abc : AbcCfg) (cal_pulse : Bool) : Except SubRegisterFailure Nat := do
  let CalPulseEnable ← abc.getSubRegister .CALPULSE_ENABLE
  if cal_pulse && CalPulseEnable != 0 then abc.getSubRegister .BCAL else return 0

def fill_hits (calculateHit : Nat → StripInput → Bool) (hits : StripData) (abc : AbcCfg)
    (cal_pulse : Bool) : Except SubRegisterFailure Filling := do
  let BCAL ← charge abc cal_pulse
  let BVT ← abc.getSubRegister .BVT
  let BTRANGE ← abc.getSubRegister .BTRANGE
  let enables ← (getCalEnables abc).mapError fun _ => SubRegisterFailure.outOfRange
  return (List.range StripsPerABC).foldl (fillStrip calculateHit abc enables BVT BTRANGE)
    ⟨BCAL, hits, []⟩

/-- What the model of a strip is asked. -/
def asked (calculateHit : Nat → StripInput → Bool) (hits : StripData) (abc : AbcCfg)
    (cal_pulse : Bool) (s : Nat) : Option StripInput :=
  match fill_hits calculateHit hits abc cal_pulse with
  | .ok f => f.calls[s]?
  | .error _ => none

/-! ## The loop over the strips -/

/-- The calibration enable of a strip. -/
def enabled (abc : AbcCfg) (s : Nat) : Bool :=
  (abc.registers.value (ABCStarRegister.CalREG0 + s % 128 / 16)).toNat.testBit (calBit s)

/-- All strips up to one are enabled, and that one too. -/
def enabledUpTo (abc : AbcCfg) (s : Nat) : Bool := (List.range (s + 1)).all (enabled abc)

theorem fieldWidth_isSome (abc : AbcCfg) (subReg : ABCStarSubRegister)
    (h : subReg ∈ [ABCStarSubRegister.CALPULSE_ENABLE, .BCAL, .BVT, .BTRANGE]) :
    (abc.fieldWidth subReg).isSome := by
  have hall : ∀ v : Bool, ∀ r ∈ [ABCStarSubRegister.CALPULSE_ENABLE, .BCAL, .BVT, .BTRANGE],
      (((abcSubRegDefs v).lookup r).map SubRegisterInfo.m_width).isSome := by decide +kernel
  exact hall abc.version_1 subReg h

/-- The charge as the fields of the chip say. -/
def injected (abc : AbcCfg) (cal_pulse : Bool) : Nat :=
  if cal_pulse && abc.fieldValue .CALPULSE_ENABLE != 0 then abc.fieldValue .BCAL else 0

theorem charge_eq (abc : AbcCfg) (cal_pulse : Bool) :
    charge abc cal_pulse = .ok (injected abc cal_pulse) := by
  unfold charge injected
  rw [abc.getSubRegister_eq (fieldWidth_isSome abc .CALPULSE_ENABLE (by simp)),
    abc.getSubRegister_eq (fieldWidth_isSome abc .BCAL (by simp))]
  show (if _ then _ else _) = _
  split <;> rfl

variable (calculateHit : Nat → StripInput → Bool) (hits : StripData) (abc : AbcCfg)
  (cal_pulse : Bool)

/-- A strip is asked for the charge if it and all strips before are enabled. -/
def inputOf (s : Nat) : StripInput :=
  ⟨if enabledUpTo abc s then injected abc cal_pulse else 0, abc.fieldValue .BVT, abc.getTrimDACRaw s,
    abc.fieldValue .BTRANGE⟩

/-- After the first `k` strips. -/
structure Filled (f : Filling) (k : Nat) : Prop where
  charge : f.BCAL = if (List.range k).all (enabled abc) then injected abc cal_pulse else 0
  length : f.calls.length = k
  calls : ∀ s, s < k → f.calls[s]? = some (inputOf abc cal_pulse s)

theorem fillStrip_filled {enables : StripData}
    (henables : ∀ s, s < 256 → enables.getLsbD s = enabled abc s) {f : Filling} {k : Nat}
    (hk : k < 256) (h : Filled abc cal_pulse f k) :
    Filled abc cal_pulse
      (fillStrip calculateHit abc enables (abc.fieldValue .BVT) (abc.fieldValue .BTRANGE) f k) (k + 1) := by
  have hcharge : (if enables.getLsbD k then f.BCAL else 0) =
      if enabledUpTo abc k then injected abc cal_pulse else 0 := by
    unfold enabledUpTo
    rw [henables k hk, h.charge, List.range_succ, List.all_append]
    cases (List.range k).all (enabled abc) <;> cases hlast : enabled abc k <;> simp [hlast]
  exact {
    charge := hcharge
    length := by
      show (f.calls ++ [_]).length = k + 1
      rw [List.length_append, h.length]
      rfl
    calls := by
      intro s hs
      show (f.calls ++ [_])[s]? = _
      by_cases hlt : s < k
      · rw [List.getElem?_append_left (by rw [h.length]; exact hlt)]
        exact h.calls s hlt
      · have heq : s = k := by omega
        subst heq
        rw [List.getElem?_append_right (by rw [h.length]), h.length, Nat.sub_self]
        unfold inputOf
        rw [← hcharge]
        rfl }

theorem foldl_filled {enables : StripData}
    (henables : ∀ s, s < 256 → enables.getLsbD s = enabled abc s) {k : Nat} (hk : k ≤ 256) :
    Filled abc cal_pulse ((List.range k).foldl
      (fillStrip calculateHit abc enables (abc.fieldValue .BVT) (abc.fieldValue .BTRANGE))
      ⟨injected abc cal_pulse, hits, []⟩) k := by
  induction k with
  | zero => exact ⟨rfl, rfl, fun s hs => absurd hs (Nat.not_lt_zero s)⟩
  | succ k ih =>
      rw [List.range_succ, List.foldl_append]
      exact fillStrip_filled calculateHit abc cal_pulse henables hk (ih (by omega))

theorem asked_eq {s : Nat} (hs : s < StripsPerABC) :
    asked calculateHit hits abc cal_pulse s = some (inputOf abc cal_pulse s) := by
  rcases getCalEnables_eq abc with ⟨enables, hget, henables⟩
  have hfilled := foldl_filled calculateHit hits abc cal_pulse henables (Nat.le_refl 256)
  have hfill : fill_hits calculateHit hits abc cal_pulse = .ok ((List.range 256).foldl
      (fillStrip calculateHit abc enables (abc.fieldValue .BVT) (abc.fieldValue .BTRANGE))
      ⟨injected abc cal_pulse, hits, []⟩) := by
    unfold fill_hits
    rw [charge_eq, abc.getSubRegister_eq (fieldWidth_isSome abc .BVT (by simp)),
      abc.getSubRegister_eq (fieldWidth_isSome abc .BTRANGE (by simp)), hget]
    rfl
  unfold asked
  rw [hfill]
  exact hfilled.calls s hs

/-! ## Strips do not depend on each other -/

/-- Two chips with the same global fields, and the same enable and trim of one strip. -/
structure AgreeAt (abc abc' : AbcCfg) (s : Nat) : Prop where
  global : ∀ subReg ∈ [ABCStarSubRegister.CALPULSE_ENABLE, .BCAL, .BVT, .BTRANGE],
    abc.fieldValue subReg = abc'.fieldValue subReg
  enabled : enabled abc s = enabled abc' s
  trim : abc.getTrimDACRaw s = abc'.getTrimDACRaw s

/-- The charge goes to a strip with a pulse, if the chip and the strip itself are enabled. -/
def OwnCharge (s : Nat) : Prop :=
  ∃ input, asked calculateHit hits abc cal_pulse s = some input ∧
    input.BCAL = if enabled abc s then injected abc cal_pulse else 0

/-- No charge reaches the strip anyway, or no strip before it is disabled. -/
def Undisturbed (s : Nat) : Prop :=
  injected abc cal_pulse ≠ 0 → enabled abc s = true → ∀ r, r < s → enabled abc r = true

theorem enabledUpTo_iff (s : Nat) : enabledUpTo abc s = true ↔
    enabled abc s = true ∧ ∀ r, r < s → enabled abc r = true := by
  unfold enabledUpTo
  rw [List.all_eq_true]
  constructor
  · intro h
    exact ⟨h s (List.mem_range.mpr (by omega)), fun r hr => h r (List.mem_range.mpr (by omega))⟩
  · rintro ⟨hown, hbefore⟩ r hr
    rcases Nat.lt_succ_iff_lt_or_eq.mp (List.mem_range.mp hr) with hlt | heq
    · exact hbefore r hlt
    · rwa [heq]

theorem ownCharge_iff {s : Nat} (hs : s < StripsPerABC) :
    OwnCharge calculateHit hits abc cal_pulse s ↔ Undisturbed abc cal_pulse s := by
  have hown : OwnCharge calculateHit hits abc cal_pulse s ↔
      (if enabledUpTo abc s then injected abc cal_pulse else 0) =
        if enabled abc s then injected abc cal_pulse else 0 := by
    unfold OwnCharge
    rw [asked_eq _ _ _ _ hs]
    constructor
    · rintro ⟨input, hinput, hcharge⟩
      rw [← Option.some_inj.mp hinput] at hcharge
      exact hcharge
    · intro hcharge
      exact ⟨_, rfl, hcharge⟩
  rw [hown]
  by_cases hself : enabled abc s = true
  · by_cases hbefore : ∀ r, r < s → enabled abc r = true
    · rw [if_pos ((enabledUpTo_iff abc s).mpr ⟨hself, hbefore⟩), if_pos hself]
      exact iff_of_true rfl fun _ _ => hbefore
    · rw [if_neg (fun hup => hbefore ((enabledUpTo_iff abc s).mp hup).2), if_pos hself]
      constructor
      · intro hzero hne _
        exact absurd hzero.symm hne
      · intro h
        by_contra hne
        exact hbefore (h (Ne.symm hne) hself)
  · rw [if_neg (fun hup => hself ((enabledUpTo_iff abc s).mp hup).1), if_neg hself]
    exact iff_of_true rfl fun _ hself' => absurd hself' hself

theorem injected_congr {abc abc' : AbcCfg} {s : Nat} (h : AgreeAt abc abc' s) :
    injected abc cal_pulse = injected abc' cal_pulse := by
  unfold injected
  rw [h.global .CALPULSE_ENABLE (by simp), h.global .BCAL (by simp)]

/-- The strip of two chips is asked the same, and gets its own charge, if and only if it is
undisturbed in both. -/
theorem strip_independent_iff (calculateHit calculateHit' : Nat → StripInput → Bool)
    (hits hits' : StripData) (cal_pulse : Bool) {abc abc' : AbcCfg} {s : Nat}
    (hs : s < StripsPerABC) (h : AgreeAt abc abc' s) :
    (asked calculateHit hits abc cal_pulse s = asked calculateHit' hits' abc' cal_pulse s ∧
      OwnCharge calculateHit hits abc cal_pulse s ∧
      OwnCharge calculateHit' hits' abc' cal_pulse s) ↔
    (Undisturbed abc cal_pulse s ∧ Undisturbed abc' cal_pulse s) := by
  rw [ownCharge_iff _ _ _ _ hs, ownCharge_iff _ _ _ _ hs]
  constructor
  · exact fun hall => hall.2
  · rintro ⟨hown, hown'⟩
    apply And.intro _ ⟨hown, hown'⟩
    rcases (ownCharge_iff calculateHit hits abc cal_pulse hs).mpr hown with ⟨input, hinput, hcharge⟩
    rcases (ownCharge_iff calculateHit' hits' abc' cal_pulse hs).mpr hown' with
      ⟨input', hinput', hcharge'⟩
    rw [hinput, hinput']
    rw [asked_eq _ _ _ _ hs] at hinput hinput'
    rw [← Option.some_inj.mp hinput] at hcharge ⊢
    rw [← Option.some_inj.mp hinput'] at hcharge' ⊢
    rw [h.enabled, injected_congr cal_pulse h, ← hcharge'] at hcharge
    unfold inputOf at hcharge hcharge' ⊢
    dsimp only at hcharge ⊢
    rw [hcharge, h.trim, h.global .BVT (by simp), h.global .BTRANGE (by simp)]

/-- A chip of the second version with a charge of one, whose first calibration register is
`CalREG0`. -/
def pulsed (CalREG0 : UInt32) : AbcCfg where
  version_1 := true
  m_abcID := 0
  registers := ⟨fun addr =>
    if addr = 2 then 0x2000 else if addr = 32 then 0x200000
    else if addr = ABCStarRegister.CalREG0 then CalREG0 else 0⟩

theorem pulsed_agree : AgreeAt (pulsed 0xfffffffe) (pulsed 0xffffffff) 1 :=
  ⟨by decide +kernel, by decide +kernel, by decide +kernel⟩

theorem strip_independent_first :
    (asked (fun _ _ => true) 0 (pulsed 0xffffffff) true 0 =
        asked (fun _ _ => true) 0 (pulsed 0xffffffff) true 0 ∧
      OwnCharge (fun _ _ => true) 0 (pulsed 0xffffffff) true 0 ∧
      OwnCharge (fun _ _ => true) 0 (pulsed 0xffffffff) true 0) ↔
    (Undisturbed (pulsed 0xffffffff) true 0 ∧ Undisturbed (pulsed 0xffffffff) true 0) :=
  strip_independent_iff (fun _ _ => true) (fun _ _ => true) 0 0 true (by decide)
    ⟨fun _ _ => rfl, rfl, rfl⟩

/-- Strip 1 is enabled in both chips; it gets no charge in the one where strip 0 is not. -/
theorem strip_disturbed :
    AgreeAt (pulsed 0xfffffffe) (pulsed 0xffffffff) 1 ∧
    enabled (pulsed 0xfffffffe) 1 = true ∧
    asked (fun _ _ => true) 0 (pulsed 0xfffffffe) true 1 = some ⟨0, 0, 0, 0⟩ ∧
    asked (fun _ _ => true) 0 (pulsed 0xffffffff) true 1 = some ⟨1, 0, 0, 0⟩ := by
  rw [asked_eq _ _ _ _ (by decide), asked_eq _ _ _ _ (by decide)]
  exact ⟨pulsed_agree, by decide +kernel, by decide +kernel, by decide +kernel⟩

end AnalogueModelGenerator

end Yarr.StarEmu
