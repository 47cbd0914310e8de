import Yarr.Rd53.BurstTrains

/-!
# The words of double injections

Where the words of the two schemes lie, from the arithmetic of the source,
and what they request. One command has room for both injections if the ends
of the trains are near enough; with two commands the checks keep the trains
apart from them.
-/

namespace Yarr.Rd53

namespace Rd53a2TriggerLoop

variable {loop : Rd53a2TriggerLoop}

/-! ## Floats -/

theorem toFloat_natCast {n : Nat} (h : n < 2 ^ 24) : toFloat n = n := by
  have habs : |(n : Int)| < 2 ^ 24 := by
    rw [abs_of_nonneg (Int.natCast_nonneg n)]
    exact_mod_cast h
  exact_mod_cast toFloat_intCast habs

theorem representable_natCast_div {n : Nat} (h : n < 2 ^ 24) (k : Nat) :
    FloatRounding.Representable 24 ((n : ℚ) / 2 ^ k) := by
  have habs : |(n : Int)| < 2 ^ 24 := by
    rw [abs_of_nonneg (Int.natCast_nonneg n)]
    exact_mod_cast h
  exact FloatRounding.representable_div habs k

theorem le_toFloat {n : Nat} (h : n < 2 ^ 24) (k : Nat) {y : ℚ} (hy : (n : ℚ) / 2 ^ k ≤ y) :
    (n : ℚ) / 2 ^ k ≤ toFloat y := by
  rcases Nat.eq_zero_or_pos n with rfl | hpos
  · rw [Nat.cast_zero, zero_div] at hy ⊢
    exact FloatRounding.round_nonneg hy
  · exact FloatRounding.le_round (by decide) (representable_natCast_div h k)
      (div_pos (by exact_mod_cast hpos) (by norm_num)) hy

theorem toFloat_le {n : Nat} (h : n < 2 ^ 24) (k : Nat) {y : ℚ} (hpos : 0 < y)
    (hy : y ≤ (n : ℚ) / 2 ^ k) : toFloat y ≤ (n : ℚ) / 2 ^ k :=
  FloatRounding.round_le (by decide) (representable_natCast_div h k) hpos hy

theorem toFloat_below {z : ℚ} (hz : 0 ≤ z) {n : Nat} (hlow : 128 < n) (hhigh : n ≤ 256)
    (h : toFloat z < n) : toFloat z ≤ (n : ℚ) - 1 / 2 ^ 16 := by
  have hn : (129 : ℚ) ≤ n := by exact_mod_cast hlow
  by_cases hsmall : z < 128
  · have hle : toFloat z ≤ 128 := by
      rcases hz.eq_or_lt with rfl | hpos
      · rw [toFloat, FloatRounding.round_zero]
        norm_num
      · have h128 := @toFloat_le 128 (by norm_num) 0 z hpos (by norm_num; exact hsmall.le)
        simpa using h128
    linarith
  · by_cases hbig : 256 ≤ z
    · have h256 := @le_toFloat 256 (by norm_num) 0 z (by norm_num; exact hbig)
      have hn' : (n : ℚ) ≤ 256 := by exact_mod_cast hhigh
      norm_num at h256
      linarith
    · rcases @FloatRounding.round_multiple 24 z 7 (by norm_num; linarith)
        (by norm_num; linarith) with ⟨m, hm⟩
      have hunits : toFloat z = m / 2 ^ 16 := by
        rw [toFloat, hm]
        norm_num
        ring
      rw [hunits] at h ⊢
      have hlt : m < (n : Int) * 2 ^ 16 := by
        rw [div_lt_iff₀ (by norm_num)] at h
        exact_mod_cast h
      have hle : m + 1 ≤ (n : Int) * 2 ^ 16 := Int.add_one_le_of_lt hlt
      have hcast : (m : ℚ) + 1 ≤ (n : ℚ) * 2 ^ 16 := by exact_mod_cast hle
      rw [div_le_iff₀ (by norm_num)]
      linarith

theorem asInt_of_lt {n : UInt32} (h : n.toNat < 2 ^ 31) : asInt n = n.toNat := by
  have hcond : asInt n = if 2 * n.toNat < 2 ^ 32 then (n.toNat : Int) else n.toNat - 2 ^ 32 :=
    BitVec.toInt_eq_toNat_cond n.toBitVec
  rw [hcond, if_pos (by omega)]

theorem trunc_of_nonneg {x : ℚ} (hx : 0 ≤ x) : trunc x = ⌊x⌋ := if_pos hx

theorem toInt_of_nonneg {x : ℚ} (hx : 0 ≤ x) (hlt : x < 2 ^ 31) : toInt x = some ⌊x⌋ := by
  have hfloor : 0 ≤ ⌊x⌋ := Int.floor_nonneg.mpr hx
  have hbound : ⌊x⌋ < 2 ^ 31 := by
    rw [Int.floor_lt]
    exact_mod_cast hlt
  unfold toInt
  rw [trunc_of_nonneg hx, if_pos ⟨by omega, hbound⟩]

theorem toUInt8_of_nonneg {x : ℚ} (hx : 0 ≤ x) (hlt : x < 256) :
    toUInt8 x = some (UInt8.ofNat ⌊x⌋.toNat) := by
  have hfloor : 0 ≤ ⌊x⌋ := Int.floor_nonneg.mpr hx
  have hbound : ⌊x⌋ < 256 := by
    rw [Int.floor_lt]
    exact_mod_cast hlt
  unfold toUInt8
  rw [trunc_of_nonneg hx, if_pos ⟨hfloor, hbound⟩]

/-! ## One command -/

/-- The double delay in quarters of a bunch crossing, cut. -/
def quarters (loop : Rd53a2TriggerLoop) : Nat := ⌊loop.m_doubleDelay * 4⌋.toNat

/-- How far the words of a pulse in front shift the others. -/
def shift (loop : Rd53a2TriggerLoop) : Nat := if loop.m_synPulse then 1 else 0

/-- The delays are not negative, and the trains of a single command have room. -/
structure InRange (loop : Rd53a2TriggerLoop) : Prop where
  delay : loop.m_trigDelay.toNat < 2 ^ 31
  delay2 : loop.m_trigDelay2.toNat < 2 ^ 31
  doubleDelay : 0 ≤ loop.m_doubleDelay
  first : loop.m_doubleDelay < 16 →
    loop.m_trigDelay.toNat + loop.m_Ntrig1.toNat + 8 * loop.shift ≤ 221
  second : loop.m_doubleDelay < 16 → loop.secondEnd + 8 * loop.shift < 233

section Single

theorem quarters_bounds (hrange : loop.InRange) (hsingle : loop.m_doubleDelay < 16) :
    loop.quarters < 64 ∧ (loop.quarters : ℚ) ≤ loop.m_doubleDelay * 4 ∧
      ⌊loop.m_doubleDelay * 4⌋ = loop.quarters := by
  have hfour : 0 ≤ loop.m_doubleDelay * 4 := mul_nonneg hrange.doubleDelay (by norm_num)
  have hfloor : 0 ≤ ⌊loop.m_doubleDelay * 4⌋ := Int.floor_nonneg.mpr hfour
  have heq : ⌊loop.m_doubleDelay * 4⌋ = loop.quarters := (Int.toNat_of_nonneg hfloor).symm
  have hlt : ⌊loop.m_doubleDelay * 4⌋ < 64 := by
    rw [Int.floor_lt]
    norm_num
    linarith
  refine ⟨by omega, ?_, heq⟩
  have hle := Int.floor_le (loop.m_doubleDelay * 4)
  rw [heq] at hle
  exact_mod_cast hle

theorem delay2_lt (hrange : loop.InRange) (hsingle : loop.m_doubleDelay < 16) :
    loop.m_trigDelay2.toNat < 256 := by
  apply Nat.lt_of_not_le
  intro hbig
  have hsecond := hrange.second hsingle
  have hdd := hrange.doubleDelay
  have hcast : (256 : ℚ) ≤ loop.m_trigDelay2.toNat := by exact_mod_cast hbig
  have hdelay : (256 : ℚ) ≤ toFloat loop.m_trigDelay2.toNat := by
    simpa using @le_toFloat 256 (by norm_num) 0 _ (by norm_num; exact hbig)
  have hntrig : (0 : ℚ) ≤ toFloat loop.m_Ntrig2.toNat :=
    FloatRounding.round_nonneg (Nat.cast_nonneg _)
  have h1 : (256 : ℚ) ≤ toFloat (loop.m_doubleDelay + toFloat loop.m_trigDelay2.toNat) := by
    simpa using @le_toFloat 256 (by norm_num) 0 _ (by norm_num; linarith)
  have h2 : (272 : ℚ) ≤ toFloat (toFloat (loop.m_doubleDelay
      + toFloat loop.m_trigDelay2.toNat) + 16) := by
    simpa using @le_toFloat 272 (by norm_num) 0 _ (by norm_num; linarith)
  have h3 : (267 : ℚ) ≤ toFloat (toFloat (toFloat (loop.m_doubleDelay
      + toFloat loop.m_trigDelay2.toNat) + 16) - 5) := by
    simpa using @le_toFloat 267 (by norm_num) 0 _ (by norm_num; linarith)
  have h4 : (267 : ℚ) ≤ loop.secondEnd := by
    rw [secondEnd]
    simpa using @le_toFloat 267 (by norm_num) 0
      (toFloat (toFloat (toFloat (loop.m_doubleDelay + toFloat loop.m_trigDelay2.toNat) + 16) - 5)
        + toFloat loop.m_Ntrig2.toNat) (by norm_num; linarith)
  have hshift : (0 : ℚ) ≤ 8 * loop.shift := by positivity
  linarith

/-- Both ends of the trains, in quarters of a bunch crossing, are not cut. -/
theorem ends_le (hrange : loop.InRange) (hsingle : loop.m_doubleDelay < 16)
    (hn2 : loop.m_Ntrig2.toNat ≤ 16) :
    loop.firstEnd = ((loop.m_trigDelay.toNat + 11 + loop.m_Ntrig1.toNat : Nat) : ℚ) ∧
      ((loop.quarters + 4 * loop.m_trigDelay2.toNat + 44 + 4 * loop.m_Ntrig2.toNat : Nat) : ℚ) / 4
        ≤ loop.secondEnd := by
  have hfirst := hrange.first hsingle
  have hquarters := quarters_bounds hrange hsingle
  have hdelay2 := delay2_lt hrange hsingle
  constructor
  · have hsum : (loop.m_trigDelay + 16 - 5 + loop.m_Ntrig1).toNat
        = loop.m_trigDelay.toNat + 11 + loop.m_Ntrig1.toNat := by
      have h16 : (16 : UInt32).toNat = 16 := rfl
      have h5 : (5 : UInt32).toNat = 5 := rfl
      rw [UInt32.toNat_add, UInt32.toNat_sub, UInt32.toNat_add, h16, h5]
      omega
    rw [firstEnd, hsum, toFloat_natCast (by omega)]
  · have hd2 := @toFloat_natCast loop.m_trigDelay2.toNat (by omega)
    have hn2' := @toFloat_natCast loop.m_Ntrig2.toNat (by omega)
    have hq := hquarters.2.1
    have h1 := @le_toFloat (loop.quarters + 4 * loop.m_trigDelay2.toNat) (by omega) 2
      (loop.m_doubleDelay + toFloat loop.m_trigDelay2.toNat) (by rw [hd2]; push_cast; linarith)
    have h2 := @le_toFloat (loop.quarters + 4 * loop.m_trigDelay2.toNat + 64) (by omega) 2
      (toFloat (loop.m_doubleDelay + toFloat loop.m_trigDelay2.toNat) + 16)
      (by push_cast at h1 ⊢; linarith)
    have h3 := @le_toFloat (loop.quarters + 4 * loop.m_trigDelay2.toNat + 44) (by omega) 2
      (toFloat (toFloat (loop.m_doubleDelay + toFloat loop.m_trigDelay2.toNat) + 16) - 5)
      (by push_cast at h2 ⊢; linarith)
    have h4 := @le_toFloat
      (loop.quarters + 4 * loop.m_trigDelay2.toNat + 44 + 4 * loop.m_Ntrig2.toNat) (by omega) 2
      (toFloat (toFloat (toFloat (loop.m_doubleDelay + toFloat loop.m_trigDelay2.toNat) + 16) - 5)
        + toFloat loop.m_Ntrig2.toNat)
      (by rw [hn2']; push_cast at h3 ⊢; linarith)
    rw [secondEnd]
    norm_num at h4 ⊢
    exact h4

/-- The ends stay below the last words, by more than the roundings add. -/
theorem toFloat_offset_lt (hrange : loop.InRange) (hsingle : loop.m_doubleDelay < 16)
    (hn2 : loop.m_Ntrig2.toNat ≤ 16) :
    toFloat (3 + toFloat (toFloat (max loop.firstEnd loop.secondEnd - 1) / 8))
      < 32 - loop.shift := by
  rcases ends_le hrange hsingle hn2 with ⟨hfirst, hsecond⟩
  have hroom1 := hrange.first hsingle
  have hroom2 := hrange.second hsingle
  have hshift : loop.shift ≤ 1 := by
    unfold shift
    split <;> omega
  rcases Nat.exists_eq_add_of_le (show 8 * loop.shift ≤ 233 by omega) with ⟨n, hn⟩
  have hncast : (n : ℚ) = 233 - 8 * loop.shift := by
    have hcast : ((233 : Nat) : ℚ) = ((8 * loop.shift + n : Nat) : ℚ) := by rw [hn]
    push_cast at hcast
    linarith
  have hstep : ∀ m : Nat, 0 < m → m ≤ 256 → ((m * 2 ^ 16 - 1 : Nat) : ℚ) = m * 2 ^ 16 - 1 := by
    intro m hm _
    rw [Nat.cast_sub (by omega)]
    norm_num
  have hfirst_le : loop.firstEnd ≤ n - 1 / 2 ^ 16 := by
    have hle : loop.m_trigDelay.toNat + 11 + loop.m_Ntrig1.toNat + 1 ≤ n := by omega
    have hcast : ((loop.m_trigDelay.toNat + 11 + loop.m_Ntrig1.toNat : Nat) : ℚ) + 1 ≤ n := by
      exact_mod_cast hle
    rw [hfirst]
    linarith
  have hsecond_le : loop.secondEnd ≤ n - 1 / 2 ^ 16 := by
    apply toFloat_below _ (by omega) (by omega) _
    · exact add_nonneg (FloatRounding.round_nonneg (by
        have hdd := hrange.doubleDelay
        have h1 : (0 : ℚ) ≤ toFloat loop.m_trigDelay2.toNat :=
          FloatRounding.round_nonneg (Nat.cast_nonneg _)
        have h2 : (0 : ℚ) ≤ toFloat (loop.m_doubleDelay + toFloat loop.m_trigDelay2.toNat) :=
          FloatRounding.round_nonneg (by linarith)
        have h3 := @le_toFloat 16 (by norm_num) 0 (toFloat (loop.m_doubleDelay
          + toFloat loop.m_trigDelay2.toNat) + 16) (by norm_num; exact h2)
        norm_num at h3
        linarith)) (FloatRounding.round_nonneg (Nat.cast_nonneg _))
    · rw [hncast]
      change loop.secondEnd < _
      linarith
  have hmax : max loop.firstEnd loop.secondEnd ≤ n - 1 / 2 ^ 16 := max_le hfirst_le hsecond_le
  have hge : (11 : ℚ) ≤ max loop.firstEnd loop.secondEnd := by
    apply le_max_of_le_left
    rw [hfirst]
    push_cast
    have hd : (0 : ℚ) ≤ loop.m_trigDelay.toNat := Nat.cast_nonneg _
    have hk : (0 : ℚ) ≤ loop.m_Ntrig1.toNat := Nat.cast_nonneg _
    linarith
  have hlow := @le_toFloat 10 (by norm_num) 0 (max loop.firstEnd loop.secondEnd - 1)
    (by norm_num; linarith)
  have h1 := @toFloat_le ((n - 1) * 2 ^ 16 - 1) (by omega) 16
    (max loop.firstEnd loop.secondEnd - 1) (by linarith) (by
      rw [hstep (n - 1) (by omega) (by omega), Nat.cast_sub (by omega)]
      push_cast
      linarith)
  rw [hstep (n - 1) (by omega) (by omega), Nat.cast_sub (by omega)] at h1
  norm_num at hlow h1
  have hlow2 := @le_toFloat 1 (by norm_num) 0
    (toFloat (max loop.firstEnd loop.secondEnd - 1) / 8) (by norm_num; linarith)
  have h2 := @toFloat_le ((n - 1) * 2 ^ 16 - 1) (by omega) 19
    (toFloat (max loop.firstEnd loop.secondEnd - 1) / 8) (by linarith) (by
      rw [hstep (n - 1) (by omega) (by omega), Nat.cast_sub (by omega)]
      norm_num
      linarith)
  rw [hstep (n - 1) (by omega) (by omega), Nat.cast_sub (by omega)] at h2
  norm_num at hlow2 h2
  have h3 := @toFloat_le ((n + 23) * 2 ^ 16 - 1) (by omega) 19
    (3 + toFloat (toFloat (max loop.firstEnd loop.secondEnd - 1) / 8)) (by linarith) (by
      rw [hstep (n + 23) (by omega) (by omega)]
      push_cast
      norm_num
      linarith)
  rw [hstep (n + 23) (by omega) (by omega)] at h3
  push_cast at h3
  norm_num at h3
  linarith

/-- The header has room in front of both trains, and in the array. -/
theorem singleOffset_spec (hrange : loop.InRange) (hsingle : loop.m_doubleDelay < 16)
    (hn2 : loop.m_Ntrig2.toNat ≤ 16) :
    ∃ of : Nat, loop.singleOffset = some (UInt8.ofNat of) ∧ of + loop.shift < 32 ∧
      loop.m_trigDelay.toNat + loop.m_Ntrig1.toNat + 26 < 8 * of ∧
      loop.quarters + 4 * loop.m_trigDelay2.toNat + 4 * loop.m_Ntrig2.toNat + 104 < 32 * of := by
  rcases ends_le hrange hsingle hn2 with ⟨hfirst, hsecond⟩
  have hroom1 := hrange.first hsingle
  have hroom2 := hrange.second hsingle
  have hquarters := quarters_bounds hrange hsingle
  have hdelay2 := delay2_lt hrange hsingle
  -- a lower bound in quarters goes through all the roundings
  have hlower : ∀ n : Nat, 4 ≤ n → n < 2 ^ 12 → (n : ℚ) / 4 ≤ max loop.firstEnd loop.secondEnd →
      ((n + 92 : Nat) : ℚ) / 32
        ≤ toFloat (3 + toFloat (toFloat (max loop.firstEnd loop.secondEnd - 1) / 8)) := by
    intro n hfour hsmall hle
    have hcast : ((n - 4 : Nat) : ℚ) = n - 4 := by
      rw [Nat.cast_sub hfour]
      norm_num
    have h1 := @le_toFloat (n - 4) (by omega) 2 (max loop.firstEnd loop.secondEnd - 1)
      (by rw [hcast]; linarith)
    have h2 := @le_toFloat (n - 4) (by omega) 5
      (toFloat (max loop.firstEnd loop.secondEnd - 1) / 8) (by rw [hcast] at h1 ⊢; linarith)
    have h3 := @le_toFloat (n + 92) (by omega) 5
      (3 + toFloat (toFloat (max loop.firstEnd loop.secondEnd - 1) / 8))
      (by rw [hcast] at h2; push_cast; linarith)
    norm_num at h3 ⊢
    exact h3
  have hlow1 := hlower (4 * (loop.m_trigDelay.toNat + 11 + loop.m_Ntrig1.toNat)) (by omega)
    (by omega) (by
      rw [hfirst]
      push_cast
      apply le_max_of_le_left
      linarith)
  have hlow2 := hlower
    (loop.quarters + 4 * loop.m_trigDelay2.toNat + 44 + 4 * loop.m_Ntrig2.toNat) (by omega)
    (by omega) (le_max_of_le_right hsecond)
  have hupper := toFloat_offset_lt hrange hsingle hn2
  have hv : 0 ≤ toFloat (3 + toFloat (toFloat (max loop.firstEnd loop.secondEnd - 1) / 8)) :=
    le_trans (by positivity) hlow1
  have hfloor := Int.floor_nonneg.mpr hv
  have hshift : loop.shift ≤ 1 := by
    unfold shift
    split <;> omega
  have hof := Int.toNat_of_nonneg hfloor
  have hlt256 : toFloat (3 + toFloat (toFloat (max loop.firstEnd loop.secondEnd - 1) / 8))
      < 256 := by
    have hnonneg : (0 : ℚ) ≤ loop.shift := Nat.cast_nonneg _
    linarith
  have hle := Int.floor_le
    (toFloat (3 + toFloat (toFloat (max loop.firstEnd loop.secondEnd - 1) / 8)))
  have hgt := Int.lt_floor_add_one
    (toFloat (3 + toFloat (toFloat (max loop.firstEnd loop.secondEnd - 1) / 8)))
  rw [← hof] at hle hgt
  generalize hval : ⌊toFloat (3 + toFloat (toFloat (max loop.firstEnd loop.secondEnd - 1) / 8))⌋
    = v at *
  refine ⟨v.toNat, ?_, ?_, ?_, ?_⟩
  · rw [singleOffset, toUInt8_of_nonneg hv hlt256, hval]
  · have hcast : (v.toNat : ℚ) + loop.shift < 32 := by
      push_cast at hle
      linarith
    exact_mod_cast hcast
  · have hcast : (loop.m_trigDelay.toNat : ℚ) + loop.m_Ntrig1.toNat + 26 < 8 * v.toNat := by
      push_cast at hlow1 hgt
      linarith
    exact_mod_cast hcast
  · have hcast : (loop.quarters : ℚ) + 4 * loop.m_trigDelay2.toNat + 4 * loop.m_Ntrig2.toNat + 104
        < 32 * v.toNat := by
      push_cast at hlow2 hgt
      linarith
    exact_mod_cast hcast

/-- The edge lasts for the quarters of the double delay, and the second injection is the nearest
bunch crossing to its end. -/
theorem edge_spec (hrange : loop.InRange) (hsingle : loop.m_doubleDelay < 16) :
    loop.m_edgeDuration = some (UInt32.ofNat loop.quarters) ∧
      secondInjDelay (UInt32.ofNat loop.quarters)
        = some (8 + (((loop.quarters + 2) / 4 : Nat) : Int)) := by
  rcases quarters_bounds hrange hsingle with ⟨hlt, _, hfloor⟩
  have hfour : toFloat (loop.m_doubleDelay * 4) = loop.m_doubleDelay * 4 := by
    apply FloatRounding.round_of_representable
    rcases loop.float_doubleDelay with ⟨m, k, hm, hval⟩
    refine ⟨m, k + 2, hm, ?_⟩
    rw [hval, zpow_add₀ two_ne_zero, mul_assoc]
    norm_num
  have hnonneg : 0 ≤ loop.m_doubleDelay * 4 := mul_nonneg hrange.doubleDelay (by norm_num)
  constructor
  · rw [m_edgeDuration, hfour, toInt_of_nonneg hnonneg (by linarith), hfloor, Option.map_some]
    congr 1
    apply UInt32.toNat_inj.mp
    rw [Bits.toNat_ofInt (by omega) (by omega), UInt32.toNat_ofNat']
    omega
  · have hq : (UInt32.ofNat loop.quarters).toNat = loop.quarters := by
      rw [UInt32.toNat_ofNat']
      omega
    have hquarter : toFloat ((loop.quarters : ℚ) / 4) = (loop.quarters : ℚ) / 4 := by
      have hrep := representable_natCast_div (show loop.quarters < 2 ^ 24 by omega) 2
      norm_num at hrep
      exact FloatRounding.round_of_representable hrep
    have hround : roundHalfUp ((loop.quarters : ℚ) / 4) = ((loop.quarters + 2) / 4 : Nat) := by
      have hdiv : (loop.quarters : ℚ) / 4 + 1 / 2
          = ((loop.quarters + 2 : Nat) : ℚ) / ((4 : Nat) : ℚ) := by
        push_cast
        ring
      rw [roundHalfUp, hdiv, Rat.floor_natCast_div_natCast, Int.natCast_div]
    have hsum : (8 : ℚ) + (((loop.quarters + 2) / 4 : Nat) : Int)
        = ((8 + (loop.quarters + 2) / 4 : Nat) : ℚ) := by
      push_cast
      rfl
    rw [secondInjDelay, hq, toFloat_natCast (by omega), hquarter, hround, hsum,
      toFloat_natCast (by omega), toInt_of_nonneg (Nat.cast_nonneg _)
        (by exact_mod_cast show 8 + (loop.quarters + 2) / 4 < 2 ^ 31 by omega),
      Int.floor_natCast, Int.natCast_add]
    rfl

end Single

/-! ## Offsets -/

theorem toNat_ofNat_uint8 {n : Nat} (h : n < 256) : (UInt8.ofNat n).toNat = n := by
  rw [UInt8.toNat_ofNat']
  exact Nat.mod_eq_of_lt h

theorem toNat_ofInt_uint16 {n : Nat} {v : Int} (hv : v = n) (h : n < 2 ^ 16) :
    (UInt16.ofInt v).toNat = n := by
  rw [UInt16.ofInt, UInt16.toNat_ofNat']
  omega

theorem toNat_frame {offset frames k : Nat} (h : 2 + frames + k ≤ offset) (hlt : offset < 256) :
    (UInt8.ofNat offset - 2 - UInt8.ofNat frames - UInt8.ofNat k).toNat
      = offset - 2 - frames - k := by
  have htwo : (2 : UInt8).toNat = 2 := rfl
  rw [UInt8.toNat_sub, UInt8.toNat_sub, UInt8.toNat_sub, htwo, toNat_ofNat_uint8 hlt,
    toNat_ofNat_uint8 (by omega), toNat_ofNat_uint8 (by omega)]
  omega

/-- The bunch crossings of a train. -/
def Train (start n : Nat) (p : Nat) : Prop := start ≤ p ∧ p < start + n

/-- A train behind the injection of the command below the header at `offset`. -/
theorem Shows.train {s : Burst} {cmds : List (Nat × UInt32)} {triggers : Nat → Prop}
    (h : Shows s cmds triggers) {offset empty_trigs n : Nat} {injDelay delay : Int}
    (hn : n ≤ 16) (hoffset : offset < 34)
    (hempty : 0 < n → delay + injDelay - 8 = empty_trigs)
    (hroom : 0 < n → empty_trigs + n + 16 ≤ 8 * offset)
    (hfree : 0 < n → ∀ c ∈ cmds, c.1 + 2 ≤ offset →
      8 * c.1 + empty_trigs + n + 16 ≤ 8 * offset) :
    ∃ s', Rd53a2TriggerLoop.flexibleTrigger (UInt8.ofNat offset) injDelay n delay s = some s' ∧
      Shows s' cmds fun p => triggers p ∨ Train (8 * (33 - offset) + empty_trigs) n p := by
  rcases Nat.eq_zero_or_pos n with rfl | hpos
  · refine ⟨s, if_pos rfl, ?_⟩
    have hsame : (fun p => triggers p ∨ Train (8 * (33 - offset) + empty_trigs) 0 p)
        = triggers := by
      funext p
      apply propext
      refine ⟨fun hp => hp.resolve_right ?_, Or.inl⟩
      rintro ⟨hlow, hhigh⟩
      omega
    rw [hsame]
    exact h
  · have hempty := hempty hpos
    have hroom := hroom hpos
    have hfree := hfree hpos
    rcases @Shows.flexibleTrigger s cmds triggers h (UInt8.ofNat offset) injDelay delay n
      empty_trigs (offset - 2 - empty_trigs / 8) hn (toNat_ofInt_uint16 hempty (by omega))
      (fun _ => by omega) (fun _ => by omega)
      (fun _ k hk => toNat_frame (by omega) (by omega))
      (fun _ c hc hle => by
        have hout := hfree c hc (by omega)
        omega) with ⟨s', hs', hshows⟩
    refine ⟨s', hs', ?_⟩
    have hstart : 8 * (31 - (offset - 2 - empty_trigs / 8)) + empty_trigs % 8
        = 8 * (33 - offset) + empty_trigs := by omega
    rw [hstart] at hshows
    exact hshows

/-! ## The last words -/

theorem shift_le (loop : Rd53a2TriggerLoop) : loop.shift ≤ 1 := by
  unfold shift
  split <;> omega

theorem wordAt_setAutozeroPulse (s : Burst) {j : Nat} (hj : j < 32) :
    wordAt (setAutozeroPulse s).m_trigWord j
      = if j = 0 then pulse else wordAt s.m_trigWord (j - 1) := by
  unfold setAutozeroPulse wordAt
  rw [dif_pos hj]
  exact Vector.getElem_ofFn hj

theorem requests_setAutozeroPulse {s : Burst} {cmds : List (Nat × UInt32)}
    {triggers : Nat → Prop} (h : Shows s cmds triggers) (hlate : ∀ p, triggers p → p < 240)
    {p : Nat} (hp : p < 8 * 32) :
    requests .lsbFirst (setAutozeroPulse s).m_trigWord 32 p = true ↔ triggers (p + 8) := by
  have hpulse : Silent pulse := by decide
  unfold requests
  rw [wordAt_setAutozeroPulse s (by omega)]
  by_cases hlast : 32 - 1 - p / 8 = 0
  · rw [if_pos hlast, readWord_of_silent hpulse]
    refine ⟨fun hfalse => absurd hfalse (by decide), fun htrue => ?_⟩
    have hlt := hlate _ htrue
    omega
  · have hnext := @Shows.requests_iff s cmds triggers h (p + 8) (by omega)
    have hdiv : 32 - 1 - (p + 8) / 8 = 32 - 1 - p / 8 - 1 := by omega
    have hmod : (p + 8) % 8 = p % 8 := by omega
    unfold requests at hnext
    rw [hdiv, hmod] at hnext
    rw [if_neg hlast]
    exact hnext

theorem Shows.finish {s : Burst} {cmds : List (Nat × UInt32)} {triggers : Nat → Prop}
    (h : Shows s cmds triggers) (loop : Rd53a2TriggerLoop)
    (hcmds : ∀ c ∈ cmds, 2 ≤ c.1 ∧ c.1 + loop.shift < 32)
    (hlate : ∀ p, triggers p → p < 240) :
    ∃ s', ((Rd53a2TriggerLoop.putWord s 1 header).bind fun s =>
        (Rd53a2TriggerLoop.putWord s 0 arm).map fun s =>
          if loop.m_synPulse then setAutozeroPulse s else s) = some s' ∧
      (∀ c ∈ cmds, wordAt s'.m_trigWord (c.1 + loop.shift) = c.2) ∧
      (wordAt s'.m_trigWord (1 + loop.shift) = header ∧
        wordAt s'.m_trigWord loop.shift = arm) ∧
      (loop.m_synPulse = true → wordAt s'.m_trigWord 0 = pulse) ∧
      ∀ p < 8 * 32, requests .lsbFirst s'.m_trigWord 32 p = true ↔
        triggers (p + 8 * loop.shift) := by
  have hheader : Silent header := by decide
  have harm : Silent arm := by decide
  rcases h.putWord (j := 1) (i := 1) rfl (by decide) hheader
    (fun c hc heq => by
      have htwo := (hcmds c hc).1
      omega)
    (fun k hk htrue => by
      have hlt := hlate _ htrue
      omega) with ⟨s₁, hs₁, hshows₁⟩
  rcases hshows₁.putWord (j := 0) (i := 0) rfl (by decide) harm
    (fun c hc heq => by
      rcases List.mem_cons.mp hc with rfl | hc
      · cases heq
      · have htwo := (hcmds c hc).1
        omega)
    (fun k hk htrue => by
      have hlt := hlate _ htrue
      omega) with ⟨s₂, hs₂, hshows₂⟩
  have hword : ∀ c ∈ (0, arm) :: (1, header) :: cmds, wordAt s₂.m_trigWord c.1 = c.2 :=
    fun c hc => (hshows₂.commands c hc).2.1
  have h0 := hword (0, arm) List.mem_cons_self
  have h1 := hword (1, header) (List.mem_cons_of_mem _ List.mem_cons_self)
  have hrest := fun c hc => hword c (List.mem_cons_of_mem _ (List.mem_cons_of_mem _ hc))
  rw [hs₁, Option.bind_some, hs₂, Option.map_some]
  cases hsyn : loop.m_synPulse with
  | false =>
      have hshift : loop.shift = 0 := by
        unfold shift
        rw [hsyn]
        rfl
      rw [hshift]
      exact ⟨s₂, rfl, hrest, ⟨h1, h0⟩, fun hfalse => absurd hfalse (by decide),
        fun p hp => hshows₂.requests_iff hp⟩
  | true =>
      have hshift : loop.shift = 1 := by
        unfold shift
        rw [hsyn]
        rfl
      rw [hshift]
      refine ⟨setAutozeroPulse s₂, rfl, fun c hc => ?_, ⟨?_, ?_⟩, fun _ => ?_, fun p hp => ?_⟩
      · have hlt := (hcmds c hc).2
        rw [hshift] at hlt
        rw [wordAt_setAutozeroPulse s₂ hlt, if_neg (Nat.succ_ne_zero c.1)]
        exact hrest c hc
      · rw [wordAt_setAutozeroPulse s₂ (by decide)]
        exact h1
      · rw [wordAt_setAutozeroPulse s₂ (by decide)]
        exact h0
      · rw [wordAt_setAutozeroPulse s₂ (by decide)]
        rfl
      · exact requests_setAutozeroPulse hshows₂ hlate hp

end Rd53a2TriggerLoop

end Yarr.Rd53
