import Mathlib.Data.Int.Log
import Mathlib.Data.Rat.Floor
import Mathlib.Tactic.Linarith

/-!
# Rounding to a number of binary digits

Numbers are rounded to the nearest one with `p` binary digits, ties to even.
The exponent has no bounds.
-/

namespace Yarr.FloatRounding

/-- The nearest integer, the even one of two. -/
def nearestEven (x : ℚ) : ℤ :=
  if x - ⌊x⌋ < 1 / 2 then ⌊x⌋
  else if 1 / 2 < x - ⌊x⌋ then ⌊x⌋ + 1
  else if ⌊x⌋ % 2 = 0 then ⌊x⌋ else ⌊x⌋ + 1

theorem floor_le_nearestEven (x : ℚ) : ⌊x⌋ ≤ nearestEven x := by
  unfold nearestEven
  split
  · exact le_rfl
  · split
    · omega
    · split <;> omega

theorem le_nearestEven {n : ℤ} {x : ℚ} (h : n ≤ x) : n ≤ nearestEven x :=
  (Int.le_floor.mpr h).trans (floor_le_nearestEven x)

theorem nearestEven_intCast (n : ℤ) : nearestEven n = n := by
  simp [nearestEven]

theorem nearestEven_le {n : ℤ} {x : ℚ} (h : x ≤ n) : nearestEven x ≤ n := by
  rcases h.lt_or_eq with hlt | heq
  · have hfloor : ⌊x⌋ + 1 ≤ n := Int.floor_lt.mpr hlt
    unfold nearestEven
    split
    · omega
    · split
      · exact hfloor
      · split <;> omega
  · rw [heq, nearestEven_intCast]

variable (p : ℕ)

/-- How far the numbers with `p` digits are apart around a number. -/
def spacing (x : ℚ) : ℚ := 2 ^ (Int.log 2 |x| + 1 - p)

def round (x : ℚ) : ℚ := nearestEven (x / spacing p x) * spacing p x

/-- A number that needs no more than `p` digits. -/
def Representable (x : ℚ) : Prop := ∃ m k : ℤ, |m| < 2 ^ p ∧ x = m * 2 ^ k

theorem spacing_pos (x : ℚ) : 0 < spacing p x := zpow_pos two_pos _

@[simp] theorem round_zero : round p 0 = 0 := by
  have hzero : nearestEven 0 = 0 := nearestEven_intCast 0
  rw [round, zero_div, hzero, Int.cast_zero, zero_mul]

variable {p}

/-- A number with `p` digits is a multiple of the spacing of its binade. -/
theorem Representable.multiple {x : ℚ} (h : Representable p x) (hx : 0 < x) :
    ∃ n : ℤ, x = n * spacing p x := by
  rcases h with ⟨m, k, hm, hval⟩
  have hpow : (0 : ℚ) < 2 ^ k := zpow_pos two_pos k
  have hlow := Int.zpow_log_le_self (R := ℚ) one_lt_two hx
  have hhigh : x < 2 ^ ((p : ℤ) + k) := by
    have habs : (m : ℚ) < 2 ^ (p : ℤ) := by
      rw [zpow_natCast]
      exact_mod_cast (le_abs_self m).trans_lt hm
    rw [hval, zpow_add₀ two_ne_zero]
    exact mul_lt_mul_of_pos_right habs hpow
  have hlog : Int.log 2 x < (p : ℤ) + k :=
    (zpow_lt_zpow_iff_right₀ one_lt_two).mp (hlow.trans_lt hhigh)
  have hexp : k = ((k - (Int.log 2 x + 1 - p)).toNat : ℤ) + (Int.log 2 x + 1 - p) := by omega
  refine ⟨m * 2 ^ (k - (Int.log 2 x + 1 - p)).toNat, ?_⟩
  have hsplit : (2 : ℚ) ^ k = 2 ^ (k - (Int.log 2 x + 1 - p)).toNat *
      2 ^ (Int.log 2 x + 1 - p) := by
    conv_lhs => rw [hexp]
    rw [zpow_add₀ two_ne_zero, zpow_natCast]
  rw [spacing, abs_of_pos hx, Int.cast_mul, Int.cast_pow, Int.cast_ofNat, mul_assoc, ← hsplit]
  exact hval

theorem Representable.neg {x : ℚ} (h : Representable p x) : Representable p (-x) := by
  rcases h with ⟨m, k, hm, hval⟩
  refine ⟨-m, k, by rwa [abs_neg], ?_⟩
  rw [hval, Int.cast_neg, neg_mul]

theorem representable_div {n : ℤ} (hn : |n| < 2 ^ p) (k : ℕ) :
    Representable p ((n : ℚ) / 2 ^ k) := by
  refine ⟨n, -k, hn, ?_⟩
  rw [zpow_neg, zpow_natCast, div_eq_mul_inv]

theorem round_of_representable {x : ℚ} (h : Representable p x) : round p x = x := by
  have hmultiple : ∃ n : ℤ, x = n * spacing p x := by
    rcases lt_trichotomy x 0 with hneg | rfl | hpos
    · rcases h.neg.multiple (neg_pos.mpr hneg) with ⟨n, hn⟩
      have hsame : spacing p (-x) = spacing p x := by
        rw [spacing, spacing, abs_neg]
      refine ⟨-n, ?_⟩
      rw [Int.cast_neg, neg_mul, ← hsame, ← hn, neg_neg]
    · exact ⟨0, by simp⟩
    · exact h.multiple hpos
  rcases hmultiple with ⟨n, hn⟩
  have hdiv : x / spacing p x = n := by
    rw [div_eq_iff (spacing_pos p x).ne']
    exact hn
  rw [round, hdiv, nearestEven_intCast]
  exact hn.symm

theorem two_zpow_eq (hp : 0 < p) {x : ℚ} (hx : 0 < x) :
    (2 : ℚ) ^ Int.log 2 x = ((2 ^ (p - 1) : ℤ) : ℚ) * spacing p x ∧
      (2 : ℚ) ^ (Int.log 2 x + 1) = ((2 ^ p : ℤ) : ℚ) * spacing p x := by
  rw [spacing, abs_of_pos hx, Int.cast_pow, Int.cast_pow, Int.cast_ofNat, ← zpow_natCast,
    ← zpow_natCast, ← zpow_add₀ two_ne_zero, ← zpow_add₀ two_ne_zero]
  constructor
  · congr 1
    omega
  · congr 1
    omega

/-- Rounding does not pass a number with `p` digits on the way down. -/
theorem le_round (hp : 0 < p) {g y : ℚ} (hg : Representable p g) (hpos : 0 < g) (h : g ≤ y) :
    g ≤ round p y := by
  have hy := hpos.trans_le h
  have hspace := spacing_pos p y
  have hmono := Int.log_mono_right (b := 2) hpos h
  rcases hmono.lt_or_eq with hlt | heq
  · have hbinade := (two_zpow_eq hp hy).1
    have hlow := Int.zpow_log_le_self (R := ℚ) one_lt_two hy
    have hunits : ((2 ^ (p - 1) : ℤ) : ℚ) ≤ y / spacing p y := by
      rw [le_div_iff₀ hspace, ← hbinade]
      exact hlow
    have hround : (2 : ℚ) ^ Int.log 2 y ≤ round p y := by
      rw [hbinade, round]
      exact mul_le_mul_of_nonneg_right (by exact_mod_cast le_nearestEven hunits) hspace.le
    have hbelow : g < 2 ^ Int.log 2 y :=
      (Int.lt_zpow_succ_log_self one_lt_two g).trans_le
        (zpow_le_zpow_right₀ one_le_two hlt)
    exact hbelow.le.trans hround
  · rcases hg.multiple hpos with ⟨n, hn⟩
    have hsame : spacing p g = spacing p y := by
      rw [spacing, spacing, abs_of_pos hpos, abs_of_pos hy, heq]
    have hunits : (n : ℚ) ≤ y / spacing p y := by
      rw [le_div_iff₀ hspace, ← hsame, ← hn]
      exact h
    rw [hn, hsame, round]
    exact mul_le_mul_of_nonneg_right (by exact_mod_cast le_nearestEven hunits) hspace.le

theorem round_nonneg {y : ℚ} (h : 0 ≤ y) : 0 ≤ round p y := by
  have hunits : ((0 : ℤ) : ℚ) ≤ y / spacing p y := by
    rw [Int.cast_zero]
    exact div_nonneg h (spacing_pos p y).le
  have hnearest : (0 : ℚ) ≤ nearestEven (y / spacing p y) := by
    exact_mod_cast le_nearestEven hunits
  exact mul_nonneg hnearest (spacing_pos p y).le

/-- Rounding does not pass a number with `p` digits on the way up. -/
theorem round_le (hp : 0 < p) {g y : ℚ} (hg : Representable p g) (hpos : 0 < y) (h : y ≤ g) :
    round p y ≤ g := by
  have hg' := hpos.trans_le h
  have hspace := spacing_pos p y
  have hmono := Int.log_mono_right (b := 2) hpos h
  rcases hmono.lt_or_eq with hlt | heq
  · have hbinade := (two_zpow_eq hp hpos).2
    have hhigh := Int.lt_zpow_succ_log_self (R := ℚ) one_lt_two y
    have hunits : y / spacing p y ≤ ((2 ^ p : ℤ) : ℚ) := by
      rw [div_le_iff₀ hspace, ← hbinade]
      exact hhigh.le
    have hround : round p y ≤ 2 ^ (Int.log 2 y + 1) := by
      rw [hbinade, round]
      exact mul_le_mul_of_nonneg_right (by exact_mod_cast nearestEven_le hunits) hspace.le
    have habove : (2 : ℚ) ^ (Int.log 2 y + 1) ≤ g :=
      (zpow_le_zpow_right₀ one_le_two hlt).trans (Int.zpow_log_le_self one_lt_two hg')
    exact hround.trans habove
  · rcases hg.multiple hg' with ⟨n, hn⟩
    have hsame : spacing p g = spacing p y := by
      rw [spacing, spacing, abs_of_pos hpos, abs_of_pos hg', heq]
    have hunits : y / spacing p y ≤ (n : ℚ) := by
      rw [div_le_iff₀ hspace, ← hsame, ← hn]
      exact h
    rw [hn, hsame, round]
    exact mul_le_mul_of_nonneg_right (by exact_mod_cast nearestEven_le hunits) hspace.le

theorem round_multiple {y : ℚ} {e : ℤ} (hlow : (2 : ℚ) ^ e ≤ y) (hhigh : y < 2 ^ (e + 1)) :
    ∃ n : ℤ, round p y = n * 2 ^ (e + 1 - p) := by
  have hy : 0 < y := (zpow_pos two_pos e).trans_le hlow
  have hge : e ≤ Int.log 2 y := (Int.zpow_le_iff_le_log one_lt_two hy).mp hlow
  have hlt : Int.log 2 y < e + 1 := (Int.lt_zpow_iff_log_lt one_lt_two hy).mp hhigh
  have hlog : Int.log 2 y = e := by omega
  refine ⟨nearestEven (y / spacing p y), ?_⟩
  rw [round, spacing, abs_of_pos hy, hlog]

end Yarr.FloatRounding

/-!
## Single precision

Rounding to 24 significant bits, to the nearest value and in a tie to the even
one. Values are rational numbers that are not negative; there is no overflow.
-/

namespace Yarr.Single

/-- The nearest integer, the even one of two. -/
def nearestEven (x : ℚ) : ℤ :=
  if Int.fract x < 1 / 2 ∨ (Int.fract x = 1 / 2 ∧ ⌊x⌋ % 2 = 0) then ⌊x⌋ else ⌊x⌋ + 1

/-- The value of the last of 24 bits. -/
def ulp (x : ℚ) : ℚ := 2 ^ (Int.log 2 x - 23)

def round (x : ℚ) : ℚ := if x ≤ 0 then 0 else nearestEven (x / ulp x) * ulp x

/-- `static_cast<float>`. -/
def ofNat (n : Nat) : ℚ := round n

/-- The quotient of two floats, rounded up. -/
def ceilDiv (x y : ℚ) : ℤ := ⌈round (x / y)⌉

theorem nearestEven_mem (x : ℚ) : nearestEven x = ⌊x⌋ ∨ nearestEven x = ⌊x⌋ + 1 := by
  unfold nearestEven
  split
  · exact Or.inl rfl
  · exact Or.inr rfl

theorem ulp_pos (x : ℚ) : 0 < ulp x := zpow_pos (by decide) _

theorem le_nearestEven {x : ℚ} {n : ℤ} (h : (n : ℚ) ≤ x) : n ≤ nearestEven x := by
  have hfloor : n ≤ ⌊x⌋ := Int.le_floor.mpr h
  rcases nearestEven_mem x with heq | heq <;> omega

theorem nearestEven_intCast (n : ℤ) : nearestEven (n : ℚ) = n := by
  unfold nearestEven
  rw [Int.fract_intCast, Int.floor_intCast]
  exact if_pos (Or.inl (by norm_num))

theorem round_pos {x : ℚ} (hx : 0 < x) : 0 < round x := by
  have hlow : (2 : ℚ) ^ Int.log 2 x ≤ x := Int.zpow_log_le_self (by decide) hx
  have hone : ((1 : ℤ) : ℚ) ≤ x / ulp x := by
    rw [le_div_iff₀ (ulp_pos x), Int.cast_one, one_mul]
    exact le_trans (zpow_le_zpow_right₀ (by decide) (by omega)) hlow
  have hpos : 0 < nearestEven (x / ulp x) := Int.lt_of_lt_of_le (by decide) (le_nearestEven hone)
  unfold round
  rw [if_neg (not_le.mpr hx)]
  exact mul_pos (by exact_mod_cast hpos) (ulp_pos x)

/-! ## Integers -/

theorem exists_div_ulp {x : ℚ} (hx : 0 < x) (hlt : x < 16777216) (n : ℤ) :
    ∃ k : ℤ, (n : ℚ) / ulp x = k := by
  have hlog : Int.log 2 x ≤ 23 := by
    have hpow : x < (2 : ℚ) ^ (24 : ℤ) := by
      norm_num
      exact hlt
    have hlt24 := (Int.lt_zpow_iff_log_lt (by decide : 1 < 2) hx).mp hpow
    omega
  have hnat : Int.log 2 x - 23 = -((23 - Int.log 2 x).toNat : ℤ) := by omega
  have hulp : ulp x = ((2 : ℚ) ^ (23 - Int.log 2 x).toNat)⁻¹ := by
    rw [ulp, hnat, zpow_neg, zpow_natCast]
  have hvalue : (n : ℚ) / ulp x = ((n * 2 ^ (23 - Int.log 2 x).toNat : ℤ) : ℚ) := by
    rw [hulp, div_inv_eq_mul]
    push_cast
    rfl
  exact ⟨_, hvalue⟩

theorem nearestEven_le {x : ℚ} {n : ℤ} (h : x ≤ n) : nearestEven x ≤ n := by
  have hfloor : ⌊x⌋ ≤ n := by
    exact_mod_cast le_trans (Int.floor_le x) h
  by_cases heq : ⌊x⌋ = n
  · have hx : x = n := by
      apply le_antisymm h
      rw [← heq]
      exact Int.floor_le x
    rw [hx, nearestEven_intCast]
  · rcases nearestEven_mem x with hnearest | hnearest <;> omega

theorem lt_nearestEven {x : ℚ} {n : ℤ} (h : (n : ℚ) + 1 / 2 < x) : n < nearestEven x := by
  have hfloor : n ≤ ⌊x⌋ := Int.le_floor.mpr (by linarith)
  by_cases heq : ⌊x⌋ = n
  · have hfract : ¬(Int.fract x < 1 / 2 ∨ (Int.fract x = 1 / 2 ∧ ⌊x⌋ % 2 = 0)) := by
      have hbig : 1 / 2 < Int.fract x := by
        rw [Int.fract, heq]
        linarith
      rintro (hsmall | ⟨htie, _⟩) <;> linarith
    unfold nearestEven
    rw [if_neg hfract]
    omega
  · rcases nearestEven_mem x with hnearest | hnearest <;> omega

theorem round_intCast {n : ℤ} (hpos : 0 < n) (hlt : n < 16777216) : round n = n := by
  have hn : (0 : ℚ) < n := by exact_mod_cast hpos
  rcases exists_div_ulp hn (by exact_mod_cast hlt) n with ⟨k, hk⟩
  unfold round
  rw [if_neg (not_le.mpr hn), hk, nearestEven_intCast, ← hk, div_mul_cancel₀ _ (ulp_pos _).ne']

theorem ofNat_eq {n : Nat} (h : n < 16777216) : ofNat n = n := by
  by_cases hn : n = 0
  · rw [hn, ofNat, Nat.cast_zero]
    exact if_pos (le_refl 0)
  · have hround := round_intCast (n := (n : ℤ)) (by omega) (by omega)
    exact_mod_cast hround

/-- The quotient of small integers is rounded up as if it were exact. -/
theorem ceilDiv_ofNat {a b : Nat} (ha : a < 16777216) (hb : 0 < b) (hb' : b < 16777216) :
    ceilDiv (ofNat a) (ofNat b) = ⌈(a : ℚ) / b⌉ := by
  unfold ceilDiv
  rw [ofNat_eq ha, ofNat_eq hb']
  by_cases hzero : a = 0
  · rw [hzero]
    simp [round]
  · have hbpos : (0 : ℚ) < b := by exact_mod_cast hb
    have hapos : (0 : ℚ) < a := by exact_mod_cast Nat.pos_of_ne_zero hzero
    have hx : (0 : ℚ) < a / b := div_pos hapos hbpos
    have hone : (1 : ℚ) ≤ b := by exact_mod_cast hb
    have hle : (a : ℚ) / b ≤ a := div_le_self hapos.le hone
    have hlt : (a : ℚ) / b < 16777216 := lt_of_le_of_lt hle (by exact_mod_cast ha)
    have hupos := ulp_pos ((a : ℚ) / b)
    have hround : round ((a : ℚ) / b) = nearestEven (a / b / ulp (a / b)) * ulp (a / b) :=
      if_neg (not_le.mpr hx)
    rw [Int.ceil_eq_iff, hround]
    have hceil := Int.le_ceil ((a : ℚ) / b)
    have hbelow : (⌈(a : ℚ) / b⌉ : ℚ) - 1 < a / b := by
      have hlt := Int.ceil_lt_add_one ((a : ℚ) / b)
      linarith
    constructor
    · rcases exists_div_ulp hx hlt (⌈(a : ℚ) / b⌉ - 1) with ⟨k, hk⟩
      -- what is above the integer below is at least one part of the divisor
      have hstep : (1 : ℚ) / b ≤ a / b - (⌈(a : ℚ) / b⌉ - 1) := by
        have hnum : (⌈(a : ℚ) / b⌉ - 1) * (b : ℤ) + 1 ≤ (a : ℤ) := by
          have hmul : ((⌈(a : ℚ) / b⌉ : ℚ) - 1) * b < a := by
            rwa [lt_div_iff₀ hbpos] at hbelow
          have hint : (⌈(a : ℚ) / b⌉ - 1) * (b : ℤ) < (a : ℤ) := by
            exact_mod_cast hmul
          omega
        have hnum' : ((⌈(a : ℚ) / b⌉ : ℚ) - 1) * b + 1 ≤ a := by
          exact_mod_cast hnum
        have hquot : ((⌈(a : ℚ) / b⌉ : ℚ) - 1) + 1 / b ≤ a / b := by
          rw [le_div_iff₀ hbpos, add_mul, div_mul_cancel₀ _ hbpos.ne']
          exact hnum'
        linarith
      have hhalf : ulp ((a : ℚ) / b) / 2 < 1 / b := by
        have hlow : (2 : ℚ) ^ Int.log 2 ((a : ℚ) / b) ≤ a / b := Int.zpow_log_le_self (by decide) hx
        have hscale : ulp ((a : ℚ) / b) / 2 = 2 ^ Int.log 2 ((a : ℚ) / b) / 16777216 := by
          rw [ulp, zpow_sub₀ (by norm_num)]
          norm_num
          ring
        have ha' : (a : ℚ) < 16777216 := by exact_mod_cast ha
        rw [hscale, div_lt_div_iff₀ (by norm_num) hbpos]
        have hmul : (2 : ℚ) ^ Int.log 2 ((a : ℚ) / b) * b ≤ a := by
          rwa [le_div_iff₀ hbpos] at hlow
        linarith
      have hk' : (k : ℚ) * ulp ((a : ℚ) / b) = ⌈(a : ℚ) / b⌉ - 1 := by
        rw [← hk, div_mul_cancel₀ _ hupos.ne']
        push_cast
        rfl
      have hmiddle : (k : ℚ) + 1 / 2 < a / b / ulp (a / b) := by
        rw [lt_div_iff₀ hupos, add_mul, hk']
        linarith
      rw [← hk']
      apply mul_lt_mul_of_pos_right _ hupos
      exact_mod_cast lt_nearestEven hmiddle
    · rcases exists_div_ulp hx hlt ⌈(a : ℚ) / b⌉ with ⟨k, hk⟩
      have hquot : (a : ℚ) / b / ulp (a / b) ≤ k := by
        rw [← hk]
        exact div_le_div_of_nonneg_right hceil hupos.le
      rw [← div_mul_cancel₀ (⌈(a : ℚ) / b⌉ : ℚ) hupos.ne', hk]
      apply mul_le_mul_of_nonneg_right _ hupos.le
      exact_mod_cast nearestEven_le hquot

end Yarr.Single
