import Mathlib.Algebra.Group.Basic
import Mathlib.Algebra.Order.Floor.Semiring
import Mathlib.Data.List.Range
import Mathlib.Tactic.FieldSimp
import Mathlib.Tactic.Linarith
import Mathlib.Tactic.Positivity

/-!
# Bins of equal width

Half-open intervals of one width, one behind the other. The bin of a point is
the floor of its distance in widths.
-/

namespace Yarr.EqualBins

variable {K : Type} [Field K] [LinearOrder K] [IsStrictOrderedRing K] [FloorSemiring K]

/-- The number of the bin of a point. -/
def place (low width x : K) : ℕ := ⌊(x - low) / width⌋₊

/-- The point is in the bin. -/
def Holds (low width : K) (i : ℕ) (x : K) : Prop :=
  low + i * width ≤ x ∧ x < low + (i + 1) * width

variable {low width x : K}

theorem holds_iff_place (hwidth : 0 < width) (hx : low ≤ x) (i : ℕ) :
    Holds low width i x ↔ place low width x = i := by
  have hnonneg : 0 ≤ (x - low) / width := div_nonneg (sub_nonneg.mpr hx) hwidth.le
  rw [place, Nat.floor_eq_iff hnonneg, le_div_iff₀ hwidth, div_lt_iff₀ hwidth]
  unfold Holds
  constructor
  · rintro ⟨hle, hlt⟩
    exact ⟨by linarith, by linarith⟩
  · rintro ⟨hle, hlt⟩
    exact ⟨by linarith, by linarith⟩

theorem holds_place (hwidth : 0 < width) (hx : low ≤ x) : Holds low width (place low width x) x :=
  (holds_iff_place hwidth hx _).mpr rfl

theorem place_lt_iff (hwidth : 0 < width) (hx : low ≤ x) {n : ℕ} :
    place low width x < n ↔ x < low + n * width := by
  have hnonneg : 0 ≤ (x - low) / width := div_nonneg (sub_nonneg.mpr hx) hwidth.le
  rw [place, Nat.floor_lt hnonneg, div_lt_iff₀ hwidth]
  constructor
  · intro hlt
    linarith
  · intro hlt
    linarith

omit [FloorSemiring K] in
/-- The bins of an interval that is cut into `n` of them end with it. -/
theorem end_of_cut {high : K} {n : ℕ} (hn : 0 < n) :
    low + n * ((high - low) / n) = high := by
  have hne : (n : K) ≠ 0 := Nat.cast_ne_zero.mpr hn.ne'
  rw [mul_div_cancel₀ _ hne]
  exact add_sub_cancel low high

omit [FloorSemiring K] in
theorem width_of_cut {high : K} {n : ℕ} (hn : 0 < n) (hlt : low < high) :
    0 < (high - low) / n :=
  div_pos (sub_pos.mpr hlt) (Nat.cast_pos.mpr hn)

end Yarr.EqualBins

/-!
## Bins that entries slip out of

Entries are added one after the other, the `k`-th to bin `k`, or to the bin
below once the entries have come too far behind their bins.
-/

namespace Yarr.ShiftedBins

variable {M : Type} [AddMonoid M] (own : Nat → Prop) [DecidablePred own] (entry : Nat → M)

/-- The bin of the `k`-th entry. -/
def place (k : Nat) : Nat := if own k then k else k - 1

def filled (size n : Nat) : List M :=
  (List.range n).foldl (fun data k => data.modify (place own k) (· + entry k))
    (List.replicate size 0)

theorem filled_succ (size n : Nat) : filled own entry size (n + 1) =
    (filled own entry size n).modify (place own n) (· + entry n) := by
  unfold filled
  rw [List.range_succ, List.foldl_append]
  rfl

theorem length_filled (size n : Nat) : (filled own entry size n).length = size := by
  induction n with
  | zero => exact List.length_replicate
  | succ n ih => rw [filled_succ, List.length_modify, ih]

variable {own entry}

theorem place_le (k : Nat) : place own k ≤ k := by
  unfold place
  split
  · exact le_refl k
  · exact Nat.sub_le k 1

theorem getD_modify {data : List M} {i : Nat} (f : M → M) {j : Nat} (hj : j < data.length) :
    (data.modify i f).getD j 0 = if i = j then f (data.getD j 0) else data.getD j 0 := by
  rw [List.getD_eq_getElem?_getD, List.getElem?_modify, List.getD_eq_getElem?_getD,
    List.getElem?_eq_getElem hj]
  split <;> rfl

/-- A bin holds its own entry, and the next one if that slipped. -/
theorem getD_filled (hzero : own 0) {size : Nat} (n : Nat) {j : Nat} (hj : j < size) :
    (filled own entry size n).getD j 0 =
      (if own j ∧ j < n then entry j else 0) +
        (if ¬own (j + 1) ∧ j + 1 < n then entry (j + 1) else 0) := by
  induction n with
  | zero => simp [filled, hj]
  | succ n ih =>
      have hlength : j < (filled own entry size n).length := by rwa [length_filled]
      rw [filled_succ, getD_modify _ hlength, ih]
      by_cases hown : own n
      · have hplace : place own n = n := if_pos hown
        rw [hplace]
        by_cases hn : n = j
        · subst hn
          have hbehind : ¬n + 1 < n := by omega
          simp [hown, hbehind]
        · have hlt : j < n + 1 ↔ j < n := by omega
          have hnext : (¬own (j + 1) ∧ j + 1 < n + 1) ↔ (¬own (j + 1) ∧ j + 1 < n) := by
            by_cases heq : j + 1 = n
            · rw [heq]
              simp [hown]
            · have : j + 1 < n + 1 ↔ j + 1 < n := by omega
              rw [this]
          rw [if_neg hn]
          simp only [hlt, hnext]
      · have hplace : place own n = n - 1 := if_neg hown
        have hpos : n ≠ 0 := by
          rintro rfl
          exact hown hzero
        rw [hplace]
        by_cases hn : n - 1 = j
        · have hn' : n = j + 1 := by omega
          subst hn'
          have hbefore : j < j + 1 + 1 := by omega
          simp [hown, hbefore]
        · have hlt : (own j ∧ j < n + 1) ↔ (own j ∧ j < n) := by
            by_cases heq : j = n
            · rw [heq]
              simp [hown]
            · have : j < n + 1 ↔ j < n := by omega
              rw [this]
          have hnext : j + 1 < n + 1 ↔ j + 1 < n := by omega
          rw [if_neg hn]
          simp only [hlt, hnext]

/-- The bins hold the entries in their order exactly when all that slipped are zero. -/
theorem filled_eq_iff (hzero : own 0) (hdown : ∀ k, own (k + 1) → own k) (n : Nat) :
    filled own entry n n = (List.range n).map entry ↔ ∀ k < n, own k ∨ entry k = 0 := by
  have hpoint : filled own entry n n = (List.range n).map entry ↔
      ∀ j < n, (filled own entry n n).getD j 0 = entry j := by
    apply Iff.intro
    · intro heq j hj
      rw [heq]
      simp [hj]
    · intro heq
      apply List.ext_getElem
      · rw [length_filled, List.length_map, List.length_range]
      · intro j hj hj'
        have hjn : j < n := by rwa [length_filled] at hj
        have hget := heq j hjn
        rw [List.getD_eq_getElem?_getD, List.getElem?_eq_getElem hj] at hget
        simpa using hget
  rw [hpoint]
  apply Iff.intro
  · intro heq
    -- from the last bin, which holds nothing but its own entry, downwards
    have hback : ∀ d k, k + d + 1 = n → own k ∨ entry k = 0 := by
      intro d
      induction d with
      | zero =>
          intro k hk
          have hget := heq k (by omega)
          have hlast : ¬(¬own (k + 1) ∧ k + 1 < n) := by omega
          rw [getD_filled hzero n (by omega), if_neg hlast, add_zero] at hget
          by_cases hown : own k
          · exact Or.inl hown
          · rw [if_neg (by simp [hown])] at hget
            exact Or.inr hget.symm
      | succ d ih =>
          intro k hk
          have hget := heq k (by omega)
          rw [getD_filled hzero n (by omega)] at hget
          by_cases hown : own k
          · exact Or.inl hown
          · have hnext : ¬own (k + 1) := fun h => hown (hdown k h)
            rcases ih (k + 1) (by omega) with h | h
            · exact absurd h hnext
            · rw [if_neg (by simp [hown]), if_pos ⟨hnext, by omega⟩, h, add_zero] at hget
              exact Or.inr hget.symm
    intro k hk
    exact hback (n - k - 1) k (by omega)
  · intro hown j hj
    rw [getD_filled hzero n hj]
    have hfirst : (if own j ∧ j < n then entry j else 0) = entry j := by
      by_cases h : own j
      · exact if_pos ⟨h, hj⟩
      · rw [if_neg (by simp [h])]
        exact ((hown j hj).resolve_left h).symm
    have hsecond : (if ¬own (j + 1) ∧ j + 1 < n then entry (j + 1) else 0) = 0 := by
      split
      · rename_i h
        exact (hown (j + 1) h.2).resolve_left h.1
      · rfl
    rw [hfirst, hsecond, add_zero]

end Yarr.ShiftedBins
