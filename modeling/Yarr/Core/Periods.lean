import Mathlib.Algebra.Ring.Nat
import Mathlib.Data.List.Basic
import Mathlib.Data.List.Count
import Mathlib.Data.List.Nodup
import Mathlib.Data.List.Range
import Mathlib.Data.Nat.Log

/-!
# Numbers at equal distances

The numbers below `step * count` that leave the remainder `first` are reached
from `first` in steps of `step`.
-/

namespace Yarr.Stride

/-- Of the numbers below `step` one is equal to `first`. -/
theorem filter_range_eq {step first : Nat} (h : first < step) :
    (List.range step).filter (fun n => n = first) = [first] := by
  have hcount : (List.range step).count first = 1 :=
    List.count_eq_one_of_mem List.nodup_range (List.mem_range.mpr h)
  rw [List.filter_eq, hcount]
  rfl

theorem filter_range_mod {step first : Nat} (h : first < step) (count : Nat) :
    (List.range (step * count)).filter (fun n => n % step = first) =
      (List.range count).map (fun i => first + step * i) := by
  induction count with
  | zero => simp
  | succ count ih =>
      have hlast : (fun n => decide ((step * count + n) % step = first)) =
          fun n => decide (n % step = first) := by
        funext n
        rw [Nat.mul_add_mod]
      have hsmall : (List.range step).filter (fun n => n % step = first) = [first] := by
        rw [← filter_range_eq h]
        apply List.filter_congr
        intro n hn
        rw [Nat.mod_eq_of_lt (List.mem_range.mp hn)]
      rw [Nat.mul_succ, List.range_add, List.filter_append, ih, List.range_succ, List.map_append,
        List.filter_map, Function.comp_def, hlast, hsmall]
      simp [Nat.add_comm]

end Yarr.Stride

/-!
## A step that is halved down to one

The step of each round of a search, and the round from which on it is one.
-/

namespace Yarr

/-- The step of a round. -/
def halved (start k : Nat) : Nat := max 1 (start / 2 ^ k)

theorem halved_zero {start : Nat} (hstart : 0 < start) : halved start 0 = start := by
  unfold halved
  rw [Nat.pow_zero, Nat.div_one]
  exact Nat.max_eq_right hstart

theorem halved_succ (start k : Nat) : halved start (k + 1) = max 1 (halved start k / 2) := by
  unfold halved
  rw [Nat.pow_succ, ← Nat.div_div_eq_div_mul]
  omega

theorem halved_eq_one_iff {start : Nat} (hstart : 0 < start) (k : Nat) :
    halved start k = 1 ↔ Nat.log 2 start ≤ k := by
  have hdiv : start / 2 ^ k < 2 ↔ Nat.log 2 start < k + 1 := by
    rw [Nat.div_lt_iff_lt_mul (Nat.two_pow_pos k), Nat.mul_comm, ← Nat.pow_succ]
    exact (Nat.log_lt_iff_lt_pow (by decide) (Nat.ne_of_gt hstart)).symm
  unfold halved
  constructor
  · intro hone
    exact Nat.le_of_lt_succ (hdiv.mp (by omega))
  · intro hle
    have hlt := hdiv.mpr (Nat.lt_succ_of_le hle)
    omega

end Yarr

/-!
## Periods of lists

A list has a period if it agrees with itself shifted. One whose length is a
multiple of a period is its first part, repeated.
-/

namespace Yarr.Periods

variable {α : Type}

/-- The list agrees with itself from place `p` on. -/
def HasPeriod (p : Nat) (v : List α) : Prop := v.drop p <+: v

theorem hasPeriod_iff {p : Nat} {v : List α} :
    HasPeriod p v ↔ ∀ i, i + p < v.length → v[i + p]? = v[i]? := by
  unfold HasPeriod
  rw [List.prefix_iff_getElem?]
  constructor
  · intro h i hi
    have hlt : i < (v.drop p).length := by
      rw [List.length_drop]
      omega
    have hget := h i hlt
    rw [List.getElem_drop] at hget
    rw [hget, List.getElem?_eq_getElem hi]
    congr 2
    omega
  · intro h i hi
    rw [List.length_drop] at hi
    rw [← h i (by omega), List.getElem?_eq_getElem (by omega), List.getElem_drop]
    congr 2
    omega

theorem HasPeriod.drop {p : Nat} {v : List α} (h : HasPeriod p v) : HasPeriod p (v.drop p) := by
  rw [hasPeriod_iff] at h ⊢
  intro i hi
  rw [List.length_drop] at hi
  rw [List.getElem?_drop, List.getElem?_drop, ← Nat.add_assoc]
  exact h (p + i) (by omega)

theorem HasPeriod.take_drop {p : Nat} {v : List α} (h : HasPeriod p v) (hlen : 2 * p ≤ v.length) :
    (v.drop p).take p = v.take p := by
  rw [List.prefix_iff_eq_take.mp h, List.take_take]
  congr 1
  rw [List.length_drop]
  omega

theorem HasPeriod.eq_repeated {p k : Nat} {v : List α} (h : HasPeriod p v)
    (hlen : v.length = k * p) : v = (List.replicate k (v.take p)).flatten := by
  induction k generalizing v with
  | zero =>
      rw [Nat.zero_mul] at hlen
      rw [List.length_eq_zero_iff.mp hlen]
      rfl
  | succ k ih =>
      rw [Nat.succ_mul] at hlen
      have hrest := ih h.drop (by rw [List.length_drop]; omega)
      rw [List.replicate_succ, List.flatten_cons]
      cases k with
      | zero =>
          rw [List.take_of_length_le (by omega)]
          simp
      | succ k =>
          have hk : (k + 1) * p = k * p + p := Nat.succ_mul k p
          rw [h.take_drop (by omega)] at hrest
          rw [← hrest, List.take_append_drop]

end Yarr.Periods
