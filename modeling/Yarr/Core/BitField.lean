import Mathlib.Data.Nat.Bitwise

/-!
# Bit fields

A field is a run of bits of a machine word. Writing it replaces these bits and
no others, so fields that share no bit do not disturb each other, and fields
that cover a bit together do.
-/

namespace Yarr

structure BitField (w : Nat) where
  offset : Nat
  bits : Nat
  fits : offset + bits ≤ w

namespace BitField

variable {w : Nat} (f : BitField w)

def mask : BitVec w := BitVec.ofNat w (2 ^ f.bits - 1)

def read (x : BitVec w) : BitVec w := (x >>> f.offset) &&& f.mask

def write (x v : BitVec w) : BitVec w :=
  (x &&& ~~~(f.mask <<< f.offset)) ||| ((v &&& f.mask) <<< f.offset)

/-- The field covers bit `i` of the word. -/
def Covers (i : Nat) : Prop := f.offset ≤ i ∧ i < f.offset + f.bits

instance (i : Nat) : Decidable (f.Covers i) := inferInstanceAs (Decidable (_ ∧ _))

theorem getLsbD_mask (i : Nat) : f.mask.getLsbD i = decide (i < f.bits) := by
  have hfits := f.fits
  rw [mask, BitVec.getLsbD_ofNat, Nat.testBit_two_pow_sub_one]
  by_cases hi : i < f.bits
  · simp [hi]; omega
  · simp [hi]

theorem getLsbD_read (x : BitVec w) (i : Nat) :
    (f.read x).getLsbD i = (decide (i < f.bits) && x.getLsbD (f.offset + i)) := by
  rw [read, BitVec.getLsbD_and, BitVec.getLsbD_ushiftRight, getLsbD_mask, Bool.and_comm]

theorem getLsbD_write (x v : BitVec w) (i : Nat) :
    (f.write x v).getLsbD i =
      if f.Covers i then v.getLsbD (i - f.offset) else x.getLsbD i := by
  have hfits := f.fits
  simp only [write, BitVec.getLsbD_or, BitVec.getLsbD_and, BitVec.getLsbD_not,
    BitVec.getLsbD_shiftLeft, getLsbD_mask]
  by_cases hi : i < w
  · by_cases hcov : f.Covers i
    · obtain ⟨hlow, hhigh⟩ := hcov
      have hin : i - f.offset < f.bits := by omega
      have hnot : ¬ i < f.offset := by omega
      simp [Covers, hi, hlow, hhigh, hin, hnot]
    · rw [if_neg hcov]
      simp only [Covers] at hcov
      by_cases hlow : i < f.offset
      · simp [hi, hlow]
      · have hin : ¬ i - f.offset < f.bits := by omega
        simp [hi, hlow, hin]
  · have hcov : ¬ f.Covers i := by
      simp only [Covers]
      omega
    simp [hcov, hi, BitVec.getLsbD_of_ge x i (by omega)]

theorem read_write (x v : BitVec w) : f.read (f.write x v) = v &&& f.mask := by
  apply BitVec.eq_of_getLsbD_eq
  intro i _
  rw [getLsbD_read, getLsbD_write, BitVec.getLsbD_and, getLsbD_mask]
  by_cases hi : i < f.bits
  · have hcov : f.Covers (f.offset + i) := ⟨by omega, by omega⟩
    rw [if_pos hcov, Nat.add_sub_cancel_left, Bool.and_comm]
  · simp [hi]

theorem toNat_and_mask (v : BitVec w) : (v &&& f.mask).toNat = v.toNat % 2 ^ f.bits := by
  have hlt : 2 ^ f.bits - 1 < 2 ^ w := by
    have hpow := Nat.pow_le_pow_right (by omega : 0 < 2) (Nat.le_of_add_left_le f.fits)
    have hpos := Nat.two_pow_pos f.bits
    omega
  rw [BitVec.toNat_and, mask, BitVec.toNat_ofNat, Nat.mod_eq_of_lt hlt,
    Nat.and_two_pow_sub_one_eq_mod]

theorem read_congr {x y : BitVec w} (h : ∀ i, f.Covers i → x.getLsbD i = y.getLsbD i) :
    f.read x = f.read y := by
  apply BitVec.eq_of_getLsbD_eq
  intro i _
  rw [getLsbD_read, getLsbD_read]
  by_cases hi : i < f.bits
  · rw [h (f.offset + i) ⟨by omega, by omega⟩]
  · simp [hi]

theorem write_eq_self_iff (x v : BitVec w) : f.write x v = x ↔ v &&& f.mask = f.read x := by
  constructor
  · intro h
    rw [← read_write f x v, h]
  · intro h
    apply BitVec.eq_of_getLsbD_eq
    intro i _
    rw [getLsbD_write]
    by_cases hcov : f.Covers i
    · obtain ⟨hlow, hhigh⟩ := hcov
      have hin : i - f.offset < f.bits := by omega
      have hback : f.offset + (i - f.offset) = i := by omega
      have hbit := congrArg (fun y => y.getLsbD (i - f.offset)) h
      simp only [BitVec.getLsbD_and, getLsbD_mask, getLsbD_read, hin, hback, decide_true,
        Bool.and_true, Bool.true_and] at hbit
      rw [if_pos ⟨hlow, hhigh⟩, hbit]
    · rw [if_neg hcov]

theorem read_write_of_apart {f g : BitField w} (h : ∀ i, f.Covers i → ¬g.Covers i)
    (x v : BitVec w) : f.read (g.write x v) = f.read x := by
  apply read_congr
  intro i hi
  rw [getLsbD_write, if_neg (h i hi)]

/-- The bits of `mask` taken from one word and the others from another. -/
def merge (x mask tmp : BitVec w) : BitVec w := (x &&& ~~~mask) ||| tmp

theorem merge_zero (x : BitVec w) : merge x 0 0 = x := by
  unfold merge
  apply BitVec.eq_of_getLsbD_eq
  intro i hi
  simp [hi]

theorem merge_write (x mask tmp v : BitVec w) :
    merge x (f.write mask f.mask) (f.write tmp v) = f.write (merge x mask tmp) v := by
  apply BitVec.eq_of_getLsbD_eq
  intro i hi
  unfold merge
  rw [BitVec.getLsbD_or, BitVec.getLsbD_and, BitVec.getLsbD_not, getLsbD_write, getLsbD_write,
    getLsbD_write]
  by_cases hcov : f.Covers i
  · have hin : i - f.offset < f.bits := by
      have hlow := hcov.1
      have hhigh := hcov.2
      omega
    rw [if_pos hcov, if_pos hcov, if_pos hcov, getLsbD_mask]
    simp [hin]
  · rw [if_neg hcov, if_neg hcov, if_neg hcov, BitVec.getLsbD_or, BitVec.getLsbD_and,
      BitVec.getLsbD_not]

end BitField

/-! ## Many fields at once -/

/-- No bit is set in two of the maps, nor in one of them and in `seen`. -/
def disjointMaps : Nat → List Nat → Bool
  | _, [] => true
  | seen, m :: ms => (seen &&& m == 0) && disjointMaps (seen ||| m) ms

theorem and_eq_zero_of_disjointMaps {seen : Nat} {ms : List Nat} (h : disjointMaps seen ms = true) :
    ∀ m ∈ ms, seen &&& m = 0 := by
  induction ms generalizing seen with
  | nil => exact fun m hm => absurd hm List.not_mem_nil
  | cons m ms ih =>
      obtain ⟨hfirst, hrest⟩ := Bool.and_eq_true_iff.mp h
      intro n hn
      rcases List.mem_cons.mp hn with rfl | hn
      · exact beq_iff_eq.mp hfirst
      · have hboth := ih hrest n hn
        rw [Nat.and_or_distrib_right] at hboth
        exact (Nat.or_eq_zero_iff.mp hboth).1

theorem pairwise_of_disjointMaps {seen : Nat} {ms : List Nat} (h : disjointMaps seen ms = true) :
    ms.Pairwise fun a b => a &&& b = 0 := by
  induction ms generalizing seen with
  | nil => exact List.Pairwise.nil
  | cons m ms ih =>
      obtain ⟨-, hrest⟩ := Bool.and_eq_true_iff.mp h
      apply List.pairwise_cons.mpr
      constructor
      · intro n hn
        have hboth := and_eq_zero_of_disjointMaps hrest n hn
        rw [Nat.and_or_distrib_right] at hboth
        exact (Nat.or_eq_zero_iff.mp hboth).2
      · exact ih hrest

theorem testBit_run {offset width i : Nat} (hlow : offset ≤ i) (hhigh : i < offset + width) :
    ((2 ^ width - 1) <<< offset).testBit i = true := by
  rw [Nat.testBit_shiftLeft, Nat.testBit_two_pow_sub_one, decide_eq_true hlow,
    decide_eq_true (by omega)]
  rfl

theorem nodup_of_disjointMaps {α : Type*} {place : α → Nat} {l : List α}
    (h : disjointMaps 0 (l.map fun a => 2 ^ place a) = true) : l.Nodup := by
  have hpairs := List.pairwise_map.mp (pairwise_of_disjointMaps h)
  refine hpairs.imp fun {a b} hab heq => ?_
  rw [heq, Nat.and_self] at hab
  exact absurd hab (Nat.two_pow_pos _).ne'

end Yarr
