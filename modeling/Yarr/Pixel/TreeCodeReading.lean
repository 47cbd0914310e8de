import Mathlib.Algebra.Ring.Nat
import Yarr.Pixel.TreeCode

/-!
# Reading the tree code back

What the encoder's tables hold: for every part with a hit, the pair of its two
parts. A processor looks the code up in windows of a fixed size. It gets the
map back and knows how many bits of its windows were not part of the code.
-/

namespace Yarr.Bits

theorem valueOf_lt (bits : List Bool) : valueOf bits < 2 ^ bits.length := by
  induction bits with
  | nil => exact Nat.one_pos
  | cons b bits ih =>
      rw [valueOf_cons, List.length_cons, Nat.pow_succ]
      cases b <;> simp <;> omega

theorem bitsOf_valueOf (bits : List Bool) : bitsOf bits.length (valueOf bits) = bits := by
  induction bits with
  | nil => rfl
  | cons b bits ih =>
      have hlow := valueOf_lt bits
      have hbit : bitsOf 1 b.toNat = [b] := by cases b <;> rfl
      rw [valueOf_cons, List.length_cons, Nat.add_comm, ← bitsOf_append 1 _ _ _ hlow, ih, hbit]
      rfl

end Yarr.Bits

namespace Yarr.Pixel.TreeCode

open Bits

/-- A pair as it is sent. A part without a hit has no pair. -/
def pairCode : Bool × Bool → List Bool
  | (true, b) => [true, b]
  | (false, true) => [false]
  | (false, false) => []

/-- Which of two neighbouring parts of a map, `width` pixels each, hold a hit. -/
def parts (m first width : Nat) : Bool × Bool :=
  (m / 2 ^ first % 2 ^ width != 0, m / 2 ^ (first + width) % 2 ^ width != 0)

def rowCode (m : Nat) : List Bool :=
  pairCode (parts m 0 4) ++ (pairCode (parts m 0 2) ++ (pairCode (parts m 4 2) ++
    (pairCode (parts m 0 1) ++ (pairCode (parts m 2 1) ++
      (pairCode (parts m 4 1) ++ pairCode (parts m 6 1))))))

def treeCode (m : Nat) : List Bool :=
  pairCode (parts m 0 8) ++ (rowCode (m % 2 ^ 8) ++ rowCode (m / 2 ^ 8))

/-- `Itkpixv2QCoreEncodingLUT_Tree`. -/
def itkpixv2QCoreEncodingLUT_Tree (m : Nat) : Nat := valueOf (treeCode m)

/-- `Itkpixv2QCoreEncodingLUT_Length`. -/
def itkpixv2QCoreEncodingLUT_Length (m : Nat) : Nat := (treeCode m).length

/-! ## Reading a row -/

theorem length_pairCode (p : Bool × Bool) : (pairCode p).length ≤ 2 := by
  rcases p with ⟨_ | _, _ | _⟩ <;> decide

theorem length_rowCode (m : Nat) : (rowCode m).length ≤ 14 := by
  have hle := fun first width => length_pairCode (parts m first width)
  have h₁ := hle 0 4
  have h₂ := hle 0 2
  have h₃ := hle 4 2
  have h₄ := hle 0 1
  have h₅ := hle 2 1
  have h₆ := hle 4 1
  have h₇ := hle 6 1
  simp only [rowCode, List.length_append]
  omega

theorem readPairIf_code (p : Bool × Bool) {w : List Bool} (h : 2 ≤ (pairCode p ++ w).length) :
    readPairIf (p.1 || p.2) (pairCode p ++ w) = some (p, w) := by
  rcases p with ⟨_ | _, _ | _⟩
  · rfl
  · cases w with
    | nil => exact absurd h (by decide)
    | cons b w => rfl
  · rfl
  · rfl

/-- A part holds a hit if one of its two parts does, and the smallest parts are the pixels. -/
theorem parts_row : ∀ m < 2 ^ 8, (m != 0) = ((parts m 0 4).1 || (parts m 0 4).2) ∧
    (parts m 0 4).1 = ((parts m 0 2).1 || (parts m 0 2).2) ∧
    (parts m 0 4).2 = ((parts m 4 2).1 || (parts m 4 2).2) ∧
    (parts m 0 2).1 = ((parts m 0 1).1 || (parts m 0 1).2) ∧
    (parts m 0 2).2 = ((parts m 2 1).1 || (parts m 2 1).2) ∧
    (parts m 4 2).1 = ((parts m 4 1).1 || (parts m 4 1).2) ∧
    (parts m 4 2).2 = ((parts m 6 1).1 || (parts m 6 1).2) ∧
    rowMask (parts m 0 1) (parts m 2 1) (parts m 4 1) (parts m 6 1) = m := by
  decide +kernel

theorem readRow_code {m : Nat} (hm : m < 2 ^ 8) (hne : m ≠ 0) {w : List Bool}
    (h : 14 ≤ (rowCode m ++ w).length) : readRow (rowCode m ++ w) = some (m, w) := by
  obtain ⟨h₁, h₂, h₃, h₄, h₅, h₆, h₇, hmask⟩ := parts_row m hm
  have hhit : readPair = readPairIf (m != 0) := by
    funext w
    simp [readPairIf, hne]
  have hle := fun first width => length_pairCode (parts m first width)
  have hp := fun first width {w : List Bool} => @readPairIf_code (parts m first width) w
  simp only [rowCode, List.length_append, List.append_assoc] at h ⊢
  unfold readRow
  -- each of the seven pairs leaves two bits for the next one
  rw [hhit, h₁, hp 0 4 (by simp only [List.length_append]; omega)]
  simp only [Option.bind_some]
  rw [h₂, hp 0 2 (by have := hle 0 4; simp only [List.length_append]; omega)]
  simp only [Option.bind_some]
  have ha := hle 0 4
  have hb := hle 0 2
  rw [h₃, hp 4 2 (by simp only [List.length_append]; omega)]
  simp only [Option.bind_some]
  have hc := hle 4 2
  rw [h₄, hp 0 1 (by simp only [List.length_append]; omega)]
  simp only [Option.bind_some]
  have hd := hle 0 1
  rw [h₅, hp 2 1 (by simp only [List.length_append]; omega)]
  simp only [Option.bind_some]
  have he := hle 2 1
  rw [h₆, hp 4 1 (by simp only [List.length_append]; omega)]
  simp only [Option.bind_some]
  have hf := hle 4 1
  rw [h₇, hp 6 1 (by simp only [List.length_append]; omega)]
  simp only [Option.map_some, hmask]

/-! ## Windows -/

theorem readPair_append {w w' : List Bool} {p : Bool × Bool} (h : readPair w = some (p, w'))
    (x : List Bool) : readPair (w ++ x) = some (p, w' ++ x) := by
  unfold readPair at h
  split at h
  · cases h
    rfl
  · cases h
    rfl
  · cases h

theorem readPairIf_append {hit : Bool} {w w' : List Bool} {p : Bool × Bool}
    (h : readPairIf hit w = some (p, w')) (x : List Bool) :
    readPairIf hit (w ++ x) = some (p, w' ++ x) := by
  unfold readPairIf at h ⊢
  split at h
  · rw [if_pos ‹_›]
    exact readPair_append h x
  · cases h
    rw [if_neg ‹_›]

/-- What a window shows does not depend on what is behind it. -/
theorem readRow_append {w w' : List Bool} {m : Nat} (h : readRow w = some (m, w'))
    (x : List Bool) : readRow (w ++ x) = some (m, w' ++ x) := by
  unfold readRow at h ⊢
  simp only [Option.bind_eq_some_iff, Option.map_eq_some_iff] at h ⊢
  rcases h with ⟨p₁, h₁, p₂, h₂, p₃, h₃, p₄, h₄, p₅, h₅, p₆, h₆, p₇, h₇, hlast⟩
  refine ⟨_, readPair_append h₁ x, _, readPairIf_append h₂ x, _, readPairIf_append h₃ x, _,
    readPairIf_append h₄ x, _, readPairIf_append h₅ x, _, readPairIf_append h₆ x, _,
    readPairIf_append h₇ x, ?_⟩
  cases hlast
  rfl

theorem readRow_window {m n : Nat} (hm : m < 2 ^ 8) (hne : m ≠ 0) (hn : 14 ≤ n) {rest : List Bool}
    (h : n ≤ rest.length) :
    readRow ((rowCode m ++ rest).take n) = some (m, rest.take (n - (rowCode m).length)) := by
  have hle := length_rowCode m
  rw [List.take_append, List.take_of_length_le (by omega)]
  apply readRow_code hm hne
  simp only [List.length_append, List.length_take]
  omega

theorem lutBinaryTreeRowHMap_code {m : Nat} (hm : m < 2 ^ 8) (hne : m ≠ 0) {rest : List Bool}
    (h : 14 ≤ rest.length) :
    lutBinaryTreeRowHMap (valueOf ((rowCode m ++ rest).take 14)) =
      ⟨14 - (rowCode m).length, m⟩ := by
  have hwindow := bitsOf_valueOf ((rowCode m ++ rest).take 14)
  rw [List.length_take_of_le (by rw [List.length_append]; omega)] at hwindow
  rw [lutBinaryTreeRowHMap, hwindow, readRow_window hm hne (by decide) h]
  simp only [List.length_take_of_le (Nat.le_trans (Nat.sub_le _ _) h)]

/-- What the table makes of a code at the front of its window: the whole map, or the first row
of two with the second one still to be read. -/
inductive Looked (m : Nat) (rest : List Bool) (entry : HitMapEntry) : Prop where
  | whole : entry.rollBackRow = 0 → entry.map = m →
      entry.rollBack + (treeCode m).length = 16 → Looked m rest entry
  | first (back : Nat) : back ≤ 14 → entry.rollBackRow = (if back = 0 then 0xff else back) →
      entry.map = m % 2 ^ 8 → m / 2 ^ 8 ≠ 0 →
      (treeCode m).length = 16 - back + (rowCode (m / 2 ^ 8)).length →
      (treeCode m ++ rest).drop (16 - back) = rowCode (m / 2 ^ 8) ++ rest → Looked m rest entry

theorem treeCode_eq {m : Nat} (hm : m < 2 ^ 16) : treeCode m =
    pairCode (m % 2 ^ 8 != 0, m / 2 ^ 8 != 0) ++
      (rowCode (m % 2 ^ 8) ++ rowCode (m / 2 ^ 8)) := by
  have hhi : m / 2 ^ 8 < 2 ^ 8 := by omega
  have hsecond : m / 2 ^ (0 + 8) % 2 ^ 8 = m / 2 ^ 8 := Nat.mod_eq_of_lt hhi
  have hfirst : m / 2 ^ 0 % 2 ^ 8 = m % 2 ^ 8 := by rw [Nat.pow_zero, Nat.div_one]
  rw [treeCode, parts, hfirst, hsecond]

theorem lutBinaryTreeHitMap_code {m : Nat} (hm : m < 2 ^ 16) (hne : m ≠ 0) {rest : List Bool}
    (h : 30 ≤ rest.length) :
    Looked m rest (lutBinaryTreeHitMap (valueOf ((treeCode m ++ rest).take 16))) := by
  have hhi : m / 2 ^ 8 < 2 ^ 8 := by omega
  have hlo : m % 2 ^ 8 < 2 ^ 8 := Nat.mod_lt _ (by decide)
  have hwindow := bitsOf_valueOf ((treeCode m ++ rest).take 16)
  rw [List.length_take_of_le (by rw [List.length_append]; omega)] at hwindow
  have hle := length_rowCode (m % 2 ^ 8)
  have hle' := length_rowCode (m / 2 ^ 8)
  have hzero : rowCode 0 = [] := rfl
  have htake : ∀ n ≤ 30, (rest.take n).length = n :=
    fun n hn => List.length_take_of_le (by omega)
  unfold lutBinaryTreeHitMap
  rw [hwindow]
  by_cases hfirst : m % 2 ^ 8 = 0
  · -- a single bit in front of the second row
    have hsecond : m / 2 ^ 8 ≠ 0 := by omega
    have hcode : treeCode m = pairCode (false, true) ++ rowCode (m / 2 ^ 8) := by
      rw [treeCode_eq hm, hfirst, bne_iff_ne.mpr hsecond, hzero]
      rfl
    have hread := readPairIf_code (false, true) (w := (rowCode (m / 2 ^ 8) ++ rest).take 15)
      (by simp [pairCode]; omega)
    have hbits : (treeCode m ++ rest).take 16 =
        pairCode (false, true) ++ (rowCode (m / 2 ^ 8) ++ rest).take 15 := by
      rw [hcode]
      rfl
    rw [hbits, show readPair _ = _ from hread]
    dsimp only
    rw [@readRow_window _ 15 hhi hsecond (by decide) rest (by omega)]
    have hback := htake (15 - (rowCode (m / 2 ^ 8)).length) (by omega)
    refine .whole rfl (by dsimp only; omega) ?_
    rw [hcode, List.length_append]
    dsimp only
    rw [hback]
    simp only [pairCode, List.length_singleton]
    omega
  by_cases hsecond : m / 2 ^ 8 = 0
  · have hcode : treeCode m = pairCode (true, false) ++ rowCode (m % 2 ^ 8) := by
      rw [treeCode_eq hm, hsecond, bne_iff_ne.mpr hfirst, hzero, List.append_nil]
      rfl
    have hbits : (treeCode m ++ rest).take 16 =
        true :: false :: (rowCode (m % 2 ^ 8) ++ rest).take 14 := by
      rw [hcode]
      rfl
    rw [hbits]
    simp only [readPair]
    rw [@readRow_window _ 14 hlo hfirst (by decide) rest (by omega)]
    have hback := htake (14 - (rowCode (m % 2 ^ 8)).length) (by omega)
    refine .whole rfl (by dsimp only; omega) ?_
    rw [hcode, List.length_append]
    dsimp only
    rw [hback]
    simp only [pairCode, List.length_cons, List.length_nil]
    omega
  · have hcode : treeCode m =
        pairCode (true, true) ++ (rowCode (m % 2 ^ 8) ++ rowCode (m / 2 ^ 8)) := by
      rw [treeCode_eq hm, bne_iff_ne.mpr hfirst, bne_iff_ne.mpr hsecond]
    have hlength : (treeCode m).length =
        2 + ((rowCode (m % 2 ^ 8)).length + (rowCode (m / 2 ^ 8)).length) := by
      rw [hcode, List.length_append, List.length_append]
      rfl
    have hbits : (treeCode m ++ rest).take 16 =
        true :: true :: (rowCode (m % 2 ^ 8) ++ (rowCode (m / 2 ^ 8) ++ rest)).take 14 := by
      rw [hcode, List.append_assoc, List.append_assoc]
      rfl
    rw [hbits]
    simp only [readPair]
    rw [@readRow_window _ 14 hlo hfirst (by decide) (rowCode (m / 2 ^ 8) ++ rest)
      (by rw [List.length_append]; omega)]
    dsimp only
    generalize hk : 14 - (rowCode (m % 2 ^ 8)).length = k
    have hback : ((rowCode (m / 2 ^ 8) ++ rest).take k).length = k :=
      List.length_take_of_le (by rw [List.length_append]; omega)
    cases hrow : readRow ((rowCode (m / 2 ^ 8) ++ rest).take k) with
    | none =>
        refine .first k (by omega) (by simp only [hback]) rfl hsecond (by omega) ?_
        have hfront : 16 - k = (pairCode (true, true) ++ rowCode (m % 2 ^ 8)).length := by
          rw [List.length_append]
          simp only [pairCode, List.length_cons, List.length_nil]
          omega
        rw [hfront, hcode, ← List.append_assoc, List.append_assoc, List.drop_left]
    | some found =>
        obtain ⟨hi, w⟩ := found
        have hfull := readRow_append hrow ((rowCode (m / 2 ^ 8) ++ rest).drop k)
        rw [List.take_append_drop, readRow_code hhi hsecond
          (by rw [List.length_append]; omega)] at hfull
        obtain ⟨rfl, hrest⟩ := Prod.mk.inj (Option.some.inj hfull)
        refine .whole rfl (by dsimp only; omega) ?_
        have hrest' := congrArg List.length hrest
        simp only [List.length_append, List.length_drop] at hrest'
        dsimp only
        omega

end Yarr.Pixel.TreeCode
