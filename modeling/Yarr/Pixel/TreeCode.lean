import Mathlib.Tactic.Common
import Yarr.Core.Bits

/-!
# The binary-tree code of a hit map

A quarter core is two rows of eight pixels. The chip halves a row three times
and sends, level by level, which of the two parts holds a hit: `11`, `10` or
the single bit `0` for the right part alone. The processors undo the code by
looking up a fixed number of bits read ahead, 16 for a map and 14 for a second
row. The generated tables `LUT_BinaryTreeHitMap`, `LUT_BinaryTreeRowHMap`,
`LUT_PlainHMapToColRow` and `ItkpixQCoreEncodingLUT` are given here by what
they tabulate. A reader of the tables needs two more bits before it reads a
pair, also where the pair turns out to be the single bit `0`.
-/

namespace Yarr.Pixel.TreeCode

open Bits

/-- Pixel `i` of a row or of a hit map. -/
def pixel (m i : Nat) : Bool := m.testBit i

/-! ## Decoding a window -/

/-- One pair; a window of fewer than two bits is not enough. -/
def readPair : List Bool → Option ((Bool × Bool) × List Bool)
  | true :: b :: w => some ((true, b), w)
  | false :: b :: w => some ((false, true), b :: w)
  | _ => none

/-- The pair of a part that may hold no hit. -/
def readPairIf (hit : Bool) (w : List Bool) : Option ((Bool × Bool) × List Bool) :=
  if hit then readPair w else some ((false, false), w)

def rowMask (p q r s : Bool × Bool) : Nat :=
  p.1.toNat + 2 * p.2.toNat + 4 * q.1.toNat + 8 * q.2.toNat +
    16 * r.1.toNat + 32 * r.2.toNat + 64 * s.1.toNat + 128 * s.2.toNat

def readRow (w : List Bool) : Option (Nat × List Bool) :=
  (readPair w).bind fun (h, w) =>
  (readPairIf h.1 w).bind fun (q, w) =>
  (readPairIf h.2 w).bind fun (r, w) =>
  (readPairIf q.1 w).bind fun (a, w) =>
  (readPairIf q.2 w).bind fun (b, w) =>
  (readPairIf r.1 w).bind fun (c, w) =>
  (readPairIf r.2 w).map fun (d, w) => (rowMask a b c d, w)

/-- An entry of `_LUT_BinaryTreeHitMap`: the top byte, the byte below and the low half. -/
structure HitMapEntry where
  rollBackRow : Nat
  rollBack : Nat
  map : Nat
  deriving DecidableEq, Repr

/-- `_LUT_BinaryTreeHitMap`. A second row that does not fit the window is left to the caller. -/
def lutBinaryTreeHitMap (raw : Nat) : HitMapEntry :=
  match readPair (bitsOf 16 raw) with
  | some ((true, true), w) =>
      match readRow w with
      | some (lo, w₁) =>
          match readRow w₁ with
          | some (hi, w₂) => ⟨0, w₂.length, lo + 256 * hi⟩
          | none => ⟨if w₁.length = 0 then 0xff else w₁.length, 0, lo⟩
      | none => ⟨0, 0, 0⟩
  | some ((true, false), w) =>
      match readRow w with
      | some (lo, w₁) => ⟨0, w₁.length, lo⟩
      | none => ⟨0, 0, 0⟩
  | some ((false, _), w) =>
      match readRow w with
      | some (hi, w₁) => ⟨0, w₁.length, 256 * hi⟩
      | none => ⟨0, 0, 0⟩
  | none => ⟨0, 0, 0⟩

/-- An entry of `_LUT_BinaryTreeRowHMap`. -/
structure RowEntry where
  rollBack : Nat
  map : Nat
  deriving DecidableEq, Repr

/-- `_LUT_BinaryTreeRowHMap`. -/
def lutBinaryTreeRowHMap (raw : Nat) : RowEntry :=
  match readRow (bitsOf 14 raw) with
  | some (m, w) => ⟨w.length, m⟩
  | none => ⟨0, 0⟩

/-- `_LUT_PlainHMap_To_ColRow`: the hit pixels of a map as column and row, highest bit first. -/
def plainHMapToColRow (m : Nat) : List (Nat × Nat) :=
  (((List.range 16).reverse).filter fun i => pixel m i).map fun i => (i % 8, i / 8)

/-- `_LUT_PlainHMap_To_ColRow_ArrSize`. -/
def plainHMapToColRowArrSize (m : Nat) : Nat := (plainHMapToColRow m).length

/-! ## How much the tables give back -/

theorem readPair_length {w w' : List Bool} {p : Bool × Bool} (h : readPair w = some (p, w')) :
    w'.length ≤ w.length := by
  unfold readPair at h
  split at h
  · cases h
    simp
    omega
  · cases h
    simp
  · cases h

theorem readPairIf_length {hit : Bool} {w w' : List Bool} {p : Bool × Bool}
    (h : readPairIf hit w = some (p, w')) : w'.length ≤ w.length := by
  unfold readPairIf at h
  split at h
  · exact readPair_length h
  · cases h
    exact Nat.le_refl _

theorem readRow_length {w w' : List Bool} {m : Nat} (h : readRow w = some (m, w')) :
    w'.length ≤ w.length := by
  unfold readRow at h
  simp only [Option.bind_eq_some_iff, Option.map_eq_some_iff] at h
  rcases h with ⟨⟨_, w₁⟩, h₁, ⟨_, w₂⟩, h₂, ⟨_, w₃⟩, h₃, ⟨_, w₄⟩, h₄, ⟨_, w₅⟩, h₅, ⟨_, w₆⟩, h₆,
    ⟨_, w₇⟩, h₇, hlast⟩
  have hw : w₇ = w' := (Prod.mk.inj hlast).2
  rw [← hw]
  have hpair : w₁.length ≤ w.length := readPair_length h₁
  have hq : w₂.length ≤ w₁.length := readPairIf_length h₂
  have hr : w₃.length ≤ w₂.length := readPairIf_length h₃
  have ha : w₄.length ≤ w₃.length := readPairIf_length h₄
  have hb : w₅.length ≤ w₄.length := readPairIf_length h₅
  have hc : w₆.length ≤ w₅.length := readPairIf_length h₆
  have hd : w₇.length ≤ w₆.length := readPairIf_length h₇
  omega

/-- A table never gives back more than its window, apart from the mark for "nothing left". -/
theorem lutBinaryTreeHitMap_rollBack (raw : Nat) :
    ((lutBinaryTreeHitMap raw).rollBackRow ≤ 16 ∨ (lutBinaryTreeHitMap raw).rollBackRow = 0xff) ∧
      (lutBinaryTreeHitMap raw).rollBack ≤ 16 := by
  have hwindow : (bitsOf 16 raw).length = 16 := length_bitsOf 16 raw
  unfold lutBinaryTreeHitMap
  split
  · rename_i w hw
    have hpair := readPair_length hw
    split
    · rename_i lo w₁ hlo
      have hrow := readRow_length hlo
      split
      · rename_i hi w₂ hhi
        have hrow' := readRow_length hhi
        exact ⟨Or.inl (Nat.zero_le _), by dsimp only; omega⟩
      · refine ⟨?_, Nat.zero_le _⟩
        dsimp only
        split
        · exact Or.inr rfl
        · exact Or.inl (by omega)
    · exact ⟨Or.inl (Nat.zero_le _), Nat.zero_le _⟩
  · rename_i w hw
    have hpair := readPair_length hw
    split
    · rename_i lo w₁ hlo
      have hrow := readRow_length hlo
      exact ⟨Or.inl (Nat.zero_le _), by dsimp only; omega⟩
    · exact ⟨Or.inl (Nat.zero_le _), Nat.zero_le _⟩
  · rename_i w hw
    have hpair := readPair_length hw
    split
    · rename_i lo w₁ hlo
      have hrow := readRow_length hlo
      exact ⟨Or.inl (Nat.zero_le _), by dsimp only; omega⟩
    · exact ⟨Or.inl (Nat.zero_le _), Nat.zero_le _⟩
  · exact ⟨Or.inl (Nat.zero_le _), Nat.zero_le _⟩

theorem lutBinaryTreeRowHMap_rollBack (raw : Nat) : (lutBinaryTreeRowHMap raw).rollBack ≤ 14 := by
  have hwindow : (bitsOf 14 raw).length = 14 := length_bitsOf 14 raw
  unfold lutBinaryTreeRowHMap
  split
  · rename_i m w hm
    have hrow := readRow_length hm
    dsimp only
    omega
  · exact Nat.zero_le _

end Yarr.Pixel.TreeCode
