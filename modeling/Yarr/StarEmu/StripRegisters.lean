import Yarr.Core.Lockstep
import Yarr.Core.Searches
import Yarr.StarEmu.StarChipsetEmu

/-!
# Registers for strips

The masks and calibration enables of the 256 strips of an ABC, as the emulator
reads them from its registers.
-/

namespace Yarr.StarEmu

open Yarr.Star

/-- `if (cond) bits.set(i)`. -/
def StripData.setIf (bits : StripData) (cond : Bool) (i : Nat) : StripData :=
  if cond then bits ||| BitVec.twoPow 256 i else bits

/-- Even bits are for the first 128 strips, odd bits for the others. -/
def inputBits (j : Nat) (masks : StripData) (maskinput : UInt32 × Nat) : StripData :=
  let masks := masks.setIf (maskinput.1.toNat.testBit (2 * j)) (j + 16 * maskinput.2)
  masks.setIf (maskinput.1.toNat.testBit (2 * j + 1)) (128 + j + 16 * maskinput.2)

def getMasks (abc : AbcCfg) : Except Failure StripData := do
  let maskinput ← (List.range 8).mapM fun k =>
    abc.getRegisterValue (ABCStarRegister.MaskInput0 + k)
  return (List.range 16).foldl (fun masks j => maskinput.zipIdx.foldl (inputBits j) masks) 0

/-- Two bits are for strips of the first 128, and two for strips of the others. -/
def enableBits (j : Nat) (enables : StripData) (calenable : UInt32 × Nat) : StripData :=
  let enables := enables.setIf (calenable.1.toNat.testBit (4 * j)) (2 * j + 16 * calenable.2)
  let enables := enables.setIf (calenable.1.toNat.testBit (4 * j + 1)) (2 * j + 1 + 16 * calenable.2)
  let enables := enables.setIf (calenable.1.toNat.testBit (4 * j + 2))
    (128 + 2 * j + 16 * calenable.2)
  enables.setIf (calenable.1.toNat.testBit (4 * j + 3)) (128 + 2 * j + 1 + 16 * calenable.2)

def getCalEnables (abc : AbcCfg) : Except Failure StripData := do
  let calenable ← (List.range 8).mapM fun k =>
    abc.getRegisterValue (ABCStarRegister.CalREG0 + k)
  return (List.range 8).foldl (fun enables j => calenable.zipIdx.foldl (enableBits j) enables) 0

/-! ## Which bit is for which strip -/

theorem getLsbD_setIf (bits : StripData) (cond : Bool) {i : Nat} (hi : i < 256) (s : Nat) :
    (bits.setIf cond i).getLsbD s = (bits.getLsbD s || (i == s && cond)) := by
  unfold StripData.setIf
  cases cond with
  | false => simp
  | true =>
      rw [if_pos rfl, BitVec.getLsbD_or, BitVec.getLsbD_twoPow, Bool.and_true]
      rw [decide_eq_true hi, Bool.true_and]
      rfl

/-- The bit of a mask register for a strip. -/
def maskBit (s : Nat) : Nat := 2 * (s % 16) + s / 128

/-- The bit of a calibration register for a strip. -/
def calBit (s : Nat) : Nat := 4 * (s % 16 / 2) + s % 2 + 2 * (s / 128)

theorem mapM_registers {abc : AbcCfg} (first : Nat)
    (hregs : ∀ k, k < 8 → first + k ∈ abcAddresses abc.version_1) :
    ((List.range 8).mapM fun k => abc.getRegisterValue (first + k)) =
      .ok ((List.range 8).map fun k => abc.registers.value (first + k)) := by
  rw [Lockstep.mapM_ok_iff, List.forall₂_map_right_iff, List.forall₂_same]
  intro k hk
  exact if_pos (hregs k (List.mem_range.mp hk))

theorem maskInputs_mem (version_1 : Bool) {k : Nat} (hk : k < 8) :
    ABCStarRegister.MaskInput0 + k ∈ abcAddresses version_1 := by
  have hall : ∀ v : Bool, ∀ k < 8, ABCStarRegister.MaskInput0 + k ∈ abcAddresses v := by
    decide +kernel
  exact hall version_1 k hk

theorem calRegs_mem (version_1 : Bool) {k : Nat} (hk : k < 8) :
    ABCStarRegister.CalREG0 + k ∈ abcAddresses version_1 := by
  have hall : ∀ v : Bool, ∀ k < 8, ABCStarRegister.CalREG0 + k ∈ abcAddresses v := by
    decide +kernel
  exact hall version_1 k hk

theorem mem_words {v : Nat → UInt32} {it : UInt32 × Nat} :
    it ∈ ((List.range 8).map v).zipIdx ↔ it.2 < 8 ∧ it.1 = v it.2 := by
  rw [List.mem_zipIdx_iff_getElem?, List.getElem?_map]
  constructor
  · intro h
    rcases Option.map_eq_some_iff.mp h with ⟨k, hk, heq⟩
    rcases List.getElem?_eq_some_iff.mp hk with ⟨hlt, hget⟩
    rw [List.getElem_range] at hget
    rw [List.length_range] at hlt
    subst hget
    exact ⟨hlt, heq.symm⟩
  · rintro ⟨hlt, heq⟩
    rw [List.getElem?_range hlt, Option.map_some, heq]

theorem any_words (v : Nat → UInt32) {n : Nat} {hits : Nat → UInt32 × Nat → Bool} {word b j : Nat}
    (hj : j < n) (hword : word < 8)
    (hhits : ∀ j', j' < n → ∀ it : UInt32 × Nat, it.2 < 8 →
      (hits j' it = true ↔ j' = j ∧ it.2 = word ∧ it.1.toNat.testBit b = true)) :
    ((List.range n).any fun j => ((List.range 8).map v).zipIdx.any (hits j)) =
      (v word).toNat.testBit b := by
  rw [Bool.eq_iff_iff, List.any_eq_true]
  constructor
  · rintro ⟨j', hj', hany⟩
    rcases List.any_eq_true.mp hany with ⟨it, hit, hhit⟩
    rcases mem_words.mp hit with ⟨hlt, heq⟩
    rcases (hhits j' (List.mem_range.mp hj') it hlt).mp hhit with ⟨_, hhere, hbit⟩
    rwa [heq, hhere] at hbit
  · intro hbit
    have hmem : (v word, word) ∈ ((List.range 8).map v).zipIdx := mem_words.mpr ⟨hword, rfl⟩
    have hhit := (hhits j hj (v word, word) hword).mpr ⟨rfl, rfl, hbit⟩
    exact ⟨j, List.mem_range.mpr hj, List.any_eq_true.mpr ⟨_, hmem, hhit⟩⟩

/-- A loop over bits of all words, each of which is for one strip. -/
theorem foldl_words (v : Nat → UInt32) {n : Nat} {f : Nat → StripData → UInt32 × Nat → StripData}
    {hits : Nat → UInt32 × Nat → Bool} {s word b j : Nat}
    (hstep : ∀ j', j' < n → ∀ bits : StripData, ∀ it : UInt32 × Nat, it.2 < 8 →
      (f j' bits it).getLsbD s = (bits.getLsbD s || hits j' it))
    (hj : j < n) (hword : word < 8)
    (hhits : ∀ j', j' < n → ∀ it : UInt32 × Nat, it.2 < 8 →
      (hits j' it = true ↔ j' = j ∧ it.2 = word ∧ it.1.toNat.testBit b = true)) :
    ((List.range n).foldl (fun bits j => ((List.range 8).map v).zipIdx.foldl (f j) bits)
      (0 : StripData)).getLsbD s = (v word).toNat.testBit b := by
  have hinner : ∀ bits : StripData, ∀ j' ∈ List.range n,
      (((List.range 8).map v).zipIdx.foldl (f j') bits).getLsbD s =
        (bits.getLsbD s || ((List.range 8).map v).zipIdx.any (hits j')) := fun bits j' hj' =>
    Patterns.foldl_or (f := fun bits : StripData => bits.getLsbD s) _
      (fun bits it hit => hstep j' (List.mem_range.mp hj') bits it (mem_words.mp hit).1) bits
  have houter := Patterns.foldl_or (f := fun bits : StripData => bits.getLsbD s) (List.range n)
    hinner 0
  have hzero : (0 : StripData).getLsbD s = false := BitVec.getLsbD_zero
  rw [hzero, Bool.false_or, any_words v hj hword hhits] at houter
  exact houter

theorem getMasks_eq (abc : AbcCfg) : ∃ masks, getMasks abc = .ok masks ∧ ∀ s, s < 256 →
    masks.getLsbD s =
      (abc.registers.value (ABCStarRegister.MaskInput0 + s % 128 / 16)).toNat.testBit (maskBit s) := by
  unfold getMasks
  rw [mapM_registers _ fun k hk => maskInputs_mem abc.version_1 hk]
  apply Exists.intro _
  apply And.intro rfl
  intro s hs
  have hstep : ∀ j, j < 16 → ∀ bits : StripData, ∀ it : UInt32 × Nat, it.2 < 8 →
      (inputBits j bits it).getLsbD s = (bits.getLsbD s ||
        ((j + 16 * it.2 == s && it.1.toNat.testBit (2 * j)) ||
          (128 + j + 16 * it.2 == s && it.1.toNat.testBit (2 * j + 1)))) := by
    intro j hj bits it hit
    unfold inputBits
    rw [getLsbD_setIf _ _ (by omega), getLsbD_setIf _ _ (by omega), Bool.or_assoc]
  apply foldl_words (fun k => abc.registers.value (ABCStarRegister.MaskInput0 + k)) hstep
    (by omega : s % 16 < 16) (by omega)
  intro j hj it hit
  rw [Bool.or_eq_true, Bool.and_eq_true, Bool.and_eq_true, beq_iff_eq, beq_iff_eq]
  unfold maskBit
  constructor
  · rintro (⟨hhere, hbit⟩ | ⟨hhere, hbit⟩)
    · have hplace : 2 * (s % 16) + s / 128 = 2 * j := by omega
      rw [hplace]
      exact ⟨by omega, by omega, hbit⟩
    · have hplace : 2 * (s % 16) + s / 128 = 2 * j + 1 := by omega
      rw [hplace]
      exact ⟨by omega, by omega, hbit⟩
  · rintro ⟨rfl, hword, hbit⟩
    by_cases hlow : s < 128
    · have hplace : 2 * (s % 16) + s / 128 = 2 * (s % 16) := by omega
      rw [hplace] at hbit
      exact Or.inl ⟨by omega, hbit⟩
    · have hplace : 2 * (s % 16) + s / 128 = 2 * (s % 16) + 1 := by omega
      rw [hplace] at hbit
      exact Or.inr ⟨by omega, hbit⟩

theorem getCalEnables_eq (abc : AbcCfg) : ∃ enables, getCalEnables abc = .ok enables ∧
    ∀ s, s < 256 → enables.getLsbD s =
      (abc.registers.value (ABCStarRegister.CalREG0 + s % 128 / 16)).toNat.testBit (calBit s) := by
  unfold getCalEnables
  rw [mapM_registers _ fun k hk => calRegs_mem abc.version_1 hk]
  apply Exists.intro _
  apply And.intro rfl
  intro s hs
  have hstep : ∀ j, j < 8 → ∀ bits : StripData, ∀ it : UInt32 × Nat, it.2 < 8 →
      (enableBits j bits it).getLsbD s = (bits.getLsbD s ||
        ((2 * j + 16 * it.2 == s && it.1.toNat.testBit (4 * j)) ||
          ((2 * j + 1 + 16 * it.2 == s && it.1.toNat.testBit (4 * j + 1)) ||
            ((128 + 2 * j + 16 * it.2 == s && it.1.toNat.testBit (4 * j + 2)) ||
              (128 + 2 * j + 1 + 16 * it.2 == s && it.1.toNat.testBit (4 * j + 3)))))) := by
    intro j hj bits it hit
    unfold enableBits
    rw [getLsbD_setIf _ _ (by omega), getLsbD_setIf _ _ (by omega), getLsbD_setIf _ _ (by omega),
      getLsbD_setIf _ _ (by omega), Bool.or_assoc, Bool.or_assoc, Bool.or_assoc]
  apply foldl_words (fun k => abc.registers.value (ABCStarRegister.CalREG0 + k)) hstep
    (by omega : s % 16 / 2 < 8) (by omega)
  intro j hj it hit
  simp only [Bool.or_eq_true, Bool.and_eq_true, beq_iff_eq]
  unfold calBit
  -- the row of the strip, its word, its pair in the word and its place in the pair
  have hrow : s / 128 < 2 := by omega
  have hword : s % 128 / 16 < 8 := by omega
  have hpair : s % 16 / 2 < 8 := by omega
  have hodd : s % 2 < 2 := by omega
  have hs' : s = 128 * (s / 128) + 16 * (s % 128 / 16) + 2 * (s % 16 / 2) + s % 2 := by omega
  generalize s / 128 = row at hrow hs' ⊢
  generalize s % 128 / 16 = word at hword hs' ⊢
  generalize s % 16 / 2 = pair at hpair hs' ⊢
  generalize s % 2 = odd at hodd hs' ⊢
  clear hstep hs
  subst hs'
  constructor
  · have hplace {b : Nat} (h : 128 * (b / 2) + b % 2 + 2 * j + 16 * it.2 =
        128 * row + 16 * word + 2 * pair + odd) (hb : b < 4)
        (hbit : it.1.toNat.testBit (4 * j + b) = true) :
        j = pair ∧ it.2 = word ∧ it.1.toNat.testBit (4 * pair + odd + 2 * row) = true := by
      have hj : j = pair := by omega
      have hoffset : odd + 2 * row = b := by omega
      rw [Nat.add_assoc (4 * pair), hoffset, ← hj]
      exact ⟨rfl, by omega, hbit⟩
    rintro (⟨hhere, hbit⟩ | ⟨hhere, hbit⟩ | ⟨hhere, hbit⟩ | ⟨hhere, hbit⟩)
    · exact hplace (b := 0) (by omega) (by omega) hbit
    · exact hplace (b := 1) (by omega) (by omega) hbit
    · exact hplace (b := 2) (by omega) (by omega) hbit
    · exact hplace (b := 3) (by omega) (by omega) hbit
  · rintro ⟨rfl, rfl, hbit⟩
    obtain rfl | rfl : row = 0 ∨ row = 1 := by omega
    · obtain rfl | rfl : odd = 0 ∨ odd = 1 := by omega
      · exact Or.inl ⟨by omega, hbit⟩
      · exact Or.inr (Or.inl ⟨by omega, hbit⟩)
    · obtain rfl | rfl : odd = 0 ∨ odd = 1 := by omega
      · exact Or.inr (Or.inr (Or.inl ⟨by omega, hbit⟩))
      · exact Or.inr (Or.inr (Or.inr ⟨by omega, hbit⟩))

theorem getCalEnables_congr {abc abc' : AbcCfg} (h : ∀ k, k < 8 →
    abc.registers.value (ABCStarRegister.CalREG0 + k) =
      abc'.registers.value (ABCStarRegister.CalREG0 + k)) :
    getCalEnables abc = getCalEnables abc' := by
  have hwords : ((List.range 8).map fun k => abc.registers.value (ABCStarRegister.CalREG0 + k)) =
      (List.range 8).map fun k => abc'.registers.value (ABCStarRegister.CalREG0 + k) :=
    List.map_congr_left fun k hk => h k (List.mem_range.mp hk)
  unfold getCalEnables
  rw [mapM_registers _ fun k hk => calRegs_mem abc.version_1 hk,
    mapM_registers _ fun k hk => calRegs_mem abc'.version_1 hk, hwords]

end Yarr.StarEmu
