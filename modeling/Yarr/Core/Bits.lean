import Mathlib.Data.List.Forall2
import Mathlib.Data.List.Induction
import Mathlib.Data.Nat.Bitwise
import Mathlib.Tactic.Linarith
import Mathlib.Tactic.Ring

/-!
# Bit strings, most significant bit first

A serial link carries a bit string; the machine holds its pieces in integers.
`bitsOf` and `valueOf` go from one to the other and every field of a link
format is read back by the two take/drop laws below. Nothing here mentions a
detector format.
-/

namespace Yarr.Bits

/-- The `width` low bits of `n`, most significant bit first. -/
def bitsOf : Nat → Nat → List Bool
  | 0, _ => []
  | width + 1, n => n.testBit width :: bitsOf width n

/-- The integer a bit string spells. -/
def valueOf : List Bool → Nat
  | [] => 0
  | b :: bits => b.toNat * 2 ^ bits.length + valueOf bits

@[simp] theorem bitsOf_zero (n : Nat) : bitsOf 0 n = [] := rfl

@[simp] theorem length_bitsOf (width n : Nat) : (bitsOf width n).length = width := by
  induction width with
  | zero => rfl
  | succ width ih => simp [bitsOf, ih]

@[simp] theorem valueOf_nil : valueOf [] = 0 := rfl

theorem valueOf_cons (b : Bool) (bits : List Bool) :
    valueOf (b :: bits) = b.toNat * 2 ^ bits.length + valueOf bits := rfl

/-- Reading back `width` low bits keeps the value modulo `2 ^ width`. -/
theorem valueOf_bitsOf (width n : Nat) : valueOf (bitsOf width n) = n % 2 ^ width := by
  induction width with
  | zero => simp [Nat.mod_one]
  | succ width ih =>
      have hbit : (n.testBit width).toNat = n / 2 ^ width % 2 := by
        rw [Nat.testBit_eq_decide_div_mod_eq]
        rcases Nat.mod_two_eq_zero_or_one (n / 2 ^ width) with h | h <;> simp [h]
      simp only [bitsOf, valueOf_cons, length_bitsOf, ih, hbit]
      rw [Nat.pow_succ, Nat.mod_mul]
      ring

theorem valueOf_bitsOf_of_lt {width n : Nat} (h : n < 2 ^ width) :
    valueOf (bitsOf width n) = n := by
  rw [valueOf_bitsOf, Nat.mod_eq_of_lt h]

theorem bitsOf_add (a b n : Nat) : bitsOf (a + b) n = bitsOf a (n / 2 ^ b) ++ bitsOf b n := by
  induction a with
  | zero => simp
  | succ a ih =>
      have he : a + 1 + b = (a + b) + 1 := by omega
      rw [he]
      simp only [bitsOf, ih, List.cons_append, Nat.testBit_div_two_pow]

theorem bitsOf_mod {width big : Nat} (n : Nat) (h : width ≤ big) :
    bitsOf width (n % 2 ^ big) = bitsOf width n := by
  induction width with
  | zero => rfl
  | succ width ih =>
      have hlt : width < big := h
      simp [bitsOf, Nat.testBit_mod_two_pow, hlt, ih (by omega)]

theorem take_bitsOf (a b n : Nat) : (bitsOf (a + b) n).take a = bitsOf a (n / 2 ^ b) := by
  rw [bitsOf_add, List.take_append_of_le_length (by simp), List.take_of_length_le (by simp)]

theorem drop_bitsOf (a b n : Nat) : (bitsOf (a + b) n).drop a = bitsOf b n := by
  rw [bitsOf_add, List.drop_append_of_le_length (by simp), List.drop_of_length_le (by simp)]
  simp

/-- Bits appended below a value: the machine's `value << len | low`. -/
theorem bitsOf_append (a b hi lo : Nat) (hlo : lo < 2 ^ b) :
    bitsOf a hi ++ bitsOf b lo = bitsOf (a + b) (hi * 2 ^ b + lo) := by
  rw [bitsOf_add, Nat.add_comm (hi * 2 ^ b), Nat.add_mul_div_right _ _ (Nat.two_pow_pos b),
    Nat.div_eq_of_lt hlo, Nat.zero_add]
  congr 1
  rw [← bitsOf_mod (lo + hi * 2 ^ b) (Nat.le_refl b), Nat.add_mul_mod_self_right,
    Nat.mod_eq_of_lt hlo]

/-! ## Fields in machine words -/

theorem and_mask (mask width : Nat) (h : mask = 2 ^ width - 1) (n : Nat) :
    n &&& mask = n % 2 ^ width := by
  rw [h, Nat.and_two_pow_sub_one_eq_mod]

/-- The field of `width` bits above the `low` lowest ones, masked at the bottom. -/
theorem shiftRight_mask (mask width : Nat) (h : mask = 2 ^ width - 1) (n low : Nat) :
    (n >>> low) &&& mask = n / 2 ^ low % 2 ^ width := by
  rw [and_mask mask width h, Nat.shiftRight_eq_div_pow]

theorem mask_shiftRight (mask low width : Nat) (h : mask >>> low = 2 ^ width - 1) (n : Nat) :
    (n &&& mask) >>> low = n / 2 ^ low % 2 ^ width := by
  rw [Nat.shiftRight_and_distrib, shiftRight_mask (mask >>> low) width h]

theorem shiftLeft_or (high : Nat) {low width : Nat} (h : low < 2 ^ width) :
    (high <<< width) ||| low = high * 2 ^ width + low := by
  rw [← Nat.shiftLeft_add_eq_or_of_lt h, Nat.shiftLeft_eq]

theorem or_add (width : Nat) {high low : Nat} (hh : high % 2 ^ width = 0) (hl : low < 2 ^ width) :
    high ||| low = high + low := by
  have hsplit := Nat.div_add_mod' high (2 ^ width)
  rw [hh, Nat.add_zero] at hsplit
  rw [← hsplit, ← Nat.shiftLeft_eq, shiftLeft_or _ hl, Nat.shiftLeft_eq]

theorem join_fields (n k width : Nat) :
    ((n / 2 ^ (k + width)) <<< (k + width)) ||| ((n / 2 ^ k % 2 ^ width) <<< k) =
      (n / 2 ^ k) <<< k := by
  have hsplit : (n / 2 ^ (k + width)) <<< width ||| (n / 2 ^ k % 2 ^ width) = n / 2 ^ k := by
    rw [shiftLeft_or _ (Nat.mod_lt _ (Nat.two_pow_pos width)), Nat.pow_add,
      ← Nat.div_div_eq_div_mul]
    exact Nat.div_add_mod' (n / 2 ^ k) (2 ^ width)
  rw [Nat.add_comm k width, Nat.shiftLeft_add, ← Nat.shiftLeft_or_distrib,
    Nat.add_comm width k, hsplit]

theorem and_shiftLeft (n c k : Nat) : n &&& (c <<< k) = ((n >>> k) &&& c) <<< k := by
  apply Nat.eq_of_testBit_eq
  intro i
  rw [Nat.testBit_and, Nat.testBit_shiftLeft, Nat.testBit_shiftLeft, Nat.testBit_and,
    Nat.testBit_shiftRight]
  by_cases hi : i ≥ k
  · simp [hi, Nat.add_sub_cancel' hi]
  · simp [hi]

/-! ## Words of 32 bits -/

theorem toNat_ofInt {v : Int} (hlow : 0 ≤ v) (hhigh : v < 2 ^ 32) :
    (UInt32.ofInt v).toNat = v.toNat := by
  rw [UInt32.ofInt, UInt32.toNat_ofNat']
  omega

theorem toBitVec_ofNat_mod {n : Nat} (hn : n < 32) :
    (UInt32.ofNat n).toBitVec % 32 = BitVec.ofNat 32 n := by
  apply BitVec.eq_of_toNat_eq
  rw [BitVec.toNat_umod, UInt32.toBitVec_ofNat', BitVec.toNat_ofNat]
  show n % 2 ^ 32 % 32 = n % 2 ^ 32
  omega

theorem toBitVec_shiftLeft_ofNat (x : UInt32) {n : Nat} (hn : n < 32) :
    (x <<< UInt32.ofNat n).toBitVec = x.toBitVec <<< n := by
  have hmod : n % 4294967296 = n := Nat.mod_eq_of_lt (by omega)
  rw [UInt32.toBitVec_shiftLeft, toBitVec_ofNat_mod hn]
  apply BitVec.eq_of_toNat_eq
  simp only [BitVec.shiftLeft_eq', BitVec.toNat_shiftLeft, BitVec.toNat_ofNat, Nat.reducePow, hmod]

theorem toBitVec_shiftRight_ofNat (x : UInt32) {n : Nat} (hn : n < 32) :
    (x >>> UInt32.ofNat n).toBitVec = x.toBitVec >>> n := by
  have hmod : n % 4294967296 = n := Nat.mod_eq_of_lt (by omega)
  rw [UInt32.toBitVec_shiftRight, toBitVec_ofNat_mod hn]
  apply BitVec.eq_of_toNat_eq
  simp only [BitVec.ushiftRight_eq', BitVec.toNat_ushiftRight, BitVec.toNat_ofNat, Nat.reducePow,
    hmod]

end Yarr.Bits

/-!
## Bits in a sequence of words

A position in a sequence of words is a word and a bit of it.
-/

namespace Yarr.Bits

universe u v

theorem getElem?_flatMap_of_length {α : Type u} {β : Type v} {f : α → List β} {width : Nat}
    (hwidth : 0 < width) (hf : ∀ a, (f a).length = width) (l : List α) (k : Nat) :
    (l.flatMap f)[k]? = l[k / width]?.bind fun a => (f a)[k % width]? := by
  induction l generalizing k with
  | nil => simp
  | cons a l ih =>
      rw [List.flatMap_cons, List.getElem?_append, hf]
      by_cases hlt : k < width
      · rw [if_pos hlt, Nat.div_eq_of_lt hlt, Nat.mod_eq_of_lt hlt]
        simp
      · have hle : width ≤ k := Nat.le_of_not_lt hlt
        have hdiv : k / width = (k - width) / width + 1 := by
          rw [Nat.div_eq_sub_div hwidth hle]
        rw [if_neg hlt, ih, hdiv, List.getElem?_cons_succ, Nat.mod_eq_sub_mod hle]

theorem getElem?_bitsOf {width i : Nat} (n : Nat) (hi : i < width) :
    (bitsOf width n)[i]? = some (n.testBit (width - 1 - i)) := by
  induction width generalizing i with
  | zero => exact absurd hi (Nat.not_lt_zero i)
  | succ width ih =>
      cases i with
      | zero => simp [bitsOf]
      | succ i =>
          have hplace : width + 1 - 1 - (i + 1) = width - 1 - i := by omega
          rw [bitsOf, List.getElem?_cons_succ, ih (by omega), hplace]

theorem and_bit_ne_zero (n i : Nat) : n &&& 1 <<< i ≠ 0 ↔ n.testBit i = true := by
  rw [Nat.one_shiftLeft, Nat.and_two_pow]
  cases n.testBit i <;> simp

end Yarr.Bits

/-!
## Integers in memory

The bytes of an unsigned integer as a little-endian machine stores them, and
streams from which fixed numbers of bytes are read.
-/

namespace Yarr.Bytes

/-- The `size` bytes in which `n` is stored, the lowest one first. -/
def store : Nat → Nat → List UInt8
  | 0, _ => []
  | size + 1, n => UInt8.ofNat n :: store size (n / 256)

/-- The integer that bytes in memory stand for. -/
def load : List UInt8 → Nat
  | [] => 0
  | b :: bytes => b.toNat + 256 * load bytes

@[simp] theorem length_store (size n : Nat) : (store size n).length = size := by
  induction size generalizing n with
  | zero => rfl
  | succ size ih => simp [store, ih]

theorem load_store (size n : Nat) : load (store size n) = n % 256 ^ size := by
  induction size generalizing n with
  | zero => simp [store, load, Nat.mod_one]
  | succ size ih =>
      have hlow : (UInt8.ofNat n).toNat = n % 256 := UInt8.toNat_ofNat'
      rw [store, load, ih, hlow, Nat.pow_succ, Nat.mul_comm _ 256, Nat.mod_mul]

/-- `read(ptr, size)`: the bytes and what is left of the stream, nothing at its end. -/
def read (size : Nat) (stream : List UInt8) : Option (List UInt8 × List UInt8) :=
  if size ≤ stream.length then some (stream.take size, stream.drop size) else none

theorem read_append {size : Nat} {bytes : List UInt8} (h : bytes.length = size)
    (rest : List UInt8) : read size (bytes ++ rest) = some (bytes, rest) := by
  subst h
  simp [read]

end Yarr.Bytes

/-!
## Numbers packed into one

Each number is put behind the ones before it, in a field of its own width.
-/

namespace Yarr.Packing

/-- Widths with the numbers in them. -/
def pack (fields : List (Nat × Nat)) : Nat := fields.foldl (fun p f => p * 2 ^ f.1 + f.2) 0

theorem pack_concat (fields : List (Nat × Nat)) (width n : Nat) :
    pack (fields ++ [(width, n)]) = pack fields * 2 ^ width + n := by
  unfold pack
  rw [List.foldl_append]
  rfl

/-- Every number fits into its field. -/
def Fits (fields : List (Nat × Nat)) : Prop := ∀ f ∈ fields, f.2 < 2 ^ f.1

theorem Fits.of_concat {fields : List (Nat × Nat)} {f : Nat × Nat} (h : Fits (fields ++ [f])) :
    Fits fields ∧ f.2 < 2 ^ f.1 :=
  ⟨fun g hg => h g (List.mem_append_left _ hg),
    h f (List.mem_append_right _ (List.mem_singleton_self f))⟩

theorem pack_inj {fields fields' : List (Nat × Nat)} (h : Fits fields) (h' : Fits fields')
    (hwidth : fields.map Prod.fst = fields'.map Prod.fst) (heq : pack fields = pack fields') :
    fields = fields' := by
  induction fields using List.reverseRecOn generalizing fields' with
  | nil =>
      rw [List.map_nil] at hwidth
      exact (List.map_eq_nil_iff.mp hwidth.symm).symm
  | append_singleton fields f ih =>
      rcases List.eq_nil_or_concat fields' with rfl | ⟨rest', f', rfl⟩
      · rw [List.map_append] at hwidth
        exact absurd hwidth (by simp)
      · rw [List.concat_eq_append] at h' hwidth heq ⊢
        obtain ⟨width, n⟩ := f
        obtain ⟨width', n'⟩ := f'
        rw [List.map_append, List.map_append] at hwidth
        obtain ⟨hrest, hlast⟩ := List.append_inj' hwidth rfl
        obtain rfl : width = width' := (List.cons.inj hlast).1
        obtain ⟨hfits, hn⟩ := h.of_concat
        obtain ⟨hfits', hn'⟩ := h'.of_concat
        rw [pack_concat, pack_concat] at heq
        have hmod := congrArg (· % 2 ^ width) heq
        simp only [Nat.mul_add_mod_self_right, Nat.mod_eq_of_lt hn, Nat.mod_eq_of_lt hn'] at hmod
        rw [hmod] at heq
        have hpack := Nat.eq_of_mul_eq_mul_right (Nat.two_pow_pos width) (Nat.add_right_cancel heq)
        rw [ih hfits hfits' hrest hpack, hmod]

theorem pack_mono {fields fields' : List (Nat × Nat)}
    (h : List.Forall₂ (fun f f' => f.1 = f'.1 ∧ f.2 ≤ f'.2) fields fields') :
    pack fields ≤ pack fields' := by
  have hfold : ∀ p p' : Nat, p ≤ p' →
      fields.foldl (fun p f => p * 2 ^ f.1 + f.2) p ≤
        fields'.foldl (fun p f => p * 2 ^ f.1 + f.2) p' := by
    induction h with
    | nil => exact fun p p' hp => hp
    | cons hf _ ih =>
        intro p p' hp
        obtain ⟨hwidth, hn⟩ := hf
        apply ih
        dsimp only
        rw [hwidth]
        exact Nat.add_le_add (Nat.mul_le_mul_right _ hp) hn
  exact hfold 0 0 (le_refl 0)

theorem pack_le_concat (fields : List (Nat × Nat)) (f : Nat × Nat) :
    pack fields ≤ pack (fields ++ [f]) := by
  obtain ⟨width, n⟩ := f
  rw [pack_concat]
  have hle := Nat.le_mul_of_pos_right (pack fields) (Nat.two_pow_pos width)
  exact hle.trans (Nat.le_add_right _ n)

end Yarr.Packing
