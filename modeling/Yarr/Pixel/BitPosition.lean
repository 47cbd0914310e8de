import Yarr.Core.Bits
import Yarr.Pixel.CursorLaws
import Yarr.Pixel.Decoder
import Yarr.Pixel.ReaderMap

/-!
# The bits of a block

A block is 64 bits: the stream bit, the two bits of the chip ID where it is
enabled, and the payload. The pieces that `retrieve` cuts out of the two words
are those of the one number that the words make.
-/

namespace Yarr.Pixel

open Bits

theorem DecoderConfig.chipIdShift_le (cfg : DecoderConfig) : cfg.chipIdShift ≤ 2 := by
  unfold DecoderConfig.chipIdShift
  split <;> omega

theorem DecoderConfig.streamMask_eq (cfg : DecoderConfig) :
    cfg.streamMask = 2 ^ (31 - cfg.chipIdShift) - 1 := by
  unfold DecoderConfig.streamMask DecoderConfig.chipIdShift
  split <;> rfl

namespace Block

/-- Both words as one number. -/
def value (b : Block) : Nat := b.word0 * 2 ^ 32 + b.word1

/-- What is left of a block without the stream bit and the chip ID. -/
def payload (cfg : DecoderConfig) (b : Block) : List Bool :=
  bitsOf (63 - cfg.chipIdShift) b.value

@[simp] theorem length_payload (cfg : DecoderConfig) (b : Block) :
    (b.payload cfg).length = 63 - cfg.chipIdShift := by
  simp [payload]

/-- The bits behind position `bitIdx`, if that lies behind the head of the block. -/
theorem drop_payload {cfg : DecoderConfig} {bitIdx : Nat} (hlo : 1 + cfg.chipIdShift ≤ bitIdx)
    (hhi : bitIdx ≤ 64) (b : Block) :
    (b.payload cfg).drop (bitIdx - 1 - cfg.chipIdShift) = bitsOf (64 - bitIdx) b.value := by
  have hsplit : 63 - cfg.chipIdShift = (bitIdx - 1 - cfg.chipIdShift) + (64 - bitIdx) := by omega
  rw [payload, hsplit, drop_bitsOf]

theorem take_payload {cfg : DecoderConfig} {k : Nat} (hk : k ≤ 63 - cfg.chipIdShift) (b : Block) :
    (b.payload cfg).take k =
      bitsOf k (b.value % 2 ^ (63 - cfg.chipIdShift) / 2 ^ (63 - cfg.chipIdShift - k)) := by
  have hsplit : 63 - cfg.chipIdShift = k + (63 - cfg.chipIdShift - k) := by omega
  rw [payload, ← bitsOf_mod b.value (Nat.le_refl _)]
  conv_lhs => rw [hsplit]
  rw [take_bitsOf, ← hsplit]

/-! ## Numbers made of two words -/

theorem ones_shiftRight {i : Nat} (h : i ≤ 32) : 0xFFFFFFFF >>> i = 2 ^ (32 - i) - 1 := by
  have hall : ∀ i : Fin 33, 0xFFFFFFFF >>> i.val = 2 ^ (32 - i.val) - 1 := by decide
  exact hall ⟨i, by omega⟩

theorem value_div_high (b : Block) (k : Nat) : b.value / 2 ^ (32 + k) = b.word0 / 2 ^ k := by
  rw [value, Nat.pow_add, ← Nat.div_div_eq_div_mul, Nat.mul_comm,
    Nat.mul_add_div (Nat.two_pow_pos 32), Nat.div_eq_of_lt b.word1_lt, Nat.add_zero]

theorem value_div_low (b : Block) {k : Nat} (hk : k ≤ 32) :
    b.value / 2 ^ k = b.word0 * 2 ^ (32 - k) + b.word1 / 2 ^ k := by
  have hpow : (2 : Nat) ^ 32 = 2 ^ k * 2 ^ (32 - k) := by
    rw [← Nat.pow_add]
    congr 1
    omega
  rw [value, hpow, Nat.mul_left_comm, Nat.mul_add_div (Nat.two_pow_pos k)]

theorem value_mod_low (b : Block) {k : Nat} (hk : k ≤ 32) :
    b.value % 2 ^ k = b.word1 % 2 ^ k := by
  have hpow : (2 : Nat) ^ 32 = 2 ^ k * 2 ^ (32 - k) := by
    rw [← Nat.pow_add]
    congr 1
    omega
  rw [value, hpow, Nat.mul_left_comm, Nat.mul_add_mod]

theorem two_parts_mod (high : Nat) {low width : Nat} (h : low < 2 ^ width) (k : Nat) :
    (high * 2 ^ width + low) % 2 ^ (width + k) = high % 2 ^ k * 2 ^ width + low := by
  have hmod : (high * 2 ^ width + low) % 2 ^ width = low := by
    rw [Nat.mul_comm, Nat.mul_add_mod, Nat.mod_eq_of_lt h]
  have hdiv : (high * 2 ^ width + low) / 2 ^ width = high := by
    rw [Nat.mul_comm, Nat.mul_add_div (Nat.two_pow_pos _), Nat.div_eq_of_lt h, Nat.add_zero]
  rw [Nat.pow_add, Nat.mod_mul, hmod, hdiv]
  ring

theorem value_mod_high (b : Block) (k : Nat) :
    b.value % 2 ^ (32 + k) = b.word0 % 2 ^ k * 2 ^ 32 + b.word1 :=
  two_parts_mod b.word0 b.word1_lt k

/-! ## What `retrieve` cuts out -/

theorem and_ones (n : Nat) {i : Nat} (h : i ≤ 32) :
    n &&& (0xFFFFFFFF >>> i) = n % 2 ^ (32 - i) := by
  rw [ones_shiftRight h, Nat.and_two_pow_sub_one_eq_mod]

theorem mod_div_pow (n a b : Nat) : n % 2 ^ (a + b) / 2 ^ b = n / 2 ^ b % 2 ^ a := by
  rw [Nat.pow_add, Nat.mul_comm, Nat.mod_mul_right_div_self]

theorem field_first {bitIdx length : Nat} (hfit : bitIdx + length ≤ 32) (b : Block) :
    (b.word0 &&& (0xFFFFFFFF >>> bitIdx)) >>> (32 - length - bitIdx) =
      b.value / 2 ^ (64 - bitIdx - length) % 2 ^ length := by
  have hsize : 32 - bitIdx = length + (32 - length - bitIdx) := by omega
  have hplace : 64 - bitIdx - length = 32 + (32 - length - bitIdx) := by omega
  rw [hplace, value_div_high, and_ones _ (by omega), Nat.shiftRight_eq_div_pow, hsize,
    mod_div_pow]

theorem field_second {bitIdx length : Nat} (hlo : 32 ≤ bitIdx) (hfit : bitIdx + length ≤ 64)
    (b : Block) :
    (b.word1 &&& (0xFFFFFFFF >>> (bitIdx - 32))) >>> (64 - length - bitIdx) =
      b.value / 2 ^ (64 - bitIdx - length) % 2 ^ length := by
  have hcomm : 64 - bitIdx - length = 64 - length - bitIdx := by omega
  have hsize : 32 - (bitIdx - 32) = length + (64 - length - bitIdx) := by omega
  have hhigh : 32 - (64 - length - bitIdx) = length + (bitIdx - 32) := by omega
  rw [hcomm, value_div_low b (by omega), hhigh, Nat.pow_add, Nat.mul_left_comm,
    Nat.mul_add_mod, and_ones _ (by omega), Nat.shiftRight_eq_div_pow, hsize, mod_div_pow]

theorem word1_div_lt (b : Block) (k : Nat) : b.word1 / 2 ^ (32 - k) < 2 ^ k := by
  rw [Nat.div_lt_iff_lt_mul (Nat.two_pow_pos _), ← Nat.pow_add]
  have hle : (2 : Nat) ^ 32 ≤ 2 ^ (k + (32 - k)) := Nat.pow_le_pow_right (by decide) (by omega)
  have hlt := b.word1_lt
  omega

theorem field_both {bitIdx length : Nat} (hlo : bitIdx ≤ 32) (hhi : 32 ≤ bitIdx + length)
    (hfit : bitIdx + length ≤ 64) (b : Block) :
    ((b.word0 &&& (0xFFFFFFFF >>> bitIdx)) <<< (length + bitIdx - 32)) |||
        (b.word1 >>> (64 - length - bitIdx)) =
      b.value / 2 ^ (64 - bitIdx - length) % 2 ^ length := by
  have hcomm : 64 - length - bitIdx = 32 - (length + bitIdx - 32) := by omega
  have hcomm' : 64 - bitIdx - length = 32 - (length + bitIdx - 32) := by omega
  have hsize : (2 : Nat) ^ length = 2 ^ ((length + bitIdx - 32) + (32 - bitIdx)) := by
    congr 1
    omega
  have hback : 32 - (32 - (length + bitIdx - 32)) = length + bitIdx - 32 := by omega
  have hlow := b.word1_div_lt (length + bitIdx - 32)
  rw [hcomm, hcomm', and_ones _ hlo, Nat.shiftRight_eq_div_pow, shiftLeft_or _ hlow,
    value_div_low b (by omega), hback, hsize, two_parts_mod _ hlow]

theorem field_eq {bitIdx length : Nat} (hlen : length ≠ 0) (hfit : bitIdx + length ≤ 64)
    (b : Block) :
    b.field bitIdx length = b.value / 2 ^ (64 - bitIdx - length) % 2 ^ length := by
  have hfive : bitIdx >>> 5 = bitIdx / 32 := Nat.shiftRight_eq_div_pow bitIdx 5
  have hup : ∀ k, k <<< 5 = k * 32 := fun k => Nat.shiftLeft_eq k 5
  unfold field
  rw [hfive, hup, hup]
  split
  · by_cases hlow : bitIdx < 32
    · have hword : bitIdx / 32 = 0 := by omega
      rw [hword]
      exact b.field_first (by omega)
    · have hword : bitIdx / 32 = 1 := by omega
      rw [hword]
      exact b.field_second (by omega) hfit
  · exact b.field_both (by omega) (by omega) hfit

theorem rest_eq {bitIdx : Nat} (h : bitIdx ≤ 64) (b : Block) :
    b.rest bitIdx = b.value % 2 ^ (64 - bitIdx) := by
  unfold rest
  split
  · have hsize : 64 - bitIdx = 32 + (32 - bitIdx) := by omega
    rw [and_ones _ (by omega), shiftLeft_or _ b.word1_lt, hsize, value_mod_high]
  · have hsize : 32 - (bitIdx - 32) = 64 - bitIdx := by omega
    rw [and_ones _ (by omega), hsize, value_mod_low _ (by omega)]

/-! ## What overflows into a block -/

/-- The first `end_ - 64` payload bits of the block, for a field that ends at `end_`. -/
def firstBits (cfg : DecoderConfig) (b : Block) (end_ : Nat) : Nat :=
  b.value % 2 ^ (63 - cfg.chipIdShift) / 2 ^ (127 - cfg.chipIdShift - end_)

/-- `overflow` gets the bits right: always without chip IDs; with them only up to the end of
the first word, or where the first word is empty. -/
def Stitched (cfg : DecoderConfig) (b : Block) (end_ : Nat) : Prop :=
  end_ + cfg.chipIdShift ≤ 95 ∨ (cfg.chipIdShift = 0 ∧ end_ ≤ 127) ∨
    (97 ≤ end_ ∧ end_ ≤ 125 ∧ b.word0 % 2 ^ 29 = 0)

instance (cfg : DecoderConfig) (b : Block) (end_ : Nat) : Decidable (b.Stitched cfg end_) :=
  inferInstanceAs (Decidable (_ ∨ _ ∨ _))

theorem take_firstBits {cfg : DecoderConfig} {end_ : Nat} (hlo : 64 ≤ end_)
    (hhi : end_ + cfg.chipIdShift ≤ 127) (b : Block) :
    (b.payload cfg).take (end_ - 64) = bitsOf (end_ - 64) (b.firstBits cfg end_) := by
  have hplace : 63 - cfg.chipIdShift - (end_ - 64) = 127 - cfg.chipIdShift - end_ := by omega
  rw [take_payload (by omega), hplace]
  rfl

theorem firstBits_lt {cfg : DecoderConfig} {end_ : Nat} (hhi : end_ + cfg.chipIdShift ≤ 127)
    (hlo : 64 ≤ end_) (b : Block) : b.firstBits cfg end_ < 2 ^ (end_ - 64) := by
  have hsize : 63 - cfg.chipIdShift = (end_ - 64) + (127 - cfg.chipIdShift - end_) := by omega
  rw [firstBits, hsize, mod_div_pow]
  exact Nat.mod_lt _ (Nat.two_pow_pos _)

theorem firstBits_both {cfg : DecoderConfig} {end_ : Nat} (hlo : 95 ≤ end_ + cfg.chipIdShift)
    (hhi : end_ + cfg.chipIdShift ≤ 127) (b : Block) :
    b.firstBits cfg end_ = b.word0 % 2 ^ (31 - cfg.chipIdShift) *
        2 ^ (end_ + cfg.chipIdShift - 95) + b.word1 / 2 ^ (127 - cfg.chipIdShift - end_) := by
  have hs := cfg.chipIdShift_le
  have hsize : 63 - cfg.chipIdShift = 32 + (31 - cfg.chipIdShift) := by omega
  have hpow : (2 : Nat) ^ 32 =
      2 ^ (127 - cfg.chipIdShift - end_) * 2 ^ (end_ + cfg.chipIdShift - 95) := by
    rw [← Nat.pow_add]
    congr 1
    omega
  rw [firstBits, hsize, value_mod_high, hpow, Nat.mul_left_comm,
    Nat.mul_add_div (Nat.two_pow_pos _)]

theorem and_streamMask (cfg : DecoderConfig) (n : Nat) :
    n &&& cfg.streamMask = n % 2 ^ (31 - cfg.chipIdShift) := by
  rw [cfg.streamMask_eq, Nat.and_two_pow_sub_one_eq_mod]

theorem overflow_first {cfg : DecoderConfig} {bitIdx length : Nat} (b : Block)
    (h : bitIdx + length + cfg.chipIdShift ≤ 95) :
    b.overflow cfg bitIdx length = .ok (b.firstBits cfg (bitIdx + length)) := by
  have hs := cfg.chipIdShift_le
  have hsize : 63 - cfg.chipIdShift = 32 + (31 - cfg.chipIdShift) := by omega
  have hplace : 127 - cfg.chipIdShift - (bitIdx + length) =
      32 + (95 - (bitIdx + length) - cfg.chipIdShift) := by omega
  have hone : bitIdx + length < 96 := by omega
  rw [overflow, if_pos hone, if_pos h, and_streamMask, Nat.shiftRight_eq_div_pow, firstBits,
    hsize, value_mod_high, hplace, Nat.pow_add, ← Nat.div_div_eq_div_mul,
    Nat.mul_comm (b.word0 % _), Nat.mul_add_div (Nat.two_pow_pos 32),
    Nat.div_eq_of_lt b.word1_lt, Nat.add_zero]

theorem overflow_both {cfg : DecoderConfig} {bitIdx length : Nat} (b : Block)
    (hs : cfg.chipIdShift = 0) (hlo : 96 ≤ bitIdx + length) (hhi : bitIdx + length ≤ 127) :
    b.overflow cfg bitIdx length = .ok (b.firstBits cfg (bitIdx + length)) := by
  have hone : ¬ bitIdx + length < 96 := by omega
  have hshift : 127 - (length + bitIdx) = 32 - (bitIdx + length - 95) := by omega
  have hback : 127 - 0 - (bitIdx + length) = 32 - (bitIdx + length - 95) := by omega
  have hlow := b.word1_div_lt (bitIdx + length - 95)
  rw [overflow, if_neg hone, if_pos (by omega), firstBits_both (by omega) (by omega),
    and_streamMask, hs]
  simp only [Nat.sub_zero, Nat.add_zero]
  rw [hshift, Nat.shiftRight_eq_div_pow, shiftLeft_or _ hlow, ← hback, Nat.sub_zero]

/-- With chip IDs the first word lands four places too low. -/
theorem overflow_chipId {cfg : DecoderConfig} {bitIdx length : Nat} (b : Block)
    (hs : cfg.chipIdShift = 2) (hlo : 97 ≤ bitIdx + length) (hhi : bitIdx + length ≤ 125) :
    b.overflow cfg bitIdx length = .ok (((b.word0 % 2 ^ 29) <<< (bitIdx + length - 97)) |||
      b.word1 / 2 ^ (125 - (bitIdx + length))) := by
  have hone : ¬ bitIdx + length < 96 := by omega
  have hright : 127 - (length + bitIdx) - 2 = 125 - (bitIdx + length) := by omega
  rw [overflow, if_neg hone, if_pos (by omega), and_streamMask, hs, hright,
    Nat.shiftRight_eq_div_pow]
  rfl

theorem or_ne_add {a k y : Nat} (ha : a ≠ 0) (hy : y < 2 ^ (k + 4)) :
    (a <<< k ||| y) ≠ a * 2 ^ (k + 4) + y := by
  intro heq
  have hhigh := congrArg (· >>> (k + 4)) heq
  rw [Nat.shiftRight_or_distrib] at hhigh
  simp only [Nat.shiftRight_eq_div_pow, Nat.shiftLeft_eq] at hhigh
  rw [Nat.div_eq_of_lt hy, Nat.or_zero, Nat.mul_comm a (2 ^ (k + 4)),
    Nat.mul_add_div (Nat.two_pow_pos _), Nat.div_eq_of_lt hy, Nat.pow_add, Nat.mul_comm a,
    Nat.mul_div_mul_left _ _ (Nat.two_pow_pos k)] at hhigh
  omega

theorem chipIdShift_cases (cfg : DecoderConfig) :
    cfg.chipIdShift = 0 ∨ cfg.chipIdShift = 2 := by
  unfold DecoderConfig.chipIdShift
  split
  · exact Or.inr rfl
  · exact Or.inl rfl

theorem overflow_stitched {cfg : DecoderConfig} {bitIdx length : Nat} {b : Block}
    (h : b.Stitched cfg (bitIdx + length)) (hlo : 64 ≤ bitIdx + length) :
    bitIdx + length + cfg.chipIdShift ≤ 127 ∧
      b.overflow cfg bitIdx length = .ok (b.firstBits cfg (bitIdx + length)) := by
  have hs := cfg.chipIdShift_le
  by_cases hfirst : bitIdx + length + cfg.chipIdShift ≤ 95
  · exact ⟨by omega, b.overflow_first hfirst⟩
  · rcases h with h | ⟨hzero, hhi⟩ | ⟨hlo', hhi, hempty⟩
    · exact absurd h hfirst
    · exact ⟨by omega, b.overflow_both hzero (by omega) hhi⟩
    · refine ⟨by omega, ?_⟩
      rcases chipIdShift_cases cfg with hzero | htwo
      · exact b.overflow_both hzero (by omega) (by omega)
      · have hplace : 127 - 2 - (bitIdx + length) = 125 - (bitIdx + length) := by omega
        rw [b.overflow_chipId htwo hlo' hhi, firstBits_both (by omega) (by omega), htwo, hempty,
          hplace]
        simp

/-- The wrong place of the first word shows unless the word is empty. -/
theorem misplaced {w0 y k : Nat} (hw : w0 < 2 ^ 29) (hne : w0 ≠ 0) (hy : y < 2 ^ (k + 4)) :
    (w0 <<< k ||| y) < 2 ^ (k + 33) ∧ (w0 <<< k ||| y) ≠ w0 * 2 ^ (k + 4) + y := by
  refine ⟨Nat.or_lt_two_pow ?_ ?_, or_ne_add hne hy⟩
  · rw [Nat.shiftLeft_eq, Nat.add_comm k, Nat.pow_add]
    exact Nat.mul_lt_mul_of_pos_right (by omega) (Nat.two_pow_pos k)
  · exact Nat.lt_of_lt_of_le hy (Nat.pow_le_pow_right (by decide) (by omega))

/-- Where the bits are not put together as they should, no result is defined or it differs. -/
theorem overflow_not_stitched {cfg : DecoderConfig} {bitIdx length : Nat} {b : Block}
    (h : ¬ b.Stitched cfg (bitIdx + length)) (hhi : bitIdx + length < 128)
    {bits : Nat} (hok : b.overflow cfg bitIdx length = .ok bits) :
    bitIdx + length + cfg.chipIdShift ≤ 127 ∧ bits < 2 ^ (bitIdx + length - 64) ∧
      bits ≠ b.firstBits cfg (bitIdx + length) := by
  rcases chipIdShift_cases cfg with hzero | htwo
  · exact absurd (Or.inr (Or.inl ⟨hzero, by omega⟩)) h
  · by_cases hmid : 97 ≤ bitIdx + length ∧ bitIdx + length ≤ 125
    · have hword : b.word0 % 2 ^ 29 ≠ 0 := fun hw => h (Or.inr (Or.inr ⟨hmid.1, hmid.2, hw⟩))
      rw [b.overflow_chipId htwo hmid.1 hmid.2] at hok
      rw [firstBits_both (by omega) (by omega), htwo]
      obtain ⟨k, hk⟩ : ∃ k, bitIdx + length = k + 97 := ⟨bitIdx + length - 97, by omega⟩
      have hright : 125 - (bitIdx + length) = 32 - (k + 4) := by omega
      have hright' : 127 - 2 - (bitIdx + length) = 32 - (k + 4) := by omega
      have hup : bitIdx + length + 2 - 95 = k + 4 := by omega
      have hdown : bitIdx + length - 97 = k := by omega
      have htop : bitIdx + length - 64 = k + 33 := by omega
      rw [hright, hdown] at hok
      rw [hright', hup, htop]
      have hwrong := misplaced (Nat.mod_lt b.word0 (Nat.two_pow_pos 29)) hword
        (b.word1_div_lt (k + 4))
      rw [← Except.ok.inj hok]
      exact ⟨by omega, hwrong.1, hwrong.2⟩
    · have hout : ¬ bitIdx + length + 2 ≤ 95 := fun hle => h (Or.inl (by rw [htwo]; exact hle))
      have hnone : b.overflow cfg bitIdx length = .error .shiftWidth := by
        unfold overflow
        rw [htwo]
        split
        · rfl
        · rw [if_neg (by omega)]
      rw [hnone] at hok
      cases hok

end Block

end Yarr.Pixel

/-!
## Positions in a stream

A decoder stands at a bit of a block, with the kept blocks of the current and
of the waiting containers ahead of it. What it may still read are the payloads
from there on. A search that finds no block leaves the position where it is,
and so does a step back behind a step forward.
-/

namespace Yarr.Pixel

open Bits

/-- The first kept block of some containers, up to one without data. -/
def Parcel.firstBlock : List Parcel → Option Block
  | [] => none
  | p :: rest =>
      match p.blocks with
      | none => none
      | some [] => firstBlock rest
      | some (b :: _) => some b

/-- All kept blocks of some containers. -/
def Parcel.allBlocks (ps : List Parcel) : List Block := ps.flatMap fun p => p.blocks.getD []

namespace Cursor

/-- The blocks ahead, over all containers. -/
def upcoming (c : Cursor) : List Block := c.after ++ Parcel.allBlocks c.input

/-- The block that `getNextDataBlock` would find. -/
def next? (c : Cursor) : Option Block :=
  match c.after with
  | b :: _ => some b
  | [] => Parcel.firstBlock c.input

theorem openFrom_upcoming (c : Cursor) (ps : List Parcel) (o : Output) :
    (c.openFrom ps o).1 = Parcel.firstBlock ps ∧
      (c.openFrom ps o).1.toList ++ (c.openFrom ps o).2.1.upcoming = Parcel.allBlocks ps ∧
      (c.openFrom ps o).2.1.before = (c.openFrom ps o).1.toList ∧
      (c.openFrom ps o).2.1.data = c.data ∧ (c.openFrom ps o).2.1.dataPre = c.dataPre := by
  induction ps generalizing o with
  | nil => exact ⟨rfl, rfl, rfl, rfl, rfl⟩
  | cons p rest ih =>
      cases hb : p.blocks with
      | none => simp [openFrom, Parcel.firstBlock, Parcel.allBlocks, upcoming, hb]
      | some bs =>
          cases bs with
          | nil => simpa [openFrom, Parcel.firstBlock, Parcel.allBlocks, hb] using ih _
          | cons b bs => simp [openFrom, Parcel.firstBlock, Parcel.allBlocks, upcoming, hb]

/-- A search for the next block, seen from the blocks ahead. -/
theorem getNextDataBlock_upcoming (c : Cursor) (o : Output) :
    (c.getNextDataBlock o).1 = c.next?.isSome ∧
      c.next?.toList ++ (c.getNextDataBlock o).2.1.upcoming = c.upcoming ∧
      (∀ b, c.next? = some b → (c.getNextDataBlock o).2.1.data = some b ∧
        ∃ bs, (c.getNextDataBlock o).2.1.before = b :: bs) ∧
      (c.next? = none → (c.getNextDataBlock o).2.1.data = c.data ∧
        (c.getNextDataBlock o).2.1.before = []) := by
  cases ha : c.after with
  | cons b bs =>
      rw [getNextDataBlock_inside ha]
      simp [next?, upcoming, ha]
  | nil =>
      rw [getNextDataBlock_open ha]
      have hopen := openFrom_upcoming { c with dataPre := c.data.getD RawReader.fakeErrorFrame }
        c.input (c.leave o)
      rcases hsearch : ({ c with dataPre := c.data.getD RawReader.fakeErrorFrame }).openFrom
        c.input (c.leave o) with ⟨found, c', o'⟩
      rw [hsearch] at hopen
      rcases hopen with ⟨hfound, hall, hbefore, hdata, -⟩
      have hnext : c.next? = found := by
        rw [next?, ha]
        exact hfound.symm
      have hupcoming : found.toList ++ c'.upcoming = c.upcoming := by
        have hall' : found.toList ++ c'.upcoming = Parcel.allBlocks c.input := hall
        rw [hall', upcoming, ha, List.nil_append]
      rw [hnext, hsearch]
      cases found with
      | some b =>
          refine ⟨rfl, hupcoming, fun b' hb' => ⟨hb', [], ?_⟩, fun hnone => by cases hnone⟩
          rw [← Option.some.inj hb']
          exact hbefore
      | none =>
          refine ⟨rfl, hupcoming, ?_, fun _ => ⟨hdata, hbefore⟩⟩
          intro b' hb'
          cases hb'

theorem upcoming_previous {c : Cursor} {b : Block} {bs : List Block} (h : c.before = b :: bs) :
    c.getPreviousDataBlock.upcoming = b :: c.upcoming := by
  simp [getPreviousDataBlock, h, upcoming]

theorem upcoming_previous_front {c : Cursor} (h : c.before = []) :
    c.getPreviousDataBlock.upcoming = c.upcoming := by
  simp [getPreviousDataBlock, h, upcoming]

end Cursor

/-- A reader that can be looked at as a cursor. -/
class Viewed (ρ : Type) [BlockReader ρ] where
  view : ρ → Cursor
  hom : ReaderHom view

instance : Viewed Cursor where
  view c := c
  hom := ⟨fun _ => rfl, fun _ => rfl, fun _ => rfl, fun _ _ => rfl, fun _ => rfl⟩

instance (cfg : DecoderConfig) : Viewed (StreamReader cfg) where
  view := StreamReader.view
  hom := StreamReader.view_hom

/-- Where a decoder stands. -/
structure Position where
  data : Option Block
  bitIdx : Nat
  upcoming : List Block

/-- The payload bits from a position on. -/
def Position.bitsAhead (cfg : DecoderConfig) (p : Position) : List Bool :=
  match p.data with
  | none => []
  | some d =>
      (d.payload cfg).drop (p.bitIdx - 1 - cfg.chipIdShift) ++
        p.upcoming.flatMap (Block.payload cfg)

namespace Decoder

variable {ρ : Type} [BlockReader ρ] [Viewed ρ]

def position (s : Decoder ρ) : Position where
  data := BlockReader.data s.reader
  bitIdx := s.bitIdx
  upcoming := (Viewed.view s.reader).upcoming

def bitsAhead (cfg : DecoderConfig) (s : Decoder ρ) : List Bool := s.position.bitsAhead cfg

/-- The block that the next search would find. -/
def nextBlock? (s : Decoder ρ) : Option Block := (Viewed.view s.reader).next?

/-- A decoder that has a block and stands at a bit behind its head, or at its end. -/
structure Standing (cfg : DecoderConfig) (s : Decoder ρ) : Prop where
  placed : (Viewed.view s.reader).Placed
  data : (BlockReader.data s.reader).isSome = true
  behind : 1 + cfg.chipIdShift ≤ s.bitIdx
  inside : s.bitIdx ≤ 64

theorem data_view (s : Decoder ρ) :
    (Viewed.view s.reader).data = BlockReader.data s.reader := Viewed.hom.data s.reader

theorem view_nextBlock (s : Decoder ρ) : Viewed.view s.nextBlock.2.reader =
    ((Viewed.view s.reader).getNextDataBlock s.output).2.1 := by
  have hnext := Viewed.hom.next (f := Viewed.view) s.reader s.output
  exact (congrArg (fun found => found.2.1) hnext).symm

theorem view_previousBlock (s : Decoder ρ) :
    Viewed.view s.previousBlock.reader = (Viewed.view s.reader).getPreviousDataBlock :=
  (Viewed.hom.previous s.reader).symm

/-- What a search does to the position. -/
inductive Searched (s : Decoder ρ) : Prop where
  | found (b : Block) (us : List Block) : s.nextBlock? = some b →
      (Viewed.view s.reader).upcoming = b :: us → s.nextBlock.1 = true →
      s.nextBlock.2.position = ⟨some b, s.bitIdx, us⟩ →
      s.nextBlock.2.previousBlock.position = s.position → Searched s
  | dry : s.nextBlock? = none → s.nextBlock.1 = false →
      s.nextBlock.2.previousBlock.position = s.position → Searched s

theorem searched {s : Decoder ρ} (hplaced : (Viewed.view s.reader).Placed) {d : Block}
    (hd : BlockReader.data s.reader = some d) : Searched s := by
  let c := Viewed.view s.reader
  have hview : Viewed.view s.nextBlock.2.reader = (c.getNextDataBlock s.output).2.1 :=
    view_nextBlock s
  have hfirst : s.nextBlock.1 = (c.getNextDataBlock s.output).1 :=
    (congrArg Prod.fst (Viewed.hom.next (f := Viewed.view) s.reader s.output)).symm
  have hcd : c.data = some d := (data_view s).trans hd
  have hback : Viewed.view s.nextBlock.2.previousBlock.reader =
      (c.getNextDataBlock s.output).2.1.getPreviousDataBlock := by
    rw [view_previousBlock, hview]
  have hbackData := Cursor.data_previous_next hplaced hcd s.output
  have hprevious : (c.getNextDataBlock s.output).2.1.getPreviousDataBlock.upcoming = c.upcoming →
      s.nextBlock.2.previousBlock.position = s.position := by
    intro hup
    unfold position
    rw [← data_view, ← data_view s, hback, hup, hbackData, ← hcd]
    rfl
  rcases Cursor.getNextDataBlock_upcoming c s.output with ⟨hfound, hup, hsome, hnone⟩
  cases hn : c.next? with
  | some b =>
      rcases hsome b hn with ⟨hdata, bs, hbefore⟩
      rw [hn] at hup hfound
      rw [← hview] at hdata hup
      refine .found b (Viewed.view s.nextBlock.2.reader).upcoming hn hup.symm
        (hfirst.trans hfound) ?_ ?_
      · unfold position
        rw [← data_view]
        exact congrArg (fun data => Position.mk data _ _) hdata
      · apply hprevious
        rw [Cursor.upcoming_previous hbefore, ← hview]
        exact hup
  | none =>
      rcases hnone hn with ⟨-, hbefore⟩
      rw [hn] at hup hfound
      refine .dry hn (hfirst.trans hfound) ?_
      apply hprevious
      rw [Cursor.upcoming_previous_front hbefore]
      exact hup

theorem placed_nextBlock {s : Decoder ρ} (h : (Viewed.view s.reader).Placed) :
    (Viewed.view s.nextBlock.2.reader).Placed := by
  rw [view_nextBlock]
  exact Cursor.placed_next h s.output

theorem placed_previousBlock {s : Decoder ρ} (h : (Viewed.view s.reader).Placed) :
    (Viewed.view s.previousBlock.reader).Placed := by
  rw [view_previousBlock]
  exact Cursor.placed_previous h

theorem data_previousBlock (s : Decoder ρ) :
    (BlockReader.data s.previousBlock.reader).isSome = true := by
  rw [← data_view, view_previousBlock]
  unfold Cursor.getPreviousDataBlock
  split <;> rfl

end Decoder

end Yarr.Pixel
