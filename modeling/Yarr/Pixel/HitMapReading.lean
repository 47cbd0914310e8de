import Yarr.Pixel.BitReader
import Yarr.Pixel.TreeCodeReading

/-!
# Hit maps on the decoders

`HMAP1` reads the window of a map, `HMAP2` looks it up, gives back what is not
part of the code and asks for a second window where the second row did not fit.
Inside a block the two labels together take the bits of the code and no others.
-/

namespace Yarr.Pixel

open Bits TreeCode

variable {ρ : Type} [BlockReader ρ] [Viewed ρ] {cfg : DecoderConfig} {s : Decoder ρ}

/-- A method reads the bits in front of it wherever the block at hand has them. -/
def ReadsInBlock (cfg : DecoderConfig) (retrieve : Retrieve ρ) : Prop :=
  ∀ (s : Decoder ρ) value length, s.Standing cfg → length ≠ 0 → s.bitIdx + length < 64 →
    retrieve value length false true s = .ok ⟨true, valueOf ((s.bitsAhead cfg).take length),
      { s with bitIdx := s.bitIdx + length }⟩

namespace Decoder

/-- The bits of a field, and those behind it. -/
theorem bitsAhead_split {d : Block} (hs : s.Standing cfg)
    (hd : BlockReader.data s.reader = some d) {length : Nat} (hlen : length ≠ 0)
    (hfit : s.bitIdx + length ≤ 64) :
    d.field s.bitIdx length = valueOf ((s.bitsAhead cfg).take length) ∧
      ({ s with bitIdx := s.bitIdx + length } : Decoder ρ).bitsAhead cfg =
        (s.bitsAhead cfg).drop length := by
  have hreads := reads_field hs hd hlen hfit
  simp only [ReadsPayload, if_true] at hreads
  obtain ⟨hlt, hbits⟩ := hreads
  have hlength := length_bitsOf length (d.field s.bitIdx length)
  rw [← hbits, List.take_left' hlength, List.drop_left' hlength,
    valueOf_bitsOf_of_lt (hlt hlen)]
  exact ⟨rfl, rfl⟩

omit [Viewed ρ] in
theorem rollBack_inside {length : Nat} (h : length + 1 + cfg.chipIdShift ≤ s.bitIdx) :
    s.rollBack cfg length = { s with bitIdx := s.bitIdx - length } := by
  unfold rollBack
  by_cases hzero : length = 0
  · rw [if_pos hzero, hzero, Nat.sub_zero]
  · rw [if_neg hzero, if_pos h]

omit [Viewed ρ] in
/-- `0xff` stands for no bit to give back, as 0 says that the whole map was there. -/
theorem rollBackRow_inside {back row : Nat} (hback : back ≤ 14)
    (hrow : row = if back = 0 then 0xff else back) (h : back + 1 + cfg.chipIdShift ≤ s.bitIdx) :
    (if row ≠ 0xff then s.rollBack cfg row else s) = { s with bitIdx := s.bitIdx - back } := by
  rw [hrow]
  by_cases hzero : back = 0
  · rw [if_pos hzero, if_neg (by decide), hzero, Nat.sub_zero]
  · rw [if_neg hzero, if_pos (by omega), rollBack_inside h]

theorem map_of_rows (m : Nat) : m % 2 ^ 8 ||| (m / 2 ^ 8) <<< 8 = m := by
  rw [Nat.or_comm, ← Nat.shiftLeft_add_eq_or_of_lt (Nat.mod_lt _ (Nat.two_pow_pos 8)),
    Nat.shiftLeft_eq, Nat.mul_comm, Nat.div_add_mod]

/-- The second window takes the code of its row and puts the row over the first one. -/
theorem secondRow_read_back {retrieve : Retrieve ρ} (hlaw : ReadsInBlock cfg retrieve)
    (hs : s.Standing cfg) (hroom : s.bitIdx + 14 < 64) {m : Nat} (hm : m < 2 ^ 16)
    (hsecond : m / 2 ^ 8 ≠ 0) (hfirst : s.hitmap = m % 2 ^ 8) {pad : List Bool}
    (hpad : 14 ≤ pad.length)
    (hbits : (s.bitsAhead cfg).take 14 = (rowCode (m / 2 ^ 8) ++ pad).take 14) :
    withField (retrieve 0 14 false true s) (fun _ s => s) (fun rowMap s =>
        let row := lutBinaryTreeRowHMap rowMap
        let s := { s with hitmap := s.hitmap ||| (row.map <<< 8) }
        .cont { s.rollBack cfg row.rollBack with status := .tot }) =
      .cont { s with
        hitmap := m
        bitIdx := s.bitIdx + (rowCode (m / 2 ^ 8)).length
        status := .tot } := by
  have hentry := lutBinaryTreeRowHMap_code (show m / 2 ^ 8 < 2 ^ 8 by omega) hsecond hpad
  rw [hlaw s 0 14 hs (by decide) hroom, hbits]
  unfold withField
  dsimp only
  rw [if_pos rfl, hentry]
  dsimp only
  rw [hfirst, map_of_rows]
  have hle := length_rowCode (m / 2 ^ 8)
  have hbehind := hs.behind
  rw [rollBack_inside (by dsimp only; omega)]
  have hidx : s.bitIdx + 14 - (14 - (rowCode (m / 2 ^ 8)).length) =
      s.bitIdx + (rowCode (m / 2 ^ 8)).length := by
    omega
  dsimp only
  rw [hidx]

/-- Two labels take exactly the code of a map from the bits in front. -/
theorem hitMap_read_back {retrieve : Retrieve ρ} (hlaw : ReadsInBlock cfg retrieve)
    (hs : s.Standing cfg) (hcompressed : cfg.isCompressedHitmap = true)
    (hroom : s.bitIdx + 30 < 64) {m : Nat} (hm : m < 2 ^ 16) (hne : m ≠ 0) {rest : List Bool}
    (hbits : s.bitsAhead cfg = treeCode m ++ rest) :
    ∃ t : Decoder ρ, t.status = .hmap2 ∧ hmap1 retrieve s = .cont t ∧
      hmap2 cfg retrieve t = .cont { s with
        hitmap := m
        bitIdx := s.bitIdx + (treeCode m).length
        status := .tot } := by
  rcases Option.isSome_iff_exists.mp hs.data with ⟨d, hd⟩
  have hbehind := hs.behind
  -- what is behind the block does not show in the windows
  have hahead : 30 ≤ (treeCode m ++ rest).length := by
    rw [← hbits, bitsAhead_of_position (position_of_data hd),
      Position.bitsAhead_eq hs.behind hs.inside, List.length_append, length_bitsOf]
    omega
  let pad := rest ++ List.replicate 30 false
  have hpad : 30 ≤ pad.length := by
    rw [List.length_append, List.length_replicate]
    omega
  have hwindow : ∀ n ≤ 30, (treeCode m ++ rest).take n = (treeCode m ++ pad).take n := by
    intro n hn
    rw [← List.append_assoc, List.take_append_of_le_length (Nat.le_trans hn hahead)]
  let raw := valueOf ((treeCode m ++ pad).take 16)
  have hraw : raw % 2 ^ 16 = raw := by
    apply Nat.mod_eq_of_lt
    have hlt := valueOf_lt ((treeCode m ++ pad).take 16)
    rwa [List.length_take_of_le (by rw [List.length_append]; omega)] at hlt
  have hfirst := hlaw s s.hitmap 16 hs (by decide) (by omega)
  rw [hbits, hwindow 16 (by decide)] at hfirst
  refine ⟨{ s with bitIdx := s.bitIdx + 16, hitmap := raw, status := .hmap2 }, rfl, ?_, ?_⟩
  · rw [hmap1, hfirst]
    rfl
  unfold hmap2
  dsimp only
  rw [if_pos hcompressed, hraw]
  have hlooked : Looked m pad (lutBinaryTreeHitMap raw) := lutBinaryTreeHitMap_code hm hne hpad
  cases hlooked with
  | whole hrow hmap hlength =>
      rw [if_neg (by rw [hrow]; decide), hmap]
      rw [rollBack_inside (by dsimp only; omega)]
      have hidx : s.bitIdx + 16 - (lutBinaryTreeHitMap raw).rollBack =
          s.bitIdx + (treeCode m).length := by
        omega
      rw [hidx]
  | first back hback hrow hmap hsecond hlength hdrop =>
      have hpos : (lutBinaryTreeHitMap raw).rollBackRow > 0 := by
        rw [hrow]
        split <;> omega
      rw [if_pos hpos, hmap, rollBackRow_inside hback hrow (by dsimp only; omega)]
      have hback_idx : s.bitIdx + 16 - back = s.bitIdx + (16 - back) := by omega
      have hsplit := (bitsAhead_split hs hd (show 16 - back ≠ 0 by omega) (by omega)).2
      have hrowBits : ((s.bitsAhead cfg).drop (16 - back)).take 14 =
          (rowCode (m / 2 ^ 8) ++ pad).take 14 := by
        rw [hbits, ← hdrop, List.take_drop, List.take_drop, hwindow _ (by omega)]
      have hrest := @secondRow_read_back ρ _ _ cfg
        { s with bitIdx := s.bitIdx + (16 - back), hitmap := m % 2 ^ 8, status := .hmap2 }
        retrieve hlaw ⟨hs.placed, hs.data, by dsimp only; omega, by dsimp only; omega⟩
        (by dsimp only; omega) m hm hsecond rfl pad (by omega)
        (by rw [← hrowBits, ← hsplit]; rfl)
      dsimp only at hrest ⊢
      rw [hback_idx, hrest, hlength, Nat.add_assoc]

end Decoder

open Decoder

theorem Itkpixv2DataProcessor.readsInBlock (cfg : DecoderConfig) :
    ReadsInBlock cfg (Itkpixv2DataProcessor.retrieve cfg : Retrieve ρ) := by
  intro s value length hs hlen hfit
  rcases Option.isSome_iff_exists.mp hs.data with ⟨d, hd⟩
  unfold retrieve
  rw [if_neg hlen, hd]
  dsimp only
  rw [if_pos (Nat.le_of_lt hfit), (bitsAhead_split hs hd hlen (Nat.le_of_lt hfit)).1]

theorem Rd53bDataProcessor.readsInBlock (cfg : DecoderConfig) :
    ReadsInBlock cfg (Rd53bDataProcessor.retrieve cfg : Retrieve ρ) := by
  intro s value length hs hlen hfit
  rcases Option.isSome_iff_exists.mp hs.data with ⟨d, hd⟩
  unfold retrieve
  rw [if_neg hlen, hd]
  simp only [Bool.false_and, Bool.false_eq_true, if_false]
  rw [if_pos hfit, (bitsAhead_split hs hd hlen (Nat.le_of_lt hfit)).1]

/-- Where a block has the two windows of a map, either decoder takes the map that was encoded and
exactly the bits of its code. -/
theorem tree_code_read_back (s : Decoder ρ) (hs : s.Standing cfg) (hstatus : s.status = .hmap1)
    (hcompressed : cfg.isCompressedHitmap = true) (hroom : s.bitIdx + 30 < 64) (m : Nat)
    (hm : m < 2 ^ 16) (hne : m ≠ 0) (rest : List Bool)
    (hbits : s.bitsAhead cfg =
      bitsOf (itkpixv2QCoreEncodingLUT_Length m) (itkpixv2QCoreEncodingLUT_Tree m) ++ rest) :
    let after : Decoder ρ := { s with
      hitmap := m
      bitIdx := s.bitIdx + itkpixv2QCoreEncodingLUT_Length m
      status := .tot }
    (∃ t, Itkpixv2DataProcessor.step cfg s = .cont t ∧
        Itkpixv2DataProcessor.step cfg t = .cont after) ∧
      ∃ t, Rd53bDataProcessor.step cfg s = .cont t ∧ Rd53bDataProcessor.step cfg t = .cont after := by
  rw [itkpixv2QCoreEncodingLUT_Length, itkpixv2QCoreEncodingLUT_Tree, bitsOf_valueOf] at hbits
  constructor
  · obtain ⟨t, ht, hone, htwo⟩ := hitMap_read_back (Itkpixv2DataProcessor.readsInBlock cfg) hs
      hcompressed hroom hm hne hbits
    refine ⟨t, ?_, ?_⟩
    · rw [Itkpixv2DataProcessor.step, hstatus]
      exact hone
    · rw [Itkpixv2DataProcessor.step, ht]
      exact htwo
  · obtain ⟨t, ht, hone, htwo⟩ := hitMap_read_back (Rd53bDataProcessor.readsInBlock cfg) hs
      hcompressed hroom hm hne hbits
    refine ⟨t, ?_, ?_⟩
    · rw [Rd53bDataProcessor.step, hstatus]
      exact hone
    · rw [Rd53bDataProcessor.step, ht]
      exact htwo

/-- A block with the code of a map of one pixel. -/
def onePixelCode : Decoder Cursor :=
  let b := Block.ofWords 0x55000000 0
  let stat : LoopStatus := ⟨[], [], false, LoopStatus.same_size_nil⟩
  { Decoder.initial ⟨[], some ⟨stat, some [b]⟩, [b], [], some b, b⟩ none with
    status := .hmap1
    bitIdx := 1 }

theorem onePixelCode_standing : onePixelCode.Standing (.init 0 0 0 1 0 0) where
  placed := ⟨fun b bs h => by cases h; rfl, fun h => by cases h⟩
  data := rfl
  behind := by decide
  inside := by decide

theorem one_pixel_read_back :
    let cfg := DecoderConfig.init 0 0 0 1 0 0
    let after : Decoder Cursor := { onePixelCode with hitmap := 1, bitIdx := 9, status := .tot }
    (∃ t, Itkpixv2DataProcessor.step cfg onePixelCode = .cont t ∧
        Itkpixv2DataProcessor.step cfg t = .cont after) ∧
      ∃ t, Rd53bDataProcessor.step cfg onePixelCode = .cont t ∧
        Rd53bDataProcessor.step cfg t = .cont after :=
  tree_code_read_back onePixelCode onePixelCode_standing rfl rfl (by decide) 1 (by decide)
    (by decide) ((onePixelCode.bitsAhead (.init 0 0 0 1 0 0)).drop 8) (by decide)

end Yarr.Pixel
