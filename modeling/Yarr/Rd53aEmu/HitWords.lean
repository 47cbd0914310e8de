import Mathlib.Data.List.Induction
import Mathlib.Tactic.FinCases
import Yarr.Core.Bits
import Yarr.Rd53.Rd53aDataProcessor
import Yarr.Rd53aEmu.ExecuteLoop
import Yarr.Rd53aEmu.WritePool

/-!
# Hit words of the emulator

Four neighbouring pixels of a row share a word. A hit puts its code into one of
the four fields of the word, and a field that is zero at the end is taken for
one without a hit.
-/

namespace Yarr.Rd53aEmu

open Emu (fillToT)

abbrev n_coreCols : Nat := 50

/-- The regions of four pixels of the matrix. -/
abbrev n_regions : Nat := 100 * 192

/-- A pixel that is hit, in the coordinates of its core, with a code from 0 to 14. -/
structure PixelHit where
  coreCol : Fin n_coreCols
  coreRow : Fin n_coreRows
  subCol : Fin 8
  subRow : Fin 8
  ToT : Fin 15
  deriving DecidableEq

namespace PixelHit

variable (h : PixelHit)

def col : Nat := h.coreCol.val * 8 + h.subCol.val
def row : Nat := h.coreRow.val * 8 + h.subRow.val

/-- Where the word of the pixel stands among those of its tag. -/
def coord : Fin n_regions :=
  ⟨(h.coreCol.val * 2 + h.subCol.val / 4) * 192 + (h.coreRow.val * 8 + h.subRow.val), by
    have hcol : h.coreCol.val < 50 := h.coreCol.isLt
    have hrow : h.coreRow.val < 24 := h.coreRow.isLt
    have hsubCol := h.subCol.isLt
    have hsubRow := h.subRow.isLt
    show _ < 19200
    omega⟩

/-- The field of the pixel in its word. -/
def field : Fin 4 := Fin.ofNat 4 h.subCol.val

def word : UInt32 :=
  (UInt32.ofNat h.coreCol.val <<< (26 : UInt32)) + (UInt32.ofNat h.coreRow.val <<< (20 : UInt32)) +
    (UInt32.ofNat h.subRow.val <<< (17 : UInt32)) +
    (UInt32.ofNat (h.subCol.val / 4) <<< (16 : UInt32)) +
    (UInt32.ofNat h.ToT.val <<< UInt32.ofNat (4 * (h.subCol.val % 4)))

end PixelHit

/-! ## Fields of words -/

/-- The upper half of a word, where its region stands. -/
def upper (w : UInt32) : Nat := w.toNat / 2 ^ 16

/-- One of the four fields of the lower half. -/
def nibble (w : UInt32) (k : Fin 4) : Nat := w.toNat / 2 ^ (4 * k.val) % 2 ^ 4

theorem upper_or (a b : UInt32) : upper (a ||| b) = upper a ||| upper b := by
  unfold upper
  rw [UInt32.toNat_or, ← Nat.shiftRight_eq_div_pow, ← Nat.shiftRight_eq_div_pow,
    ← Nat.shiftRight_eq_div_pow, Nat.shiftRight_or_distrib]

theorem nibble_or (a b : UInt32) (k : Fin 4) : nibble (a ||| b) k = nibble a k ||| nibble b k := by
  unfold nibble
  rw [UInt32.toNat_or, ← Nat.shiftRight_eq_div_pow, ← Nat.shiftRight_eq_div_pow,
    ← Nat.shiftRight_eq_div_pow, Nat.shiftRight_or_distrib, Nat.or_mod_two_pow]

/-- The upper half of the word of a region. -/
def regionUpper (g : Fin n_regions) : Nat :=
  g.val / 192 / 2 * 2 ^ 10 + g.val % 192 / 8 * 2 ^ 4 + g.val % 192 % 8 * 2 + g.val / 192 % 2

namespace PixelHit

variable (h : PixelHit)

theorem code_lt : h.ToT.val * 2 ^ (4 * h.field.val) < 2 ^ 16 := by
  have htot := h.ToT.isLt
  have hfield := h.field.isLt
  have hpow : 2 ^ (4 * h.field.val) ≤ 2 ^ 12 := Nat.pow_le_pow_right Nat.two_pos (by omega)
  have hprod := Nat.mul_le_mul (Nat.le_of_lt_succ htot) hpow
  omega

theorem toNat_shifted_code :
    (UInt32.ofNat h.ToT.val <<< UInt32.ofNat (4 * (h.subCol.val % 4))).toNat =
      h.ToT.val * 2 ^ (4 * h.field.val) := by
  have htot := h.ToT.isLt
  have hsmall := h.code_lt
  have hlt : 4 * (h.subCol.val % 4) < 32 := by omega
  rw [← UInt32.toNat_toBitVec, Bits.toBitVec_shiftLeft_ofNat _ hlt, BitVec.toNat_shiftLeft]
  show (h.ToT.val % 2 ^ 32) <<< (4 * h.field.val) % 2 ^ 32 = _
  rw [Nat.shiftLeft_eq, Nat.mod_eq_of_lt (by omega : h.ToT.val < 2 ^ 32)]
  exact Nat.mod_eq_of_lt (by omega)

theorem toNat_word : h.word.toNat =
    regionUpper h.coord * 2 ^ 16 + h.ToT.val * 2 ^ (4 * h.field.val) := by
  have hcol : h.coreCol.val < 50 := h.coreCol.isLt
  have hrow : h.coreRow.val < 24 := h.coreRow.isLt
  have hsubCol := h.subCol.isLt
  have hsubRow := h.subRow.isLt
  have hsmall := h.code_lt
  have hcoord : h.coord.val =
      (h.coreCol.val * 2 + h.subCol.val / 4) * 192 + (h.coreRow.val * 8 + h.subRow.val) := rfl
  have hupper : regionUpper h.coord =
      h.coreCol.val * 2 ^ 10 + h.coreRow.val * 2 ^ 4 + h.subRow.val * 2 + h.subCol.val / 4 := by
    unfold regionUpper
    omega
  have hplace (n k : Nat) (hk : k < 32) (hn : n * 2 ^ k < 2 ^ 32) (hn' : n < 2 ^ 32) :
      (UInt32.ofNat n <<< UInt32.ofNat k).toNat = n * 2 ^ k := by
    rw [← UInt32.toNat_toBitVec, Bits.toBitVec_shiftLeft_ofNat _ hk, BitVec.toNat_shiftLeft]
    show (n % 2 ^ 32) <<< k % 2 ^ 32 = _
    rw [Nat.mod_eq_of_lt hn', Nat.shiftLeft_eq, Nat.mod_eq_of_lt hn]
  have h26 : (UInt32.ofNat h.coreCol.val <<< (26 : UInt32)).toNat = h.coreCol.val * 2 ^ 26 :=
    hplace h.coreCol.val 26 (by omega) (by omega) (by omega)
  have h20 : (UInt32.ofNat h.coreRow.val <<< (20 : UInt32)).toNat = h.coreRow.val * 2 ^ 20 :=
    hplace h.coreRow.val 20 (by omega) (by omega) (by omega)
  have h17 : (UInt32.ofNat h.subRow.val <<< (17 : UInt32)).toNat = h.subRow.val * 2 ^ 17 :=
    hplace h.subRow.val 17 (by omega) (by omega) (by omega)
  have h16 : (UInt32.ofNat (h.subCol.val / 4) <<< (16 : UInt32)).toNat =
      h.subCol.val / 4 * 2 ^ 16 :=
    hplace (h.subCol.val / 4) 16 (by omega) (by omega) (by omega)
  unfold word
  rw [UInt32.toNat_add, UInt32.toNat_add, UInt32.toNat_add, UInt32.toNat_add,
    toNat_shifted_code, hupper, h26, h20, h17, h16]
  omega

theorem upper_word : upper h.word = regionUpper h.coord := by
  have hsmall := h.code_lt
  unfold upper
  rw [toNat_word]
  omega

theorem nibble_word (k : Fin 4) : nibble h.word k = if k = h.field then h.ToT.val else 0 := by
  have htot := h.ToT.isLt
  have hsmall := h.code_lt
  unfold nibble
  rw [toNat_word]
  generalize h.field = j at hsmall ⊢
  fin_cases k <;> fin_cases j <;> simp <;> omega

end PixelHit

/-! ## Fields without a hit -/

theorem fill_field {w m : UInt32} {j : Fin 4} (hm : ∀ k, nibble m k = if k = j then 15 else 0)
    (hupper : upper m = 0) {c : Prop} [Decidable c] (hc : c ↔ nibble w j = 0) :
    upper (if c then w ||| m else w) = upper w ∧
      ∀ k, nibble (if c then w ||| m else w) k =
        if k = j ∧ nibble w k = 0 then 15 else nibble w k := by
  by_cases hzero : c
  · rw [if_pos hzero, upper_or, hupper, Nat.or_zero]
    refine ⟨rfl, fun k => ?_⟩
    rw [nibble_or, hm]
    by_cases hk : k = j
    · subst hk
      rw [if_pos rfl, hc.mp hzero, Nat.zero_or, if_pos ⟨rfl, rfl⟩]
    · rw [if_neg hk, Nat.or_zero, if_neg fun h => hk h.1]
  · rw [if_neg hzero]
    refine ⟨rfl, fun k => ?_⟩
    have hnot : ¬(k = j ∧ nibble w k = 0) := by
      rintro ⟨rfl, hk⟩
      exact hzero (hc.mpr hk)
    rw [if_neg hnot]

theorem field_eq_zero_iff (w mask : UInt32) (j : Fin 4)
    (hmask : mask.toNat >>> (4 * j.val) = 2 ^ 4 - 1) :
    (w.toNat &&& mask.toNat) >>> (4 * j.val) = 0 ↔ nibble w j = 0 := by
  rw [Bits.mask_shiftRight mask.toNat (4 * j.val) 4 hmask]
  exact Iff.rfl

theorem fillToT_spec (w : UInt32) :
    upper (fillToT w) = upper w ∧
      ∀ k, nibble (fillToT w) k = if nibble w k = 0 then 15 else nibble w k := by
  have hzero (w : UInt32) : w &&& 0x000f = 0 ↔ nibble w 0 = 0 := by
    rw [← UInt32.toNat_inj, ← field_eq_zero_iff w 0x000f 0 rfl]
    exact Iff.rfl
  have hone (w : UInt32) : (w &&& 0x00f0) >>> 4 = 0 ↔ nibble w 1 = 0 := by
    rw [← UInt32.toNat_inj, ← field_eq_zero_iff w 0x00f0 1 rfl]
    exact Iff.rfl
  have htwo (w : UInt32) : (w &&& 0x0f00) >>> 8 = 0 ↔ nibble w 2 = 0 := by
    rw [← UInt32.toNat_inj, ← field_eq_zero_iff w 0x0f00 2 rfl]
    exact Iff.rfl
  have hthree (w : UInt32) : (w &&& 0xf000) >>> 12 = 0 ↔ nibble w 3 = 0 := by
    rw [← UInt32.toNat_inj, ← field_eq_zero_iff w 0xf000 3 rfl]
    exact Iff.rfl
  unfold fillToT
  extract_lets w₁ w₂ w₃
  obtain ⟨hu₁, hn₁⟩ := fill_field (by decide : ∀ k, nibble 0x000f k = if k = 0 then 15 else 0)
    (by decide) (hzero w)
  obtain ⟨hu₂, hn₂⟩ := fill_field (by decide : ∀ k, nibble 0x00f0 k = if k = 1 then 15 else 0)
    (by decide) (hone w₁)
  obtain ⟨hu₃, hn₃⟩ := fill_field (by decide : ∀ k, nibble 0x0f00 k = if k = 2 then 15 else 0)
    (by decide) (htwo w₂)
  obtain ⟨hu₄, hn₄⟩ := fill_field (by decide : ∀ k, nibble 0xf000 k = if k = 3 then 15 else 0)
    (by decide) (hthree w₃)
  refine ⟨hu₄.trans (hu₃.trans (hu₂.trans hu₁)), fun k => ?_⟩
  rw [hn₄, show nibble w₃ k = _ from hn₃ k, show nibble w₂ k = _ from hn₂ k,
    show nibble w₁ k = _ from hn₁ k]
  fin_cases k <;> simp

/-! ## The word of a region -/

/-- What the hits of a region leave in its word. -/
def orWords (hits : List PixelHit) : UInt32 := hits.foldl (fun w h => w ||| h.word) 0

theorem orWords_append (hits : List PixelHit) (h : PixelHit) :
    orWords (hits ++ [h]) = orWords hits ||| h.word := by
  rw [orWords, List.foldl_append]
  rfl

/-- Each hit has its code in its field, and the fields of the others are zero. -/
structure Stored (g : Fin n_regions) (hits : List PixelHit) (w : UInt32) : Prop where
  upper : upper w = if hits = [] then 0 else regionUpper g
  code : ∀ h ∈ hits, nibble w h.field = h.ToT.val
  empty : ∀ k, (∀ h ∈ hits, h.field ≠ k) → nibble w k = 0

theorem stored_orWords {g : Fin n_regions} {hits : List PixelHit} (hg : ∀ h ∈ hits, h.coord = g)
    (hnodup : (hits.map PixelHit.field).Nodup) : Stored g hits (orWords hits) := by
  induction hits using List.reverseRecOn with
  | nil =>
      exact
        { upper := rfl
          code := fun h hh => absurd hh List.not_mem_nil
          empty := fun k _ => by
            revert k
            decide }
  | append_singleton hits last ih =>
      rw [List.map_append, List.nodup_append] at hnodup
      obtain ⟨hfields, -, hnew⟩ := hnodup
      have hlast : ∀ h ∈ hits, h.field ≠ last.field := fun h hh =>
        hnew _ (List.mem_map_of_mem hh) _ (List.mem_singleton.mpr rfl)
      have hold := ih (fun h hh => hg h (List.mem_append_left _ hh)) hfields
      have hcoord : last.coord = g := hg last (List.mem_append_right _ List.mem_cons_self)
      rw [orWords_append]
      exact
        { upper := by
            rw [upper_or, hold.upper, last.upper_word, hcoord]
            by_cases hnil : hits = []
            · simp [hnil]
            · simp [hnil]
          code := by
            intro h hh
            rw [nibble_or, PixelHit.nibble_word]
            rcases List.mem_append.mp hh with hh | hh
            · rw [if_neg (hlast h hh), hold.code h hh, Nat.or_zero]
            · rw [List.mem_singleton.mp hh, if_pos rfl, hold.empty _ hlast, Nat.zero_or]
          empty := by
            intro k hk
            have hk' : k ≠ last.field := fun heq =>
              hk last (List.mem_append_right _ List.mem_cons_self) heq.symm
            rw [nibble_or, PixelHit.nibble_word, if_neg hk',
              hold.empty k fun h hh => hk h (List.mem_append_left _ hh), Nat.or_zero] }

/-! ## Decoding the word of a region -/

open Rd53.Rd53aDataProcessor Pixel Pixel.Fragments

/-- The hits of the fields that are not zero. -/
def regionHits (g : Fin n_regions) (w : UInt32) : List FrontEndHit :=
  (List.finRange 4).flatMap fun k =>
    if nibble w k = 0 then []
    else [⟨g.val / 192 * 4 + k.val + 1, g.val % 192 + 1, nibble w k + 1⟩]

theorem regionUpper_fields (g : Fin n_regions) :
    regionUpper g / 2 ^ 10 % 2 ^ 6 = g.val / 192 / 2 ∧
      regionUpper g / 2 ^ 4 % 2 ^ 6 = g.val % 192 / 8 ∧
      regionUpper g % 2 ^ 4 = g.val % 192 % 8 * 2 + g.val / 192 % 2 ∧
      regionUpper g / 2 ^ 9 % 2 = 0 ∧ regionUpper g < 65535 := by
  have hg : g.val < 19200 := g.isLt
  have hcol : g.val / 192 < 100 := by omega
  have hrow : g.val % 192 < 192 := Nat.mod_lt _ (by omega)
  unfold regionUpper
  generalize g.val / 192 = a at hcol ⊢
  generalize g.val % 192 = r at hrow ⊢
  omega

theorem field_upper {data : UInt32} {u : Nat} (hupper : upper data = u) (n : Nat) :
    data.toNat / 2 ^ (16 + n) = u / 2 ^ n := by
  rw [← hupper, upper, Nat.div_div_eq_div_mul, Nat.pow_add]

theorem toNat_pixel {g : Fin n_regions} {data : UInt32} (hupper : upper data = regionUpper g) :
    (pixCol data).toNat = g.val / 192 * 4 ∧ (pixRow data).toNat = g.val % 192 := by
  have hg : g.val < 19200 := g.isLt
  obtain ⟨hcoreCol, hcoreRow, hsub, -, -⟩ := regionUpper_fields g
  have hcol : (data >>> 26) &&& 0x3F = UInt32.ofNat (g.val / 192 / 2) := by
    apply UInt32.toNat_inj.mp
    show data.toNat >>> 26 &&& 63 = g.val / 192 / 2 % 2 ^ 32
    rw [Bits.shiftRight_mask 63 6 rfl, field_upper hupper 10, hcoreCol]
    omega
  have hrow : (data >>> 20) &&& 0x3F = UInt32.ofNat (g.val % 192 / 8) := by
    apply UInt32.toNat_inj.mp
    show data.toNat >>> 20 &&& 63 = g.val % 192 / 8 % 2 ^ 32
    rw [Bits.shiftRight_mask 63 6 rfl, field_upper hupper 4, hcoreRow]
    omega
  have hregion : (data >>> 16) &&& 0xF =
      UInt32.ofNat (g.val % 192 % 8 * 2 + g.val / 192 % 2) := by
    apply UInt32.toNat_inj.mp
    show data.toNat >>> 16 &&& 15 = (g.val % 192 % 8 * 2 + g.val / 192 % 2) % 2 ^ 32
    rw [Bits.shiftRight_mask 15 4 rfl, field_upper hupper 0, Nat.pow_zero, Nat.div_one, hsub]
    omega
  have hcolumns : g.val / 192 < 100 := by omega
  have hrows : g.val % 192 < 192 := Nat.mod_lt _ (by omega)
  unfold pixCol pixRow
  dsimp only
  rw [hcol, hrow, hregion]
  generalize g.val / 192 = a at hcolumns ⊢
  generalize g.val % 192 = r at hrows ⊢
  constructor
  · show (a / 2 % 2 ^ 32 * 8 % 2 ^ 32 + ((r % 8 * 2 + a % 2) % 2 ^ 32 &&& 1) * 4 % 2 ^ 32) %
      2 ^ 32 = a * 4
    rw [Bits.and_mask 1 1 rfl]
    omega
  · show (r / 8 % 2 ^ 32 * 8 % 2 ^ 32 + (((r % 8 * 2 + a % 2) % 2 ^ 32) >>> 1 &&& 7)) % 2 ^ 32 = r
    rw [Bits.shiftRight_mask 7 3 rfl]
    omega

theorem hitOf_field {pix_row pix_col tot : UInt32} {row col code : Nat}
    (hrow : pix_row.toNat = row) (hcol : pix_col.toNat = col) (hrow' : row < 2 ^ 16)
    (hcol' : col < 2 ^ 16) (htot : tot.toNat = if code = 0 then 15 else code) (hcode : code < 15) :
    hitOf pix_row pix_col tot = if code = 0 then [] else [⟨col, row, code + 1⟩] := by
  unfold hitOf
  by_cases hzero : code = 0
  · rw [if_pos hzero] at htot
    have hfull : tot = 0xF := UInt32.toNat_inj.mp htot
    rw [if_neg (not_not.mpr hfull), if_pos hzero]
  · rw [if_neg hzero] at htot
    have hne : tot ≠ 0xF := by
      intro hfull
      rw [hfull] at htot
      have hval : (15 : Nat) = code := htot
      omega
    have hsum : (tot + 1).toNat = code + 1 := by
      rw [UInt32.toNat_add, htot]
      show (code + 1) % 2 ^ 32 = _
      omega
    rw [if_pos hne, if_neg hzero, hsum, hrow, hcol, Nat.mod_eq_of_lt hrow',
      Nat.mod_eq_of_lt hcol', Nat.mod_eq_of_lt (by omega : code + 1 < 2 ^ 16)]

theorem itemsOf_region {g : Fin n_regions} {w : UInt32} (hupper : upper w = regionUpper g)
    (hcode : ∀ k, nibble w k < 15) :
    itemsOf (fillToT w) = [.data (regionHits g w)] := by
  have hg : g.val < 19200 := g.isLt
  obtain ⟨hfilled, hfields⟩ := fillToT_spec w
  rw [hupper] at hfilled
  obtain ⟨hcol, hrow⟩ := toNat_pixel hfilled
  generalize fillToT w = data at hfilled hfields hcol hrow ⊢
  obtain ⟨-, -, -, hbit, hlt⟩ := regionUpper_fields g
  have hidle : data &&& 0xFFFF0000 ≠ 0xFFFF0000 := by
    intro h
    have hmask : (0xFFFF0000 : UInt32).toNat = 0xFFFF0000 := rfl
    have hnat := congrArg (fun x : UInt32 => x.toNat / 2 ^ 16) h
    rw [UInt32.toNat_and, hmask, ← Nat.shiftRight_eq_div_pow,
      Bits.mask_shiftRight 0xFFFF0000 16 16 rfl, field_upper hfilled 0, Nat.pow_zero,
      Nat.div_one] at hnat
    omega
  have hheader : (data >>> 25) &&& 0x1 = 0 := by
    apply UInt32.toNat_inj.mp
    show data.toNat >>> 25 &&& 1 = 0
    rw [Bits.shiftRight_mask 1 1 rfl, field_upper hfilled 9]
    exact hbit
  have hcolLt : pixCol data < n_Col := by
    rw [UInt32.lt_iff_toNat_lt, hcol]
    show g.val / 192 * 4 < 400
    omega
  have hrowLt : pixRow data < n_Row := by
    rw [UInt32.lt_iff_toNat_lt, hrow]
    show g.val % 192 < 192
    omega
  have hnotHeader : isHeader data = false := by simp [isHeader, hheader]
  have hhit : isHit data = true := by simp [isHit, hidle, hheader, hcolLt, hrowLt]
  unfold itemsOf
  rw [if_neg (Bool.eq_false_iff.mp hnotHeader), if_pos hhit]
  have hrow' : (pixRow data + 1).toNat = g.val % 192 + 1 := by
    rw [UInt32.toNat_add, hrow]
    show (g.val % 192 + 1) % 2 ^ 32 = _
    omega
  have hcol' (k : Nat) (hk : k < 4) : (pixCol data + 1 + UInt32.ofNat k).toNat =
      g.val / 192 * 4 + k + 1 := by
    rw [UInt32.toNat_add, UInt32.toNat_add, hcol]
    show ((g.val / 192 * 4 + 1) % 2 ^ 32 + k % 2 ^ 32) % 2 ^ 32 = _
    omega
  have htot (k : Fin 4) : ((data >>> UInt32.ofNat (4 * k.val)) &&& 0xF).toNat =
      if nibble w k = 0 then 15 else nibble w k := by
    rw [← hfields k, UInt32.toNat_and, ← UInt32.toNat_toBitVec (data >>> _),
      Bits.toBitVec_shiftRight_ofNat _ (by omega : 4 * k.val < 32), BitVec.toNat_ushiftRight]
    exact Bits.shiftRight_mask 15 4 rfl _ _
  have hfield (k : Fin 4) :
      hitOf (pixRow data + 1) (pixCol data + 1 + UInt32.ofNat k.val)
          ((data >>> UInt32.ofNat (4 * k.val)) &&& 0xF) =
        if nibble w k = 0 then []
        else [⟨g.val / 192 * 4 + k.val + 1, g.val % 192 + 1, nibble w k + 1⟩] :=
    hitOf_field hrow' (hcol' k.val k.isLt) (by omega) (by omega) (htot k) (hcode k)
  have hzero : pixCol data + 1 = pixCol data + 1 + UInt32.ofNat 0 := (UInt32.add_zero _).symm
  have hhits : hitsOf data = regionHits g w := by
    have h0 : hitOf (pixRow data + 1) (pixCol data + 1) ((data >>> 0) &&& 0xF) =
        if nibble w 0 = 0 then []
        else [⟨g.val / 192 * 4 + (0 : Fin 4).val + 1, g.val % 192 + 1, nibble w 0 + 1⟩] := by
      rw [hzero]
      exact hfield 0
    have h1 : hitOf (pixRow data + 1) (pixCol data + 1 + 1) ((data >>> 4) &&& 0xF) = _ := hfield 1
    have h2 : hitOf (pixRow data + 1) (pixCol data + 1 + 2) ((data >>> 8) &&& 0xF) = _ := hfield 2
    have h3 : hitOf (pixRow data + 1) (pixCol data + 1 + 3) ((data >>> 12) &&& 0xF) = _ :=
      hfield 3
    have hfour : List.finRange 4 = [0, 1, 2, 3] := rfl
    unfold hitsOf regionHits
    rw [h0, h1, h2, h3, hfour]
    simp only [List.flatMap_cons, List.flatMap_nil, List.append_nil, List.append_assoc]
  rw [hhits]

end Yarr.Rd53aEmu
