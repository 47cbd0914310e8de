import Mathlib.Data.UInt
import Yarr.Core.Bits
import Yarr.Core.Fields
import Yarr.Core.Indices

/-!
# Pixel registers of the FE-I4

The two columns of a double column are one chain of 672 pixels, folded at the
top. A register of one bit is a plane of 21 words for each double column, and a
register of more bits is a plane for each bit.
-/

namespace Yarr.Fei4

abbrev n_DC : Nat := 40
abbrev n_Col : Nat := 80
abbrev n_Row : Nat := 336
abbrev n_Words : Nat := 21

/-- The pixels of a double column. -/
abbrev chainLength : Nat := 672

/-! ## Planes -/

abbrev DoubleColumnBit := Vector UInt32 n_Words

namespace DoubleColumnBit

variable (storage : DoubleColumnBit)

def wordIndex (n : Fin chainLength) : Fin n_Words :=
  ⟨n / 32, Nat.div_lt_of_lt_mul n.isLt⟩

def shift (n : Fin chainLength) : UInt32 := UInt32.ofNat (n % 32)

def setPixel (n : Fin chainLength) (val : UInt32) : DoubleColumnBit :=
  let val := val <<< shift n
  let mask : UInt32 := 0x1 <<< shift n
  storage.set (wordIndex n) (val ||| (storage[wordIndex n] &&& ~~~mask))

def getPixel (n : Fin chainLength) : UInt32 :=
  let mask : UInt32 := 0x1 <<< shift n
  (storage[wordIndex n] &&& mask) >>> shift n

/-- The bit of a pixel. -/
def bit (n : Fin chainLength) : Bool :=
  storage[wordIndex n].toBitVec.getLsbD (n % 32)

end DoubleColumnBit

/-- A plane for each bit; with `msbRight` the last plane is that of the lowest bit. -/
structure DoubleColumnField (N : Nat) (msbRight : Bool) where
  field : Vector DoubleColumnBit N

namespace DoubleColumnField

variable {N : Nat} {msbRight : Bool} (f : DoubleColumnField N msbRight)

/-- The plane of bit `i` of the value. -/
def plane (N : Nat) (msbRight : Bool) (i : Fin N) : Fin N :=
  if msbRight then ⟨N - i - 1, by omega⟩ else i

def setPixel (n : Fin chainLength) (val : UInt32) : DoubleColumnField N msbRight :=
  ⟨(List.finRange N).foldl (fun planes i =>
    planes.set (plane N msbRight i)
      (planes[plane N msbRight i].setPixel n ((val >>> UInt32.ofNat i) &&& 0x1))) f.field⟩

def getPixel (n : Fin chainLength) : UInt32 :=
  (List.finRange N).foldl (fun tmp i =>
    tmp ||| (f.field[plane N msbRight i].getPixel n <<< UInt32.ofNat i)) 0

end DoubleColumnField

/-! ## Pixels -/

/-- A pixel of the matrix, counted from one. -/
@[ext]
structure Pixel where
  col : Nat
  row : Nat
  col_pos : 0 < col
  col_le : col ≤ n_Col
  row_pos : 0 < row
  row_le : row ≤ n_Row
  deriving DecidableEq

namespace Pixel

variable (p : Pixel)

def to_dc : Fin n_DC :=
  ⟨(p.col - 1) / 2, by
    have hcol : p.col ≤ 80 := p.col_le
    show (p.col - 1) / 2 < 40
    omega⟩

/-- Down the odd column and up the even one. -/
def to_bit : Fin chainLength :=
  ⟨if p.col % 2 = 0 then p.row + 335 else 336 - p.row, by
    have hrow : p.row ≤ 336 := p.row_le
    have hpos := p.row_pos
    show (if p.col % 2 = 0 then p.row + 335 else 336 - p.row) < 672
    split
    · omega
    · omega⟩

theorem eq_of_place {p q : Pixel} (hdc : p.to_dc = q.to_dc) (hbit : p.to_bit = q.to_bit) :
    p = q := by
  have hdc' : (p.col - 1) / 2 = (q.col - 1) / 2 := congrArg Fin.val hdc
  have hbit' : (if p.col % 2 = 0 then p.row + 335 else 336 - p.row) =
      if q.col % 2 = 0 then q.row + 335 else 336 - q.row := congrArg Fin.val hbit
  have hp : p.row ≤ 336 := p.row_le
  have hq : q.row ≤ 336 := q.row_le
  have hp0 := p.row_pos
  have hq0 := q.row_pos
  have hpc := p.col_pos
  have hqc := q.col_pos
  apply Pixel.ext
  · by_cases hpe : p.col % 2 = 0
    · by_cases hqe : q.col % 2 = 0
      · omega
      · rw [if_pos hpe, if_neg hqe] at hbit'
        omega
    · by_cases hqe : q.col % 2 = 0
      · rw [if_neg hpe, if_pos hqe] at hbit'
        omega
      · omega
  · by_cases hpe : p.col % 2 = 0
    · by_cases hqe : q.col % 2 = 0
      · rw [if_pos hpe, if_pos hqe] at hbit'
        omega
      · rw [if_pos hpe, if_neg hqe] at hbit'
        omega
    · by_cases hqe : q.col % 2 = 0
      · rw [if_neg hpe, if_pos hqe] at hbit'
        omega
      · rw [if_neg hpe, if_neg hqe] at hbit'
        omega

end Pixel

/-! ## The registers -/

structure Fei4PixelCfg where
  m_En : Vector DoubleColumnBit n_DC
  m_TDAC : Vector (DoubleColumnField 5 true) n_DC
  m_LCap : Vector DoubleColumnBit n_DC
  m_SCap : Vector DoubleColumnBit n_DC
  m_Hitbus : Vector DoubleColumnBit n_DC
  m_FDAC : Vector (DoubleColumnField 4 false) n_DC

namespace Fei4PixelCfg

/-- A pixel of one plane in all double columns. -/
def setBitAt (planes : Vector DoubleColumnBit n_DC) (p : Pixel) (v : UInt32) :
    Vector DoubleColumnBit n_DC :=
  planes.set p.to_dc (planes[p.to_dc].setPixel p.to_bit v)

def getBitAt (planes : Vector DoubleColumnBit n_DC) (p : Pixel) : UInt32 :=
  planes[p.to_dc].getPixel p.to_bit

def setFieldAt {N : Nat} {msbRight : Bool} (fields : Vector (DoubleColumnField N msbRight) n_DC)
    (p : Pixel) (v : UInt32) : Vector (DoubleColumnField N msbRight) n_DC :=
  fields.set p.to_dc (fields[p.to_dc].setPixel p.to_bit v)

def getFieldAt {N : Nat} {msbRight : Bool} (fields : Vector (DoubleColumnField N msbRight) n_DC)
    (p : Pixel) : UInt32 :=
  fields[p.to_dc].getPixel p.to_bit

variable (cfg : Fei4PixelCfg) (p : Pixel) (v : UInt32)

def setEn : Fei4PixelCfg := { cfg with m_En := setBitAt cfg.m_En p v }
def setHitbus : Fei4PixelCfg := { cfg with m_Hitbus := setBitAt cfg.m_Hitbus p v }
def setTDAC : Fei4PixelCfg := { cfg with m_TDAC := setFieldAt cfg.m_TDAC p v }
def setLCap : Fei4PixelCfg := { cfg with m_LCap := setBitAt cfg.m_LCap p v }
def setSCap : Fei4PixelCfg := { cfg with m_SCap := setBitAt cfg.m_SCap p v }
def setFDAC : Fei4PixelCfg := { cfg with m_FDAC := setFieldAt cfg.m_FDAC p v }

def getEn : UInt32 := getBitAt cfg.m_En p
def getHitbus : UInt32 := getBitAt cfg.m_Hitbus p
def getTDAC : UInt32 := getFieldAt cfg.m_TDAC p
def getLCap : UInt32 := getBitAt cfg.m_LCap p
def getSCap : UInt32 := getBitAt cfg.m_SCap p
def getFDAC : UInt32 := getFieldAt cfg.m_FDAC p

/-- The stream of a plane; `none` where the source returns a null pointer. -/
def getCfg (bit : Nat) (dc : Fin n_DC) : Option DoubleColumnBit :=
  match bit with
  | 0 => some (getElem cfg.m_En dc dc.isLt)
  | 1 => some (getElem cfg.m_TDAC dc dc.isLt).field[0]
  | 2 => some (getElem cfg.m_TDAC dc dc.isLt).field[1]
  | 3 => some (getElem cfg.m_TDAC dc dc.isLt).field[2]
  | 4 => some (getElem cfg.m_TDAC dc dc.isLt).field[3]
  | 5 => some (getElem cfg.m_TDAC dc dc.isLt).field[4]
  | 6 => some (getElem cfg.m_LCap dc dc.isLt)
  | 7 => some (getElem cfg.m_SCap dc dc.isLt)
  | 8 => some (getElem cfg.m_Hitbus dc dc.isLt)
  | 9 => some (getElem (getElem cfg.m_FDAC dc dc.isLt).field 0 Index.first_of_four)
  | 10 => some (getElem (getElem cfg.m_FDAC dc dc.isLt).field 1 Index.second_of_four)
  | 11 => some (getElem (getElem cfg.m_FDAC dc dc.isLt).field 2 Index.third_of_four)
  | 12 => some (getElem (getElem cfg.m_FDAC dc dc.isLt).field 3 Index.fourth_of_four)
  | _ => none

end Fei4PixelCfg

/-! ## One plane -/

theorem getElem_set {α : Type} {n : Nat} (v : Vector α n) (i j : Fin n) (x : α) :
    getElem (v.set i x i.isLt) j j.isLt = if j = i then x else getElem v j j.isLt := by
  by_cases h : j = i
  · subst h
    rw [if_pos rfl]
    exact Vector.getElem_set_self _
  · rw [if_neg h]
    exact Vector.getElem_set_ne _ _ fun hval => h (Fin.ext hval.symm)

namespace DoubleColumnBit

variable (storage : DoubleColumnBit)

theorem eq_of_wordIndex {n m : Fin chainLength} (hword : wordIndex n = wordIndex m)
    (hbit : n.val % 32 = m.val % 32) : n = m := by
  have hdiv : n.val / 32 = m.val / 32 := congrArg Fin.val hword
  apply Fin.ext
  omega

theorem toBitVec_mask (n : Fin chainLength) :
    ((0x1 : UInt32) <<< shift n).toBitVec = BitVec.twoPow 32 (n.val % 32) := by
  unfold shift
  rw [Bits.toBitVec_shiftLeft_ofNat _ (Nat.mod_lt _ (by omega))]
  rfl

theorem getPixel_eq (n : Fin chainLength) :
    getPixel storage n = if bit storage n then 1 else 0 := by
  have hlt : n.val % 32 < 32 := Nat.mod_lt _ (by omega)
  have hmask := toBitVec_mask n
  unfold getPixel bit
  dsimp only
  rw [← UInt32.toBitVec_inj]
  unfold shift at hmask ⊢
  rw [Bits.toBitVec_shiftRight_ofNat _ hlt, UInt32.toBitVec_and, hmask, BitVec.and_twoPow]
  by_cases hbit : storage[wordIndex n].toBitVec.getLsbD (n.val % 32)
  · rw [if_pos hbit, if_pos hbit]
    apply BitVec.eq_of_getLsbD_eq
    intro i hi
    rw [BitVec.getLsbD_ushiftRight, BitVec.getLsbD_twoPow]
    cases i with
    | zero => simp [hlt]
    | succ i => simp
  · rw [if_neg hbit, if_neg hbit]
    apply BitVec.eq_of_getLsbD_eq
    intro i hi
    simp

theorem getLsbD_of_lt_two {val : UInt32} (h : val.toNat < 2) (i : Nat) :
    val.toBitVec.getLsbD i = (decide (i = 0) && decide (val = 1)) := by
  have hcases : val = 0 ∨ val = 1 := by
    rw [← UInt32.toNat_inj, ← UInt32.toNat_inj]
    show val.toNat = 0 ∨ val.toNat = 1
    omega
  rcases hcases with rfl | rfl
  · simp
  · cases i with
    | zero => rfl
    | succ i => simp

theorem bit_setPixel (n m : Fin chainLength) {val : UInt32} (hval : val.toNat < 2) :
    bit (setPixel storage n val) m = if m = n then decide (val = 1) else bit storage m := by
  have hlt : n.val % 32 < 32 := Nat.mod_lt _ (by omega)
  have hm : m.val % 32 < 32 := Nat.mod_lt _ (by omega)
  have hmask := toBitVec_mask n
  unfold setPixel bit
  dsimp only
  rw [getElem_set]
  by_cases hword : wordIndex m = wordIndex n
  · have hsame : storage[wordIndex m] = storage[wordIndex n] :=
      congrArg (fun i : Fin n_Words => storage[i]) hword
    rw [if_pos hword, hsame, UInt32.toBitVec_or, UInt32.toBitVec_and, UInt32.toBitVec_not, hmask]
    unfold shift
    rw [Bits.toBitVec_shiftLeft_ofNat _ hlt, BitVec.getLsbD_or, BitVec.getLsbD_shiftLeft,
      BitVec.getLsbD_and, BitVec.getLsbD_not, BitVec.getLsbD_twoPow, getLsbD_of_lt_two hval]
    by_cases hbit : m.val % 32 = n.val % 32
    · rw [if_pos (eq_of_wordIndex hword hbit), hbit]
      simp [hlt]
    · have hne : m ≠ n := fun h => hbit (by rw [h])
      have hoff : ¬(n.val % 32 ≤ m.val % 32 ∧ m.val % 32 - n.val % 32 = 0) := by omega
      rw [if_neg hne]
      by_cases hle : m.val % 32 < n.val % 32
      · simp [hm, hle, Ne.symm hbit]
      · have hpos : ¬ m.val % 32 - n.val % 32 = 0 := by omega
        simp [hm, hle, Ne.symm hbit, hpos]
  · have hne : m ≠ n := fun h => hword (by rw [h])
    rw [if_neg hword, if_neg hne]

end DoubleColumnBit

/-! ## The planes of a field -/

namespace DoubleColumnField

variable {N : Nat} {msbRight : Bool}

theorem plane_inj {i j : Fin N} (h : plane N msbRight i = plane N msbRight j) : i = j := by
  unfold plane at h
  cases msbRight with
  | false => exact h
  | true =>
      have hval : N - i.val - 1 = N - j.val - 1 := congrArg Fin.val h
      apply Fin.ext
      omega

/-- A pixel in the plane of each bit. -/
def planes (N : Nat) (msbRight : Bool) (n : Fin chainLength) :
    Fields (Vector DoubleColumnBit N) (Fin N) UInt32 where
  get field i := field[plane N msbRight i].getPixel n
  set field i v := field.set (plane N msbRight i) (field[plane N msbRight i].setPixel n v)
  Valid _ v := v.toNat < 2

theorem getPixel_setPixel_bit (storage : DoubleColumnBit) (n : Fin chainLength) {val : UInt32}
    (hval : val.toNat < 2) : (storage.setPixel n val).getPixel n = val := by
  have hcases : val = 0 ∨ val = 1 := by
    rw [← UInt32.toNat_inj, ← UInt32.toNat_inj]
    show val.toNat = 0 ∨ val.toNat = 1
    omega
  rw [DoubleColumnBit.getPixel_eq, DoubleColumnBit.bit_setPixel storage n n hval, if_pos rfl]
  rcases hcases with rfl | rfl
  · rfl
  · rfl

theorem planes_independent (n : Fin chainLength) : (planes N msbRight n).Independent where
  get_set field i v hv := by
    show (field.set (plane N msbRight i) _)[plane N msbRight i].getPixel n = v
    rw [getElem_set, if_pos rfl]
    exact getPixel_setPixel_bit _ n hv
  get_set_ne field i j v _ hne := by
    show (field.set (plane N msbRight i) _)[plane N msbRight j].getPixel n = _
    rw [getElem_set, if_neg fun h => hne (plane_inj h)]
    rfl
  valid_get field i := by
    show (field[plane N msbRight i].getPixel n).toNat < 2
    rw [DoubleColumnBit.getPixel_eq]
    split
    · exact Nat.one_lt_two
    · exact Nat.two_pos

theorem setAll_bit_of_ne {n m : Fin chainLength} (hne : m ≠ n) {value : Fin N → UInt32}
    (hvalue : ∀ i, (value i).toNat < 2) (keys : List (Fin N)) (field : Vector DoubleColumnBit N)
    (j : Fin N) : (getElem ((planes N msbRight n).setAll value keys field) j j.isLt).bit m =
      (getElem field j j.isLt).bit m := by
  induction keys generalizing field with
  | nil => rfl
  | cons i keys ih =>
      refine (ih _).trans ?_
      show (field.set (plane N msbRight i) _)[j].bit m = _
      rw [getElem_set]
      by_cases hj : j = plane N msbRight i
      · rw [if_pos hj, DoubleColumnBit.bit_setPixel _ _ _ (hvalue i), if_neg hne, hj]
      · rw [if_neg hj]

variable (f : DoubleColumnField N msbRight)

/-- The bits of the value of a pixel. -/
def bit (n : Fin chainLength) (i : Fin N) : Bool := f.field[plane N msbRight i].bit n

theorem low_bit_lt (val : UInt32) (i : Fin N) : ((val >>> UInt32.ofNat i) &&& 0x1).toNat < 2 := by
  rw [UInt32.toNat_and]
  exact Nat.lt_succ_of_le Nat.and_le_right

theorem low_bit_eq (hN : N ≤ 32) (val : UInt32) (i : Fin N) :
    (val >>> UInt32.ofNat i) &&& 0x1 = if val.toBitVec.getLsbD i then 1 else 0 := by
  have hi : i.val < 32 := Nat.lt_of_lt_of_le i.isLt hN
  rw [← UInt32.toBitVec_inj, UInt32.toBitVec_and, Bits.toBitVec_shiftRight_ofNat _ hi]
  apply BitVec.eq_of_getLsbD_eq
  intro k _
  cases k with
  | zero =>
      by_cases hbit : val.toBitVec.getLsbD i
      · simp [hbit]
      · simp [hbit]
  | succ k =>
      by_cases hbit : val.toBitVec.getLsbD i
      · simp [hbit]
      · simp [hbit]

theorem eq_of_one_or_zero {a b : Bool} (h : (if a then (1 : UInt32) else 0) = if b then 1 else 0) :
    a = b := by
  cases a <;> cases b <;> simp_all

theorem bit_setPixel (hN : N ≤ 32) (n m : Fin chainLength) (val : UInt32) (i : Fin N) :
    (f.setPixel n val).bit m i = if m = n then val.toBitVec.getLsbD i else f.bit m i := by
  have hvalue := low_bit_lt (N := N) val
  by_cases hm : m = n
  · subst hm
    have hind : (planes N msbRight m).Independent := planes_independent m
    have hget := hind.get_setAll (fun k _ => hvalue k) (List.mem_finRange i) f.field
    rw [low_bit_eq hN] at hget
    rw [if_pos rfl]
    exact eq_of_one_or_zero ((DoubleColumnBit.getPixel_eq _ m).symm.trans hget)
  · rw [if_neg hm]
    exact setAll_bit_of_ne hm hvalue _ f.field (plane N msbRight i)

theorem getLsbD_one_of_pos {k : Nat} (h : k ≠ 0) : (1 : UInt32).toBitVec.getLsbD k = false := by
  show (1#32).getLsbD k = false
  rw [BitVec.getLsbD_one]
  simp [h]

/-- The loop over the planes puts the bits of a value together. -/
theorem getLsbD_collect (hN : N ≤ 32) (n : Fin chainLength) (keys : List (Fin N)) (tmp : UInt32)
    (k : Nat) :
    (keys.foldl (fun tmp i =>
      tmp ||| (f.field[plane N msbRight i].getPixel n <<< UInt32.ofNat i)) tmp).toBitVec.getLsbD k =
      (tmp.toBitVec.getLsbD k || keys.any fun i => decide (i.val = k) && f.bit n i) := by
  induction keys generalizing tmp with
  | nil => simp
  | cons i keys ih =>
      have hi : i.val < 32 := Nat.lt_of_lt_of_le i.isLt hN
      have hplaced :
          (f.field[plane N msbRight i].getPixel n <<< UInt32.ofNat i).toBitVec.getLsbD k =
            (decide (i.val = k) && f.bit n i) := by
        rw [Bits.toBitVec_shiftLeft_ofNat _ hi, BitVec.getLsbD_shiftLeft,
          DoubleColumnBit.getPixel_eq]
        show (_ && (if f.bit n i = true then (1 : UInt32) else 0).toBitVec.getLsbD _) = _
        cases f.bit n i with
        | false => simp
        | true =>
            by_cases heq : i.val = k
            · subst heq
              simp [hi]
            · by_cases hlt : k < i.val
              · simp [hlt, heq]
              · have hpos : k - i.val ≠ 0 := by omega
                rw [if_pos rfl, getLsbD_one_of_pos hpos]
                simp [heq]
      rw [List.foldl_cons, ih, UInt32.toBitVec_or, BitVec.getLsbD_or, hplaced, List.any_cons,
        Bool.or_assoc]

theorem getLsbD_getPixel (hN : N ≤ 32) (n : Fin chainLength) (k : Nat) :
    (f.getPixel n).toBitVec.getLsbD k = if h : k < N then f.bit n ⟨k, h⟩ else false := by
  unfold getPixel
  rw [getLsbD_collect f hN]
  by_cases h : k < N
  · rw [dif_pos h]
    cases hbit : f.bit n ⟨k, h⟩ with
    | true =>
        have hany : (List.finRange N).any (fun i => decide (i.val = k) && f.bit n i) = true :=
          List.any_eq_true.mpr ⟨⟨k, h⟩, List.mem_finRange _, by simp [hbit]⟩
        rw [hany, Bool.or_true]
    | false =>
        have hnone : (List.finRange N).any (fun i => decide (i.val = k) && f.bit n i) = false := by
          apply List.any_eq_false.mpr
          intro i _ hi
          obtain ⟨heq, htrue⟩ := Bool.and_eq_true_iff.mp hi
          have hik : i = ⟨k, h⟩ := Fin.ext (of_decide_eq_true heq)
          rw [hik, hbit] at htrue
          cases htrue
        rw [hnone]
        simp
  · rw [dif_neg h]
    have hnone : (List.finRange N).any (fun i => decide (i.val = k) && f.bit n i) = false := by
      apply List.any_eq_false.mpr
      intro i _ hi
      have heq : i.val = k := of_decide_eq_true (Bool.and_eq_true_iff.mp hi).1
      exact h (heq ▸ i.isLt)
    rw [hnone]
    simp

theorem getPixel_setPixel (hN : N ≤ 32) (n : Fin chainLength) {val : UInt32}
    (hval : val.toNat < 2 ^ N) : (f.setPixel n val).getPixel n = val := by
  rw [← UInt32.toBitVec_inj]
  apply BitVec.eq_of_getLsbD_eq
  intro k _
  rw [getLsbD_getPixel _ hN]
  by_cases h : k < N
  · rw [dif_pos h, bit_setPixel f hN, if_pos rfl]
  · rw [dif_neg h]
    have hlt : val.toNat < 2 ^ k :=
      Nat.lt_of_lt_of_le hval (Nat.pow_le_pow_right (by omega) (by omega))
    exact (Nat.testBit_lt_two_pow hlt).symm

theorem getPixel_setPixel_of_ne (hN : N ≤ 32) {n m : Fin chainLength} (hne : m ≠ n)
    (val : UInt32) : (f.setPixel n val).getPixel m = f.getPixel m := by
  rw [← UInt32.toBitVec_inj]
  apply BitVec.eq_of_getLsbD_eq
  intro k _
  rw [getLsbD_getPixel _ hN, getLsbD_getPixel _ hN]
  by_cases h : k < N
  · rw [dif_pos h, dif_pos h, bit_setPixel f hN, if_neg hne]
  · rw [dif_neg h, dif_neg h]

theorem getPixel_lt (hN : N ≤ 32) (n : Fin chainLength) : (f.getPixel n).toNat < 2 ^ N := by
  apply Nat.lt_pow_two_of_testBit
  intro k hk
  have hbit := getLsbD_getPixel f hN n k
  rw [dif_neg (Nat.not_lt.mpr hk)] at hbit
  exact hbit

end DoubleColumnField

/-! ## The registers of a pixel -/

namespace Fei4PixelCfg

theorem getBitAt_setBitAt (planes : Vector DoubleColumnBit n_DC) (p q : Pixel) {v : UInt32}
    (hv : v.toNat < 2) :
    getBitAt (setBitAt planes p v) q = if q = p then v else getBitAt planes q := by
  unfold getBitAt setBitAt
  rw [getElem_set]
  by_cases hdc : q.to_dc = p.to_dc
  · rw [if_pos hdc]
    by_cases hbit : q.to_bit = p.to_bit
    · rw [if_pos (Pixel.eq_of_place hdc hbit), hbit]
      exact DoubleColumnField.getPixel_setPixel_bit _ _ hv
    · have hne : q ≠ p := fun h => hbit (by rw [h])
      have hsame : planes[q.to_dc] = planes[p.to_dc] :=
        congrArg (fun dc : Fin n_DC => planes[dc]) hdc
      rw [if_neg hne, hsame, DoubleColumnBit.getPixel_eq, DoubleColumnBit.getPixel_eq,
        DoubleColumnBit.bit_setPixel _ _ _ hv, if_neg hbit]
  · have hne : q ≠ p := fun h => hdc (by rw [h])
    rw [if_neg hdc, if_neg hne]

theorem getBitAt_lt (planes : Vector DoubleColumnBit n_DC) (p : Pixel) :
    (getBitAt planes p).toNat < 2 := by
  unfold getBitAt
  rw [DoubleColumnBit.getPixel_eq]
  split
  · exact Nat.one_lt_two
  · exact Nat.two_pos

section FieldAt

variable {N : Nat} {msbRight : Bool} (fields : Vector (DoubleColumnField N msbRight) n_DC)

theorem getFieldAt_setFieldAt (hN : N ≤ 32) (p q : Pixel) {v : UInt32} (hv : v.toNat < 2 ^ N) :
    getFieldAt (setFieldAt fields p v) q = if q = p then v else getFieldAt fields q := by
  unfold getFieldAt setFieldAt
  rw [getElem_set]
  by_cases hdc : q.to_dc = p.to_dc
  · rw [if_pos hdc]
    by_cases hbit : q.to_bit = p.to_bit
    · rw [if_pos (Pixel.eq_of_place hdc hbit), hbit]
      exact DoubleColumnField.getPixel_setPixel _ hN _ hv
    · have hne : q ≠ p := fun h => hbit (by rw [h])
      have hsame : fields[q.to_dc] = fields[p.to_dc] :=
        congrArg (fun dc : Fin n_DC => fields[dc]) hdc
      rw [if_neg hne, hsame, DoubleColumnField.getPixel_setPixel_of_ne _ hN hbit]
  · have hne : q ≠ p := fun h => hdc (by rw [h])
    rw [if_neg hdc, if_neg hne]

theorem getFieldAt_lt (hN : N ≤ 32) (p : Pixel) : (getFieldAt fields p).toNat < 2 ^ N :=
  DoubleColumnField.getPixel_lt _ hN _

end FieldAt

inductive Register where
  | En
  | Hitbus
  | TDAC
  | LCap
  | SCap
  | FDAC
  deriving DecidableEq

namespace Register

/-- The name in a configuration file. -/
def name : Register → String
  | En => "Enable"
  | Hitbus => "Hitbus"
  | TDAC => "TDAC"
  | LCap => "LCap"
  | SCap => "SCap"
  | FDAC => "FDAC"

def width : Register → Nat
  | En => 1
  | Hitbus => 1
  | TDAC => 5
  | LCap => 1
  | SCap => 1
  | FDAC => 4

/-- In the order of the source. -/
def all : List Register := [En, Hitbus, TDAC, LCap, SCap, FDAC]

theorem name_inj {r s : Register} (h : r.name = s.name) : r = s := by
  revert h
  cases r <;> cases s <;> decide

end Register

def get (cfg : Fei4PixelCfg) (p : Pixel) : Register → UInt32
  | .En => cfg.getEn p
  | .Hitbus => cfg.getHitbus p
  | .TDAC => cfg.getTDAC p
  | .LCap => cfg.getLCap p
  | .SCap => cfg.getSCap p
  | .FDAC => cfg.getFDAC p

def set (cfg : Fei4PixelCfg) (p : Pixel) (r : Register) (v : UInt32) : Fei4PixelCfg :=
  match r with
  | .En => cfg.setEn p v
  | .Hitbus => cfg.setHitbus p v
  | .TDAC => cfg.setTDAC p v
  | .LCap => cfg.setLCap p v
  | .SCap => cfg.setSCap p v
  | .FDAC => cfg.setFDAC p v

theorem get_set_self (cfg : Fei4PixelCfg) (p q : Pixel) (r : Register) {v : UInt32}
    (hv : v.toNat < 2 ^ r.width) :
    (cfg.set p r v).get q r = if q = p then v else cfg.get q r := by
  cases r with
  | En => exact getBitAt_setBitAt cfg.m_En p q hv
  | Hitbus => exact getBitAt_setBitAt cfg.m_Hitbus p q hv
  | TDAC => exact getFieldAt_setFieldAt cfg.m_TDAC (by omega) p q hv
  | LCap => exact getBitAt_setBitAt cfg.m_LCap p q hv
  | SCap => exact getBitAt_setBitAt cfg.m_SCap p q hv
  | FDAC => exact getFieldAt_setFieldAt cfg.m_FDAC (by omega) p q hv

theorem get_set_of_ne (cfg : Fei4PixelCfg) (p q : Pixel) {r s : Register} (h : s ≠ r)
    (v : UInt32) : (cfg.set p r v).get q s = cfg.get q s := by
  cases r <;> cases s <;> first | rfl | exact absurd rfl h

theorem get_lt (cfg : Fei4PixelCfg) (p : Pixel) (r : Register) :
    (cfg.get p r).toNat < 2 ^ r.width := by
  cases r with
  | En => exact getBitAt_lt cfg.m_En p
  | Hitbus => exact getBitAt_lt cfg.m_Hitbus p
  | TDAC => exact getFieldAt_lt cfg.m_TDAC (by omega) p
  | LCap => exact getBitAt_lt cfg.m_LCap p
  | SCap => exact getBitAt_lt cfg.m_SCap p
  | FDAC => exact getFieldAt_lt cfg.m_FDAC (by omega) p

/-! ## Configuration files -/

/-- The registers by pixel and name; a file has them as numbers. -/
def registers : Fields Fei4PixelCfg (Pixel × Register) Int where
  get cfg k := (cfg.get k.1 k.2).toNat
  set cfg k v := cfg.set k.1 k.2 (UInt32.ofInt v)
  Valid k v := 0 ≤ v ∧ v < 2 ^ k.2.width

theorem toNat_argument {r : Register} {v : Int} (h : 0 ≤ v ∧ v < 2 ^ r.width) :
    (UInt32.ofInt v).toNat = v.toNat ∧ v.toNat < 2 ^ r.width := by
  have hwidth : (2 : Int) ^ r.width ≤ 2 ^ 5 := by
    cases r <;> decide
  have hcast : ((2 ^ r.width : Nat) : Int) = 2 ^ r.width := by
    push_cast
    rfl
  refine ⟨Bits.toNat_ofInt h.1 (by omega), ?_⟩
  have hlt := h.2
  rw [← hcast] at hlt
  omega

theorem registers_independent : registers.Independent where
  get_set cfg k v hv := by
    obtain ⟨harg, hlt⟩ := toNat_argument hv
    show (((cfg.set k.1 k.2 (UInt32.ofInt v)).get k.1 k.2).toNat : Int) = v
    rw [get_set_self cfg k.1 k.1 k.2 (by rw [harg]; exact hlt), if_pos rfl, harg]
    exact Int.toNat_of_nonneg hv.1
  get_set_ne cfg k k' v hv hne := by
    obtain ⟨harg, hlt⟩ := toNat_argument hv
    show (((cfg.set k.1 k.2 (UInt32.ofInt v)).get k'.1 k'.2).toNat : Int) = _
    by_cases hr : k'.2 = k.2
    · have hp : k'.1 ≠ k.1 := fun hp => hne (Prod.ext hp hr)
      rw [hr, get_set_self cfg k.1 k'.1 k.2 (by rw [harg]; exact hlt), if_neg hp, ← hr]
      rfl
    · rw [get_set_of_ne cfg k.1 k'.1 hr]
      rfl
  valid_get cfg k := by
    have hlt := get_lt cfg k.1 k.2
    refine ⟨Int.natCast_nonneg _, ?_⟩
    show ((cfg.get k.1 k.2).toNat : Int) < 2 ^ k.2.width
    exact_mod_cast hlt

/-- The pixels of a row, from the first column on. -/
def rowPixels (row : Fin n_Row) : List Pixel :=
  (List.finRange n_Col).map fun col : Fin n_Col =>
    { col := col.val + 1
      row := row.val + 1
      col_pos := Nat.succ_pos _
      col_le := col.isLt
      row_pos := Nat.succ_pos _
      row_le := row.isLt }

/-- The order in which the source goes over rows, columns and registers. -/
def order : List (Pixel × Register) :=
  (List.finRange n_Row).flatMap fun row =>
    (rowPixels row).flatMap fun p => Register.all.map fun r => (p, r)

/-- The index in the array of rows, the name, and the index in the array of columns. -/
def place (k : Pixel × Register) : Nat × String × Nat := (k.1.row - 1, k.2.name, k.1.col - 1)

theorem place_inj (k k' : Pixel × Register) (h : place k = place k') : k = k' := by
  have hrow : k.1.row - 1 = k'.1.row - 1 := congrArg Prod.fst h
  have hname : k.2.name = k'.2.name := congrArg (fun x => x.2.1) h
  have hcol : k.1.col - 1 = k'.1.col - 1 := congrArg (fun x => x.2.2) h
  have h1 := k.1.row_pos
  have h2 := k'.1.row_pos
  have h3 := k.1.col_pos
  have h4 := k'.1.col_pos
  apply Prod.ext
  · exact Pixel.ext (by omega) (by omega)
  · exact Register.name_inj hname

theorem mem_order (k : Pixel × Register) : k ∈ order := by
  obtain ⟨p, r⟩ := k
  have hcol := p.col_pos
  have hrow := p.row_pos
  refine List.mem_flatMap.mpr ⟨⟨p.row - 1, ?_⟩, List.mem_finRange _, ?_⟩
  · exact Nat.lt_of_lt_of_le (Nat.sub_lt hrow Nat.one_pos) p.row_le
  refine List.mem_flatMap.mpr ⟨p, ?_, ?_⟩
  · refine List.mem_map.mpr ⟨⟨p.col - 1, ?_⟩, List.mem_finRange _, ?_⟩
    · exact Nat.lt_of_lt_of_le (Nat.sub_lt hcol Nat.one_pos) p.col_le
    · exact Pixel.ext (Nat.sub_add_cancel hcol) (Nat.sub_add_cancel hrow)
  · refine List.mem_map.mpr ⟨r, ?_, rfl⟩
    cases r <;> decide

/-- The pixel section of a file: a number by row, name and column, where there is one. -/
abbrev PixelConfig := Nat × String × Nat → Option Int

def writeConfig (cfg : Fei4PixelCfg) (j : PixelConfig) : PixelConfig :=
  registers.write place order cfg j

/-- A file without the section changes nothing. -/
def loadConfig (j : Option PixelConfig) (cfg : Fei4PixelCfg) : Option Fei4PixelCfg :=
  match j with
  | none => some cfg
  | some j => registers.load place order j cfg

end Fei4PixelCfg

end Yarr.Fei4
