import Mathlib.Data.Finset.Erase
import Mathlib.Data.Finset.Insert
import Mathlib.Tactic.IntervalCases
import Yarr.Core.Invariant
import Yarr.Itkpixv2Emu.CommandInterpreter
import Yarr.Rd53.GlobalCfg
import Yarr.Rd53.Itkpixv2

/-!
# Register writes in the ITKPIXV2 emulator

A write to address 0 goes through the pixel portal, to the pair of pixels that
`PixRegionCol` and `PixRegionRow` select. Beside the pixel registers the
emulator keeps the coordinates of the enabled pixels in a set.
-/

namespace Yarr.Itkpixv2Emu

open Rd53 Itkpixv2GlobalCfg Itkpixv2PixelCfg

/-- The registers and the bookkeeping of the emulated chip. -/
structure CommandExe where
  m_cfg : Words numRegs
  pixRegs : PixelArray
  m_activePixels : Finset Nat

namespace CommandExe

/-- A chip that has received nothing: no pixel is enabled. -/
def fresh (m_cfg : Words numRegs) : CommandExe where
  m_cfg := m_cfg
  pixRegs := fun _ _ => 0
  m_activePixels := ∅

/-- `insert` or `erase` as the bit says. -/
def setActive (m_activePixels : Finset Nat) (coordinate : Nat) (bit : UInt16) : Finset Nat :=
  if bit ≠ 0 then insert coordinate m_activePixels else m_activePixels.erase coordinate

def setPixReg (pixRegs : PixelArray) (col : Fin n_DC) (row : Fin n_Row) (val : UInt16) :
    PixelArray :=
  fun col' row' => if col' = col ∧ row' = row then val else pixRegs col' row'

/-- Single write: all 16 bits. -/
def writeSingle (s : CommandExe) (col : Fin n_DC) (row : Fin n_Row) (data : UInt32) :
    CommandExe :=
  let val : UInt16 := (data &&& 0xFFFF).toUInt16
  let coordinate : Nat := (col * 2) * 384 + row
  let active := setActive s.m_activePixels coordinate (val &&& 0x0100)
  { s with
    pixRegs := setPixReg s.pixRegs col row val
    m_activePixels := setActive active (coordinate + 384) (val &&& 0x0001) }

/--
One turn of the loop of a mask write. The word of the core column `ccol` is
read, but `val` is a reference: it is the word of the addressed pair that takes
every assignment.
-/
def writeMaskTurn (col : Fin n_DC) (row : Fin n_Row) (data : UInt32) (s : CommandExe)
    (ccol : Nat) : Option CommandExe :=
  if hcol : col + ccol * 4 < n_DC then
    let val := s.pixRegs ⟨col + ccol * 4, hcol⟩ row
    let val : UInt16 := (val &&& 0xF8FF) ||| UInt32.toUInt16 ((data <<< (3 : UInt32)) &&& 0x0700)
    let coordinate : Nat := ((col + ccol * 4) * 2) * 384 + row
    let active := setActive s.m_activePixels coordinate (val &&& 0x0100)
    let val : UInt16 := (val &&& 0xFFF8) ||| UInt32.toUInt16 (data &&& 0x0007)
    some { s with
      pixRegs := setPixReg s.pixRegs col row val
      m_activePixels := setActive active (coordinate + 384) (val &&& 0x0001) }
  else none

def colsToWrite (s : CommandExe) : Nat := if PixBroadcast.read s.m_cfg ≠ 0 then 50 else 1

def writeMask (s : CommandExe) (col : Fin n_DC) (row : Fin n_Row) (data : UInt32) :
    Option CommandExe :=
  (List.range s.colsToWrite).foldlM (writeMaskTurn col row data) s

def tdacWord (val : UInt16) (data : UInt32) : UInt16 :=
  let val : UInt16 := (val &&& 0x07FF) ||| UInt32.toUInt16 ((data <<< (6 : UInt32)) &&& 0xF800)
  (val &&& 0xFF07) ||| UInt32.toUInt16 ((data <<< (3 : UInt32)) &&& 0x00F8)

def writeTdac (s : CommandExe) (col : Fin n_DC) (row : Fin n_Row) (data : UInt32) :
    CommandExe :=
  { s with pixRegs := setPixReg s.pixRegs col row (tdacWord (s.pixRegs col row) data) }

/-- A write through the pixel portal; bit 9 of the address makes it a multiple one. -/
def writePortal (s : CommandExe) (col : Fin n_DC) (row : Fin n_Row) (cmd : Cmd) :
    Option CommandExe :=
  if (cmd.address &&& 0x200) >>> 9 = 0 then some (s.writeSingle col row cmd.data)
  else if PixConfMode.read s.m_cfg = 0 then s.writeMask col row cmd.data
  else some (s.writeTdac col row cmd.data)

/-- With `PixAutoRow` the next write goes to the next row. -/
def stepRow (s : CommandExe) : CommandExe :=
  if PixAutoRow.read s.m_cfg ≠ 0 then
    { s with m_cfg := PixRegionRow.write s.m_cfg (PixRegionRow.read s.m_cfg + 1) }
  else s

/-- `none`: the addressed pair is outside the matrix, or there is no such global register. -/
def doWrReg (s : CommandExe) (cmd : Cmd) : Option CommandExe :=
  if cmd.address &&& 0x1FF = 0 then
    let col := (PixRegionCol.read s.m_cfg).toNat
    let row := (PixRegionRow.read s.m_cfg).toNat
    if hpair : col < n_DC ∧ row < n_Row then
      (s.writePortal ⟨col, hpair.1⟩ ⟨row, hpair.2⟩ cmd).map stepRow
    else none
  else if haddress : cmd.address.toNat < numRegs then
    some { s with m_cfg := s.m_cfg.set cmd.address.toNat (cmd.data &&& 0xFFFF).toUInt16 }
  else none

end CommandExe

end Yarr.Itkpixv2Emu

/-!
## Enabled pixels of the ITKPIXV2 emulator

The enable bits of the pixel registers and the set of the enabled pixels hold
the same information. Which writes keep them together, and which mask writes
reach all the core columns that they are meant for.
-/

namespace Yarr.Itkpixv2Emu

open Rd53 Itkpixv2GlobalCfg Itkpixv2PixelCfg

/-! ## Words -/

def dataBit (data : UInt32) (i : Nat) : Bool := data.toBitVec.getLsbD i

theorem and_ne_zero_iff {w : Nat} (x : BitVec w) {i : Nat} (hi : i < w) :
    x &&& BitVec.twoPow w i ≠ 0#w ↔ x.getLsbD i = true := by
  rw [BitVec.and_twoPow]
  by_cases hbit : x.getLsbD i
  · simp only [hbit, if_true, ne_eq, iff_true]
    intro hzero
    have htop := congrArg (fun y => y.getLsbD i) hzero
    simp [BitVec.getLsbD_twoPow, hi] at htop
  · simp [hbit]

theorem and_0x0100 (val : UInt16) : val &&& 0x0100 ≠ 0 ↔ val.toBitVec.getLsbD 8 = true := by
  rw [← and_ne_zero_iff val.toBitVec (by omega : 8 < 16), ne_eq, ne_eq, ← UInt16.toBitVec_inj]
  exact Iff.rfl

theorem and_0x0001 (val : UInt16) : val &&& 0x0001 ≠ 0 ↔ val.toBitVec.getLsbD 0 = true := by
  rw [← and_ne_zero_iff val.toBitVec (by omega : 0 < 16), ne_eq, ne_eq, ← UInt16.toBitVec_inj]
  exact Iff.rfl

/-- The word after the left half of a mask write. -/
def leftMask (val : UInt16) (data : UInt32) : UInt16 :=
  (val &&& 0xF8FF) ||| UInt32.toUInt16 ((data <<< (3 : UInt32)) &&& 0x0700)

def maskWord (val : UInt16) (data : UInt32) : UInt16 :=
  (leftMask val data &&& 0xFFF8) ||| UInt32.toUInt16 (data &&& 0x0007)

theorem getLsbD_leftMask (val : UInt16) (data : UInt32) {i : Nat} (hi : i < 16) :
    (leftMask val data).toBitVec.getLsbD i =
      if 8 ≤ i ∧ i < 11 then dataBit data (i - 3) else val.toBitVec.getLsbD i := by
  simp only [leftMask, dataBit]
  interval_cases i <;> simp

theorem getLsbD_maskWord (val : UInt16) (data : UInt32) {i : Nat} (hi : i < 16) :
    (maskWord val data).toBitVec.getLsbD i =
      if i < 3 then dataBit data i
      else if 8 ≤ i ∧ i < 11 then dataBit data (i - 3)
      else val.toBitVec.getLsbD i := by
  have hleft := getLsbD_leftMask val data hi
  simp only [maskWord, UInt16.toBitVec_or, UInt16.toBitVec_and, BitVec.getLsbD_or,
    BitVec.getLsbD_and, hleft]
  simp only [dataBit]
  interval_cases i <;> simp

theorem getLsbD_tdacWord (val : UInt16) (data : UInt32) {i : Nat} (hi : i % 8 < 3) :
    (CommandExe.tdacWord val data).toBitVec.getLsbD i = val.toBitVec.getLsbD i := by
  by_cases hlt : i < 16
  · simp only [CommandExe.tdacWord]
    interval_cases i <;> simp_all
  · rw [BitVec.getLsbD_of_ge _ _ (by omega), BitVec.getLsbD_of_ge _ _ (by omega)]

/-! ## Coordinates -/

def coordinate (col : Fin n_Col) (row : Fin n_Row) : Nat := col * 384 + row

theorem coordinate_inj {col col' : Fin n_Col} {row row' : Fin n_Row} :
    coordinate col row = coordinate col' row' ↔ col = col' ∧ row = row' := by
  have hrow : (row : Nat) < 384 := row.isLt
  have hrow' : (row' : Nat) < 384 := row'.isLt
  rw [coordinate, coordinate, Fin.ext_iff, Fin.ext_iff]
  constructor
  · intro h
    omega
  · rintro ⟨hcol, hrows⟩
    omega

def left (dc : Fin n_DC) : Fin n_Col := ⟨2 * dc, Nat.mul_lt_mul_of_pos_left dc.isLt (by decide)⟩

def right (dc : Fin n_DC) : Fin n_Col :=
  ⟨2 * dc + 1, by
    have hdc : (dc : Nat) < 200 := dc.isLt
    show 2 * (dc : Nat) + 1 < 400
    omega⟩

@[simp] theorem left_val (dc : Fin n_DC) : (left dc : Nat) = 2 * dc := rfl

@[simp] theorem right_val (dc : Fin n_DC) : (right dc : Nat) = 2 * dc + 1 := rfl

@[simp] theorem doubleColumn_left (dc : Fin n_DC) : doubleColumn (left dc) = dc := by
  apply Fin.ext
  show 2 * (dc : Nat) / 2 = dc
  omega

@[simp] theorem doubleColumn_right (dc : Fin n_DC) : doubleColumn (right dc) = dc := by
  apply Fin.ext
  show (2 * (dc : Nat) + 1) / 2 = dc
  omega

/-- What is said of the left or of the right pixel of a pair. -/
def side {β : Type} (col : Fin n_Col) (l r : β) : β := if (col : Nat) % 2 = 0 then l else r

theorem side_left {β : Type} (dc : Fin n_DC) (l r : β) : side (left dc) l r = l := by
  have heven : (left dc : Nat) % 2 = 0 := Nat.mul_mod_right 2 dc
  rw [side, if_pos heven]

theorem side_right {β : Type} (dc : Fin n_DC) (l r : β) : side (right dc) l r = r := by
  have hodd : ¬ (right dc : Nat) % 2 = 0 := by
    rw [right_val]
    omega
  rw [side, if_neg hodd]

theorem eq_left_or_right (col : Fin n_Col) :
    col = left (doubleColumn col) ∨ col = right (doubleColumn col) := by
  have hhalf : (doubleColumn col : Nat) = col / 2 := rfl
  rw [Fin.ext_iff, Fin.ext_iff, left_val, right_val, hhalf]
  omega

/-! ## The set -/

namespace CommandExe

/-- Both pixels of a pair, as the writes update them. -/
def setPair (dc : Fin n_DC) (row : Fin n_Row) (l r : Bool) (active : Finset Nat) : Finset Nat :=
  let coordinate : Nat := (dc * 2) * 384 + row
  let active := if l then insert coordinate active else active.erase coordinate
  if r then insert (coordinate + 384) active else active.erase (coordinate + 384)

def InMatrix (active : Finset Nat) : Prop :=
  ∀ n ∈ active, ∃ col row, n = coordinate col row

/-- `m_activePixels` is the set of the pixels that are enabled in `pixRegs`. -/
def ActiveOk (s : CommandExe) : Prop :=
  ∀ n, n ∈ s.m_activePixels ↔
    ∃ (col : Fin n_Col) (row : Fin n_Row),
      n = col * 384 + row ∧ getEn s.pixRegs col row = 1

theorem activeOk_iff (s : CommandExe) :
    s.ActiveOk ↔ InMatrix s.m_activePixels ∧
      ∀ col row, coordinate col row ∈ s.m_activePixels ↔ getEn s.pixRegs col row = 1 := by
  constructor
  · intro h
    constructor
    · intro n hn
      obtain ⟨col, row, hpixel, -⟩ := (h n).mp hn
      exact ⟨col, row, hpixel⟩
    · intro col row
      rw [h]
      constructor
      · rintro ⟨col', row', hpixel, hen⟩
        obtain ⟨rfl, rfl⟩ := coordinate_inj.mp hpixel
        exact hen
      · intro hen
        exact ⟨col, row, rfl, hen⟩
  · rintro ⟨hin, h⟩ n
    constructor
    · intro hn
      obtain ⟨col, row, rfl⟩ := hin n hn
      exact ⟨col, row, rfl, (h col row).mp hn⟩
    · rintro ⟨col, row, rfl, hen⟩
      exact (h col row).mpr hen

theorem mem_update {active : Finset Nat} {n c : Nat} {b : Bool} :
    n ∈ (if b then insert c active else active.erase c) ↔
      if n = c then b = true else n ∈ active := by
  by_cases hn : n = c
  · cases b <;> simp [hn]
  · cases b <;> simp [hn]

theorem setPair_eq (dc : Fin n_DC) (row : Fin n_Row) (l r : Bool) (active : Finset Nat) (n : Nat) :
    n ∈ setPair dc row l r active ↔
      if n = coordinate (right dc) row then r = true
      else if n = coordinate (left dc) row then l = true
      else n ∈ active := by
  have hl : coordinate (left dc) row = (dc * 2) * 384 + row := by
    rw [coordinate, left_val]
    omega
  have hr : coordinate (right dc) row = (dc * 2) * 384 + row + 384 := by
    rw [coordinate, right_val]
    omega
  rw [setPair, mem_update, mem_update, hl, hr]

theorem coordinate_mem_setPair (dc : Fin n_DC) (row : Fin n_Row) (l r : Bool)
    (active : Finset Nat) (col : Fin n_Col) (row' : Fin n_Row) :
    coordinate col row' ∈ setPair dc row l r active ↔
      if doubleColumn col = dc ∧ row' = row then side col l r = true
      else coordinate col row' ∈ active := by
  rw [setPair_eq]
  simp only [coordinate_inj]
  by_cases hpair : doubleColumn col = dc ∧ row' = row
  · rw [if_pos hpair]
    obtain ⟨rfl, rfl⟩ := hpair
    rcases eq_left_or_right col with hcol | hcol
    · have hne : col ≠ right (doubleColumn col) := by
        intro h
        have hval := congrArg Fin.val (hcol.symm.trans h)
        rw [left_val, right_val] at hval
        omega
      have hside : side col l r = l := by
        rw [hcol, side_left]
      rw [if_neg (fun h => hne h.1), if_pos ⟨hcol, rfl⟩, hside]
    · have hside : side col l r = r := by
        rw [hcol, side_right]
      rw [if_pos ⟨hcol, rfl⟩, hside]
  · have hright : ¬ (col = right dc ∧ row' = row) := by
      rintro ⟨rfl, rfl⟩
      exact hpair ⟨doubleColumn_right dc, rfl⟩
    have hleft : ¬ (col = left dc ∧ row' = row) := by
      rintro ⟨rfl, rfl⟩
      exact hpair ⟨doubleColumn_left dc, rfl⟩
    rw [if_neg hright, if_neg hleft, if_neg hpair]

theorem inMatrix_setPair {active : Finset Nat} (h : InMatrix active) (dc : Fin n_DC)
    (row : Fin n_Row) (l r : Bool) : InMatrix (setPair dc row l r active) := by
  intro n hn
  rw [setPair_eq] at hn
  by_cases hright : n = coordinate (right dc) row
  · exact ⟨right dc, row, hright⟩
  by_cases hleft : n = coordinate (left dc) row
  · exact ⟨left dc, row, hleft⟩
  rw [if_neg hright, if_neg hleft] at hn
  exact h n hn

/--
A step that writes the pairs `written` of the set with two bits, and leaves the
registers of the other pairs alone, keeps the set in order exactly if these two
bits are the enable bits of the written pairs.
-/
theorem activeOk_of_written {s s' : CommandExe} (hs : s.ActiveOk)
    (written : Fin n_DC → Fin n_Row → Prop) (l r : Bool) (hin : InMatrix s'.m_activePixels)
    (hwritten : ∀ col row, written (doubleColumn col) row →
      (coordinate col row ∈ s'.m_activePixels ↔ side col l r = true))
    (hother : ∀ col row, ¬ written (doubleColumn col) row →
      (coordinate col row ∈ s'.m_activePixels ↔ coordinate col row ∈ s.m_activePixels))
    (hregs : ∀ dc row, ¬ written dc row → s'.pixRegs dc row = s.pixRegs dc row) :
    s'.ActiveOk ↔ ∀ col row, written (doubleColumn col) row →
      (side col l r = true ↔ getEn s'.pixRegs col row = 1) := by
  rw [activeOk_iff] at hs ⊢
  constructor
  · rintro ⟨-, h⟩ col row hw
    rw [← hwritten col row hw]
    exact h col row
  · intro h
    apply And.intro hin
    intro col row
    by_cases hw : written (doubleColumn col) row
    · rw [hwritten col row hw]
      exact h col row hw
    · rw [hother col row hw, hs.2 col row]
      simp only [getEn, getPixelBit, hregs _ _ hw]

/-! ## The writes -/

theorem setActive_left (active : Finset Nat) (c : Nat) (val : UInt16) :
    setActive active c (val &&& 0x0100) =
      if val.toBitVec.getLsbD 8 then insert c active else active.erase c := by
  rw [setActive]
  simp only [and_0x0100]

theorem setActive_right (active : Finset Nat) (c : Nat) (val : UInt16) :
    setActive active c (val &&& 0x0001) =
      if val.toBitVec.getLsbD 0 then insert c active else active.erase c := by
  rw [setActive]
  simp only [and_0x0001]

theorem setPixReg_self (pixRegs : PixelArray) (dc : Fin n_DC) (row : Fin n_Row) (val : UInt16) :
    setPixReg pixRegs dc row val dc row = val := by
  rw [setPixReg, if_pos ⟨rfl, rfl⟩]

theorem setPixReg_of_ne {pixRegs : PixelArray} {dc dc' : Fin n_DC} {row row' : Fin n_Row}
    {val : UInt16} (h : ¬ (dc' = dc ∧ row' = row)) :
    setPixReg pixRegs dc row val dc' row' = pixRegs dc' row' := by
  rw [setPixReg, if_neg h]

theorem setPixReg_setPixReg (pixRegs : PixelArray) (dc : Fin n_DC) (row : Fin n_Row)
    (val val' : UInt16) :
    setPixReg (setPixReg pixRegs dc row val) dc row val' = setPixReg pixRegs dc row val' := by
  funext dc' row'
  by_cases h : dc' = dc ∧ row' = row
  · simp only [setPixReg, if_pos h]
  · simp only [setPixReg, if_neg h]

theorem getLsbD_single (data : UInt32) {i : Nat} (hi : i < 16) :
    (data &&& 0xFFFF).toUInt16.toBitVec.getLsbD i = dataBit data i := by
  simp only [dataBit]
  interval_cases i <;> simp

theorem writeSingle_pixRegs (s : CommandExe) (dc : Fin n_DC) (row : Fin n_Row) (data : UInt32) :
    (s.writeSingle dc row data).pixRegs =
      setPixReg s.pixRegs dc row (data &&& 0xFFFF).toUInt16 :=
  rfl

theorem writeSingle_active (s : CommandExe) (dc : Fin n_DC) (row : Fin n_Row) (data : UInt32) :
    (s.writeSingle dc row data).m_activePixels =
      setPair dc row (dataBit data 8) (dataBit data 0) s.m_activePixels := by
  rw [writeSingle, setPair]
  simp only [setActive_left, setActive_right, getLsbD_single data (by omega : 8 < 16),
    getLsbD_single data (by omega : 0 < 16)]

theorem writeTdac_pixRegs (s : CommandExe) (dc : Fin n_DC) (row : Fin n_Row) (data : UInt32) :
    (s.writeTdac dc row data).pixRegs =
      setPixReg s.pixRegs dc row (tdacWord (s.pixRegs dc row) data) :=
  rfl

theorem writeMaskTurn_eq {dc : Fin n_DC} {row : Fin n_Row} {data : UInt32} {s s' : CommandExe}
    {ccol : Nat} (h : writeMaskTurn dc row data s ccol = some s') :
    ∃ hcol : dc + ccol * 4 < n_DC,
      s' = { s with
        pixRegs := setPixReg s.pixRegs dc row (maskWord (s.pixRegs ⟨dc + ccol * 4, hcol⟩ row) data)
        m_activePixels :=
          setPair ⟨dc + ccol * 4, hcol⟩ row (dataBit data 5) (dataBit data 0)
            s.m_activePixels } := by
  by_cases hcol : dc + ccol * 4 < n_DC
  · rw [writeMaskTurn, dif_pos hcol] at h
    have hs' := (Option.some.inj h).symm
    apply Exists.intro hcol
    have hl := getLsbD_leftMask (s.pixRegs ⟨dc + ccol * 4, hcol⟩ row) data (by omega : 8 < 16)
    have hr := getLsbD_maskWord (s.pixRegs ⟨dc + ccol * 4, hcol⟩ row) data (by omega : 0 < 16)
    simp only [leftMask] at hl
    simp only [maskWord, leftMask] at hr
    rw [hs', setPair]
    simp only [setActive_left, setActive_right, hl, hr, maskWord, leftMask]
    rfl
  · rw [writeMaskTurn, dif_neg hcol] at h
    cases h

/-- The pair lies in one of the core columns up to `ccol`. -/
def InColumns (dc : Fin n_DC) (row : Fin n_Row) (n : Nat) (dc' : Fin n_DC) (row' : Fin n_Row) :
    Prop :=
  row' = row ∧ ∃ ccol, ccol < n ∧ (dc' : Nat) = dc + ccol * 4

theorem inColumns_succ {dc dc' : Fin n_DC} {row row' : Fin n_Row} {n : Nat}
    (hcol : dc + n * 4 < n_DC) :
    InColumns dc row (n + 1) dc' row' ↔
      (dc' = ⟨dc + n * 4, hcol⟩ ∧ row' = row) ∨ InColumns dc row n dc' row' := by
  constructor
  · rintro ⟨hrow, ccol, hlt, hdc'⟩
    by_cases hlast : ccol = n
    · subst hlast
      exact Or.inl ⟨Fin.ext hdc', hrow⟩
    · exact Or.inr ⟨hrow, ccol, by omega, hdc'⟩
  · rintro (⟨hdc', hrow⟩ | ⟨hrow, ccol, hlt, hdc'⟩)
    · exact ⟨hrow, n, by omega, Fin.ext_iff.mp hdc'⟩
    · exact ⟨hrow, ccol, by omega, hdc'⟩

/-- What a mask write over `n` core columns leaves. -/
structure AfterMask (dc : Fin n_DC) (row : Fin n_Row) (data : UInt32) (s s' : CommandExe)
    (n : Nat) : Prop where
  inMatrix : InMatrix s.m_activePixels → InMatrix s'.m_activePixels
  written : ∀ col row', InColumns dc row n (doubleColumn col) row' →
    (coordinate col row' ∈ s'.m_activePixels ↔
      side col (dataBit data 5) (dataBit data 0) = true)
  other : ∀ col row', ¬ InColumns dc row n (doubleColumn col) row' →
    (coordinate col row' ∈ s'.m_activePixels ↔ coordinate col row' ∈ s.m_activePixels)

theorem afterMask_zero (dc : Fin n_DC) (row : Fin n_Row) (data : UInt32) (s : CommandExe) :
    AfterMask dc row data s s 0 where
  inMatrix := id
  written := by
    rintro col row' ⟨-, ccol, hlt, -⟩
    omega
  other := fun _ _ _ => Iff.rfl

theorem afterMask_succ {dc : Fin n_DC} {row : Fin n_Row} {data : UInt32} {s t s' : CommandExe}
    {n : Nat} (ht : AfterMask dc row data s t n) (hcol : dc + n * 4 < n_DC)
    (hactive : s'.m_activePixels =
      setPair ⟨dc + n * 4, hcol⟩ row (dataBit data 5) (dataBit data 0) t.m_activePixels) :
    AfterMask dc row data s s' (n + 1) where
  inMatrix := by
    intro h
    rw [hactive]
    exact inMatrix_setPair (ht.inMatrix h) _ _ _ _
  written := by
    intro col row' hw
    rw [hactive, coordinate_mem_setPair]
    by_cases hpair : doubleColumn col = ⟨dc + n * 4, hcol⟩ ∧ row' = row
    · rw [if_pos hpair]
    · rw [if_neg hpair]
      exact ht.written col row' (((inColumns_succ hcol).mp hw).resolve_left hpair)
  other := by
    intro col row' hw
    rw [inColumns_succ hcol, not_or] at hw
    rw [hactive, coordinate_mem_setPair, if_neg hw.1]
    exact ht.other col row' hw.2

/-- Every turn overwrites the word that the turn before has left. -/
theorem writeMask_loop {dc : Fin n_DC} {row : Fin n_Row} {data : UInt32} {s : CommandExe}
    {n : Nat} {s' : CommandExe}
    (h : (List.range (n + 1)).foldlM (writeMaskTurn dc row data) s = some s') :
    AfterMask dc row data s s' (n + 1) ∧ ∃ hlast : dc + n * 4 < n_DC, s'.pixRegs =
      setPixReg s.pixRegs dc row (maskWord (s.pixRegs ⟨dc + n * 4, hlast⟩ row) data) := by
  induction n generalizing s' with
  | zero =>
      have hturn : writeMaskTurn dc row data s 0 = some s' := by
        simpa [List.range_succ] using h
      obtain ⟨hcol, hs'⟩ := writeMaskTurn_eq hturn
      constructor
      · apply afterMask_succ (afterMask_zero dc row data s) hcol
        rw [hs']
      · apply Exists.intro hcol
        rw [hs']
  | succ n ih =>
      rw [List.range_succ, Invariant.foldlM_concat] at h
      obtain ⟨t, ht, hturn⟩ := h
      obtain ⟨hafter, hlast, hregs⟩ := ih ht
      obtain ⟨hcol, hs'⟩ := writeMaskTurn_eq hturn
      constructor
      · apply afterMask_succ hafter hcol
        rw [hs']
      · apply Exists.intro hcol
        have hne : ¬ ((⟨dc + (n + 1) * 4, hcol⟩ : Fin n_DC) = dc ∧ row = row) := by
          rintro ⟨heq, -⟩
          have hval := Fin.ext_iff.mp heq
          have hval' : (dc : Nat) + (n + 1) * 4 = dc := hval
          omega
        rw [hs', hregs, setPixReg_of_ne hne, setPixReg_setPixReg]

theorem colsToWrite_pos (s : CommandExe) : 0 < s.colsToWrite := by
  rw [colsToWrite]
  by_cases hbroadcast : PixBroadcast.read s.m_cfg ≠ 0
  · rw [if_pos hbroadcast]
    omega
  · rw [if_neg hbroadcast]
    omega

end CommandExe

end Yarr.Itkpixv2Emu
