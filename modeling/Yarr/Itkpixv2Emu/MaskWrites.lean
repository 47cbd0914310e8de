import Yarr.Itkpixv2Emu.CommandExe

/-!
# Runs of register writes

After every run of writes the set of the enabled pixels agrees with the pixel
registers, and every broadcast mask write reaches the pairs of all 50 core
columns, exactly if every write of the run meets a condition on its data and on
the registers before it.
-/

namespace Yarr.Itkpixv2Emu

open Rd53 Itkpixv2GlobalCfg Itkpixv2PixelCfg

namespace CommandExe

def bitOf (b : Bool) : UInt16 := if b then 1 else 0

theorem bitOf_inj {a b : Bool} : bitOf a = bitOf b ↔ a = b := by
  cases a <;> cases b <;> decide

theorem bitOf_eq_one {b : Bool} : bitOf b = 1 ↔ b = true := by
  cases b <;> decide

/-- The bit of a mask payload for a bit of a pixel. -/
def maskBit (data : UInt32) (col : Fin n_Col) (bit : Nat) : UInt16 :=
  bitOf (dataBit data (col % 2 * 5 + bit))

def IsPortal (cmd : Cmd) : Prop := cmd.address &&& 0x1FF = 0

def IsSingle (cmd : Cmd) : Prop := (cmd.address &&& 0x200) >>> 9 = 0

instance (cmd : Cmd) : Decidable (IsPortal cmd) := inferInstanceAs (Decidable (_ = _))

instance (cmd : Cmd) : Decidable (IsSingle cmd) := inferInstanceAs (Decidable (_ = _))

section Steps

variable (s : CommandExe) (cmd : Cmd)

def IsMask : Prop := IsPortal cmd ∧ ¬ IsSingle cmd ∧ PixConfMode.read s.m_cfg = 0

/-- The pair that the portal goes to. -/
def Addressed (dc : Fin n_DC) (row : Fin n_Row) : Prop :=
  (row : Nat) = (PixRegionRow.read s.m_cfg).toNat ∧
    (dc : Nat) = (PixRegionCol.read s.m_cfg).toNat

/-- The pairs that a mask write is for. With `PixBroadcast` these are 50. -/
def Targets (dc : Fin n_DC) (row : Fin n_Row) : Prop :=
  (row : Nat) = (PixRegionRow.read s.m_cfg).toNat ∧
    ∃ ccol, ccol < s.colsToWrite ∧ (dc : Nat) = (PixRegionCol.read s.m_cfg).toNat + ccol * 4

/-- The write enables both pixels or none, in all the pairs that it takes into the set. -/
structure KeepsActive : Prop where
  single : IsPortal cmd → IsSingle cmd → dataBit cmd.data 0 = dataBit cmd.data 8
  mask : s.IsMask cmd → dataBit cmd.data 0 = dataBit cmd.data 5
  others : s.IsMask cmd → ∀ col row, s.Targets (doubleColumn col) row →
    ¬ s.Addressed (doubleColumn col) row →
      getEn s.pixRegs col row = bitOf (dataBit cmd.data 0)

/-- The mask bits of all the pairs that the write is for, and no other bits. -/
structure MaskWritten (s' : CommandExe) : Prop where
  written : ∀ col row bit, s.Targets (doubleColumn col) row → bit < 3 →
    getPixelBit s'.pixRegs col row bit = maskBit cmd.data col bit
  kept : ∀ col row bit, bit < 8 → ¬ (s.Targets (doubleColumn col) row ∧ bit < 3) →
    getPixelBit s'.pixRegs col row bit = getPixelBit s.pixRegs col row bit

/--
The other 49 pairs hold the mask already, and the last of them has the TDAC
bits of the addressed pair.
-/
structure BroadcastFits : Prop where
  masks : ∀ col row bit, s.Targets (doubleColumn col) row →
    ¬ s.Addressed (doubleColumn col) row → bit < 3 →
      getPixelBit s.pixRegs col row bit = maskBit cmd.data col bit
  tdacs : ∀ (col col' : Fin n_Col) row bit, s.Addressed (doubleColumn col) row →
    (col' : Nat) = col + 392 → 3 ≤ bit → bit < 8 →
      getPixelBit s.pixRegs col' row bit = getPixelBit s.pixRegs col row bit

end Steps

theorem addressed_iff {s : CommandExe} {dc dc' : Fin n_DC} {row row' : Fin n_Row}
    (h : s.Addressed dc row) : s.Addressed dc' row' ↔ dc' = dc ∧ row' = row := by
  obtain ⟨hrow, hdc⟩ := h
  rw [Addressed, ← hrow, ← hdc, Fin.ext_iff, Fin.ext_iff]
  exact and_comm

theorem targets_iff {s : CommandExe} {dc dc' : Fin n_DC} {row row' : Fin n_Row}
    (h : s.Addressed dc row) : s.Targets dc' row' ↔ InColumns dc row s.colsToWrite dc' row' := by
  obtain ⟨hrow, hdc⟩ := h
  rw [Targets, InColumns, ← hrow, ← hdc, Fin.ext_iff]

theorem targets_of_addressed {s : CommandExe} {dc : Fin n_DC} {row : Fin n_Row}
    (h : s.Addressed dc row) : s.Targets dc row :=
  ⟨h.1, 0, s.colsToWrite_pos, by rw [h.2, Nat.zero_mul, Nat.add_zero]⟩

/-! ## One write -/

/-- What a write does to the pixels: through the portal, or nothing. -/
theorem doWrReg_cases {s s' : CommandExe} {cmd : Cmd} (h : s.doWrReg cmd = some s') :
    (IsPortal cmd ∧ ∃ dc row t, s.Addressed dc row ∧ s.writePortal dc row cmd = some t ∧
      s'.pixRegs = t.pixRegs ∧ s'.m_activePixels = t.m_activePixels) ∨
    (¬ IsPortal cmd ∧ s'.pixRegs = s.pixRegs ∧ s'.m_activePixels = s.m_activePixels) := by
  rw [doWrReg] at h
  by_cases hportal : cmd.address &&& 0x1FF = 0
  · rw [if_pos hportal] at h
    by_cases hpair : (PixRegionCol.read s.m_cfg).toNat < n_DC ∧
        (PixRegionRow.read s.m_cfg).toNat < n_Row
    · rw [dif_pos hpair, Option.map_eq_some_iff] at h
      obtain ⟨t, ht, hs'⟩ := h
      have hkeep : s'.pixRegs = t.pixRegs ∧ s'.m_activePixels = t.m_activePixels := by
        rw [← hs', stepRow]
        by_cases hauto : PixAutoRow.read t.m_cfg ≠ 0
        · rw [if_pos hauto]
          exact ⟨rfl, rfl⟩
        · rw [if_neg hauto]
          exact ⟨rfl, rfl⟩
      exact Or.inl ⟨hportal, _, _, t, ⟨rfl, rfl⟩, ht, hkeep⟩
    · rw [dif_neg hpair] at h
      cases h
  · rw [if_neg hportal] at h
    by_cases haddress : cmd.address.toNat < numRegs
    · rw [dif_pos haddress] at h
      have hs' := Option.some.inj h
      rw [← hs']
      exact Or.inr ⟨hportal, rfl, rfl⟩
    · rw [dif_neg haddress] at h
      cases h

theorem writePortal_cases {s t : CommandExe} {dc : Fin n_DC} {row : Fin n_Row} {cmd : Cmd}
    (h : s.writePortal dc row cmd = some t) :
    (IsSingle cmd ∧ t = s.writeSingle dc row cmd.data) ∨
    (¬ IsSingle cmd ∧ PixConfMode.read s.m_cfg = 0 ∧ s.writeMask dc row cmd.data = some t) ∨
    (¬ IsSingle cmd ∧ PixConfMode.read s.m_cfg ≠ 0 ∧ t = s.writeTdac dc row cmd.data) := by
  rw [writePortal] at h
  by_cases hsingle : (cmd.address &&& 0x200) >>> 9 = 0
  · rw [if_pos hsingle] at h
    exact Or.inl ⟨hsingle, (Option.some.inj h).symm⟩
  · rw [if_neg hsingle] at h
    by_cases hmode : PixConfMode.read s.m_cfg = 0
    · rw [if_pos hmode] at h
      exact Or.inr (Or.inl ⟨hsingle, hmode, h⟩)
    · rw [if_neg hmode] at h
      exact Or.inr (Or.inr ⟨hsingle, hmode, (Option.some.inj h).symm⟩)

theorem activeOk_congr {s s' : CommandExe} (hregs : s'.pixRegs = s.pixRegs)
    (hactive : s'.m_activePixels = s.m_activePixels) : s'.ActiveOk ↔ s.ActiveOk := by
  rw [ActiveOk, ActiveOk, hregs, hactive]

theorem getEn_eq (pixRegs : PixelArray) (col : Fin n_Col) (row : Fin n_Row) :
    getEn pixRegs col row =
      bitOf ((pixRegs (doubleColumn col) row).toBitVec.getLsbD (col % 2 * 8)) := by
  rw [getEn, getPixelBit_eq pixRegs col row (by omega), bitOf, Nat.add_zero]

theorem forall_pair {P : Fin n_Col → Prop} (dc : Fin n_DC) :
    (∀ col, doubleColumn col = dc → P col) ↔ P (left dc) ∧ P (right dc) := by
  constructor
  · intro h
    exact ⟨h _ (doubleColumn_left dc), h _ (doubleColumn_right dc)⟩
  · rintro ⟨hl, hr⟩ col rfl
    rcases eq_left_or_right col with hcol | hcol
    · rw [hcol]
      exact hl
    · rw [hcol]
      exact hr

theorem getEn_left (pixRegs : PixelArray) (dc : Fin n_DC) (row : Fin n_Row) :
    getEn pixRegs (left dc) row = bitOf ((pixRegs dc row).toBitVec.getLsbD 0) := by
  have heven : (left dc : Nat) % 2 * 8 = 0 := by
    rw [left_val]
    omega
  rw [getEn_eq, doubleColumn_left, heven]

theorem getEn_right (pixRegs : PixelArray) (dc : Fin n_DC) (row : Fin n_Row) :
    getEn pixRegs (right dc) row = bitOf ((pixRegs dc row).toBitVec.getLsbD 8) := by
  have hodd : (right dc : Nat) % 2 * 8 = 8 := by
    rw [right_val]
    omega
  rw [getEn_eq, doubleColumn_right, hodd]

theorem getLsbD_maskWord_pixel (val : UInt16) (data : UInt32) (col : Fin n_Col) {bit : Nat}
    (hbit : bit < 8) :
    (maskWord val data).toBitVec.getLsbD (col % 2 * 8 + bit) =
      if bit < 3 then dataBit data (col % 2 * 5 + bit)
      else val.toBitVec.getLsbD (col % 2 * 8 + bit) := by
  rw [getLsbD_maskWord val data (by omega)]
  rcases Nat.mod_two_eq_zero_or_one col with hpar | hpar
  · rw [hpar]
    by_cases hlow : bit < 3
    · simp [hlow]
    · have hhigh : ¬ (8 ≤ bit ∧ bit < 11) := by omega
      simp [hlow, hhigh]
  · rw [hpar]
    by_cases hlow : bit < 3
    · have hin : 8 ≤ 8 + bit ∧ 8 + bit < 11 := by omega
      have hnot : ¬ 8 + bit < 3 := by omega
      have hindex : 8 + bit - 3 = 5 + bit := by omega
      simp [hlow, hin, hnot, hindex]
    · have hhigh : ¬ (8 ≤ 8 + bit ∧ 8 + bit < 11) := by omega
      have hnot : ¬ 8 + bit < 3 := by omega
      simp [hlow, hnot]
      omega

theorem activeOk_writeSingle {s : CommandExe} (hs : s.ActiveOk) (dc : Fin n_DC)
    (row : Fin n_Row) (data : UInt32) :
    (s.writeSingle dc row data).ActiveOk ↔ dataBit data 0 = dataBit data 8 := by
  rw [activeOk_of_written hs (fun dc' row' => dc' = dc ∧ row' = row)
    (dataBit data 8) (dataBit data 0)]
  · constructor
    · intro h
      have hleft := h (left dc) row ⟨doubleColumn_left dc, rfl⟩
      rw [side_left, getEn_left, writeSingle_pixRegs, setPixReg_self, getLsbD_single data (by omega), bitOf_eq_one]
        at hleft
      exact Bool.eq_iff_iff.mpr hleft.symm
    · rintro hdata col row' ⟨hdc, rfl⟩
      revert col
      rw [forall_pair, side_left, side_right, getEn_left, getEn_right, writeSingle_pixRegs, setPixReg_self,
        getLsbD_single data (by omega), getLsbD_single data (by omega), bitOf_eq_one,
        bitOf_eq_one, hdata]
      exact ⟨Iff.rfl, Iff.rfl⟩
  · rw [writeSingle_active]
    exact inMatrix_setPair ((activeOk_iff s).mp hs).1 _ _ _ _
  · intro col row' hw
    rw [writeSingle_active, coordinate_mem_setPair, if_pos hw]
  · intro col row' hw
    rw [writeSingle_active, coordinate_mem_setPair, if_neg hw]
  · intro dc' row' hw
    exact setPixReg_of_ne hw

theorem activeOk_writeTdac {s : CommandExe} (hs : s.ActiveOk) (dc : Fin n_DC)
    (row : Fin n_Row) (data : UInt32) : (s.writeTdac dc row data).ActiveOk := by
  have hen : ∀ col row', getEn (s.writeTdac dc row data).pixRegs col row' =
      getEn s.pixRegs col row' := by
    intro col row'
    rw [getEn_eq, getEn_eq]
    by_cases hpair : doubleColumn col = dc ∧ row' = row
    · obtain ⟨rfl, rfl⟩ := hpair
      rw [writeTdac_pixRegs, setPixReg_self, getLsbD_tdacWord _ _ (by omega)]
    · rw [writeTdac_pixRegs, setPixReg_of_ne hpair]
  intro n
  rw [show (s.writeTdac dc row data).m_activePixels = s.m_activePixels from rfl, hs n]
  simp only [hen]

theorem writeMask_regs {s t : CommandExe} {dc : Fin n_DC} {row : Fin n_Row} {data : UInt32}
    (h : s.writeMask dc row data = some t) :
    AfterMask dc row data s t s.colsToWrite ∧
    ∃ hlast : dc + (s.colsToWrite - 1) * 4 < n_DC, t.pixRegs = setPixReg s.pixRegs dc row
      (maskWord (s.pixRegs ⟨dc + (s.colsToWrite - 1) * 4, hlast⟩ row) data) := by
  have hpos := s.colsToWrite_pos
  have hsucc : s.colsToWrite = (s.colsToWrite - 1) + 1 := by omega
  rw [writeMask, hsucc] at h
  have hloop := writeMask_loop h
  rw [← hsucc] at hloop
  exact hloop

theorem activeOk_writeMask {s t : CommandExe} {dc : Fin n_DC} {row : Fin n_Row} {data : UInt32}
    (hs : s.ActiveOk) (haddr : s.Addressed dc row) (h : s.writeMask dc row data = some t) :
    t.ActiveOk ↔ dataBit data 0 = dataBit data 5 ∧
      ∀ col row', s.Targets (doubleColumn col) row' → ¬ s.Addressed (doubleColumn col) row' →
        getEn s.pixRegs col row' = bitOf (dataBit data 0) := by
  obtain ⟨hafter, hlast, hregs⟩ := writeMask_regs h
  have hkept : ∀ dc' row', ¬ s.Addressed dc' row' → t.pixRegs dc' row' = s.pixRegs dc' row' := by
    intro dc' row' hne
    rw [addressed_iff haddr] at hne
    rw [hregs, setPixReg_of_ne hne]
  rw [activeOk_of_written hs s.Targets (dataBit data 5) (dataBit data 0)
    (hafter.inMatrix ((activeOk_iff s).mp hs).1)
    (fun col row' hw => hafter.written col row' ((targets_iff haddr).mp hw))
    (fun col row' hw => hafter.other col row' (fun hc => hw ((targets_iff haddr).mpr hc)))
    (fun dc' row' hw => hkept dc' row' (fun ha => hw (targets_of_addressed ha)))]
  constructor
  · intro h
    have hdata : dataBit data 0 = dataBit data 5 := by
      have hleft := h (left dc) row (by
        rw [doubleColumn_left]
        exact targets_of_addressed haddr)
      rw [side_left, getEn_left, hregs, setPixReg_self, getLsbD_maskWord _ _ (by omega),
        if_pos (by omega), bitOf_eq_one] at hleft
      exact Bool.eq_iff_iff.mpr hleft.symm
    apply And.intro hdata
    intro col row' htarget hne
    have hpixel := h col row' htarget
    rw [← hdata, side, ite_self, getEn_eq, hkept _ _ hne, bitOf_eq_one] at hpixel
    rw [getEn_eq, bitOf_inj]
    exact Bool.eq_iff_iff.mpr hpixel.symm
  · rintro ⟨hdata, hothers⟩ col row' htarget
    rw [← hdata, side, ite_self]
    by_cases hpair : s.Addressed (doubleColumn col) row'
    · obtain ⟨hdc, hrow⟩ := (addressed_iff haddr).mp hpair
      subst hrow
      have hmask := getLsbD_maskWord_pixel
        (s.pixRegs ⟨dc + (s.colsToWrite - 1) * 4, hlast⟩ row') data col (by omega : 0 < 8)
      rw [if_pos (by omega), Nat.add_zero, Nat.add_zero] at hmask
      rw [getEn_eq, hdc, hregs, setPixReg_self, hmask, bitOf_eq_one]
      rcases Nat.mod_two_eq_zero_or_one col with hpar | hpar
      · rw [hpar]
      · rw [hpar, Nat.one_mul, hdata]
    · have hpixel := hothers col row' htarget hpair
      rw [getEn_eq, hkept _ _ hpair, ← getEn_eq, hpixel, bitOf_eq_one]

theorem doWrReg_activeOk {s s' : CommandExe} {cmd : Cmd} (hs : s.ActiveOk)
    (h : s.doWrReg cmd = some s') : s'.ActiveOk ↔ s.KeepsActive cmd := by
  rcases doWrReg_cases h with ⟨hportal, dc, row, t, haddr, ht, hregs, hactive⟩ |
      ⟨hportal, hregs, hactive⟩
  · rw [activeOk_congr hregs hactive]
    rcases writePortal_cases ht with ⟨hsingle, rfl⟩ | ⟨hsingle, hmode, hmask⟩ |
        ⟨hsingle, hmode, rfl⟩
    · have hnomask : ¬ s.IsMask cmd := fun hm => hm.2.1 hsingle
      rw [activeOk_writeSingle hs]
      constructor
      · intro hdata
        exact ⟨fun _ _ => hdata, fun hm => absurd hm hnomask, fun hm => absurd hm hnomask⟩
      · intro hkeeps
        exact hkeeps.single hportal hsingle
    · have hm : s.IsMask cmd := ⟨hportal, hsingle, hmode⟩
      rw [activeOk_writeMask hs haddr hmask]
      constructor
      · rintro ⟨hdata, hothers⟩
        exact ⟨fun _ h1 => absurd h1 hsingle, fun _ => hdata, fun _ => hothers⟩
      · intro hkeeps
        exact ⟨hkeeps.mask hm, hkeeps.others hm⟩
    · have hnomask : ¬ s.IsMask cmd := fun hm => hmode hm.2.2
      constructor
      · intro _
        exact ⟨fun _ h1 => absurd h1 hsingle, fun hm => absurd hm hnomask,
          fun hm => absurd hm hnomask⟩
      · intro _
        exact activeOk_writeTdac hs dc row cmd.data
  · rw [activeOk_congr hregs hactive]
    constructor
    · intro _
      exact ⟨fun hp => absurd hp hportal, fun hm => absurd hm.1 hportal,
        fun hm => absurd hm.1 hportal⟩
    · intro _
      exact hs

/-! ## The registers after a broadcast mask write -/

theorem getPixelBit_maskWord {pixRegs : PixelArray} {val : UInt16} {data : UInt32}
    {col : Fin n_Col} {row : Fin n_Row} {bit : Nat} (hbit : bit < 8)
    (hregs : pixRegs (doubleColumn col) row = maskWord val data) :
    getPixelBit pixRegs col row bit =
      if bit < 3 then bitOf (dataBit data (col % 2 * 5 + bit))
      else bitOf (val.toBitVec.getLsbD (col % 2 * 8 + bit)) := by
  rw [getPixelBit_eq _ _ _ hbit, hregs, getLsbD_maskWord_pixel val data col hbit, bitOf, bitOf]
  by_cases hlow : bit < 3
  · simp only [if_pos hlow]
  · simp only [if_neg hlow]

theorem getPixelBit_congr {p p' : PixelArray} {col : Fin n_Col} {row : Fin n_Row} {bit : Nat}
    (h : p (doubleColumn col) row = p' (doubleColumn col) row) :
    getPixelBit p col row bit = getPixelBit p' col row bit := by
  rw [getPixelBit, getPixelBit, h]

theorem getPixelBit_last {s : CommandExe} {dc : Fin n_DC} {row : Fin n_Row}
    {col col' : Fin n_Col} {bit : Nat} (hbit : bit < 8) (hdc : doubleColumn col = dc)
    (hcol' : (col' : Nat) = col + 392) (hlast : dc + 49 * 4 < n_DC) :
    getPixelBit s.pixRegs col' row bit =
      bitOf ((s.pixRegs ⟨dc + 49 * 4, hlast⟩ row).toBitVec.getLsbD (col % 2 * 8 + bit)) := by
  have hpair : doubleColumn col' = ⟨dc + 49 * 4, hlast⟩ := by
    apply Fin.ext
    have hval : (dc : Nat) = col / 2 := by rw [← hdc]; rfl
    show (col' : Nat) / 2 = dc + 49 * 4
    omega
  have hpar : (col' : Nat) % 2 = col % 2 := by omega
  rw [getPixelBit_eq _ _ _ hbit, hpair, hpar, bitOf]

theorem maskWritten_iff {s s' : CommandExe} {cmd : Cmd} (hmask : s.IsMask cmd)
    (hbroadcast : PixBroadcast.read s.m_cfg ≠ 0) (h : s.doWrReg cmd = some s') :
    s.MaskWritten cmd s' ↔ s.BroadcastFits cmd := by
  obtain ⟨hportal, hsingle, hmode⟩ := hmask
  have hcols : s.colsToWrite = 50 := by rw [colsToWrite, if_pos hbroadcast]
  rcases doWrReg_cases h with ⟨-, dc, row, t, haddr, ht, hregs', -⟩ | ⟨hno, -⟩
  · have hwrite : s.writeMask dc row cmd.data = some t := by
      rcases writePortal_cases ht with ⟨hno, -⟩ | ⟨-, -, hwrite⟩ | ⟨-, hno, -⟩
      · exact absurd hno hsingle
      · exact hwrite
      · exact absurd hmode hno
    obtain ⟨-, hlast, hregs⟩ := writeMask_regs hwrite
    rw [← hregs'] at hregs
    simp only [hcols] at hlast hregs
    have hbase : ∀ col row', s.Addressed (doubleColumn col) row' →
        s'.pixRegs (doubleColumn col) row' =
          maskWord (s.pixRegs ⟨dc + 49 * 4, hlast⟩ row) cmd.data := by
      intro col row' ha
      obtain ⟨hdc, hrow⟩ := (addressed_iff haddr).mp ha
      rw [hregs, hdc, hrow, setPixReg_self]
    have hother : ∀ col row', ¬ s.Addressed (doubleColumn col) row' →
        s'.pixRegs (doubleColumn col) row' = s.pixRegs (doubleColumn col) row' := by
      intro col row' ha
      rw [addressed_iff haddr] at ha
      rw [hregs, setPixReg_of_ne ha]
    have hfar : ∀ (col col' : Fin n_Col) row' bit, s.Addressed (doubleColumn col) row' →
        (col' : Nat) = col + 392 → 3 ≤ bit → bit < 8 →
          getPixelBit s'.pixRegs col row' bit = getPixelBit s.pixRegs col' row' bit := by
      intro col col' row' bit ha hcol' hhigh hbit
      obtain ⟨hdc, hrow⟩ := (addressed_iff haddr).mp ha
      rw [getPixelBit_maskWord hbit (hbase col row' ha), if_neg (by omega), hrow,
        getPixelBit_last hbit hdc hcol' hlast]
    constructor
    · intro hw
      constructor
      · intro col row' bit htarget ha hlow
        rw [← hw.written col row' bit htarget hlow]
        exact (getPixelBit_congr (hother col row' ha)).symm
      · intro col col' row' bit ha hcol' hhigh hbit
        rw [← hfar col col' row' bit ha hcol' hhigh hbit]
        apply hw.kept col row' bit hbit
        rintro ⟨-, hlow⟩
        omega
    · intro hfits
      constructor
      · intro col row' bit htarget hlow
        by_cases ha : s.Addressed (doubleColumn col) row'
        · rw [getPixelBit_maskWord (by omega) (hbase col row' ha), if_pos hlow, maskBit]
        · rw [getPixelBit_congr (hother col row' ha)]
          exact hfits.masks col row' bit htarget ha hlow
      · intro col row' bit hbit hkept
        by_cases ha : s.Addressed (doubleColumn col) row'
        · have hhigh : 3 ≤ bit := by
            by_contra hlow
            exact hkept ⟨targets_of_addressed ha, by omega⟩
          have hdc := (addressed_iff haddr).mp ha
          have hcol' : (col : Nat) + 392 < 400 := by
            have hval : (dc : Nat) = col / 2 := by rw [← hdc.1]; rfl
            have hlast' : (dc : Nat) + 49 * 4 < 200 := hlast
            omega
          rw [hfar col ⟨col + 392, hcol'⟩ row' bit ha rfl hhigh hbit]
          exact hfits.tdacs col ⟨col + 392, hcol'⟩ row' bit ha rfl hhigh hbit
        · exact getPixelBit_congr (hother col row' ha)
  · exact absurd hportal hno

/-! ## Runs -/

theorem activeOk_fresh (m_cfg : Words numRegs) : (fresh m_cfg).ActiveOk := by
  rw [activeOk_iff]
  constructor
  · intro n hn
    exact absurd hn (Finset.notMem_empty n)
  · intro col row
    have hen : getEn (fresh m_cfg).pixRegs col row = 0 := by
      rw [getEn_eq]
      simp [fresh, bitOf]
    rw [hen]
    simp [fresh]

/-- Select the pair (0, 0) and enable its even pixel. -/
def enableLeft : List Cmd :=
  [⟨0x66, 0xF, 1, 0⟩, ⟨0x66, 0xF, 2, 0⟩, ⟨0x66, 0xF, 0, 1⟩]

theorem doWrReg_global (s : CommandExe) {cmd : Cmd} (hportal : ¬ cmd.address &&& 0x1FF = 0)
    (haddress : cmd.address.toNat < numRegs) :
    s.doWrReg cmd = some
      { s with m_cfg := s.m_cfg.set cmd.address.toNat (cmd.data &&& 0xFFFF).toUInt16 } := by
  rw [doWrReg, if_neg hportal, dif_pos haddress]

theorem doWrReg_single {s : CommandExe} {cmd : Cmd} (hportal : cmd.address &&& 0x1FF = 0)
    (hsingle : (cmd.address &&& 0x200) >>> 9 = 0)
    (hcol : (PixRegionCol.read s.m_cfg).toNat < n_DC)
    (hrow : (PixRegionRow.read s.m_cfg).toNat < n_Row) : ∃ s', s.doWrReg cmd = some s' := by
  rw [doWrReg, if_pos hportal, dif_pos ⟨hcol, hrow⟩, writePortal, if_pos hsingle]
  exact ⟨_, rfl⟩

end CommandExe

end Yarr.Itkpixv2Emu
