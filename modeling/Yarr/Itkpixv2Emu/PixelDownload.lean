import Yarr.Itkpixv2Emu.MaskWrites
import Yarr.Rd53.ChipCopy
import Yarr.Rd53.Itkpixv2

/-!
# The chip after a download of pixels

The portal of the chip follows the region registers, which the driver sets
ahead of every register that it sends. So every word lands in the register that
the driver has taken it from.
-/

namespace Yarr.Itkpixv2Emu

open Rd53 Itkpixv2GlobalCfg Itkpixv2PixelCfg CommandExe

/-- The command that arrives in the chip. -/
def writeCmd (w : WrReg) : Cmd :=
  ⟨Commands.WrReg, w.chipId &&& 0x1F, UInt32.ofNat w.address, w.data.toUInt32⟩

/-- The chip has executed what the driver has sent. -/
def Executed (chip : CommandExe) (fe : Itkpixv2) (s : CommandExe) : Prop :=
  (fe.sent.map writeCmd).foldlM doWrReg chip = some s

/-- A register that is a word. -/
structure Whole (r : RegDefault numRegs) : Prop where
  offset : r.m_bOffset = 0
  bits : r.m_bits = 16
  word : r.m_cfg = r.m_addr

theorem whole_portal : Whole PixPortal := ⟨rfl, rfl, rfl⟩

theorem whole_col : Whole PixRegionCol := ⟨rfl, rfl, rfl⟩

theorem whole_row : Whole PixRegionRow := ⟨rfl, rfl, rfl⟩

theorem Whole.writeWord_eq {r : RegDefault numRegs} (h : Whole r) (word value : UInt16) :
    r.writeWord word value = value := RegDefault.writeWord_of_whole h.offset h.bits word value

theorem Whole.readWord_eq {r : RegDefault numRegs} (h : Whole r) (word : UInt16) :
    r.readWord word = word := by
  apply UInt16.toBitVec_inj.mp
  apply BitVec.eq_of_getLsbD_eq
  intro i hi
  have hbits : r.field.bits = 16 := h.bits
  have hoffset : r.field.offset = 0 := h.offset
  rw [RegDefault.toBitVec_readWord, BitField.getLsbD_read, hbits, hoffset, decide_eq_true hi,
    Bool.true_and, Nat.zero_add]

theorem Whole.getElem_write {r : RegDefault numRegs} (h : Whole r) (cfg : Words numRegs)
    (value : UInt16) : (r.write cfg value)[r.m_addr] = value := by
  rw [RegDefault.getElem_write, if_pos h.word.symm, h.writeWord_eq]

/-! ## One write -/

variable {chip s : CommandExe} {fe : Itkpixv2}

theorem executed_writeRegister (h : Executed chip fe s) {r : RegDefault numRegs} {value : UInt16}
    {s' : CommandExe}
    (hstep : s.doWrReg (writeCmd ⟨fe.m_chipId, r.m_addr, (r.write fe.m_cfg value)[r.m_addr]⟩) =
      some s') : Executed chip (fe.writeRegister (.default r) value) s' := by
  have hsent : (fe.writeRegister (.default r) value).sent =
      fe.sent ++ [⟨fe.m_chipId, r.m_addr, (r.write fe.m_cfg value)[r.m_addr]⟩] := rfl
  rw [Executed, hsent, List.map_append, List.map_singleton, Invariant.foldlM_concat]
  exact ⟨s, h, hstep⟩

theorem data_writeCmd (data : UInt16) : (data.toUInt32 &&& 0xFFFF).toUInt16 = data := by
  apply UInt16.toBitVec_inj.mp
  apply BitVec.eq_of_getLsbD_eq
  intro i hi
  interval_cases i <;> simp

theorem address_global : ∀ a : Fin numRegs, a ≠ 0 → ¬ UInt32.ofNat a &&& 0x1FF = 0 := by
  decide +kernel

theorem write_global (h : Executed chip fe s) {r : RegDefault numRegs} (haddr : r.m_addr ≠ 0)
    (value : UInt16) :
    ∃ s', Executed chip (fe.writeRegister (.default r) value) s' ∧ s'.pixRegs = s.pixRegs ∧
      s'.m_cfg = s.m_cfg.set r.m_addr (r.write fe.m_cfg value)[r.m_addr] := by
  have hlt : (r.m_addr : Nat) < 4294967296 := by
    have haddr' : (r.m_addr : Nat) < 157 := r.m_addr.isLt
    omega
  have htoNat : (UInt32.ofNat r.m_addr).toNat = r.m_addr := UInt32.toNat_ofNat_of_lt' hlt
  have hin : (UInt32.ofNat r.m_addr).toNat < numRegs := by
    rw [htoNat]
    exact r.m_addr.isLt
  have hstep : s.doWrReg
      (writeCmd ⟨fe.m_chipId, r.m_addr, (r.write fe.m_cfg value)[r.m_addr]⟩) = some _ :=
    doWrReg_global s (address_global r.m_addr haddr) hin
  apply Exists.intro _
  apply And.intro (executed_writeRegister h hstep)
  apply And.intro rfl
  simp only [writeCmd, htoNat, data_writeCmd]

/-- Where the portal goes, and whether it goes on by itself. -/
structure At (s : CommandExe) (dc row : Nat) (auto : UInt16) : Prop where
  col : (PixRegionCol.read s.m_cfg).toNat = dc
  row : (PixRegionRow.read s.m_cfg).toNat = row
  auto : PixAutoRow.read s.m_cfg = auto

theorem read_set_self {q : RegDefault numRegs} (h : Whole q) (cfg : Words numRegs) (x : UInt16) :
    q.read (cfg.set q.m_addr x) = x := by
  rw [RegDefault.read, RegDefault.getElem_set, if_pos h.word, h.readWord_eq]

theorem toNat_ofNat_col (dc : Fin n_DC) : (UInt16.ofNat dc).toNat = dc := by
  have hdc : (dc : Nat) < 200 := dc.isLt
  apply UInt16.toNat_ofNat_of_lt'
  show (dc : Nat) < 65536
  omega

theorem toNat_ofNat_row (row : Fin n_Row) : (UInt16.ofNat row).toNat = row := by
  have hrow : (row : Nat) < 384 := row.isLt
  apply UInt16.toNat_ofNat_of_lt'
  show (row : Nat) < 65536
  omega

theorem write_col (h : Executed chip fe s) {dc row : Nat} {auto : UInt16} (hat : At s dc row auto)
    (dc' : Fin n_DC) :
    ∃ s', Executed chip (fe.writeRegister (.default PixRegionCol) (UInt16.ofNat dc')) s' ∧
      s'.pixRegs = s.pixRegs ∧ At s' dc' row auto := by
  obtain ⟨s', hs', hpix, hcfg⟩ :=
    write_global h (by decide : PixRegionCol.m_addr ≠ 0) (UInt16.ofNat dc')
  rw [whole_col.getElem_write] at hcfg
  refine ⟨s', hs', hpix, ?_, ?_, ?_⟩
  · rw [hcfg, read_set_self whole_col, toNat_ofNat_col]
  · rw [hcfg, RegDefault.read_set_of_ne _ (by decide), hat.row]
  · rw [hcfg, RegDefault.read_set_of_ne _ (by decide), hat.auto]

theorem write_row (h : Executed chip fe s) {dc row : Nat} {auto : UInt16} (hat : At s dc row auto)
    (row' : Fin n_Row) :
    ∃ s', Executed chip (fe.writeRegister (.default PixRegionRow) (UInt16.ofNat row')) s' ∧
      s'.pixRegs = s.pixRegs ∧ At s' dc row' auto := by
  obtain ⟨s', hs', hpix, hcfg⟩ :=
    write_global h (by decide : PixRegionRow.m_addr ≠ 0) (UInt16.ofNat row')
  rw [whole_row.getElem_write] at hcfg
  refine ⟨s', hs', hpix, ?_, ?_, ?_⟩
  · rw [hcfg, RegDefault.read_set_of_ne _ (by decide), hat.col]
  · rw [hcfg, read_set_self whole_row, toNat_ofNat_row]
  · rw [hcfg, RegDefault.read_set_of_ne _ (by decide), hat.auto]

theorem at_stepRow {dc : Fin n_DC} {row : Fin n_Row} {auto : UInt16} (hat : At s dc row auto) :
    At s.stepRow dc (if auto ≠ 0 then row + 1 else row) auto := by
  rw [stepRow, hat.auto]
  by_cases hauto : auto ≠ 0
  · have hrow : (row : Nat) < 384 := row.isLt
    have hwrite : PixRegionRow.write s.m_cfg (PixRegionRow.read s.m_cfg + 1) =
        s.m_cfg.set PixRegionRow.m_addr (PixRegionRow.read s.m_cfg + 1) := by
      rw [RegDefault.write, whole_row.writeWord_eq]
      rfl
    rw [if_pos hauto, if_pos hauto, hwrite]
    refine ⟨?_, ?_, ?_⟩
    · rw [RegDefault.read_set_of_ne _ (by decide), hat.col]
    · have hone : UInt16.toNat 1 = 1 := rfl
      rw [read_set_self whole_row, UInt16.toNat_add, hat.row, hone]
      omega
    · rw [RegDefault.read_set_of_ne _ (by decide), hat.auto]
  · rw [if_neg hauto, if_neg hauto]
    exact hat

theorem address_portal : UInt32.ofNat PixPortal.m_addr &&& 0x1FF = 0 := by
  decide

theorem address_single : UInt32.ofNat PixPortal.m_addr &&& 0x200 = 0 := by
  decide

/-- A word through the portal lands in the register that the portal goes to. -/
theorem write_portal (h : Executed chip fe s) {dc : Fin n_DC} {row : Fin n_Row} {auto : UInt16}
    (hat : At s dc row auto) (value : UInt16) :
    ∃ s', Executed chip (fe.writeRegister (.default PixPortal) value) s' ∧
      s'.pixRegs = setPixReg s.pixRegs dc row value ∧
        At s' dc (if auto ≠ 0 then row + 1 else row) auto := by
  have hpair : (PixRegionCol.read s.m_cfg).toNat < n_DC ∧
      (PixRegionRow.read s.m_cfg).toNat < n_Row := by
    rw [hat.col, hat.row]
    exact ⟨dc.isLt, row.isLt⟩
  have hcol : (⟨(PixRegionCol.read s.m_cfg).toNat, hpair.1⟩ : Fin n_DC) = dc := Fin.ext hat.col
  have hrow : (⟨(PixRegionRow.read s.m_cfg).toNat, hpair.2⟩ : Fin n_Row) = row := Fin.ext hat.row
  have hstep : s.doWrReg
      (writeCmd ⟨fe.m_chipId, PixPortal.m_addr, (PixPortal.write fe.m_cfg value)[PixPortal.m_addr]⟩) =
        some (s.writeSingle dc row value.toUInt32).stepRow := by
    rw [whole_portal.getElem_write, doWrReg]
    simp only [writeCmd, if_pos address_portal, dif_pos hpair, hcol, hrow, writePortal,
      if_pos address_single]
    rfl
  apply Exists.intro _
  apply And.intro (executed_writeRegister h hstep)
  constructor
  · have hstepRow : (s.writeSingle dc row value.toUInt32).stepRow.pixRegs =
        (s.writeSingle dc row value.toUInt32).pixRegs := by
      rw [stepRow]
      split_ifs <;> rfl
    rw [hstepRow, writeSingle_pixRegs, data_writeCmd]
  · exact at_stepRow ⟨hat.col, hat.row, hat.auto⟩

/-! ## All pixels -/

theorem write_setup (h : Executed chip fe s) {auto : UInt16} (hauto : auto.toNat < 2) :
    ∃ s' dc row,
      Executed chip ((fe.writeRegister (.default PixAutoRow) auto).writeRegister
        (.default PixBroadcast) 0) s' ∧ s'.pixRegs = s.pixRegs ∧ At s' dc row auto := by
  obtain ⟨t, ht, hpix, -⟩ := write_global h (by decide : PixAutoRow.m_addr ≠ 0) auto
  obtain ⟨s', hs', hpix', hcfg⟩ := write_global ht (by decide : PixBroadcast.m_addr ≠ 0) 0
  refine ⟨s', _, _, hs', hpix'.trans hpix, rfl, rfl, ?_⟩
  have happart : PixBroadcast.Apart PixAutoRow := by
    rintro k i ⟨-, hlow, -⟩ ⟨-, -, hhigh⟩
    have hlow' : 2 ≤ i := hlow
    have hhigh' : i < 0 + 1 := hhigh
    omega
  -- The word of both registers is the driver's.
  have hread : PixAutoRow.read s'.m_cfg =
      PixAutoRow.read (PixBroadcast.write (PixAutoRow.write fe.m_cfg auto) 0) := by
    rw [RegDefault.read, RegDefault.read, hcfg]
    rw [RegDefault.getElem_set, if_pos (by decide)]
    rfl
  rw [hread, RegDefault.read_write_of_apart happart]
  apply UInt16.toNat_inj.mp
  rw [RegDefault.read_write]
  exact Nat.mod_eq_of_lt hauto

/-- The registers of one double column are those of the driver up to a row. -/
theorem send_rows (pixRegs : PixelArray) (h : Executed chip fe s) {dc : Fin n_DC}
    (hat : At s dc 0 1) {k : Nat} (hk : k ≤ n_Row) :
    ∃ s', Executed chip (((List.finRange n_Row).take k).foldl
        (fun fe row => fe.writeRegister (.default PixPortal) (pixRegs dc row)) fe) s' ∧
      At s' dc k 1 ∧ ∀ dc' row, s'.pixRegs dc' row =
        if dc' = dc ∧ (row : Nat) < k then pixRegs dc' row else s.pixRegs dc' row := by
  induction k with
  | zero => exact ⟨s, h, hat, fun dc' row => (if_neg (fun hlt => Nat.not_lt_zero _ hlt.2)).symm⟩
  | succ k ih =>
      obtain ⟨t, ht, hatt, hpixt⟩ := ih (Nat.le_of_succ_le hk)
      have hlength : k < (List.finRange n_Row).length := by
        rw [List.length_finRange]
        exact hk
      have hatk : At t dc (⟨k, hk⟩ : Fin n_Row) 1 := hatt
      obtain ⟨s', hs', hpix, hat'⟩ := write_portal ht hatk (pixRegs dc ⟨k, hk⟩)
      rw [List.take_succ_eq_append_getElem hlength, List.foldl_append, List.foldl_cons,
        List.foldl_nil, List.getElem_finRange]
      apply Exists.intro s'
      apply And.intro hs'
      apply And.intro hat'
      intro dc' row
      rw [hpix, setPixReg, hpixt]
      by_cases hdc : dc' = dc
      · rcases Nat.lt_trichotomy row k with hlt | heq | hgt
        · have hne : row ≠ ⟨k, hk⟩ := fun heq => by
            rw [heq] at hlt
            exact Nat.lt_irrefl k hlt
          rw [if_neg (fun hpair => hne hpair.2), if_pos ⟨hdc, hlt⟩, if_pos ⟨hdc, by omega⟩]
        · have hrow : row = ⟨k, hk⟩ := Fin.ext heq
          rw [if_pos ⟨hdc, hrow⟩, if_pos ⟨hdc, by omega⟩, hdc, hrow]
        · have hne : row ≠ ⟨k, hk⟩ := fun heq => by
            rw [heq] at hgt
            exact Nat.lt_irrefl k hgt
          rw [if_neg (fun hpair => hne hpair.2), if_neg (fun hlt => by omega),
            if_neg (fun hlt => by omega)]
      · rw [if_neg (fun hpair => hdc hpair.1), if_neg (fun hpair => hdc hpair.1),
          if_neg (fun hpair => hdc hpair.1)]

theorem sendColumn_spec (pixRegs : PixelArray) (h : Executed chip fe s) {dc row : Nat}
    (hat : At s dc row 1) (dc' : Fin n_DC) :
    ∃ s' row', Executed chip (fe.sendColumn pixRegs dc') s' ∧ At s' dc' row' 1 ∧
      ∀ dc row, s'.pixRegs dc row = if dc = dc' then pixRegs dc row else s.pixRegs dc row := by
  obtain ⟨t, ht, hpixt, hatt⟩ := write_col h hat dc'
  obtain ⟨u, hu, hpixu, hatu⟩ := write_row ht hatt 0
  obtain ⟨s', hs', hat', hpix⟩ := send_rows pixRegs hu hatu (Nat.le_refl n_Row)
  rw [List.take_of_length_le (by rw [List.length_finRange])] at hs'
  apply Exists.intro s'
  apply Exists.intro n_Row
  apply And.intro hs'
  apply And.intro hat'
  intro dc row
  rw [hpix, hpixu, hpixt]
  simp only [row.isLt, and_true]

theorem sendColumns_spec (pixRegs : PixelArray) (h : Executed chip fe s) {dc row : Nat}
    (hat : At s dc row 1) (dcs : List (Fin n_DC)) :
    ∃ s', Executed chip (dcs.foldl (Itkpixv2.sendColumn pixRegs) fe) s' ∧
      ∀ dc row, s'.pixRegs dc row = if dc ∈ dcs then pixRegs dc row else s.pixRegs dc row := by
  induction dcs generalizing fe s dc row with
  | nil => exact ⟨s, h, fun dc row => (if_neg List.not_mem_nil).symm⟩
  | cons dc' dcs ih =>
      obtain ⟨t, row', ht, hatt, hpixt⟩ := sendColumn_spec pixRegs h hat dc'
      obtain ⟨s', hs', hpix⟩ := ih ht hatt
      rw [List.foldl_cons]
      apply Exists.intro s'
      apply And.intro hs'
      intro dc row
      rw [hpix, hpixt]
      by_cases hmem : dc ∈ dcs
      · rw [if_pos hmem, if_pos (List.mem_cons_of_mem dc' hmem)]
      · rw [if_neg hmem]
        by_cases hdc : dc = dc'
        · rw [if_pos hdc, hdc, if_pos List.mem_cons_self]
        · rw [if_neg hdc, if_neg (fun hcons => (List.mem_cons.mp hcons).elim hdc hmem)]

/-- After the download of all pixels the chip has those of the driver. -/
theorem configurePixels_spec (pixRegs : PixelArray) (h : Executed chip fe s) :
    ∃ s', Executed chip (fe.configurePixels pixRegs) s' ∧ s'.pixRegs = pixRegs := by
  obtain ⟨t, dc, row, ht, -, hat⟩ := write_setup h (by decide : UInt16.toNat 1 < 2)
  obtain ⟨s', hs', hpix⟩ := sendColumns_spec pixRegs ht hat (List.finRange n_DC)
  apply Exists.intro s'
  apply And.intro hs'
  funext dc row
  rw [hpix, if_pos (List.mem_finRange dc)]

/-! ## A list of pixels -/

/-- The pixels of a list that share the register. -/
def Listed (pixels : List (Fin n_Col × Fin n_Row)) (dc : Fin n_DC) (row : Fin n_Row) : Prop :=
  ∃ pixel ∈ pixels, doubleColumn pixel.1 = dc ∧ pixel.2 = row

instance (pixels : List (Fin n_Col × Fin n_Row)) (dc : Fin n_DC) (row : Fin n_Row) :
    Decidable (Listed pixels dc row) :=
  inferInstanceAs (Decidable (∃ pixel ∈ pixels, _))

theorem listed_cons {pixel : Fin n_Col × Fin n_Row} {pixels : List (Fin n_Col × Fin n_Row)}
    {dc : Fin n_DC} {row : Fin n_Row} :
    Listed (pixel :: pixels) dc row ↔
      (doubleColumn pixel.1 = dc ∧ pixel.2 = row) ∨ Listed pixels dc row := by
  rw [Listed, List.exists_mem_cons_iff, Listed]

/-- The column that was sent last is the one that the portal goes to. -/
def SentLast (s : CommandExe) (old_dc : Nat) : Prop :=
  ∃ dc row, At s dc row 0 ∧ (old_dc < n_DC → dc = old_dc)

theorem sendPixel_spec (pixRegs : PixelArray) (h : Executed chip fe s) {old_dc : Nat}
    (hlast : SentLast s old_dc) (pixel : Fin n_Col × Fin n_Row) :
    ∃ s', Executed chip (Itkpixv2.sendPixel pixRegs (fe, old_dc) pixel).1 s' ∧
      SentLast s' (Itkpixv2.sendPixel pixRegs (fe, old_dc) pixel).2 ∧
      s'.pixRegs = setPixReg s.pixRegs (doubleColumn pixel.1) pixel.2
        (pixRegs (doubleColumn pixel.1) pixel.2) := by
  obtain ⟨dc, row, hat, hold⟩ := hlast
  rw [Itkpixv2.sendPixel]
  by_cases hsame : old_dc = doubleColumn pixel.1
  · have hdc : dc = doubleColumn pixel.1 := by
      rw [hold (by rw [hsame]; exact (doubleColumn pixel.1).isLt), hsame]
    rw [hdc] at hat
    obtain ⟨t, ht, hpixt, hatt⟩ := write_row h hat pixel.2
    obtain ⟨s', hs', hpix, hat'⟩ :=
      write_portal ht hatt (pixRegs (doubleColumn pixel.1) pixel.2)
    simp only [if_neg (not_not_intro hsame)]
    apply Exists.intro s'
    apply And.intro hs'
    apply And.intro ⟨_, _, hat', fun _ => hsame.symm⟩
    rw [hpix, hpixt]
  · obtain ⟨u, hu, hpixu, hatu⟩ := write_col h hat (doubleColumn pixel.1)
    obtain ⟨t, ht, hpixt, hatt⟩ := write_row hu hatu pixel.2
    obtain ⟨s', hs', hpix, hat'⟩ :=
      write_portal ht hatt (pixRegs (doubleColumn pixel.1) pixel.2)
    simp only [if_pos hsame]
    apply Exists.intro s'
    apply And.intro hs'
    apply And.intro ⟨_, _, hat', fun _ => rfl⟩
    rw [hpix, hpixt, hpixu]

theorem sendPixels_spec (pixRegs : PixelArray) (h : Executed chip fe s) {old_dc : Nat}
    (hlast : SentLast s old_dc) (pixels : List (Fin n_Col × Fin n_Row)) :
    ∃ s', Executed chip (pixels.foldl (Itkpixv2.sendPixel pixRegs) (fe, old_dc)).1 s' ∧
      ∀ dc row, s'.pixRegs dc row =
        if Listed pixels dc row then pixRegs dc row else s.pixRegs dc row := by
  induction pixels generalizing fe s old_dc with
  | nil => exact ⟨s, h, fun dc row => (if_neg (fun hl => List.not_mem_nil hl.choose_spec.1)).symm⟩
  | cons pixel pixels ih =>
      obtain ⟨t, ht, hlastt, hpixt⟩ := sendPixel_spec pixRegs h hlast pixel
      obtain ⟨s', hs', hpix⟩ := ih ht hlastt
      apply Exists.intro s'
      apply And.intro hs'
      intro dc row
      rw [hpix, hpixt, setPixReg]
      simp only [listed_cons]
      by_cases hlisted : Listed pixels dc row
      · rw [if_pos hlisted, if_pos (Or.inr hlisted)]
      · rw [if_neg hlisted]
        by_cases hpair : dc = doubleColumn pixel.1 ∧ row = pixel.2
        · rw [if_pos hpair, if_pos (Or.inl ⟨hpair.1.symm, hpair.2.symm⟩), hpair.1, hpair.2]
        · rw [if_neg hpair, if_neg]
          rintro (hpixel | hl)
          · exact hpair ⟨hpixel.1.symm, hpixel.2.symm⟩
          · exact hlisted hl

theorem configurePixelList_spec (pixRegs : PixelArray) (h : Executed chip fe s)
    (pixels : List (Fin n_Col × Fin n_Row)) :
    ∃ s', Executed chip (fe.configurePixelList pixRegs pixels) s' ∧
      ∀ dc row, s'.pixRegs dc row =
        if Listed pixels dc row then pixRegs dc row else s.pixRegs dc row := by
  obtain ⟨t, dc, row, ht, hpixt, hat⟩ := write_setup h (by decide : UInt16.toNat 0 < 2)
  have hlast : SentLast t 99999 := ⟨dc, row, hat, fun hlt => absurd hlt (by decide)⟩
  obtain ⟨s', hs', hpix⟩ := sendPixels_spec pixRegs ht hlast pixels
  apply Exists.intro s'
  apply And.intro hs'
  rw [← hpixt]
  exact hpix

/--
After the download of all pixels the chip has the registers of the driver, and
after that of a list it has the listed ones and its own others.
-/
theorem download_lands (m_chipId : UInt8) (m_cfg : Words numRegs) (pixRegs : PixelArray)
    (chip : CommandExe) :
    (∃ s', ((Itkpixv2.configurePixels pixRegs ⟨m_chipId, m_cfg, []⟩).sent.map writeCmd).foldlM
      doWrReg chip = some s' ∧ s'.pixRegs = pixRegs) ∧
    ∀ pixels, ∃ s',
      ((Itkpixv2.configurePixelList pixRegs ⟨m_chipId, m_cfg, []⟩ pixels).sent.map writeCmd).foldlM
        doWrReg chip = some s' ∧
      ∀ dc row, s'.pixRegs dc row =
        if Listed pixels dc row then pixRegs dc row else chip.pixRegs dc row := by
  have hnothing : Executed chip ⟨m_chipId, m_cfg, []⟩ chip := rfl
  exact ⟨configurePixels_spec pixRegs hnothing, configurePixelList_spec pixRegs hnothing⟩

end Yarr.Itkpixv2Emu
