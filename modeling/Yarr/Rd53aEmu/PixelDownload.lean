import Mathlib.Data.List.FinRange
import Yarr.Core.Invariant
import Yarr.Rd53.GlobalCfg
import Yarr.Rd53aEmu.WritePool

/-!
# The RD53A chip after a download of pixels

The driver counts on the chip to count the rows, and does not write
`PixBroadcastEn`. The emulator stays in the row that was set, and does nothing
with a word for the portal while `PixBroadcastEn` is on.
-/

namespace Yarr.Rd53aEmu

open Rd53 Rd53aGlobalCfg Rd53aPixelCfg

/-- The emulator has executed what the driver has sent. -/
def Executed (chip : FeCfg) (fe : Rd53a) (s : FeCfg) : Prop :=
  fe.sent.foldlM (fun s w => writeRegAsync s w.value w.address) chip = some s

/-! ## One write -/

variable {chip s : FeCfg} {fe : Rd53a}

theorem executed_writeRegister (h : Executed chip fe s) {r : RegDefault numRegs} {value : UInt16}
    {s' : FeCfg}
    (hstep : writeRegAsync s (r.write fe.m_cfg value)[r.m_addr] (UInt32.ofNat r.m_addr) = some s') :
    Executed chip (fe.writeRegister r value) s' :=
  Invariant.foldlM_concat.mpr ⟨s, h, hstep⟩

theorem toNat_address (a : Fin numRegs) : (UInt32.ofNat a).toNat = a := by
  have ha : (a : Nat) < 138 := a.isLt
  apply UInt32.toNat_ofNat_of_lt'
  show (a : Nat) < 4294967296
  omega

/-- A write of a global register copies the word of the driver. -/
theorem write_global (h : Executed chip fe s) {r : RegDefault numRegs} (haddr : r.m_addr ≠ 0)
    (value : UInt16) :
    Executed chip (fe.writeRegister r value)
      { s with m_cfg := s.m_cfg.set r.m_addr (r.write fe.m_cfg value)[r.m_addr] } := by
  apply executed_writeRegister h
  have hne : UInt32.ofNat r.m_addr ≠ 0 := by
    intro heq
    have hzero := congrArg UInt32.toNat heq
    rw [toNat_address] at hzero
    exact haddr (Fin.ext hzero)
  have hlt : (UInt32.ofNat r.m_addr).toNat < numRegs := by
    rw [toNat_address]
    exact r.m_addr.isLt
  rw [writeRegAsync, if_neg hne, dif_pos hlt]
  simp only [toNat_address]

/-- Where the portal goes. -/
structure At (s : FeCfg) (dc row : Nat) (broadcast : UInt16) : Prop where
  col : (PixRegionCol.read s.m_cfg).toNat = dc
  row : (PixRegionRow.read s.m_cfg).toNat = row
  broadcast : PixBroadcastEn.read s.m_cfg = broadcast

variable {dc row : Nat} {broadcast : UInt16}

theorem write_col (h : Executed chip fe s) (hat : At s dc row broadcast) (dc' : Fin n_DC) :
    ∃ s', Executed chip (fe.writeRegister PixRegionCol (UInt16.ofNat dc')) s' ∧
      s'.pixRegs = s.pixRegs ∧ At s' dc' row broadcast := by
  have hwrite := write_global h (by decide : PixRegionCol.m_addr ≠ 0) (UInt16.ofNat dc')
  refine ⟨_, hwrite, rfl, ?_, ?_, ?_⟩
  · have hdc : (dc' : Nat) < 200 := dc'.isLt
    have hread := PixRegionCol.read_write fe.m_cfg (UInt16.ofNat dc')
    have hval : (UInt16.ofNat dc').toNat = dc' := UInt16.toNat_ofNat_of_lt' (by
      show (dc' : Nat) < 65536
      omega)
    rw [hval, Nat.mod_eq_of_lt (by show (dc' : Nat) < 256; omega)] at hread
    exact (congrArg UInt16.toNat (PixRegionCol.read_set_copy s.m_cfg _)).trans hread
  · rw [RegDefault.read_set_of_ne _ (by decide), hat.row]
  · rw [RegDefault.read_set_of_ne _ (by decide), hat.broadcast]

theorem write_row (h : Executed chip fe s) (hat : At s dc row broadcast) (row' : Fin n_Row) :
    ∃ s', Executed chip (fe.writeRegister PixRegionRow (UInt16.ofNat row')) s' ∧
      s'.pixRegs = s.pixRegs ∧ At s' dc row' broadcast := by
  have hwrite := write_global h (by decide : PixRegionRow.m_addr ≠ 0) (UInt16.ofNat row')
  refine ⟨_, hwrite, rfl, ?_, ?_, ?_⟩
  · rw [RegDefault.read_set_of_ne _ (by decide), hat.col]
  · have hrow : (row' : Nat) < 192 := row'.isLt
    have hread := PixRegionRow.read_write fe.m_cfg (UInt16.ofNat row')
    have hval : (UInt16.ofNat row').toNat = row' := UInt16.toNat_ofNat_of_lt' (by
      show (row' : Nat) < 65536
      omega)
    rw [hval, Nat.mod_eq_of_lt (by show (row' : Nat) < 512; omega)] at hread
    exact (congrArg UInt16.toNat (PixRegionRow.read_set_copy s.m_cfg _)).trans hread
  · rw [RegDefault.read_set_of_ne _ (by decide), hat.broadcast]

/-- A word for the portal: into the selected pair, or nowhere. -/
theorem write_portal (h : Executed chip fe s) {dc : Fin n_DC} {row : Fin n_Row}
    (hat : At s dc row broadcast) (value : UInt16) :
    ∃ s', Executed chip (fe.writeRegister PixPortal value) s' ∧ At s' dc row broadcast ∧
      s'.pixRegs = if broadcast = 1 then s.pixRegs
        else Function.update s.pixRegs (pairIndex dc row) value := by
  have hword : (PixPortal.write fe.m_cfg value)[PixPortal.m_addr] = value := by
    rw [RegDefault.getElem_write, if_pos (by rfl), RegDefault.writeWord_of_whole rfl rfl]
  by_cases hbroadcast : broadcast = 1
  · have hstep : writeRegAsync s (PixPortal.write fe.m_cfg value)[PixPortal.m_addr]
        (UInt32.ofNat PixPortal.m_addr) = some s := by
      rw [writeRegAsync, if_pos (by rfl), if_pos (hat.broadcast.trans hbroadcast)]
    rw [if_pos hbroadcast]
    exact ⟨s, executed_writeRegister h hstep, hat, rfl⟩
  · have hindex : (PixRegionCol.read s.m_cfg).toNat * n_coreRows * n_corePixelRows +
        (PixRegionRow.read s.m_cfg).toNat = pairIndex dc row := by
      rw [hat.col, hat.row]
      show (dc : Nat) * 24 * 8 + row = dc * 192 + row
      omega
    have hlt : (PixRegionCol.read s.m_cfg).toNat * n_coreRows * n_corePixelRows +
        (PixRegionRow.read s.m_cfg).toNat < n_DC * n_Row := by
      rw [hindex]
      exact (pairIndex dc row).isLt
    have hoff : ¬ PixBroadcastEn.read s.m_cfg = 1 := by
      rw [hat.broadcast]
      exact hbroadcast
    have hstep : writeRegAsync s (PixPortal.write fe.m_cfg value)[PixPortal.m_addr]
        (UInt32.ofNat PixPortal.m_addr) =
          some { s with pixRegs := Function.update s.pixRegs (pairIndex dc row) value } := by
      rw [hword, writeRegAsync, if_pos (by rfl), if_neg hoff, dif_pos hlt]
      simp only [hindex, Fin.eta]
    rw [if_neg hbroadcast]
    exact ⟨_, executed_writeRegister h hstep, ⟨hat.col, hat.row, hat.broadcast⟩, rfl⟩

/-- `PixBroadcastEn` is in the word of the two registers that are set first, and goes along. -/
theorem write_setup (h : Executed chip fe s) (auto : UInt16) :
    ∃ s' dc row, Executed chip ((fe.writeRegister PixAutoCol 0).writeRegister PixAutoRow auto) s' ∧
      s'.pixRegs = s.pixRegs ∧ At s' dc row (PixBroadcastEn.read fe.m_cfg) := by
  have hfirst := write_global h (by decide : PixAutoCol.m_addr ≠ 0) 0
  have hsecond := write_global hfirst (by decide : PixAutoRow.m_addr ≠ 0) auto
  have hcol : PixAutoCol.Apart PixBroadcastEn := by
    rintro k i ⟨-, -, hhigh⟩ ⟨-, hlow, -⟩
    have hlow' : 5 ≤ i := hlow
    have hhigh' : i < 4 + 1 := hhigh
    omega
  have hrow : PixAutoRow.Apart PixBroadcastEn := by
    rintro k i ⟨-, -, hhigh⟩ ⟨-, hlow, -⟩
    have hlow' : 5 ≤ i := hlow
    have hhigh' : i < 3 + 1 := hhigh
    omega
  refine ⟨_, _, _, hsecond, rfl, rfl, rfl, ?_⟩
  calc PixBroadcastEn.read _
      = PixBroadcastEn.read (PixAutoRow.write (PixAutoCol.write fe.m_cfg 0) auto) :=
        PixBroadcastEn.read_set_copy _ _
    _ = PixBroadcastEn.read (PixAutoCol.write fe.m_cfg 0) := RegDefault.read_write_of_apart hrow _ _
    _ = PixBroadcastEn.read fe.m_cfg := RegDefault.read_write_of_apart hcol _ _

/-! ## All pixels -/

theorem exists_pair (i : Fin (n_DC * n_Row)) : ∃ dc row, i = pairIndex dc row := by
  have hi : (i : Nat) < 200 * 192 := i.isLt
  have hdc : (i : Nat) / 192 < n_DC := by
    show (i : Nat) / 192 < 200
    omega
  have hrow : (i : Nat) % 192 < n_Row := Nat.mod_lt _ (by decide)
  refine ⟨⟨_, hdc⟩, ⟨_, hrow⟩, Fin.ext ?_⟩
  show (i : Nat) = (i : Nat) / 192 * 192 + (i : Nat) % 192
  omega

theorem pairIndex_inj {dc dc' : Fin n_DC} {row row' : Fin n_Row} :
    pairIndex dc row = pairIndex dc' row' ↔ dc = dc' ∧ row = row' := by
  constructor
  · intro h
    have hval : (dc : Nat) * 192 + row = dc' * 192 + row' := congrArg Fin.val h
    have hrow : (row : Nat) < 192 := row.isLt
    have hrow' : (row' : Nat) < 192 := row'.isLt
    exact ⟨Fin.ext (by omega), Fin.ext (by omega)⟩
  · rintro ⟨rfl, rfl⟩
    rfl

/-- What a row of words leaves in the one pair that they all go to. -/
theorem send_rows (pixRegs : PixRegs) (h : Executed chip fe s) {dc : Fin n_DC} {row : Fin n_Row}
    (hat : At s dc row broadcast) (rows : List (Fin n_Row)) :
    ∃ s', Executed chip (rows.foldl
        (fun fe row => fe.writeRegister PixPortal (pixRegs (pairIndex dc row))) fe) s' ∧
      At s' dc row broadcast ∧
      s'.pixRegs = if broadcast = 1 then s.pixRegs else
        (rows.getLast?.map fun last =>
          Function.update s.pixRegs (pairIndex dc row) (pixRegs (pairIndex dc last))).getD
            s.pixRegs := by
  induction rows using List.reverseRecOn with
  | nil =>
      rw [List.getLast?_nil, Option.map_none, Option.getD_none, ite_self]
      exact ⟨s, h, hat, rfl⟩
  | append_singleton rows last ih =>
      obtain ⟨t, ht, hatt, hpixt⟩ := ih
      obtain ⟨s', hs', hat', hpix⟩ := write_portal ht hatt (pixRegs (pairIndex dc last))
      rw [List.foldl_append, List.foldl_cons, List.foldl_nil]
      refine ⟨s', hs', hat', ?_⟩
      rw [List.getLast?_concat, Option.map_some, Option.getD_some]
      by_cases hbroadcast : broadcast = 1
      · rw [hpix, hpixt, if_pos hbroadcast, if_pos hbroadcast, if_pos hbroadcast]
      · rw [hpix, hpixt, if_neg hbroadcast, if_neg hbroadcast, if_neg hbroadcast]
        cases hlast : rows.getLast? with
        | none => rfl
        | some other => exact Function.update_idem _ _ _

def lastRow : Fin n_Row := ⟨191, by decide⟩

/-- A double column ends up with the word of its last row in its first row. -/
def sentColumn (pixRegs old : PixRegs) (dc : Fin n_DC) : PixRegs :=
  Function.update old (pairIndex dc 0) (pixRegs (pairIndex dc lastRow))

theorem getLast?_rows : (List.finRange n_Row).getLast? = some lastRow := by
  rw [List.getLast?_eq_getElem?, List.length_finRange]
  rfl

theorem sendColumn_spec (pixRegs : PixRegs) (h : Executed chip fe s) (hat : At s dc row broadcast)
    (dc' : Fin n_DC) :
    ∃ s' row', Executed chip (fe.sendColumn pixRegs dc') s' ∧ At s' dc' row' broadcast ∧
      s'.pixRegs = if broadcast = 1 then s.pixRegs else sentColumn pixRegs s.pixRegs dc' := by
  obtain ⟨t, ht, hpixt, hatt⟩ := write_col h hat dc'
  obtain ⟨u, hu, hpixu, hatu⟩ := write_row ht hatt 0
  obtain ⟨s', hs', hat', hpix⟩ := send_rows pixRegs hu hatu (List.finRange n_Row)
  refine ⟨s', _, hs', hat', ?_⟩
  rw [hpix, getLast?_rows, hpixu, hpixt]
  rfl

theorem sendColumns_spec (pixRegs : PixRegs) (h : Executed chip fe s) (hat : At s dc row broadcast)
    (dcs : List (Fin n_DC)) :
    ∃ s', Executed chip (dcs.foldl (Rd53a.sendColumn pixRegs) fe) s' ∧
      s'.pixRegs = if broadcast = 1 then s.pixRegs
        else dcs.foldl (sentColumn pixRegs) s.pixRegs := by
  induction dcs generalizing fe s dc row with
  | nil => exact ⟨s, h, (ite_self _).symm⟩
  | cons dc' dcs ih =>
      obtain ⟨t, row', ht, hatt, hpixt⟩ := sendColumn_spec pixRegs h hat dc'
      obtain ⟨s', hs', hpix⟩ := ih ht hatt
      rw [List.foldl_cons]
      refine ⟨s', hs', ?_⟩
      by_cases hbroadcast : broadcast = 1
      · rw [hpix, hpixt, if_pos hbroadcast, if_pos hbroadcast, if_pos hbroadcast]
      · rw [hpix, hpixt, if_neg hbroadcast, if_neg hbroadcast, if_neg hbroadcast]
        rfl

theorem sentColumns_apply (pixRegs old : PixRegs) (dcs : List (Fin n_DC)) (dc : Fin n_DC)
    (row : Fin n_Row) :
    dcs.foldl (sentColumn pixRegs) old (pairIndex dc row) =
      if row = 0 ∧ dc ∈ dcs then pixRegs (pairIndex dc lastRow) else old (pairIndex dc row) := by
  induction dcs generalizing old with
  | nil => exact (if_neg (fun h => List.not_mem_nil h.2)).symm
  | cons dc' dcs ih =>
      rw [List.foldl_cons, ih, sentColumn, Function.update_apply]
      simp only [pairIndex_inj, List.mem_cons]
      by_cases hrow : row = 0
      · by_cases hmem : dc ∈ dcs
        · rw [if_pos ⟨hrow, hmem⟩, if_pos ⟨hrow, Or.inr hmem⟩]
        · rw [if_neg (fun h => hmem h.2)]
          by_cases hdc : dc = dc'
          · rw [if_pos ⟨hdc, hrow⟩, if_pos ⟨hrow, Or.inl hdc⟩, hdc]
          · rw [if_neg (fun h => hdc h.1), if_neg (fun h => h.2.elim hdc hmem)]
      · rw [if_neg (fun h => hrow h.1), if_neg (fun h => hrow h.2), if_neg (fun h => hrow h.1)]

theorem configurePixels_spec (pixRegs : PixRegs) (h : Executed chip fe s) :
    ∃ s', Executed chip (fe.configurePixels pixRegs) s' ∧ ∀ dc row, s'.pixRegs (pairIndex dc row) =
      if PixBroadcastEn.read fe.m_cfg ≠ 1 ∧ row = 0 then pixRegs (pairIndex dc lastRow)
      else s.pixRegs (pairIndex dc row) := by
  obtain ⟨t, dc, row, ht, hpixt, hat⟩ := write_setup h 1
  obtain ⟨s', hs', hpix⟩ := sendColumns_spec pixRegs ht hat (List.finRange n_DC)
  refine ⟨s', hs', ?_⟩
  intro dc row
  rw [hpix]
  by_cases hbroadcast : PixBroadcastEn.read fe.m_cfg = 1
  · rw [if_pos hbroadcast, if_neg (fun hne => hne.1 hbroadcast), hpixt]
  · rw [if_neg hbroadcast, sentColumns_apply, hpixt]
    simp only [List.mem_finRange, and_true, ne_eq, hbroadcast, not_false_eq_true, true_and]

/-! ## A list of pixels -/

/-- The registers of the pixels of a list. -/
def Listed (pixels : List (Fin n_Col × Fin n_Row)) (i : Fin (n_DC * n_Row)) : Prop :=
  ∃ pixel ∈ pixels, toIndex pixel.1 pixel.2 = i

instance (pixels : List (Fin n_Col × Fin n_Row)) (i : Fin (n_DC * n_Row)) :
    Decidable (Listed pixels i) :=
  inferInstanceAs (Decidable (∃ pixel ∈ pixels, _))

theorem listed_cons {pixel : Fin n_Col × Fin n_Row} {pixels : List (Fin n_Col × Fin n_Row)}
    {i : Fin (n_DC * n_Row)} :
    Listed (pixel :: pixels) i ↔ toIndex pixel.1 pixel.2 = i ∨ Listed pixels i := by
  rw [Listed, List.exists_mem_cons_iff, Listed]

/-- The double column that was sent last is the one that the portal goes to. -/
def SentLast (s : FeCfg) (broadcast : UInt16) (old_col : Int) : Prop :=
  ∃ dc row, At s dc row broadcast ∧ (0 ≤ old_col → (dc : Int) = old_col)

theorem sendPixel_spec (pixRegs : PixRegs) (h : Executed chip fe s) {old_col : Int}
    (hlast : SentLast s broadcast old_col) (pixel : Fin n_Col × Fin n_Row) :
    ∃ s', Executed chip (Rd53a.sendPixel pixRegs (fe, old_col) pixel).1 s' ∧
      SentLast s' broadcast (Rd53a.sendPixel pixRegs (fe, old_col) pixel).2 ∧
      s'.pixRegs = if broadcast = 1 then s.pixRegs else
        Function.update s.pixRegs (toIndex pixel.1 pixel.2)
          (pixRegs (toIndex pixel.1 pixel.2)) := by
  obtain ⟨dc, row, hat, hold⟩ := hlast
  rw [Rd53a.sendPixel]
  by_cases hsame : old_col = (doubleColumn pixel.1 : Nat)
  · have hdc : dc = doubleColumn pixel.1 := by
      have hdc' := hold (by omega)
      omega
    rw [hdc] at hat
    obtain ⟨t, ht, hpixt, hatt⟩ := write_row h hat pixel.2
    obtain ⟨s', hs', hat', hpix⟩ := write_portal ht hatt (pixRegs (toIndex pixel.1 pixel.2))
    simp only [if_neg (not_not_intro hsame)]
    refine ⟨s', hs', ⟨_, _, hat', fun _ => hsame.symm⟩, ?_⟩
    rw [hpix, hpixt]
    rfl
  · obtain ⟨u, hu, hpixu, hatu⟩ := write_col h hat (doubleColumn pixel.1)
    obtain ⟨t, ht, hpixt, hatt⟩ := write_row hu hatu pixel.2
    obtain ⟨s', hs', hat', hpix⟩ := write_portal ht hatt (pixRegs (toIndex pixel.1 pixel.2))
    simp only [if_pos hsame]
    refine ⟨s', hs', ⟨_, _, hat', fun _ => rfl⟩, ?_⟩
    rw [hpix, hpixt, hpixu]
    rfl

theorem sendPixels_spec (pixRegs : PixRegs) (h : Executed chip fe s) {old_col : Int}
    (hlast : SentLast s broadcast old_col) (pixels : List (Fin n_Col × Fin n_Row)) :
    ∃ s', Executed chip (pixels.foldl (Rd53a.sendPixel pixRegs) (fe, old_col)).1 s' ∧
      ∀ i, s'.pixRegs i =
        if broadcast ≠ 1 ∧ Listed pixels i then pixRegs i else s.pixRegs i := by
  induction pixels generalizing fe s old_col with
  | nil =>
      exact ⟨s, h, fun i => (if_neg (fun hl => List.not_mem_nil hl.2.choose_spec.1)).symm⟩
  | cons pixel pixels ih =>
      obtain ⟨t, ht, hlastt, hpixt⟩ := sendPixel_spec pixRegs h hlast pixel
      obtain ⟨s', hs', hpix⟩ := ih ht hlastt
      rw [List.foldl_cons]
      refine ⟨s', hs', ?_⟩
      intro i
      rw [hpix, hpixt]
      simp only [listed_cons]
      by_cases hbroadcast : broadcast = 1
      · have hnot : ∀ Q, ¬ (broadcast ≠ 1 ∧ Q) := fun Q hne => hne.1 hbroadcast
        rw [if_neg (hnot _), if_neg (hnot _), if_pos hbroadcast]
      · rw [if_neg hbroadcast, Function.update_apply]
        by_cases hlisted : Listed pixels i
        · rw [if_pos ⟨hbroadcast, hlisted⟩, if_pos ⟨hbroadcast, Or.inr hlisted⟩]
        · rw [if_neg (fun hl => hlisted hl.2)]
          by_cases hpixel : i = toIndex pixel.1 pixel.2
          · rw [if_pos hpixel, if_pos ⟨hbroadcast, Or.inl hpixel.symm⟩, hpixel]
          · rw [if_neg hpixel, if_neg]
            rintro ⟨-, hp | hl⟩
            · exact hpixel hp.symm
            · exact hlisted hl

theorem configurePixelList_spec (pixRegs : PixRegs) (h : Executed chip fe s)
    (pixels : List (Fin n_Col × Fin n_Row)) :
    ∃ s', Executed chip (fe.configurePixelList pixRegs pixels) s' ∧ ∀ i, s'.pixRegs i =
      if PixBroadcastEn.read fe.m_cfg ≠ 1 ∧ Listed pixels i then pixRegs i else s.pixRegs i := by
  obtain ⟨t, dc, row, ht, hpixt, hat⟩ := write_setup h 0
  have hlast : SentLast t (PixBroadcastEn.read fe.m_cfg) (-1) :=
    ⟨dc, row, hat, fun hle => absurd hle (by decide)⟩
  obtain ⟨s', hs', hpix⟩ := sendPixels_spec pixRegs ht hlast pixels
  rw [← hpixt]
  exact ⟨s', hs', hpix⟩

/-! ## When the download lands -/

section Lands

variable (m_cfg : Words numRegs) (pixRegs : PixRegs) (chip : FeCfg)

/-- The driver has all the registers in the chip, without `PixBroadcastEn` but for the first
rows, where it has the words of the last rows. -/
def AllThere : Prop :=
  if PixBroadcastEn.read m_cfg = 1 then ∀ i, chip.pixRegs i = pixRegs i
  else ∀ dc row, if row = 0 then pixRegs (pairIndex dc 0) = pixRegs (pairIndex dc lastRow)
    else chip.pixRegs (pairIndex dc row) = pixRegs (pairIndex dc row)

/-- With `PixBroadcastEn` on in the driver the listed registers are in the chip already. -/
def ListThere (pixels : List (Fin n_Col × Fin n_Row)) : Prop :=
  PixBroadcastEn.read m_cfg = 1 → ∀ i, Listed pixels i → chip.pixRegs i = pixRegs i

end Lands

theorem executed_inj {s' : FeCfg} (h : Executed chip fe s) (h' : Executed chip fe s') : s = s' :=
  Option.some.inj (h.symm.trans h')

theorem configurePixels_iff (pixRegs : PixRegs) (h : Executed chip fe s) :
    (∃ s', Executed chip (fe.configurePixels pixRegs) s' ∧ s'.pixRegs = pixRegs) ↔
      AllThere fe.m_cfg pixRegs s := by
  obtain ⟨t, ht, hpix⟩ := configurePixels_spec pixRegs h
  have hall : (∃ s', Executed chip (fe.configurePixels pixRegs) s' ∧ s'.pixRegs = pixRegs) ↔
      ∀ dc row, t.pixRegs (pairIndex dc row) = pixRegs (pairIndex dc row) := by
    constructor
    · rintro ⟨s', hs', heq⟩ dc row
      rw [executed_inj ht hs', heq]
    · intro heq
      refine ⟨t, ht, funext ?_⟩
      intro i
      obtain ⟨dc, row, rfl⟩ := exists_pair i
      exact heq dc row
  rw [hall, AllThere]
  simp only [hpix]
  by_cases hbroadcast : PixBroadcastEn.read fe.m_cfg = 1
  · simp only [hbroadcast, ne_eq, not_true_eq_false, false_and, if_false, if_true]
    constructor
    · intro heq i
      obtain ⟨dc, row, rfl⟩ := exists_pair i
      exact heq dc row
    · exact fun heq dc row => heq _
  · simp only [hbroadcast, ne_eq, not_false_eq_true, true_and, if_false]
    apply forall_congr'
    intro dc
    apply forall_congr'
    intro row
    by_cases hrow : row = 0
    · simp only [hrow, if_true]
      exact eq_comm
    · simp only [hrow, if_false]

theorem configurePixelList_iff (pixRegs : PixRegs) (h : Executed chip fe s)
    (pixels : List (Fin n_Col × Fin n_Row)) :
    (∃ s', Executed chip (fe.configurePixelList pixRegs pixels) s' ∧
      ∀ i, s'.pixRegs i = if Listed pixels i then pixRegs i else s.pixRegs i) ↔
        ListThere fe.m_cfg pixRegs s pixels := by
  obtain ⟨t, ht, hpix⟩ := configurePixelList_spec pixRegs h pixels
  constructor
  · rintro ⟨s', hs', heq⟩ hbroadcast i hlisted
    have hi := heq i
    rw [← executed_inj ht hs', hpix, if_neg (fun hne => hne.1 hbroadcast), if_pos hlisted] at hi
    exact hi
  · intro hthere
    refine ⟨t, ht, ?_⟩
    intro i
    rw [hpix]
    by_cases hlisted : Listed pixels i
    · rw [if_pos hlisted]
      by_cases hbroadcast : PixBroadcastEn.read fe.m_cfg = 1
      · rw [if_neg (fun hne => hne.1 hbroadcast)]
        exact hthere hbroadcast i hlisted
      · rw [if_pos ⟨hbroadcast, hlisted⟩]
    · rw [if_neg (fun hl => hlisted hl.2), if_neg hlisted]

/-- The registers that the emulator has after the writes of a driver. -/
def pixRegsAfter (chip : FeCfg) (fe : Rd53a) : Option PixRegs :=
  (fe.sent.foldlM (fun s w => writeRegAsync s w.value w.address) chip).map FeCfg.pixRegs

theorem pixRegsAfter_eq_some {pixRegs : PixRegs} :
    pixRegsAfter chip fe = some pixRegs ↔ ∃ s', Executed chip fe s' ∧ s'.pixRegs = pixRegs :=
  Option.map_eq_some_iff

/--
A download of all pixels lands if they were there before, and that of a list
lands unless `PixBroadcastEn` is on and they were not there before.
-/
theorem download_lands_iff (m_chipId : UInt32) (m_cfg : Words numRegs) (pixRegs : PixRegs)
    (chip : FeCfg) :
    (pixRegsAfter chip (Rd53a.configurePixels pixRegs ⟨m_chipId, m_cfg, []⟩) = some pixRegs ↔
      AllThere m_cfg pixRegs chip) ∧
    ∀ pixels,
      pixRegsAfter chip (Rd53a.configurePixelList pixRegs ⟨m_chipId, m_cfg, []⟩ pixels) =
          some (fun i => if Listed pixels i then pixRegs i else chip.pixRegs i) ↔
        ListThere m_cfg pixRegs chip pixels := by
  have hnothing : Executed chip ⟨m_chipId, m_cfg, []⟩ chip := rfl
  constructor
  · rw [pixRegsAfter_eq_some]
    exact configurePixels_iff pixRegs hnothing
  · intro pixels
    rw [pixRegsAfter_eq_some]
    simp only [funext_iff]
    exact configurePixelList_iff pixRegs hnothing pixels

/-- An emulator without enabled pixels and a driver with all pixels enabled. -/
theorem rows_not_counted :
    ¬ ∀ (m_cfg : Words numRegs) (pixRegs : PixRegs) (chip : FeCfg),
      pixRegsAfter chip (Rd53a.configurePixels pixRegs ⟨0, m_cfg, []⟩) = some pixRegs := by
  intro h
  let chip : FeCfg := ⟨Vector.replicate numRegs 0, fun _ => 0⟩
  have hthere := (@configurePixels_iff chip chip ⟨0, Vector.replicate numRegs 0, []⟩
    (fun _ => 0x0101) rfl).mp (pixRegsAfter_eq_some.mp (h _ _ _))
  have hoff : ¬ PixBroadcastEn.read (Vector.replicate numRegs 0) = 1 := by decide
  rw [AllThere, if_neg hoff] at hthere
  have hpair := hthere 0 1
  rw [if_neg (by decide)] at hpair
  exact absurd hpair (by decide)

end Yarr.Rd53aEmu
