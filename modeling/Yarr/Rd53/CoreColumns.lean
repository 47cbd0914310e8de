import Mathlib.Data.Finset.Card
import Mathlib.Data.Fintype.Prod
import Yarr.Rd53.PixelCfg
import Yarr.Rd53.RegisterMap

/-!
# Core columns without a good pixel

`ITKPIXV2` and `RD53B` count the pixels of each core column that are switched
off. The count is taken when the first pixel is masked, or set by `enableAll`,
and from then on only `maskPixel` follows the pixels.
-/

namespace Yarr.Rd53

open Itkpixv2PixelCfg

abbrev n_CoreCol : Nat := 50

/-- The configuration of a chip: its global and pixel registers, and the count. -/
structure ChipCfg (numRegs : Nat) where
  m_cfg : Words numRegs
  pixRegs : PixelArray
  m_nBadPixel : Fin n_CoreCol → UInt32
  m_nBadPixelInitialized : Bool

def coreCol (col : Fin n_Col) : Fin n_CoreCol :=
  ⟨col.val / 8, Nat.div_lt_of_lt_mul (Nat.lt_of_lt_of_le col.isLt (by decide))⟩

/-- The pixels of a core column, row by row. -/
def pixelAt (cc : Fin n_CoreCol) (iPixel : Fin (8 * n_Row)) : Fin n_Col × Fin n_Row :=
  (⟨8 * cc.val + iPixel.val % 8, by
      have hcc : cc.val < 50 := cc.isLt
      show _ < 400
      omega⟩,
    ⟨iPixel.val / 8, Nat.div_lt_of_lt_mul iPixel.isLt⟩)

namespace Itkpixv2PixelCfg

/-- All registers of a pixel at once. -/
def setReg (pixRegs : PixelArray) (col : Fin n_Col) (row : Fin n_Row) (en injen hitbus : UInt32)
    (tdac : Int) : PixelArray :=
  let reg := PixelBits.en.write 0x0 (en.toBitVec.setWidth 8)
  let reg := PixelBits.injen.write reg (injen.toBitVec.setWidth 8)
  let reg := PixelBits.hitbus.write reg (hitbus.toBitVec.setWidth 8)
  let reg := PixelBits.tdac.write reg (BitVec.ofNat 8 tdac.natAbs)
  let reg := PixelBits.sign.write reg (if tdac < 0 then 0x1 else 0x0)
  let other := (col.val + 1 &&& 0x1) * 8
  let shift := (col.val &&& 0x1) * 8
  setWord pixRegs col row
    ⟨((pixRegs (doubleColumn col) row).toBitVec &&& ((0xFF : BitVec 16) <<< other)) |||
      (reg.setWidth 16 <<< shift)⟩

end Itkpixv2PixelCfg

namespace ChipCfg

variable {numRegs : Nat} (g : GlobalCfg numRegs)

/-- A new configuration, with nothing counted yet. -/
def new (m_cfg : Words numRegs) (pixRegs : PixelArray) : ChipCfg numRegs :=
  ⟨m_cfg, pixRegs, fun _ => 0, false⟩

def countBadPixels (pixRegs : PixelArray) (cc : Fin n_CoreCol) : UInt32 :=
  (List.finRange (8 * n_Row)).foldl
    (fun nBadPixelCount iPixel =>
      let pixel := pixelAt cc iPixel
      if getEn pixRegs pixel.1 pixel.2 = 0 then nBadPixelCount + 1 else nBadPixelCount) 0

def initBadPixels (s : ChipCfg numRegs) : ChipCfg numRegs :=
  if s.m_nBadPixelInitialized then s
  else
    { s with
      m_nBadPixel := countBadPixels s.pixRegs
      m_nBadPixelInitialized := true }

def coreColName (cc : Fin n_CoreCol) : String := "EnCoreCol" ++ toString (cc.val / 16)

/-- The bit of the core column in its register is cleared. -/
def clearCoreCol (m_cfg : Words numRegs) (cc : Fin n_CoreCol) : Words numRegs :=
  let adj := cc.val / 16
  let reg := g.getValue m_cfg (coreColName cc)
  g.setValue m_cfg (coreColName cc) (reg &&& ~~~(0x1 <<< UInt16.ofNat (cc.val - 16 * adj)))

def maskPixel (s : ChipCfg numRegs) (col : Fin n_Col) (row : Fin n_Row) (doAltMask : Bool) :
    ChipCfg numRegs :=
  let s := s.initBadPixels
  let s : ChipCfg numRegs := { s with pixRegs := setHitbus s.pixRegs col row 0 }
  if getEn s.pixRegs col row ≠ 0 ∧ doAltMask = false then
    let s : ChipCfg numRegs := { s with
      pixRegs := setEn s.pixRegs col row 0
      m_nBadPixel := Function.update s.m_nBadPixel (coreCol col)
        (s.m_nBadPixel (coreCol col) + 1) }
    if 8 * 384 ≤ s.m_nBadPixel (coreCol col) then
      { s with m_cfg := clearCoreCol g s.m_cfg (coreCol col) }
    else s
  else s

def enableAll (s : ChipCfg numRegs) : ChipCfg numRegs where
  m_cfg := s.m_cfg
  pixRegs := (List.finRange n_Col).foldl
    (fun pixRegs col => (List.finRange n_Row).foldl
      (fun pixRegs row => setHitbus (setEn pixRegs col row 1) col row 1) pixRegs) s.pixRegs
  m_nBadPixel := fun _ => 0
  m_nBadPixelInitialized := true

/-- The sections of a file for the global and for the pixel registers. `none`: a value is missing
or of another kind, and the load ends with an exception. -/
def loadConfig (s : ChipCfg numRegs) (j : Json) (pixelConfig : Option PixelConfig) :
    Option (ChipCfg numRegs) := do
  let m_cfg ← g.loadConfig s.m_cfg j
  let pixRegs ← Itkpixv2PixelCfg.loadConfig pixelConfig s.pixRegs
  pure { s with m_cfg := m_cfg, pixRegs := pixRegs }

/-- The functions that change the enable bits of the pixels. -/
inductive Call where
  | maskPixel (col : Fin n_Col) (row : Fin n_Row) (doAltMask : Bool)
  | enableAll
  | setEn (col : Fin n_Col) (row : Fin n_Row) (v : UInt32)
  | setReg (col : Fin n_Col) (row : Fin n_Row) (en injen hitbus : UInt32) (tdac : Int)
  | loadConfig (j : Json) (pixelConfig : Option PixelConfig)

def call (s : ChipCfg numRegs) : Call → Option (ChipCfg numRegs)
  | .maskPixel col row doAltMask => some (s.maskPixel g col row doAltMask)
  | .enableAll => some s.enableAll
  | .setEn col row v => some { s with pixRegs := Itkpixv2PixelCfg.setEn s.pixRegs col row v }
  | .setReg col row en injen hitbus tdac =>
      some { s with pixRegs := Itkpixv2PixelCfg.setReg s.pixRegs col row en injen hitbus tdac }
  | .loadConfig j pixelConfig => s.loadConfig g j pixelConfig

/-! ## What the count is to say -/

/-- The pixels of a core column that are off. -/
def badPixels (pixRegs : PixelArray) (cc : Fin n_CoreCol) : Finset (Fin n_Col × Fin n_Row) :=
  Finset.univ.filter fun p => coreCol p.1 = cc ∧ getEn pixRegs p.1 p.2 = 0

/-- How many they are. -/
def nBad (pixRegs : PixelArray) (cc : Fin n_CoreCol) : Nat := (badPixels pixRegs cc).card

/-- The bit of a core column in `EnCoreCol0` to `EnCoreCol3`. -/
def coreColEnabled (m_cfg : Words numRegs) (cc : Fin n_CoreCol) : Bool :=
  (g.getValue m_cfg (coreColName cc)).toBitVec.getLsbD (cc.val % 16)

/-- What holds behind a `maskPixel` that leads from `s` to `s'`. -/
structure Sound (s s' : ChipCfg numRegs) : Prop where
  counted : ∀ cc, (s'.m_nBadPixel cc).toNat = nBad s'.pixRegs cc
  cleared : ∀ cc, nBad s'.pixRegs cc = 8 * n_Row → coreColEnabled g s'.m_cfg cc = false
  kept : ∀ cc, nBad s'.pixRegs cc ≠ 8 * n_Row → coreColEnabled g s.m_cfg cc = true →
    coreColEnabled g s'.m_cfg cc = true

/-! ## The loops -/

theorem foldl_count {α : Type} (p : α → Bool) (l : List α) (n : UInt32) :
    (l.foldl (fun n a => if p a then n + 1 else n) n).toNat = (n.toNat + l.countP p) % 2 ^ 32 := by
  induction l generalizing n with
  | nil => exact (Nat.mod_eq_of_lt n.toNat_lt).symm
  | cons a l ih =>
      rw [List.foldl_cons, ih, List.countP_cons]
      by_cases ha : p a = true
      · rw [if_pos ha, if_pos ha, UInt32.toNat_add]
        show ((n.toNat + 1) % 2 ^ 32 + _) % 2 ^ 32 = _
        omega
      · rw [if_neg ha, if_neg ha, Nat.add_zero]

theorem countP_finRange {n : Nat} (p : Fin n → Prop) [DecidablePred p] :
    (List.finRange n).countP (fun i => p i) = (Finset.univ.filter p).card := by
  rw [List.countP_eq_length_filter,
    ← List.toFinset_card_of_nodup ((List.nodup_finRange n).filter _)]
  congr 1
  ext i
  simp

theorem card_filter_fin_le {n : Nat} (p : Fin n → Prop) [DecidablePred p] :
    (Finset.univ.filter p).card ≤ n :=
  (Finset.card_filter_le _ _).trans (Finset.card_fin n).le

theorem pixelAt_injective (cc : Fin n_CoreCol) : Function.Injective (pixelAt cc) := by
  intro i j h
  rw [pixelAt, pixelAt, Prod.mk.injEq, Fin.mk.injEq, Fin.mk.injEq] at h
  apply Fin.ext
  omega

theorem coreCol_pixelAt (cc : Fin n_CoreCol) (i : Fin (8 * n_Row)) :
    coreCol (pixelAt cc i).1 = cc := by
  apply Fin.ext
  show (8 * cc.val + i.val % 8) / 8 = cc.val
  omega

theorem exists_pixelAt (p : Fin n_Col × Fin n_Row) : ∃ i, pixelAt (coreCol p.1) i = p := by
  have hrow : p.2.val < 384 := p.2.isLt
  refine ⟨⟨8 * p.2.val + p.1.val % 8, by
    show _ < 8 * 384
    omega⟩, Prod.ext (Fin.ext ?_) (Fin.ext ?_)⟩
  · show 8 * (p.1.val / 8) + (8 * p.2.val + p.1.val % 8) % 8 = p.1.val
    omega
  · show (8 * p.2.val + p.1.val % 8) / 8 = p.2.val
    omega

theorem mem_badPixels {pixRegs : PixelArray} {cc : Fin n_CoreCol} {p : Fin n_Col × Fin n_Row} :
    p ∈ badPixels pixRegs cc ↔ coreCol p.1 = cc ∧ getEn pixRegs p.1 p.2 = 0 := by
  simp only [badPixels, Finset.mem_filter, Finset.mem_univ, true_and]

attribute [irreducible] badPixels

theorem badPixels_eq_image (pixRegs : PixelArray) (cc : Fin n_CoreCol) :
    badPixels pixRegs cc = (Finset.univ.filter fun i =>
      getEn pixRegs (pixelAt cc i).1 (pixelAt cc i).2 = 0).image (pixelAt cc) := by
  ext p
  rw [mem_badPixels, Finset.mem_image]
  constructor
  · rintro ⟨rfl, hoff⟩
    obtain ⟨i, hi⟩ := exists_pixelAt p
    refine ⟨i, Finset.mem_filter.mpr ⟨Finset.mem_univ _, ?_⟩, hi⟩
    rw [hi]
    exact hoff
  · rintro ⟨i, hi, rfl⟩
    exact ⟨coreCol_pixelAt cc i, (Finset.mem_filter.mp hi).2⟩

theorem nBad_le (pixRegs : PixelArray) (cc : Fin n_CoreCol) : nBad pixRegs cc ≤ 8 * n_Row := by
  rw [nBad, badPixels_eq_image]
  apply Nat.le_trans Finset.card_image_le
  exact card_filter_fin_le fun i => getEn pixRegs (pixelAt cc i).1 (pixelAt cc i).2 = 0

theorem corePixels : 8 * n_Row = 3072 := by decide

theorem toNat_countBadPixels (pixRegs : PixelArray) (cc : Fin n_CoreCol) :
    (countBadPixels pixRegs cc).toNat = nBad pixRegs cc := by
  have hcount : (countBadPixels pixRegs cc).toNat = (List.finRange (8 * n_Row)).countP
      (fun i => getEn pixRegs (pixelAt cc i).1 (pixelAt cc i).2 = 0) % 2 ^ 32 := by
    have hloop := foldl_count
      (fun i => decide (getEn pixRegs (pixelAt cc i).1 (pixelAt cc i).2 = 0))
      (List.finRange (8 * n_Row)) 0
    simp only [decide_eq_true_eq] at hloop
    rw [countBadPixels, hloop]
    exact congrArg (· % 2 ^ 32) (Nat.zero_add _)
  have hcard : (List.finRange (8 * n_Row)).countP
      (fun i => getEn pixRegs (pixelAt cc i).1 (pixelAt cc i).2 = 0) = nBad pixRegs cc := by
    rw [nBad, badPixels_eq_image, Finset.card_image_of_injective _ (pixelAt_injective cc)]
    exact countP_finRange _
  have hle := nBad_le pixRegs cc
  rw [hcount, hcard]
  exact Nat.mod_eq_of_lt (Nat.lt_of_le_of_lt hle (by decide))

attribute [irreducible] countBadPixels

/-! ## Enable bits -/

theorem getEn_setHitbus (pixRegs : PixelArray) (col : Fin n_Col) (row : Fin n_Row) {v : UInt32}
    (hv : v = 0 ∨ v = 1) (p : Fin n_Col × Fin n_Row) :
    getEn (setHitbus pixRegs col row v) p.1 p.2 = getEn pixRegs p.1 p.2 := by
  have hkept (w : Int) (hw : 0 ≤ w ∧ w ≤ 1) :
      registers.get (registers.set pixRegs ((col, row), .Hitbus) w) (p, .En) =
        registers.get pixRegs (p, .En) :=
    registers_independent.get_set_ne pixRegs ((col, row), .Hitbus) (p, .En) w hw (by simp)
  have hnat : (getEn (setHitbus pixRegs col row v) p.1 p.2).toNat =
      (getEn pixRegs p.1 p.2).toNat := by
    rcases hv with rfl | rfl
    · exact Int.ofNat.inj (hkept 0 (by decide))
    · exact Int.ofNat.inj (hkept 1 (by decide))
  exact UInt16.toNat_inj.mp hnat

theorem getEn_setEn_of_ne (pixRegs : PixelArray) {p q : Fin n_Col × Fin n_Row} {v : UInt32}
    (hv : v = 0 ∨ v = 1) (hne : q ≠ p) :
    getEn (setEn pixRegs p.1 p.2 v) q.1 q.2 = getEn pixRegs q.1 q.2 := by
  have hkept (w : Int) (hw : 0 ≤ w ∧ w ≤ 1) :
      registers.get (registers.set pixRegs (p, .En) w) (q, .En) =
        registers.get pixRegs (q, .En) :=
    registers_independent.get_set_ne pixRegs (p, .En) (q, .En) w hw (by simp [hne])
  have hnat : (getEn (setEn pixRegs p.1 p.2 v) q.1 q.2).toNat = (getEn pixRegs q.1 q.2).toNat := by
    rcases hv with rfl | rfl
    · exact Int.ofNat.inj (hkept 0 (by decide))
    · exact Int.ofNat.inj (hkept 1 (by decide))
  exact UInt16.toNat_inj.mp hnat

theorem getEn_setEn (pixRegs : PixelArray) (p : Fin n_Col × Fin n_Row) :
    getEn (setEn pixRegs p.1 p.2 0) p.1 p.2 = 0 ∧ getEn (setEn pixRegs p.1 p.2 1) p.1 p.2 = 1 := by
  have hset (w : Int) (hw : 0 ≤ w ∧ w ≤ 1) :
      registers.get (registers.set pixRegs (p, .En) w) (p, .En) = w :=
    registers_independent.get_set pixRegs (p, .En) w hw
  exact ⟨UInt16.toNat_inj.mp (Int.ofNat.inj (hset 0 (by decide))),
    UInt16.toNat_inj.mp (Int.ofNat.inj (hset 1 (by decide)))⟩

theorem nBad_congr {a b : PixelArray} (h : ∀ p : Fin n_Col × Fin n_Row,
    getEn a p.1 p.2 = getEn b p.1 p.2) (cc : Fin n_CoreCol) : nBad a cc = nBad b cc := by
  apply congrArg Finset.card
  ext p
  rw [mem_badPixels, mem_badPixels, h p]

theorem nBad_setEn (pixRegs : PixelArray) {p : Fin n_Col × Fin n_Row}
    (hon : getEn pixRegs p.1 p.2 ≠ 0) (cc : Fin n_CoreCol) :
    nBad (setEn pixRegs p.1 p.2 0) cc =
      if cc = coreCol p.1 then nBad pixRegs cc + 1 else nBad pixRegs cc := by
  by_cases hcc : cc = coreCol p.1
  · subst hcc
    have hnew : p ∉ badPixels pixRegs (coreCol p.1) := fun h => hon (mem_badPixels.mp h).2
    have hinsert : badPixels (setEn pixRegs p.1 p.2 0) (coreCol p.1) =
        insert p (badPixels pixRegs (coreCol p.1)) := by
      ext q
      rw [Finset.mem_insert, mem_badPixels, mem_badPixels]
      by_cases hq : q = p
      · subst hq
        simp [(getEn_setEn pixRegs q).1]
      · rw [getEn_setEn_of_ne pixRegs (Or.inl rfl) hq]
        simp [hq]
    rw [if_pos rfl, nBad, hinsert, Finset.card_insert_of_notMem hnew]
    rfl
  · rw [if_neg hcc]
    apply congrArg Finset.card
    ext q
    rw [mem_badPixels, mem_badPixels]
    by_cases hq : q = p
    · subst hq
      simp [Ne.symm hcc]
    · rw [getEn_setEn_of_ne pixRegs (Or.inl rfl) hq]

/-- The registers after `enableAll` has gone over some pixels. -/
theorem getEn_enable (pixels : List (Fin n_Col × Fin n_Row)) (pixRegs : PixelArray)
    (p : Fin n_Col × Fin n_Row) :
    getEn (pixels.foldl (fun pixRegs q =>
      setHitbus (setEn pixRegs q.1 q.2 1) q.1 q.2 1) pixRegs) p.1 p.2 =
      if p ∈ pixels then 1 else getEn pixRegs p.1 p.2 := by
  induction pixels generalizing pixRegs with
  | nil => rfl
  | cons q pixels ih =>
      rw [List.foldl_cons, ih, getEn_setHitbus _ _ _ (Or.inr rfl)]
      by_cases hp : p ∈ pixels
      · rw [if_pos hp, if_pos (List.mem_cons_of_mem _ hp)]
      · rw [if_neg hp]
        by_cases hq : p = q
        · subst hq
          rw [if_pos List.mem_cons_self, (getEn_setEn pixRegs p).2]
        · rw [getEn_setEn_of_ne pixRegs (Or.inr rfl) hq, if_neg]
          exact fun hmem => (List.mem_cons.mp hmem).elim hq hp

theorem mem_pixels {m n : Nat} (p : Fin m × Fin n) :
    p ∈ (List.finRange m).flatMap fun col => (List.finRange n).map fun row => (col, row) :=
  List.mem_flatMap.mpr ⟨p.1, List.mem_finRange p.1,
    List.mem_map.mpr ⟨p.2, List.mem_finRange p.2, rfl⟩⟩

theorem nBad_enableAll (s : ChipCfg numRegs) (cc : Fin n_CoreCol) :
    nBad s.enableAll.pixRegs cc = 0 := by
  have hloop : s.enableAll.pixRegs = ((List.finRange n_Col).flatMap fun col =>
      (List.finRange n_Row).map fun row => (col, row)).foldl (fun pixRegs q =>
        setHitbus (setEn pixRegs q.1 q.2 1) q.1 q.2 1) s.pixRegs := by
    simp only [enableAll, List.foldl_flatMap, List.foldl_map]
  rw [nBad, Finset.card_eq_zero, Finset.eq_empty_iff_forall_notMem]
  intro p hp
  have hoff := (mem_badPixels.mp hp).2
  rw [hloop, getEn_enable, if_pos (mem_pixels p)] at hoff
  exact absurd hoff (by decide)

/-! ## Bits of the core columns -/

/-- The four registers are in the map of the chip, in different words. -/
structure HasCoreCols (reg : Nat → RegDefault numRegs) : Prop where
  find : ∀ i < 4, g.regMap.find ("EnCoreCol" ++ toString i) = some (reg i)
  apart : ∀ i < 4, ∀ j < 4, i ≠ j → (reg i).m_cfg ≠ (reg j).m_cfg

theorem one_shiftLeft : ∀ k < 16, ∀ j < 16,
    ((0x1 : UInt16) <<< UInt16.ofNat k).toBitVec.getLsbD j = decide (j = k) := by
  decide +kernel

theorem toNat_read_lt (r : RegDefault numRegs) (m_cfg : Words numRegs) :
    (r.read m_cfg).toNat < 2 ^ r.m_bits := by
  have hread := congrArg BitVec.toNat (r.toBitVec_readWord m_cfg[r.m_cfg])
  unfold BitField.read at hread
  rw [BitField.toNat_and_mask] at hread
  exact hread.trans_lt (Nat.mod_lt _ (Nat.two_pow_pos _))

theorem coreColEnabled_clear {g : GlobalCfg numRegs} {reg : Nat → RegDefault numRegs}
    (hg : HasCoreCols g reg) (m_cfg : Words numRegs) (cc cc' : Fin n_CoreCol) :
    coreColEnabled g (clearCoreCol g m_cfg cc) cc' =
      if cc' = cc then false else coreColEnabled g m_cfg cc' := by
  have hlt : ∀ c : Fin n_CoreCol, c.val / 16 < 4 := by
    intro c
    have hc : c.val < 50 := c.isLt
    omega
  have hfind (c : Fin n_CoreCol) : g.regMap.find (coreColName c) = some (reg (c.val / 16)) :=
    hg.find _ (hlt c)
  have hshift : cc.val - 16 * (cc.val / 16) = cc.val % 16 := by omega
  unfold coreColEnabled clearCoreCol
  dsimp only
  rw [GlobalCfg.setValue_of_find (hfind cc), GlobalCfg.getValue_of_find (hfind cc'),
    GlobalCfg.getValue_of_find (hfind cc'), GlobalCfg.getValue_of_find (hfind cc), hshift]
  by_cases hreg : cc'.val / 16 = cc.val / 16
  · rw [hreg]
    generalize reg (cc.val / 16) = r
    have hread : r.read (r.write m_cfg
        (r.read m_cfg &&& ~~~(0x1 <<< UInt16.ofNat (cc.val % 16)))) =
        r.read m_cfg &&& ~~~(0x1 <<< UInt16.ofNat (cc.val % 16)) := by
      apply UInt16.toNat_inj.mp
      rw [RegDefault.read_write, UInt16.toNat_and]
      exact Nat.mod_eq_of_lt (Nat.lt_of_le_of_lt Nat.and_le_left (toNat_read_lt r m_cfg))
    have hbit := one_shiftLeft (cc.val % 16) (Nat.mod_lt _ (by decide)) (cc'.val % 16)
      (Nat.mod_lt _ (by decide))
    rw [hread, UInt16.toBitVec_and, UInt16.toBitVec_not, BitVec.getLsbD_and, BitVec.getLsbD_not,
      hbit, decide_eq_true (Nat.mod_lt _ (by decide) : cc'.val % 16 < 16), Bool.true_and]
    by_cases hcc : cc' = cc
    · subst hcc
      simp
    · have hmod : cc'.val % 16 ≠ cc.val % 16 := fun hmod => hcc (Fin.ext (by omega))
      simp [hcc, hmod]
  · have hne : cc' ≠ cc := fun h => hreg (congrArg (fun c : Fin n_CoreCol => c.val / 16) h)
    have hapart : (reg (cc.val / 16)).Apart (reg (cc'.val / 16)) := fun k i h h' =>
      hg.apart _ (hlt cc) _ (hlt cc') (Ne.symm hreg) (h.1.symm.trans h'.1)
    rw [if_neg hne, RegDefault.read_write_of_apart hapart]

/-! ## The drift of the count -/

/-- How many more pixels of each core column are off than are counted. -/
def drift (s s' : ChipCfg numRegs) (d : Fin n_CoreCol → Int) : Call → Fin n_CoreCol → Int
  | .maskPixel _ _ _ => if s.m_nBadPixelInitialized then d else fun _ => 0
  | .enableAll => fun _ => 0
  | _ => fun cc => d cc + nBad s'.pixRegs cc - nBad s.pixRegs cc

/-- The count, once it is taken, differs from the pixels that are off by the drift. -/
def Drifted (s : ChipCfg numRegs) (d : Fin n_CoreCol → Int) : Prop :=
  s.m_nBadPixelInitialized = true → ∀ cc,
    ((s.m_nBadPixel cc).toNat : Int) % 2 ^ 32 = (nBad s.pixRegs cc - d cc) % 2 ^ 32

/-- The count, if it is taken, is right, and the core columns without a good pixel are off. -/
structure Balanced (s : ChipCfg numRegs) (d : Fin n_CoreCol → Int) : Prop where
  counted : s.m_nBadPixelInitialized = true → ∀ cc, (2 ^ 32 : Int) ∣ d cc
  off : ∀ cc, nBad s.pixRegs cc = 8 * n_Row → coreColEnabled g s.m_cfg cc = false

theorem initBadPixels_fields (s : ChipCfg numRegs) :
    s.initBadPixels.m_cfg = s.m_cfg ∧ s.initBadPixels.pixRegs = s.pixRegs ∧
      s.initBadPixels.m_nBadPixelInitialized = true := by
  unfold initBadPixels
  by_cases hinit : s.m_nBadPixelInitialized = true
  · rw [if_pos hinit]
    exact ⟨rfl, rfl, hinit⟩
  · rw [if_neg hinit]
    exact ⟨rfl, rfl, rfl⟩

theorem counted_init {s : ChipCfg numRegs} {d : Fin n_CoreCol → Int} (h : Drifted s d) :
    (∀ cc, (s.initBadPixels.m_nBadPixel cc).toNat = nBad s.pixRegs cc) ↔
      (s.m_nBadPixelInitialized = true → ∀ cc, (2 ^ 32 : Int) ∣ d cc) := by
  unfold initBadPixels
  by_cases hinit : s.m_nBadPixelInitialized = true
  · rw [if_pos hinit]
    have hiff (cc : Fin n_CoreCol) :
        (s.m_nBadPixel cc).toNat = nBad s.pixRegs cc ↔ (2 ^ 32 : Int) ∣ d cc := by
      have hmod := h hinit cc
      have hlt := (s.m_nBadPixel cc).toNat_lt
      have hle := nBad_le s.pixRegs cc
      rw [corePixels] at hle
      generalize nBad s.pixRegs cc = n at hmod hle ⊢
      generalize (s.m_nBadPixel cc).toNat = count at hmod hlt ⊢
      omega
    exact ⟨fun hall _ cc => (hiff cc).mp (hall cc), fun hall cc => (hiff cc).mpr (hall hinit cc)⟩
  · rw [if_neg hinit]
    exact ⟨fun _ hnot => absurd hnot hinit, fun _ cc => toNat_countBadPixels s.pixRegs cc⟩

theorem maskPixel_kept (s : ChipCfg numRegs) {col : Fin n_Col} {row : Fin n_Row}
    {doAltMask : Bool} (h : ¬(getEn s.pixRegs col row ≠ 0 ∧ doAltMask = false)) :
    s.maskPixel g col row doAltMask =
      { s.initBadPixels with pixRegs := setHitbus s.pixRegs col row 0 } := by
  obtain ⟨-, hpix, -⟩ := s.initBadPixels_fields
  have hen : getEn (setHitbus s.pixRegs col row 0) col row = getEn s.pixRegs col row :=
    getEn_setHitbus s.pixRegs col row (Or.inl rfl) (col, row)
  unfold maskPixel
  dsimp only
  rw [hpix, hen, if_neg h]

theorem maskPixel_off (s : ChipCfg numRegs) {col : Fin n_Col} {row : Fin n_Row}
    {doAltMask : Bool} (h : getEn s.pixRegs col row ≠ 0 ∧ doAltMask = false) :
    s.maskPixel g col row doAltMask =
      { m_cfg := if 8 * 384 ≤ s.initBadPixels.m_nBadPixel (coreCol col) + 1 then
            clearCoreCol g s.m_cfg (coreCol col)
          else s.m_cfg
        pixRegs := setEn (setHitbus s.pixRegs col row 0) col row 0
        m_nBadPixel := Function.update s.initBadPixels.m_nBadPixel (coreCol col)
          (s.initBadPixels.m_nBadPixel (coreCol col) + 1)
        m_nBadPixelInitialized := true } := by
  obtain ⟨hcfg, hpix, hinit⟩ := s.initBadPixels_fields
  have hen : getEn (setHitbus s.pixRegs col row 0) col row = getEn s.pixRegs col row :=
    getEn_setHitbus s.pixRegs col row (Or.inl rfl) (col, row)
  unfold maskPixel
  dsimp only
  rw [hpix, hen, if_pos h, hcfg, hinit]
  simp only [Function.update_self]
  by_cases hfull : 8 * 384 ≤ s.initBadPixels.m_nBadPixel (coreCol col) + 1
  · rw [if_pos hfull, if_pos hfull]
  · rw [if_neg hfull, if_neg hfull]

theorem nBad_setHitbus (pixRegs : PixelArray) (col : Fin n_Col) (row : Fin n_Row)
    (cc : Fin n_CoreCol) : nBad (setHitbus pixRegs col row 0) cc = nBad pixRegs cc :=
  nBad_congr (getEn_setHitbus pixRegs col row (Or.inl rfl)) cc

theorem nBad_masked {pixRegs : PixelArray} {col : Fin n_Col} {row : Fin n_Row}
    (hon : getEn pixRegs col row ≠ 0) (cc : Fin n_CoreCol) :
    nBad (setEn (setHitbus pixRegs col row 0) col row 0) cc =
      if cc = coreCol col then nBad pixRegs cc + 1 else nBad pixRegs cc := by
  have hen : getEn (setHitbus pixRegs col row 0) col row = getEn pixRegs col row :=
    getEn_setHitbus pixRegs col row (Or.inl rfl) (col, row)
  rw [← hen] at hon
  rw [@nBad_setEn (setHitbus pixRegs col row 0) (col, row) hon cc, nBad_setHitbus]

theorem toNat_succ_eq_iff {c : UInt32} {n : Nat} (hn : n ≤ 3072) :
    (c + 1).toNat = n + 1 ↔ c.toNat = n := by
  have hlt := c.toNat_lt
  rw [UInt32.toNat_add]
  show (c.toNat + 1) % 2 ^ 32 = n + 1 ↔ _
  omega

theorem full_iff {c : UInt32} {n : Nat} (h : c.toNat = n) : 8 * 384 ≤ c ↔ 3072 ≤ n := by
  rw [UInt32.le_iff_toNat_le, h]
  exact Iff.rfl

variable {g} {reg : Nat → RegDefault numRegs}

/-- The count is right and the registers fit behind a mask exactly if they did before it. -/
theorem sound_iff (hg : HasCoreCols g reg) {s : ChipCfg numRegs} {d : Fin n_CoreCol → Int}
    (h : Drifted s d) (col : Fin n_Col) (row : Fin n_Row) (doAltMask : Bool) :
    Sound g s (s.maskPixel g col row doAltMask) ↔ Balanced g s d := by
  have hbalanced : Balanced g s d ↔
      (∀ cc, (s.initBadPixels.m_nBadPixel cc).toNat = nBad s.pixRegs cc) ∧
        ∀ cc, nBad s.pixRegs cc = 8 * n_Row → coreColEnabled g s.m_cfg cc = false := by
    rw [counted_init h]
    exact ⟨fun hb => ⟨hb.counted, hb.off⟩, fun hb => ⟨hb.1, hb.2⟩⟩
  rw [hbalanced, corePixels]
  by_cases hoff : getEn s.pixRegs col row ≠ 0 ∧ doAltMask = false
  · have hle (cc : Fin n_CoreCol) := nBad_le s.pixRegs cc
    have hbad := nBad_masked hoff.1
    have hroom : nBad s.pixRegs (coreCol col) + 1 ≤ 3072 := by
      have hle' := nBad_le (setEn (setHitbus s.pixRegs col row 0) col row 0) (coreCol col)
      rw [hbad, if_pos rfl, corePixels] at hle'
      exact hle'
    simp only [corePixels] at hle
    rw [maskPixel_off g s hoff]
    generalize s.initBadPixels.m_nBadPixel = count
    have hcounts : (∀ cc, (Function.update count (coreCol col) (count (coreCol col) + 1) cc).toNat =
        nBad (setEn (setHitbus s.pixRegs col row 0) col row 0) cc) ↔
        ∀ cc, (count cc).toNat = nBad s.pixRegs cc := by
      apply forall_congr'
      intro cc
      rw [hbad, Function.update_apply]
      by_cases hcc : cc = coreCol col
      · subst hcc
        rw [if_pos rfl, if_pos rfl, toNat_succ_eq_iff (hle _)]
      · rw [if_neg hcc, if_neg hcc]
    have hother (cc : Fin n_CoreCol) (hcc : cc ≠ coreCol col) :
        coreColEnabled g (if 8 * 384 ≤ count (coreCol col) + 1 then
          clearCoreCol g s.m_cfg (coreCol col) else s.m_cfg) cc = coreColEnabled g s.m_cfg cc := by
      by_cases hfull : 8 * 384 ≤ count (coreCol col) + 1
      · rw [if_pos hfull, coreColEnabled_clear hg, if_neg hcc]
      · rw [if_neg hfull]
    constructor
    · intro hsound
      refine ⟨hcounts.mp hsound.counted, fun cc hdead => ?_⟩
      have hcc : cc ≠ coreCol col := by
        rintro rfl
        omega
      have hcleared := hsound.cleared cc
      rw [hbad, if_neg hcc, corePixels] at hcleared
      rw [← hother cc hcc]
      exact hcleared hdead
    · rintro ⟨hcounted, hdead⟩
      have hnext := (toNat_succ_eq_iff (hle (coreCol col))).mpr (hcounted (coreCol col))
      have hfull := full_iff hnext
      constructor
      · exact hcounts.mpr hcounted
      · intro cc hcc
        rw [hbad, corePixels] at hcc
        by_cases hsame : cc = coreCol col
        · subst hsame
          rw [if_pos rfl] at hcc
          rw [if_pos (hfull.mpr (Nat.le_of_eq hcc.symm)), coreColEnabled_clear hg, if_pos rfl]
        · rw [if_neg hsame] at hcc
          rw [hother cc hsame]
          exact hdead cc hcc
      · intro cc hcc hset
        rw [hbad, corePixels] at hcc
        by_cases hsame : cc = coreCol col
        · subst hsame
          rw [if_pos rfl] at hcc
          rw [if_neg fun hf => hcc (Nat.le_antisymm hroom (hfull.mp hf))]
          exact hset
        · rw [hother cc hsame]
          exact hset
  · have hbad := nBad_setHitbus s.pixRegs col row
    have hcfg := s.initBadPixels_fields.1
    rw [maskPixel_kept g s hoff]
    constructor
    · intro hsound
      refine ⟨fun cc => (hsound.counted cc).trans (hbad cc), fun cc hdead => ?_⟩
      have hcleared := hsound.cleared cc
      rw [hbad, corePixels, hcfg] at hcleared
      exact hcleared hdead
    · rintro ⟨hcounted, hdead⟩
      constructor
      · exact fun cc => (hcounted cc).trans (hbad cc).symm
      · intro cc hcc
        rw [hbad, corePixels] at hcc
        rw [hcfg]
        exact hdead cc hcc
      · intro cc _ hset
        rw [hcfg]
        exact hset

theorem Drifted.moved {s s' : ChipCfg numRegs} {d : Fin n_CoreCol → Int} (h : Drifted s d)
    (hcount : s'.m_nBadPixel = s.m_nBadPixel)
    (hinit : s'.m_nBadPixelInitialized = s.m_nBadPixelInitialized) :
    Drifted s' fun cc => d cc + nBad s'.pixRegs cc - nBad s.pixRegs cc := by
  intro hinit' cc
  have hold := h (hinit.symm.trans hinit') cc
  have hsame : (nBad s.pixRegs cc : Int) - d cc =
      nBad s'.pixRegs cc - (d cc + nBad s'.pixRegs cc - nBad s.pixRegs cc) := by omega
  rw [hcount, hold, hsame]

theorem drifted_maskPixel {s : ChipCfg numRegs} {d : Fin n_CoreCol → Int} (h : Drifted s d)
    (col : Fin n_Col) (row : Fin n_Row) (doAltMask : Bool) :
    Drifted (s.maskPixel g col row doAltMask)
      (if s.m_nBadPixelInitialized then d else fun _ => 0) := by
  have hstart (cc : Fin n_CoreCol) : ((s.initBadPixels.m_nBadPixel cc).toNat : Int) % 2 ^ 32 =
      (nBad s.pixRegs cc - (if s.m_nBadPixelInitialized then d else fun _ => 0) cc) % 2 ^ 32 := by
    unfold initBadPixels
    by_cases hinit : s.m_nBadPixelInitialized = true
    · rw [if_pos hinit, if_pos hinit]
      exact h hinit cc
    · rw [if_neg hinit, if_neg hinit]
      show ((countBadPixels s.pixRegs cc).toNat : Int) % 2 ^ 32 = _
      rw [toNat_countBadPixels, Int.sub_zero]
  intro _ cc
  by_cases hoff : getEn s.pixRegs col row ≠ 0 ∧ doAltMask = false
  · rw [maskPixel_off g s hoff]
    show ((Function.update s.initBadPixels.m_nBadPixel (coreCol col)
      (s.initBadPixels.m_nBadPixel (coreCol col) + 1) cc).toNat : Int) % 2 ^ 32 =
        (nBad _ cc - _) % 2 ^ 32
    rw [nBad_masked hoff.1, Function.update_apply]
    by_cases hcc : cc = coreCol col
    · subst hcc
      have hbefore := hstart (coreCol col)
      rw [if_pos rfl, if_pos rfl, UInt32.toNat_add]
      show (((_ + 1) % 2 ^ 32 : Nat) : Int) % 2 ^ 32 = _
      omega
    · rw [if_neg hcc, if_neg hcc]
      exact hstart cc
  · rw [maskPixel_kept g s hoff]
    show ((s.initBadPixels.m_nBadPixel cc).toNat : Int) % 2 ^ 32 = (nBad _ cc - _) % 2 ^ 32
    rw [nBad_setHitbus]
    exact hstart cc

theorem drifted_call {s s' : ChipCfg numRegs} {d : Fin n_CoreCol → Int} (h : Drifted s d)
    {c : Call} (hcall : s.call g c = some s') : Drifted s' (drift s s' d c) := by
  cases c with
  | maskPixel col row doAltMask =>
      cases hcall
      exact drifted_maskPixel h col row doAltMask
  | enableAll =>
      cases hcall
      intro _ cc
      rw [nBad_enableAll]
      rfl
  | setEn col row v =>
      cases hcall
      exact h.moved rfl rfl
  | setReg col row en injen hitbus tdac =>
      cases hcall
      exact h.moved rfl rfl
  | loadConfig j pixelConfig =>
      obtain ⟨m_cfg, -, hrest⟩ := Option.bind_eq_some_iff.mp hcall
      obtain ⟨pixRegs, -, hloaded⟩ := Option.bind_eq_some_iff.mp hrest
      cases hloaded
      exact h.moved rfl rfl

def Call.masks : Call → Bool
  | .maskPixel _ _ _ => true
  | _ => false

/-- In the run, every `maskPixel` leaves the count and the registers as they are to be. -/
def AllSound (g : GlobalCfg numRegs) (s : ChipCfg numRegs) : List Call → Prop
  | [] => True
  | c :: calls => ∀ s', s.call g c = some s' →
      (c.masks = true → Sound g s s') ∧ AllSound g s' calls

/-- In the run, every `maskPixel` comes with a count that is right. -/
def AllBalanced (g : GlobalCfg numRegs) (s : ChipCfg numRegs) (d : Fin n_CoreCol → Int) :
    List Call → Prop
  | [] => True
  | c :: calls => ∀ s', s.call g c = some s' →
      (c.masks = true → Balanced g s d) ∧ AllBalanced g s' (drift s s' d c) calls

theorem allSound_iff (hg : HasCoreCols g reg) {s : ChipCfg numRegs} {d : Fin n_CoreCol → Int}
    (h : Drifted s d) (calls : List Call) : AllSound g s calls ↔ AllBalanced g s d calls := by
  induction calls generalizing s d with
  | nil => exact Iff.rfl
  | cons c calls ih =>
      apply forall_congr'
      intro s'
      apply imp_congr_right
      intro hcall
      apply and_congr
      · apply imp_congr_right
        intro hmasks
        cases c with
        | maskPixel col row doAltMask =>
            cases hcall
            exact sound_iff hg h col row doAltMask
        | enableAll => cases hmasks
        | setEn col row v => cases hmasks
        | setReg col row en injen hitbus tdac => cases hmasks
        | loadConfig j pixelConfig => cases hmasks
      · exact ih (drifted_call h hcall)

theorem drifted_new (m_cfg : Words numRegs) (pixRegs : PixelArray) :
    Drifted (new m_cfg pixRegs) fun _ => 0 := fun h => Bool.noConfusion h

end ChipCfg

/-! ## The two chips -/

namespace ChipCfg

theorem hasCoreCols_itkpixv2 :
    HasCoreCols Itkpixv2GlobalCfg.globalCfg Itkpixv2GlobalCfg.EnCoreCol where
  find := by
    simp only [GlobalCfg.regMap, NameMap.find_ofList]
    decide +kernel
  apart := by decide +kernel

theorem hasCoreCols_rd53b : HasCoreCols Rd53bGlobalCfg.globalCfg Rd53bGlobalCfg.EnCoreCol where
  find := by
    simp only [GlobalCfg.regMap, NameMap.find_ofList]
    decide +kernel
  apart := by decide +kernel

/-- In every run from a new configuration, each `maskPixel` leaves the right count and the right
core columns exactly if all other calls together left the number of bad pixels alone since the
count was taken, and no core column without a good pixel was left on. -/
theorem coreColumns_run (pixRegs : Itkpixv2PixelCfg.PixelArray) :
    (∀ m_cfg calls,
      AllSound Itkpixv2GlobalCfg.globalCfg (new m_cfg pixRegs) calls ↔
        AllBalanced Itkpixv2GlobalCfg.globalCfg (new m_cfg pixRegs) (fun _ => 0) calls) ∧
    ∀ m_cfg calls,
      AllSound Rd53bGlobalCfg.globalCfg (new m_cfg pixRegs) calls ↔
        AllBalanced Rd53bGlobalCfg.globalCfg (new m_cfg pixRegs) (fun _ => 0) calls :=
  ⟨fun m_cfg calls => allSound_iff hasCoreCols_itkpixv2 (drifted_new m_cfg pixRegs) calls,
    fun m_cfg calls => allSound_iff hasCoreCols_rd53b (drifted_new m_cfg pixRegs) calls⟩

/-- One pixel is switched off behind the back of the count, and another one is masked. -/
def staleCalls : List Call := [.enableAll, .setEn 0 0 0, .maskPixel 1 0 false]

theorem stale_count : ¬AllSound Itkpixv2GlobalCfg.globalCfg
    (new Itkpixv2GlobalCfg.globalCfg.init fun _ _ => 0) staleCalls := by
  rw [allSound_iff hasCoreCols_itkpixv2 (drifted_new _ _)]
  intro h
  let s := (new Itkpixv2GlobalCfg.globalCfg.init fun _ _ => 0).enableAll
  have hen : getEn s.pixRegs 0 0 ≠ 0 := by
    intro hoff
    have hmem : (0, 0) ∈ badPixels s.pixRegs 0 := mem_badPixels.mpr ⟨rfl, hoff⟩
    have hcard : (badPixels s.pixRegs 0).card = 0 := nBad_enableAll _ 0
    rw [Finset.card_eq_zero.mp hcard] at hmem
    exact absurd hmem (Finset.notMem_empty _)
  have hmasked := (((h s rfl).2 _ rfl).2 _ rfl).1 rfl
  have hdrift := hmasked.counted rfl 0
  have hone : (0 : Int) + nBad (setEn s.pixRegs 0 0 0) 0 - nBad s.pixRegs 0 = 1 := by
    have hcol : (0 : Fin n_CoreCol) = coreCol 0 := rfl
    rw [@nBad_setEn s.pixRegs (0, 0) hen 0, if_pos hcol]
    omega
  have hdvd : (2 ^ 32 : Int) ∣ 0 + nBad (setEn s.pixRegs 0 0 0) 0 - nBad s.pixRegs 0 := hdrift
  rw [hone] at hdvd
  omega

end ChipCfg

end Yarr.Rd53
