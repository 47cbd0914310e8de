import Mathlib.Data.Fin.VecNotation
import Yarr.Core.Periods
import Yarr.Fei4.Fei4

/-!
# The emulator of the FE-I4

The emulator reads commands from a ring buffer. It keeps the registers of the
chip and a shift register for each double column, and it answers a trigger
with headers and hits.
-/

namespace Yarr.Fei4

open Fei4Register

/-! ## The planes of a double column -/

inductive Plane
  | En
  | TDAC (i : Fin 5)
  | LCap
  | SCap
  | Hitbus
  | FDAC (i : Fin 4)
  deriving DecidableEq

namespace Plane

def get (cfg : Fei4PixelCfg) (dc : Fin n_DC) : Plane → DoubleColumnBit
  | En => cfg.m_En[dc]
  | TDAC i => cfg.m_TDAC[dc].field[i]
  | LCap => cfg.m_LCap[dc]
  | SCap => cfg.m_SCap[dc]
  | Hitbus => cfg.m_Hitbus[dc]
  | FDAC i => cfg.m_FDAC[dc].field[i]

def set (cfg : Fei4PixelCfg) (dc : Fin n_DC) (storage : DoubleColumnBit) : Plane → Fei4PixelCfg
  | En => { cfg with m_En := cfg.m_En.set dc storage }
  | TDAC i => { cfg with m_TDAC := cfg.m_TDAC.set dc ⟨cfg.m_TDAC[dc].field.set i storage⟩ }
  | LCap => { cfg with m_LCap := cfg.m_LCap.set dc storage }
  | SCap => { cfg with m_SCap := cfg.m_SCap.set dc storage }
  | Hitbus => { cfg with m_Hitbus := cfg.m_Hitbus.set dc storage }
  | FDAC i => { cfg with m_FDAC := cfg.m_FDAC.set dc ⟨cfg.m_FDAC[dc].field.set i storage⟩ }

/-- The order of the latches, that of the bits of `Pixel_latch_strobe`. -/
def bitReg : Fin 13 → Plane :=
  ![En, TDAC 0, TDAC 1, TDAC 2, TDAC 3, TDAC 4, LCap, SCap, Hitbus, FDAC 0, FDAC 1, FDAC 2, FDAC 3]

end Plane

/-! ## State -/

/-- What the response of a pixel to an injection depends on. -/
structure PixelInput where
  PlsrDAC : Nat
  SCap : UInt32
  LCap : UInt32
  Vthin_Fine : Nat
  Vthin_Coarse : Nat
  TDAC : UInt32

/-- The time over threshold of an injection, zero for a charge with its noise below threshold. -/
abbrev PixelResponse := Pixel → PixelInput → UInt32

/-- `m_rxRingBuffer` holds the words that were sent. -/
structure Fei4Emu where
  cfg : Fei4GlobalCfg
  pixels : Fei4PixelCfg
  m_shiftRegisterBuffer : Vector DoubleColumnBit n_DC
  m_modeBits : UInt32
  m_feId : UInt8
  m_l1IdCnt : UInt32
  m_bcIdCnt : UInt32
  m_rxRingBuffer : List UInt32

namespace Fei4Emu

variable (emu : Fei4Emu)

/-! ## Sending data -/

def pushOutput (value : UInt32) : Fei4Emu :=
  { emu with m_rxRingBuffer := emu.m_rxRingBuffer ++ [value] }

def dataHeader (hasErrorFlags : Bool) : UInt32 :=
  (emu.m_feId.toUInt32 <<< (24 : UInt32)) ||| ((0xe9 : UInt32) <<< (16 : UInt32)) |||
    ((if hasErrorFlags then 1 else 0) <<< (15 : UInt32)) |||
    ((emu.m_l1IdCnt &&& 0x1F) <<< (10 : UInt32)) ||| (emu.m_bcIdCnt &&& 0x3FF)

def addDataHeader (hasErrorFlags : Bool) : Fei4Emu :=
  emu.pushOutput (emu.dataHeader hasErrorFlags)

def dataRecord (col row : UInt16) (tot1 tot2 : UInt8) : UInt32 :=
  (emu.m_feId.toUInt32 <<< (24 : UInt32)) ||| ((col.toUInt32 &&& 0x7F) <<< (17 : UInt32)) |||
    ((row.toUInt32 &&& 0x1FF) <<< (8 : UInt32)) ||| ((tot1.toUInt32 &&& 0xF) <<< (4 : UInt32)) |||
    (tot2.toUInt32 &&& 0xF)

def addDataRecord (col row : UInt16) (tot1 tot2 : UInt8) : Fei4Emu :=
  emu.pushOutput (emu.dataRecord col row tot1 tot2)

def totCodes : Fin 3 → Fin 17 → UInt8 :=
  ![![0xF, 0x0, 0x1, 0x2, 0x3, 0x4, 0x5, 0x6, 0x7, 0x8, 0x9, 0xA, 0xB, 0xC, 0xD, 0xD, 0xD],
    ![0xF, 0xE, 0x0, 0x1, 0x2, 0x3, 0x4, 0x5, 0x6, 0x7, 0x8, 0x9, 0xA, 0xB, 0xC, 0xD, 0xD],
    ![0xF, 0xE, 0xE, 0x0, 0x1, 0x2, 0x3, 0x4, 0x5, 0x6, 0x7, 0x8, 0x9, 0xA, 0xB, 0xC, 0xD]]

/-- `none`: the table has no row for the fourth setting of the discriminator. -/
def getToTCode (dec_tot : UInt8) : Option UInt8 :=
  let hitDiscCfg := HitDiscCnfg.value emu.cfg
  if h : hitDiscCfg < 3 then
    some (totCodes ⟨hitDiscCfg, h⟩ ⟨min dec_tot.toNat 16, by omega⟩)
  else none

def addHit (col row : UInt16) (tot1 tot2 : UInt8) : Option Fei4Emu :=
  (emu.getToTCode tot1).bind fun code1 =>
    (emu.getToTCode tot2).map fun code2 => emu.addDataRecord col row code1 code2

/-! ## The loops over double columns -/

/-- The number of double columns from one that is addressed to the next. -/
def dc_step (cfg : Fei4GlobalCfg) : Nat :=
  match Colpr_Mode.value cfg with
  | 0 => 40
  | 1 => 4
  | 2 => 8
  | 3 => 1
  | _ => 40

/-- The indices of the loops; the remainder is taken before the address is added. -/
def columns (cfg : Fei4GlobalCfg) : List Nat :=
  (List.range (40 / dc_step cfg)).map fun i => Colpr_Addr.value cfg + dc_step cfg * i % 40

/-- A loop over double columns; `none`: an index from 40 on. -/
def overColumns {σ : Type} (dcs : List Nat) (body : Fin n_DC → σ → Option σ) (s : σ) : Option σ :=
  dcs.foldlM (fun s dc => if h : dc < n_DC then body ⟨dc, h⟩ s else none) s

/-! ## Commands -/

/-- All bits go up by one, across the words. -/
def shiftByOne (words : DoubleColumnBit) : DoubleColumnBit :=
  ((List.finRange n_Words).foldl (fun (s : DoubleColumnBit × UInt32) (j : Fin n_Words) =>
    let current_last_bit : UInt32 := if s.1[j] &&& 0x80000000 ≠ 0 then 1 else 0
    (s.1.set j ((s.1[j] <<< (1 : UInt32)) + s.2), current_last_bit)) (words, 0)).1

/-- Latch `j` is among those that a pulse copies from or to. -/
def strobes (cfg : Fei4GlobalCfg) (j : Fin 13) : Bool :=
  (Pixel_latch_strobe.value cfg).testBit j

def shiftColumn (dc : Fin n_DC) : Fei4Emu :=
  { emu with
    m_shiftRegisterBuffer :=
      emu.m_shiftRegisterBuffer.set dc (shiftByOne emu.m_shiftRegisterBuffer[dc]) }

def readLatches (dc : Fin n_DC) : Fei4Emu :=
  (List.finRange 13).foldl (fun emu j =>
    if strobes emu.cfg j then
      { emu with
        m_shiftRegisterBuffer :=
          emu.m_shiftRegisterBuffer.set dc ((Plane.bitReg j).get emu.pixels dc) }
    else emu) emu

def writeLatches (dc : Fin n_DC) : Fei4Emu :=
  (List.finRange 13).foldl (fun emu j =>
    if strobes emu.cfg j then
      { emu with
        pixels := (Plane.bitReg j).set emu.pixels dc emu.m_shiftRegisterBuffer[dc] }
    else emu) emu

/-- The first part of a pulse. -/
def Shifts (cfg : Fei4GlobalCfg) : Prop :=
  S0.value cfg = 0 ∧ S1.value cfg = 0 ∧ HitLD.value cfg = 0 ∧ SR_Clock.value cfg = 1

def ReadsLatches (cfg : Fei4GlobalCfg) : Prop :=
  S0.value cfg = 1 ∧ S1.value cfg = 1 ∧ HitLD.value cfg = 0 ∧ SR_Clock.value cfg = 1

def WritesLatches (cfg : Fei4GlobalCfg) : Prop :=
  S0.value cfg = 0 ∧ S1.value cfg = 0 ∧ HitLD.value cfg = 0 ∧ Latch_Enable.value cfg = 1

instance (cfg : Fei4GlobalCfg) : Decidable (Shifts cfg) := inferInstanceAs (Decidable (_ ∧ _))

instance (cfg : Fei4GlobalCfg) : Decidable (ReadsLatches cfg) :=
  inferInstanceAs (Decidable (_ ∧ _))

instance (cfg : Fei4GlobalCfg) : Decidable (WritesLatches cfg) :=
  inferInstanceAs (Decidable (_ ∧ _))

/-- A part of a pulse, if the registers ask for it. -/
def pulsePart (part : Fei4GlobalCfg → Prop) [DecidablePred part] (dcs : List Nat)
    (body : Fei4Emu → Fin n_DC → Fei4Emu) : Option Fei4Emu :=
  if part emu.cfg then overColumns dcs (fun dc emu => some (body emu dc)) emu else some emu

def globalPulseOver (dcs : List Nat) : Option Fei4Emu :=
  (emu.pulsePart Shifts dcs shiftColumn).bind fun emu =>
    (emu.pulsePart ReadsLatches dcs readLatches).bind fun emu =>
      emu.pulsePart WritesLatches dcs writeLatches

def handleGlobalPulse : Option Fei4Emu := emu.globalPulseOver (columns emu.cfg)

def handleRunMode (command : UInt32) : Fei4Emu := { emu with m_modeBits := command &&& 0x3F }

/-- `none`: there are 36 words. -/
def handleWrRegister (address value : UInt32) : Option Fei4Emu :=
  if h : address.toNat < numRegs then
    some { emu with cfg := emu.cfg.set address.toNat value.toUInt16 }
  else none

/-- The words come in reverse order. -/
def writeColumn (bitstream : DoubleColumnBit) (dc : Fin n_DC) : Fei4Emu :=
  { emu with m_shiftRegisterBuffer := emu.m_shiftRegisterBuffer.set dc bitstream.reverse }

def wrFrontEndOver (dcs : List Nat) (bitstream : DoubleColumnBit) : Option Fei4Emu :=
  overColumns dcs (fun dc emu => some (emu.writeColumn bitstream dc)) emu

def handleWrFrontEnd (bitstream : DoubleColumnBit) : Option Fei4Emu :=
  emu.wrFrontEndOver (columns emu.cfg) bitstream

/-- Column `dc * 2 + 1 + c` and a row counted from zero. -/
def pixelOf (dc : Fin n_DC) (row : Fin n_Row) (c : Fin 2) : Pixel where
  col := dc * 2 + 1 + c
  row := row + 1
  col_pos := by omega
  col_le := by
    have hdc : dc.val < 40 := dc.isLt
    have hc : c.val < 2 := c.isLt
    show dc.val * 2 + 1 + c.val ≤ 80
    omega
  row_pos := by omega
  row_le := row.isLt

/-- The hit of an enabled pixel. -/
def pixelHit (response : PixelResponse) (p : Pixel) : Option Fei4Emu :=
  if emu.pixels.getEn p ≠ 0 then
    let digital := DigHitIn_Sel.value emu.cfg ≠ 0
    let digital_tot : UInt32 := if digital then 10 else 0
    let analog_tot : UInt32 := if digital then 0 else
      response p
        { PlsrDAC := PlsrDAC.value emu.cfg
          SCap := emu.pixels.getSCap p
          LCap := emu.pixels.getLCap p
          Vthin_Fine := Vthin_Fine.value emu.cfg
          Vthin_Coarse := Vthin_Coarse.value emu.cfg
          TDAC := emu.pixels.getTDAC p }
    if digital_tot ≥ analog_tot then
      emu.addHit (UInt16.ofNat p.col) (UInt16.ofNat p.row) digital_tot.toUInt8 0
    else emu.addHit (UInt16.ofNat p.col) (UInt16.ofNat p.row) analog_tot.toUInt8 0
  else some emu

/-- The pixels of a double column, row by row. -/
def pixelsOf (dc : Fin n_DC) : List Pixel :=
  (List.finRange n_Row).flatMap fun row => (List.finRange 2).map fun c => pixelOf dc row c

def columnHits (response : PixelResponse) (dc : Fin n_DC) : Option Fei4Emu :=
  (pixelsOf dc).foldlM (fun emu p => emu.pixelHit response p) emu

/-- A header before the hits and `Trig_Count - 1` empty ones after them. -/
def triggerOver (dcs : List Nat) (response : PixelResponse) : Option Fei4Emu :=
  (overColumns dcs (fun dc emu => emu.columnHits response dc) (emu.addDataHeader false)).map
    fun emu => (List.range (Trig_Count.value emu.cfg - 1)).foldl (fun emu _ =>
      emu.addDataHeader false) emu

def handleTrigger (response : PixelResponse) : Option Fei4Emu :=
  emu.triggerOver (columns emu.cfg) response

/-! ## The loop -/

/-- The words of a bitstream from the ring buffer. -/
def readStream (words : List UInt32) : Option (DoubleColumnBit × List UInt32) :=
  if h : n_Words ≤ words.length then
    some (⟨(words.take n_Words).toArray, by simpa using h⟩, words.drop n_Words)
  else none

/-- A turn of the loop of `executeLoop` with the words of the ring buffer. `none`: an index
outside an array, or a command of which words are missing. -/
def executeTurn (response : PixelResponse) : List UInt32 → Option (Fei4Emu × List UInt32)
  | [] => some (emu, [])
  | command :: words =>
      let type := command >>> (14 : UInt32)
      if type = 0x7400 then (emu.handleTrigger response).map fun emu => (emu, words)
      else if type = 0x0168 then
        let name := (command >>> (10 : UInt32)) &&& 0xF
        let address := command &&& 0x3F
        if name = 2 then
          match words with
          | [] => none
          | value :: words =>
              (emu.handleWrRegister address (value >>> (16 : UInt32))).map fun emu => (emu, words)
        else if name = 4 then
          (readStream words).bind fun r =>
            (emu.handleWrFrontEnd r.1).map fun emu => (emu, r.2)
        else if name = 9 then emu.handleGlobalPulse.map fun emu => (emu, words)
        else if name = 10 then some (emu.handleRunMode command, words)
        else some (emu, words)
      else some (emu, words)

/-- One turn for each of the responses, those of the pixels if the turn finds a trigger. -/
def executeLoop (responses : List PixelResponse) (s : Fei4Emu × List UInt32) :
    Option (Fei4Emu × List UInt32) :=
  responses.foldlM (fun s response => s.1.executeTurn response s.2) s

end Fei4Emu

end Yarr.Fei4

/-!
## Which double columns a command addresses

The loops of the emulator are meant to go from the address in steps of the mode
around the forty double columns. As the remainder is taken of the steps only,
they leave the matrix unless the address is smaller than the step.
-/

namespace Yarr.Fei4

open Fei4Register

namespace Fei4Emu

/-- The double columns at the distance of the mode from the address. -/
def congruent (cfg : Fei4GlobalCfg) : List (Fin n_DC) :=
  (List.finRange n_DC).filter fun dc => dc % dc_step cfg = Colpr_Addr.value cfg % dc_step cfg

/-- No command uses an index from 40 on, and each goes once to every congruent double column. -/
structure AddressesCongruent (emu : Fei4Emu) : Prop where
  inside : ∀ dc ∈ columns emu.cfg, dc < n_DC
  globalPulse : emu.handleGlobalPulse = emu.globalPulseOver ((congruent emu.cfg).map Fin.val)
  wrFrontEnd : ∀ bitstream, emu.handleWrFrontEnd bitstream =
    emu.wrFrontEndOver ((congruent emu.cfg).map Fin.val) bitstream
  trigger : ∀ response, emu.handleTrigger response =
    emu.triggerOver ((congruent emu.cfg).map Fin.val) response

variable {cfg : Fei4GlobalCfg}

theorem dc_step_cases (cfg : Fei4GlobalCfg) :
    dc_step cfg = 40 ∨ dc_step cfg = 4 ∨ dc_step cfg = 8 ∨ dc_step cfg = 1 := by
  unfold dc_step
  split
  · exact Or.inl rfl
  · exact Or.inr (Or.inl rfl)
  · exact Or.inr (Or.inr (Or.inl rfl))
  · exact Or.inr (Or.inr (Or.inr rfl))
  · exact Or.inl rfl

theorem dc_step_mul (cfg : Fei4GlobalCfg) : dc_step cfg * (40 / dc_step cfg) = 40 := by
  rcases dc_step_cases cfg with h | h | h | h
  · rw [h]
  · rw [h]
  · rw [h]
  · rw [h]

theorem map_congruent (cfg : Fei4GlobalCfg) : (congruent cfg).map Fin.val =
    (List.range 40).filter fun dc => dc % dc_step cfg = Colpr_Addr.value cfg % dc_step cfg := by
  have hrange : (List.finRange n_DC).map Fin.val = List.range 40 := List.map_coe_finRange_eq_range
  rw [congruent, ← hrange, List.filter_map]
  rfl

/-- Below the first step no index wraps, so that the precedence does not matter. -/
theorem columns_eq (h : Colpr_Addr.value cfg < dc_step cfg) :
    columns cfg = (congruent cfg).map Fin.val := by
  have hstride := Stride.filter_range_mod h (40 / dc_step cfg)
  rw [dc_step_mul] at hstride
  rw [map_congruent, Nat.mod_eq_of_lt h, hstride, columns]
  apply List.map_congr_left
  intro i hi
  have hlt : dc_step cfg * i < 40 := by
    rw [← dc_step_mul cfg]
    exact Nat.mul_lt_mul_of_pos_left (List.mem_range.mp hi) (Nat.zero_lt_of_lt h)
  rw [Nat.mod_eq_of_lt hlt]

theorem last_mem_columns (cfg : Fei4GlobalCfg) :
    Colpr_Addr.value cfg + (40 - dc_step cfg) ∈ columns cfg := by
  rw [columns]
  apply List.mem_map.mpr
  rcases dc_step_cases cfg with h | h | h | h
  · exact ⟨0, by rw [h]; exact ⟨List.mem_range.mpr (by omega), rfl⟩⟩
  · exact ⟨9, by rw [h]; exact ⟨List.mem_range.mpr (by omega), rfl⟩⟩
  · exact ⟨4, by rw [h]; exact ⟨List.mem_range.mpr (by omega), rfl⟩⟩
  · exact ⟨39, by rw [h]; exact ⟨List.mem_range.mpr (by omega), rfl⟩⟩

theorem exists_outside (h : dc_step cfg ≤ Colpr_Addr.value cfg) :
    ∃ dc ∈ columns cfg, ¬ dc < n_DC := by
  have hout : ¬ Colpr_Addr.value cfg + (40 - dc_step cfg) < 40 := by
    rcases dc_step_cases cfg with hstep | hstep | hstep | hstep
    · omega
    · omega
    · omega
    · omega
  exact ⟨_, last_mem_columns cfg, hout⟩

variable (emu : Fei4Emu)

/-- The double columns addressed are those of the mode exactly if the address is below the step
of the mode. -/
theorem addressesCongruent_iff :
    emu.AddressesCongruent ↔ Colpr_Addr.value emu.cfg < dc_step emu.cfg := by
  constructor
  · intro hcong
    by_contra hstep
    obtain ⟨dc, hmem, hout⟩ := exists_outside (Nat.not_lt.mp hstep)
    exact hout (hcong.inside dc hmem)
  · intro hstep
    have hcolumns := columns_eq hstep
    exact
      { inside := by
          intro dc hmem
          rw [hcolumns] at hmem
          obtain ⟨dc, -, rfl⟩ := List.mem_map.mp hmem
          exact dc.isLt
        globalPulse := by rw [handleGlobalPulse, hcolumns]
        wrFrontEnd := fun bitstream => by rw [handleWrFrontEnd, hcolumns]
        trigger := fun response => by rw [handleTrigger, hcolumns] }

/-- An emulator with empty registers apart from those of the address. -/
def atAddress (mode addr : Nat) : Fei4Emu where
  cfg := Colpr_Addr.write (Colpr_Mode.write (Vector.replicate numRegs 0) mode) addr
  pixels :=
    { m_En := Vector.replicate n_DC (Vector.replicate n_Words 0)
      m_TDAC := Vector.replicate n_DC ⟨Vector.replicate 5 (Vector.replicate n_Words 0)⟩
      m_LCap := Vector.replicate n_DC (Vector.replicate n_Words 0)
      m_SCap := Vector.replicate n_DC (Vector.replicate n_Words 0)
      m_Hitbus := Vector.replicate n_DC (Vector.replicate n_Words 0)
      m_FDAC := Vector.replicate n_DC ⟨Vector.replicate 4 (Vector.replicate n_Words 0)⟩ }
  m_shiftRegisterBuffer := Vector.replicate n_DC (Vector.replicate n_Words 0)
  m_modeBits := 0
  m_feId := 0
  m_l1IdCnt := 0
  m_bcIdCnt := 0
  m_rxRingBuffer := []

/-- In steps of four from double column 4 on, the tenth index is 40. -/
theorem column_forty_addressed :
    Colpr_Addr.value (atAddress 1 4).cfg < 40 ∧ ¬(atAddress 1 4).AddressesCongruent := by
  have hmem : 40 ∈ columns (atAddress 1 4).cfg := by decide +kernel
  exact ⟨by decide +kernel, fun h => absurd (h.inside 40 hmem) (Nat.lt_irrefl 40)⟩

end Fei4Emu

end Yarr.Fei4
