import Mathlib.Data.Fintype.Card
import Mathlib.Data.List.Find
import Mathlib.Data.List.Nodup
import Yarr.Core.Maps
import Yarr.Star.StarCfg

/-!
# Writes to registers

What a write changes in the registers of an ABC, and what the search for an ABC
gives after one of them is replaced.
-/

namespace Yarr.Star

namespace AbcCfg

variable (abc : AbcCfg)

/-- A register has been written. -/
def written (addr : Nat) (val : UInt32) : AbcCfg :=
  { abc with registers := ⟨Function.update abc.registers.value addr val⟩ }

theorem setRegisterValue_eq {addr : Nat} (haddr : addr ∈ abcAddresses abc.version_1)
    (val : UInt32) : abc.setRegisterValue addr val = .ok (abc.written addr val) := by
  unfold setRegisterValue RegisterSet.set
  rw [if_pos haddr]
  rfl

theorem written_id (addr : Nat) (val : UInt32) : (abc.written addr val).m_abcID = abc.m_abcID := rfl

theorem written_self (addr : Nat) (val : UInt32) :
    (abc.written addr val).registers.value addr = val := Function.update_self _ _ _

theorem written_ne {addr addr' : Nat} (h : addr' ≠ addr) (val : UInt32) :
    (abc.written addr val).registers.value addr' = abc.registers.value addr' :=
  Function.update_of_ne h _ _

/-- Registers have been written one after the other. -/
def writtenAll (writes : List (Nat × UInt32)) : AbcCfg :=
  writes.foldl (fun abc w => abc.written w.1 w.2) abc

theorem writtenAll_value (f : Nat → UInt32) {writes : List (Nat × UInt32)}
    (h : ∀ w ∈ writes, w.2 = f w.1) (addr : Nat) :
    (abc.writtenAll writes).registers.value addr =
      if addr ∈ writes.map Prod.fst then f addr else abc.registers.value addr := by
  induction writes generalizing abc with
  | nil => rfl
  | cons w writes ih =>
      have hrest := ih (abc.written w.1 w.2) fun w' hw' => h w' (List.mem_cons_of_mem w hw')
      have hfirst := h w List.mem_cons_self
      rw [List.map_cons]
      apply hrest.trans
      by_cases hlater : addr ∈ writes.map Prod.fst
      · rw [if_pos hlater, if_pos (List.mem_cons_of_mem _ hlater)]
      · rw [if_neg hlater]
        by_cases hhere : addr = w.1
        · subst hhere
          rw [if_pos List.mem_cons_self, ← hfirst]
          exact Function.update_self _ _ _
        · have hnot : ¬addr ∈ w.1 :: List.map Prod.fst writes :=
            List.not_mem_cons_of_ne_of_not_mem hhere hlater
          rw [if_neg hnot]
          exact Function.update_of_ne hhere _ _

end AbcCfg

namespace StarCfg

variable (cfg : StarCfg)

theorem eq_of_channel {it it' : Fin MaxABCsPerHCC × AbcCfg} (hit : it ∈ cfg.m_ABCchips)
    (hit' : it' ∈ cfg.m_ABCchips) (hchannel : it.1 = it'.1) : it = it' := by
  have hnodup : (cfg.m_ABCchips.map Prod.fst).Nodup := by
    apply List.Pairwise.imp _ cfg.sorted
    exact fun hlt heq => Nat.ne_of_lt hlt (congrArg Fin.val heq)
  exact List.inj_on_of_nodup_map hnodup hit hit' hchannel

theorem findABC_id {chipID : Nat} {it : Fin MaxABCsPerHCC × AbcCfg}
    (hfind : cfg.findABC chipID = some it) : it.2.m_abcID = chipID := by
  unfold findABC at hfind
  have hbeq := List.find?_some hfind
  exact eq_of_beq hbeq

theorem findABC_replaceABC {chipID : Nat} {it : Fin MaxABCsPerHCC × AbcCfg}
    (hfind : cfg.findABC chipID = some it) {abc : AbcCfg} (hid : abc.m_abcID = it.2.m_abcID)
    (chipID' : Nat) : (cfg.replaceABC it.1 abc).findABC chipID' =
      if chipID' = chipID then some (it.1, abc) else cfg.findABC chipID' := by
  have hmem : it ∈ cfg.m_ABCchips := List.mem_of_find?_eq_some hfind
  have hown := cfg.findABC_id hfind
  have hsame : ∀ it' ∈ cfg.m_ABCchips, ((if it'.1 = it.1 then (it'.1, abc) else it').2.getABCchipID
      == chipID') = (it'.2.getABCchipID == chipID') := by
    intro it' hit'
    by_cases hchannel : it'.1 = it.1
    · have heq := cfg.eq_of_channel hit' hmem hchannel
      rw [if_pos hchannel, heq]
      show (abc.m_abcID == chipID') = (it.2.m_abcID == chipID')
      rw [hid]
    · rw [if_neg hchannel]
  have hmap : (cfg.replaceABC it.1 abc).findABC chipID' = (cfg.findABC chipID').map fun it' =>
      if it'.1 = it.1 then (it'.1, abc) else it' := by
    unfold findABC replaceABC
    rw [List.find?_map]
    have hsearch := List.find?_congr hsame
    exact congrArg (Option.map _) hsearch
  rw [hmap]
  by_cases hchip : chipID' = chipID
  · rw [if_pos hchip, hchip, hfind, Option.map_some, if_pos rfl]
  · rw [if_neg hchip]
    cases hfind' : cfg.findABC chipID' with
    | none => rfl
    | some it' =>
        have hown' := cfg.findABC_id hfind'
        have hne : it'.1 ≠ it.1 := by
          intro heq
          have hsame' := cfg.eq_of_channel (List.mem_of_find?_eq_some hfind') hmem heq
          rw [hsame', hown] at hown'
          exact hchip hown'.symm
        rw [Option.map_some, if_neg hne]

end StarCfg

end Yarr.Star

/-!
## `StarCfg::writeConfig`

The configuration of an ABC goes to the arrays of the JSON file, at the slot
that the ABC has in the histograms. Register values that all ABCs have in common
are written once.
-/

namespace Yarr.Star

/-! ## Reading an ABC -/

namespace ABCStarRegister

def SCReg : Nat := 0
def MaskInput7 : Nat := 23
def TrimDAC0 : Nat := 64
def TrimDAC32 : Nat := 96
def TrimDAC39 : Nat := 103
def CalREG7 : Nat := 111

end ABCStarRegister

namespace AbcCfg

variable (abc : AbcCfg)

/-- The registers for trims and masks are in all versions. -/
def getTrimDACRaw (channel : Nat) : Nat :=
  let lo_reg_value := abc.registers.value (ABCStarRegister.TrimDAC0 + channel / 8)
  let hi_reg_value := abc.registers.value (ABCStarRegister.TrimDAC32 + channel / 32)
  let lo_val := (lo_reg_value.toNat >>> (channel * 4 % 32)) &&& 0xf
  let hi_val := (hi_reg_value.toNat >>> (channel % 32)) &&& 1
  (hi_val <<< 4) ||| lo_val

def isMasked (channel : Nat) : Bool :=
  let maskIndex := ((channel &&& 0x7f) <<< 1) ||| ((channel &&& 0x80) >>> 7)
  let maskValue := abc.registers.value (ABCStarRegister.MaskInput0 + ((maskIndex >>> 5) &&& 7))
  maskValue.toNat.testBit (maskIndex &&& 0x1f)

end AbcCfg

/-- The trims of an ABC, once for all strips or one for each. -/
inductive Trims where
  | same (trim : Nat)
  | each (trims : List Nat)
  deriving DecidableEq, Repr

/-- The value of a register, by its address instead of its name. -/
abbrev RegValues := Nat → Option UInt32

/-- `j["ABCs"]`. A null in `regs` stands for no values. -/
structure AbcsJson where
  IDs : SparseArray Nat
  masked : SparseArray (List Nat)
  trims : SparseArray Trims
  regs : SparseArray RegValues
  common : RegValues

/-! ## One ABC -/

/-- Registers that are not written: read-only ones, and those for trims and masks. -/
def skipped (reg : Nat) : Bool :=
  reg == ABCStarRegister.SCReg ||
    (ABCStarRegister.MaskInput0 ≤ reg && reg ≤ ABCStarRegister.MaskInput7) ||
    (ABCStarRegister.CalREG0 ≤ reg && reg ≤ ABCStarRegister.CalREG7) ||
    (ABCStarRegister.STAT0 ≤ reg && reg ≤ ABCStarRegister.HPR) ||
    (ABCStarRegister.TrimDAC0 ≤ reg && reg ≤ ABCStarRegister.TrimDAC39) ||
    ABCStarRegister.HitCountREG0 ≤ reg

def writtenRegs (version_1 : Bool) : List Nat := (abcAddresses version_1).filter (!skipped ·)

/-- The file and, until the end, the values of all registers at their slots. -/
structure Writing where
  j : AbcsJson
  regs : List RegValues

/-- What is common so far: the values of the lowest ABC without those that another one has not. -/
def updateCommon (common : RegValues) (isLowest : Bool) (reg : Nat) (val : UInt32) : RegValues :=
  if isLowest then Function.update common reg (some val)
  else
    match common reg with
    | some other => if other ≠ val then Function.update common reg none else common
    | none => common

/-- An element of the vector that is not there is used all the same. -/
def writeReg (histo_index : Nat) (isLowest : Bool) (abc : AbcCfg) (w : Writing) (reg : Nat) :
    Except Failure Writing := do
  let val ← abc.getRegisterValue reg
  match w.regs[histo_index]? with
  | none => .error .endIterator
  | some values =>
      return {
        j := { w.j with common := updateCommon w.j.common isLowest reg val }
        regs := w.regs.set histo_index (Function.update values reg (some val)) }

def StripsPerABC : Nat := 256

def strips : List Nat := List.range StripsPerABC

/-- Trims and masks. -/
def writeStrips (histo_index : Nat) (abc : AbcCfg) (w : Writing) : Writing :=
  let trims := strips.map abc.getTrimDACRaw
  let sameTrims := trims.all (· == abc.getTrimDACRaw 0)
  { w with
    j := { w.j with
      masked := (strips.filter abc.isMasked).foldl
        (fun a m => a.assign histo_index ((a.at? histo_index).getD [] ++ [m])) w.j.masked
      trims := w.j.trims.assign histo_index
        (if sameTrims then .same (abc.getTrimDACRaw 0) else .each trims) } }

def writeABC (chip_map : ChipMap) (lowestABC : Option (Fin MaxABCsPerHCC)) (w : Writing)
    (it : Fin MaxABCsPerHCC × AbcCfg) : Except Failure Writing := do
  let histo_index := chip_map it.1
  if histo_index = HCC_INPUT_CHANNEL_BAD_SLOT then return w
  else
    let w := { w with j := { w.j with IDs := w.j.IDs.assign histo_index it.2.getABCchipID } }
    let w ← (writtenRegs it.2.version_1).foldlM
      (writeReg histo_index (lowestABC == some it.1) it.2) w
    return writeStrips histo_index it.2 w

/-! ## All ABCs -/

/-- `HCCStarSubRegister::ICENABLE`. -/
def ICENABLE : SubRegisterInfo := ⟨40, 0, 11⟩

def HccCfg.getSubRegisterValue (hcc : HccCfg) (info : SubRegisterInfo) : Except Failure Nat :=
  (hcc.registers.get info.m_regAddress).map fun reg => info.getValue reg.toNat

namespace StarCfg

variable (cfg : StarCfg)

def highestABC : Option (Fin MaxABCsPerHCC) := cfg.m_ABCchips.getLast?.map Prod.fst

def lowestABC : Option (Fin MaxABCsPerHCC) := cfg.m_ABCchips.head?.map Prod.fst

/-- `highestABC() + 1`. -/
def regsSize : Nat := cfg.highestABC.elim 0 fun ic => ic.val + 1

/-- Values that are not common go to their slots. -/
def writeOwn (w : Writing) : AbcsJson :=
  { w.j with
    regs := w.regs.map fun values => some fun reg =>
      if (w.j.common reg).isSome then none else values reg }

/-- The ABCs in a new file. -/
def writeConfig : Except Failure AbcsJson := do
  let input_enables ← cfg.hcc.getSubRegisterValue ICENABLE
  let chip_map := HccCfg.histoChipMap cfg.hcc.version_1 input_enables
  let empty : AbcsJson := { IDs := [], masked := [], trims := [], regs := [], common := fun _ => none }
  let w ← cfg.m_ABCchips.foldlM (writeABC chip_map cfg.lowestABC)
    { j := empty, regs := List.replicate cfg.regsSize fun _ => none }
  return writeOwn w

end StarCfg

end Yarr.Star

/-!
## ABCs by channel and by histogram slot

The slots of a histogram go to input channels, and a channel has one ABC or
none.
-/

namespace Yarr.Star

namespace StarCfg

variable (cfg : StarCfg)

def numABCs : Nat := cfg.m_ABCchips.length

/-- `hcc().histoChipMap()`. The register with ICENABLE is in all versions. -/
def chip_map : ChipMap :=
  HccCfg.histoChipMap cfg.hcc.version_1
    (ICENABLE.getValue (cfg.hcc.registers.value ICENABLE.m_regAddress).toNat)

/-- The first channel with the slot, where the source returns -1 if there is none. -/
def inputChannelForHistoChip (histo_abc : Nat) : Option (Fin MaxABCsPerHCC) :=
  (List.finRange MaxABCsPerHCC).find? fun ic => cfg.chip_map ic == histo_abc

def isAbcForHistoChip (histo_chip : Nat) : Bool := (cfg.inputChannelForHistoChip histo_chip).isSome

/-- `m_ABCchips.find`. -/
def abcAt (ic : Fin MaxABCsPerHCC) : Option AbcCfg :=
  (cfg.m_ABCchips.find? fun it => decide (it.1 = ic)).map Prod.snd

def isAbcForInputChannel (ic : Fin MaxABCsPerHCC) : Bool := (cfg.abcAt ic).isSome

def abcForInputChannel (ic : Fin MaxABCsPerHCC) : Except Failure AbcCfg :=
  match cfg.abcAt ic with
  | some abc => .ok abc
  | none => .error .outOfRange

/-- The ABC and its channel, through which it can be changed. -/
def abcForHistoChip (histo_chip : Nat) : Except Failure (Fin MaxABCsPerHCC × AbcCfg) :=
  match cfg.inputChannelForHistoChip histo_chip with
  | some ic => (cfg.abcForInputChannel ic).map fun abc => (ic, abc)
  | none => .error .outOfRange

/-! ## Slots and channels -/

theorem numABCs_le : cfg.numABCs ≤ MaxABCsPerHCC := by
  have hnodup : (cfg.m_ABCchips.map Prod.fst).Nodup := by
    apply List.Pairwise.imp _ cfg.sorted
    exact fun hlt heq => Nat.ne_of_lt hlt (congrArg Fin.val heq)
  have hle := List.Nodup.length_le_card hnodup
  rwa [List.length_map, Fintype.card_fin] at hle

theorem chip_map_of_inputChannel {k : Nat} {ic : Fin MaxABCsPerHCC}
    (h : cfg.inputChannelForHistoChip k = some ic) : cfg.chip_map ic = k :=
  eq_of_beq (List.find?_some (p := fun ic => cfg.chip_map ic == k) h)

/-! ## Replacing an ABC -/

@[simp] theorem chip_map_replaceABC (ic : Fin MaxABCsPerHCC) (abc : AbcCfg) :
    (cfg.replaceABC ic abc).chip_map = cfg.chip_map := rfl

@[simp] theorem inputChannel_replaceABC (ic : Fin MaxABCsPerHCC) (abc : AbcCfg) (k : Nat) :
    (cfg.replaceABC ic abc).inputChannelForHistoChip k = cfg.inputChannelForHistoChip k := rfl

@[simp] theorem numABCs_replaceABC (ic : Fin MaxABCsPerHCC) (abc : AbcCfg) :
    (cfg.replaceABC ic abc).numABCs = cfg.numABCs := List.length_map ..

theorem abcAt_replaceABC (ic : Fin MaxABCsPerHCC) (abc : AbcCfg) (jc : Fin MaxABCsPerHCC) :
    (cfg.replaceABC ic abc).abcAt jc =
      (cfg.abcAt jc).map fun old => if jc = ic then abc else old := by
  unfold abcAt replaceABC
  dsimp only
  rw [List.find?_map]
  have hkeys : ((fun it : Fin MaxABCsPerHCC × AbcCfg => decide (it.1 = jc)) ∘
      fun it => if it.1 = ic then (it.1, abc) else it) = fun it => decide (it.1 = jc) := by
    funext it
    simp only [Function.comp_apply]
    split <;> rfl
  rw [hkeys, Option.map_map, Option.map_map]
  cases hfind : cfg.m_ABCchips.find? fun it => decide (it.1 = jc) with
  | none => rfl
  | some it =>
      have hit : it.1 = jc := of_decide_eq_true
        (List.find?_some (p := fun it : Fin MaxABCsPerHCC × AbcCfg => decide (it.1 = jc)) hfind)
      simp only [Option.map_some, Function.comp_apply, hit]
      split <;> rfl

end StarCfg

end Yarr.Star

/-!
## Channels and IDs

Which ABC is found through a channel, and which channel is found through the
ID of an ABC.
-/

namespace Yarr.Star

namespace StarCfg

variable (cfg : StarCfg)

/-- The channel and the ID of each ABC. -/
def chipIDs : List (Fin MaxABCsPerHCC × Nat) := cfg.m_ABCchips.map fun it => (it.1, it.2.m_abcID)

def idAt (ic : Fin MaxABCsPerHCC) : Option Nat :=
  (cfg.chipIDs.find? fun it => decide (it.1 = ic)).map Prod.snd

def channelOf (chipID : Nat) : Option (Fin MaxABCsPerHCC) :=
  (cfg.chipIDs.find? fun it => it.2 == chipID).map Prod.fst

theorem idAt_eq (ic : Fin MaxABCsPerHCC) : cfg.idAt ic = (cfg.abcAt ic).map AbcCfg.m_abcID := by
  unfold idAt abcAt chipIDs
  rw [List.find?_map, Option.map_map, Option.map_map]
  rfl

theorem channelOf_eq (chipID : Nat) :
    cfg.channelOf chipID = (cfg.findABC chipID).map Prod.fst := by
  unfold channelOf findABC chipIDs
  rw [List.find?_map, Option.map_map]
  rfl

/-! ## Membership -/

theorem mem_of_abcAt {ic : Fin MaxABCsPerHCC} {abc : AbcCfg} (h : cfg.abcAt ic = some abc) :
    (ic, abc) ∈ cfg.m_ABCchips := by
  rcases Option.map_eq_some_iff.mp h with ⟨it, hfind, hit⟩
  have hic : it.1 = ic := of_decide_eq_true
    (List.find?_some (p := fun it : Fin MaxABCsPerHCC × AbcCfg => decide (it.1 = ic)) hfind)
  have hmem := List.mem_of_find?_eq_some hfind
  rw [← hic, ← hit]
  exact hmem

theorem abcAt_of_mem {it : Fin MaxABCsPerHCC × AbcCfg} (h : it ∈ cfg.m_ABCchips) :
    cfg.abcAt it.1 = some it.2 := by
  have hfound : (cfg.m_ABCchips.find? fun it' => decide (it'.1 = it.1)).isSome := by
    rw [List.find?_isSome]
    exact ⟨it, h, decide_eq_true rfl⟩
  rcases Option.isSome_iff_exists.mp hfound with ⟨it', hit'⟩
  have hchannel : it'.1 = it.1 := of_decide_eq_true
    (List.find?_some (p := fun it' : Fin MaxABCsPerHCC × AbcCfg => decide (it'.1 = it.1)) hit')
  have hsame := cfg.eq_of_channel (List.mem_of_find?_eq_some hit') h hchannel
  unfold abcAt
  rw [hit', hsame]
  rfl

theorem findABC_of_mem {it : Fin MaxABCsPerHCC × AbcCfg} (h : it ∈ cfg.m_ABCchips) :
    ∃ it', cfg.findABC it.2.m_abcID = some it' := by
  apply Option.isSome_iff_exists.mp
  unfold findABC
  rw [List.find?_isSome]
  exact ⟨it, h, beq_self_eq_true _⟩

theorem abcAt_of_findABC {chipID : Nat} {it : Fin MaxABCsPerHCC × AbcCfg}
    (h : cfg.findABC chipID = some it) : cfg.abcAt it.1 = some it.2 :=
  cfg.abcAt_of_mem (List.mem_of_find?_eq_some h)

/-! ## Replacing an ABC -/

theorem chipIDs_replaceABC {ic : Fin MaxABCsPerHCC} {abc old : AbcCfg}
    (hat : cfg.abcAt ic = some old) (hid : abc.m_abcID = old.m_abcID) :
    (cfg.replaceABC ic abc).chipIDs = cfg.chipIDs := by
  unfold chipIDs replaceABC
  rw [List.map_map]
  apply List.map_congr_left
  intro it hit
  simp only [Function.comp_apply]
  by_cases hic : it.1 = ic
  · have hold := cfg.abcAt_of_mem hit
    rw [hic, hat] at hold
    rw [if_pos hic, hid, Option.some_inj.mp hold]
  · rw [if_neg hic]

theorem abcAt_replaceABC_self {ic : Fin MaxABCsPerHCC} {old : AbcCfg} (hat : cfg.abcAt ic = some old)
    (abc : AbcCfg) : (cfg.replaceABC ic abc).abcAt ic = some abc := by
  rw [cfg.abcAt_replaceABC, hat, Option.map_some, if_pos rfl]

theorem abcAt_replaceABC_ne {ic jc : Fin MaxABCsPerHCC} (hne : jc ≠ ic) (abc : AbcCfg) :
    (cfg.replaceABC ic abc).abcAt jc = cfg.abcAt jc := by
  rw [cfg.abcAt_replaceABC]
  cases cfg.abcAt jc with
  | none => rfl
  | some old => rw [Option.map_some, if_neg hne]

theorem channels_of_chipIDs : cfg.chipIDs.map Prod.fst = cfg.m_ABCchips.map Prod.fst :=
  List.map_map ..

end StarCfg

section Congruence

variable {cfg cfg' : StarCfg} (h : cfg'.chipIDs = cfg.chipIDs)

include h

theorem StarCfg.idAt_congr (ic : Fin MaxABCsPerHCC) : cfg'.idAt ic = cfg.idAt ic := by
  unfold idAt
  rw [h]

theorem StarCfg.channelOf_congr (chipID : Nat) : cfg'.channelOf chipID = cfg.channelOf chipID := by
  unfold channelOf
  rw [h]

theorem StarCfg.numABCs_congr : cfg'.numABCs = cfg.numABCs := by
  have hlength := congrArg List.length h
  unfold chipIDs at hlength
  rwa [List.length_map, List.length_map] at hlength

theorem StarCfg.channels_congr : cfg'.m_ABCchips.map Prod.fst = cfg.m_ABCchips.map Prod.fst := by
  rw [← cfg'.channels_of_chipIDs, h, cfg.channels_of_chipIDs]

end Congruence

end Yarr.Star
