import Mathlib.Logic.Function.Basic
import Yarr.Star.StarDataProcessor

/-!
# `HccCfg::histoChipMap`

Each enabled input channel of an HCCStar has a histogram slot of its own.
-/

namespace Yarr.Star

namespace HccCfg

/-- The order in which channels get their slots: ascending, reversed on the first version. -/
def slotOrder (version_1 : Bool) : List (Fin MaxABCsPerHCC) :=
  (List.finRange MaxABCsPerHCC).map fun index => if version_1 then index else index.rev

/-- One channel of the loop: the map so far and the next free slot. -/
def assignSlot (input_enables : Nat) (s : ChipMap × Nat) (ic : Fin MaxABCsPerHCC) : ChipMap × Nat :=
  if (1 <<< ic.val) &&& input_enables ≠ 0 then (Function.update s.1 ic s.2, s.2 + 1) else s

/-- `input_enables` is the sub-register ICENABLE. -/
def histoChipMap (version_1 : Bool) (input_enables : Nat) : ChipMap :=
  ((slotOrder version_1).foldl (assignSlot input_enables)
    (fun _ => HCC_INPUT_CHANNEL_BAD_SLOT, 0)).1

theorem enabled_iff (input_enables : Nat) (ic : Nat) :
    (1 <<< ic) &&& input_enables ≠ 0 ↔ input_enables.testBit ic = true := by
  rw [Nat.one_shiftLeft, Nat.two_pow_and]
  cases input_enables.testBit ic <;> simp

/-- The slots below `offset` are given to channels of `done`, each to one. -/
structure Assigned (input_enables : Nat) (done : List (Fin MaxABCsPerHCC)) (m : ChipMap)
    (offset : Nat) : Prop where
  count : offset ≤ done.length
  slot : ∀ ic, m ic = HCC_INPUT_CHANNEL_BAD_SLOT ∨ m ic < offset
  enabled : ∀ ic ∈ done, input_enables.testBit ic.val = true → m ic < offset
  disabled : ∀ ic, ic ∉ done ∨ input_enables.testBit ic.val = false →
    m ic = HCC_INPUT_CHANNEL_BAD_SLOT
  distinct : ∀ ic jc, m ic < offset → m ic = m jc → ic = jc

theorem Assigned.step {input_enables : Nat} {done : List (Fin MaxABCsPerHCC)} {m : ChipMap}
    {offset : Nat} (h : Assigned input_enables done m offset) (ic : Fin MaxABCsPerHCC)
    (hnew : ic ∉ done) (hroom : done.length < MaxABCsPerHCC) :
    Assigned input_enables (done ++ [ic]) (assignSlot input_enables (m, offset) ic).1
      (assignSlot input_enables (m, offset) ic).2 := by
  have hcount := h.count
  have hfree : offset < HCC_INPUT_CHANNEL_BAD_SLOT := by
    have hmax : MaxABCsPerHCC = 11 := rfl
    have hbad : HCC_INPUT_CHANNEL_BAD_SLOT = 15 := rfl
    omega
  by_cases hbit : input_enables.testBit ic.val = true
  · have hassign : assignSlot input_enables (m, offset) ic =
        (Function.update m ic offset, offset + 1) := if_pos ((enabled_iff _ _).2 hbit)
    rw [hassign]
    show Assigned input_enables (done ++ [ic]) (Function.update m ic offset) (offset + 1)
    have hold : ∀ jc, jc ≠ ic → Function.update m ic offset jc = m jc := fun jc hne =>
      Function.update_of_ne hne _ _
    have hself : Function.update m ic offset ic = offset := Function.update_self _ _ _
    constructor
    · simp only [List.length_append, List.length_singleton]
      omega
    · intro jc
      by_cases hj : jc = ic
      · subst hj
        rw [hself]
        exact .inr (Nat.lt_succ_self _)
      · rw [hold jc hj]
        rcases h.slot jc with hs | hs
        · exact .inl hs
        · exact .inr (Nat.lt_succ_of_lt hs)
    · intro jc hmem hj
      by_cases heq : jc = ic
      · subst heq
        rw [hself]
        exact Nat.lt_succ_self _
      · rw [hold jc heq]
        have hdone : jc ∈ done := by simpa [heq] using hmem
        exact Nat.lt_succ_of_lt (h.enabled jc hdone hj)
    · intro jc hj
      have heq : jc ≠ ic := by
        rintro rfl
        rcases hj with hj | hj
        · exact hj (by simp)
        · rw [hbit] at hj
          cases hj
      rw [hold jc heq]
      refine h.disabled jc (hj.imp_left ?_)
      intro hj hmem
      exact hj (List.mem_append_left _ hmem)
    · intro jc kc hlt heq
      by_cases hj : jc = ic
      · by_cases hk : kc = ic
        · rw [hj, hk]
        · rw [hj, hself, hold kc hk] at heq
          rcases h.slot kc with hs | hs <;> omega
      · rw [hold jc hj] at hlt heq
        by_cases hk : kc = ic
        · rw [hk, hself] at heq
          rcases h.slot jc with hs | hs <;> omega
        · rw [hold kc hk] at heq
          rcases h.slot jc with hs | hs
          · omega
          · exact h.distinct jc kc hs heq
  · have hoff : input_enables.testBit ic.val = false := by simpa using hbit
    have hassign : assignSlot input_enables (m, offset) ic = (m, offset) :=
      if_neg (fun hne => hbit ((enabled_iff _ _).1 hne))
    rw [hassign]
    show Assigned input_enables (done ++ [ic]) m offset
    constructor
    · simp only [List.length_append, List.length_singleton]
      omega
    · exact h.slot
    · intro jc hmem hj
      have heq : jc ≠ ic := by
        rintro rfl
        exact hbit hj
      exact h.enabled jc (by simpa [heq] using hmem) hj
    · intro jc hj
      by_cases heq : jc = ic
      · exact h.disabled jc (.inr (heq ▸ hoff))
      · refine h.disabled jc (hj.imp_left ?_)
        intro hj hmem
        exact hj (List.mem_append_left _ hmem)
    · exact h.distinct

theorem Assigned.run {input_enables : Nat} (rest : List (Fin MaxABCsPerHCC))
    {done : List (Fin MaxABCsPerHCC)} {m : ChipMap} {offset : Nat}
    (h : Assigned input_enables done m offset) (hnodup : (done ++ rest).Nodup)
    (hlen : (done ++ rest).length ≤ MaxABCsPerHCC) :
    Assigned input_enables (done ++ rest)
      (rest.foldl (assignSlot input_enables) (m, offset)).1
      (rest.foldl (assignSlot input_enables) (m, offset)).2 := by
  induction rest generalizing done m offset with
  | nil => simpa using h
  | cons ic rest ih =>
      have hnew : ic ∉ done := by
        intro hmem
        have hdisjoint := (List.nodup_append.1 hnodup).2.2
        exact hdisjoint ic hmem ic (by simp) rfl
      have hroom : done.length < MaxABCsPerHCC := by
        simp only [List.length_append, List.length_cons] at hlen
        omega
      have hstep := h.step ic hnew hroom
      have hsplit : done ++ ic :: rest = (done ++ [ic]) ++ rest := by simp
      rw [hsplit] at hnodup hlen ⊢
      exact ih hstep hnodup hlen

theorem histoChipMap_assigned (version_1 : Bool) (input_enables : Nat) :
    ∃ offset, offset ≤ MaxABCsPerHCC ∧
      Assigned input_enables (slotOrder version_1) (histoChipMap version_1 input_enables)
        offset := by
  have hstart : Assigned input_enables [] (fun _ => HCC_INPUT_CHANNEL_BAD_SLOT) 0 := by
    constructor <;> simp
  have hnodup : (slotOrder version_1).Nodup := by cases version_1 <;> decide
  have hlen : (slotOrder version_1).length = MaxABCsPerHCC := by simp [slotOrder]
  have hrun := hstart.run (slotOrder version_1) (by simpa using hnodup)
    (by simpa using Nat.le_of_eq hlen)
  rw [List.nil_append] at hrun
  have hcount := hrun.count
  rw [hlen] at hcount
  exact ⟨_, hcount, hrun⟩

theorem mem_slotOrder (version_1 : Bool) (ic : Fin MaxABCsPerHCC) : ic ∈ slotOrder version_1 := by
  revert ic
  cases version_1 <;> decide

theorem histoChipMap_eq_bad_iff (version_1 : Bool) (input_enables : Nat)
    (ic : Fin MaxABCsPerHCC) :
    histoChipMap version_1 input_enables ic = HCC_INPUT_CHANNEL_BAD_SLOT ↔
      input_enables.testBit ic.val = false := by
  obtain ⟨offset, hle, h⟩ := histoChipMap_assigned version_1 input_enables
  constructor
  · intro hbad
    by_contra hon
    have hlt := h.enabled ic (mem_slotOrder version_1 ic) (by simpa using hon)
    have hmax : MaxABCsPerHCC = 11 := rfl
    have hslot : HCC_INPUT_CHANNEL_BAD_SLOT = 15 := rfl
    omega
  · intro hoff
    exact h.disabled ic (.inr hoff)

theorem histoChipMap_lt {version_1 : Bool} {input_enables : Nat} {ic : Fin MaxABCsPerHCC}
    (hon : input_enables.testBit ic.val = true) :
    histoChipMap version_1 input_enables ic < MaxABCsPerHCC := by
  obtain ⟨offset, hle, h⟩ := histoChipMap_assigned version_1 input_enables
  exact Nat.lt_of_lt_of_le (h.enabled ic (mem_slotOrder version_1 ic) hon) hle

theorem histoChipMap_injective {version_1 : Bool} {input_enables : Nat}
    {ic jc : Fin MaxABCsPerHCC} (hon : input_enables.testBit ic.val = true)
    (heq : histoChipMap version_1 input_enables ic = histoChipMap version_1 input_enables jc) :
    ic = jc := by
  obtain ⟨offset, _, h⟩ := histoChipMap_assigned version_1 input_enables
  exact h.distinct ic jc (h.enabled ic (mem_slotOrder version_1 ic) hon) heq

/-! ## Counting slots -/

theorem foldl_assignSlot_of_not_mem (input_enables : Nat) (order : List (Fin MaxABCsPerHCC))
    (s : ChipMap × Nat) {ic : Fin MaxABCsPerHCC} (hnot : ic ∉ order) :
    (order.foldl (assignSlot input_enables) s).1 ic = s.1 ic := by
  induction order generalizing s with
  | nil => rfl
  | cons jc order ih =>
      have hne : ic ≠ jc := fun h => hnot (h ▸ List.mem_cons_self)
      rw [List.foldl_cons, ih _ fun h => hnot (List.mem_cons_of_mem _ h)]
      unfold assignSlot
      split
      · exact Function.update_of_ne hne _ _
      · rfl

theorem foldl_assignSlot_offset (input_enables : Nat) (order : List (Fin MaxABCsPerHCC))
    (s : ChipMap × Nat) : (order.foldl (assignSlot input_enables) s).2 =
      s.2 + order.countP fun jc => input_enables.testBit jc.val := by
  induction order generalizing s with
  | nil => rfl
  | cons jc order ih =>
      rw [List.foldl_cons, ih, List.countP_cons]
      unfold assignSlot
      by_cases hon : input_enables.testBit jc.val = true
      · rw [if_pos ((enabled_iff _ _).2 hon), if_pos hon]
        show s.2 + 1 + _ = _
        omega
      · rw [if_neg fun h => hon ((enabled_iff _ _).1 h), if_neg hon]
        rfl

theorem histoChipMap_eq_countP {version_1 : Bool} {input_enables : Nat} {ic : Fin MaxABCsPerHCC}
    (hon : input_enables.testBit ic.val = true) {before after : List (Fin MaxABCsPerHCC)}
    (horder : slotOrder version_1 = before ++ ic :: after) (hafter : ic ∉ after) :
    histoChipMap version_1 input_enables ic =
      before.countP fun jc => input_enables.testBit jc.val := by
  unfold histoChipMap
  rw [horder, List.foldl_append, List.foldl_cons, foldl_assignSlot_of_not_mem _ _ _ hafter,
    assignSlot, if_pos ((enabled_iff _ _).2 hon), foldl_assignSlot_offset, Nat.zero_add]
  exact Function.update_self _ _ _

theorem finRange_split (ic : Fin MaxABCsPerHCC) : List.finRange MaxABCsPerHCC =
    (List.finRange MaxABCsPerHCC).filter (· < ic) ++
      ic :: (List.finRange MaxABCsPerHCC).filter (ic < ·) := by
  revert ic
  decide

theorem histoChipMap_version_1 {input_enables : Nat} {ic : Fin MaxABCsPerHCC}
    (hon : input_enables.testBit ic.val = true) : histoChipMap true input_enables ic =
      ((List.finRange MaxABCsPerHCC).filter (· < ic)).countP
        fun jc => input_enables.testBit jc.val := by
  have horder : slotOrder true = List.finRange MaxABCsPerHCC := List.map_id _
  exact histoChipMap_eq_countP hon (horder.trans (finRange_split ic)) (by simp)

theorem histoChipMap_version_0 {input_enables : Nat} {ic : Fin MaxABCsPerHCC}
    (hon : input_enables.testBit ic.val = true) : histoChipMap false input_enables ic =
      ((List.finRange MaxABCsPerHCC).filter (ic < ·)).countP
        fun jc => input_enables.testBit jc.val := by
  have hreverse : slotOrder false = (List.finRange MaxABCsPerHCC).reverse := by decide
  have horder : slotOrder false = ((List.finRange MaxABCsPerHCC).filter (ic < ·)).reverse ++
      ic :: ((List.finRange MaxABCsPerHCC).filter (· < ic)).reverse := by
    rw [hreverse, congrArg List.reverse (finRange_split ic), List.reverse_append,
      List.reverse_cons, List.append_assoc]
    rfl
  rw [histoChipMap_eq_countP hon horder (by simp), List.countP_reverse]

end HccCfg

end Yarr.Star

/-!
## `StarCfg`

The configuration of an HCCStar and of the ABCStars on its input channels. A
chip has registers at some addresses only, and an ABC is found by its ID or by
its channel.
-/

namespace Yarr.Star

/-- What a look-up can do instead of giving a value: the exception of `std::map::at`, or the use
of an element that is not there. -/
inductive Failure where
  | outOfRange
  | endIterator
  deriving DecidableEq, Repr

/-! ## Registers -/

/-- `m_registerMap` and `m_registerSet`: a value at each address of a chip. -/
structure RegisterSet (addresses : List Nat) where
  value : Nat → UInt32

namespace RegisterSet

variable {addresses : List Nat} (s : RegisterSet addresses)

def get (addr : Nat) : Except Failure UInt32 :=
  if addr ∈ addresses then .ok (s.value addr) else .error .outOfRange

def set (addr : Nat) (val : UInt32) : Except Failure (RegisterSet addresses) :=
  if addr ∈ addresses then .ok ⟨Function.update s.value addr val⟩ else .error .outOfRange

end RegisterSet

structure SubRegisterInfo where
  m_regAddress : Nat
  m_bOffset : Nat
  m_width : Nat
  deriving DecidableEq, Repr

/-- `SubRegister::getValue`. -/
def SubRegisterInfo.getValue (info : SubRegisterInfo) (reg : Nat) : Nat :=
  let maskBits := (1 <<< info.m_width) - 1
  (reg &&& (maskBits <<< info.m_bOffset)) >>> info.m_bOffset

/-! ## ABCs -/

namespace ABCStarRegister

def MaskInput0 : Nat := 16
def STAT0 : Nat := 48
def STAT1 : Nat := 49
def STAT2 : Nat := 50
def STAT3 : Nat := 51
def STAT4 : Nat := 52
def HPR : Nat := 63
def CalREG0 : Nat := 104
def HitCountREG0 : Nat := 128

end ABCStarRegister

/-- `AbcNames::listRegs`. -/
def AbcNames.listRegs : List Nat :=
  List.range' 0 8 ++ List.range' 16 8 ++ List.range' 32 5 ++ [38] ++ List.range' 48 5 ++ [63] ++
    List.range' 64 40 ++ List.range' 104 8 ++ List.range' 128 64

/-- Registers that the second version of the chip does not have. -/
def abcOnlyV0 (reg : Nat) : Bool := (3 < reg && reg ≤ 7) || (33 < reg && reg ≤ 38)

def abcAddresses (version_1 : Bool) : List Nat :=
  AbcNames.listRegs.filter fun reg => !(version_1 && abcOnlyV0 reg)

/-- `ABCStarSubRegister::ENCOUNT`. -/
def ENCOUNT (version_1 : Bool) : SubRegisterInfo :=
  if version_1 then ⟨32, 1, 1⟩ else ⟨32, 5, 1⟩

structure AbcCfg where
  version_1 : Bool
  m_abcID : Nat
  registers : RegisterSet (abcAddresses version_1)

namespace AbcCfg

variable (abc : AbcCfg)

def getABCchipID : Nat := abc.m_abcID

def getRegisterValue (addr : Nat) : Except Failure UInt32 := abc.registers.get addr

def setRegisterValue (addr : Nat) (val : UInt32) : Except Failure AbcCfg :=
  (abc.registers.set addr val).map fun registers => { abc with registers := registers }

def getSubRegisterValue (subReg : Bool → SubRegisterInfo) : Except Failure Nat :=
  let info := subReg abc.version_1
  (abc.getRegisterValue info.m_regAddress).map fun reg => info.getValue reg.toNat

end AbcCfg

/-! ## The HCC -/

namespace HCCStarRegister

def SEU1 : Nat := 0
def SEU2 : Nat := 1
def SEU3 : Nat := 2
def FrameRaw : Nat := 3
def LCBerr : Nat := 4
def ADCStatus : Nat := 5
def Status : Nat := 6
def HPR : Nat := 15
def Addressing : Nat := 17

end HCCStarRegister

/-- `HccNames::listRegs`. -/
def HccNames.listRegs : List Nat :=
  List.range' 0 7 ++ List.range' 15 3 ++ List.range' 32 17 ++ List.range' 7 4

def hccAddresses (version_1 : Bool) : List Nat :=
  HccNames.listRegs.filter fun reg => !(version_1 && (reg == 36 || reg == 37))

structure HccCfg where
  version_1 : Bool
  m_hccID : Nat
  registers : RegisterSet (hccAddresses version_1)

/-! ## Both -/

/-- `m_ABCchips` is ordered by the input channels. -/
structure StarCfg where
  hcc : HccCfg
  m_ABCchips : List (Fin MaxABCsPerHCC × AbcCfg)
  sorted : (m_ABCchips.map Prod.fst).Pairwise (· < ·)

namespace StarCfg

variable (cfg : StarCfg)

def getHCCchipID : Nat := cfg.hcc.m_hccID

def setHCCChipId (hccID : Nat) : StarCfg := { cfg with hcc := { cfg.hcc with m_hccID := hccID } }

def getHCCRegister (addr : Nat) : Except Failure UInt32 := cfg.hcc.registers.get addr

def setHCCRegister (addr : Nat) (val : UInt32) : Except Failure StarCfg :=
  (cfg.hcc.registers.set addr val).map fun registers =>
    { cfg with hcc := { cfg.hcc with registers := registers } }

/-- The first ABC with an ID. -/
def findABC (chipID : Nat) : Option (Fin MaxABCsPerHCC × AbcCfg) :=
  cfg.m_ABCchips.find? fun it => it.2.getABCchipID == chipID

/-- The result of the search is used, also if it is the end. -/
def hccChannelForABCchipID (chipID : Nat) : Except Failure (Fin MaxABCsPerHCC) :=
  match cfg.findABC chipID with
  | some it => .ok it.1
  | none => .error .endIterator

def abcFromChipID (chipID : Nat) : Except Failure AbcCfg :=
  match cfg.findABC chipID with
  | some it => .ok it.2
  | none => .error .endIterator

def getABCRegisterByID (addr chipID : Nat) : Except Failure UInt32 := do
  let abc ← cfg.abcFromChipID chipID
  abc.getRegisterValue addr

/-- The ABC of a channel is replaced. -/
def replaceABC (ic : Fin MaxABCsPerHCC) (abc : AbcCfg) : StarCfg where
  hcc := cfg.hcc
  m_ABCchips := cfg.m_ABCchips.map fun it => if it.1 = ic then (it.1, abc) else it
  sorted := by
    have hkeys : (cfg.m_ABCchips.map fun it => if it.1 = ic then (it.1, abc) else it).map Prod.fst =
        cfg.m_ABCchips.map Prod.fst := by
      rw [List.map_map]
      apply List.map_congr_left
      intro it _
      simp only [Function.comp_apply]
      split <;> rfl
    rw [hkeys]
    exact cfg.sorted

def setABCRegisterByID (addr : Nat) (val : UInt32) (chipID : Nat) : Except Failure StarCfg :=
  match cfg.findABC chipID with
  | some it => (it.2.setRegisterValue addr val).map (cfg.replaceABC it.1)
  | none => .error .endIterator

end StarCfg

end Yarr.Star
