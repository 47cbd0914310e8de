import Yarr.Core.Maps
import Yarr.Felix.FelixTools

/-!
# Link control of the FELIX controller

The enables of the links are in registers of the card. A call collects the
registers that it is about in a map, then reads or writes them one by one.
-/

namespace Yarr.Felix

open FelixTools

/-- The registers of the card, and which accesses succeed. -/
structure FelixCard where
  registers : String → UInt64
  readable : String → Bool
  writable : String → Bool

namespace FelixCard

def readFwRegister (card : FelixCard) (registerName : String) : Option UInt64 :=
  if card.readable registerName then some (card.registers registerName) else none

def writeFwRegister (card : FelixCard) (registerName : String) (regValue : UInt64) :
    Bool × FelixCard :=
  if card.writable registerName then
    (true, { card with
      registers := fun name => if name = registerName then regValue else card.registers name })
  else (false, card)

/-- All accesses succeed. -/
def Succeeds (card : FelixCard) : Prop :=
  ∀ name, card.readable name = true ∧ card.writable name = true

end FelixCard

namespace FelixController

abbrev RegMap := NameMap UInt32

/-! ## Maps of registers -/

def updateRegMap (regMap : RegMap) (regName : String) (value : UInt32) (overwrite : Bool) :
    RegMap :=
  match regMap.find regName with
  | some old =>
      if overwrite then regMap.insert regName value else regMap.insert regName (old ||| value)
  | none => regMap.insert regName value

/-- All names of a direction, and for mixed directions or none those of the other one too. -/
def initAllRegMap (getAllRegNames : Bool → List String) (toflx tohost : Bool) : RegMap :=
  let zeroed := fun (regMap : RegMap) regName => regMap.insert regName 0
  let regMap := (getAllRegNames toflx).foldl zeroed []
  if toflx = tohost then (getAllRegNames (!toflx)).foldl zeroed regMap else regMap

def initAllICEnableRegMap : Bool → Bool → RegMap := initAllRegMap getAllICEnableRegNames

def initAllECEnableRegMap : Bool → Bool → RegMap := initAllRegMap getAllECEnableRegNames

def initAllELinkEnableRegMap : Bool → Bool → RegMap := initAllRegMap getAllELinkEnableRegNames

/-! ## Single registers -/

/-- With a mask, only the bits under the mask are compared. -/
def checkRegValue (regName : String) (value mask : UInt32) (card : FelixCard) : Bool :=
  match card.readFwRegister regName with
  | some regValue =>
      if mask ≠ 0 then regValue &&& mask.toUInt64 == value.toUInt64
      else regValue == value.toUInt64
  | none => false

/-- `~mask` has 32 bits, so the upper half of the register is cleared with a mask too. -/
def masked (regValueOld : UInt64) (value mask : UInt32) : UInt64 :=
  (regValueOld &&& (~~~mask).toUInt64) ||| (value &&& mask).toUInt64

/-- With a mask, only the bits under the mask are modified. -/
def setRegValue (regName : String) (value mask : UInt32) (card : FelixCard) : Bool × FelixCard :=
  if mask ≠ 0 then
    match card.readFwRegister regName with
    | some regValueOld => card.writeFwRegister regName (masked regValueOld value mask)
    | none => (false, card)
  else card.writeFwRegister regName value.toUInt64

/-! ## All registers of a map -/

def checkRegValuesAll (regValueMap : RegMap) (mask : UInt32) (card : FelixCard) : Bool :=
  regValueMap.foldl (fun allGood e => checkRegValue e.1 e.2 mask card && allGood) true

def setRegValueAll (regValueMap : RegMap) (mask : UInt32) (card : FelixCard) : Bool × FelixCard :=
  regValueMap.foldl
    (fun s e =>
      let result := setRegValue e.1 e.2 mask s.2
      (s.1 && result.1, result.2))
    (true, card)

/-- The overload with a mask for each register. `none`: `regMaskMap.at` throws. -/
def setRegValueAllMasked (regValueMap regMaskMap : RegMap) (card : FelixCard) :
    Option (Bool × FelixCard) :=
  if regValueMap.length ≠ regMaskMap.length then some (false, card)
  else
    regValueMap.foldlM
      (fun s e => do
        let regMask ← regMaskMap.find e.1
        let result := setRegValue e.1 e.2 regMask s.2
        pure (s.1 && result.1, result.2))
      (true, card)

/-! ## Exclusive enables -/

/-- The map that an exclusive call fills for its list: all zeros, then the listed links. -/
def exclusiveRegMap (initAll : Bool → Bool → RegMap) (entry : FelixID → String × UInt32)
    (overwrite : Bool) (fids : List FelixID) : RegMap :=
  let allToFlx := all_toflx_from_fids fids
  let allToHost := all_tohost_from_fids fids
  fids.foldl (fun regMap fid => updateRegMap regMap (entry fid).1 (entry fid).2 overwrite)
    (initAll allToFlx allToHost)

def icEntry (fid : FelixID) : String × UInt32 :=
  (getICEnableRegName (link_from_fid fid) (toflx_from_fid fid), 1)

def ecEntry (fid : FelixID) : String × UInt32 :=
  (getECEnableRegName (link_from_fid fid) (toflx_from_fid fid), 1)

/-- `fwMode()` is read once and kept. -/
def elinkEntry (fwmode : FELIX_FW_MODE) (fid : FelixID) : String × UInt32 :=
  let info := linkInfo_from_fid fid fwmode
  (getELinkEnableRegName info.linkId info.egroup info.toflx, 1 <<< UInt32.ofNat info.epath)

def getICEnableExclusive (fids : List FelixID) : FelixCard → Bool :=
  checkRegValuesAll (exclusiveRegMap initAllICEnableRegMap icEntry true fids) 0

def getECEnableExclusive (fids : List FelixID) : FelixCard → Bool :=
  checkRegValuesAll (exclusiveRegMap initAllECEnableRegMap ecEntry true fids) 0

def getELinkEnableExclusive (fwmode : FELIX_FW_MODE) (fids : List FelixID) : FelixCard → Bool :=
  checkRegValuesAll (exclusiveRegMap initAllELinkEnableRegMap (elinkEntry fwmode) false fids) 0

def setICEnableExclusive (fids : List FelixID) : FelixCard → Bool × FelixCard :=
  setRegValueAll (exclusiveRegMap initAllICEnableRegMap icEntry true fids) 0

/-- The map starts with the registers of the IC channels. -/
def setECEnableExclusive (fids : List FelixID) : FelixCard → Bool × FelixCard :=
  setRegValueAll (exclusiveRegMap initAllICEnableRegMap ecEntry true fids) 0

def setELinkEnableExclusive (fwmode : FELIX_FW_MODE) (fids : List FelixID) :
    FelixCard → Bool × FelixCard :=
  setRegValueAll (exclusiveRegMap initAllELinkEnableRegMap (elinkEntry fwmode) false fids) 0

/-! ## Enables of single e-links -/

def enableValue (fwmode : FELIX_FW_MODE) (enable : Bool) (fid : FelixID) : UInt32 :=
  (if enable then 1 else 0) <<< UInt32.ofNat (linkInfo_from_fid fid fwmode).epath

def setELinkEnable (fwmode : FELIX_FW_MODE) (fid : FelixID) (enable : Bool) :
    FelixCard → Bool × FelixCard :=
  setRegValue (elinkEntry fwmode fid).1 (enableValue fwmode enable fid) (elinkEntry fwmode fid).2

/-- The overload for a list. -/
def setELinkEnableList (fwmode : FELIX_FW_MODE) (fids : List FelixID) (enable : Bool) :
    FelixCard → Option (Bool × FelixCard) :=
  let enableRegValue : RegMap := fids.foldl
    (fun regMap fid =>
      updateRegMap regMap (elinkEntry fwmode fid).1 (enableValue fwmode enable fid) false) []
  let enableRegMask : RegMap := fids.foldl
    (fun regMap fid =>
      updateRegMap regMap (elinkEntry fwmode fid).1 (elinkEntry fwmode fid).2 false) []
  setRegValueAllMasked enableRegValue enableRegMask

end FelixController

end Yarr.Felix

/-!
## Laws of the register maps

What a map holds after it is filled for a list of links, and what the registers
hold after a map is written.
-/

namespace Yarr.Felix

open FelixTools

namespace FelixController

/-! ## Filling a map -/

theorem find_updateRegMap (regMap : RegMap) (key name : String) (value : UInt32)
    (overwrite : Bool) :
    (updateRegMap regMap key value overwrite).find name =
      if name = key then
        some (if overwrite then value else (regMap.find key).getD 0 ||| value)
      else regMap.find name := by
  unfold updateRegMap
  cases hfind : regMap.find key with
  | none =>
      rw [NameMap.find_insert]
      by_cases hname : name = key
      · simp [hname]
      · simp [hname]
  | some old =>
      cases overwrite with
      | true =>
          simp only [if_true]
          rw [NameMap.find_insert]
      | false =>
          simp only [Bool.false_eq_true, if_false, Option.getD_some]
          rw [NameMap.find_insert]

theorem ordered_updateRegMap {regMap : RegMap} (h : regMap.Ordered) (key : String)
    (value : UInt32) (overwrite : Bool) : (updateRegMap regMap key value overwrite).Ordered := by
  unfold updateRegMap
  split
  · split
    · exact h.insert key value
    · exact h.insert key _
  · exact h.insert key value

theorem find_zeroed (names : List String) (regMap : RegMap) (name : String) :
    (names.foldl (fun (regMap : RegMap) regName => regMap.insert regName 0) regMap).find name =
      if name ∈ names then some 0 else regMap.find name := by
  induction names generalizing regMap with
  | nil => rfl
  | cons key names ih =>
      rw [List.foldl_cons, ih, NameMap.find_insert]
      by_cases hkey : name = key
      · simp [hkey]
      · simp [hkey]

theorem ordered_zeroed (names : List String) {regMap : RegMap} (h : regMap.Ordered) :
    (names.foldl (fun (regMap : RegMap) regName => regMap.insert regName 0) regMap).Ordered := by
  induction names generalizing regMap with
  | nil => exact h
  | cons key names ih => exact ih (h.insert key 0)

/-- The directions that an exclusive call is about. -/
def Covers (toflx tohost dir : Bool) : Prop := toflx = tohost ∨ dir = toflx

theorem find_initAllRegMap {getAllRegNames : Bool → List String} {toflx tohost : Bool}
    {name : String} :
    ((∃ dir, Covers toflx tohost dir ∧ name ∈ getAllRegNames dir) →
        (initAllRegMap getAllRegNames toflx tohost).find name = some 0) ∧
      ((∀ dir, Covers toflx tohost dir → name ∉ getAllRegNames dir) →
        (initAllRegMap getAllRegNames toflx tohost).find name = none) := by
  unfold initAllRegMap
  dsimp only
  by_cases hboth : toflx = tohost
  · rw [if_pos hboth, find_zeroed, find_zeroed]
    constructor
    · intro ⟨dir, _, hname⟩
      by_cases hdir : dir = toflx
      · rw [hdir] at hname
        simp [hname]
      · have hother : dir = !toflx := by
          cases dir <;> cases toflx <;> simp_all
        rw [hother] at hname
        simp [hname]
    · intro hname
      rw [if_neg (hname (!toflx) (Or.inl hboth)), if_neg (hname toflx (Or.inl hboth))]
      rfl
  · rw [if_neg hboth, find_zeroed]
    constructor
    · intro ⟨dir, hcovers, hname⟩
      have hdir := hcovers.resolve_left hboth
      rw [hdir] at hname
      rw [if_pos hname]
    · intro hname
      rw [if_neg (hname toflx (Or.inr rfl))]
      rfl

theorem ordered_initAllRegMap (getAllRegNames : Bool → List String) (toflx tohost : Bool) :
    (initAllRegMap getAllRegNames toflx tohost).Ordered := by
  have hfirst := ordered_zeroed (getAllRegNames toflx) List.Pairwise.nil
  unfold initAllRegMap
  split
  · exact ordered_zeroed _ hfirst
  · exact hfirst

/-- The union of the values for one register. -/
def orOf (entry : FelixID → String × UInt32) (name : String) : List FelixID → UInt32
  | [] => 0
  | fid :: fids => (if (entry fid).1 = name then (entry fid).2 else 0) ||| orOf entry name fids

theorem orOf_eq_zero {entry : FelixID → String × UInt32} {name : String} {fids : List FelixID}
    (h : ¬ ∃ fid ∈ fids, (entry fid).1 = name) : orOf entry name fids = 0 := by
  induction fids with
  | nil => rfl
  | cons fid fids ih =>
      rw [List.exists_mem_cons_iff, not_or] at h
      rw [orOf, if_neg h.1, ih h.2, UInt32.zero_or]

theorem find_union (entry : FelixID → String × UInt32) (fids : List FelixID) (regMap : RegMap)
    (name : String) :
    (fids.foldl (fun regMap fid => updateRegMap regMap (entry fid).1 (entry fid).2 false)
        regMap).find name =
      if ∃ fid ∈ fids, (entry fid).1 = name then
        some ((regMap.find name).getD 0 ||| orOf entry name fids)
      else regMap.find name := by
  induction fids generalizing regMap with
  | nil => simp
  | cons fid fids ih =>
      rw [List.foldl_cons, ih, find_updateRegMap, orOf]
      by_cases hrest : ∃ fid' ∈ fids, (entry fid').1 = name
      · have hany : ∃ fid' ∈ fid :: fids, (entry fid').1 = name :=
          hrest.imp fun _ h => ⟨List.mem_cons_of_mem fid h.1, h.2⟩
        rw [if_pos hrest, if_pos hany]
        by_cases hfid : (entry fid).1 = name
        · rw [if_pos hfid.symm, if_pos hfid, hfid]
          simp [UInt32.or_assoc]
        · rw [if_neg (Ne.symm hfid), if_neg hfid, UInt32.zero_or]
      · rw [if_neg hrest]
        have hnone : orOf entry name fids = 0 := orOf_eq_zero hrest
        by_cases hfid : (entry fid).1 = name
        · have hany : ∃ fid' ∈ fid :: fids, (entry fid').1 = name :=
            ⟨fid, List.mem_cons_self, hfid⟩
          rw [if_pos hfid.symm, if_pos hany, if_pos hfid, hfid, hnone]
          simp
        · have hall : ¬ ∃ fid' ∈ fid :: fids, (entry fid').1 = name := by
            rw [List.exists_mem_cons_iff]
            exact fun h => h.elim hfid hrest
          rw [if_neg (Ne.symm hfid), if_neg hall]

theorem find_overwritten (entry : FelixID → String × UInt32) {value : UInt32}
    (hvalue : ∀ fid, (entry fid).2 = value) (fids : List FelixID) (regMap : RegMap)
    (name : String) :
    (fids.foldl (fun regMap fid => updateRegMap regMap (entry fid).1 (entry fid).2 true)
        regMap).find name =
      if ∃ fid ∈ fids, (entry fid).1 = name then some value else regMap.find name := by
  induction fids generalizing regMap with
  | nil => simp
  | cons fid fids ih =>
      rw [List.foldl_cons, ih, find_updateRegMap, hvalue]
      by_cases hrest : ∃ fid' ∈ fids, (entry fid').1 = name
      · have hany : ∃ fid' ∈ fid :: fids, (entry fid').1 = name :=
          hrest.imp fun _ h => ⟨List.mem_cons_of_mem fid h.1, h.2⟩
        rw [if_pos hrest, if_pos hany]
      · rw [if_neg hrest]
        by_cases hfid : (entry fid).1 = name
        · have hany : ∃ fid' ∈ fid :: fids, (entry fid').1 = name :=
            ⟨fid, List.mem_cons_self, hfid⟩
          rw [if_pos hfid.symm, if_pos hany]
          rfl
        · have hall : ¬ ∃ fid' ∈ fid :: fids, (entry fid').1 = name := by
            rw [List.exists_mem_cons_iff]
            exact fun h => h.elim hfid hrest
          rw [if_neg (Ne.symm hfid), if_neg hall]

theorem ordered_filled (entry : FelixID → String × UInt32) (overwrite : Bool)
    (fids : List FelixID) {regMap : RegMap} (h : regMap.Ordered) :
    (fids.foldl (fun regMap fid => updateRegMap regMap (entry fid).1 (entry fid).2 overwrite)
        regMap).Ordered := by
  induction fids generalizing regMap with
  | nil => exact h
  | cons fid fids ih => exact ih (ordered_updateRegMap h _ _ _)

/-! ## Writing a map -/

/-- What a register holds after it is set. -/
def newValue (old : UInt64) (value mask : UInt32) : UInt64 :=
  if mask ≠ 0 then masked old value mask else value.toUInt64

variable {card : FelixCard}

theorem setRegValue_eq (h : card.Succeeds) (regName : String) (value mask : UInt32) :
    setRegValue regName value mask card = (true, { card with
      registers := fun name =>
        if name = regName then newValue (card.registers name) value mask
        else card.registers name }) := by
  have hread : card.readFwRegister regName = some (card.registers regName) :=
    if_pos (h regName).1
  have hwrite : ∀ v, card.writeFwRegister regName v = (true, { card with
      registers := fun name => if name = regName then v else card.registers name }) :=
    fun v => if_pos (h regName).2
  have hsame : ∀ f : UInt64 → UInt64,
      (fun name => if name = regName then f (card.registers regName) else card.registers name) =
        fun name => if name = regName then f (card.registers name) else card.registers name := by
    intro f
    funext name
    by_cases hname : name = regName
    · rw [if_pos hname, if_pos hname, hname]
    · rw [if_neg hname, if_neg hname]
  rw [setRegValue]
  by_cases hmask : mask ≠ 0
  · simp only [if_pos hmask, hread, hwrite, newValue]
    rw [hsame fun old => masked old value mask]
  · simp only [if_neg hmask, hwrite, newValue]

/-- The registers of a map are set, each under its mask. -/
def written (regMap : RegMap) (mask : String → UInt32) (registers : String → UInt64) :
    String → UInt64 := fun name =>
  match regMap.find name with
  | some value => newValue (registers name) value (mask name)
  | none => registers name

theorem foldl_setRegValue (mask : String → UInt32) {regMap : RegMap} (hmap : regMap.Ordered)
    (h : card.Succeeds) :
    regMap.foldl
        (fun s e => (s.1 && (setRegValue e.1 e.2 (mask e.1) s.2).1,
          (setRegValue e.1 e.2 (mask e.1) s.2).2)) (true, card) =
      (true, { card with registers := written regMap mask card.registers }) := by
  induction regMap generalizing card with
  | nil => rfl
  | cons e regMap ih =>
      obtain ⟨key, value⟩ := e
      rcases List.pairwise_cons.mp hmap with ⟨hfirst, hrest⟩
      rw [List.foldl_cons, setRegValue_eq h]
      dsimp only
      have hsucceeds : FelixCard.Succeeds { card with
          registers := fun name =>
            if name = key then newValue (card.registers name) value (mask key)
            else card.registers name } := fun name => h name
      rw [Bool.and_self, ih hrest hsucceeds]
      simp only [Prod.mk.injEq, true_and, FelixCard.mk.injEq, and_true]
      funext name
      simp only [written, NameMap.find]
      by_cases hname : name = key
      · subst hname
        have hnone : NameMap.find name regMap = none := by
          cases hfind : NameMap.find name regMap with
          | none => rfl
          | some v =>
              have hmem := NameMap.mem_of_find hfind
              exact absurd rfl (ne_of_lt (hfirst (name, v) hmem))
        rw [hnone, if_pos rfl, if_pos rfl]
      · rw [if_neg hname, if_neg (Ne.symm hname)]

theorem setRegValueAll_eq {regMap : RegMap} (hmap : regMap.Ordered) (mask : UInt32)
    (h : card.Succeeds) :
    setRegValueAll regMap mask card =
      (true, { card with registers := written regMap (fun _ => mask) card.registers }) :=
  foldl_setRegValue (fun _ => mask) hmap h

/-- `at` finds a mask for every value if the maps were filled for the same list. -/
theorem setRegValueAllMasked_eq {regValueMap regMaskMap : RegMap} (hmap : regValueMap.Ordered)
    (hlength : regValueMap.length = regMaskMap.length)
    (hkeys : ∀ e ∈ regValueMap, regMaskMap.find e.1 ≠ none) (h : card.Succeeds) :
    setRegValueAllMasked regValueMap regMaskMap card =
      some (true, { card with
        registers :=
          written regValueMap (fun name => (regMaskMap.find name).getD 0) card.registers }) := by
  rw [setRegValueAllMasked, if_neg (not_not.mpr hlength),
    ← foldl_setRegValue (fun name => (regMaskMap.find name).getD 0) hmap h]
  clear hmap hlength
  generalize (true, card) = s
  induction regValueMap generalizing s with
  | nil => rfl
  | cons e regValueMap ih =>
      cases hmask : regMaskMap.find e.1 with
      | none => exact absurd hmask (hkeys e List.mem_cons_self)
      | some regMask =>
          rw [List.foldlM_cons, List.foldl_cons, hmask]
          exact ih (fun e' he' => hkeys e' (List.mem_cons_of_mem e he')) _

/-! ## Reading a map -/

theorem checkRegValue_zero (h : card.Succeeds) (regName : String) (value : UInt32) :
    checkRegValue regName value 0 card = true ↔ card.registers regName = value.toUInt64 := by
  have hread : card.readFwRegister regName = some (card.registers regName) :=
    if_pos (h regName).1
  rw [checkRegValue, hread]
  simp

theorem checkRegValuesAll_iff {regMap : RegMap} (hmap : regMap.Ordered) (h : card.Succeeds) :
    checkRegValuesAll regMap 0 card = true ↔
      ∀ name value, regMap.find name = some value → card.registers name = value.toUInt64 := by
  have hfold : ∀ (l : RegMap) (b : Bool),
      l.foldl (fun allGood e => checkRegValue e.1 e.2 0 card && allGood) b = true ↔
        b = true ∧ ∀ e ∈ l, card.registers e.1 = e.2.toUInt64 := by
    intro l
    induction l with
    | nil => simp
    | cons e l ih =>
        intro b
        rw [List.foldl_cons, ih, Bool.and_eq_true, checkRegValue_zero h, List.forall_mem_cons]
        constructor
        · exact fun ⟨⟨he, hb⟩, hl⟩ => ⟨hb, he, hl⟩
        · exact fun ⟨hb, he, hl⟩ => ⟨⟨he, hb⟩, hl⟩
  rw [checkRegValuesAll, hfold]
  constructor
  · intro ⟨_, hall⟩ name value hfind
    exact hall (name, value) (NameMap.mem_of_find hfind)
  · intro hall
    exact ⟨rfl, fun e he => hall e.1 e.2 (hmap.find_of_mem he)⟩

end FelixController

end Yarr.Felix
