import Yarr.Star.ChipIDs

/-!
# The slots of a configuration file

An ABC on an enabled channel is written to a slot that no other ABC has. The
vector of register values has an element for each channel up to the highest one
with an ABC, and the first version of the HCC gives the slots from the other end.
-/

namespace Yarr.Star

/-! ## What a slot holds -/

def Trims.values : Trims → List Nat
  | .same trim => List.replicate StripsPerABC trim
  | .each trims => trims

/-- A value of its own comes before one that all have in common. -/
def AbcsJson.registerAt (j : AbcsJson) (slot reg : Nat) : Option UInt32 :=
  ((j.regs.at? slot).bind fun values => values reg).or (j.common reg)

structure WrittenAt (j : AbcsJson) (slot : Nat) (abc : AbcCfg) : Prop where
  id : j.IDs.at? slot = some abc.getABCchipID
  regs : ∀ reg ∈ writtenRegs abc.version_1,
    j.registerAt slot reg = some (abc.registers.value reg)
  masked : (j.masked.at? slot).getD [] = strips.filter abc.isMasked
  trims : ∃ t, j.trims.at? slot = some t ∧ t.values = strips.map abc.getTrimDACRaw

/-! ## Registers of one ABC -/

/-- What is left of a common value when an ABC comes with its own. -/
def keepCommon (isLowest : Bool) (common : Option UInt32) (val : UInt32) : Option UInt32 :=
  if isLowest then some val else common.filter (· == val)

theorem updateCommon_apply (common : RegValues) (isLowest : Bool) (reg : Nat) (val : UInt32)
    (r : Nat) : updateCommon common isLowest reg val r =
      if r = reg then keepCommon isLowest (common reg) val else common r := by
  unfold updateCommon
  cases isLowest with
  | true =>
      rw [if_pos rfl]
      exact Function.update_apply common reg (some val) r
  | false =>
      have hkeep : keepCommon false (common reg) val = (common reg).filter (· == val) := rfl
      rw [hkeep, if_neg Bool.false_ne_true]
      cases hcommon : common reg with
      | none =>
          by_cases hr : r = reg
          · rw [if_pos hr, hr]
            exact hcommon
          · rw [if_neg hr]
      | some other =>
          by_cases hother : other = val
          · have hfilter : (some other).filter (· == val) = common reg := by
              rw [hcommon, hother]
              simp
            show (if other ≠ val then _ else common) r = _
            rw [if_neg (not_not.mpr hother), hfilter]
            by_cases hr : r = reg
            · rw [if_pos hr, hr]
            · rw [if_neg hr]
          · have hfilter : (some other).filter (· == val) = none := by
              simp [hother]
            show (if other ≠ val then _ else common) r = _
            rw [if_pos hother, hfilter]
            exact Function.update_apply common reg none r

theorem keepCommon_keepCommon (isLowest : Bool) (common : Option UInt32) (val : UInt32) :
    keepCommon isLowest (keepCommon isLowest common val) val = keepCommon isLowest common val := by
  unfold keepCommon
  cases isLowest with
  | true => rfl
  | false =>
      rw [if_neg (by decide), if_neg (by decide)]
      cases common with
      | none => rfl
      | some other =>
          simp

theorem getRegisterValue_written {abc : AbcCfg} {reg : Nat} (h : reg ∈ writtenRegs abc.version_1) :
    abc.getRegisterValue reg = .ok (abc.registers.value reg) :=
  if_pos (List.mem_filter.mp h).1

theorem writeReg_eq {slot reg : Nat} {isLowest : Bool} {abc : AbcCfg} {w : Writing}
    {values : RegValues} (hreg : reg ∈ writtenRegs abc.version_1)
    (hslot : w.regs[slot]? = some values) :
    writeReg slot isLowest abc w reg = .ok {
      j := { w.j with
        common := updateCommon w.j.common isLowest reg (abc.registers.value reg) }
      regs := w.regs.set slot (Function.update values reg (some (abc.registers.value reg))) } := by
  unfold writeReg
  rw [getRegisterValue_written hreg, hslot]
  rfl

/-- All registers of an ABC, at a slot that is there. -/
theorem foldlM_writeReg {slot : Nat} {isLowest : Bool} {abc : AbcCfg} (regs : List Nat)
    {w : Writing} {values : RegValues} (hregs : ∀ reg ∈ regs, reg ∈ writtenRegs abc.version_1)
    (hslot : w.regs[slot]? = some values) :
    regs.foldlM (writeReg slot isLowest abc) w = .ok {
      j := { w.j with
        common := fun r =>
          if r ∈ regs then keepCommon isLowest (w.j.common r) (abc.registers.value r)
          else w.j.common r }
      regs := w.regs.set slot fun r =>
        if r ∈ regs then some (abc.registers.value r) else values r } := by
  have hlt : slot < w.regs.length := (List.getElem?_eq_some_iff.mp hslot).1
  induction regs generalizing w values with
  | nil =>
      have hsame : w.regs.set slot values = w.regs := by
        rcases List.getElem?_eq_some_iff.mp hslot with ⟨hslot, heq⟩
        rw [← heq, List.set_getElem_self]
      simp only [List.not_mem_nil, if_false, hsame]
      rfl
  | cons reg regs ih =>
      rw [List.foldlM_cons, writeReg_eq (hregs reg List.mem_cons_self) hslot]
      refine (ih (fun r hr => hregs r (List.mem_cons_of_mem _ hr)) (List.getElem?_set_self hlt)
        (by rw [List.length_set]; exact hlt)).trans ?_
      congr 1
      simp only [Writing.mk.injEq, List.set_set]
      constructor
      · congr 1
        funext r
        rw [updateCommon_apply]
        by_cases hr : r = reg
        · subst hr
          rw [if_pos rfl, keepCommon_keepCommon, if_pos List.mem_cons_self]
          split <;> rfl
        · rw [if_neg hr]
          simp only [List.mem_cons, hr, false_or]
      · congr 1
        funext r
        rw [Function.update_apply]
        by_cases hr : r = reg
        · subst hr
          rw [if_pos rfl, if_pos List.mem_cons_self]
          split <;> rfl
        · rw [if_neg hr]
          simp only [List.mem_cons, hr, false_or]

/-! ## One ABC after the other -/

/-- Each enabled ABC in `done` has been written, and nothing else has. -/
structure Progress (chip_map : ChipMap) (done : List (Fin MaxABCsPerHCC × AbcCfg)) (w : Writing) :
    Prop where
  id : ∀ it ∈ done, chip_map it.1 ≠ HCC_INPUT_CHANNEL_BAD_SLOT →
    w.j.IDs.at? (chip_map it.1) = some it.2.getABCchipID
  regs : ∀ it ∈ done, chip_map it.1 ≠ HCC_INPUT_CHANNEL_BAD_SLOT →
    ∃ values, w.regs[chip_map it.1]? = some values ∧
      ∀ reg ∈ writtenRegs it.2.version_1, values reg = some (it.2.registers.value reg)
  common : ∀ it ∈ done, chip_map it.1 ≠ HCC_INPUT_CHANNEL_BAD_SLOT →
    ∀ reg ∈ writtenRegs it.2.version_1, ∀ val, w.j.common reg = some val →
      it.2.registers.value reg = val
  masked : ∀ it ∈ done, chip_map it.1 ≠ HCC_INPUT_CHANNEL_BAD_SLOT →
    (w.j.masked.at? (chip_map it.1)).getD [] = strips.filter it.2.isMasked
  trims : ∀ it ∈ done, chip_map it.1 ≠ HCC_INPUT_CHANNEL_BAD_SLOT →
    ∃ t, w.j.trims.at? (chip_map it.1) = some t ∧ t.values = strips.map it.2.getTrimDACRaw
  fresh : ∀ slot, (∀ it ∈ done, chip_map it.1 ≠ slot) → w.j.masked.at? slot = none

theorem values_trims (abc : AbcCfg) :
    (if (strips.map abc.getTrimDACRaw).all (· == abc.getTrimDACRaw 0) then
      Trims.same (abc.getTrimDACRaw 0) else .each (strips.map abc.getTrimDACRaw)).values =
      strips.map abc.getTrimDACRaw := by
  split
  · rename_i hsame
    have hlength : (strips.map abc.getTrimDACRaw).length = StripsPerABC := by
      rw [List.length_map, strips, List.length_range]
    show List.replicate StripsPerABC (abc.getTrimDACRaw 0) = _
    rw [← hlength]
    apply (List.eq_replicate_of_mem _).symm
    intro trim htrim
    exact eq_of_beq (List.all_eq_true.mp hsame trim htrim)
  · rfl

theorem writeABC_eq {chip_map : ChipMap} {lowestABC : Option (Fin MaxABCsPerHCC)} {w : Writing}
    {it : Fin MaxABCsPerHCC × AbcCfg} {values : RegValues}
    (hon : chip_map it.1 ≠ HCC_INPUT_CHANNEL_BAD_SLOT)
    (hslot : w.regs[chip_map it.1]? = some values) :
    writeABC chip_map lowestABC w it = .ok (writeStrips (chip_map it.1) it.2 {
      j := { w.j with
        IDs := w.j.IDs.assign (chip_map it.1) it.2.getABCchipID
        common := fun r =>
          if r ∈ writtenRegs it.2.version_1 then
            keepCommon (lowestABC == some it.1) (w.j.common r) (it.2.registers.value r)
          else w.j.common r }
      regs := w.regs.set (chip_map it.1) fun r =>
        if r ∈ writtenRegs it.2.version_1 then some (it.2.registers.value r) else values r }) := by
  unfold writeABC
  dsimp only
  rw [if_neg hon, foldlM_writeReg _ (fun _ h => h) (by exact hslot)]
  rfl

theorem writeABC_off {chip_map : ChipMap} {lowestABC : Option (Fin MaxABCsPerHCC)} {w : Writing}
    {it : Fin MaxABCsPerHCC × AbcCfg} (hoff : chip_map it.1 = HCC_INPUT_CHANNEL_BAD_SLOT) :
    writeABC chip_map lowestABC w it = .ok w := by
  unfold writeABC
  dsimp only
  rw [if_pos hoff]
  rfl

theorem exists_writtenReg (version_1 : Bool) : ∃ reg, reg ∈ writtenRegs version_1 := by
  cases version_1 with
  | false => exact ⟨1, by decide⟩
  | true => exact ⟨1, by decide⟩

theorem writeABC_past {chip_map : ChipMap} {lowestABC : Option (Fin MaxABCsPerHCC)} {w : Writing}
    {it : Fin MaxABCsPerHCC × AbcCfg} (hon : chip_map it.1 ≠ HCC_INPUT_CHANNEL_BAD_SLOT)
    (hpast : w.regs.length ≤ chip_map it.1) :
    writeABC chip_map lowestABC w it = .error .endIterator := by
  have hnone : w.regs[chip_map it.1]? = none := List.getElem?_eq_none hpast
  unfold writeABC
  dsimp only
  rw [if_neg hon]
  rcases List.exists_cons_of_ne_nil (List.ne_nil_of_mem (exists_writtenReg it.2.version_1).choose_spec)
    with ⟨reg, regs, hregs⟩
  have hreg : reg ∈ writtenRegs it.2.version_1 := by
    rw [hregs]
    exact List.mem_cons_self
  rw [hregs, List.foldlM_cons, writeReg, getRegisterValue_written hreg, hnone]
  rfl

theorem keepCommon_eq_some {isLowest : Bool} {common : Option UInt32} {own val : UInt32}
    (h : keepCommon isLowest common own = some val) :
    own = val ∧ (isLowest = true ∨ common = some val) := by
  unfold keepCommon at h
  cases isLowest with
  | true => exact ⟨Option.some.inj h, Or.inl rfl⟩
  | false =>
      rcases Option.filter_eq_some_iff.mp h with ⟨hcommon, hval⟩
      exact ⟨(eq_of_beq hval).symm, Or.inr hcommon⟩

namespace Progress

variable {chip_map : ChipMap} {lowestABC : Option (Fin MaxABCsPerHCC)}
  {done : List (Fin MaxABCsPerHCC × AbcCfg)} {w : Writing} {it : Fin MaxABCsPerHCC × AbcCfg}

theorem step_off (h : Progress chip_map done w)
    (hoff : chip_map it.1 = HCC_INPUT_CHANNEL_BAD_SLOT) : Progress chip_map (done ++ [it]) w := by
  have hmem : ∀ it' ∈ done ++ [it], chip_map it'.1 ≠ HCC_INPUT_CHANNEL_BAD_SLOT → it' ∈ done := by
    intro it' hit' hon
    rcases List.mem_append.mp hit' with hdone | hlast
    · exact hdone
    · rw [List.mem_singleton.mp hlast] at hon
      exact absurd hoff hon
  exact {
    id := fun it' hit' hon => h.id it' (hmem it' hit' hon) hon
    regs := fun it' hit' hon => h.regs it' (hmem it' hit' hon) hon
    common := fun it' hit' hon => h.common it' (hmem it' hit' hon) hon
    masked := fun it' hit' hon => h.masked it' (hmem it' hit' hon) hon
    trims := fun it' hit' hon => h.trims it' (hmem it' hit' hon) hon
    fresh := fun slot hslot => h.fresh slot fun it' hit' => hslot it' (List.mem_append_left _ hit') }

theorem step_on (h : Progress chip_map done w) (hon : chip_map it.1 ≠ HCC_INPUT_CHANNEL_BAD_SLOT)
    (hnew : ∀ it' ∈ done, chip_map it'.1 ≠ chip_map it.1)
    (hlowest : lowestABC = some it.1 → done = []) (hslot : chip_map it.1 < w.regs.length) :
    ∃ w', writeABC chip_map lowestABC w it = .ok w' ∧ w'.regs.length = w.regs.length ∧
      Progress chip_map (done ++ [it]) w' := by
  rcases List.getElem?_eq_some_iff.mpr ⟨hslot, rfl⟩ with hvalues
  have hfresh := h.fresh (chip_map it.1) hnew
  have hcases : ∀ it' ∈ done ++ [it], (it' ∈ done ∧ chip_map it'.1 ≠ chip_map it.1) ∨ it' = it := by
    intro it' hit'
    rcases List.mem_append.mp hit' with hdone | hlast
    · exact Or.inl ⟨hdone, hnew it' hdone⟩
    · exact Or.inr (List.mem_singleton.mp hlast)
  have hmasked : ∀ slot, ((strips.filter it.2.isMasked).foldl (fun a m =>
      a.assign (chip_map it.1) ((a.at? (chip_map it.1)).getD [] ++ [m])) w.j.masked).at? slot =
        if slot = chip_map it.1 ∧ strips.filter it.2.isMasked ≠ [] then
          some (strips.filter it.2.isMasked) else w.j.masked.at? slot := by
    intro slot
    rw [SparseArray.at?_foldl_assign, hfresh]
    rfl
  refine ⟨_, writeABC_eq hon hvalues, List.length_set, ?_⟩
  constructor
  · intro it' hit' hon'
    show (w.j.IDs.assign _ _).at? _ = _
    rw [SparseArray.at?_assign]
    rcases hcases it' hit' with ⟨hdone, hne⟩ | rfl
    · rw [if_neg hne]
      exact h.id it' hdone hon'
    · rw [if_pos rfl]
  · intro it' hit' hon'
    show ∃ values, (w.regs.set _ _)[_]? = _ ∧ _
    rcases hcases it' hit' with ⟨hdone, hne⟩ | rfl
    · rw [List.getElem?_set_ne (Ne.symm hne)]
      exact h.regs it' hdone hon'
    · exact ⟨_, List.getElem?_set_self hslot, fun reg hreg => if_pos hreg⟩
  · intro it' hit' hon' reg hreg val hval
    change (if reg ∈ writtenRegs it.2.version_1 then _ else _) = _ at hval
    rcases hcases it' hit' with ⟨hdone, _⟩ | rfl
    · have hold : w.j.common reg = some val := by
        split at hval
        · rcases (keepCommon_eq_some hval).2 with hfirst | hcommon
          · rw [hlowest (eq_of_beq hfirst)] at hdone
            cases hdone
          · exact hcommon
        · exact hval
      exact h.common it' hdone hon' reg hreg val hold
    · rw [if_pos hreg] at hval
      exact (keepCommon_eq_some hval).1
  · intro it' hit' hon'
    show (((strips.filter it.2.isMasked).foldl _ w.j.masked).at? _).getD [] = _
    rw [hmasked]
    rcases hcases it' hit' with ⟨hdone, hne⟩ | rfl
    · rw [if_neg fun hslot => hne hslot.1]
      exact h.masked it' hdone hon'
    · by_cases hnone : strips.filter it'.2.isMasked = []
      · rw [if_neg fun hslot => hslot.2 hnone, hfresh, hnone]
        rfl
      · rw [if_pos ⟨rfl, hnone⟩]
        rfl
  · intro it' hit' hon'
    show ∃ t, (w.j.trims.assign _ _).at? _ = _ ∧ _
    rw [SparseArray.at?_assign]
    rcases hcases it' hit' with ⟨hdone, hne⟩ | rfl
    · rw [if_neg hne]
      exact h.trims it' hdone hon'
    · exact ⟨_, if_pos rfl, values_trims it'.2⟩
  · intro slot hslots
    show ((strips.filter it.2.isMasked).foldl _ w.j.masked).at? slot = none
    rw [hmasked, if_neg fun hslot => hslots it (by simp) hslot.1.symm]
    exact h.fresh slot fun it' hit' => hslots it' (List.mem_append_left _ hit')

theorem run (rest : List (Fin MaxABCsPerHCC × AbcCfg)) (h : Progress chip_map done w)
    (hnew : (done ++ rest).Pairwise fun a b =>
      chip_map b.1 ≠ HCC_INPUT_CHANNEL_BAD_SLOT → chip_map a.1 ≠ chip_map b.1)
    (hlowest : (done ++ rest).Pairwise fun _ b => lowestABC ≠ some b.1)
    (hslot : ∀ it ∈ rest, chip_map it.1 ≠ HCC_INPUT_CHANNEL_BAD_SLOT →
      chip_map it.1 < w.regs.length) :
    ∃ w', rest.foldlM (writeABC chip_map lowestABC) w = .ok w' ∧
      Progress chip_map (done ++ rest) w' := by
  induction rest generalizing done w with
  | nil => exact ⟨w, rfl, by simpa using h⟩
  | cons it rest ih =>
      have hsplit : done ++ it :: rest = (done ++ [it]) ++ rest := by simp
      have hbefore : ∀ a ∈ done, (chip_map it.1 ≠ HCC_INPUT_CHANNEL_BAD_SLOT →
          chip_map a.1 ≠ chip_map it.1) ∧ lowestABC ≠ some it.1 := fun a ha =>
        ⟨(List.pairwise_append.mp hnew).2.2 a ha it List.mem_cons_self,
          (List.pairwise_append.mp hlowest).2.2 a ha it List.mem_cons_self⟩
      rw [hsplit] at hnew hlowest ⊢
      rw [List.foldlM_cons]
      by_cases hoff : chip_map it.1 = HCC_INPUT_CHANNEL_BAD_SLOT
      · rw [writeABC_off hoff]
        exact ih (h.step_off hoff) hnew hlowest fun it' hit' =>
          hslot it' (List.mem_cons_of_mem _ hit')
      · have hfirst : lowestABC = some it.1 → done = [] := by
          intro heq
          rw [List.eq_nil_iff_forall_not_mem]
          exact fun a ha => (hbefore a ha).2 heq
        rcases h.step_on hoff (fun a ha => (hbefore a ha).1 hoff) hfirst
          (hslot it List.mem_cons_self hoff) with ⟨w', hstep, hlength, hnext⟩
        rw [hstep]
        apply ih hnext hnew hlowest
        intro it' hit' hon'
        rw [hlength]
        exact hslot it' (List.mem_cons_of_mem _ hit') hon'

end Progress

theorem slots_lt_of_foldlM {chip_map : ChipMap} {lowestABC : Option (Fin MaxABCsPerHCC)}
    (rest : List (Fin MaxABCsPerHCC × AbcCfg)) {w w' : Writing}
    (h : rest.foldlM (writeABC chip_map lowestABC) w = .ok w') :
    ∀ it ∈ rest, chip_map it.1 ≠ HCC_INPUT_CHANNEL_BAD_SLOT → chip_map it.1 < w.regs.length := by
  induction rest generalizing w with
  | nil => exact fun it hit => absurd hit List.not_mem_nil
  | cons first rest ih =>
      rw [List.foldlM_cons] at h
      rw [List.forall_mem_cons]
      by_cases hoff : chip_map first.1 = HCC_INPUT_CHANNEL_BAD_SLOT
      · rw [writeABC_off hoff] at h
        exact ⟨fun hon => absurd hoff hon, ih h⟩
      · by_cases hslot : chip_map first.1 < w.regs.length
        · rw [writeABC_eq hoff (List.getElem?_eq_getElem hslot)] at h
          have hrest := ih h
          simp only [writeStrips, List.length_set] at hrest
          exact ⟨fun _ => hslot, hrest⟩
        · rw [writeABC_past hoff (Nat.le_of_not_lt hslot)] at h
          cases h

/-! ## The whole file -/

namespace StarCfg

variable (cfg : StarCfg)

def inputEnables : Nat := ICENABLE.getValue (cfg.hcc.registers.value ICENABLE.m_regAddress).toNat

/-- The channel is enabled in the HCC. -/
def enabled (ic : Fin MaxABCsPerHCC) : Bool := cfg.inputEnables.testBit ic.val

/-- Every ABC on an enabled channel is written to a slot of its own. -/
def WrittenApart : Prop :=
  ∃ (j : AbcsJson) (slot : Fin MaxABCsPerHCC → Nat), cfg.writeConfig = .ok j ∧
    (∀ it ∈ cfg.m_ABCchips, cfg.enabled it.1 = true → WrittenAt j (slot it.1) it.2) ∧
    ∀ it ∈ cfg.m_ABCchips, ∀ it' ∈ cfg.m_ABCchips, cfg.enabled it.1 = true →
      cfg.enabled it'.1 = true → slot it.1 = slot it'.1 → it.1 = it'.1

/-- The enabled channels above one. -/
def enabledAbove (ic : Fin MaxABCsPerHCC) : Nat :=
  ((List.finRange MaxABCsPerHCC).filter (ic < ·)).countP cfg.enabled

def chipMap : ChipMap := HccCfg.histoChipMap cfg.hcc.version_1 cfg.inputEnables

theorem writeConfig_eq : cfg.writeConfig =
    (cfg.m_ABCchips.foldlM (writeABC cfg.chipMap cfg.lowestABC) {
      j := { IDs := [], masked := [], trims := [], regs := [], common := fun _ => none }
      regs := List.replicate cfg.regsSize fun _ => none }).map writeOwn := by
  have hvalue : cfg.hcc.getSubRegisterValue ICENABLE = .ok cfg.inputEnables := by
    have haddress : ∀ version_1, ICENABLE.m_regAddress ∈ hccAddresses version_1 := by decide
    unfold HccCfg.getSubRegisterValue RegisterSet.get
    rw [if_pos (haddress _)]
    rfl
  unfold writeConfig
  rw [hvalue]
  rfl

theorem chipMap_ne_bad_iff (ic : Fin MaxABCsPerHCC) :
    cfg.chipMap ic ≠ HCC_INPUT_CHANNEL_BAD_SLOT ↔ cfg.enabled ic = true := by
  unfold chipMap enabled
  rw [Ne, HccCfg.histoChipMap_eq_bad_iff, Bool.not_eq_false]

/-- The file is written if the slots of all ABCs are there. -/
theorem writtenApart_of_slots (hslots : ∀ it ∈ cfg.m_ABCchips, cfg.enabled it.1 = true →
    cfg.chipMap it.1 < cfg.regsSize) : cfg.WrittenApart := by
  have hsorted : cfg.m_ABCchips.Pairwise fun a b => a.1 < b.1 := List.pairwise_map.mp cfg.sorted
  have hdistinct : cfg.m_ABCchips.Pairwise fun a b =>
      cfg.chipMap b.1 ≠ HCC_INPUT_CHANNEL_BAD_SLOT → cfg.chipMap a.1 ≠ cfg.chipMap b.1 := by
    apply hsorted.imp
    intro a b hlt hon heq
    have hsame := HccCfg.histoChipMap_injective ((cfg.chipMap_ne_bad_iff b.1).mp hon) heq.symm
    exact (Nat.ne_of_lt hlt) (congrArg Fin.val hsame.symm)
  have hlowest : cfg.m_ABCchips.Pairwise fun _ b => cfg.lowestABC ≠ some b.1 := by
    unfold lowestABC
    cases hchips : cfg.m_ABCchips with
    | nil => exact List.Pairwise.nil
    | cons first rest =>
        rw [hchips] at hsorted
        rcases List.pairwise_cons.mp hsorted with ⟨hfirst, _⟩
        rw [List.pairwise_cons]
        have hafter : ∀ b ∈ rest, ((first :: rest).head?.map Prod.fst) ≠ some b.1 := fun b hb heq =>
          (Nat.ne_of_lt (hfirst b hb)) (congrArg Fin.val (Option.some.inj heq))
        exact ⟨hafter, List.pairwise_of_forall_mem_list fun _ _ b hb => hafter b hb⟩
  have hstart : Progress cfg.chipMap [] {
      j := { IDs := [], masked := [], trims := [], regs := [], common := fun _ => none }
      regs := List.replicate cfg.regsSize fun _ => none } :=
    ⟨fun _ h => (nomatch h), fun _ h => (nomatch h), fun _ h => (nomatch h), fun _ h => (nomatch h),
      fun _ h => (nomatch h), fun _ _ => rfl⟩
  have hinside : ∀ it ∈ cfg.m_ABCchips, cfg.chipMap it.1 ≠ HCC_INPUT_CHANNEL_BAD_SLOT →
      cfg.chipMap it.1 < (List.replicate cfg.regsSize (fun _ => none : RegValues)).length := by
    intro it hit hon
    rw [List.length_replicate]
    exact hslots it hit ((cfg.chipMap_ne_bad_iff it.1).mp hon)
  rcases hstart.run cfg.m_ABCchips hdistinct hlowest hinside with ⟨w, hrun, hdone⟩
  rw [List.nil_append] at hdone
  have hwrite : cfg.writeConfig = .ok (writeOwn w) := by
    rw [writeConfig_eq, hrun]
    rfl
  have hat : ∀ it ∈ cfg.m_ABCchips, cfg.enabled it.1 = true →
      WrittenAt (writeOwn w) (cfg.chipMap it.1) it.2 := by
    intro it hit hon
    have hne := (cfg.chipMap_ne_bad_iff it.1).mpr hon
    rcases hdone.regs it hit hne with ⟨values, hvalues, hreg⟩
    have hown : (writeOwn w).regs.at? (cfg.chipMap it.1) = some fun reg =>
        if (w.j.common reg).isSome then none else values reg := by
      simp only [writeOwn, SparseArray.at?, List.getElem?_map, hvalues, Option.map_some,
        Option.join_some]
    have hregs : ∀ reg ∈ writtenRegs it.2.version_1,
        (writeOwn w).registerAt (cfg.chipMap it.1) reg = some (it.2.registers.value reg) := by
      intro reg hwritten
      unfold AbcsJson.registerAt
      rw [hown]
      show ((if (w.j.common reg).isSome then none else values reg).or (w.j.common reg)) = _
      cases hcommon : w.j.common reg with
      | none => simpa using hreg reg hwritten
      | some val => simpa using (hdone.common it hit hne reg hwritten val hcommon).symm
    exact ⟨hdone.id it hit hne, hregs, hdone.masked it hit hne, hdone.trims it hit hne⟩
  exact ⟨writeOwn w, cfg.chipMap, hwrite, hat, fun it _ it' _ hon _ heq =>
    HccCfg.histoChipMap_injective hon heq⟩

theorem slots_of_writeConfig {j : AbcsJson} (h : cfg.writeConfig = .ok j) :
    ∀ it ∈ cfg.m_ABCchips, cfg.enabled it.1 = true → cfg.chipMap it.1 < cfg.regsSize := by
  rw [writeConfig_eq] at h
  intro it hit hon
  cases hrun : cfg.m_ABCchips.foldlM (writeABC cfg.chipMap cfg.lowestABC) {
      j := { IDs := [], masked := [], trims := [], regs := [], common := fun _ => none }
      regs := List.replicate cfg.regsSize fun _ => none } with
  | error failure =>
      rw [hrun] at h
      cases h
  | ok w =>
      have hlt := slots_lt_of_foldlM _ hrun it hit ((cfg.chipMap_ne_bad_iff it.1).mpr hon)
      rwa [List.length_replicate] at hlt

theorem lt_regsSize {it : Fin MaxABCsPerHCC × AbcCfg} (hit : it ∈ cfg.m_ABCchips) :
    it.1.val < cfg.regsSize := by
  have hne : cfg.m_ABCchips ≠ [] := List.ne_nil_of_mem hit
  have hhighest : cfg.highestABC = some (cfg.m_ABCchips.getLast hne).1 := by
    unfold highestABC
    rw [List.getLast?_eq_getLast_of_ne_nil hne]
    rfl
  have hsorted : cfg.m_ABCchips.Pairwise fun a b => a.1 < b.1 := List.pairwise_map.mp cfg.sorted
  have hle : it.1 ≤ (cfg.m_ABCchips.getLast hne).1 := by
    rw [← List.dropLast_append_getLast hne] at hit hsorted
    rcases List.mem_append.mp hit with hbefore | hlast
    · exact Nat.le_of_lt
        ((List.pairwise_append.mp hsorted).2.2 it hbefore _ (List.mem_singleton_self _))
    · exact le_of_eq (congrArg Prod.fst (List.mem_singleton.mp hlast))
  unfold regsSize
  rw [hhighest]
  exact Nat.lt_succ_of_le hle

/-- The second version never leaves the vector. The first does where more channels are enabled
above an ABC than there are channels up to the highest ABC. -/
theorem writeConfig_apart_iff : cfg.WrittenApart ↔ cfg.hcc.version_1 = true ∨
    ∀ it ∈ cfg.m_ABCchips, cfg.enabled it.1 = true → cfg.enabledAbove it.1 < cfg.regsSize := by
  cases hversion : cfg.hcc.version_1 with
  | true =>
      have hslots : ∀ it ∈ cfg.m_ABCchips, cfg.enabled it.1 = true →
          cfg.chipMap it.1 < cfg.regsSize := by
        intro it hit hon
        have hcount : ((List.finRange MaxABCsPerHCC).filter (· < it.1)).countP cfg.enabled ≤
            it.1.val := by
          have hlength : ∀ ic : Fin MaxABCsPerHCC,
              ((List.finRange MaxABCsPerHCC).filter (· < ic)).length = ic.val := by decide
          rw [← hlength it.1]
          exact List.countP_le_length
        unfold chipMap
        rw [hversion, HccCfg.histoChipMap_version_1 hon]
        exact Nat.lt_of_le_of_lt hcount (cfg.lt_regsSize hit)
      exact ⟨fun _ => Or.inl rfl, fun _ => cfg.writtenApart_of_slots hslots⟩
  | false =>
      have hslot : ∀ ic, cfg.enabled ic = true → cfg.chipMap ic = cfg.enabledAbove ic := by
        intro ic hon
        unfold chipMap
        rw [hversion, HccCfg.histoChipMap_version_0 hon]
        rfl
      constructor
      · rintro ⟨j, _, hwrite, _⟩
        right
        intro it hit hon
        rw [← hslot it.1 hon]
        exact cfg.slots_of_writeConfig hwrite it hit hon
      · intro hcondition
        have habove := hcondition.resolve_left Bool.false_ne_true
        apply cfg.writtenApart_of_slots
        intro it hit hon
        rw [hslot it.1 hon]
        exact habove it hit hon

/-- The channels 0 and 1 are enabled on an HCC of the first version, with an ABC on channel 0. -/
def oneOfTwo : StarCfg where
  hcc := { version_1 := false, m_hccID := 2, registers := ⟨fun _ => 3⟩ }
  m_ABCchips := [(⟨0, MaxABCsPerHCC_pos⟩, { version_1 := false, m_abcID := 4, registers := ⟨fun _ => 0⟩ })]
  sorted := by simp

theorem writeConfig_leaves_vector : ¬∀ cfg : StarCfg, cfg.WrittenApart := by
  intro h
  rcases h oneOfTwo with ⟨j, _, hwrite, _⟩
  have hslot := slots_of_writeConfig oneOfTwo hwrite _ List.mem_cons_self (by decide)
  revert hslot
  decide

end StarCfg

end Yarr.Star
