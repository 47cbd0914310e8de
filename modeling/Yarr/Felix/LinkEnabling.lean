import Mathlib.Tactic.IntervalCases
import Yarr.Felix.FelixController
import Yarr.Felix.FelixTools

/-!
# Enabling links

An exclusive call for IC channels or e-links leaves the listed links enabled and
no others. The one for EC channels takes the registers of the IC channels to
start with: it leaves the other EC channels as they are and disables the IC
channels.
-/

namespace Yarr.Felix

open FelixTools

namespace FelixController

/-! ## Directions -/

/-- The directions whose links an exclusive call is about: with no link, both. -/
def Covered (fids : List FelixID) (dir : Bool) : Prop :=
  fids = [] ∨ ∃ fid ∈ fids, toflx_from_fid fid = dir

theorem covers_iff (fids : List FelixID) (dir : Bool) :
    Covers (all_toflx_from_fids fids) (all_tohost_from_fids fids) dir ↔ Covered fids dir := by
  cases fids with
  | nil => simp [Covers, Covered, all_toflx_from_fids, all_tohost_from_fids]
  | cons fid fids =>
      have htoflx : all_toflx_from_fids (fid :: fids) = true ↔
          ¬ ∃ fid' ∈ fid :: fids, toflx_from_fid fid' = false := by
        simp [all_toflx_from_fids]
      have htohost : all_tohost_from_fids (fid :: fids) = true ↔
          ¬ ∃ fid' ∈ fid :: fids, toflx_from_fid fid' = true := by
        simp [all_tohost_from_fids]
      have hfirst : ∃ fid' ∈ fid :: fids, toflx_from_fid fid' = toflx_from_fid fid :=
        ⟨fid, List.mem_cons_self, rfl⟩
      rw [Covers, Covered]
      by_cases htrue : ∃ fid' ∈ fid :: fids, toflx_from_fid fid' = true
      · have hnot : all_tohost_from_fids (fid :: fids) = false :=
          Bool.eq_false_iff.mpr fun h => htohost.mp h htrue
        by_cases hfalse : ∃ fid' ∈ fid :: fids, toflx_from_fid fid' = false
        · have hnot' : all_toflx_from_fids (fid :: fids) = false :=
            Bool.eq_false_iff.mpr fun h => htoflx.mp h hfalse
          rw [hnot, hnot']
          cases dir with
          | true => exact iff_of_true (Or.inl rfl) (Or.inr htrue)
          | false => exact iff_of_true (Or.inl rfl) (Or.inr hfalse)
        · rw [hnot, htoflx.mpr hfalse]
          cases dir with
          | true => exact iff_of_true (Or.inr rfl) (Or.inr htrue)
          | false => exact iff_of_false (by simp) (by simpa using hfalse)
      · have hfalse : ∃ fid' ∈ fid :: fids, toflx_from_fid fid' = false := by
          cases hdir : toflx_from_fid fid with
          | true => exact absurd (hdir ▸ hfirst) htrue
          | false => exact hdir ▸ hfirst
        have hnot : all_toflx_from_fids (fid :: fids) = false :=
          Bool.eq_false_iff.mpr fun h => htoflx.mp h hfalse
        rw [hnot, htohost.mpr htrue]
        cases dir with
        | true => exact iff_of_false (by simp) (by simpa using htrue)
        | false => exact iff_of_true (Or.inr rfl) (Or.inr hfalse)

/-! ## What a link control call leaves -/

def Listed (fids : List FelixID) (linkId : Nat) (dir : Bool) : Prop :=
  ∃ fid ∈ fids, link_from_fid fid = linkId ∧ toflx_from_fid fid = dir

def Occurs (fids : List FelixID) (dir : Bool) : Prop := ∃ fid ∈ fids, toflx_from_fid fid = dir

/-- An exclusive call for channels of one kind, one register for each link. -/
structure ChannelsExclusive (regName : Nat → Bool → String)
    (set : List FelixID → FelixCard → Bool × FelixCard) (get : List FelixID → FelixCard → Bool)
    (fids : List FelixID) (card : FelixCard) : Prop where
  enabled : ∀ linkId < FLX_LINKS, ∀ dir, Occurs fids dir →
    ((set fids card).2.registers (regName linkId dir) = 1 ↔ Listed fids linkId dir)
  others : ∀ name, (∀ linkId dir, name ≠ regName linkId dir) →
    (set fids card).2.registers name = card.registers name
  get : get fids (set fids card).2 = true

structure ELinksExclusive (fwmode : FELIX_FW_MODE) (fids : List FelixID) (card : FelixCard) :
    Prop where
  enabled : ∀ linkId < FLX_LINKS, ∀ dir,
    ∀ egroup < (if dir then FLX_TOFLX_EGROUPS else FLX_TOHOST_EGROUPS), ∀ epath, Occurs fids dir →
      ((((setELinkEnableExclusive fwmode fids card).2.registers
          (getELinkEnableRegName linkId egroup dir)).toBitVec.getLsbD epath = true) ↔
        ∃ fid ∈ fids, linkInfo_from_fid fid fwmode = ⟨linkId, egroup, epath, dir⟩)
  others : ∀ name, (∀ linkId egroup dir, name ≠ getELinkEnableRegName linkId egroup dir) →
    (setELinkEnableExclusive fwmode fids card).2.registers name = card.registers name
  get : getELinkEnableExclusive fwmode fids (setELinkEnableExclusive fwmode fids card).2 = true

/-- One call for each link of a list, in its order. -/
def setELinkEnableEach (fwmode : FELIX_FW_MODE) (order : List FelixID) (enable : Bool)
    (card : FelixCard) : FelixCard :=
  order.foldl (fun card fid => (setELinkEnable fwmode fid enable card).2) card

structure LinksEnabled (fwmode : FELIX_FW_MODE) (fids : List FelixID) (card : FelixCard) :
    Prop where
  ic : ChannelsExclusive getICEnableRegName setICEnableExclusive getICEnableExclusive fids card
  ec : ChannelsExclusive getECEnableRegName setECEnableExclusive getECEnableExclusive fids card
  elink : ELinksExclusive fwmode fids card
  each : ∀ enable order, order.Perm fids →
    (setELinkEnableList fwmode fids enable card).map Prod.snd =
      some (setELinkEnableEach fwmode order enable card)

/-- There is nothing that the call for EC channels would have to disable, or disables by mistake. -/
def EcReady (fids : List FelixID) (card : FelixCard) : Prop :=
  ∀ linkId < FLX_LINKS, ∀ dir, Covered fids dir →
    card.registers (getICEnableRegName linkId dir) = 0 ∧
      (¬ Listed fids linkId dir → card.registers (getECEnableRegName linkId dir) = 0)

/-! ## Channels -/

theorem mem_getAllICEnableRegNames {name : String} {dir : Bool} :
    name ∈ getAllICEnableRegNames dir ↔ ∃ linkId < FLX_LINKS, getICEnableRegName linkId dir = name := by
  simp [getAllICEnableRegNames]

theorem mem_getAllECEnableRegNames {name : String} {dir : Bool} :
    name ∈ getAllECEnableRegNames dir ↔ ∃ linkId < FLX_LINKS, getECEnableRegName linkId dir = name := by
  simp [getAllECEnableRegNames]

section
variable (getAllRegNames : Bool → List String) {entry : FelixID → String × UInt32}
  {fids : List FelixID} {card : FelixCard}

theorem ordered_exclusive (overwrite : Bool) :
    (exclusiveRegMap (initAllRegMap getAllRegNames) entry overwrite fids).Ordered :=
  ordered_filled entry overwrite fids (ordered_initAllRegMap getAllRegNames _ _)

theorem find_exclusive_listed (hone : ∀ fid, (entry fid).2 = 1) {name : String}
    (hname : ∃ fid ∈ fids, (entry fid).1 = name) :
    (exclusiveRegMap (initAllRegMap getAllRegNames) entry true fids).find name = some 1 := by
  rw [exclusiveRegMap, find_overwritten entry hone, if_pos hname]

theorem find_exclusive_covered (hone : ∀ fid, (entry fid).2 = 1) {name : String}
    (hname : ¬ ∃ fid ∈ fids, (entry fid).1 = name)
    (hcovered : ∃ dir, Covered fids dir ∧ name ∈ getAllRegNames dir) :
    (exclusiveRegMap (initAllRegMap getAllRegNames) entry true fids).find name = some 0 := by
  rw [exclusiveRegMap, find_overwritten entry hone, if_neg hname]
  apply find_initAllRegMap.1
  exact hcovered.imp fun dir h => ⟨(covers_iff fids dir).mpr h.1, h.2⟩

theorem find_exclusive_other (hone : ∀ fid, (entry fid).2 = 1) {name : String}
    (hname : ¬ ∃ fid ∈ fids, (entry fid).1 = name)
    (hother : ∀ dir, Covered fids dir → name ∉ getAllRegNames dir) :
    (exclusiveRegMap (initAllRegMap getAllRegNames) entry true fids).find name = none := by
  rw [exclusiveRegMap, find_overwritten entry hone, if_neg hname]
  apply find_initAllRegMap.2
  exact fun dir h => hother dir ((covers_iff fids dir).mp h)

theorem registers_of_find (overwrite : Bool) (h : card.Succeeds) {name : String} {value : UInt32}
    (hfind : (exclusiveRegMap (initAllRegMap getAllRegNames) entry overwrite fids).find name =
      some value) :
    (setRegValueAll (exclusiveRegMap (initAllRegMap getAllRegNames) entry overwrite fids) 0
      card).2.registers name = value.toUInt64 := by
  rw [setRegValueAll_eq (ordered_exclusive _ overwrite) 0 h]
  simp only [written, hfind]
  rfl

theorem registers_of_not_find (overwrite : Bool) (h : card.Succeeds) {name : String}
    (hfind : (exclusiveRegMap (initAllRegMap getAllRegNames) entry overwrite fids).find name =
      none) :
    (setRegValueAll (exclusiveRegMap (initAllRegMap getAllRegNames) entry overwrite fids) 0
      card).2.registers name = card.registers name := by
  rw [setRegValueAll_eq (ordered_exclusive _ overwrite) 0 h]
  simp only [written, hfind]

theorem succeeds_set {regMap : RegMap} (hmap : regMap.Ordered) (h : card.Succeeds) :
    (setRegValueAll regMap 0 card).2.Succeeds := by
  rw [setRegValueAll_eq hmap 0 h]
  exact h

theorem check_set {regMap : RegMap} (hmap : regMap.Ordered) (h : card.Succeeds) :
    checkRegValuesAll regMap 0 (setRegValueAll regMap 0 card).2 = true := by
  rw [checkRegValuesAll_iff hmap (succeeds_set hmap h)]
  intro name value hfind
  rw [setRegValueAll_eq hmap 0 h]
  simp only [written, hfind]
  rfl

end

section
variable (fids : List FelixID) {card : FelixCard}

theorem covered_of_occurs {fids : List FelixID} {dir : Bool} (h : Occurs fids dir) :
    Covered fids dir := Or.inr h

theorem ic_listed {fids : List FelixID} {linkId : Nat} {dir : Bool} :
    (∃ fid ∈ fids, (icEntry fid).1 = getICEnableRegName linkId dir) ↔ Listed fids linkId dir := by
  simp only [icEntry, getICEnableRegName_inj, Listed]

theorem ec_listed {fids : List FelixID} {linkId : Nat} {dir : Bool} :
    (∃ fid ∈ fids, (ecEntry fid).1 = getECEnableRegName linkId dir) ↔ Listed fids linkId dir := by
  simp only [ecEntry, getECEnableRegName_inj, Listed]

theorem ic_exclusive (h : card.Succeeds) :
    ChannelsExclusive getICEnableRegName setICEnableExclusive getICEnableExclusive fids card := by
  have hone : ∀ fid, (icEntry fid).2 = 1 := fun _ => rfl
  constructor
  · intro linkId hlink dir hoccurs
    by_cases hlisted : Listed fids linkId dir
    · have hfind := find_exclusive_listed getAllICEnableRegNames hone
        (ic_listed.mpr hlisted)
      exact iff_of_true (registers_of_find _ true h hfind) hlisted
    · have hfind := find_exclusive_covered getAllICEnableRegNames hone
        (fun hl => hlisted (ic_listed.mp hl))
        ⟨dir, covered_of_occurs hoccurs, mem_getAllICEnableRegNames.mpr ⟨linkId, hlink, rfl⟩⟩
      have hzero : (setICEnableExclusive fids card).2.registers (getICEnableRegName linkId dir) = 0 :=
        registers_of_find _ true h hfind
      exact iff_of_false (by rw [hzero]; decide) hlisted
  · intro name hname
    have hnot : ¬ ∃ fid ∈ fids, (icEntry fid).1 = name :=
      fun ⟨fid, _, hfid⟩ => hname _ _ hfid.symm
    have hother : ∀ dir, Covered fids dir → name ∉ getAllICEnableRegNames dir := by
      intro dir _ hmem
      obtain ⟨linkId, _, hlink⟩ := mem_getAllICEnableRegNames.mp hmem
      exact hname linkId dir hlink.symm
    exact registers_of_not_find _ true h (find_exclusive_other _ hone hnot hother)
  · exact check_set (ordered_exclusive _ true) h

/-- The registers of IC channels are set to zero, those of unlisted EC channels are not. -/
theorem ec_exclusive_iff (h : card.Succeeds) :
    ChannelsExclusive getECEnableRegName setECEnableExclusive getECEnableExclusive fids card ↔
      EcReady fids card := by
  have hone : ∀ fid, (ecEntry fid).2 = 1 := fun _ => rfl
  have hic : ∀ linkId < FLX_LINKS, ∀ dir, Covered fids dir →
      (setECEnableExclusive fids card).2.registers (getICEnableRegName linkId dir) = 0 := by
    intro linkId hlink dir hcovered
    have hnot : ¬ ∃ fid ∈ fids, (ecEntry fid).1 = getICEnableRegName linkId dir :=
      fun ⟨fid, _, hfid⟩ => getICEnableRegName_ne _ _ _ _ hfid.symm
    have hfind := find_exclusive_covered getAllICEnableRegNames hone hnot
      ⟨dir, hcovered, mem_getAllICEnableRegNames.mpr ⟨linkId, hlink, rfl⟩⟩
    exact registers_of_find _ true h hfind
  have hlisted : ∀ linkId dir, Listed fids linkId dir →
      (setECEnableExclusive fids card).2.registers (getECEnableRegName linkId dir) = 1 := by
    intro linkId dir hlisted
    have hfind := find_exclusive_listed getAllICEnableRegNames hone
      (ec_listed.mpr hlisted)
    exact registers_of_find _ true h hfind
  have hunlisted : ∀ linkId dir, ¬ Listed fids linkId dir →
      (setECEnableExclusive fids card).2.registers (getECEnableRegName linkId dir) =
        card.registers (getECEnableRegName linkId dir) := by
    intro linkId dir hlisted
    have hother : ∀ dir', Covered fids dir' →
        getECEnableRegName linkId dir ∉ getAllICEnableRegNames dir' := by
      intro dir' _ hmem
      obtain ⟨linkId', _, hlink'⟩ := mem_getAllICEnableRegNames.mp hmem
      exact getICEnableRegName_ne _ _ _ _ hlink'
    have hfind := find_exclusive_other getAllICEnableRegNames hone
      (fun hl => hlisted (ec_listed.mp hl)) hother
    exact registers_of_not_find _ true h hfind
  have hsucceeds : (setECEnableExclusive fids card).2.Succeeds :=
    succeeds_set (ordered_exclusive _ true) h
  constructor
  · intro hexclusive linkId hlink dir hcovered
    constructor
    · have hsame := hexclusive.others (getICEnableRegName linkId dir)
        (fun linkId' dir' => getICEnableRegName_ne linkId linkId' dir dir')
      rw [← hsame]
      exact hic linkId hlink dir hcovered
    · intro hnot
      have hget := (checkRegValuesAll_iff (ordered_exclusive _ true) hsucceeds).mp hexclusive.get
      have hfind := find_exclusive_covered getAllECEnableRegNames hone
        (fun hl => hnot (ec_listed.mp hl))
        ⟨dir, hcovered, mem_getAllECEnableRegNames.mpr ⟨linkId, hlink, rfl⟩⟩
      have hzero := hget _ _ hfind
      rw [hunlisted linkId dir hnot] at hzero
      exact hzero
  · intro hready
    constructor
    · intro linkId hlink dir hoccurs
      by_cases hlist : Listed fids linkId dir
      · exact iff_of_true (hlisted linkId dir hlist) hlist
      · have hzero := (hready linkId hlink dir (covered_of_occurs hoccurs)).2 hlist
        rw [hunlisted linkId dir hlist, hzero]
        exact iff_of_false (by decide) hlist
    · intro name hname
      by_cases hcovered : ∃ dir, Covered fids dir ∧ name ∈ getAllICEnableRegNames dir
      · obtain ⟨dir, hdir, hmem⟩ := hcovered
        obtain ⟨linkId, hlink, rfl⟩ := mem_getAllICEnableRegNames.mp hmem
        rw [hic linkId hlink dir hdir, (hready linkId hlink dir hdir).1]
      · have hnot : ¬ ∃ fid ∈ fids, (ecEntry fid).1 = name :=
          fun ⟨fid, _, hfid⟩ => hname _ _ hfid.symm
        have hfind := find_exclusive_other getAllICEnableRegNames hone hnot
          (fun dir hdir hmem => hcovered ⟨dir, hdir, hmem⟩)
        exact registers_of_not_find _ true h hfind
    · apply (checkRegValuesAll_iff (ordered_exclusive _ true) hsucceeds).mpr
      intro name value hvalue
      by_cases hlist : ∃ fid ∈ fids, (ecEntry fid).1 = name
      · rw [find_exclusive_listed getAllECEnableRegNames hone hlist] at hvalue
        obtain ⟨fid, hfid, rfl⟩ := hlist
        rw [← Option.some.inj hvalue]
        exact hlisted _ _ ⟨fid, hfid, rfl, rfl⟩
      · by_cases hcovered : ∃ dir, Covered fids dir ∧ name ∈ getAllECEnableRegNames dir
        · rw [find_exclusive_covered getAllECEnableRegNames hone hlist hcovered] at hvalue
          obtain ⟨dir, hdir, hmem⟩ := hcovered
          obtain ⟨linkId, hlink, rfl⟩ := mem_getAllECEnableRegNames.mp hmem
          have hnot : ¬ Listed fids linkId dir := fun hl => hlist (ec_listed.mpr hl)
          rw [← Option.some.inj hvalue, hunlisted linkId dir hnot]
          exact (hready linkId hlink dir hdir).2 hnot
        · have hother : ∀ dir, Covered fids dir → name ∉ getAllECEnableRegNames dir :=
            fun dir hdir hmem => hcovered ⟨dir, hdir, hmem⟩
          rw [find_exclusive_other getAllECEnableRegNames hone hlist hother] at hvalue
          cases hvalue

end

/-! ## E-links -/

section
variable {fwmode : FELIX_FW_MODE} {fids : List FelixID} {card : FelixCard}

theorem epath_lt (fid : FelixID) (fwmode : FELIX_FW_MODE) :
    (linkInfo_from_fid fid fwmode).epath < 32 := by
  simp only [linkInfo_from_fid]
  split
  · rw [epath_from_elink_lcb]
    omega
  · have hle : elink_from_fid fid &&& 3 ≤ 3 := Nat.and_le_right
    rw [epath_from_elink]
    omega

theorem getLsbD_toUInt64 (v : UInt32) (i : Nat) :
    v.toUInt64.toBitVec.getLsbD i = v.toBitVec.getLsbD i := by
  rw [UInt32.toBitVec_toUInt64, BitVec.getLsbD_setWidth]
  by_cases hi : i < 64
  · simp [hi]
  · rw [BitVec.getLsbD_of_ge v.toBitVec i (by omega), Bool.and_false]

theorem getLsbD_mask_elink (fid : FelixID) (fwmode : FELIX_FW_MODE) (i : Nat) :
    (elinkEntry fwmode fid).2.toBitVec.getLsbD i = true ↔
      (linkInfo_from_fid fid fwmode).epath = i := by
  have hlt := epath_lt fid fwmode
  simp only [elinkEntry]
  generalize (linkInfo_from_fid fid fwmode).epath = epath at hlt
  have hbits : ((1 : UInt32) <<< UInt32.ofNat epath).toBitVec = 1#32 <<< epath := by
    interval_cases epath <;> rfl
  rw [hbits, BitVec.getLsbD_shiftLeft]
  simp
  omega

theorem mask_ne_zero (fid : FelixID) (fwmode : FELIX_FW_MODE) : (elinkEntry fwmode fid).2 ≠ 0 := by
  intro hzero
  have hbit := (getLsbD_mask_elink fid fwmode _).mpr rfl
  rw [hzero] at hbit
  simp at hbit

theorem getLsbD_orOf (name : String) (fids : List FelixID) (i : Nat) :
    (orOf (elinkEntry fwmode) name fids).toBitVec.getLsbD i = true ↔
      ∃ fid ∈ fids, (elinkEntry fwmode fid).1 = name ∧ (linkInfo_from_fid fid fwmode).epath = i := by
  induction fids with
  | nil => simp [orOf]
  | cons fid fids ih =>
      rw [orOf, UInt32.toBitVec_or, BitVec.getLsbD_or, Bool.or_eq_true, ih, List.exists_mem_cons_iff]
      apply or_congr_left
      by_cases hname : (elinkEntry fwmode fid).1 = name
      · rw [if_pos hname, getLsbD_mask_elink]
        simp [hname]
      · rw [if_neg hname]
        simp [hname]

theorem orOf_perm {order : List FelixID} (h : order.Perm fids) (name : String) :
    orOf (elinkEntry fwmode) name order = orOf (elinkEntry fwmode) name fids := by
  apply UInt32.toBitVec_inj.mp
  apply BitVec.eq_of_getLsbD_eq
  intro i hi
  rw [Bool.eq_iff_iff, getLsbD_orOf, getLsbD_orOf]
  simp only [h.mem_iff]

theorem orOf_eq_zero_iff (name : String) (fids : List FelixID) :
    orOf (elinkEntry fwmode) name fids = 0 ↔ ¬ ∃ fid ∈ fids, (elinkEntry fwmode fid).1 = name := by
  constructor
  · intro hzero ⟨fid, hfid, hname⟩
    have hbit := (getLsbD_orOf name fids _).mpr ⟨fid, hfid, hname, rfl⟩
    rw [hzero] at hbit
    simp at hbit
  · exact orOf_eq_zero

theorem mem_getAllELinkEnableRegNames {name : String} {dir : Bool} :
    name ∈ getAllELinkEnableRegNames dir ↔
      ∃ linkId < FLX_LINKS, ∃ egroup < (if dir then FLX_TOFLX_EGROUPS else FLX_TOHOST_EGROUPS),
        getELinkEnableRegName linkId egroup dir = name := by
  simp [getAllELinkEnableRegNames]

theorem find_elink (name : String) :
    (exclusiveRegMap initAllELinkEnableRegMap (elinkEntry fwmode) false fids).find name =
      if ∃ fid ∈ fids, (elinkEntry fwmode fid).1 = name then
        some (orOf (elinkEntry fwmode) name fids)
      else
        (initAllELinkEnableRegMap (all_toflx_from_fids fids) (all_tohost_from_fids fids)).find
          name := by
  rw [exclusiveRegMap, find_union]
  have hzero : ((initAllELinkEnableRegMap (all_toflx_from_fids fids)
      (all_tohost_from_fids fids)).find name).getD 0 = 0 := by
    by_cases hcovered : ∃ dir, Covers (all_toflx_from_fids fids) (all_tohost_from_fids fids) dir ∧
        name ∈ getAllELinkEnableRegNames dir
    · rw [initAllELinkEnableRegMap, find_initAllRegMap.1 hcovered]
      rfl
    · have hother : ∀ dir, Covers (all_toflx_from_fids fids) (all_tohost_from_fids fids) dir →
          name ∉ getAllELinkEnableRegNames dir := fun dir hdir hmem => hcovered ⟨dir, hdir, hmem⟩
      rw [initAllELinkEnableRegMap, find_initAllRegMap.2 hother]
      rfl
  rw [hzero, UInt32.zero_or]

theorem elink_listed {linkId egroup epath : Nat} {dir : Bool} :
    (∃ fid ∈ fids, (elinkEntry fwmode fid).1 = getELinkEnableRegName linkId egroup dir ∧
        (linkInfo_from_fid fid fwmode).epath = epath) ↔
      ∃ fid ∈ fids, linkInfo_from_fid fid fwmode = ⟨linkId, egroup, epath, dir⟩ := by
  apply exists_congr
  intro fid
  apply and_congr_right
  intro _
  rw [elinkEntry, getELinkEnableRegName_inj]
  constructor
  · intro ⟨⟨hlink, hegroup, hdir⟩, hepath⟩
    rw [← hlink, ← hegroup, ← hepath, ← hdir]
  · intro hinfo
    rw [hinfo]
    exact ⟨⟨rfl, rfl, rfl⟩, rfl⟩

theorem elink_exclusive (h : card.Succeeds) : ELinksExclusive fwmode fids card := by
  constructor
  · intro linkId hlink dir egroup hegroup epath hoccurs
    have hvalue : (setELinkEnableExclusive fwmode fids card).2.registers
        (getELinkEnableRegName linkId egroup dir) =
          (orOf (elinkEntry fwmode) (getELinkEnableRegName linkId egroup dir) fids).toUInt64 := by
      apply registers_of_find _ false h
      rw [← initAllELinkEnableRegMap, find_elink]
      by_cases hlisted : ∃ fid ∈ fids,
          (elinkEntry fwmode fid).1 = getELinkEnableRegName linkId egroup dir
      · rw [if_pos hlisted]
      · rw [if_neg hlisted, orOf_eq_zero hlisted, initAllELinkEnableRegMap]
        apply find_initAllRegMap.1
        exact ⟨dir, (covers_iff fids dir).mpr (covered_of_occurs hoccurs),
          mem_getAllELinkEnableRegNames.mpr ⟨linkId, hlink, egroup, hegroup, rfl⟩⟩
    rw [hvalue, ← elink_listed, ← getLsbD_orOf, getLsbD_toUInt64]
  · intro name hname
    apply registers_of_not_find _ false h
    rw [← initAllELinkEnableRegMap, find_elink, if_neg (fun ⟨fid, _, hfid⟩ => hname _ _ _ hfid.symm),
      initAllELinkEnableRegMap]
    apply find_initAllRegMap.2
    intro dir _ hmem
    obtain ⟨linkId, _, egroup, _, hlink⟩ := mem_getAllELinkEnableRegNames.mp hmem
    exact hname linkId egroup dir hlink.symm
  · exact check_set (ordered_exclusive _ false) h

/-! ## One e-link after the other -/

/-- The bits of a mask if they are enabled, else none. -/
def selected (enable : Bool) (mask : UInt32) : UInt32 := if enable then mask else 0

theorem getLsbD_masked (old : UInt64) (value mask : UInt32) (i : Nat) :
    (masked old value mask).toBitVec.getLsbD i =
      (old.toBitVec.getLsbD i && (decide (i < 32) && !mask.toBitVec.getLsbD i) ||
        value.toBitVec.getLsbD i && mask.toBitVec.getLsbD i) := by
  rw [masked, UInt64.toBitVec_or, BitVec.getLsbD_or, UInt64.toBitVec_and, BitVec.getLsbD_and,
    getLsbD_toUInt64, getLsbD_toUInt64, UInt32.toBitVec_not, BitVec.getLsbD_not,
    UInt32.toBitVec_and, BitVec.getLsbD_and]

theorem getLsbD_selected (enable : Bool) (mask : UInt32) (i : Nat) :
    (selected enable mask).toBitVec.getLsbD i = (enable && mask.toBitVec.getLsbD i) := by
  cases enable with
  | true => rfl
  | false => simp [selected]

theorem masked_masked (old : UInt64) (enable : Bool) (first second : UInt32) :
    masked (masked old (selected enable first) first) (selected enable second) second =
      masked old (selected enable (first ||| second)) (first ||| second) := by
  apply UInt64.toBitVec_inj.mp
  apply BitVec.eq_of_getLsbD_eq
  intro i hi
  simp only [getLsbD_masked, getLsbD_selected, UInt32.toBitVec_or, BitVec.getLsbD_or]
  cases hlow : decide (i < 32) with
  | true => grind
  | false =>
      have hfirst : first.toBitVec.getLsbD i = false :=
        BitVec.getLsbD_of_ge _ i (by simpa using hlow)
      simp [hfirst]

theorem enableValue_eq (enable : Bool) (fid : FelixID) :
    enableValue fwmode enable fid = selected enable (elinkEntry fwmode fid).2 := by
  cases enable with
  | true => rfl
  | false =>
      have hlt := epath_lt fid fwmode
      rw [enableValue]
      generalize (linkInfo_from_fid fid fwmode).epath = epath at hlt
      simp [selected]

/-- What the calls for the links of a list leave in a register. -/
def modified (fwmode : FELIX_FW_MODE) (fids : List FelixID) (enable : Bool) (name : String)
    (old : UInt64) : UInt64 :=
  let mask := orOf (elinkEntry fwmode) name fids
  if mask = 0 then old else masked old (selected enable mask) mask

theorem setELinkEnable_eq (h : card.Succeeds) (fid : FelixID) (enable : Bool) :
    (setELinkEnable fwmode fid enable card).2 = { card with
      registers := fun name => modified fwmode [fid] enable name (card.registers name) } := by
  rw [setELinkEnable, setRegValue_eq h]
  simp only [FelixCard.mk.injEq, and_true]
  funext name
  by_cases hname : name = (elinkEntry fwmode fid).1
  · rw [if_pos hname, newValue, if_pos (mask_ne_zero fid fwmode), enableValue_eq]
    have hmask : orOf (elinkEntry fwmode) name [fid] = (elinkEntry fwmode fid).2 := by
      simp [orOf, hname]
    rw [modified, hmask, if_neg (mask_ne_zero fid fwmode)]
  · have hmask : orOf (elinkEntry fwmode) name [fid] = 0 := by
      simp [orOf, Ne.symm hname]
    rw [if_neg hname, modified, hmask]
    rfl

theorem modified_cons (fid : FelixID) (fids : List FelixID) (enable : Bool) (name : String)
    (old : UInt64) :
    modified fwmode fids enable name (modified fwmode [fid] enable name old) =
      modified fwmode (fid :: fids) enable name old := by
  have hsingle : orOf (elinkEntry fwmode) name [fid] =
      if (elinkEntry fwmode fid).1 = name then (elinkEntry fwmode fid).2 else 0 := by
    simp [orOf]
  have hcons : orOf (elinkEntry fwmode) name (fid :: fids) =
      orOf (elinkEntry fwmode) name [fid] ||| orOf (elinkEntry fwmode) name fids := by
    rw [hsingle]
    rfl
  simp only [modified]
  rw [hcons]
  generalize orOf (elinkEntry fwmode) name [fid] = first
  generalize orOf (elinkEntry fwmode) name fids = rest
  by_cases hfirst : first = 0
  · simp [hfirst]
  · by_cases hrest : rest = 0
    · simp [hrest]
    · have hunion : first ||| rest ≠ 0 := fun hzero => hfirst (UInt32.or_eq_zero_iff.mp hzero).1
      rw [if_neg hfirst, if_neg hrest, if_neg hunion, masked_masked]

theorem setELinkEnableEach_eq (h : card.Succeeds) (order : List FelixID) (enable : Bool) :
    setELinkEnableEach fwmode order enable card = { card with
      registers := fun name => modified fwmode order enable name (card.registers name) } := by
  induction order generalizing card with
  | nil => rfl
  | cons fid order ih =>
      have hsucceeds : FelixCard.Succeeds { card with
          registers := fun name => modified fwmode [fid] enable name (card.registers name) } := h
      rw [setELinkEnableEach, List.foldl_cons, setELinkEnable_eq h, ← setELinkEnableEach,
        ih hsucceeds]
      simp only [modified_cons]

/-! ## The list in one call -/

theorem keys_insert (key : String) (value value' : UInt32) {regMap regMap' : RegMap}
    (h : regMap.map Prod.fst = regMap'.map Prod.fst) :
    (regMap.insert key value).map Prod.fst = (regMap'.insert key value').map Prod.fst := by
  induction regMap generalizing regMap' with
  | nil =>
      cases regMap' with
      | nil => rfl
      | cons e regMap' => cases h
  | cons e regMap ih =>
      cases regMap' with
      | nil => cases h
      | cons e' regMap' =>
          obtain ⟨k, v⟩ := e
          obtain ⟨k', v'⟩ := e'
          rw [List.map_cons, List.map_cons, List.cons.injEq] at h
          rcases h with ⟨hkey, hrest⟩
          dsimp only at hkey
          subst hkey
          rw [NameMap.insert, NameMap.insert]
          split
          · simp [hrest]
          · split
            · simp [hrest]
            · simp [ih hrest]

theorem updateRegMap_eq_insert (regMap : RegMap) (key : String) (value : UInt32)
    (overwrite : Bool) : ∃ v, updateRegMap regMap key value overwrite = regMap.insert key v := by
  unfold updateRegMap
  split
  · split
    · exact ⟨_, rfl⟩
    · exact ⟨_, rfl⟩
  · exact ⟨_, rfl⟩

theorem keys_filled (key : FelixID → String) (value value' : FelixID → UInt32)
    (fids : List FelixID) {regMap regMap' : RegMap}
    (h : regMap.map Prod.fst = regMap'.map Prod.fst) :
    (fids.foldl (fun regMap fid => updateRegMap regMap (key fid) (value fid) false)
        regMap).map Prod.fst =
      (fids.foldl (fun regMap fid => updateRegMap regMap (key fid) (value' fid) false)
        regMap').map Prod.fst := by
  induction fids generalizing regMap regMap' with
  | nil => exact h
  | cons fid fids ih =>
      apply ih
      obtain ⟨v, hv⟩ := updateRegMap_eq_insert regMap (key fid) (value fid) false
      obtain ⟨v', hv'⟩ := updateRegMap_eq_insert regMap' (key fid) (value' fid) false
      dsimp only
      rw [hv, hv']
      exact keys_insert (key fid) v v' h

theorem orOf_enableValue (enable : Bool) (name : String) (fids : List FelixID) :
    orOf (fun fid => ((elinkEntry fwmode fid).1, enableValue fwmode enable fid)) name fids =
      selected enable (orOf (elinkEntry fwmode) name fids) := by
  induction fids with
  | nil => cases enable <;> rfl
  | cons fid fids ih =>
      rw [orOf, orOf, ih, enableValue_eq]
      by_cases hname : (elinkEntry fwmode fid).1 = name
      · cases enable with
        | true => rfl
        | false => simp [selected]
      · simp [hname]

theorem setELinkEnableList_eq (h : card.Succeeds) (enable : Bool) :
    setELinkEnableList fwmode fids enable card = some (true, { card with
      registers := fun name => modified fwmode fids enable name (card.registers name) }) := by
  have hnil : NameMap.Ordered ([] : RegMap) := List.Pairwise.nil
  have hkeys := keys_filled (fun fid => (elinkEntry fwmode fid).1) (enableValue fwmode enable)
    (fun fid => (elinkEntry fwmode fid).2) fids (Eq.refl (([] : RegMap).map Prod.fst))
  have hvalue := find_union
    (fun fid => ((elinkEntry fwmode fid).1, enableValue fwmode enable fid)) fids []
  have hmask := find_union (elinkEntry fwmode) fids []
  have hordered := ordered_filled
    (fun fid => ((elinkEntry fwmode fid).1, enableValue fwmode enable fid)) false fids hnil
  simp only [orOf_enableValue] at hvalue
  dsimp only at hkeys hordered
  unfold setELinkEnableList
  generalize fids.foldl (fun (regMap : RegMap) fid => updateRegMap regMap (elinkEntry fwmode fid).1
    (enableValue fwmode enable fid) false) [] = enableRegValue at hkeys hvalue hordered ⊢
  generalize fids.foldl (fun (regMap : RegMap) fid => updateRegMap regMap (elinkEntry fwmode fid).1
    (elinkEntry fwmode fid).2 false) [] = enableRegMask at hkeys hmask ⊢
  have hlength : enableRegValue.length = enableRegMask.length := by
    simpa using congrArg List.length hkeys
  have hfound : ∀ e ∈ enableRegValue, enableRegMask.find e.1 ≠ none := by
    intro e he hnone
    have hfind := hordered.find_of_mem he
    rw [hvalue] at hfind
    rw [hmask] at hnone
    by_cases hlisted : ∃ fid ∈ fids, (elinkEntry fwmode fid).1 = e.1
    · rw [if_pos hlisted] at hnone
      cases hnone
    · rw [if_neg hlisted] at hfind
      cases hfind
  rw [setRegValueAllMasked_eq hordered hlength hfound h]
  simp only [Option.some.injEq, Prod.mk.injEq, true_and, FelixCard.mk.injEq, and_true]
  funext name
  simp only [written]
  rw [hvalue, hmask]
  by_cases hlisted : ∃ fid ∈ fids, (elinkEntry fwmode fid).1 = name
  · have hnonzero : orOf (elinkEntry fwmode) name fids ≠ 0 :=
      fun hzero => (orOf_eq_zero_iff name fids).mp hzero hlisted
    simp only [if_pos hlisted, NameMap.find, Option.getD_none, Option.getD_some, UInt32.zero_or]
    rw [newValue, if_pos hnonzero, modified, if_neg hnonzero]
  · have hzero : orOf (elinkEntry fwmode) name fids = 0 :=
      (orOf_eq_zero_iff name fids).mpr hlisted
    simp only [if_neg hlisted, NameMap.find]
    rw [modified, hzero]
    rfl

theorem setELinkEnable_each (h : card.Succeeds) (enable : Bool) {order : List FelixID}
    (horder : order.Perm fids) :
    (setELinkEnableList fwmode fids enable card).map Prod.snd =
      some (setELinkEnableEach fwmode order enable card) := by
  rw [setELinkEnableList_eq h, setELinkEnableEach_eq h]
  simp only [modified, orOf_perm horder]
  rfl

end

/-! ## The whole of the link control -/

/--
IC channels and e-links are always left as they should be. The EC channels are
exactly if nothing was to be disabled.
-/
theorem links_enabled_iff (fwmode : FELIX_FW_MODE) (fids : List FelixID) {card : FelixCard}
    (h : card.Succeeds) : LinksEnabled fwmode fids card ↔ EcReady fids card := by
  constructor
  · exact fun hlinks => (ec_exclusive_iff fids h).mp hlinks.ec
  · intro hready
    constructor
    · exact ic_exclusive fids h
    · exact (ec_exclusive_iff fids h).mpr hready
    · exact elink_exclusive h
    · exact fun enable order horder => setELinkEnable_each h enable horder

theorem links_enabled_all_disabled :
    LinksEnabled .ITK_Strip [0x1000000000008000, 0x1000000000540000]
      ⟨fun _ => 0, fun _ => true, fun _ => true⟩ :=
  (links_enabled_iff .ITK_Strip [0x1000000000008000, 0x1000000000540000]
    (fun _ => ⟨rfl, rfl⟩)).mpr fun _ _ _ _ => ⟨rfl, fun _ => rfl⟩

/-- Link 0 to FELIX, on a card where all channels are enabled: the IC channels are disabled. -/
theorem ec_disables_ic :
    ¬ ∀ (fwmode : FELIX_FW_MODE) (fids : List FelixID) (card : FelixCard), card.Succeeds →
      LinksEnabled fwmode fids card := by
  intro h
  let card : FelixCard := ⟨fun _ => 1, fun _ => true, fun _ => true⟩
  have hsucceeds : card.Succeeds := fun _ => ⟨rfl, rfl⟩
  have hlinks := h .ITK_Pixel [0x1000000000008000] card hsucceeds
  have hready := (ec_exclusive_iff [0x1000000000008000] hsucceeds).mp hlinks.ec
  have hcovered : Covered [0x1000000000008000] true :=
    Or.inr ⟨0x1000000000008000, List.mem_cons_self, by decide⟩
  have hzero := (hready 0 (by decide) true hcovered).1
  exact absurd hzero (by decide)

end FelixController

end Yarr.Felix
