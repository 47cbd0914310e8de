import Yarr.Felix.LinkEnabling

/-!
# Fields of registers

Widths have a register for each group, encodings of e-paths four bits of one.
A field is modified under a mask of 32 bits in a register of 64, so the upper
half of the register goes with it.
-/

namespace Yarr.Felix

open FelixTools

namespace FelixController

variable (fwmode : FELIX_FW_MODE)

/-! ## Widths -/

def widthName (fid : FelixID) : String :=
  let info := linkInfo_from_fid fid fwmode
  getELinkWidthRegName info.linkId info.egroup info.toflx

/-- The number of zeros below the lowest one. -/
def builtin_ctz (x : UInt32) : Nat := ((List.range 32).find? fun i => x.toNat.testBit i).getD 32

def setELinkWidthNBits (fid : FelixID) (nbits : UInt32) : FelixCard → Bool × FelixCard :=
  setRegValue (widthName fwmode fid) ((UInt32.ofNat (builtin_ctz nbits) - 1) &&& 0x7) 0

/-- The overload for a list, which takes the width as it is. -/
def setELinkWidthNBitsList (fids : List FelixID) (nbits : UInt32) :
    FelixCard → Bool × FelixCard :=
  setRegValueAll
    (fids.foldl (fun regMap fid => updateRegMap regMap (widthName fwmode fid) nbits true) []) 0

def getELinkWidthNBits (fid : FelixID) (card : FelixCard) : UInt32 :=
  match card.readFwRegister (widthName fwmode fid) with
  | some regValue => 2 <<< (regValue &&& 0x7).toUInt32
  | none => 0

/-! ## Encodings -/

def encodingName (fid : FelixID) : String :=
  let info := linkInfo_from_fid fid fwmode
  getEgroupEncodingDecodingRegName info.linkId info.egroup info.toflx

def setPathEncodingDecoding (fid : FelixID) (encoding : UInt32) : FelixCard → Bool × FelixCard :=
  let shift := UInt32.ofNat (4 * (linkInfo_from_fid fid fwmode).epath)
  setRegValue (encodingName fwmode fid) ((encoding &&& 0xF) <<< shift) (0xF <<< shift)

/-- The overload for a list, which ends at the first failure. -/
def setPathEncodingDecodingList (encoding : UInt32) : List FelixID → FelixCard → Bool × FelixCard
  | [], card => (true, card)
  | fid :: fids, card =>
      let result := setPathEncodingDecoding fwmode fid encoding card
      if result.1 then setPathEncodingDecodingList encoding fids result.2 else (false, result.2)

def getPathEncodingDecoding (fid : FelixID) (card : FelixCard) : UInt32 :=
  match card.readFwRegister (encodingName fwmode fid) with
  | some regValue =>
      ((regValue >>> UInt64.ofNat (4 * (linkInfo_from_fid fid fwmode).epath)) &&& 0xF).toUInt32
  | none => 0

/-! ## What the calls are to do -/

/-- Only the bits of the mask change, to those of the value. -/
def SetsMasked (regName : String) (value mask : UInt32) (card : FelixCard) : Prop :=
  ∀ name i, ((setRegValue regName value mask card).2.registers name).toBitVec.getLsbD i =
    if name = regName ∧ mask.toBitVec.getLsbD i = true then value.toBitVec.getLsbD i
    else (card.registers name).toBitVec.getLsbD i

/-- The bit belongs to the path of one of the links. -/
def OfPaths (fids : List FelixID) (name : String) (i : Nat) : Prop :=
  ∃ fid ∈ fids, encodingName fwmode fid = name ∧ i / 4 = (linkInfo_from_fid fid fwmode).epath

structure SetsEncodings (fids : List FelixID) (encoding : UInt32) (card : FelixCard) : Prop where
  frame : ∀ name i, ¬OfPaths fwmode fids name i →
    ((setPathEncodingDecodingList fwmode encoding fids card).2.registers name).toBitVec.getLsbD i =
      (card.registers name).toBitVec.getLsbD i
  listed : ∀ fid ∈ fids,
    getPathEncodingDecoding fwmode fid (setPathEncodingDecodingList fwmode encoding fids card).2 =
      encoding % 16
  others : ∀ fid, (∀ fid' ∈ fids, linkInfo_from_fid fid fwmode ≠ linkInfo_from_fid fid' fwmode) →
    getPathEncodingDecoding fwmode fid (setPathEncodingDecodingList fwmode encoding fids card).2 =
      getPathEncodingDecoding fwmode fid card

/-- The call for each link by itself. -/
def setELinkWidthNBitsEach (fids : List FelixID) (nbits : UInt32) (card : FelixCard) : FelixCard :=
  fids.foldl (fun card fid => (setELinkWidthNBits fwmode fid nbits card).2) card

structure SetsWidths (fids : List FelixID) (nbits : UInt32) (card : FelixCard) : Prop where
  same : (setELinkWidthNBitsList fwmode fids nbits card).2 =
    setELinkWidthNBitsEach fwmode fids nbits card
  read : ∀ fid ∈ fids,
    getELinkWidthNBits fwmode fid (setELinkWidthNBitsList fwmode fids nbits card).2 = nbits

/-! ## Masks -/

/-- The upper half of the register is free. -/
def Lower (x : UInt64) : Prop := x.toNat < 2 ^ 32

theorem lower_iff (x : UInt64) : Lower x ↔ ∀ i, 32 ≤ i → x.toBitVec.getLsbD i = false := by
  constructor
  · intro h i hi
    exact Nat.testBit_lt_two_pow (Nat.lt_of_lt_of_le h (Nat.pow_le_pow_right (by omega) hi))
  · intro h
    apply Nat.lt_of_not_le
    intro hle
    obtain ⟨i, hi, hbit⟩ := Nat.exists_ge_and_testBit_of_ge_two_pow hle
    exact absurd ((h i hi).symm.trans hbit) Bool.false_ne_true

variable {fwmode} {card : FelixCard}

/-- A masked write changes what it should exactly if the upper half of the register is free. -/
theorem setsMasked_iff (h : card.Succeeds) (regName : String) (value : UInt32) {mask : UInt32}
    (hmask : mask ≠ 0) :
    SetsMasked regName value mask card ↔ Lower (card.registers regName) := by
  have hbit (i : Nat) :
      ((setRegValue regName value mask card).2.registers regName).toBitVec.getLsbD i =
        ((card.registers regName).toBitVec.getLsbD i &&
            (decide (i < 32) && !mask.toBitVec.getLsbD i) ||
          value.toBitVec.getLsbD i && mask.toBitVec.getLsbD i) := by
    rw [setRegValue_eq h]
    dsimp only
    rw [if_pos rfl, newValue, if_pos hmask, getLsbD_masked]
  rw [lower_iff]
  constructor
  · intro hsets i hi
    have hfree : mask.toBitVec.getLsbD i = false := BitVec.getLsbD_of_ge _ _ hi
    have hkept := hsets regName i
    rw [hbit, hfree, decide_eq_false (Nat.not_lt.mpr hi)] at hkept
    simpa using hkept.symm
  · intro hlower name i
    by_cases hname : name = regName
    · subst hname
      rw [hbit]
      by_cases hset : mask.toBitVec.getLsbD i = true
      · simp [hset]
      · rw [if_neg fun hboth => hset hboth.2, Bool.eq_false_iff.mpr hset]
        by_cases hi : i < 32
        · simp [hi]
        · simp [hi, hlower i (Nat.not_lt.mp hi)]
    · rw [if_neg fun hboth => hname hboth.1, setRegValue_eq h]
      dsimp only
      rw [if_neg hname]

/-! ## Encodings of paths -/

theorem epath_lt_five (fid : FelixID) : (linkInfo_from_fid fid fwmode).epath < 5 := by
  simp only [linkInfo_from_fid]
  split
  · rw [epath_from_elink_lcb]
    exact Nat.mod_lt _ (by omega)
  · have hle : elink_from_fid fid &&& 3 ≤ 3 := Nat.and_le_right
    rw [epath_from_elink]
    omega

theorem toBitVec_shiftLeft_four (x : UInt32) {epath : Nat} (h : epath < 5) :
    (x <<< UInt32.ofNat (4 * epath)).toBitVec = x.toBitVec <<< (4 * epath) :=
  Bits.toBitVec_shiftLeft_ofNat x (by omega)

theorem getLsbD_pathMask {epath : Nat} (h : epath < 5) (i : Nat) :
    ((0xF : UInt32) <<< UInt32.ofNat (4 * epath)).toBitVec.getLsbD i = decide (i / 4 = epath) := by
  have hnibble : ∀ k < 32, (0xF : UInt32).toBitVec.getLsbD k = decide (k < 4) := by decide
  rw [toBitVec_shiftLeft_four _ h, BitVec.getLsbD_shiftLeft]
  by_cases hi : i < 32
  · by_cases hle : 4 * epath ≤ i
    · have hsame : decide (i - 4 * epath < 4) = decide (i / 4 = epath) := by
        apply decide_eq_decide.mpr
        omega
      rw [hnibble _ (by omega), hsame]
      simp [hi, Nat.not_lt.mpr hle]
    · have hne : ¬i / 4 = epath := by omega
      simp [Nat.not_le.mp hle, hne]
  · have hne : ¬i / 4 = epath := by omega
    simp [hi, hne]

theorem getLsbD_pathValue (encoding : UInt32) {epath : Nat} (h : epath < 5) {i : Nat}
    (hi : i / 4 = epath) :
    ((encoding &&& 0xF) <<< UInt32.ofNat (4 * epath)).toBitVec.getLsbD i =
      encoding.toBitVec.getLsbD (i % 4) := by
  have hnibble : ∀ k < 4, (0xF : UInt32).toBitVec.getLsbD k = true := by decide
  have hlt : i < 32 := by omega
  have hle : ¬i < 4 * epath := by omega
  have hrem : i - 4 * epath = i % 4 := by omega
  rw [toBitVec_shiftLeft_four _ h, BitVec.getLsbD_shiftLeft, hrem, UInt32.toBitVec_and,
    BitVec.getLsbD_and, hnibble _ (Nat.mod_lt _ (by decide)), decide_eq_true hlt,
    decide_eq_false hle]
  simp

theorem pathMask_ne_zero {epath : Nat} (h : epath < 5) :
    (0xF : UInt32) <<< UInt32.ofNat (4 * epath) ≠ 0 := by
  intro hzero
  have hbit := getLsbD_pathMask h (4 * epath)
  have hdiv : 4 * epath / 4 = epath := by omega
  rw [hzero, hdiv, decide_eq_true rfl] at hbit
  exact absurd hbit (by simp)

theorem getLsbD_setPath (h : card.Succeeds) (fid : FelixID) (encoding : UInt32) (name : String)
    (i : Nat) :
    ((setPathEncodingDecoding fwmode fid encoding card).2.registers name).toBitVec.getLsbD i =
      if encodingName fwmode fid = name then
        if i / 4 = (linkInfo_from_fid fid fwmode).epath then encoding.toBitVec.getLsbD (i % 4)
        else (card.registers name).toBitVec.getLsbD i && decide (i < 32)
      else (card.registers name).toBitVec.getLsbD i := by
  have hpath := @epath_lt_five fwmode fid
  unfold setPathEncodingDecoding
  rw [setRegValue_eq h]
  dsimp only
  by_cases hname : name = encodingName fwmode fid
  · rw [if_pos hname, if_pos hname.symm, newValue, if_pos (pathMask_ne_zero hpath), getLsbD_masked,
      getLsbD_pathMask hpath]
    by_cases hi : i / 4 = (linkInfo_from_fid fid fwmode).epath
    · rw [if_pos hi, decide_eq_true hi, getLsbD_pathValue encoding hpath hi]
      simp
    · rw [if_neg hi, decide_eq_false hi]
      simp
  · rw [if_neg hname, if_neg (Ne.symm hname)]

theorem succeeds_setPath (h : card.Succeeds) (fid : FelixID) (encoding : UInt32) :
    (setPathEncodingDecoding fwmode fid encoding card).1 = true ∧
      (setPathEncodingDecoding fwmode fid encoding card).2.Succeeds := by
  unfold setPathEncodingDecoding
  rw [setRegValue_eq h]
  exact ⟨rfl, h⟩

theorem setPathList_cons (h : card.Succeeds) (fid : FelixID) (fids : List FelixID)
    (encoding : UInt32) :
    (setPathEncodingDecodingList fwmode encoding (fid :: fids) card).2 =
      (setPathEncodingDecodingList fwmode encoding fids
        (setPathEncodingDecoding fwmode fid encoding card).2).2 := by
  rw [setPathEncodingDecodingList, if_pos (succeeds_setPath h fid encoding).1]

theorem succeeds_setPathList (h : card.Succeeds) (fids : List FelixID) (encoding : UInt32) :
    (setPathEncodingDecodingList fwmode encoding fids card).2.Succeeds := by
  induction fids generalizing card with
  | nil => exact h
  | cons fid fids ih =>
      rw [setPathList_cons h]
      exact ih (succeeds_setPath h fid encoding).2

instance (fids : List FelixID) (name : String) (i : Nat) : Decidable (OfPaths fwmode fids name i) :=
  inferInstanceAs (Decidable (∃ fid ∈ fids, _ ∧ _))

theorem getLsbD_setPathList (h : card.Succeeds) (fids : List FelixID) (encoding : UInt32)
    (name : String) (i : Nat) :
    ((setPathEncodingDecodingList fwmode encoding fids card).2.registers name).toBitVec.getLsbD i =
      if OfPaths fwmode fids name i then encoding.toBitVec.getLsbD (i % 4)
      else (card.registers name).toBitVec.getLsbD i &&
        decide (i < 32 ∨ ∀ fid ∈ fids, encodingName fwmode fid ≠ name) := by
  induction fids generalizing card with
  | nil =>
      have hnone : ¬OfPaths fwmode [] name i := by
        rintro ⟨fid, hfid, -⟩
        cases hfid
      rw [if_neg hnone, decide_eq_true (Or.inr fun fid hfid => absurd hfid List.not_mem_nil),
        Bool.and_true]
      rfl
  | cons fid fids ih =>
      rw [setPathList_cons h, ih (succeeds_setPath h fid encoding).2, getLsbD_setPath h]
      by_cases hrest : OfPaths fwmode fids name i
      · have hany : OfPaths fwmode (fid :: fids) name i :=
          hrest.imp fun _ hmem => ⟨List.mem_cons_of_mem fid hmem.1, hmem.2⟩
        rw [if_pos hrest, if_pos hany]
      · rw [if_neg hrest]
        by_cases hname : encodingName fwmode fid = name
        · rw [if_pos hname]
          by_cases hi : i / 4 = (linkInfo_from_fid fid fwmode).epath
          · have hlt : i < 32 := by
              have hpath := @epath_lt_five fwmode fid
              omega
            have hany : OfPaths fwmode (fid :: fids) name i :=
              ⟨fid, List.mem_cons_self, hname, hi⟩
            rw [if_pos hi, if_pos hany, decide_eq_true (Or.inl hlt), Bool.and_true]
          · have hnone : ¬OfPaths fwmode (fid :: fids) name i := by
              rintro ⟨fid', hfid', hname', hi'⟩
              rcases List.mem_cons.mp hfid' with rfl | hmem
              · exact hi hi'
              · exact hrest ⟨fid', hmem, hname', hi'⟩
            rw [if_neg hi, if_neg hnone, Bool.and_assoc, ← Bool.decide_and]
            congr 1
            apply decide_eq_decide.mpr
            constructor
            · exact fun hboth => Or.inl hboth.1
            · rintro (hlt | hall)
              · exact ⟨hlt, Or.inl hlt⟩
              · exact absurd hname (hall fid List.mem_cons_self)
        · have hnone : ¬OfPaths fwmode (fid :: fids) name i := by
            rintro ⟨fid', hfid', hname', hi'⟩
            rcases List.mem_cons.mp hfid' with rfl | hmem
            · exact hname hname'
            · exact hrest ⟨fid', hmem, hname', hi'⟩
          rw [if_neg hname, if_neg hnone]
          congr 1
          apply decide_eq_decide.mpr
          rw [List.forall_mem_cons]
          exact or_congr_right ⟨fun hall => ⟨hname, hall⟩, fun hall => hall.2⟩

theorem getLsbD_getPath (h : card.Succeeds) (fid : FelixID) {k : Nat} (hk : k < 32) :
    (getPathEncodingDecoding fwmode fid card).toBitVec.getLsbD k =
      (decide (k < 4) && (card.registers (encodingName fwmode fid)).toBitVec.getLsbD
        (4 * (linkInfo_from_fid fid fwmode).epath + k)) := by
  have hread : card.readFwRegister (encodingName fwmode fid) =
      some (card.registers (encodingName fwmode fid)) := if_pos (h _).1
  have hpath := @epath_lt_five fwmode fid
  have hnibble : ∀ k < 32, (0xF : UInt64).toBitVec.getLsbD k = decide (k < 4) := by decide
  unfold getPathEncodingDecoding
  rw [hread]
  dsimp only
  generalize card.registers (encodingName fwmode fid) = regValue
  generalize (linkInfo_from_fid fid fwmode).epath = epath at hpath ⊢
  have hshift : ((UInt64.ofNat (4 * epath)).toBitVec % 64).toNat = 4 * epath := by
    show 4 * epath % 2 ^ 64 % 64 = _
    omega
  rw [UInt64.toBitVec_toUInt32, BitVec.getLsbD_setWidth, UInt64.toBitVec_and, BitVec.getLsbD_and,
    hnibble k hk, UInt64.toBitVec_shiftRight, BitVec.ushiftRight_eq', hshift,
    BitVec.getLsbD_ushiftRight, decide_eq_true hk, Bool.true_and, Bool.and_comm]

theorem getPath_congr (h : card.Succeeds) {card' : FelixCard} (h' : card'.Succeeds) (fid : FelixID)
    (hbits : ∀ k < 4,
      (card'.registers (encodingName fwmode fid)).toBitVec.getLsbD
          (4 * (linkInfo_from_fid fid fwmode).epath + k) =
        (card.registers (encodingName fwmode fid)).toBitVec.getLsbD
          (4 * (linkInfo_from_fid fid fwmode).epath + k)) :
    getPathEncodingDecoding fwmode fid card' = getPathEncodingDecoding fwmode fid card := by
  apply UInt32.toBitVec_inj.mp
  apply BitVec.eq_of_getLsbD_eq
  intro k hk
  rw [getLsbD_getPath h' fid hk, getLsbD_getPath h fid hk]
  by_cases hfour : k < 4
  · rw [hbits k hfour]
  · rw [decide_eq_false hfour, Bool.false_and, Bool.false_and]

/-- The calls for a list do what they should exactly if the upper halves of the registers are
free. -/
theorem setsEncodings_iff (h : card.Succeeds) (fids : List FelixID) (encoding : UInt32) :
    SetsEncodings fwmode fids encoding card ↔
      ∀ fid ∈ fids, Lower (card.registers (encodingName fwmode fid)) := by
  have hlast := @succeeds_setPathList fwmode card h fids encoding
  have hbit := @getLsbD_setPathList fwmode card h fids encoding
  have hlow (fid : FelixID) {k : Nat} (hk : k < 4) :
      4 * (linkInfo_from_fid fid fwmode).epath + k < 32 ∧
        (4 * (linkInfo_from_fid fid fwmode).epath + k) / 4 =
          (linkInfo_from_fid fid fwmode).epath ∧
        (4 * (linkInfo_from_fid fid fwmode).epath + k) % 4 = k := by
    have hpath := @epath_lt_five fwmode fid
    omega
  constructor
  · intro hsets fid hfid
    rw [lower_iff]
    intro i hi
    have hnone : ¬OfPaths fwmode fids (encodingName fwmode fid) i := by
      rintro ⟨fid', -, -, hpath⟩
      have hlt := @epath_lt_five fwmode fid'
      omega
    have hdirty : ¬(i < 32 ∨
        ∀ fid' ∈ fids, encodingName fwmode fid' ≠ encodingName fwmode fid) := by
      rintro (hlt | hall)
      · omega
      · exact hall fid hfid rfl
    have hkept := hsets.frame (encodingName fwmode fid) i hnone
    rw [hbit, if_neg hnone, decide_eq_false hdirty, Bool.and_false] at hkept
    exact hkept.symm
  · intro hlower
    constructor
    · intro name i hnone
      rw [hbit, if_neg hnone]
      by_cases hclean : i < 32 ∨ ∀ fid ∈ fids, encodingName fwmode fid ≠ name
      · rw [decide_eq_true hclean, Bool.and_true]
      · rw [not_or, not_forall] at hclean
        obtain ⟨hi, fid, hfid⟩ := hclean
        rw [Classical.not_imp, not_not] at hfid
        obtain ⟨hmem, rfl⟩ := hfid
        rw [(lower_iff _).mp (hlower fid hmem) i (Nat.not_lt.mp hi), Bool.false_and]
    · intro fid hfid
      apply UInt32.toBitVec_inj.mp
      apply BitVec.eq_of_getLsbD_eq
      intro k hk
      have hmod : (encoding % 16).toBitVec.getLsbD k =
          (decide (k < 4) && encoding.toBitVec.getLsbD k) := by
        show (encoding.toNat % 2 ^ 4).testBit k = (_ && encoding.toNat.testBit k)
        exact Nat.testBit_mod_two_pow _ _ _
      rw [getLsbD_getPath hlast fid hk, hmod]
      by_cases hfour : k < 4
      · obtain ⟨-, hdiv, hrem⟩ := hlow fid hfour
        rw [hbit, if_pos ⟨fid, hfid, rfl, hdiv⟩, hrem]
      · rw [decide_eq_false hfour, Bool.false_and, Bool.false_and]
    · intro fid hother
      apply getPath_congr h hlast
      intro k hk
      obtain ⟨hlt, hdiv, -⟩ := hlow fid hk
      have hnone : ¬OfPaths fwmode fids (encodingName fwmode fid)
          (4 * (linkInfo_from_fid fid fwmode).epath + k) := by
        rintro ⟨fid', hfid', hname, hpath⟩
        rw [hdiv] at hpath
        obtain ⟨hlink, hegroup, hdir⟩ := getEgroupEncodingDecodingRegName_inj.mp hname
        apply hother fid' hfid'
        cases hinfo : linkInfo_from_fid fid fwmode
        cases hinfo' : linkInfo_from_fid fid' fwmode
        rw [hinfo, hinfo'] at hlink hegroup hdir hpath
        simp_all
      rw [hbit, if_neg hnone, decide_eq_true (Or.inl hlt), Bool.and_true]

/-! ## Widths of e-links -/

theorem setELinkWidthNBitsList_eq (h : card.Succeeds) (fids : List FelixID) (nbits : UInt32)
    (name : String) :
    (setELinkWidthNBitsList fwmode fids nbits card).2.registers name =
      if ∃ fid ∈ fids, widthName fwmode fid = name then nbits.toUInt64
      else card.registers name := by
  have hordered : NameMap.Ordered (fids.foldl (fun regMap fid =>
      updateRegMap regMap (widthName fwmode fid) nbits true) []) :=
    ordered_filled (fun fid => (widthName fwmode fid, nbits)) true fids List.Pairwise.nil
  have hfind : NameMap.find name (fids.foldl (fun regMap fid =>
      updateRegMap regMap (widthName fwmode fid) nbits true) []) =
        if ∃ fid ∈ fids, widthName fwmode fid = name then some nbits else none :=
    find_overwritten (fun fid => (widthName fwmode fid, nbits)) (fun _ => rfl) fids [] name
  unfold setELinkWidthNBitsList
  rw [setRegValueAll_eq hordered 0 h]
  simp only [written, hfind]
  by_cases hname : ∃ fid ∈ fids, widthName fwmode fid = name
  · rw [if_pos hname, if_pos hname]
    rfl
  · rw [if_neg hname, if_neg hname]

theorem setELinkWidthNBitsEach_eq (h : card.Succeeds) (fids : List FelixID) (nbits : UInt32)
    (name : String) :
    (setELinkWidthNBitsEach fwmode fids nbits card).registers name =
      if ∃ fid ∈ fids, widthName fwmode fid = name then
        ((UInt32.ofNat (builtin_ctz nbits) - 1) &&& 0x7).toUInt64
      else card.registers name := by
  induction fids generalizing card with
  | nil => simp [setELinkWidthNBitsEach]
  | cons fid fids ih =>
      have hone : (setELinkWidthNBits fwmode fid nbits card).2 = { card with
          registers := fun name =>
            if name = widthName fwmode fid then
              ((UInt32.ofNat (builtin_ctz nbits) - 1) &&& 0x7).toUInt64
            else card.registers name } := by
        rw [setELinkWidthNBits, setRegValue_eq h]
        rfl
      have hlater := @ih { card with
          registers := fun name =>
            if name = widthName fwmode fid then
              ((UInt32.ofNat (builtin_ctz nbits) - 1) &&& 0x7).toUInt64
            else card.registers name } h
      unfold setELinkWidthNBitsEach at hlater ⊢
      rw [List.foldl_cons, hone, hlater]
      by_cases hrest : ∃ fid' ∈ fids, widthName fwmode fid' = name
      · have hany : ∃ fid' ∈ fid :: fids, widthName fwmode fid' = name :=
          hrest.imp fun _ hmem => ⟨List.mem_cons_of_mem fid hmem.1, hmem.2⟩
        rw [if_pos hrest, if_pos hany]
      · rw [if_neg hrest]
        dsimp only
        by_cases hname : name = widthName fwmode fid
        · rw [if_pos hname, if_pos ⟨fid, List.mem_cons_self, hname.symm⟩]
        · have hnone : ¬∃ fid' ∈ fid :: fids, widthName fwmode fid' = name := by
            rw [List.exists_mem_cons_iff]
            exact fun hany => hany.elim (fun heq => hname heq.symm) hrest
          rw [if_neg hname, if_neg hnone]

theorem setsWidths_iff (h : card.Succeeds) (fids : List FelixID) {k : Nat} (hk : k < 8) :
    SetsWidths fwmode fids (UInt32.ofNat (2 ^ (k + 1))) card ↔ fids = [] := by
  constructor
  · intro hsets
    cases fids with
    | nil => rfl
    | cons fid fids =>
        have hlisted : ∃ fid' ∈ fid :: fids, widthName fwmode fid' = widthName fwmode fid :=
          ⟨fid, List.mem_cons_self, rfl⟩
        have hsame := congrArg (fun card => card.registers (widthName fwmode fid)) hsets.same
        rw [setELinkWidthNBitsList_eq h, setELinkWidthNBitsEach_eq h, if_pos hlisted,
          if_pos hlisted] at hsame
        have hdiffer : ∀ k < 8, (UInt32.ofNat (2 ^ (k + 1))).toUInt64 ≠
            ((UInt32.ofNat (builtin_ctz (UInt32.ofNat (2 ^ (k + 1)))) - 1) &&& 0x7).toUInt64 := by
          decide +kernel
        exact absurd hsame (hdiffer k hk)
  · rintro rfl
    exact ⟨rfl, fun fid hfid => absurd hfid List.not_mem_nil⟩

/-! ## All fields -/

/-- Masked writes and the encodings of paths keep the rest of a register exactly if its upper half
is free, and the widths of a list are right for the empty list only. -/
theorem register_fields_iff {card : FelixCard} (h : card.Succeeds) :
    (∀ regName value mask, mask ≠ 0 →
      (SetsMasked regName value mask card ↔ Lower (card.registers regName))) ∧
    (∀ fwmode fids encoding,
      SetsEncodings fwmode fids encoding card ↔
        ∀ fid ∈ fids, Lower (card.registers (encodingName fwmode fid))) ∧
    ∀ fwmode fids k, k < 8 →
      (SetsWidths fwmode fids (UInt32.ofNat (2 ^ (k + 1))) card ↔ fids = []) :=
  ⟨fun regName value _ hmask => setsMasked_iff h regName value hmask,
    fun _ fids encoding => setsEncodings_iff h fids encoding,
    fun _ fids _ hk => setsWidths_iff h fids hk⟩

/-- A card whose registers are all ones. -/
def fullCard : FelixCard := ⟨fun _ => 0xFFFFFFFFFFFFFFFF, fun _ => true, fun _ => true⟩

theorem fullCard_fields :
    (SetsMasked "GBT_CTRL" 0 1 fullCard ↔ Lower (fullCard.registers "GBT_CTRL")) ∧
      (SetsWidths .ITK_Strip [0] (UInt32.ofNat (2 ^ (0 + 1))) fullCard ↔
        [0] = ([] : List FelixID)) := by
  have hfields := @register_fields_iff fullCard fun _ => ⟨rfl, rfl⟩
  exact ⟨hfields.1 "GBT_CTRL" 0 1 (by decide), hfields.2.2 .ITK_Strip [0] 0 (by decide)⟩

/-- A write to one bit clears the upper half. -/
theorem upper_half_cleared :
    ¬∀ (regName : String) (value mask : UInt32) (card : FelixCard), card.Succeeds → mask ≠ 0 →
      SetsMasked regName value mask card := by
  intro h
  have hkept := h "GBT_CTRL" 0 1 fullCard (fun _ => ⟨rfl, rfl⟩) (by decide) "GBT_CTRL" 63
  exact absurd hkept (by decide)

end FelixController

end Yarr.Felix
