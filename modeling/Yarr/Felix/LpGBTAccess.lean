import Mathlib.Data.Nat.Find
import Yarr.Felix.OptoUtils

/-!
# Retries and fields of lpGBT accesses

The first reply ends the loop of an access, and no failure is counted. A field is
written by way of the byte read before, of which other named fields are kept.
-/

namespace Yarr.Felix

open OptoUtils

/-! ## An excerpt of the items -/

def dacCal2 : LpgbtItem := ⟨0x00A, "DACCAL2", 0, 8⟩

def dacCalMinCode : LpgbtItem := ⟨0x00A, "DACCAL2_DACCALMINCODE", 4, 4⟩

def dacCalMaxCode : LpgbtItem := ⟨0x00A, "DACCAL2_DACCALMAXCODE", 0, 4⟩

def dacCal2Table : ItemTable where
  items := [dacCal2, dacCalMinCode, dacCalMaxCode]
  fits := by decide
  addressed := by decide
  names := by decide
  whole := by decide

def dacCal2Tables : ItemTables := ⟨dacCal2Table, dacCal2Table⟩

def primaryDevice : OptoDevice := ⟨.v1, 0, 116, 116, "lpgbt"⟩

theorem dacCal2_mem : dacCal2 ∈ (reg_list dacCal2Tables primaryDevice.version).items := by
  decide

theorem dacCalMaxCode_mem :
    dacCalMaxCode ∈ (reg_list dacCal2Tables primaryDevice.version).items := by
  decide

/-! ## The byte of a reply -/

/-- The payload byte of a reply. -/
def payload (version : Version) (at_block : UInt32) : UInt8 :=
  UInt8.ofNat (at_block.toNat >>> (8 * (first_ic_payload_byte version % 4)))

def Outcome.byte? (version : Version) : Outcome → Option UInt8
  | .runtime_error => none
  | .reply _ at_block => some (payload version at_block)

namespace FelixController

variable (tables : ItemTables) {lpgbt : OptoDevice} {reg : LpgbtItem}

theorem getLpGBTRegisterByAddr_whole (hreg : reg ∈ (reg_list tables lpgbt.version).items) :
    (getLpGBTRegisterByAddr tables lpgbt.version reg.addr).bitindex = 0 ∧
      (getLpGBTRegisterByAddr tables lpgbt.version reg.addr).nbits = 8 := by
  have hwhole := (reg_list tables lpgbt.version).whole reg hreg
  rw [Option.any_eq_true] at hwhole
  rcases hwhole with ⟨first, hfirst, hbits⟩
  unfold getLpGBTRegisterByAddr
  rw [hfirst, Option.getD_some]
  simpa using hbits

theorem replyValue_eq (hreg : reg ∈ (reg_list tables lpgbt.version).items) (at_block : UInt32) :
    replyValue tables lpgbt reg at_block = payload lpgbt.version at_block := by
  have ⟨hbitindex, hnbits⟩ := getLpGBTRegisterByAddr_whole tables hreg
  unfold replyValue payload
  dsimp only
  generalize 8 * (first_ic_payload_byte lpgbt.version % 4) = low
  rw [hbitindex, hnbits, Nat.shiftRight_and_distrib, Nat.shiftLeft_shiftRight, Nat.and_comm]
  have hbyte (n : Nat) : UInt8.ofNat (n &&& 0xFF) = UInt8.ofNat n := by
    apply UInt8.toNat_inj.mp
    simp [Nat.and_two_pow_sub_one_eq_mod n 8]
  have hall (x : UInt8) : x &&& UInt8.ofNat ((0xFF >>> (8 - 8)) <<< 0) = x := by
    apply UInt8.toNat_inj.mp
    simpa using Nat.and_two_pow_sub_one_of_lt_two_pow x.toNat_lt
  rw [hbyte, hall]

/-! ## The loop -/

section Retries

variable (outcomes : Nat → Outcome)

/-- The attempts come to the given outcomes. The link counts them. -/
def outcomeLink : Link Nat := fun _ made => (outcomes made, made + 1)

variable (lpgbt reg) (write : Bool) (data : UInt8)

/-- The access, observed for a number of attempts. -/
def access (fuel : Nat) : Option (Access Nat) :=
  communicateLpGBT tables (outcomeLink outcomes) fuel lpgbt reg data write 0

/-- What the first reply among the attempts made has brought. -/
def firstByte (made : Nat) : Option UInt8 :=
  ((List.range made).filterMap fun k => (outcomes k).byte? lpgbt.version).head?

structure Retries : Prop where
  ends : ∃ fuel t, access tables lpgbt reg outcomes write data fuel = some t ∧ t.link ≤ 4
  writes : write = true → ∀ k, access tables lpgbt reg outcomes write data k = none →
    (access tables lpgbt reg outcomes write data (k + 1) = none ↔
      (outcomes k).byte? lpgbt.version ≠ some data ∧ k + 1 < 4)
  reads : write = false → ∀ fuel t, access tables lpgbt reg outcomes write data fuel = some t →
    t.data = (firstByte lpgbt outcomes t.link).getD data

/-- The attempt that brings the first reply. -/
structure FirstReply (k : Nat) (byte : UInt8) : Prop where
  before : ∀ j < k, (outcomes j).byte? lpgbt.version = none
  replied : (outcomes k).byte? lpgbt.version = some byte

theorem accessLoop_ended {σ : Type} (body : Access σ → Access σ) (fuel : Nat) {s : Access σ}
    (hs : s.running = false) : accessLoop body fuel s = some s := by
  cases fuel <;> simp [accessLoop, hs]

variable {lpgbt reg outcomes}

theorem attempt_throws {m num_tries : Nat} {frame : List UInt8}
    (hm : (outcomes m).byte? lpgbt.version = none) :
    attempt tables (outcomeLink outcomes) lpgbt reg write frame ⟨m, num_tries, false, data⟩ =
      ⟨m + 1, num_tries, false, data⟩ := by
  unfold attempt outcomeLink
  cases ho : outcomes m with
  | runtime_error => simp
  | reply first at_block => simp [ho, Outcome.byte?] at hm

theorem attempt_replies (hreg : reg ∈ (reg_list tables lpgbt.version).items) {m : Nat}
    {byte : UInt8} {frame : List UInt8} (hm : (outcomes m).byte? lpgbt.version = some byte) :
    attempt tables (outcomeLink outcomes) lpgbt reg write frame ⟨m, 0, false, data⟩ =
      ⟨m + 1, if write = true ∧ data ≠ byte then 1 else 0, true, if write then data else byte⟩ := by
  unfold attempt outcomeLink
  cases ho : outcomes m with
  | runtime_error => simp [ho, Outcome.byte?] at hm
  | reply first at_block =>
      have hbyte : payload lpgbt.version at_block = byte := by simpa [ho, Outcome.byte?] using hm
      simp only [replyValue_eq tables hreg, hbyte]
      cases write
      · simp
      · by_cases hd : data = byte <;> simp [hd]

theorem accessLoop_throws {frame : List UInt8} (n fuel : Nat) (m : Nat)
    (hbefore : ∀ j < n, (outcomes (m + j)).byte? lpgbt.version = none) :
    accessLoop (attempt tables (outcomeLink outcomes) lpgbt reg write frame) (n + fuel)
        ⟨m, 0, false, data⟩ =
      accessLoop (attempt tables (outcomeLink outcomes) lpgbt reg write frame) fuel
        ⟨m + n, 0, false, data⟩ := by
  induction n generalizing m with
  | zero => simp
  | succ n ih =>
      have hrest : ∀ j < n, (outcomes (m + 1 + j)).byte? lpgbt.version = none := by
        intro j hj
        have hnext := hbefore (j + 1) (by omega)
        rwa [show m + (j + 1) = m + 1 + j by omega] at hnext
      rw [show n + 1 + fuel = (n + fuel) + 1 by omega, accessLoop,
        if_pos (by simp [Access.running]),
        attempt_throws tables write data (m := m) (by simpa using hbefore 0 (by omega)),
        ih (m + 1) hrest, show m + 1 + n = m + (n + 1) by omega]

theorem access_none {n : Nat} (hbefore : ∀ j < n, (outcomes j).byte? lpgbt.version = none) :
    access tables lpgbt reg outcomes write data n = none := by
  unfold access communicateLpGBT
  have hall : ∀ j < n, (outcomes (0 + j)).byte? lpgbt.version = none := by simpa using hbefore
  simpa [accessLoop, Access.running] using accessLoop_throws tables write data n 0 0 hall

theorem access_some (hreg : reg ∈ (reg_list tables lpgbt.version).items) {k : Nat} {byte : UInt8}
    (hfirst : FirstReply lpgbt outcomes k byte) (fuel : Nat) :
    access tables lpgbt reg outcomes write data (k + (fuel + 1)) =
      some ⟨k + 1, if write = true ∧ data ≠ byte then 1 else 0, true,
        if write then data else byte⟩ := by
  unfold access communicateLpGBT
  rw [accessLoop_throws tables write data k (fuel + 1) 0 (by simpa using hfirst.before), accessLoop,
    if_pos (by simp [Access.running]), Nat.zero_add,
    attempt_replies tables write data hreg hfirst.replied,
    accessLoop_ended _ _ (by simp [Access.running])]

theorem firstByte_of_first {k : Nat} {byte : UInt8} (hfirst : FirstReply lpgbt outcomes k byte) :
    firstByte lpgbt outcomes (k + 1) = some byte := by
  have hnone : (List.range k).filterMap (fun j => (outcomes j).byte? lpgbt.version) = [] := by
    rw [List.filterMap_eq_nil_iff]
    intro j hj
    exact hfirst.before j (List.mem_range.mp hj)
  unfold firstByte
  rw [List.range_succ, List.filterMap_append, hnone]
  simp [hfirst.replied]

theorem exists_first_of_some {n : Nat} {t : Access Nat}
    (ht : access tables lpgbt reg outcomes write data n = some t) :
    ∃ k < n, ∃ byte, FirstReply lpgbt outcomes k byte := by
  have hsome : ∃ k, k < n ∧ (outcomes k).byte? lpgbt.version ≠ none := by
    by_contra hno
    have hbefore : ∀ j < n, (outcomes j).byte? lpgbt.version = none := fun j hj =>
      Classical.byContradiction fun hne => hno ⟨j, hj, hne⟩
    rw [access_none tables write data hbefore] at ht
    cases ht
  have ⟨hlt, hreplied⟩ := Nat.find_spec hsome
  rcases Option.ne_none_iff_exists'.mp hreplied with ⟨byte, hbyte⟩
  refine ⟨Nat.find hsome, hlt, byte, ?_, hbyte⟩
  intro j hj
  by_contra hne
  exact Nat.find_min hsome hj ⟨by omega, hne⟩

/-- The accesses that are repeated as meant: the first reply comes with one of the four attempts,
and a write reads its value back then unless this is the last one. -/
theorem accessRetries_iff (hreg : reg ∈ (reg_list tables lpgbt.version).items) :
    Retries tables lpgbt reg outcomes write data ↔
      ∃ k < 4, ∃ byte, FirstReply lpgbt outcomes k byte ∧
        (write = true → byte = data ∨ k = 3) := by
  constructor
  · intro h
    rcases h.ends with ⟨fuel, t, ht, hlink⟩
    rcases exists_first_of_some tables write data ht with ⟨k, hk, byte, hfirst⟩
    have hend := access_some tables write data hreg hfirst (fuel - k - 1)
    rw [show k + (fuel - k - 1 + 1) = fuel by omega, ht] at hend
    obtain rfl := Option.some.inj hend
    have hmade : access tables lpgbt reg outcomes write data k = none :=
      access_none tables write data hfirst.before
    refine ⟨k, Nat.lt_of_succ_le hlink, byte, hfirst, ?_⟩
    intro hwrite
    have hnext := h.writes hwrite k hmade
    rw [access_some tables write data hreg hfirst 0, hfirst.replied] at hnext
    replace hnext := hnext.not.mp (by simp)
    by_contra hboth
    rw [not_or] at hboth
    exact hnext ⟨by simpa using hboth.1, by have := hboth.2; dsimp only at hlink; omega⟩
  · rintro ⟨k, hk, byte, hfirst, hread⟩
    constructor
    · exact ⟨k + 1, _, access_some tables write data hreg hfirst 0, hk⟩
    · intro hwrite j hj
      have hle : j ≤ k := by
        by_contra hgt
        have hend := access_some tables write data hreg hfirst (j - k - 1)
        rw [show k + (j - k - 1 + 1) = j by omega, hj] at hend
        cases hend
      rcases Nat.lt_or_eq_of_le hle with hlt | rfl
      · have hnone : access tables lpgbt reg outcomes write data (j + 1) = none :=
          access_none tables write data fun i hi => hfirst.before i (by omega)
        simp [hnone, hfirst.before j hlt]
        omega
      · rw [access_some tables write data hreg hfirst 0, hfirst.replied]
        have hback := hread hwrite
        simp
        grind
    · intro hwrite fuel t ht
      rcases exists_first_of_some tables write data ht with ⟨k', hk', byte', hfirst'⟩
      have hend := access_some tables write data hreg hfirst' (fuel - k' - 1)
      rw [show k' + (fuel - k' - 1 + 1) = fuel by omega, ht] at hend
      obtain rfl := Option.some.inj hend
      simp [hwrite, firstByte_of_first hfirst']

theorem third_attempt : Retries dacCal2Tables primaryDevice dacCal2
    (fun k => if k < 2 then .runtime_error else .reply 0 0x50000) true 5 := by
  apply (accessRetries_iff dacCal2Tables true 5 dacCal2_mem).mpr
  refine ⟨2, by decide, 5, ⟨?_, by decide⟩, fun _ => Or.inl rfl⟩
  intro j hj
  simp [hj, Outcome.byte?]

/-- A link that always throws is asked forever, and a mismatch is not repeated. -/
theorem retries_fail :
    (¬Retries dacCal2Tables primaryDevice dacCal2 (fun _ => .runtime_error) true 5) ∧
      ¬Retries dacCal2Tables primaryDevice dacCal2 (fun _ => .reply 0 0) true 5 := by
  constructor
  · intro h
    rcases h.ends with ⟨fuel, t, ht, _⟩
    rw [access_none dacCal2Tables true 5 fun _ _ => rfl] at ht
    cases ht
  · intro h
    have hnext := (h.writes rfl 0 (by decide)).mpr (by decide)
    revert hnext
    decide

end Retries

/-! ## An lpGBT that replies -/

/-- An lpGBT behind a link that delivers: it writes a byte if told to, and replies with the byte
at the address. -/
def lpGBT (version : Version) : Link (Nat → UInt8) := fun frame registers =>
  let header := frame.drop (if version = .v0 then 1 else 0)
  let address := (header.getD 4 0).toNat + 256 * (header.getD 5 0).toNat
  let written := fun a =>
    if a = address ∧ (header.getD 0 0).toNat % 2 = 0 then header.getD 6 0 else registers a
  (.reply 0 (UInt32.ofNat
    ((written address).toNat <<< (8 * (first_ic_payload_byte version % 4)))), written)

def replaced (registers : Nat → UInt8) (addr : Nat) (byte : UInt8) : Nat → UInt8 :=
  fun a => if a = addr then byte else registers a

theorem payload_reply (version : Version) (byte : UInt8) :
    payload version (UInt32.ofNat (byte.toNat <<< (8 * (first_ic_payload_byte version % 4)))) =
      byte := by
  have hlt := byte.toNat_lt
  apply UInt8.toNat_inj.mp
  cases version <;>
    simp [payload, first_ic_payload_byte, Nat.shiftLeft_eq, Nat.shiftRight_eq_div_pow] <;> omega

theorem address_bytes {addr : Nat} (haddr : addr < 2 ^ 16) :
    (UInt16.ofNat addr).toUInt8.toNat + 256 * (UInt16.ofNat addr >>> 8).toUInt8.toNat = addr := by
  have haddr' : addr < 65536 := haddr
  simp [UInt16.toNat_shiftRight, Nat.shiftRight_eq_div_pow]
  omega

theorem header_mod_two (dev_addr : UInt16) (write : Bool) :
    ((dev_addr <<< 1) + if write then 0 else 1).toUInt8.toNat % 2 = if write then 0 else 1 := by
  cases write <;> simp [Nat.shiftLeft_eq]

theorem lpGBT_frame (version : Version) (write : Bool) {addr : Nat} (haddr : addr < 2 ^ 16)
    (data : UInt8) (dev_addr : UInt16) (registers : Nat → UInt8) :
    lpGBT version (prepareICDataFrame version write (UInt16.ofNat addr) data dev_addr) registers =
      let written := if write then replaced registers addr data else registers
      (.reply 0 (UInt32.ofNat
        ((written addr).toNat <<< (8 * (first_ic_payload_byte version % 4)))), written) := by
  have haddress := address_bytes haddr
  have hwrite := header_mod_two dev_addr write
  unfold lpGBT prepareICDataFrame replaced
  generalize ((dev_addr <<< 1) + if write then 0 else 1).toUInt8 = header at hwrite ⊢
  generalize (UInt16.ofNat addr).toUInt8 = low at haddress ⊢
  generalize (UInt16.ofNat addr >>> 8).toUInt8 = high at haddress ⊢
  cases version <;> cases write <;> simp [haddress, hwrite]

theorem communicateLpGBT_lpGBT (hreg : reg ∈ (reg_list tables lpgbt.version).items) (fuel : Nat)
    (data : UInt8) (write : Bool) (registers : Nat → UInt8) :
    communicateLpGBT tables (lpGBT lpgbt.version) (fuel + 1) lpgbt reg data write registers =
      some ⟨if write then replaced registers reg.addr data else registers, 0, true,
        if write then data else registers reg.addr⟩ := by
  have haddr := (reg_list tables lpgbt.version).addressed reg hreg
  have hframe := lpGBT_frame lpgbt.version write haddr data lpgbt.dev_primary_addr registers
  unfold communicateLpGBT
  rw [accessLoop, if_pos (by simp [Access.running])]
  unfold attempt
  rw [hframe]
  simp only [replyValue_eq tables hreg, payload_reply]
  cases write
  · simpa using accessLoop_ended _ fuel (by simp [Access.running])
  · simpa [replaced] using accessLoop_ended _ fuel (by simp [Access.running])

/-- A primary lpGBT is accessed directly. -/
def IsPrimary (lpgbt : OptoDevice) : Prop :=
  lpgbt.dev_addr = lpgbt.dev_primary_addr ∧ lpgbt.dev_type = "lpgbt"

theorem readWriteOptoReg_lpGBT (hprimary : IsPrimary lpgbt)
    (hreg : reg ∈ (reg_list tables lpgbt.version).items) (fuel : Nat) (data : UInt8)
    (write : Bool) (registers : Nat → UInt8) :
    readWriteOptoReg tables (lpGBT lpgbt.version) (fuel + 1) lpgbt reg data write registers =
      some (if write then data else registers reg.addr,
        if write then replaced registers reg.addr data else registers) := by
  unfold readWriteOptoReg
  rw [if_pos (And.intro hprimary.1 hprimary.2), communicateLpGBT_lpGBT tables hreg]
  rfl

theorem find?_name {items : List LpgbtItem} (hnames : (items.map LpgbtItem.name).Nodup)
    (hreg : reg ∈ items) : (items.find? fun item => item.name == reg.name) = some reg := by
  induction items with
  | nil => cases hreg
  | cons item items ih =>
      rw [List.map_cons, List.nodup_cons] at hnames
      rcases List.mem_cons.mp hreg with rfl | hrest
      · simp
      · have hne : item.name ≠ reg.name := fun heq =>
          hnames.1 (heq ▸ List.mem_map_of_mem hrest)
        simpa [hne] using ih hnames.2 hrest

theorem getLpGBTRegisterByName_of_mem {version : Version}
    (hreg : reg ∈ (reg_list tables version).items) :
    getLpGBTRegisterByName tables version reg.name = reg := by
  unfold getLpGBTRegisterByName
  rw [find?_name (reg_list tables version).names hreg, Option.getD_some]

/-! ## Fields -/

/-- The bits of an item. -/
def field {table : ItemTable} (hreg : reg ∈ table.items) : BitField 8 :=
  ⟨reg.bitindex, reg.nbits, table.fits reg hreg⟩

theorem applyRegfieldReadMask_eq {table : ItemTable} (hreg : reg ∈ table.items) (byte : UInt8) :
    (applyRegfieldReadMask reg byte).toBitVec = (field hreg).read byte.toBitVec := by
  have hlt : byte.toNat >>> reg.bitindex < 256 :=
    Nat.lt_of_le_of_lt (Nat.shiftRight_le _ _) byte.toNat_lt
  have hshift : BitVec.ofNat 8 (byte.toNat >>> reg.bitindex) = byte.toBitVec >>> reg.bitindex := by
    apply BitVec.eq_of_toNat_eq
    simpa using Nat.mod_eq_of_lt hlt
  unfold applyRegfieldReadMask BitField.read BitField.mask field
  rw [UInt8.toBitVec_and, UInt8.toBitVec_ofNat', UInt8.toBitVec_ofNat', hshift]

/-- The bit belongs to another field of the address. -/
def NamedByOther (version : Version) (reg : LpgbtItem) (i : Nat) : Prop :=
  ∃ item ∈ (reg_list tables version).items, item.addr = reg.addr ∧ item.name ≠ reg.name ∧
    regField item ∧ item.bitindex ≤ i ∧ i < item.bitindex + item.nbits

instance (version : Version) (reg : LpgbtItem) (i : Nat) :
    Decidable (NamedByOther tables version reg i) :=
  inferInstanceAs (Decidable (∃ item ∈ _, _))

theorem testBit_itemBits (item : LpgbtItem) {i : Nat} (hi : i < 8) :
    (itemBits item).toNat.testBit i =
      decide (item.bitindex ≤ i ∧ i < item.bitindex + item.nbits) := by
  have hbits : (itemBits item).toNat = 2 ^ item.bitindex * (2 ^ item.nbits - 1) % 2 ^ 8 := by
    simp [itemBits]
  rw [hbits, Nat.testBit_mod_two_pow, Nat.testBit_two_pow_mul, Nat.testBit_two_pow_sub_one]
  grind

theorem testBit_foldl_or {items : List LpgbtItem} {keep : LpgbtItem → Prop} [DecidablePred keep]
    {i : Nat} (hi : i < 8) (bitmask : UInt8) :
    (items.foldl (fun bitmask item => if keep item then bitmask ||| itemBits item else bitmask)
        bitmask).toNat.testBit i = true ↔
      bitmask.toNat.testBit i = true ∨ ∃ item ∈ items, keep item ∧ item.bitindex ≤ i ∧
        i < item.bitindex + item.nbits := by
  induction items generalizing bitmask with
  | nil => simp
  | cons item items ih =>
      rw [List.foldl_cons, ih]
      by_cases hkeep : keep item
      · have hbit : (bitmask ||| itemBits item).toNat.testBit i = true ↔
            bitmask.toNat.testBit i = true ∨
              (item.bitindex ≤ i ∧ i < item.bitindex + item.nbits) := by
          rw [UInt8.toNat_or, Nat.testBit_or, testBit_itemBits item hi]
          simp
        rw [if_pos hkeep, hbit, or_assoc]
        simp [hkeep]
      · rw [if_neg hkeep]
        simp [hkeep]

theorem testBit_getRegBitmask (version : Version) (reg : LpgbtItem) {i : Nat} (hi : i < 8) :
    (getRegBitmask tables version reg).toNat.testBit i = true ↔
      NamedByOther tables version reg i := by
  unfold getRegBitmask NamedByOther
  rw [testBit_foldl_or hi]
  simp [and_assoc]

theorem getLsbD_applyRegfieldWriteMask (version : Version) (reg : LpgbtItem)
    (value old : UInt8) {i : Nat} (hi : i < 8) :
    (applyRegfieldWriteMask tables version reg value old).toBitVec.getLsbD i = true ↔
      (old.toBitVec.getLsbD i = true ∧ NamedByOther tables version reg i) ∨
        (reg.bitindex ≤ i ∧ value.toBitVec.getLsbD (i - reg.bitindex) = true) := by
  rw [← testBit_getRegBitmask tables version reg hi]
  have hcut (n : Nat) : (n % 256).testBit i = n.testBit i := by
    rw [show 256 = 2 ^ 8 from rfl, Nat.testBit_mod_two_pow]
    simp [hi]
  unfold applyRegfieldWriteMask
  simp [BitVec.getLsbD, hcut, Nat.testBit_shiftLeft]

/-- The bytes and values with which the write of a field is one. -/
structure FieldClean (version : Version) (reg : LpgbtItem) (old value : UInt8) : Prop where
  kept : ∀ i < 8, i < reg.bitindex ∨ reg.bitindex + reg.nbits ≤ i →
    old.toBitVec.getLsbD i = true → NamedByOther tables version reg i ∨
      (reg.bitindex ≤ i ∧ value.toBitVec.getLsbD (i - reg.bitindex) = true)
  excess : ∀ i < 8, reg.bitindex + reg.nbits ≤ i →
    value.toBitVec.getLsbD (i - reg.bitindex) = true → old.toBitVec.getLsbD i = true
  cleared : ∀ i < 8, reg.bitindex ≤ i → i < reg.bitindex + reg.nbits →
    NamedByOther tables version reg i → old.toBitVec.getLsbD i = true →
      value.toBitVec.getLsbD (i - reg.bitindex) = true

theorem applyRegfieldWriteMask_iff {version : Version}
    (hreg : reg ∈ (reg_list tables version).items) (old value : UInt8) :
    (applyRegfieldWriteMask tables version reg value old).toBitVec =
        (field hreg).write old.toBitVec value.toBitVec ↔
      FieldClean tables version reg old value := by
  rw [BitVec.eq_of_getLsbD_eq_iff]
  have hbit (i : Nat) (hi : i < 8) :
      (applyRegfieldWriteMask tables version reg value old).toBitVec.getLsbD i =
          ((field hreg).write old.toBitVec value.toBitVec).getLsbD i ↔
        ((old.toBitVec.getLsbD i = true ∧ NamedByOther tables version reg i) ∨
            (reg.bitindex ≤ i ∧ value.toBitVec.getLsbD (i - reg.bitindex) = true) ↔
          if reg.bitindex ≤ i ∧ i < reg.bitindex + reg.nbits then
            value.toBitVec.getLsbD (i - reg.bitindex) = true
          else old.toBitVec.getLsbD i = true) := by
    rw [Bool.eq_iff_iff, getLsbD_applyRegfieldWriteMask tables version reg value old hi,
      BitField.getLsbD_write]
    by_cases hcov : reg.bitindex ≤ i ∧ i < reg.bitindex + reg.nbits
    · rw [if_pos hcov, if_pos (show (field hreg).Covers i from hcov)]
      rfl
    · rw [if_neg hcov, if_neg (show ¬(field hreg).Covers i from hcov)]
  constructor
  · intro h
    constructor
    · intro i hi hout hold
      have hi' := (hbit i hi).mp (h i hi)
      grind
    · intro i hi hout hvalue
      have hi' := (hbit i hi).mp (h i hi)
      grind
    · intro i hi hlow hhigh hnamed hold
      have hi' := (hbit i hi).mp (h i hi)
      grind
  · intro h i hi
    have hkept := h.kept i hi
    have hexcess := h.excess i hi
    have hcleared := h.cleared i hi
    rw [hbit i hi]
    grind

section FieldAccess

variable (hreg : reg ∈ (reg_list tables lpgbt.version).items) (value : UInt8)
  (registers written : Nat → UInt8)

/-- The write of a field leads to the bytes `written`, and reading it back from them. -/
structure FieldAccessed : Prop where
  returns : ∀ fuel, writeLpGBTRegister tables (lpGBT lpgbt.version) (fuel + 1) lpgbt reg.name
    value registers = some written
  sets : (written reg.addr).toBitVec =
    (field hreg).write (registers reg.addr).toBitVec value.toBitVec
  frame : ∀ a, a ≠ reg.addr → written a = registers a
  readBack : ∃ byte : UInt8, byte.toNat = value.toNat % 2 ^ reg.nbits ∧
    ∀ fuel, readLpGBTRegister tables (lpGBT lpgbt.version) (fuel + 1) lpgbt reg.name written =
      some (byte, written)

include hreg in
theorem writeLpGBTRegister_lpGBT (hprimary : IsPrimary lpgbt) (hfield : regField reg = true)
    (fuel : Nat) :
    writeLpGBTRegister tables (lpGBT lpgbt.version) (fuel + 1) lpgbt reg.name value registers =
      some (replaced registers reg.addr
        (applyRegfieldWriteMask tables lpgbt.version reg value (registers reg.addr))) := by
  unfold writeLpGBTRegister
  simp [getLpGBTRegisterByName_of_mem tables hreg, hfield,
    readWriteOptoReg_lpGBT tables hprimary hreg]

include hreg in
theorem readLpGBTRegister_lpGBT (hprimary : IsPrimary lpgbt) (hfield : regField reg = true)
    (fuel : Nat) :
    readLpGBTRegister tables (lpGBT lpgbt.version) (fuel + 1) lpgbt reg.name registers =
      some (applyRegfieldReadMask reg (registers reg.addr), registers) := by
  unfold readLpGBTRegister
  simp [getLpGBTRegisterByName_of_mem tables hreg, hfield,
    readWriteOptoReg_lpGBT tables hprimary hreg]

/-- A field is written and read back as one exactly when the byte and the value are clean. -/
theorem fieldAccess_iff (hprimary : IsPrimary lpgbt) (hfield : regField reg = true) :
    (∃ written, FieldAccessed tables hreg value registers written) ↔
      FieldClean tables lpgbt.version reg (registers reg.addr) value := by
  have hwrites := writeLpGBTRegister_lpGBT tables hreg value registers hprimary hfield
  rw [← applyRegfieldWriteMask_iff tables hreg]
  constructor
  · rintro ⟨written, h⟩
    obtain rfl := Option.some.inj ((h.returns 0).symm.trans (hwrites 0))
    simpa [replaced] using h.sets
  · intro hsets
    refine ⟨_, hwrites, by simpa [replaced] using hsets, fun a ha => by simp [replaced, ha], ?_⟩
    refine ⟨_, ?_, readLpGBTRegister_lpGBT tables hreg _ hprimary hfield⟩
    have hread := applyRegfieldReadMask_eq hreg
      (applyRegfieldWriteMask tables lpgbt.version reg value (registers reg.addr))
    rw [hsets, BitField.read_write] at hread
    have htoNat := congrArg BitVec.toNat hread
    rw [BitField.toNat_and_mask] at htoNat
    simpa [replaced, field] using htoNat

theorem maxCode_written :
    ∃ written, FieldAccessed dacCal2Tables dacCalMaxCode_mem 0xA (fun _ => 0x35) written := by
  apply (fieldAccess_iff dacCal2Tables dacCalMaxCode_mem 0xA _ ⟨rfl, rfl⟩ (by decide)).mpr
  exact ⟨by decide, by decide, by decide⟩

/-- A value beyond the width reaches the next field. -/
theorem maxCode_overflows :
    ¬∃ written, FieldAccessed dacCal2Tables dacCalMaxCode_mem 0xFF (fun _ => 0) written := by
  rintro ⟨written, h⟩
  have hwrite := writeLpGBTRegister_lpGBT dacCal2Tables dacCalMaxCode_mem 0xFF (fun _ => 0)
    ⟨rfl, rfl⟩ (by decide) 0
  obtain rfl := Option.some.inj ((h.returns 0).symm.trans hwrite)
  have hsets := h.sets
  revert hsets
  decide

end FieldAccess

end FelixController

end Yarr.Felix
