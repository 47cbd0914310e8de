import Mathlib.Data.List.Basic
import Std.Data.String.ToNat
import Yarr.Core.Bits

/-!
# FELIX identifiers

A 64-bit identifier names an e-link of a lpGBT link in one direction. The
channel numbers of the controller configuration hold link and e-link. The
registers that enable a link are called after it.
-/

namespace Yarr.FelixTools

abbrev FelixID := Nat

/-- The masks of `FelixTools.h`, written as they are used. -/
def link_from_chn (chn : Nat) : Nat := (chn &&& 0x07C0) >>> 6

def elink_from_chn (chn : Nat) : Nat := chn &&& 0x003F

def get_fid (detectorID connectorID : Nat) (is_virtual : Bool) (linkID elink : Nat)
    (to_felix : Bool) (protocol streamID : Nat) : FelixID :=
  (1 <<< 60) ||| ((detectorID &&& (1 <<< 8 - 1)) <<< 52)
    ||| ((connectorID &&& (1 <<< 16 - 1)) <<< 36) ||| (is_virtual.toNat <<< 35)
    ||| ((linkID &&& (1 <<< 13 - 1)) <<< 22) ||| ((elink &&& (1 <<< 6 - 1)) <<< 16)
    ||| (to_felix.toNat <<< 15) ||| ((protocol &&& (1 <<< 7 - 1)) <<< 8)
    ||| (streamID &&& (1 <<< 8 - 1))

/-- The firmware flavours, from the register `FIRMWARE_MODE`. -/
inductive FELIX_FW_MODE where
  | GBT_mode
  | FULL_mode
  | LTDB_mode
  | FEI4_mode
  | ITK_Pixel
  | ITK_Strip
  | FELIG
  | FULL_mode_emulator
  | FELIX_MROD_mode
  | lpGBT_mode
  | Interlaken_25G
  | Unknown
  deriving DecidableEq

abbrev FLX_LINKS : Nat := 12
abbrev FLX_TOHOST_EGROUPS : Nat := 7
abbrev FLX_TOFLX_EGROUPS : Nat := 5

def egroup_from_elink (elink : Nat) : Nat := (elink &&& 0x001C) >>> 2

def epath_from_elink (elink : Nat) : Nat := elink &&& 0x0003

/-- The encoder of the strips has five e-paths in a group. -/
def egroup_from_elink_lcb (elink : Nat) : Nat := elink / 5

def epath_from_elink_lcb (elink : Nat) : Nat := elink % 5

def link_from_fid (fid : FelixID) : Nat := (fid >>> 22) &&& (1 <<< 13 - 1)

def toflx_from_fid (fid : FelixID) : Bool := (fid >>> 15) &&& 1 != 0

def all_toflx_from_fids (fids : List FelixID) : Bool :=
  if fids.isEmpty then false else fids.all toflx_from_fid

def all_tohost_from_fids (fids : List FelixID) : Bool :=
  if fids.isEmpty then false else fids.all fun fid => !toflx_from_fid fid

def elink_from_fid (fid : FelixID) : Nat := (fid >>> 16) &&& (1 <<< 6 - 1)

structure LinkInfo where
  linkId : Nat
  egroup : Nat
  epath : Nat
  toflx : Bool
  deriving DecidableEq

def linkInfo_from_fid (fid : FelixID) (fwmode : FELIX_FW_MODE) : LinkInfo :=
  let elink := elink_from_fid fid
  let toflx := toflx_from_fid fid
  let isLCB := toflx && fwmode = .ITK_Strip
  { linkId := link_from_fid fid
    egroup := if isLCB then egroup_from_elink_lcb elink else egroup_from_elink elink
    epath := if isLCB then epath_from_elink_lcb elink else epath_from_elink elink
    toflx := toflx }

/-! ## Names of registers -/

/-- `std::setfill('0') << std::setw(2)`. -/
def setw2 (n : Nat) : String := if n < 10 then "0" ++ n.repr else n.repr

def getMiniEgroupRegName (linkId : Nat) (toflx : Bool) (suffix : String) : String :=
  "MINI_EGROUP_" ++ (if toflx then "FROMHOST_" else "TOHOST_") ++ setw2 linkId ++ suffix

def getICEnableRegName (linkId : Nat) (toflx : Bool) : String :=
  getMiniEgroupRegName linkId toflx "_IC_ENABLE"

def getECEnableRegName (linkId : Nat) (toflx : Bool) : String :=
  getMiniEgroupRegName linkId toflx "_EC_ENABLE"

def getELinkRegName (linkId egroup : Nat) (toflx : Bool) (suffix : String) : String :=
  (if toflx then "ENCODING_LINK" else "DECODING_LINK") ++ setw2 linkId ++ "_EGROUP" ++
    egroup.repr ++ "_CTRL_EPATH_" ++ suffix

def getELinkEnableRegName (linkId egroup : Nat) (toflx : Bool) : String :=
  getELinkRegName linkId egroup toflx "ENA"

def getELinkWidthRegName (linkId egroup : Nat) (toflx : Bool) : String :=
  getELinkRegName linkId egroup toflx "WIDTH"

def getEgroupEncodingDecodingRegName (linkId egroup : Nat) (toflx : Bool) : String :=
  (if toflx then "ENCODING_LINK" else "DECODING_LINK") ++ setw2 linkId ++ "_EGROUP" ++
    egroup.repr ++ "_CTRL_PATH_" ++ "ENCODING"

def getAllICEnableRegNames (toflx : Bool) : List String :=
  (List.range FLX_LINKS).map fun l => getICEnableRegName l toflx

def getAllECEnableRegNames (toflx : Bool) : List String :=
  (List.range FLX_LINKS).map fun l => getECEnableRegName l toflx

def getAllELinkEnableRegNames (toflx : Bool) : List String :=
  let NUM_EGROUPS := if toflx then FLX_TOFLX_EGROUPS else FLX_TOHOST_EGROUPS
  (List.range FLX_LINKS).flatMap fun l =>
    (List.range NUM_EGROUPS).map fun g => getELinkEnableRegName l g toflx

end Yarr.FelixTools

/-!
## Names of the enable registers

Different links have registers of different names, and no register is called
both after an IC and after an EC channel.
-/

namespace Yarr.FelixTools

/-! ## Numbers in names -/

theorem ofDigitChars_setw2 (n : Nat) : Nat.ofDigitChars 10 (setw2 n).toList 0 = n := by
  rw [setw2]
  split
  · have hzero : Nat.ofDigitChars 10 ("0" ++ n.repr).toList 0 =
        Nat.ofDigitChars 10 n.repr.toList 0 := by
      rw [String.toList_append]
      rfl
    rw [hzero]
    simp
  · simp

theorem setw2_injective {n m : Nat} (h : (setw2 n).toList = (setw2 m).toList) : n = m := by
  have hnumber := congrArg (fun ds => Nat.ofDigitChars 10 ds 0) h
  simpa only [ofDigitChars_setw2] using hnumber

theorem isDigit_repr {n : Nat} {c : Char} (h : c ∈ n.repr.toList) : c.isDigit = true := by
  rw [Nat.toList_repr] at h
  exact Nat.isDigit_of_mem_toDigits (by omega) (by omega) h

theorem isDigit_setw2 {n : Nat} {c : Char} (h : c ∈ (setw2 n).toList) : c.isDigit = true := by
  rw [setw2] at h
  split at h
  · rw [String.toList_append] at h
    rcases List.mem_append.mp h with hzero | hrepr
    · have hc : c = '0' := by simpa using hzero
      rw [hc]
      rfl
    · exact isDigit_repr hrepr
  · exact isDigit_repr h

theorem digits_append_inj {a b x y : List Char} {c d : Char} (ha : ∀ e ∈ a, e.isDigit = true)
    (hb : ∀ e ∈ b, e.isDigit = true) (hc : c.isDigit = false) (hd : d.isDigit = false)
    (h : a ++ c :: x = b ++ d :: y) : a = b ∧ x = y := by
  induction a generalizing b with
  | nil =>
      cases b with
      | nil => exact ⟨rfl, (List.cons.inj h).2⟩
      | cons e b =>
          have he := hb e List.mem_cons_self
          rw [← (List.cons.inj h).1, hc] at he
          cases he
  | cons e a ih =>
      cases b with
      | nil =>
          have he := ha e List.mem_cons_self
          rw [(List.cons.inj h).1, hd] at he
          cases he
      | cons f b =>
          rcases List.cons.inj h with ⟨hef, hrest⟩
          have hrec := ih (fun g hg => ha g (List.mem_cons_of_mem e hg))
            (fun g hg => hb g (List.mem_cons_of_mem f hg)) hrest
          exact ⟨by rw [hef, hrec.1], hrec.2⟩

/-! ## Names -/

theorem getMiniEgroupRegName_inj {linkId linkId' : Nat} {toflx toflx' : Bool} {suffix : String}
    (h : getMiniEgroupRegName linkId toflx suffix = getMiniEgroupRegName linkId' toflx' suffix) :
    linkId = linkId' ∧ toflx = toflx' := by
  have hlist := congrArg String.toList h
  simp only [getMiniEgroupRegName, String.toList_append] at hlist
  have hbody := List.append_cancel_right hlist
  cases toflx with
  | true =>
      cases toflx' with
      | true => exact ⟨setw2_injective (List.append_cancel_left hbody), rfl⟩
      | false => exact absurd hbody (by simp)
  | false =>
      cases toflx' with
      | true => exact absurd hbody (by simp)
      | false => exact ⟨setw2_injective (List.append_cancel_left hbody), rfl⟩

theorem getICEnableRegName_inj {linkId linkId' : Nat} {toflx toflx' : Bool} :
    getICEnableRegName linkId toflx = getICEnableRegName linkId' toflx' ↔
      linkId = linkId' ∧ toflx = toflx' :=
  ⟨getMiniEgroupRegName_inj, fun h => by rw [h.1, h.2]⟩

theorem getECEnableRegName_inj {linkId linkId' : Nat} {toflx toflx' : Bool} :
    getECEnableRegName linkId toflx = getECEnableRegName linkId' toflx' ↔
      linkId = linkId' ∧ toflx = toflx' :=
  ⟨getMiniEgroupRegName_inj, fun h => by rw [h.1, h.2]⟩

/-- The names differ in the letter behind the last but one underscore. -/
theorem getICEnableRegName_ne (linkId linkId' : Nat) (toflx toflx' : Bool) :
    getICEnableRegName linkId toflx ≠ getECEnableRegName linkId' toflx' := by
  intro h
  have hlist := congrArg String.toList h
  simp only [getICEnableRegName, getECEnableRegName, getMiniEgroupRegName,
    String.toList_append] at hlist
  have hsuffix := (List.append_inj' hlist (by simp)).2
  exact absurd hsuffix (by simp)

theorem link_egroup_inj {linkId linkId' egroup egroup' : Nat}
    (h : (setw2 linkId).toList ++ ("_EGROUP".toList ++ egroup.repr.toList) =
      (setw2 linkId').toList ++ ("_EGROUP".toList ++ egroup'.repr.toList)) :
    linkId = linkId' ∧ egroup = egroup' := by
  have hunderscore : "_EGROUP".toList = '_' :: "EGROUP".toList := by simp
  rw [hunderscore, List.cons_append, List.cons_append] at h
  rcases digits_append_inj (fun _ => isDigit_setw2) (fun _ => isDigit_setw2) rfl rfl h with
    ⟨hlink, hrest⟩
  have hrepr := List.append_cancel_left hrest
  exact ⟨setw2_injective hlink, Nat.repr_injective (String.toList_inj.mp hrepr)⟩

theorem egroupRegName_inj {linkId linkId' egroup egroup' : Nat} {toflx toflx' : Bool}
    {ctrl suffix : String}
    (h : (if toflx then "ENCODING_LINK" else "DECODING_LINK") ++ setw2 linkId ++ "_EGROUP" ++
        egroup.repr ++ ctrl ++ suffix =
      (if toflx' then "ENCODING_LINK" else "DECODING_LINK") ++ setw2 linkId' ++ "_EGROUP" ++
        egroup'.repr ++ ctrl ++ suffix) :
    linkId = linkId' ∧ egroup = egroup' ∧ toflx = toflx' := by
  have hlist := congrArg String.toList h
  simp only [String.toList_append] at hlist
  have hbody := List.append_cancel_right (List.append_cancel_right hlist)
  rw [List.append_assoc, List.append_assoc, List.append_assoc, List.append_assoc] at hbody
  cases toflx with
  | true =>
      cases toflx' with
      | true =>
          rcases link_egroup_inj (List.append_cancel_left hbody) with ⟨hlink, hegroup⟩
          exact ⟨hlink, hegroup, rfl⟩
      | false => exact absurd hbody (by simp)
  | false =>
      cases toflx' with
      | true => exact absurd hbody (by simp)
      | false =>
          rcases link_egroup_inj (List.append_cancel_left hbody) with ⟨hlink, hegroup⟩
          exact ⟨hlink, hegroup, rfl⟩

theorem getELinkEnableRegName_inj {linkId linkId' egroup egroup' : Nat} {toflx toflx' : Bool} :
    getELinkEnableRegName linkId egroup toflx = getELinkEnableRegName linkId' egroup' toflx' ↔
      linkId = linkId' ∧ egroup = egroup' ∧ toflx = toflx' := by
  constructor
  · exact egroupRegName_inj
  · intro h
    rw [h.1, h.2.1, h.2.2]

theorem getEgroupEncodingDecodingRegName_inj {linkId linkId' egroup egroup' : Nat}
    {toflx toflx' : Bool} :
    getEgroupEncodingDecodingRegName linkId egroup toflx =
        getEgroupEncodingDecodingRegName linkId' egroup' toflx' ↔
      linkId = linkId' ∧ egroup = egroup' ∧ toflx = toflx' := by
  constructor
  · exact egroupRegName_inj
  · intro h
    rw [h.1, h.2.1, h.2.2]

end Yarr.FelixTools
