import Mathlib.Data.UInt
import Mathlib.Tactic.IntervalCases
import Yarr.Core.Transport
import Yarr.Rd53.Rd53a
import Yarr.Rd53aEmu.ExecuteLoop

/-!
# Commands in halves of words

What the words of a command become when the emulator cuts them into halves, and
which fields it reads back. A half is kept with its side, since the emulator
never holds more than the low half of a word between two commands.
-/

namespace Yarr.Rd53aEmu

open Rd53 Rd53.Rd53aCmd

/-! ## Halves of a word -/

def highHalf (d : UInt32) : UInt16 := ((d &&& 0xFFFF0000) >>> 16).toUInt16

def lowHalf (d : UInt32) : UInt16 := (d &&& 0x0000FFFF).toUInt16

/-- Two symbols in a half. -/
def pair (high low : UInt8) : UInt16 := (high.toUInt16 <<< 8) ||| low.toUInt16

theorem toNat_highHalf (d : UInt32) : (highHalf d).toNat = d.toNat / 65536 := by
  have hhalf : highHalf d = (d >>> 16).toUInt16 := by
    apply UInt16.toBitVec_inj.mp
    apply BitVec.eq_of_getLsbD_eq
    intro i hi
    interval_cases i <;> simp [highHalf]
  have hlt := d.toNat_lt
  rw [hhalf]
  simp [Nat.shiftRight_eq_div_pow]
  omega

theorem toNat_lowHalf (d : UInt32) : (lowHalf d).toNat = d.toNat % 65536 := by
  have hhalf : lowHalf d = d.toUInt16 := by
    apply UInt16.toBitVec_inj.mp
    apply BitVec.eq_of_getLsbD_eq
    intro i hi
    interval_cases i <;> simp [lowHalf]
  rw [hhalf]
  simp

theorem toNat_pair (high low : UInt8) : (pair high low).toNat = high.toNat * 256 + low.toNat := by
  have hhigh := high.toNat_lt
  have hlow := low.toNat_lt
  have hmod : high.toNat * 256 % 65536 = high.toNat * 256 := Nat.mod_eq_of_lt (by omega)
  have hadd := Nat.shiftLeft_add_eq_or_of_lt (i := 8) hlow high.toNat
  rw [Nat.shiftLeft_eq] at hadd
  simp [pair, Nat.shiftLeft_eq, hmod, ← hadd]

theorem high_pair (high low : UInt8) : (pair high low >>> 8).toUInt8 = high := by
  apply UInt8.toBitVec_inj.mp
  apply BitVec.eq_of_getLsbD_eq
  intro i hi
  interval_cases i <;> simp [pair]

theorem low_pair (high low : UInt8) : (pair high low &&& 0x00ff).toUInt8 = low := by
  apply UInt8.toBitVec_inj.mp
  apply BitVec.eq_of_getLsbD_eq
  intro i hi
  interval_cases i <;> simp [pair]

theorem maskedHigh_pair (high low : UInt8) :
    ((pair high low &&& 0xFF00) >>> 8).toUInt8 = high := by
  apply UInt8.toBitVec_inj.mp
  apply BitVec.eq_of_getLsbD_eq
  intro i hi
  interval_cases i <;> simp [pair]

theorem halves_of_toNat {d : UInt32} {a b c e : UInt8}
    (h : d.toNat = a.toNat * 16777216 + b.toNat * 65536 + c.toNat * 256 + e.toNat) :
    highHalf d = pair a b ∧ lowHalf d = pair c e := by
  have hb := b.toNat_lt
  have hc := c.toNat_lt
  have he := e.toNat_lt
  constructor
  · apply UInt16.toNat_inj.mp
    rw [toNat_highHalf, toNat_pair, h]
    omega
  · apply UInt16.toNat_inj.mp
    rw [toNat_lowHalf, toNat_pair, h]
    omega

/-! ## Symbols -/

/-- The five bits that a symbol stands for. -/
def five (val : UInt32) : UInt8 := UInt8.ofNat (val.toNat % 32)

theorem toNat_five (val : UInt32) : (five val).toNat = val.toNat % 32 := by
  rw [five, UInt8.toNat_ofNat']
  exact Nat.mod_eq_of_lt (by omega)

theorem to5bit_symbol (val : UInt32) : to5bit (symbol val) = some (five val) := by
  have htable : ∀ i : Fin 32, to5bit (enc5to8[i]) = some (UInt8.ofNat i) := by decide
  exact htable _

theorem cmdTo5bitPair_symbols (high low : UInt32) :
    cmdTo5bitPair (pair (symbol high) (symbol low)) = some (five high, five low) := by
  rw [cmdTo5bitPair, maskedHigh_pair, low_pair, to5bit_symbol, to5bit_symbol]

theorem triggerPatterns_triggerSymbol :
    ∀ bc : Fin 16, 0 < bc → triggerPatterns.lookup (triggerSymbol (arg bc)) = some (UInt8.ofNat bc) := by
  decide

theorem lookup_trigger (bc : Fin 16) (hbc : 0 < bc) (low : UInt8) :
    commandFuncs.lookup (pair (triggerSymbol (arg bc)) low) = none := by
  have htable : ∀ bc : Fin 16, 0 < bc → ∀ p ∈ commandFuncs,
      (p.1 >>> 8).toUInt8 ≠ triggerSymbol (arg bc) := by decide
  rw [List.lookup_eq_none_iff]
  intro p hp
  rw [bne_iff_ne]
  intro heq
  have hne := htable bc hbc p hp
  rw [← heq, high_pair] at hne
  exact hne rfl

/-! ## Fields -/

theorem toNat_arg {n : Nat} (i : Fin n) (hn : n ≤ 4294967296) : (arg i).toNat = i := by
  have hi := i.isLt
  rw [arg, UInt32.toNat_ofNat']
  exact Nat.mod_eq_of_lt (by omega)

theorem and_31 (n : Nat) : n &&& 31 = n % 32 := Nat.and_two_pow_sub_one_eq_mod n 5

theorem and_15 (n : Nat) : n &&& 15 = n % 16 := Nat.and_two_pow_sub_one_eq_mod n 4

theorem and_3 (n : Nat) : n &&& 3 = n % 4 := Nat.and_two_pow_sub_one_eq_mod n 2

/-- The halves behind the header of a write. -/
def wrHalves (chipId address value : UInt32) : List UInt16 :=
  [pair (symbol ((chipId &&& 0xF) <<< 1)) (symbol ((address >>> 4) &&& 0x1F)),
    pair (symbol (((address &&& 0xF) <<< 1) + ((value >>> 15) &&& 0x1)))
      (symbol ((value >>> 10) &&& 0x1F)),
    pair (symbol ((value >>> 5) &&& 0x1F)) (symbol (value &&& 0x1F))]

/-- The halves behind the header of a read. -/
def rdHalves (chipId address : UInt32) : List UInt16 :=
  [pair (symbol ((chipId &&& 0xF) <<< 1)) (symbol ((address >>> 4) &&& 0x1F)),
    pair (symbol ((address &&& 0xF) <<< 1)) (symbol 0x0)]

/-- The halves behind the header of an injection. -/
def calHalves (chipId : UInt32) (f : CalFields) : List UInt16 :=
  [pair (symbol ((chipId <<< 1) + (f.mode &&& 0x1)))
      (symbol ((f.delay <<< 2) + ((f.duration >>> 4) &&& 0x3))),
    pair (symbol (((f.duration &&& 0xF) <<< 1) + (f.aux_mode &&& 0x1))) (symbol f.aux_delay)]

/-- The 16 bits of an injection behind the chip ID, in their order. -/
def calData (f : CalFields) : UInt32 :=
  (f.mode <<< 15) + (f.delay <<< 12) + (f.duration <<< 6) + (f.aux_mode <<< 5) + f.aux_delay

section
variable (chipId : Fin 16) (address : Fin 512) (later : List UInt16)

theorem five_chipId :
    (five ((arg chipId &&& 0xF) <<< 1) >>> 1).toUInt32 = arg chipId ∧
      five ((arg chipId &&& 0xF) <<< 1) &&& 0x1 = 0 := by
  have hchip := toNat_arg chipId (by omega)
  constructor
  · apply UInt32.toNat_inj.mp
    simp [toNat_five, Nat.shiftLeft_eq, Nat.shiftRight_eq_div_pow, and_15, hchip]
    omega
  · apply UInt8.toNat_inj.mp
    simp [toNat_five, Nat.shiftLeft_eq, and_15, hchip, Nat.and_one_is_mod]

/-- The address, whatever follows its last four bits. -/
theorem five_address (bit : UInt32) (hbit : bit.toNat < 2) :
    ((five ((arg address >>> 4) &&& 0x1F)).toUInt32 <<< 4) +
      (five (((arg address &&& 0xF) <<< 1) + bit) >>> 1).toUInt32 = arg address := by
  have haddress := toNat_arg address (by omega)
  apply UInt32.toNat_inj.mp
  simp [toNat_five, Nat.shiftLeft_eq, Nat.shiftRight_eq_div_pow, and_31, and_15, haddress]
  omega

theorem five_value (value : UInt16) :
    ((five (((arg address &&& 0xF) <<< 1) + ((value.toUInt32 >>> 15) &&& 0x1)) &&& 0x1).toUInt32
        <<< 15) +
      ((five ((value.toUInt32 >>> 10) &&& 0x1F)).toUInt32 <<< 10) +
      ((five ((value.toUInt32 >>> 5) &&& 0x1F)).toUInt32 <<< 5) +
      (five (value.toUInt32 &&& 0x1F)).toUInt32 = value.toUInt32 := by
  have haddress := toNat_arg address (by omega)
  have hvalue := value.toNat_lt
  apply UInt32.toNat_inj.mp
  simp [toNat_five, Nat.shiftLeft_eq, Nat.shiftRight_eq_div_pow, and_31, and_15,
    Nat.and_one_is_mod, haddress]
  omega

theorem fields_wrHalves (value : UInt16) :
    Emu.fields .wrReg (wrHalves (arg chipId) (arg address) value.toUInt32 ++ later) =
      some (arg chipId, arg address, value.toUInt32) := by
  have hbit : ((value.toUInt32 >>> 15) &&& 0x1).toNat < 2 := by
    simp [Nat.and_one_is_mod]
    omega
  have haddress := five_address address _ hbit
  have hvalue := five_value address value
  rcases five_chipId chipId with ⟨hchip, hsmall⟩
  simp only [wrHalves, Emu.fields, cmdTo5bitPair_symbols, List.cons_append, List.getElem?_cons_zero,
    List.getElem?_cons_succ, Option.bind_eq_bind, Option.bind_some, hchip, hsmall, haddress, hvalue]
  rfl

theorem fields_rdHalves :
    Emu.fields .rdReg (rdHalves (arg chipId) (arg address) ++ later) =
      some (arg chipId, arg address, 0) := by
  have haddress := five_address address 0 (by decide)
  rcases five_chipId chipId with ⟨hchip, -⟩
  rw [UInt32.add_zero] at haddress
  simp only [rdHalves, Emu.fields, cmdTo5bitPair_symbols, List.cons_append, List.getElem?_cons_zero,
    List.getElem?_cons_succ, Option.bind_eq_bind, Option.bind_some, hchip, haddress]
  rfl

theorem fields_calHalves (mode : Fin 2) (delay : Fin 8) (duration : Fin 64) (aux_mode : Fin 2)
    (aux_delay : Fin 32) :
    let f : CalFields := ⟨arg mode, arg delay, arg duration, arg aux_mode, arg aux_delay⟩
    Emu.fields .cal (calHalves (arg chipId) f ++ later) = some (arg chipId, 0, calData f) := by
  intro f
  have hchip := toNat_arg chipId (by omega)
  have hmode := toNat_arg mode (by omega)
  have hdelay := toNat_arg delay (by omega)
  have hduration := toNat_arg duration (by omega)
  have hauxMode := toNat_arg aux_mode (by omega)
  have hauxDelay := toNat_arg aux_delay (by omega)
  have hid : (five ((arg chipId <<< 1) + (arg mode &&& 0x1)) >>> 1).toUInt32 = arg chipId := by
    apply UInt32.toNat_inj.mp
    simp [toNat_five, Nat.shiftLeft_eq, Nat.shiftRight_eq_div_pow, Nat.and_one_is_mod, hchip, hmode]
    omega
  have hdata : ((five ((arg chipId <<< 1) + (arg mode &&& 0x1)) &&& 0x1).toUInt32 <<< 15) +
      ((five ((arg delay <<< 2) + ((arg duration >>> 4) &&& 0x3))).toUInt32 <<< 10) +
      ((five (((arg duration &&& 0xF) <<< 1) + (arg aux_mode &&& 0x1))).toUInt32 <<< 5) +
      (five (arg aux_delay)).toUInt32 = calData f := by
    apply UInt32.toNat_inj.mp
    simp [f, calData, toNat_five, Nat.shiftLeft_eq, Nat.shiftRight_eq_div_pow, Nat.and_one_is_mod,
      and_3, and_15, hchip, hmode, hdelay, hduration, hauxMode, hauxDelay]
    omega
  simp only [f, calHalves, Emu.fields, cmdTo5bitPair_symbols, List.cons_append,
    List.getElem?_cons_zero, List.getElem?_cons_succ, Option.bind_eq_bind, Option.bind_some, hid]
  simp only [hdata]
  rfl

end

/-! ## Pieces -/

/-- A half of a word, with its side. -/
inductive Half where
  | high (half : UInt16)
  | low (half : UInt16)
  deriving DecidableEq

def halvesOf (d : UInt32) : List Half := [.high (highHalf d), .low (lowHalf d)]

/-- What the loop takes in one turn. -/
inductive Piece where
  | high (header : Header)
  | low (header : Header)
  | globalPulse (half : UInt16)
  | cal (chipId : Fin 16) (mode : Fin 2) (delay : Fin 8) (duration : Fin 64) (aux_mode : Fin 2)
      (aux_delay : Fin 32)
  | wrReg (chipId : Fin 16) (address : Fin 512) (value : UInt16)
  | rdReg (chipId : Fin 16) (address : Fin 512)
  | highTrigger (bc : Fin 16) (tag : Fin 32)
  | lowTrigger (bc : Fin 16) (tag : Fin 32)

namespace Piece

def headerHalf : Header → UInt16
  | .ecr => 0x5a5a
  | .bcr => 0x5959
  | .globalPulse => 0x5c5c
  | .cal => 0x6363
  | .wrReg => 0x6666
  | .rdReg => 0x6565
  | .noop => 0x6969
  | .sync => 0x817e
  | .zero => 0x0000

theorem lookup_headerHalf (header : Header) :
    commandFuncs.lookup (headerHalf header) = some header := by
  cases header <;> decide

def triggerHalf (bc : Fin 16) (tag : Fin 32) : UInt16 :=
  pair (triggerSymbol (arg bc)) (symbol (arg tag))

/-- The fields behind a header that stands in a low half. -/
def behind (header : Header) : List UInt16 → List Half
  | [a, b] => [.low (headerHalf header), .high a, .low b]
  | [a, b, c] => [.low (headerHalf header), .high a, .low b, .high c]
  | _ => [.low (headerHalf header)]

def units : Piece → List Half
  | high header => [.high (headerHalf header)]
  | low header => [.low (headerHalf header)]
  | globalPulse half => [.high (headerHalf .globalPulse), .low half]
  | cal chipId mode delay duration aux_mode aux_delay =>
      behind .cal (calHalves (arg chipId)
        ⟨arg mode, arg delay, arg duration, arg aux_mode, arg aux_delay⟩)
  | wrReg chipId address value =>
      behind .wrReg (wrHalves (arg chipId) (arg address) value.toUInt32)
  | rdReg chipId address => behind .rdReg (rdHalves (arg chipId) (arg address))
  | highTrigger bc tag => [.high (triggerHalf bc tag)]
  | lowTrigger bc tag => [.low (triggerHalf bc tag)]

/-- A trigger is recognised with the symbol of its tag. -/
def emits : Piece → Recognised
  | high header | low header => .command header
  | globalPulse _ => .command .globalPulse
  | cal chipId mode delay duration aux_mode aux_delay =>
      .read .cal (arg chipId) 0
        (calData ⟨arg mode, arg delay, arg duration, arg aux_mode, arg aux_delay⟩)
  | wrReg chipId address value => .read .wrReg (arg chipId) (arg address) value.toUInt32
  | rdReg chipId address => .read .rdReg (arg chipId) (arg address) 0
  | highTrigger bc tag | lowTrigger bc tag =>
      .trigger (UInt8.ofNat bc) (symbol (arg tag))

/-- Headers without fields, patterns that are triggers, reads of a register. -/
def Handled : Piece → Prop
  | high header | low header => Emu.fieldSize header = 0
  | rdReg _ address => address.val < Rd53aGlobalCfg.numRegs
  | highTrigger bc _ | lowTrigger bc _ => 0 < bc
  | _ => True

def format : Transport.Format Piece Half Recognised where
  units := units
  emits := fun i => [i.emits]
  Followed := fun i _ => i.Handled

end Piece

end Yarr.Rd53aEmu

namespace Yarr.Rd53.Rd53aCmd.Command

open Rd53aEmu

/-- The piece of a trigger in a half of its word. -/
def triggerPiece (trigger : Fin 16 → Fin 32 → Piece) (noop : Header → Piece) (bc : Fin 16)
    (tag : Fin 32) : Piece :=
  if 0 < bc then trigger bc tag else noop .noop

def pieces : Command → List Piece
  | wrRegister chipId address value =>
      [.high .noop, .wrReg chipId address value, .low .noop, .high .zero, .low .zero]
  | rdRegister chipId address =>
      [.high .noop, .rdReg chipId address, .high .zero, .low .zero]
  | cal chipId mode delay duration aux_mode aux_delay =>
      [.high .noop, .cal chipId mode delay duration aux_mode aux_delay, .high .zero, .low .zero]
  | globalPulse chipId duration =>
      [.globalPulse (pair (symbol (arg chipId <<< 1)) (symbol (arg duration <<< 1))),
        .high .zero, .low .zero]
  | ecr => [.high .ecr, .low .noop, .high .zero, .low .zero]
  | bcr => [.high .bcr, .low .noop, .high .zero, .low .zero]
  | sync => [.high .noop, .low .sync, .high .zero, .low .zero]
  | idle => [.high .noop, .low .noop, .high .zero, .low .zero]
  | trigger bc tag bc2 tag2 =>
      [triggerPiece .highTrigger .high bc tag, triggerPiece .lowTrigger .low bc2 tag2,
        .high .zero, .low .zero]

/-! ## Words of the commands -/

theorem halvesOf_eq {d : UInt32} {a b c e : UInt8}
    (h : d.toNat = a.toNat * 16777216 + b.toNat * 65536 + c.toNat * 256 + e.toNat) :
    halvesOf d = [.high (pair a b), .low (pair c e)] := by
  rcases halves_of_toNat h with ⟨hhigh, hlow⟩
  rw [halvesOf, hhigh, hlow]

theorem halvesOf_symbols (a b c e : UInt32) :
    halvesOf ((encode5to8 a <<< 24) + (encode5to8 b <<< 16) + (encode5to8 c <<< 8) + encode5to8 e) =
      [.high (pair (symbol a) (symbol b)), .low (pair (symbol c) (symbol e))] := by
  have ha := (symbol a).toNat_lt
  have hb := (symbol b).toNat_lt
  have hc := (symbol c).toNat_lt
  have he := (symbol e).toNat_lt
  apply halvesOf_eq
  simp [encode5to8, Nat.shiftLeft_eq]
  omega

theorem halvesOf_wrTail (a b : UInt32) :
    halvesOf ((encode5to8 a <<< 24) + (encode5to8 b <<< 16) + 0x6969) =
      [.high (pair (symbol a) (symbol b)), .low 0x6969] := by
  have ha := (symbol a).toNat_lt
  have hb := (symbol b).toNat_lt
  have hnoop : pair 0x69 0x69 = 0x6969 := by decide
  rw [← hnoop]
  apply halvesOf_eq
  simp [encode5to8, Nat.shiftLeft_eq]
  omega

theorem halvesOf_globalPulse (a b : UInt32) :
    halvesOf ((0x5C5C0000 : UInt32) + (encode5to8 a <<< 8) + encode5to8 b) =
      [.high 0x5c5c, .low (pair (symbol a) (symbol b))] := by
  have ha := (symbol a).toNat_lt
  have hb := (symbol b).toNat_lt
  have hheader : pair 0x5c 0x5c = 0x5c5c := by decide
  rw [← hheader]
  apply halvesOf_eq
  simp [encode5to8, Nat.shiftLeft_eq]
  omega

/-- The two symbols of a trigger, or of a noop. -/
def triggerPair (bc : Fin 16) (tag : Fin 32) : UInt8 × UInt8 :=
  if 0 < bc then (triggerSymbol (arg bc), symbol (arg tag)) else (0x69, 0x69)

theorem toNat_highTrigger (bc : Fin 16) (tag : Fin 32) :
    (if arg bc > 0 then ((triggerSymbol (arg bc)).toUInt32 <<< 24) ||| (encode5to8 (arg tag) <<< 16)
      else 0x69690000 : UInt32).toNat =
        (triggerPair bc tag).1.toNat * 16777216 + (triggerPair bc tag).2.toNat * 65536 := by
  have hpos : ∀ i : Fin 16, arg i > 0 ↔ 0 < i := by decide
  rw [triggerPair]
  by_cases hbc : 0 < bc
  · rw [if_pos ((hpos bc).mpr hbc), if_pos hbc]
    have htrigger := (triggerSymbol (arg bc)).toNat_lt
    have hsymbol := (symbol (arg tag)).toNat_lt
    have hsmall : (symbol (arg tag)).toNat * 65536 < 2 ^ 24 := by omega
    have hor := Nat.shiftLeft_add_eq_or_of_lt hsmall (triggerSymbol (arg bc)).toNat
    rw [Nat.shiftLeft_eq] at hor
    have hhigh : (triggerSymbol (arg bc)).toNat * 16777216 % 4294967296 =
        (triggerSymbol (arg bc)).toNat * 16777216 := by omega
    have hlow : (symbol (arg tag)).toNat * 65536 % 4294967296 = (symbol (arg tag)).toNat * 65536 :=
      Nat.mod_eq_of_lt (by omega)
    simp [encode5to8, Nat.shiftLeft_eq, hhigh, hlow]
    exact hor.symm
  · rw [if_neg (fun h => hbc ((hpos bc).mp h)), if_neg hbc]
    rfl

theorem toNat_lowTrigger (bc : Fin 16) (tag : Fin 32) :
    (if arg bc > 0 then ((triggerSymbol (arg bc)).toUInt32 <<< 8) ||| encode5to8 (arg tag)
      else 0x6969 : UInt32).toNat =
        (triggerPair bc tag).1.toNat * 256 + (triggerPair bc tag).2.toNat := by
  have hpos : ∀ i : Fin 16, arg i > 0 ↔ 0 < i := by decide
  rw [triggerPair]
  by_cases hbc : 0 < bc
  · rw [if_pos ((hpos bc).mpr hbc), if_pos hbc]
    have htrigger := (triggerSymbol (arg bc)).toNat_lt
    have hsymbol := (symbol (arg tag)).toNat_lt
    have hor := Nat.shiftLeft_add_eq_or_of_lt (i := 8) hsymbol (triggerSymbol (arg bc)).toNat
    rw [Nat.shiftLeft_eq] at hor
    have hhigh : (triggerSymbol (arg bc)).toNat * 256 % 4294967296 =
        (triggerSymbol (arg bc)).toNat * 256 := Nat.mod_eq_of_lt (by omega)
    simp [encode5to8, Nat.shiftLeft_eq, hhigh]
    exact hor.symm
  · rw [if_neg (fun h => hbc ((hpos bc).mp h)), if_neg hbc]
    rfl

theorem halvesOf_trigger (bc : Fin 16) (tag : Fin 32) (bc2 : Fin 16) (tag2 : Fin 32) :
    halvesOf (genTrigger (arg bc) (arg tag) (arg bc2) (arg tag2)) =
      [.high (pair (triggerPair bc tag).1 (triggerPair bc tag).2),
        .low (pair (triggerPair bc2 tag2).1 (triggerPair bc2 tag2).2)] := by
  have h1 := (triggerPair bc tag).1.toNat_lt
  have h2 := (triggerPair bc tag).2.toNat_lt
  have h3 := (triggerPair bc2 tag2).1.toNat_lt
  have h4 := (triggerPair bc2 tag2).2.toNat_lt
  apply halvesOf_eq
  rw [genTrigger, UInt32.toNat_add, toNat_highTrigger, toNat_lowTrigger]
  omega

theorem units_triggerPiece (bc : Fin 16) (tag : Fin 32) :
    (triggerPiece .highTrigger .high bc tag).units =
        [.high (pair (triggerPair bc tag).1 (triggerPair bc tag).2)] ∧
      (triggerPiece .lowTrigger .low bc tag).units =
        [.low (pair (triggerPair bc tag).1 (triggerPair bc tag).2)] := by
  have hnoop : pair 0x69 0x69 = 0x6969 := by decide
  rw [triggerPiece, triggerPiece, triggerPair]
  by_cases hbc : 0 < bc
  · simp only [if_pos hbc]
    exact ⟨rfl, rfl⟩
  · simp only [if_neg hbc, hnoop]
    exact ⟨rfl, rfl⟩

theorem stream_pieces (c : Command) :
    Piece.format.stream c.pieces = c.words.flatMap halvesOf := by
  cases c with
  | wrRegister chipId address value =>
      simp only [words, Rd53aCmd.wrRegister, released, List.cons_append, List.flatMap_cons]
      rw [halvesOf_symbols, halvesOf_wrTail]
      rfl
  | rdRegister chipId address =>
      simp only [words, Rd53aCmd.rdRegister, released, List.cons_append, List.flatMap_cons]
      rw [halvesOf_symbols]
      rfl
  | cal chipId mode delay duration aux_mode aux_delay =>
      simp only [words, Rd53aCmd.cal, genCal, released, List.cons_append, List.flatMap_cons]
      rw [halvesOf_symbols]
      rfl
  | globalPulse chipId duration =>
      simp only [words, Rd53aCmd.globalPulse, released, List.cons_append, List.flatMap_cons]
      rw [halvesOf_globalPulse]
      rfl
  | ecr => rfl
  | bcr => rfl
  | sync => rfl
  | idle => rfl
  | trigger bc tag bc2 tag2 =>
      simp only [words, Rd53aCmd.trigger, released, List.cons_append, List.flatMap_cons,
        halvesOf_trigger]
      rw [pieces, Transport.Format.stream_cons, Transport.Format.stream_cons]
      rw [show Piece.format.units = Piece.units from rfl, (units_triggerPiece bc tag).1,
        (units_triggerPiece bc2 tag2).2]
      rfl

/-! ## What is recognised -/

/-- A pattern without a crossing goes out as a noop. -/
def issuedTrigger (bc : Fin 16) (tag : Fin 32) : Recognised :=
  if 0 < bc then .trigger (UInt8.ofNat bc) (symbol (arg tag)) else .command .noop

/-- The commands as they are issued, a trigger with the symbol of its tag. -/
def issued : Command → List Recognised
  | wrRegister chipId address value => [.read .wrReg (arg chipId) (arg address) value.toUInt32]
  | rdRegister chipId address => [.read .rdReg (arg chipId) (arg address) 0]
  | cal chipId mode delay duration aux_mode aux_delay =>
      [.read .cal (arg chipId) 0
        (calData ⟨arg mode, arg delay, arg duration, arg aux_mode, arg aux_delay⟩)]
  | globalPulse _ _ => [.command .globalPulse]
  | ecr => [.command .ecr]
  | bcr => [.command .bcr]
  | sync => [.command .sync]
  | idle => [.command .noop, .command .noop]
  | trigger bc tag bc2 tag2 => [issuedTrigger bc tag, issuedTrigger bc2 tag2]

/-- The noop that fills a word in front of a command. -/
def paddingBefore : Command → List Recognised
  | wrRegister _ _ _ | rdRegister _ _ | cal _ _ _ _ _ _ | sync => [.command .noop]
  | _ => []

/-- The noop that fills a word behind a command. -/
def paddingAfter : Command → List Recognised
  | wrRegister _ _ _ | ecr | bcr => [.command .noop]
  | _ => []

/-- Behind every command is the word of the release. -/
def received (c : Command) : List Recognised :=
  c.paddingBefore ++ c.issued ++ c.paddingAfter ++ [.command .zero, .command .zero]

/-- Reads ask for a register of the chip. -/
def ReadsRegister : Command → Prop
  | rdRegister _ address => address.val < Rd53aGlobalCfg.numRegs
  | _ => True

theorem emits_triggerPiece (bc : Fin 16) (tag : Fin 32) :
    (triggerPiece .highTrigger .high bc tag).emits = issuedTrigger bc tag ∧
      (triggerPiece .lowTrigger .low bc tag).emits = issuedTrigger bc tag := by
  rw [triggerPiece, triggerPiece, issuedTrigger]
  by_cases hbc : 0 < bc
  · simp only [if_pos hbc]
    exact ⟨rfl, rfl⟩
  · simp only [if_neg hbc]
    exact ⟨rfl, rfl⟩

theorem read_pieces (c : Command) : Piece.format.read c.pieces = c.received := by
  cases c with
  | trigger bc tag bc2 tag2 =>
      rw [received, issued, ← (emits_triggerPiece bc tag).1, ← (emits_triggerPiece bc2 tag2).2]
      rfl
  | _ => rfl

theorem handled_triggerPiece (bc : Fin 16) (tag : Fin 32) :
    (triggerPiece .highTrigger .high bc tag).Handled ∧
      (triggerPiece .lowTrigger .low bc tag).Handled := by
  rw [triggerPiece, triggerPiece]
  by_cases hbc : 0 < bc
  · simp only [if_pos hbc]
    exact ⟨hbc, hbc⟩
  · simp only [if_neg hbc]
    exact ⟨rfl, rfl⟩

theorem sealed_pieces {c : Command} (h : c.ReadsRegister) : Piece.format.Sealed c.pieces := by
  have hall : ∀ p ∈ c.pieces, p.Handled := by
    cases c with
    | rdRegister chipId address =>
        simp only [pieces, List.forall_mem_cons]
        exact ⟨rfl, h, rfl, rfl, fun _ hp => absurd hp List.not_mem_nil⟩
    | trigger bc tag bc2 tag2 =>
        simp only [pieces, List.forall_mem_cons]
        exact ⟨(handled_triggerPiece bc tag).1, (handled_triggerPiece bc2 tag2).2, rfl, rfl,
          fun _ hp => absurd hp List.not_mem_nil⟩
    | _ => simp [pieces, Piece.Handled, Emu.fieldSize]
  apply Transport.Format.sealed_of_closed
  exact fun p hp _ => hall p hp

theorem stream_flatMap_pieces (cmds : List Command) :
    Piece.format.stream (cmds.flatMap pieces) = (cmds.flatMap words).flatMap halvesOf := by
  induction cmds with
  | nil => rfl
  | cons c cmds ih =>
      rw [List.flatMap_cons, List.flatMap_cons, Transport.Format.stream_append,
        stream_pieces, ih, List.flatMap_append]

theorem read_flatMap_pieces (cmds : List Command) :
    Piece.format.read (cmds.flatMap pieces) = cmds.flatMap received := by
  induction cmds with
  | nil => rfl
  | cons c cmds ih =>
      rw [List.flatMap_cons, List.flatMap_cons, Transport.Format.read_append,
        read_pieces, ih]

end Yarr.Rd53.Rd53aCmd.Command
