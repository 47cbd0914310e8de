import Yarr.Itkpixv2Emu.CommandStream

/-!
# The pieces of a command

The words of a command are the units of its pieces: the issued commands, and
the padding that the `send` functions put around them.
-/

namespace Yarr.Itkpixv2Emu

open Rd53 Rd53.Itkpixv2Cmd

/-! ## Frames of the commands -/

theorem unitsOf_trigger (bc : Fin 16) (tag : Fin 54) :
    unitsOfFrame (genTrigger bc tag) = (Piece.trigger bc tag).units := by
  have htrigger : ∀ i : Fin 16, encTrigger[i] = (encTrigger[i]).toUInt8.toUInt16 := by decide
  have htag : ∀ i : Fin 54, encTag[i] = (encTag[i]).toUInt8.toUInt16 := by decide
  have hsecond : (if 0 < bc then encTag[tag] else 0xAA) =
      (if 0 < bc then (encTag[tag]).toUInt8 else 0xAA).toUInt16 := by
    by_cases hbc : 0 < bc
    · rw [if_pos hbc, if_pos hbc]
      exact htag tag
    · rw [if_neg hbc, if_neg hbc]
      rfl
  rw [genTrigger, hsecond, htrigger bc, unitsOfFrame_pair]
  rfl

theorem unitsOf_block (data : List (UInt16 × UInt16)) :
    (blockWords data).flatMap unitsOf =
      (data.flatMap fun d => [d.1, d.2]).flatMap Body.element := by
  induction data with
  | nil => rfl
  | cons d data ih =>
      rw [blockWords] at ih
      rw [blockWords, List.map_cons, List.flatMap_cons, ih, unitsOf_word, conv10Bit, conv10Bit,
        unitsOfFrame_symbols, unitsOfFrame_symbols]
      rfl

theorem unitsOf_genClear (chipId : UInt8) :
    unitsOfFrame (genClear chipId) = (Piece.clear chipId).units :=
  unitsOfFrame_header 0x5A _

theorem unitsOf_genGlobalPulse (chipId : UInt8) :
    unitsOfFrame (genGlobalPulse chipId) = (Piece.globalPulse chipId).units :=
  unitsOfFrame_header 0x5C _

theorem unitsOf_genCal (chipId : UInt8) (p : CalParameters) :
    unitsOfFrame (genCal chipId p)[0] ++ (unitsOfFrame (genCal chipId p)[1] ++
      unitsOfFrame (genCal chipId p)[2]) = (Piece.cal chipId p).units := by
  have hhead : unitsOfFrame (genCal chipId p)[0] = [0x63, idSymbol chipId] :=
    unitsOfFrame_header 0x63 _
  rw [hhead]
  simp only [genCal, Vector.getElem_mk, List.getElem_toArray, List.getElem_cons_succ,
    List.getElem_cons_zero, unitsOfFrame_symbols]
  rfl

theorem unitsOf_genRdReg (chipId : UInt8) (address : Fin Itkpixv2GlobalCfg.numRegs) :
    unitsOfFrame (genRdReg chipId (UInt16.ofNat address))[0] ++
      unitsOfFrame (genRdReg chipId (UInt16.ofNat address))[1] =
        (Piece.rdReg chipId address).units := by
  have hhead : unitsOfFrame (genRdReg chipId (UInt16.ofNat address))[0] =
      [0x65, idSymbol chipId] := unitsOfFrame_header 0x65 _
  rw [hhead]
  simp only [genRdReg, Vector.getElem_mk, List.getElem_toArray, List.getElem_cons_succ,
    List.getElem_cons_zero, unitsOfFrame_symbols]
  rfl

theorem unitsOf_genWrReg (chipId : UInt8) (address : Fin Itkpixv2GlobalCfg.numRegs)
    (data : UInt16) :
    (unitsOfFrame (genWrReg chipId (UInt16.ofNat address) data)[0] ++
      unitsOfFrame (genWrReg chipId (UInt16.ofNat address) data)[1]) ++
    (unitsOfFrame (genWrReg chipId (UInt16.ofNat address) data)[2] ++
      unitsOfFrame (genWrReg chipId (UInt16.ofNat address) data)[3]) =
        (Piece.wrReg chipId address data).units := by
  have hhead : unitsOfFrame (genWrReg chipId (UInt16.ofNat address) data)[0] =
      [0x66, idSymbol chipId] := unitsOfFrame_header 0x66 _
  rw [hhead]
  simp only [genWrReg, Vector.getElem_mk, List.getElem_toArray, List.getElem_cons_succ,
    List.getElem_cons_zero, unitsOfFrame_symbols]
  rfl

theorem unitsOf_blockHead (chipId : UInt8) :
    unitsOfFrame (genWrReg chipId 0 0)[0] ++ unitsOfFrame (conv10Bit 0x0200) =
      [Commands.WrReg, idSymbol chipId, symbol 0x10, symbol 0] := by
  have hhead : unitsOfFrame (genWrReg chipId 0 0)[0] = [0x66, idSymbol chipId] :=
    unitsOfFrame_header 0x66 _
  rw [hhead, conv10Bit, unitsOfFrame_symbols]
  rfl

end Yarr.Itkpixv2Emu

namespace Yarr.Rd53.Itkpixv2Cmd.Command

open Itkpixv2Emu

def pieces : Command → List Piece
  | pllLock => [.pllLock, .pllLock, .zero, .zero]
  | sync => [.pllLock, .sync, .zero, .zero]
  | clear chipId => [.pllLock, .clear chipId, .zero, .zero]
  | globalPulse chipId => [.pllLock, .globalPulse chipId, .zero, .zero]
  | wrReg chipId address data =>
      [.wrReg chipId address data, .sync, .pllLock, .zero, .zero]
  | rdReg chipId address => [.rdReg chipId address, .sync, .pllLock, .zero, .zero]
  | pixRegBlock chipId data =>
      [.multiple chipId (data.flatMap fun d => [d.1, d.2]), .sync, .pllLock, .zero, .zero]
  | cal chipId p => [.pllLock, .cal chipId p]
  | rearm bc tag chipId p => [.trigger bc tag, .cal chipId p]
  | trigger bc1 tag1 bc2 tag2 => [.trigger bc1 tag1, .trigger bc2 tag2]
  | release => [.zero, .zero]

theorem stream_pieces (c : Command) : Piece.format.stream c.pieces = c.words.flatMap unitsOf := by
  cases c with
  | pllLock => rfl
  | sync => rfl
  | clear chipId =>
      rw [words, sendClear, List.cons_append, List.flatMap_cons, unitsOf_afterPllLock,
        unitsOf_genClear]
      rfl
  | globalPulse chipId =>
      rw [words, sendGlobalPulse, List.cons_append, List.flatMap_cons, unitsOf_afterPllLock,
        unitsOf_genGlobalPulse]
      rfl
  | wrReg chipId address data =>
      simp only [words, sendWrReg, List.cons_append, List.flatMap_cons, unitsOf_word]
      rw [← List.append_assoc, unitsOf_genWrReg]
      rfl
  | rdReg chipId address =>
      simp only [words, sendRdReg, List.cons_append, List.flatMap_cons, unitsOf_word]
      rw [unitsOf_genRdReg]
      rfl
  | pixRegBlock chipId data =>
      simp only [words, sendPixRegBlock, List.cons_append, List.flatMap_cons, unitsOf_word]
      rw [unitsOf_blockHead, List.flatMap_append, List.flatMap_append, unitsOf_block]
      simp only [List.append_assoc]
      rfl
  | cal chipId p =>
      simp only [words, calWords, List.flatMap_cons, List.flatMap_nil, List.append_nil,
        List.append_assoc, unitsOf_afterPllLock, unitsOf_word]
      rw [unitsOf_genCal]
      rfl
  | rearm bc tag chipId p =>
      simp only [words, rearmWords, List.flatMap_cons, List.flatMap_nil, List.append_nil,
        List.append_assoc, unitsOf_word]
      rw [unitsOf_trigger, unitsOf_genCal]
      rfl
  | trigger bc1 tag1 bc2 tag2 =>
      simp only [words, trigWord, List.flatMap_cons, unitsOf_word]
      rw [unitsOf_trigger, unitsOf_trigger, List.append_assoc]
      rfl
  | release => rfl

/-! ## What is issued -/

/-- The commands of the padding: a PLL lock, a sync, half of a word of zeros. -/
def pllLockCmd : Cmd := ⟨0xAA, 0xAA, 0, 0⟩

def syncCmd : Cmd := ⟨0x81, 0x7E, 0, 0⟩

def zeroCmd : Cmd := ⟨0, 0, 0, 0⟩

/-- A trigger is handed on with its two symbols. -/
def triggerCmd (bc : Fin 16) (tag : Fin 54) : Cmd :=
  ⟨(encTrigger[bc]).toUInt8, if 0 < bc then (encTag[tag]).toUInt8 else 0xAA, 0, 0⟩

def calCmd (chipId : UInt8) (p : CalParameters) : Cmd :=
  ⟨Commands.Cal, chipId &&& 0x1F, 0, calData p⟩

/-- The commands as they are issued. -/
def issued : Command → List Cmd
  | pllLock => [pllLockCmd]
  | sync => [syncCmd]
  | clear chipId => [⟨Commands.Clear, chipId &&& 0x1F, 0, 0⟩]
  | globalPulse chipId => [⟨Commands.GlobalPulse, chipId &&& 0x1F, 0, 0⟩]
  | wrReg chipId address data =>
      [⟨Commands.WrReg, chipId &&& 0x1F, UInt32.ofNat address, data.toUInt32⟩]
  | rdReg chipId address => [⟨Commands.RdReg, chipId &&& 0x1F, UInt32.ofNat address, 0⟩]
  | pixRegBlock chipId data =>
      (data.flatMap fun d => [d.1, d.2]).map fun d =>
        ⟨Commands.WrReg, chipId &&& 0x1F, 0x200, (d &&& 0x3FF).toUInt32⟩
  | cal chipId p => [calCmd chipId p]
  | rearm bc tag chipId p => [triggerCmd bc tag, calCmd chipId p]
  | trigger bc1 tag1 bc2 tag2 => [triggerCmd bc1 tag1, triggerCmd bc2 tag2]
  | release => []

/-- The padding in the word before a short command. -/
def paddingBefore : Command → List Cmd
  | pllLock | sync | clear _ | globalPulse _ | cal _ _ => [pllLockCmd]
  | _ => []

/-- The padding behind a command. -/
def paddingAfter : Command → List Cmd
  | pllLock | sync | clear _ | globalPulse _ | release => [zeroCmd, zeroCmd]
  | wrReg _ _ _ | rdReg _ _ | pixRegBlock _ _ => [syncCmd, pllLockCmd, zeroCmd, zeroCmd]
  | cal _ _ | rearm _ _ _ _ | trigger _ _ _ _ => []

def received (c : Command) : List Cmd := c.paddingBefore ++ c.issued ++ c.paddingAfter

theorem read_pieces (c : Command) : Piece.format.read c.pieces = c.received := by
  cases c with
  | pixRegBlock chipId data =>
      simp only [pieces, received, paddingBefore, issued, paddingAfter,
        Transport.Format.read_cons, Transport.Format.read_nil, List.nil_append]
      apply congrArg₂
      · simp only [Piece.format, Piece.multiple, Body.emits]
      · rfl
  | _ => rfl

theorem sealed_of_isCommand {l : List Piece} (h : l.all (fun p => p.body.isCommand) = true) :
    Piece.format.Sealed l := by
  apply Transport.Format.sealed_of_closed
  intro p hp rest
  exact Body.followed_of_isCommand (List.all_eq_true.mp h p hp) rest

theorem sealed_pieces (c : Command) : Piece.format.Sealed c.pieces := by
  cases c with
  | pixRegBlock chipId data =>
      have hpadding : Piece.format.Sealed [.sync, .pllLock, .zero, .zero] :=
        sealed_of_isCommand rfl
      intro later hlater
      exact ⟨⟨0x81, 0x7E, _, rfl, rfl⟩, hpadding later hlater⟩
  | _ => exact sealed_of_isCommand rfl

theorem stream_flatMap_pieces (cmds : List Command) :
    Piece.format.stream (cmds.flatMap pieces) =
      (cmds.flatMap words).flatMap unitsOf := by
  induction cmds with
  | nil => rfl
  | cons c cmds ih =>
      rw [List.flatMap_cons, List.flatMap_cons, Transport.Format.stream_append,
        stream_pieces, ih, List.flatMap_append]

theorem read_flatMap_pieces (cmds : List Command) :
    Piece.format.read (cmds.flatMap pieces) = cmds.flatMap received := by
  induction cmds with
  | nil => rfl
  | cons c cmds ih =>
      rw [List.flatMap_cons, List.flatMap_cons, Transport.Format.read_append,
        read_pieces, ih]

end Yarr.Rd53.Itkpixv2Cmd.Command

/-!
## Laws of the interpreter

A call takes the piece that stands first in what is left of the unit buffer and
of the ring.
-/

namespace Yarr.Itkpixv2Emu

namespace CommandInterpreter

theorem refill_units (units : List UInt8) (tx : List UInt32) :
    (refill units tx).1 ++ (refill units tx).2.flatMap unitsOf = units ++ tx.flatMap unitsOf := by
  induction tx generalizing units with
  | nil => rfl
  | cons commandWord tx ih =>
      rw [refill]
      by_cases hsize : units.length < m_commandUnitBufferMaxSize
      · rw [if_pos hsize, ih, List.flatMap_cons, List.append_assoc]
      · rw [if_neg hsize]

theorem refill_full (units : List UInt8) (tx : List UInt32) :
    8 ≤ (refill units tx).1.length ∨ (refill units tx).2 = [] := by
  induction tx generalizing units with
  | nil => exact Or.inr rfl
  | cons commandWord tx ih =>
      rw [refill]
      by_cases hsize : units.length < m_commandUnitBufferMaxSize
      · rw [if_pos hsize]
        exact ih _
      · rw [if_neg hsize]
        exact Or.inl (Nat.le_of_not_lt hsize)

/-- What the call has at hand after reading ahead. -/
def readAhead (s : CommandInterpreter) (tx : List UInt32) : List UInt8 × List UInt32 :=
  if s.m_commandUnitBuffer.length < m_commandUnitBufferMinSize then
    refill s.m_commandUnitBuffer tx
  else (s.m_commandUnitBuffer, tx)

theorem readAhead_units (s : CommandInterpreter) (tx : List UInt32) :
    (s.readAhead tx).1 ++ (s.readAhead tx).2.flatMap unitsOf =
      s.m_commandUnitBuffer ++ tx.flatMap unitsOf := by
  rw [readAhead]
  by_cases hsize : s.m_commandUnitBuffer.length < m_commandUnitBufferMinSize
  · rw [if_pos hsize]
    exact refill_units _ tx
  · rw [if_neg hsize]

theorem readAhead_full (s : CommandInterpreter) (tx : List UInt32) :
    8 ≤ (s.readAhead tx).1.length ∨ (s.readAhead tx).2 = [] := by
  rw [readAhead]
  by_cases hsize : s.m_commandUnitBuffer.length < m_commandUnitBufferMinSize
  · rw [if_pos hsize]
    exact refill_full _ tx
  · rw [if_neg hsize]
    exact Or.inl (Nat.le_of_not_lt hsize)

theorem readCommand_eq (s : CommandInterpreter) (tx : List UInt32) :
    s.readCommand tx =
      match readHead (s.readAhead tx).1 with
      | some (.command cmd units) =>
          some (⟨units, s.m_commandsOut ++ [cmd]⟩, (s.readAhead tx).2)
      | some (.multiple cmd units) =>
          readMultiple cmd s.m_commandsOut units (s.readAhead tx).2
      | none =>
          if (s.readAhead tx).1 = [] then some (⟨[], s.m_commandsOut⟩, (s.readAhead tx).2)
          else none := by
  rw [readCommand, ← readAhead]
  generalize s.readAhead tx = ahead
  obtain ⟨units, rest⟩ := ahead
  cases units with
  | nil => rfl
  | cons header units =>
      cases hfront : readFront header units with
      | none => simp [readHead, hfront]
      | some front =>
          cases front with
          | command cmd units => simp [readHead, hfront]
          | multiple cmd units => simp [readHead, hfront]

theorem element_data (d : UInt16) :
    ((lut8to5 (symbol ((d >>> 5) &&& 0x1F))).toUInt32 <<< 5) |||
        (lut8to5 (symbol (d &&& 0x1F))).toUInt32 = (d &&& 0x3FF).toUInt32 := by
  rw [lut8to5_symbol, lut8to5_symbol, toUInt32_five, toUInt32_five]
  apply UInt32.toBitVec_inj.mp
  apply BitVec.eq_of_getLsbD_eq
  intro i hi
  interval_cases i <;> simp

/-- The loop of a block takes its elements and stops at the header after them. -/
theorem readMultiple_takes {cmd : Cmd} {out : List Cmd} {data : List UInt16} {units : List UInt8}
    {tx : List UInt32} {rest : List UInt8}
    (h : units ++ tx.flatMap unitsOf = data.flatMap Body.element ++ rest)
    (hrest : (Body.multiple cmd data).Followed rest) :
    ∃ units' tx', readMultiple cmd out units tx =
        some (⟨units', out ++ (Body.multiple cmd data).emits⟩, tx') ∧
      units' ++ tx'.flatMap unitsOf = rest := by
  fun_induction readMultiple cmd out units tx generalizing data with
  | case1 out first second units tx hend =>
      cases data with
      | nil =>
          refine ⟨first :: second :: units, tx, ?_, h⟩
          rw [Body.emits, List.map_nil, List.append_nil]
      | cons d data =>
          rw [List.flatMap_cons, Body.element, List.cons_append] at h
          injection h with hfirst _
          rw [hfirst, endsMultiple_symbol] at hend
          cases hend
  | case2 out first second units tx hend data' =>
      rename_i ih
      cases data with
      | nil =>
          obtain ⟨header, id, later, hlater, hheader⟩ := hrest
          rw [List.flatMap_nil, List.nil_append, hlater] at h
          injection h with hfirst _
          rw [hfirst] at hend
          exact absurd hheader hend
      | cons d data =>
          rw [List.flatMap_cons, Body.element, List.cons_append] at h
          injection h with hfirst htail
          injection htail with hsecond hunits
          obtain ⟨units', tx', hread, hrest'⟩ := ih hunits hrest
          refine ⟨units', tx', ?_, hrest'⟩
          have hdata : data' = (d &&& 0x3FF).toUInt32 := by
            show ((lut8to5 first).toUInt32 <<< 5) ||| (lut8to5 second).toUInt32 = _
            rw [hfirst, hsecond, element_data]
          rw [hread, hdata, Body.emits, Body.emits, List.map_cons, List.append_assoc]
          rfl
  | case3 out units commandWord tx hshort ih =>
      apply ih
      · rw [List.append_assoc, ← h, List.flatMap_cons]
      · exact hrest
  | case4 out units hshort =>
      obtain ⟨header, id, later, hlater, -⟩ := hrest
      rw [List.flatMap_nil, List.append_nil, hlater] at h
      have hlength : 2 ≤ units.length := by
        rw [h, List.length_append, List.length_cons, List.length_cons]
        omega
      match units with
      | [] => simp at hlength
      | [_] => simp at hlength
      | first :: second :: units => exact absurd rfl (hshort first second units)

/-- The units that are still to be read, and the commands that have been. -/
def view : Transport.View (CommandInterpreter × List UInt32) UInt8 Cmd where
  pending := fun s => s.1.m_commandUnitBuffer ++ s.2.flatMap unitsOf
  out := fun s => s.1.m_commandsOut

def call (s : CommandInterpreter × List UInt32) : Option (CommandInterpreter × List UInt32) :=
  s.1.readCommand s.2

theorem head_of_prefix {p : Piece} {units rest later : List UInt8}
    (h : units ++ later = p.units ++ rest) (hfull : 8 ≤ units.length ∨ later = []) :
    ∃ units', units = p.head ++ units' ∧ units' ++ later = p.body.units ++ rest := by
  have hfits := p.fits
  rw [Piece.units, List.append_assoc] at h
  have hle : p.head.length ≤ units.length := by
    rcases hfull with hfull | hempty
    · omega
    · rw [hempty, List.append_nil] at h
      rw [h, List.length_append]
      omega
  have hhead : p.head = units.take p.head.length := by
    have htake := congrArg (List.take p.head.length) h
    rw [List.take_append_of_le_length hle, List.take_left] at htake
    exact htake.symm
  apply Exists.intro (units.drop p.head.length)
  have hunits : units = p.head ++ units.drop p.head.length := by
    rw [← List.take_append_drop p.head.length units, ← hhead]
    simp
  apply And.intro hunits
  rw [hunits, List.append_assoc] at h
  exact List.append_cancel_left h

theorem takesFirst : Transport.TakesFirst Piece.format view call := by
  rintro ⟨s, tx⟩ p rest hpending hfollowed
  have hahead := s.readAhead_units tx
  have hfull := s.readAhead_full tx
  have hstream : s.m_commandUnitBuffer ++ tx.flatMap unitsOf = p.units ++ rest := hpending
  rw [hstream] at hahead
  have hfull' : 8 ≤ (s.readAhead tx).1.length ∨ (s.readAhead tx).2.flatMap unitsOf = [] := by
    rcases hfull with hfull | hempty
    · exact Or.inl hfull
    · rw [hempty]
      exact Or.inr rfl
  obtain ⟨units', hunits, hlater⟩ := head_of_prefix hahead hfull'
  have hread := p.reads units'
  rw [← hunits] at hread
  rw [call, readCommand_eq, hread]
  cases hbody : p.body with
  | command cmd =>
      refine ⟨_, rfl, ?_, ?_⟩
      · rw [hbody] at hlater
        exact hlater
      · show s.m_commandsOut ++ [cmd] = s.m_commandsOut ++ p.body.emits
        rw [hbody]
        rfl
  | multiple cmd data =>
      have hends : (Body.multiple cmd data).Followed rest := by
        rw [← hbody]
        exact hfollowed
      rw [hbody] at hlater
      obtain ⟨units'', tx'', hloop, hrest⟩ := readMultiple_takes hlater hends
      refine ⟨_, hloop, hrest, ?_⟩
      show s.m_commandsOut ++ _ = s.m_commandsOut ++ p.body.emits
      rw [hbody]

theorem call_idle (out : List Cmd) :
    call ((⟨[], out⟩ : CommandInterpreter), []) = some (⟨[], out⟩, []) := rfl

end CommandInterpreter

end Yarr.Itkpixv2Emu

/-!
## Transport of the commands

The words that the commands put into the Tx FIFO are read by repeated calls of
the interpreter into the issued commands, in their order, and the padding.
-/

namespace Yarr.Itkpixv2Emu

open Rd53 Rd53.Itkpixv2Cmd

/-- All the pieces of a list of commands and of PLL locks behind them. -/
def allPieces (cmds : List Command) (k : Nat) : List Piece :=
  cmds.flatMap Command.pieces ++ List.replicate (2 * k) Piece.pllLock

theorem stream_pllLocks (k : Nat) :
    Piece.format.stream (List.replicate (2 * k) Piece.pllLock) =
      (List.replicate k (0xAAAAAAAA : UInt32)).flatMap unitsOf := by
  induction k with
  | zero => rfl
  | succ k ih =>
      rw [Nat.mul_succ, List.replicate_succ, List.replicate_succ, List.replicate_succ,
        List.flatMap_cons, ← ih]
      rfl

theorem read_pllLocks (n : Nat) :
    Piece.format.read (List.replicate n Piece.pllLock) =
      List.replicate n Command.pllLockCmd := by
  induction n with
  | zero => rfl
  | succ n ih =>
      rw [List.replicate_succ, List.replicate_succ, Transport.Format.read_cons, ih]
      rfl

theorem ordered_allPieces (cmds : List Command) (k : Nat) :
    Piece.format.Ordered (allPieces cmds k) := by
  apply Transport.Format.ordered_of_sealed
  apply Transport.Format.sealed_append
  · exact Transport.Format.sealed_flatMap _ Command.sealed_pieces
  · apply Command.sealed_of_isCommand
    rw [List.all_eq_true]
    intro p hp
    rw [List.eq_of_mem_replicate hp]
    rfl

theorem units_eq_nil {tx : List UInt32} (h : tx.flatMap unitsOf = []) : tx = [] := by
  cases tx with
  | nil => rfl
  | cons commandWord tx => cases h

theorem lutTriggerPattern_encTrigger :
    ∀ i : Fin 16, 0 < i →
      lutTriggerPattern.lookup (encTrigger[i]).toUInt8 = some (UInt8.ofNat i) := by
  decide

theorem lutTriggerTagBase_encTag :
    ∀ i : Fin 54, lutTriggerTagBase.lookup (encTag[i]).toUInt8 = some (UInt8.ofNat i) := by
  decide +kernel

theorem trigger_decodes (bc : Fin 16) (tag : Fin 54) (hbc : 0 < bc) :
    lutTriggerPattern.lookup (Command.triggerCmd bc tag).header = some (UInt8.ofNat bc) ∧
      lutTriggerTagBase.lookup (Command.triggerCmd bc tag).id = some (UInt8.ofNat tag) := by
  constructor
  · exact lutTriggerPattern_encTrigger bc hbc
  · rw [Command.triggerCmd, if_pos hbc]
    exact lutTriggerTagBase_encTag tag

open CommandInterpreter in
/--
Whatever is issued, calls of the interpreter are never stuck, what they have
read so far is the beginning of what was sent, and enough calls read it all.
-/
theorem commands_arrive (cmds : List Command) (k : Nat) :
    let tx := cmds.flatMap Command.words ++ List.replicate k 0xAAAAAAAA
    let expected :=
      cmds.flatMap Command.received ++ List.replicate (2 * k) Command.pllLockCmd
    (∀ n, ∃ s tx', Transport.calls call n ((⟨[], []⟩ : CommandInterpreter), tx) = some (s, tx') ∧
        s.m_commandsOut <+: expected) ∧
      (∃ n, ∀ m, n ≤ m →
        Transport.calls call m ((⟨[], []⟩ : CommandInterpreter), tx) =
          some (⟨[], expected⟩, [])) ∧
      ∀ bc tag, 0 < bc →
        lutTriggerPattern.lookup (Command.triggerCmd bc tag).header = some (UInt8.ofNat bc) ∧
          lutTriggerTagBase.lookup (Command.triggerCmd bc tag).id = some (UInt8.ofNat tag) := by
  intro tx expected
  have hpending : view.pending ((⟨[], []⟩ : CommandInterpreter), tx) =
      Piece.format.stream (allPieces cmds k) := by
    show tx.flatMap unitsOf = _
    rw [allPieces, Transport.Format.stream_append, Command.stream_flatMap_pieces, stream_pllLocks,
      List.flatMap_append]
  have hexpected : Piece.format.read (allPieces cmds k) = expected := by
    rw [allPieces, Transport.Format.read_append, Command.read_flatMap_pieces, read_pllLocks]
  have htake : ∀ n, n ≤ (allPieces cmds k).length → _ := fun n hn =>
    Transport.calls_take takesFirst (ordered_allPieces cmds k) hpending hn
  have hall : ∀ m, (allPieces cmds k).length ≤ m →
      Transport.calls call m ((⟨[], []⟩ : CommandInterpreter), tx) =
        some (⟨[], expected⟩, []) := by
    intro m hm
    obtain ⟨⟨s, tx'⟩, hcalls, hrest, hout⟩ := htake _ (Nat.le_refl _)
    rw [List.drop_length, Transport.Format.stream_nil] at hrest
    rw [List.take_length, hexpected] at hout
    obtain ⟨hunits, htx⟩ := List.append_eq_nil_iff.mp hrest
    have hs : (s, tx') = ((⟨[], expected⟩ : CommandInterpreter), []) := by
      obtain ⟨units, out⟩ := s
      have hunits' : units = [] := hunits
      have hout' : out = expected := hout
      have htx' : tx' = [] := units_eq_nil htx
      rw [hunits', hout', htx']
    have hsplit : m = (allPieces cmds k).length + (m - (allPieces cmds k).length) := by omega
    rw [hsplit, Transport.calls_add, hcalls, hs, Option.bind_some,
      Transport.calls_idle (call_idle expected)]
  constructor
  · intro n
    by_cases hn : n ≤ (allPieces cmds k).length
    · obtain ⟨⟨s, tx'⟩, hcalls, -, hout⟩ := htake n hn
      apply Exists.intro s
      apply Exists.intro tx'
      apply And.intro hcalls
      have hs : s.m_commandsOut = Piece.format.read ((allPieces cmds k).take n) := hout
      rw [hs, ← hexpected]
      apply Transport.Format.read_prefix
      exact List.take_prefix n _
    · exact ⟨_, _, hall n (by omega), List.prefix_refl _⟩
  · exact ⟨⟨_, hall⟩, trigger_decodes⟩

end Yarr.Itkpixv2Emu
