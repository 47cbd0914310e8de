import Yarr.Core.Invariant
import Yarr.Itkpixv2Emu.CommandTransport
import Yarr.Itkpixv2Emu.HeadLaws

/-!
# The loop of the ITKPIXV2 emulator

The emulator has a thread of its own. It shares only the Tx ring with the
driver, so a run is an interleaving of the words that the driver writes with
the accesses of the loop to the ring, each of them together with what the loop
does before the next one.
-/

namespace Yarr.Itkpixv2Emu

open Rd53.Itkpixv2Cmd CommandInterpreter

/-- Where the loop is. -/
inductive Position where
  /-- before `m_tx->isEmpty()` in `executeLoop` -/
  | idle
  /-- in `readCommand`, before the units are looked at -/
  | refill
  /-- in `readCommand`, with the units that it has -/
  | parse
  /-- in the loop of a multiple write -/
  | multiple (cmd : Cmd)
  /-- a unit was taken from an empty buffer -/
  | failed
  deriving DecidableEq

structure Emu where
  /-- the words that the driver has still to write -/
  pending : List UInt32
  tx : List UInt32
  m_commandUnitBuffer : List UInt8
  m_commandBuffer : List Cmd
  /-- what the loop has taken from the command buffer -/
  executed : List Cmd
  position : Position

/-- The headers that `executeLoop` does something for. -/
def acts (header : UInt8) : Bool :=
  header = Commands.Clear || header = Commands.GlobalPulse || header = Commands.Cal
    || header = Commands.WrReg || header = Commands.RdReg || triggerCommands.contains header

namespace Emu

/-- All the commands are still to be written. -/
def start (cmds : List Command) : Emu where
  pending := cmds.flatMap Command.words
  tx := []
  m_commandUnitBuffer := []
  m_commandBuffer := []
  executed := []
  position := .idle

def write (s : Emu) : Emu :=
  match s.pending with
  | [] => s
  | commandWord :: pending => { s with pending := pending, tx := s.tx ++ [commandWord] }

/-- `readCommand` returns, and the loop empties the command buffer. -/
def finish (s : Emu) : Emu :=
  { s with
    m_commandBuffer := []
    executed := s.executed ++ s.m_commandBuffer
    position := .idle }

def refillStep (s : Emu) : Emu :=
  if s.m_commandUnitBuffer.length < m_commandUnitBufferMaxSize then
    match s.tx with
    | [] => { s with position := .parse }
    | commandWord :: tx =>
        { s with tx := tx, m_commandUnitBuffer := s.m_commandUnitBuffer ++ unitsOf commandWord }
  else { s with position := .parse }

def parseStep (s : Emu) : Emu :=
  match s.m_commandUnitBuffer with
  | [] => s.finish
  | header :: units =>
      match readFront header units with
      | some (.command cmd units) =>
          finish { s with
            m_commandUnitBuffer := units
            m_commandBuffer := s.m_commandBuffer ++ [cmd] }
      | some (.multiple cmd units) =>
          { s with m_commandUnitBuffer := units, position := .multiple cmd }
      | none => { s with position := .failed }

/-- `read32` waits for a word. -/
def multipleStep (cmd : Cmd) (s : Emu) : Emu :=
  match s.m_commandUnitBuffer with
  | first :: second :: units =>
      if endsMultiple first then s.finish
      else
        let data := ((lut8to5 first).toUInt32 <<< 5) ||| (lut8to5 second).toUInt32
        { s with
          m_commandUnitBuffer := units
          m_commandBuffer := s.m_commandBuffer ++ [{ cmd with data := data }] }
  | units =>
      match s.tx with
      | [] => s
      | commandWord :: tx =>
          { s with tx := tx, m_commandUnitBuffer := units ++ unitsOf commandWord }

def executeStep (s : Emu) : Emu :=
  match s.position with
  | .idle => if s.tx.isEmpty then s else { s with position := .refill }
  | .refill => s.refillStep
  | .parse => s.parseStep
  | .multiple cmd => s.multipleStep cmd
  | .failed => s

inductive Actor where
  | driver
  | emulator
  deriving DecidableEq

def step (s : Emu) : Actor → Emu
  | .driver => s.write
  | .emulator => s.executeStep

/-- All words are written, the ring is empty and the loop only idles. -/
def Done (s : Emu) : Prop := s.pending = [] ∧ s.tx = [] ∧ s.position = .idle

/--
No unit was taken from an empty buffer; and if the emulator is done, what it
has acted on is what was issued.
-/
def Good (cmds : List Command) (s : Emu) : Prop :=
  s.position ≠ .failed ∧
    (s.Done → s.executed.filter (fun cmd => acts cmd.header) =
      (cmds.flatMap Command.issued).filter (fun cmd => acts cmd.header))

end Emu

end Yarr.Itkpixv2Emu

/-!
## Laws of the loop

At every point of a run the commands that have been executed and those in the
buffers, in the ring and still to be written are together the ones that were
issued. Whether a step fails, and whether it leaves a command behind for good,
can be seen from the unit buffer before it.
-/

namespace Yarr.Itkpixv2Emu

open Rd53.Itkpixv2Cmd CommandInterpreter

/-! ## Quiet units -/

/--
Units without a command that the loop acts on: frames that it passes over, and
blocks without an element.
-/
inductive Quiet : List UInt8 → Prop where
  | nil : Quiet []
  | frame {header id : UInt8} {units : List UInt8} (hheader : acts header = false)
      (hunits : Quiet units) : Quiet (header :: id :: units)
  | block {id high low next : UInt8} {rest : List UInt8} (hhigh : high >>> 7 ≠ 0)
      (hnext : endsMultiple next = true) (hrest : Quiet (next :: rest)) :
      Quiet (Commands.WrReg :: id :: high :: low :: next :: rest)

theorem quiet_frame {header id : UInt8} {units : List UInt8} (h : acts header = false) :
    Quiet (header :: id :: units) ↔ Quiet units := by
  constructor
  · intro hquiet
    cases hquiet with
    | frame _ hunits => exact hunits
    | block _ _ _ => cases h
  · exact Quiet.frame h

theorem quiet_block {id high low next : UInt8} {rest : List UInt8} (h : high >>> 7 ≠ 0) :
    Quiet (Commands.WrReg :: id :: high :: low :: next :: rest) ↔
      endsMultiple next = true ∧ Quiet (next :: rest) := by
  constructor
  · intro hquiet
    cases hquiet with
    | frame hheader _ => cases hheader
    | block _ hnext hrest => exact ⟨hnext, hrest⟩
  · rintro ⟨hnext, hrest⟩
    exact Quiet.block h hnext hrest

theorem not_quiet {header : UInt8} {units : List UInt8} (h : acts header = true)
    (hsingle : isMultiple (header :: units) = false) : ¬ Quiet (header :: units) := by
  intro hquiet
  cases hquiet with
  | frame hheader _ =>
      rw [h] at hheader
      cases hheader
  | block hhigh _ _ => simp [isMultiple, hhigh] at hsingle

def acting (cmds : List Cmd) : List Cmd := cmds.filter fun cmd => acts cmd.header

theorem acting_append (a b : List Cmd) : acting (a ++ b) = acting a ++ acting b :=
  List.filter_append ..

theorem headLength_of_not_acts {header : UInt8} (h : acts header = false) (units : List UInt8) :
    headLength (header :: units) = 2 := by
  have hcal : header ≠ Commands.Cal := by
    rintro rfl
    cases h
  have hrd : header ≠ Commands.RdReg := by
    rintro rfl
    cases h
  have hwr : header ≠ Commands.WrReg := by
    rintro rfl
    cases h
  rw [headLength, if_neg hcal, if_neg hrd, if_neg hwr]

theorem acting_emits_multiple {cmd : Cmd} (hcmd : cmd.header = Commands.WrReg) (d : UInt16)
    (data : List UInt16) : acting (Body.multiple cmd (d :: data)).emits ≠ [] := by
  have hacts : acts cmd.header = true := by
    rw [hcmd]
    rfl
  rw [acting, Body.emits, List.map_cons, List.filter_cons, if_pos hacts]
  exact List.cons_ne_nil _ _

/-- Quiet units are those of pieces that the loop does not act on. -/
theorem quiet_stream {ps : List Piece} (hps : Piece.format.Ordered ps) :
    Quiet (Piece.format.stream ps) ↔ acting (Piece.format.read ps) = [] := by
  induction ps with
  | nil =>
      constructor
      · exact fun _ => rfl
      · exact fun _ => Quiet.nil
  | cons p ps ih =>
      obtain ⟨hfollowed, hps⟩ := hps
      have hfollowed' : p.body.Followed (Piece.format.stream ps) := hfollowed
      have hstream : Piece.format.stream (p :: ps) =
          p.head ++ (p.body.units ++ Piece.format.stream ps) := List.append_assoc _ _ _
      have hread : Piece.format.read (p :: ps) = p.body.emits ++ Piece.format.read ps := rfl
      rw [hstream, hread, acting_append, List.append_eq_nil_iff, ← ih hps]
      cases hbody : p.body with
      | command cmd =>
          obtain ⟨hsingle, hheader, hlength, hdrop⟩ :=
            Piece.command_head hbody (Piece.format.stream ps)
          rw [Body.units, Body.emits, List.nil_append]
          generalize p.head ++ Piece.format.stream ps = units at hsingle hheader hlength hdrop ⊢
          cases units with
          | nil => cases hheader
          | cons header units =>
              have hheader' : header = cmd.header := by
                injection hheader
              by_cases hacts : acts header = true
              · have hnot := not_quiet hacts hsingle
                have hsome : acting [cmd] ≠ [] := by
                  rw [acting, List.filter_cons, ← hheader', if_pos hacts]
                  exact List.cons_ne_nil _ _
                exact ⟨fun h => absurd h hnot, fun h => absurd h.1 hsome⟩
              · have hacts' : acts header = false := Bool.eq_false_iff.mpr hacts
                have hnone : acting [cmd] = [] := by
                  rw [acting, List.filter_cons, ← hheader', if_neg hacts]
                  rfl
                rw [headLength_of_not_acts hacts'] at hdrop hlength
                cases units with
                | nil => simp at hlength
                | cons id units =>
                    have hunits : units = Piece.format.stream ps := hdrop
                    rw [quiet_frame hacts', hunits]
                    exact ⟨fun h => ⟨hnone, h⟩, fun h => h.2⟩
      | multiple cmd data =>
          obtain ⟨hcmd, id, high, low, hhigh, hunits⟩ :=
            Piece.multiple_head hbody ((Body.multiple cmd data).units ++ Piece.format.stream ps)
          rw [hunits]
          cases data with
          | nil =>
              rw [hbody] at hfollowed'
              obtain ⟨next, id', later, hlater, hnext⟩ := hfollowed'
              rw [Body.units, List.flatMap_nil, List.nil_append, hlater, quiet_block hhigh]
              exact ⟨fun h => ⟨rfl, h.2⟩, fun h => ⟨hnext, h.2⟩⟩
          | cons d data =>
              have hsome := acting_emits_multiple hcmd d data
              have hnot : ¬ Quiet (Commands.WrReg :: id :: high :: low ::
                  ((Body.multiple cmd (d :: data)).units ++ Piece.format.stream ps)) := by
                rw [Body.units, List.flatMap_cons, Body.element, List.cons_append,
                  List.cons_append, quiet_block hhigh, endsMultiple_symbol]
                rintro ⟨hends, -⟩
                cases hends
              exact ⟨fun h => absurd h hnot, fun h => absurd h.1 hsome⟩

theorem acting_received (cmds : List Command) :
    acting (cmds.flatMap Command.received) = acting (cmds.flatMap Command.issued) := by
  induction cmds with
  | nil => rfl
  | cons c cmds ih =>
      have hone : acting c.received = acting c.issued := by
        have hbefore : acting c.paddingBefore = [] := by cases c <;> rfl
        have hafter : acting c.paddingAfter = [] := by cases c <;> rfl
        rw [Command.received, acting_append, acting_append, hbefore, hafter, List.nil_append,
          List.append_nil]
      rw [List.flatMap_cons, List.flatMap_cons, acting_append, acting_append, hone, ih]

namespace Emu

/-- The units that the loop has still to take. -/
def stream (s : Emu) : List UInt8 :=
  s.m_commandUnitBuffer ++ (s.tx ++ s.pending).flatMap unitsOf

/-- Between two commands: the pieces that are left. -/
structure Between (cmds : List Command) (s : Emu) (ps : List Piece) : Prop where
  ordered : Piece.format.Ordered ps
  units : s.stream = Piece.format.stream ps
  buffer : s.m_commandBuffer = []
  account : s.executed ++ Piece.format.read ps = cmds.flatMap Command.received

/-- In a multiple write: the elements that are left, and the pieces after them. -/
structure Within (cmds : List Command) (s : Emu) (cmd : Cmd) (data : List UInt16)
    (ps : List Piece) : Prop where
  ordered : Piece.format.Ordered ps
  followed : (Body.multiple cmd data).Followed (Piece.format.stream ps)
  units : s.stream = data.flatMap Body.element ++ Piece.format.stream ps
  account : s.executed ++ s.m_commandBuffer ++
    ((Body.multiple cmd data).emits ++ Piece.format.read ps) = cmds.flatMap Command.received

/-- No command is lost, doubled or out of order. -/
def Account (cmds : List Command) (s : Emu) : Prop :=
  match s.position with
  | .failed => True
  | .multiple cmd => ∃ data ps, Within cmds s cmd data ps
  | _ => ∃ ps, Between cmds s ps

theorem account_start (cmds : List Command) : Account cmds (start cmds) := by
  apply Exists.intro (cmds.flatMap Command.pieces)
  constructor
  · apply Transport.Format.ordered_of_sealed
    exact Transport.Format.sealed_flatMap _ Command.sealed_pieces
  · exact (Command.stream_flatMap_pieces cmds).symm
  · rfl
  · exact Command.read_flatMap_pieces cmds

/-! ## When the loop goes to sleep -/

theorem good_of_busy {cmds : List Command} {s : Emu} (hidle : s.position ≠ .idle)
    (hfailed : s.position ≠ .failed) : s.Good cmds :=
  ⟨hfailed, fun hdone => absurd hdone.2.2 hidle⟩

/-- A sleeping loop has done its work if no acting command is in the unit buffer. -/
theorem good_of_between {cmds : List Command} {s : Emu} {ps : List Piece}
    (hbetween : Between cmds s ps) (hidle : s.position = .idle) :
    s.Good cmds ↔ (s.tx = [] → s.pending = [] → Quiet s.m_commandUnitBuffer) := by
  have hunits : s.tx = [] → s.pending = [] →
      s.m_commandUnitBuffer = Piece.format.stream ps := by
    intro htx hpending
    rw [← hbetween.units, stream, htx, hpending, List.nil_append, List.flatMap_nil,
      List.append_nil]
  have htotal : acting s.executed ++ acting (Piece.format.read ps) =
      acting (cmds.flatMap Command.issued) := by
    rw [← acting_append, hbetween.account, acting_received]
  constructor
  · rintro ⟨-, hdone⟩ htx hpending
    rw [hunits htx hpending, quiet_stream hbetween.ordered]
    have hall : acting s.executed = acting (cmds.flatMap Command.issued) :=
      hdone ⟨hpending, htx, hidle⟩
    rw [← htotal] at hall
    exact List.self_eq_append_right.mp hall
  · intro hquiet
    constructor
    · rw [hidle]
      exact Position.noConfusion
    · rintro ⟨hpending, htx, -⟩
      have hnone := hquiet htx hpending
      rw [hunits htx hpending, quiet_stream hbetween.ordered] at hnone
      show acting s.executed = acting (cmds.flatMap Command.issued)
      rw [← htotal, hnone, List.append_nil]

/-! ## Steps -/

/--
The unit buffer is ready for the step: the front command is complete; and if
no word is left anywhere, nothing that the loop acts on stays behind it.
-/
structure Timely (s : Emu) : Prop where
  complete : s.position = .parse →
    headLength s.m_commandUnitBuffer ≤ s.m_commandUnitBuffer.length
  last : s.position = .parse → s.tx = [] → s.pending = [] →
    isMultiple s.m_commandUnitBuffer = false →
      Quiet (s.m_commandUnitBuffer.drop (headLength s.m_commandUnitBuffer))
  block : ∀ cmd first second units, s.position = .multiple cmd → s.tx = [] → s.pending = [] →
    s.m_commandUnitBuffer = first :: second :: units → endsMultiple first = true →
      Quiet s.m_commandUnitBuffer

theorem timely_of_position {s : Emu} (hparse : s.position ≠ .parse)
    (hmultiple : ∀ cmd, s.position ≠ .multiple cmd) : s.Timely where
  complete := fun h => absurd h hparse
  last := fun h => absurd h hparse
  block := fun cmd _ _ _ h => absurd h (hmultiple cmd)

theorem write_eq (s : Emu) :
    s.write = s ∨ ∃ commandWord, s.write = { s with
      pending := s.pending.tail, tx := s.tx ++ [commandWord] } ∧
        s.pending = commandWord :: s.pending.tail := by
  cases hpending : s.pending with
  | nil =>
      apply Or.inl
      rw [write, hpending]
  | cons commandWord pending =>
      apply Or.inr
      apply Exists.intro commandWord
      rw [write, hpending]
      exact ⟨rfl, rfl⟩

theorem stream_write (s : Emu) : s.write.stream = s.stream := by
  rcases s.write_eq with hsame | ⟨commandWord, hwrite, hpending⟩
  · rw [hsame]
  · have htail : s.tx ++ [commandWord] ++ s.pending.tail = s.tx ++ s.pending := by
      rw [List.append_assoc, List.singleton_append, ← hpending]
    rw [hwrite, stream, stream]
    show s.m_commandUnitBuffer ++ (s.tx ++ [commandWord] ++ s.pending.tail).flatMap unitsOf = _
    rw [htail]

theorem account_write {cmds : List Command} {s : Emu} (h : Account cmds s) :
    Account cmds s.write := by
  have hstream := s.stream_write
  have hrest : s.write.position = s.position ∧ s.write.m_commandBuffer = s.m_commandBuffer ∧
      s.write.executed = s.executed := by
    rcases s.write_eq with hsame | ⟨commandWord, hwrite, -⟩
    · rw [hsame]
      exact ⟨rfl, rfl, rfl⟩
    · rw [hwrite]
      exact ⟨rfl, rfl, rfl⟩
  obtain ⟨hposition, hbuffer, hexecuted⟩ := hrest
  have hbetween : ∀ ps, Between cmds s ps → Between cmds s.write ps := by
    intro ps hb
    constructor
    · exact hb.ordered
    · rw [hstream, hb.units]
    · rw [hbuffer, hb.buffer]
    · rw [hexecuted, hb.account]
  rw [Account] at h ⊢
  rw [hposition]
  cases hpos : s.position with
  | failed => trivial
  | multiple cmd =>
      rw [hpos] at h
      obtain ⟨data, ps, hw⟩ := h
      apply Exists.intro data
      apply Exists.intro ps
      constructor
      · exact hw.ordered
      · exact hw.followed
      · rw [hstream, hw.units]
      · rw [hexecuted, hbuffer, hw.account]
  | idle =>
      rw [hpos] at h
      obtain ⟨ps, hb⟩ := h
      exact ⟨ps, hbetween ps hb⟩
  | refill =>
      rw [hpos] at h
      obtain ⟨ps, hb⟩ := h
      exact ⟨ps, hbetween ps hb⟩
  | parse =>
      rw [hpos] at h
      obtain ⟨ps, hb⟩ := h
      exact ⟨ps, hbetween ps hb⟩

theorem good_write {cmds : List Command} {s : Emu} (h : s.Good cmds) :
    s.write.Good cmds := by
  rcases s.write_eq with hsame | ⟨commandWord, hwrite, -⟩
  · rw [hsame]
    exact h
  · rw [hwrite]
    apply And.intro h.1
    rintro ⟨-, htx, -⟩
    exact absurd (List.append_eq_nil_iff.mp htx).2 (List.cons_ne_nil _ _)

theorem Between.move {cmds : List Command} {s : Emu} {ps : List Piece}
    (h : Between cmds s ps) (position : Position) :
    Between cmds { s with position := position } ps :=
  ⟨h.ordered, h.units, h.buffer, h.account⟩

theorem refillStep_between {cmds : List Command} {s : Emu} {ps : List Piece}
    (hposition : s.position = .refill) (h : Between cmds s ps) :
    Between cmds s.refillStep ps ∧
      (s.refillStep.position = .refill ∨ s.refillStep.position = .parse) := by
  rw [refillStep]
  by_cases hsize : s.m_commandUnitBuffer.length < m_commandUnitBufferMaxSize
  · rw [if_pos hsize]
    cases htx : s.tx with
    | nil =>
        apply And.intro _ (Or.inr rfl)
        constructor
        · exact h.ordered
        · rw [← h.units, stream, stream, htx]
        · exact h.buffer
        · exact h.account
    | cons commandWord tx =>
        apply And.intro _ (Or.inl hposition)
        constructor
        · exact h.ordered
        · rw [← h.units, stream, stream, htx]
          simp only [List.cons_append, List.flatMap_cons, List.append_assoc]
        · exact h.buffer
        · exact h.account
  · rw [if_neg hsize]
    exact ⟨h.move .parse, Or.inr rfl⟩

theorem between_front {cmds : List Command} {s : Emu} {ps : List Piece} {f : Front}
    (h : Between cmds s ps) (hread : readHead s.m_commandUnitBuffer = some f) :
    ∃ p rest, ps = p :: rest ∧
      p.body.front (p.body.units ++ Piece.format.stream rest) =
        f.append ((s.tx ++ s.pending).flatMap unitsOf) := by
  have hlater := readHead_append hread ((s.tx ++ s.pending).flatMap unitsOf)
  have hunits : s.m_commandUnitBuffer ++ (s.tx ++ s.pending).flatMap unitsOf =
      Piece.format.stream ps := h.units
  rw [hunits] at hlater
  cases ps with
  | nil => cases hlater
  | cons p rest =>
      have hstream : Piece.format.stream (p :: rest) =
          p.head ++ (p.body.units ++ Piece.format.stream rest) := List.append_assoc _ _ _
      rw [hstream, p.reads] at hlater
      exact ⟨p, rest, rfl, Option.some.inj hlater⟩

theorem parseStep_command {cmds : List Command} {s : Emu} {ps : List Piece} {cmd : Cmd}
    {units : List UInt8} (h : Between cmds s ps)
    (hread : readHead s.m_commandUnitBuffer = some (.command cmd units)) :
    ∃ rest, Between cmds (finish { s with
      m_commandUnitBuffer := units
      m_commandBuffer := s.m_commandBuffer ++ [cmd] }) rest := by
  obtain ⟨p, rest, hps, hfront⟩ := between_front h hread
  subst hps
  cases hbody : p.body with
  | multiple cmd' data =>
      rw [hbody] at hfront
      cases hfront
  | command cmd' =>
      rw [hbody, Body.front, Front.append, Front.command.injEq, Body.units, List.nil_append]
        at hfront
      obtain ⟨hcmd, hunits⟩ := hfront
      have haccount := h.account
      rw [Transport.Format.read_cons] at haccount
      have hemits : Piece.format.emits p = [cmd] := by
        show p.body.emits = [cmd]
        rw [hbody, Body.emits, hcmd]
      apply Exists.intro rest
      constructor
      · exact h.ordered.2
      · exact hunits.symm
      · rfl
      · rw [hemits] at haccount
        show s.executed ++ (s.m_commandBuffer ++ [cmd]) ++ _ = _
        rw [h.buffer, List.nil_append, List.append_assoc, haccount]

theorem parseStep_multiple {cmds : List Command} {s : Emu} {ps : List Piece} {cmd : Cmd}
    {units : List UInt8} (h : Between cmds s ps)
    (hread : readHead s.m_commandUnitBuffer = some (.multiple cmd units)) :
    ∃ data rest, Within cmds { s with
      m_commandUnitBuffer := units
      position := .multiple cmd } cmd data rest := by
  obtain ⟨p, rest, hps, hfront⟩ := between_front h hread
  subst hps
  cases hbody : p.body with
  | command cmd' =>
      rw [hbody] at hfront
      cases hfront
  | multiple cmd' data =>
      rw [hbody, Body.front, Front.append, Front.multiple.injEq, Body.units] at hfront
      obtain ⟨hcmd, hunits⟩ := hfront
      subst hcmd
      have hfollowed : p.body.Followed (Piece.format.stream rest) := h.ordered.1
      have hemits : Piece.format.emits p = (Body.multiple cmd' data).emits := by
        show p.body.emits = _
        rw [hbody]
      have haccount := h.account
      rw [Transport.Format.read_cons, hemits] at haccount
      rw [hbody] at hfollowed
      apply Exists.intro data
      apply Exists.intro rest
      constructor
      · exact h.ordered.2
      · exact hfollowed
      · exact hunits.symm
      · show s.executed ++ s.m_commandBuffer ++ _ = _
        rw [h.buffer, List.append_nil, haccount]

end Emu

end Yarr.Itkpixv2Emu
