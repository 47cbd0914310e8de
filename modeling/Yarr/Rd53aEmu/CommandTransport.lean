import Yarr.Rd53aEmu.CommandPieces

/-!
# Transport of the commands

Between two turns the loop holds at most the low half of a word, and it waits
for a word behind it. Each turn takes the piece that stands first.
-/

namespace Yarr.Rd53aEmu

open Rd53 Rd53aGlobalCfg Rd53.Rd53aCmd

namespace Emu

/-! ## The halves to come -/

def highPending (ring : List UInt32) : List Half := (ring.flatMap halvesOf).dropLast

def lowPending (half : UInt16) (ring : List UInt32) : List Half :=
  (Half.low half :: ring.flatMap halvesOf).dropLast

/-- The last half stays with the loop. -/
def pending (s : Emu) : List Half :=
  match s.commandStream with
  | [] => highPending s.m_txRingBuffer
  | [half] => lowPending half s.m_txRingBuffer
  | _ => []

def view : Transport.View Emu Half Recognised := ⟨pending, recognised⟩

theorem highPending_cons (d : UInt32) (ring : List UInt32) :
    highPending (d :: ring) = .high (highHalf d) :: lowPending (lowHalf d) ring := rfl

theorem lowPending_cons (half : UInt16) (d : UInt32) (ring : List UInt32) :
    lowPending half (d :: ring) = .low half :: highPending (d :: ring) := rfl

theorem of_highPending {ring : List UInt32} {h : Half} {l : List Half}
    (hl : highPending ring = h :: l) :
    ∃ d ring', ring = d :: ring' ∧ .high (highHalf d) = h ∧ lowPending (lowHalf d) ring' = l := by
  cases ring with
  | nil => cases hl
  | cons d ring' =>
      rw [highPending_cons, List.cons.injEq] at hl
      exact ⟨d, ring', rfl, hl.1, hl.2⟩

theorem of_lowPending {half : UInt16} {ring : List UInt32} {h : Half} {l : List Half}
    (hl : lowPending half ring = h :: l) :
    ring ≠ [] ∧ .low half = h ∧ highPending ring = l := by
  cases ring with
  | nil => cases hl
  | cons d ring' =>
      rw [lowPending_cons, List.cons.injEq] at hl
      exact ⟨List.cons_ne_nil d ring', hl.1, hl.2⟩

theorem pending_high {s : Emu} {half : UInt16} {l : List Half}
    (h : s.pending = .high half :: l) :
    ∃ d ring, s.commandStream = [] ∧ s.m_txRingBuffer = d :: ring ∧ highHalf d = half ∧
      lowPending (lowHalf d) ring = l := by
  unfold pending at h
  split at h
  · rename_i hstream
    obtain ⟨d, ring, hring, hhalf, hl⟩ := of_highPending h
    exact ⟨d, ring, hstream, hring, Half.high.inj hhalf, hl⟩
  · have hhalf := (of_lowPending h).2.1
    cases hhalf
  · cases h

theorem pending_low {s : Emu} {half : UInt16} {l : List Half} (h : s.pending = .low half :: l) :
    s.commandStream = [half] ∧ s.m_txRingBuffer ≠ [] ∧ highPending s.m_txRingBuffer = l := by
  unfold pending at h
  split at h
  · obtain ⟨d, ring, -, hhalf, -⟩ := of_highPending h
    cases hhalf
  · rename_i first hstream
    obtain ⟨hring, hhalf, hl⟩ := of_lowPending h
    rw [Half.low.inj hhalf] at hstream
    exact ⟨hstream, hring, hl⟩
  · cases h

/-! ## One turn -/

variable {w : Surroundings} {s : Emu}

theorem retrieve_eq {d : UInt32} {ring : List UInt32} (hring : s.m_txRingBuffer = d :: ring) :
    s.retrieve = some { s with
      m_txRingBuffer := ring
      commandStream := s.commandStream ++ [highHalf d, lowHalf d] } := by
  rw [retrieve, hring]
  rfl

theorem executeLoop_high {d : UInt32} {ring : List UInt32} (hstream : s.commandStream = [])
    (hring : s.m_txRingBuffer = d :: ring) :
    s.executeLoop w =
      handle w { s with m_txRingBuffer := ring, commandStream := [lowHalf d] } (highHalf d) := by
  simp only [executeLoop, hring, hstream, retrieve]
  rfl

theorem executeLoop_low {half : UInt16} (hstream : s.commandStream = [half])
    (hring : s.m_txRingBuffer ≠ []) :
    s.executeLoop w = handle w { s with commandStream := [] } half := by
  have hempty : s.m_txRingBuffer.isEmpty = false := List.isEmpty_eq_false_iff.mpr hring
  rw [executeLoop, hempty, hstream]
  simp [hstream]

/-- What a turn leaves: the stream, the ring buffer and what was recognised. -/
structure Left (s s' : Emu) (stream : List UInt16) (ring : List UInt32) (r : Recognised) : Prop where
  stream : s'.commandStream = stream
  ring : s'.m_txRingBuffer = ring
  recognised : s'.recognised = s.recognised ++ [r]

theorem doCommand_left {header : Header} (h : fieldSize header = 0) :
    ∃ s', s.doCommand w header = some s' ∧
      Left s s' s.commandStream s.m_txRingBuffer (.command header) := by
  cases header with
  | globalPulse => cases h
  | cal => cases h
  | wrReg => cases h
  | rdReg => cases h
  | _ => exact ⟨_, rfl, rfl, rfl, rfl⟩

theorem handle_header (header : Header) :
    s.handle w (Piece.headerHalf header) = s.doCommand w header := by
  rw [handle, Piece.lookup_headerHalf]

theorem crossing_left (pattern tag : UInt8) (s : Emu) (iBC : Nat) :
    (s.crossing w pattern tag iBC).commandStream = s.commandStream ∧
      (s.crossing w pattern tag iBC).m_txRingBuffer = s.m_txRingBuffer ∧
      (s.crossing w pattern tag iBC).recognised = s.recognised := by
  unfold crossing
  split
  · exact ⟨rfl, rfl, rfl⟩
  · exact ⟨rfl, rfl, rfl⟩

theorem doTrigger_left (pattern tag : UInt8) :
    Left s (s.doTrigger w pattern tag) s.commandStream s.m_txRingBuffer
      (.trigger pattern tag) := by
  have hfold : ∀ (bcs : List Nat) (t : Emu),
      (bcs.foldl (crossing w pattern tag) t).commandStream = t.commandStream ∧
        (bcs.foldl (crossing w pattern tag) t).m_txRingBuffer = t.m_txRingBuffer ∧
        (bcs.foldl (crossing w pattern tag) t).recognised = t.recognised := by
    intro bcs
    induction bcs with
    | nil => exact fun t => ⟨rfl, rfl, rfl⟩
    | cons iBC bcs ih =>
        intro t
        rw [List.foldl_cons]
        rcases ih (t.crossing w pattern tag iBC) with ⟨hstream, hring, hrecognised⟩
        rcases crossing_left (w := w) pattern tag t iBC with ⟨hstream', hring', hrecognised'⟩
        exact ⟨hstream.trans hstream', hring.trans hring', hrecognised.trans hrecognised'⟩
  rcases hfold (List.range 4) (s.log (.trigger pattern tag)) with ⟨hstream, hring, hrecognised⟩
  exact ⟨hstream, hring, hrecognised⟩

theorem handle_trigger {bc : Fin 16} (hbc : 0 < bc) (tag : Fin 32) :
    s.handle w (Piece.triggerHalf bc tag) =
      some (s.doTrigger w (UInt8.ofNat bc) (symbol (arg tag))) := by
  rw [handle, Piece.triggerHalf, lookup_trigger bc hbc, high_pair, low_pair]
  dsimp only
  rw [triggerPatterns_triggerSymbol bc hbc]

theorem readIDAddrData_two {command : Header} {d : UInt32} {ring : List UInt32}
    {output : UInt32 × UInt32 × UInt32} (hsize : fieldSize command = 2)
    (hstream : s.commandStream = []) (hring : s.m_txRingBuffer = d :: ring)
    (houtput : fields command [highHalf d, lowHalf d] = some output) :
    s.readIDAddrData command = some (output, { s with m_txRingBuffer := ring }) := by
  have hretrieve : retrieveUntil 2 3 s =
      some { s with m_txRingBuffer := ring, commandStream := [highHalf d, lowHalf d] } := by
    simp [retrieveUntil, retrieve_eq hring, hstream]
  rw [readIDAddrData, hsize, hretrieve]
  simp only [Option.bind_eq_bind, Option.bind_some, houtput]
  rw [← hstream]
  rfl

theorem readIDAddrData_three {command : Header} {d e : UInt32} {ring : List UInt32}
    {output : UInt32 × UInt32 × UInt32} (hsize : fieldSize command = 3)
    (hstream : s.commandStream = []) (hring : s.m_txRingBuffer = d :: e :: ring)
    (houtput : fields command [highHalf d, lowHalf d, highHalf e, lowHalf e] = some output) :
    s.readIDAddrData command =
      some (output, { s with m_txRingBuffer := ring, commandStream := [lowHalf e] }) := by
  have hretrieve : retrieveUntil 3 3 s =
      some { s with
        m_txRingBuffer := ring
        commandStream := [highHalf d, lowHalf d, highHalf e, lowHalf e] } := by
    simp only [retrieveUntil, hstream, retrieve_eq hring, List.length_nil, Option.bind_some]
    rw [if_pos (by omega), if_pos (by simp), retrieve_eq rfl]
    simp
  rw [readIDAddrData, hsize, hretrieve]
  simp only [Option.bind_eq_bind, Option.bind_some, houtput]
  rfl

theorem handle_wrReg (chipId : Fin 16) (address : Fin 512) (value : UInt16) {d e : UInt32}
    {ring : List UInt32} (hstream : s.commandStream = []) (hring : s.m_txRingBuffer = d :: e :: ring)
    (hhalves : [highHalf d, lowHalf d, highHalf e] =
      wrHalves (arg chipId) (arg address) value.toUInt32) :
    ∃ s', s.handle w (Piece.headerHalf .wrReg) = some s' ∧
      Left s s' [lowHalf e] ring (.read .wrReg (arg chipId) (arg address) value.toUInt32) := by
  have houtput := fields_wrHalves chipId address [lowHalf e] value
  rw [← hhalves] at houtput
  have hread := readIDAddrData_three (show fieldSize .wrReg = 3 from rfl) hstream hring houtput
  rw [handle_header, doCommand, doWrReg, hread]
  exact ⟨_, rfl, rfl, rfl, rfl⟩

theorem handle_rdReg (chipId : Fin 16) {address : Fin 512} (haddress : address.val < numRegs)
    {d : UInt32} {ring : List UInt32} (hstream : s.commandStream = [])
    (hring : s.m_txRingBuffer = d :: ring)
    (hhalves : [highHalf d, lowHalf d] = rdHalves (arg chipId) (arg address)) :
    ∃ s', s.handle w (Piece.headerHalf .rdReg) = some s' ∧
      Left s s' [] ring (.read .rdReg (arg chipId) (arg address) 0) := by
  have houtput := fields_rdHalves chipId address []
  rw [← hhalves] at houtput
  have hread := readIDAddrData_two (show fieldSize .rdReg = 2 from rfl) hstream hring houtput
  have hlt : (arg address).toNat < numRegs := by
    rw [toNat_arg address (by omega)]
    exact haddress
  rw [handle_header, doCommand, doRdReg, hread]
  simp only [Option.bind_eq_bind, Option.bind_some]
  rw [dif_pos hlt]
  exact ⟨_, rfl, hstream, rfl, rfl⟩

theorem handle_cal (chipId : Fin 16) (mode : Fin 2) (delay : Fin 8) (duration : Fin 64)
    (aux_mode : Fin 2) (aux_delay : Fin 32) {d : UInt32} {ring : List UInt32}
    (hstream : s.commandStream = []) (hring : s.m_txRingBuffer = d :: ring)
    (hhalves : [highHalf d, lowHalf d] = calHalves (arg chipId)
      ⟨arg mode, arg delay, arg duration, arg aux_mode, arg aux_delay⟩) :
    ∃ s', s.handle w (Piece.headerHalf .cal) = some s' ∧
      Left s s' [] ring (.read .cal (arg chipId) 0
        (calData ⟨arg mode, arg delay, arg duration, arg aux_mode, arg aux_delay⟩)) := by
  have houtput := fields_calHalves chipId [] mode delay duration aux_mode aux_delay
  dsimp only at houtput
  rw [← hhalves] at houtput
  have hread := readIDAddrData_two (show fieldSize .cal = 2 from rfl) hstream hring houtput
  rw [handle_header, doCommand, doCal, hread]
  exact ⟨_, rfl, hstream, rfl, rfl⟩

theorem handle_globalPulse {half : UInt16} (hstream : s.commandStream = [half]) :
    ∃ s', s.handle w (Piece.headerHalf .globalPulse) = some s' ∧
      Left s s' [] s.m_txRingBuffer (.command .globalPulse) := by
  rw [handle_header, doCommand, doGlobalPulse, hstream]
  exact ⟨_, rfl, rfl, rfl, rfl⟩

/-! ## The piece that stands first -/

theorem pending_nil {s' : Emu} {t : Emu} {ring : List UInt32} {r : Recognised}
    (h : Left t s' [] ring r) : s'.pending = highPending ring := by
  rw [pending, h.stream, h.ring]

theorem pending_one {s' : Emu} {t : Emu} {half : UInt16} {ring : List UInt32} {r : Recognised}
    (h : Left t s' [half] ring r) : s'.pending = lowPending half ring := by
  rw [pending, h.stream, h.ring]

theorem takes_high {half : UInt16} {rest : List Half} {r : Recognised}
    (h : s.pending = .high half :: rest)
    (hturn : ∀ t : Emu, t.commandStream.length = 1 →
      ∃ s', t.handle w half = some s' ∧ Left t s' t.commandStream t.m_txRingBuffer r) :
    ∃ s', s.executeLoop w = some s' ∧ s'.pending = rest ∧ s'.recognised = s.recognised ++ [r] := by
  obtain ⟨d, ring, hstream, hring, hhalf, hrest⟩ := pending_high h
  rw [executeLoop_high hstream hring, hhalf]
  obtain ⟨s', hs', hleft⟩ :=
    hturn { s with m_txRingBuffer := ring, commandStream := [lowHalf d] } rfl
  exact ⟨s', hs', (pending_one hleft).trans hrest, hleft.recognised⟩

theorem takes_low {half : UInt16} {rest : List Half} {r : Recognised}
    (h : s.pending = .low half :: rest)
    (hturn : ∀ t : Emu, t.commandStream = [] →
      ∃ s', t.handle w half = some s' ∧ Left t s' t.commandStream t.m_txRingBuffer r) :
    ∃ s', s.executeLoop w = some s' ∧ s'.pending = rest ∧ s'.recognised = s.recognised ++ [r] := by
  obtain ⟨hstream, hring, hrest⟩ := pending_low h
  rw [executeLoop_low hstream hring]
  obtain ⟨s', hs', hleft⟩ := hturn { s with commandStream := [] } rfl
  exact ⟨s', hs', (pending_nil hleft).trans hrest, hleft.recognised⟩

theorem pending_behind {half a b : UInt16} {rest : List Half}
    (h : s.pending = .low half :: .high a :: .low b :: rest) :
    ∃ d ring, s.commandStream = [half] ∧ s.m_txRingBuffer = d :: ring ∧ highHalf d = a ∧
      lowHalf d = b ∧ ring ≠ [] ∧ highPending ring = rest := by
  obtain ⟨hstream, -, hrest⟩ := pending_low h
  obtain ⟨d, ring, hring, hhigh, hlow⟩ := of_highPending hrest
  obtain ⟨hne, hhalf, hrest'⟩ := of_lowPending hlow
  exact ⟨d, ring, hstream, hring, Half.high.inj hhigh, Half.low.inj hhalf, hne, hrest'⟩

theorem takesFirst (w : Surroundings) :
    Transport.TakesFirst Piece.format view (executeLoop w) := by
  intro s i rest hpending hhandled
  cases i with
  | high header =>
      apply takes_high hpending
      intro t _
      rw [handle_header]
      exact doCommand_left hhandled
  | low header =>
      apply takes_low hpending
      intro t _
      rw [handle_header]
      exact doCommand_left hhandled
  | highTrigger bc tag =>
      apply takes_high hpending
      intro t _
      exact ⟨_, handle_trigger hhandled tag, doTrigger_left _ _⟩
  | lowTrigger bc tag =>
      apply takes_low hpending
      intro t _
      exact ⟨_, handle_trigger hhandled tag, doTrigger_left _ _⟩
  | globalPulse half =>
      obtain ⟨d, ring, hstream, hring, hhalf, hrest⟩ := pending_high hpending
      obtain ⟨hne, hlow, hrest'⟩ := of_lowPending hrest
      show ∃ s', s.executeLoop w = some s' ∧ _
      rw [executeLoop_high hstream hring, hhalf]
      obtain ⟨s', hs', hleft⟩ := handle_globalPulse (w := w)
        (s := { s with m_txRingBuffer := ring, commandStream := [lowHalf d] }) rfl
      exact ⟨s', hs', (pending_nil hleft).trans hrest', hleft.recognised⟩
  | cal chipId mode delay duration aux_mode aux_delay =>
      obtain ⟨d, ring, hstream, hring, hhigh, hlow, -, hrest⟩ := pending_behind hpending
      show ∃ s', s.executeLoop w = some s' ∧ _
      rw [executeLoop_low hstream (by rw [hring]; exact List.cons_ne_nil d ring)]
      obtain ⟨s', hs', hleft⟩ := handle_cal (w := w) (s := { s with commandStream := [] })
        chipId mode delay duration aux_mode aux_delay rfl hring (by rw [hhigh, hlow]; rfl)
      exact ⟨s', hs', (pending_nil hleft).trans hrest, hleft.recognised⟩
  | rdReg chipId address =>
      obtain ⟨d, ring, hstream, hring, hhigh, hlow, -, hrest⟩ := pending_behind hpending
      show ∃ s', s.executeLoop w = some s' ∧ _
      rw [executeLoop_low hstream (by rw [hring]; exact List.cons_ne_nil d ring)]
      obtain ⟨s', hs', hleft⟩ := handle_rdReg (w := w) (s := { s with commandStream := [] })
        chipId hhandled rfl hring (by rw [hhigh, hlow]; rfl)
      exact ⟨s', hs', (pending_nil hleft).trans hrest, hleft.recognised⟩
  | wrReg chipId address value =>
      obtain ⟨d, ring, hstream, hring, hhigh, hlow, -, hrest⟩ := pending_behind hpending
      obtain ⟨e, ring', hring', hhigh', hrest'⟩ := of_highPending hrest
      show ∃ s', s.executeLoop w = some s' ∧ _
      rw [executeLoop_low hstream (by rw [hring]; exact List.cons_ne_nil d ring)]
      rw [hring'] at hring
      obtain ⟨s', hs', hleft⟩ := handle_wrReg (w := w) (s := { s with commandStream := [] })
        chipId address value rfl hring (by rw [hhigh, hlow, Half.high.inj hhigh']; rfl)
      exact ⟨s', hs', (pending_one hleft).trans hrest', hleft.recognised⟩

/-! ## The halves that are held -/

theorem retrieveUntil_held {fieldSize n : Nat} (h : s.commandStream.length ≤ fieldSize + 1)
    (hs' : retrieveUntil fieldSize n s = some s') : s'.commandStream.length ≤ fieldSize + 1 := by
  induction n generalizing s with
  | zero =>
      cases hs'
      exact h
  | succ n ih =>
      rw [retrieveUntil] at hs'
      split at hs'
      · rename_i hlt
        obtain ⟨t, ht, hrest⟩ := Option.bind_eq_some_iff.mp hs'
        apply ih _ hrest
        unfold retrieve at ht
        split at ht
        · cases ht
        · cases ht
          simp
          omega
      · cases hs'
        exact h

theorem readIDAddrData_held {command : Header} {output : UInt32 × UInt32 × UInt32}
    (hheld : s.commandStream.length ≤ 1) (h : s.readIDAddrData command = some (output, s')) :
    s'.commandStream.length ≤ 1 := by
  obtain ⟨t, ht, hrest⟩ := Option.bind_eq_some_iff.mp h
  obtain ⟨output', -, hs'⟩ := Option.bind_eq_some_iff.mp hrest
  cases hs'
  have hlength := retrieveUntil_held (by omega) ht
  rw [List.length_drop]
  omega

theorem doCommand_held {header : Header} (h : s.commandStream.length ≤ 1)
    (hs' : s.doCommand w header = some s') : s'.commandStream.length ≤ 1 := by
  cases header with
  | wrReg =>
      obtain ⟨⟨input, t⟩, ht, hrest⟩ := Option.bind_eq_some_iff.mp hs'
      have hheld := readIDAddrData_held h ht
      cases hrest
      exact hheld
  | rdReg =>
      obtain ⟨⟨input, t⟩, ht, hrest⟩ := Option.bind_eq_some_iff.mp hs'
      have hheld := readIDAddrData_held h ht
      dsimp only at hrest
      split at hrest
      · cases hrest
        exact hheld
      · cases hrest
  | cal =>
      obtain ⟨⟨input, t⟩, ht, hrest⟩ := Option.bind_eq_some_iff.mp hs'
      have hheld := readIDAddrData_held h ht
      cases hrest
      exact hheld
  | globalPulse =>
      simp only [doCommand, doGlobalPulse] at hs'
      split at hs'
      · cases hs'
      · rename_i hstream
        cases hs'
        rw [hstream, List.length_cons] at h
        dsimp only
        omega
  | _ =>
      cases hs'
      exact h

theorem executeLoop_held (h : s.commandStream.length ≤ 1) (hs' : s.executeLoop w = some s') :
    s'.commandStream.length ≤ 1 := by
  unfold executeLoop at hs'
  split at hs'
  · cases hs'
    exact h
  · obtain ⟨t, ht, hrest⟩ := Option.bind_eq_some_iff.mp hs'
    have hfilled : t.commandStream.length ≤ 2 := by
      split at ht
      · rename_i hempty
        unfold retrieve at ht
        split at ht
        · cases ht
        · cases ht
          simp [List.isEmpty_iff.mp hempty]
      · cases ht
        omega
    split at hrest
    · cases hrest
    · rename_i front rest hstream
      rw [hstream, List.length_cons] at hfilled
      have hpopped : rest.length ≤ 1 := by omega
      unfold handle at hrest
      split at hrest
      · exact doCommand_held hpopped hrest
      · split at hrest
        · cases hrest
          rw [(doTrigger_left _ _).stream]
          exact hpopped
        · cases hrest

end Emu

/-! ## Whole lists of commands -/

/-- All the pieces of a list of commands and of the idle words behind them. -/
def allPieces (cmds : List Command) (k : Nat) : List Piece :=
  cmds.flatMap Command.pieces ++
    ((List.replicate k [Piece.high .noop, Piece.low .noop]).flatten ++ [Piece.high .noop])

def expected (cmds : List Command) (k : Nat) : List Recognised :=
  cmds.flatMap Command.received ++ List.replicate (2 * k + 1) (.command .noop)

namespace Emu

/-- An emulator that finds the words in its ring buffer. -/
def start (tx : List UInt32) (calTiming injectTiming l1id bcid : UInt32) : Emu where
  m_txRingBuffer := tx
  commandStream := []
  calTiming := calTiming
  injectTiming := injectTiming
  l1id := l1id
  bcid := bcid
  enqueued := []
  regFrames := []
  events := []
  recognised := []

end Emu

section
variable (cmds : List Command) (k : Nat)

theorem pending_words :
    Emu.highPending (cmds.flatMap Command.words ++ List.replicate (k + 1) 0x69696969) =
      Piece.format.stream (allPieces cmds k) := by
  have hidle : (List.replicate k (0x69696969 : UInt32)).flatMap halvesOf =
      Piece.format.stream (List.replicate k [Piece.high .noop, Piece.low .noop]).flatten := by
    induction k with
    | zero => rfl
    | succ k ih =>
        rw [List.replicate_succ, List.replicate_succ, List.flatten_cons, List.flatMap_cons, ih,
          Transport.Format.stream_append]
        rfl
  have hlast : halvesOf 0x69696969 = [.high 0x6969] ++ [.low 0x6969] := by decide
  rw [Emu.highPending, List.replicate_succ', List.flatMap_append, List.flatMap_append, hidle,
    List.flatMap_singleton, hlast, ← List.append_assoc, ← List.append_assoc,
    List.dropLast_concat, allPieces, Transport.Format.stream_append,
    Transport.Format.stream_append, Command.stream_flatMap_pieces, List.append_assoc]
  rfl

theorem read_allPieces : Piece.format.read (allPieces cmds k) = expected cmds k := by
  have hidle : Piece.format.read (List.replicate k [Piece.high .noop, Piece.low .noop]).flatten =
      List.replicate (2 * k) (.command .noop) := by
    induction k with
    | zero => rfl
    | succ k ih =>
        rw [List.replicate_succ, List.flatten_cons, Transport.Format.read_append, ih, Nat.mul_succ,
          Nat.add_comm, List.replicate_add]
        rfl
  rw [allPieces, Transport.Format.read_append, Transport.Format.read_append,
    Command.read_flatMap_pieces, hidle, expected, List.replicate_succ']
  rfl

theorem ordered_allPieces (h : ∀ c ∈ cmds, c.ReadsRegister) :
    Piece.format.Ordered (allPieces cmds k) := by
  apply Transport.Format.ordered_of_sealed
  apply Transport.Format.sealed_append
  · induction cmds with
    | nil => exact fun _ hlater => hlater
    | cons c cmds ih =>
        rw [List.flatMap_cons]
        apply Transport.Format.sealed_append
        · exact Command.sealed_pieces (h c List.mem_cons_self)
        · exact ih fun d hd => h d (List.mem_cons_of_mem c hd)
  · apply Transport.Format.sealed_of_closed
    intro p hp _
    have hnoop : p = .high .noop ∨ p = .low .noop := by
      rcases List.mem_append.mp hp with hmem | hmem
      · obtain ⟨l, hl, hpl⟩ := List.mem_flatten.mp hmem
        rw [List.eq_of_mem_replicate hl] at hpl
        simpa using hpl
      · exact Or.inl (List.mem_singleton.mp hmem)
    rcases hnoop with hhigh | hlow
    · rw [hhigh]
      rfl
    · rw [hlow]
      rfl

end

namespace Emu

variable {w : Surroundings} {cmds : List Command} {k : Nat}

theorem executeLoop_nil {s : Emu} (hheld : s.commandStream.length ≤ 1) (h : s.pending = []) :
    s.executeLoop w = some s := by
  have hring : s.m_txRingBuffer = [] := by
    cases hring : s.m_txRingBuffer with
    | nil => rfl
    | cons d ring =>
        unfold pending at h
        split at h
        · rw [hring] at h
          cases h
        · rw [hring] at h
          cases h
        · rename_i hnil hone
          cases hstream : s.commandStream with
          | nil => exact absurd hstream hnil
          | cons half halves =>
              rw [hstream, List.length_cons] at hheld
              have hhalves : halves = [] := List.length_eq_zero_iff.mp (by omega)
              rw [hhalves] at hstream
              exact absurd hstream (hone half)
  rw [executeLoop, hring]
  rfl

/-- Without reads beyond the registers, every command is recognised. -/
theorem commands_recognised (w : Surroundings) (k : Nat) (h : ∀ c ∈ cmds, c.ReadsRegister)
    (calTiming injectTiming l1id bcid : UInt32) :
    let s := start (cmds.flatMap Command.words ++ List.replicate (k + 1) 0x69696969) calTiming
      injectTiming l1id bcid
    (∀ n, ∃ s', Transport.calls (executeLoop w) n s = some s' ∧
        s'.recognised <+: expected cmds k) ∧
      ∃ n, ∀ m, n ≤ m → ∃ s', Transport.calls (executeLoop w) m s = some s' ∧
        s'.recognised = expected cmds k := by
  intro s
  have hpending : view.pending s = Piece.format.stream (allPieces cmds k) := pending_words cmds k
  have hordered := ordered_allPieces cmds k h
  have htake : ∀ n, n ≤ (allPieces cmds k).length → _ := fun n hn =>
    Transport.calls_take (takesFirst w) hordered hpending hn
  have hall : ∀ m, (allPieces cmds k).length ≤ m →
      ∃ s', Transport.calls (executeLoop w) m s = some s' ∧ s'.recognised = expected cmds k := by
    intro m hm
    obtain ⟨s', hcalls, hrest, hout⟩ := htake _ (Nat.le_refl _)
    rw [List.drop_length, Transport.Format.stream_nil] at hrest
    rw [List.take_length, read_allPieces] at hout
    have hstart : s.commandStream.length ≤ 1 := Nat.zero_le 1
    have hheld : s'.commandStream.length ≤ 1 :=
      Transport.calls_kept (I := fun s => s.commandStream.length ≤ 1)
        (fun _ _ => executeLoop_held) hstart hcalls
    have hsplit : m = (allPieces cmds k).length + (m - (allPieces cmds k).length) := by omega
    apply Exists.intro s'
    rw [hsplit, Transport.calls_add, hcalls, Option.bind_some,
      Transport.calls_idle (executeLoop_nil hheld hrest)]
    exact ⟨rfl, hout⟩
  constructor
  · intro n
    by_cases hn : n ≤ (allPieces cmds k).length
    · obtain ⟨s', hcalls, -, hout⟩ := htake n hn
      apply Exists.intro s'
      apply And.intro hcalls
      have hs' : s'.recognised = Piece.format.read ((allPieces cmds k).take n) := hout
      rw [hs', ← read_allPieces]
      apply Transport.Format.read_prefix
      exact List.take_prefix n _
    · obtain ⟨s', hcalls, hrecognised⟩ := hall n (by omega)
      exact ⟨s', hcalls, hrecognised ▸ List.prefix_refl _⟩
  · exact ⟨_, hall⟩

end Emu

end Yarr.Rd53aEmu
