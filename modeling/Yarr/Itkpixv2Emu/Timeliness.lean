import Yarr.Itkpixv2Emu.CommandTransport
import Yarr.Itkpixv2Emu.ExecuteLoop

/-!
# Timeliness of the loop

Whether every command is executed depends on how the writes of the driver and
the steps of the loop interleave. A run is good in all its states exactly if
the unit buffer is ready before each of its steps.
-/

namespace Yarr.Itkpixv2Emu

open Rd53.Itkpixv2Cmd CommandInterpreter

namespace Emu

variable {cmds : List Command} {s : Emu}

/-! ## Parsing -/

theorem parseStep_eq (s : Emu) :
    s.parseStep =
      match readHead s.m_commandUnitBuffer with
      | some (.command cmd units) =>
          finish { s with
            m_commandUnitBuffer := units
            m_commandBuffer := s.m_commandBuffer ++ [cmd] }
      | some (.multiple cmd units) =>
          { s with m_commandUnitBuffer := units, position := .multiple cmd }
      | none =>
          if s.m_commandUnitBuffer = [] then s.finish else { s with position := .failed } := by
  rw [parseStep]
  cases hunits : s.m_commandUnitBuffer with
  | nil => rfl
  | cons header units =>
      rw [readHead]
      dsimp only
      cases readFront header units with
      | none => rfl
      | some front =>
          cases front with
          | command cmd units => rfl
          | multiple cmd units => rfl

theorem headLength_of_multiple {units : List UInt8} (h : isMultiple units = true) :
    headLength units = 4 := by
  match units with
  | [] => cases h
  | [_] => cases h
  | [_, _] => cases h
  | header :: id :: first :: units =>
      by_cases hheader : header = Commands.WrReg
      · subst hheader
        rw [headLength_wrReg, h]
        rfl
      · rw [isMultiple_of_ne hheader] at h
        cases h

theorem parseStep_good {ps : List Piece} (hposition : s.position = .parse)
    (hbetween : Between cmds s ps) :
    Account cmds s.parseStep ∧ (s.parseStep.Good cmds ↔ s.Timely) := by
  have hblock : ∀ cmd, s.position ≠ .multiple cmd := by
    intro cmd h
    rw [hposition] at h
    cases h
  by_cases hempty : s.m_commandUnitBuffer = []
  · have hstep : s.parseStep = s.finish := by
      rw [parseStep, hempty]
    have hfinish : Between cmds s.finish ps := by
      constructor
      · exact hbetween.ordered
      · exact hbetween.units
      · rfl
      · rw [finish, hbetween.buffer, List.append_nil]
        exact hbetween.account
    rw [hstep, good_of_between hfinish rfl]
    constructor
    · exact ⟨ps, hfinish⟩
    · constructor
      · intro _
        constructor
        · intro _
          rw [hempty]
          exact Nat.le_refl 0
        · intro _ _ _ _
          rw [hempty]
          exact Quiet.nil
        · exact fun cmd _ _ _ h => absurd h (hblock cmd)
      · intro _ _ _
        show Quiet s.m_commandUnitBuffer
        rw [hempty]
        exact Quiet.nil
  have hspec := readHead_spec hempty
  generalize hread : readHead s.m_commandUnitBuffer = front at hspec
  have hstep := s.parseStep_eq
  rw [hread] at hstep
  cases hspec with
  | short hlength =>
      -- The head is cut off: a unit is taken from the empty buffer.
      rw [if_neg hempty] at hstep
      rw [hstep]
      constructor
      · trivial
      · constructor
        · intro hgood
          exact absurd rfl hgood.1
        · intro htimely
          have hle := htimely.complete hposition
          omega
  | command cmd hlength hsingle hheader =>
      obtain ⟨rest, hrest⟩ := parseStep_command hbetween hread
      rw [hstep, good_of_between hrest rfl]
      constructor
      · exact ⟨rest, hrest⟩
      · constructor
        · intro hquiet
          constructor
          · exact fun _ => hlength
          · exact fun _ htx hpending _ => hquiet htx hpending
          · exact fun cmd _ _ _ h => absurd h (hblock cmd)
        · intro htimely htx hpending
          exact htimely.last hposition htx hpending hsingle
  | multiple id high low units hunits hhigh =>
      have hmultiple : isMultiple s.m_commandUnitBuffer = true := by
        rw [hunits]
        simp [isMultiple, hhigh]
      obtain ⟨data, rest, hwithin⟩ := parseStep_multiple hbetween hread
      rw [hstep]
      constructor
      · exact ⟨data, rest, hwithin⟩
      · constructor
        · intro _
          constructor
          · intro _
            rw [headLength_of_multiple hmultiple, hunits]
            simp
          · intro _ _ _ hsingle
            rw [hmultiple] at hsingle
            cases hsingle
          · exact fun cmd _ _ _ h => absurd h (hblock cmd)
        · intro _
          exact good_of_busy (fun h => by cases h) (fun h => by cases h)

/-! ## Multiple writes -/

theorem multipleStep_short (cmd : Cmd) (hshort : s.m_commandUnitBuffer.length < 2) :
    s.multipleStep cmd =
      match s.tx with
      | [] => s
      | commandWord :: tx =>
          { s with
            tx := tx
            m_commandUnitBuffer := s.m_commandUnitBuffer ++ unitsOf commandWord } := by
  rw [multipleStep]
  cases hunits : s.m_commandUnitBuffer with
  | nil => rfl
  | cons first units =>
      cases units with
      | nil => rfl
      | cons second units =>
          rw [hunits, List.length_cons, List.length_cons] at hshort
          omega

theorem multipleStep_waits {cmd : Cmd} {data : List UInt16} {ps : List Piece}
    (hposition : s.position = .multiple cmd) (hwithin : Within cmds s cmd data ps)
    (hshort : s.m_commandUnitBuffer.length < 2) :
    Within cmds (s.multipleStep cmd) cmd data ps ∧
      (s.multipleStep cmd).position = .multiple cmd := by
  rw [multipleStep_short cmd hshort]
  cases htx : s.tx with
  | nil => exact ⟨hwithin, hposition⟩
  | cons commandWord tx =>
      apply And.intro _ hposition
      constructor
      · exact hwithin.ordered
      · exact hwithin.followed
      · rw [← hwithin.units, stream, stream, htx]
        simp only [List.cons_append, List.flatMap_cons, List.append_assoc]
      · exact hwithin.account

theorem multipleStep_good {cmd : Cmd} {data : List UInt16} {ps : List Piece}
    (hposition : s.position = .multiple cmd) (hwithin : Within cmds s cmd data ps) :
    Account cmds (s.multipleStep cmd) ∧ ((s.multipleStep cmd).Good cmds ↔ s.Timely) := by
  have hparse : s.position ≠ .parse := by
    rw [hposition]
    exact Position.noConfusion
  have hstream : s.m_commandUnitBuffer ++ (s.tx ++ s.pending).flatMap unitsOf =
      data.flatMap Body.element ++ Piece.format.stream ps := hwithin.units
  have hstays : ∀ data', Within cmds (s.multipleStep cmd) cmd data' ps →
      (s.multipleStep cmd).position = .multiple cmd → s.Timely →
        Account cmds (s.multipleStep cmd) ∧ ((s.multipleStep cmd).Good cmds ↔ s.Timely) := by
    intro data' hnext hsame htimely
    constructor
    · rw [Account, hsame]
      exact ⟨data', ps, hnext⟩
    · constructor
      · exact fun _ => htimely
      · intro _
        apply good_of_busy
        · rw [hsame]
          exact Position.noConfusion
        · rw [hsame]
          exact Position.noConfusion
  by_cases hshort : s.m_commandUnitBuffer.length < 2
  · obtain ⟨hnext, hsame⟩ := multipleStep_waits hposition hwithin hshort
    apply hstays data hnext hsame
    constructor
    · exact fun h => absurd h hparse
    · exact fun h => absurd h hparse
    · intro _ _ _ _ _ _ _ hunits _
      rw [hunits, List.length_cons, List.length_cons] at hshort
      omega
  obtain ⟨first, second, units, hunits⟩ :
      ∃ first second units, s.m_commandUnitBuffer = first :: second :: units := by
    rcases hunits : s.m_commandUnitBuffer with _ | ⟨first, _ | ⟨second, units⟩⟩
    · simp [hunits] at hshort
    · simp [hunits] at hshort
    · exact ⟨first, second, units, rfl⟩
  rw [hunits] at hstream
  by_cases hend : endsMultiple first = true
  · have hstep : s.multipleStep cmd = s.finish := by
      rw [multipleStep, hunits]
      exact if_pos hend
    cases data with
    | cons d data =>
        rw [List.flatMap_cons, Body.element, List.cons_append] at hstream
        injection hstream with hfirst _
        rw [hfirst, endsMultiple_symbol] at hend
        cases hend
    | nil =>
        have hfinish : Between cmds s.finish ps := by
          constructor
          · exact hwithin.ordered
          · exact hwithin.units
          · rfl
          · exact hwithin.account
        rw [hstep, good_of_between hfinish rfl]
        constructor
        · exact ⟨ps, hfinish⟩
        · constructor
          · intro hquiet
            constructor
            · exact fun h => absurd h hparse
            · exact fun h => absurd h hparse
            · exact fun _ _ _ _ _ htx hpending _ _ => hquiet htx hpending
          · intro htimely htx hpending
            exact htimely.block cmd first second units hposition htx hpending hunits hend
  · have htimely : s.Timely := by
      constructor
      · exact fun h => absurd h hparse
      · exact fun h => absurd h hparse
      · intro _ first' _ _ _ _ _ hunits' hend'
        rw [hunits] at hunits'
        injection hunits' with hfirst _
        rw [hfirst] at hend
        exact absurd hend' hend
    cases data with
    | nil =>
        obtain ⟨header, id, later, hlater, hheader⟩ := hwithin.followed
        rw [List.flatMap_nil, List.nil_append, hlater] at hstream
        injection hstream with hfirst _
        rw [hfirst] at hend
        exact absurd hheader hend
    | cons d data =>
        rw [List.flatMap_cons, Body.element, List.cons_append] at hstream
        injection hstream with hfirst htail
        injection htail with hsecond hlater
        have hstep : s.multipleStep cmd = { s with
            m_commandUnitBuffer := units
            m_commandBuffer := s.m_commandBuffer ++
              [{ cmd with data := (d &&& 0x3FF).toUInt32 }] } := by
          rw [multipleStep, hunits, ← element_data d, ← hfirst, ← hsecond]
          exact if_neg hend
        rw [hstep] at hstays ⊢
        apply hstays data _ hposition htimely
        constructor
        · exact hwithin.ordered
        · exact hwithin.followed
        · exact hlater
        · rw [← hwithin.account]
          show s.executed ++ (s.m_commandBuffer ++ [_]) ++ (_ ++ _) = _
          rw [Body.emits, Body.emits, List.map_cons]
          simp only [List.append_assoc, List.cons_append, List.nil_append]

/-! ## Runs -/

theorem executeStep_good (haccount : Account cmds s) (hgood : s.Good cmds) :
    Account cmds s.executeStep ∧ (s.executeStep.Good cmds ↔ s.Timely) := by
  rw [Account] at haccount
  cases hposition : s.position with
  | failed => exact absurd hposition hgood.1
  | multiple cmd =>
      have hstep : s.executeStep = s.multipleStep cmd := by rw [executeStep, hposition]
      rw [hposition] at haccount
      obtain ⟨data, ps, hwithin⟩ := haccount
      rw [hstep]
      exact multipleStep_good hposition hwithin
  | parse =>
      have hstep : s.executeStep = s.parseStep := by rw [executeStep, hposition]
      rw [hposition] at haccount
      obtain ⟨ps, hbetween⟩ := haccount
      rw [hstep]
      exact parseStep_good hposition hbetween
  | refill =>
      have hstep : s.executeStep = s.refillStep := by rw [executeStep, hposition]
      have htimely : s.Timely := by
        apply timely_of_position
        · rw [hposition]
          exact Position.noConfusion
        · rw [hposition]
          exact fun _ => Position.noConfusion
      rw [hposition] at haccount
      obtain ⟨ps, hbetween⟩ := haccount
      obtain ⟨hnext, hwhere⟩ := refillStep_between hposition hbetween
      rw [hstep]
      rcases hwhere with hwhere | hwhere
      · constructor
        · rw [Account, hwhere]
          exact ⟨ps, hnext⟩
        · constructor
          · exact fun _ => htimely
          · intro _
            apply good_of_busy
            · rw [hwhere]
              exact Position.noConfusion
            · rw [hwhere]
              exact Position.noConfusion
      · constructor
        · rw [Account, hwhere]
          exact ⟨ps, hnext⟩
        · constructor
          · exact fun _ => htimely
          · intro _
            apply good_of_busy
            · rw [hwhere]
              exact Position.noConfusion
            · rw [hwhere]
              exact Position.noConfusion
  | idle =>
      have htimely : s.Timely := by
        apply timely_of_position
        · rw [hposition]
          exact Position.noConfusion
        · rw [hposition]
          exact fun _ => Position.noConfusion
      have haccount' := haccount
      rw [hposition] at haccount
      obtain ⟨ps, hbetween⟩ := haccount
      by_cases htx : s.tx.isEmpty
      · have hstep : s.executeStep = s := by
          rw [executeStep, hposition]
          exact if_pos htx
        rw [hstep]
        exact ⟨haccount', fun _ => htimely, fun _ => hgood⟩
      · have hstep : s.executeStep = { s with position := .refill } := by
          rw [executeStep, hposition]
          exact if_neg htx
        rw [hstep]
        constructor
        · exact ⟨ps, hbetween.move .refill⟩
        · constructor
          · exact fun _ => htimely
          · exact fun _ => good_of_busy (fun h => by cases h) (fun h => by cases h)

theorem good_start (cmds : List Command) : (start cmds).Good cmds := by
  have hbetween := account_start cmds
  obtain ⟨ps, hps⟩ := hbetween
  rw [good_of_between hps rfl]
  exact fun _ _ => Quiet.nil

/--
In every run of the driver and the emulator no unit is taken from an empty
buffer and no command is left behind, exactly if the unit buffer is ready
before each step of the emulator.
-/
theorem runs_good_iff (cmds : List Command) (schedule : List Actor) :
    (∀ p, p <+: schedule → (p.foldl step (start cmds)).Good cmds) ↔
      ∀ p a, p ++ [a] <+: schedule → a = .emulator → (p.foldl step (start cmds)).Timely := by
  have hstep : ∀ s a, Account cmds s ∧ s.Good cmds →
      (Account cmds (step s a) ∧ (step s a).Good cmds ↔ (a = .emulator → s.Timely)) := by
    rintro s a ⟨haccount, hgood⟩
    cases a with
    | driver =>
        constructor
        · exact fun _ h => by cases h
        · exact fun _ => ⟨account_write haccount, good_write hgood⟩
    | emulator =>
        obtain ⟨hnext, hiff⟩ := executeStep_good haccount hgood
        constructor
        · exact fun h _ => hiff.mp h.2
        · exact fun h => ⟨hnext, hiff.mpr (h rfl)⟩
  have hruns := Invariant.throughout_iff hstep
    (⟨account_start cmds, good_start cmds⟩ : Account cmds (start cmds) ∧ (start cmds).Good cmds)
    schedule
  rw [← hruns]
  constructor
  · intro hgood p
    induction p using List.reverseRecOn with
    | nil => exact fun _ => ⟨account_start cmds, good_start cmds⟩
    | append_singleton p a ih =>
        intro hp
        have hbefore := ih (Invariant.prefix_of_concat hp)
        have hafter := hgood (p ++ [a]) hp
        rw [List.foldl_append] at hafter ⊢
        apply And.intro _ hafter
        cases a with
        | driver => exact account_write hbefore.1
        | emulator => exact (executeStep_good hbefore.1 hbefore.2).1
  · exact fun h p hp => (h p hp).2

/-- Both words of a clear are written before the emulator looks into the ring. -/
def clearSchedule : List Actor :=
  [.driver, .driver, .emulator, .emulator, .emulator, .emulator, .emulator]

/-- The padding before the clear is executed, and the clear stays in the unit buffer. -/
theorem clear_left_behind :
    ¬ ∀ p, p <+: clearSchedule → (p.foldl step (start [.clear 16])).Good [.clear 16] := by
  intro h
  have hdone : (clearSchedule.foldl step (start [.clear 16])).Done := ⟨rfl, rfl, rfl⟩
  have hexecuted := (h clearSchedule (List.prefix_refl _)).2 hdone
  exact absurd hexecuted (by decide +kernel)

end Emu

end Yarr.Itkpixv2Emu
