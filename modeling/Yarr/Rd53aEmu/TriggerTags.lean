import Yarr.Rd53aEmu.CommandTransport

/-!
# Tags of the triggers

The emulator recognises every command, but it answers a trigger with the low
bits of the symbol of the tag. No symbol has its own value in these bits.
-/

namespace Yarr.Rd53aEmu

open Rd53 Rd53aGlobalCfg Rd53.Rd53aCmd

/-- The tag in the header of an event. -/
def Event.tag (event : Event) : UInt32 := (event.header >>> 15) &&& 0x1f

/-- The bunch crossings of a pattern. -/
def crossings (pattern : UInt8) : List Nat :=
  (List.range 4).filter fun iBC => (pattern >>> UInt8.ofNat (3 - iBC)) &&& 0x1 ≠ 0

/-- The tags that a recognised trigger is answered with. -/
def Recognised.tags : Recognised → List UInt32
  | trigger pattern tag => (crossings pattern).map fun _ => tag.toUInt32 &&& 0x1f
  | _ => []

/-- Only registers of the chip are read. -/
def Recognised.Answerable : Recognised → Prop
  | read .rdReg _ address _ => address.toNat < numRegs
  | _ => True

namespace Emu

/-- The events answer the triggers, and every read was answered. -/
structure Answered (s : Emu) : Prop where
  tags : s.events.map Event.tag = s.recognised.flatMap Recognised.tags
  reads : ∀ r ∈ s.recognised, r.Answerable

variable {w : Surroundings} {s s' : Emu}

theorem tag_outputLoop (s : Emu) (tag : UInt8) :
    (s.outputLoop w tag).tag = tag.toUInt32 &&& 0x1f := by
  apply UInt32.toBitVec_inj.mp
  apply BitVec.eq_of_getLsbD_eq
  intro i hi
  simp only [Event.tag, outputLoop]
  interval_cases i <;> simp

theorem Answered.add {r : Recognised} (h : s.Answered) (hevents : s'.events = s.events)
    (hrecognised : s'.recognised = s.recognised ++ [r]) (htags : r.tags = [])
    (hread : r.Answerable) : s'.Answered := by
  constructor
  · rw [hevents, hrecognised, List.flatMap_append, h.tags, List.flatMap_cons, htags]
    simp
  · rw [hrecognised]
    intro q hq
    rcases List.mem_append.mp hq with hold | hnew
    · exact h.reads q hold
    · rw [List.mem_singleton.mp hnew]
      exact hread

theorem crossing_events (pattern tag : UInt8) (s : Emu) (iBC : Nat) :
    (s.crossing w pattern tag iBC).events.map Event.tag =
      s.events.map Event.tag ++
        if (pattern >>> UInt8.ofNat (3 - iBC)) &&& 0x1 ≠ 0 then [tag.toUInt32 &&& 0x1f] else [] := by
  unfold crossing
  split
  · rw [List.map_append, List.map_singleton, tag_outputLoop]
  · rw [List.append_nil]

theorem doTrigger_events (pattern tag : UInt8) :
    (s.doTrigger w pattern tag).events.map Event.tag =
      s.events.map Event.tag ++ (Recognised.trigger pattern tag).tags := by
  have hfold : ∀ (bcs : List Nat) (t : Emu),
      (bcs.foldl (crossing w pattern tag) t).events.map Event.tag =
        t.events.map Event.tag ++
          (bcs.filter fun iBC => (pattern >>> UInt8.ofNat (3 - iBC)) &&& 0x1 ≠ 0).map
            fun _ => tag.toUInt32 &&& 0x1f := by
    intro bcs
    induction bcs with
    | nil => exact fun t => (List.append_nil _).symm
    | cons iBC bcs ih =>
        intro t
        rw [List.foldl_cons, ih, crossing_events, List.filter_cons]
        by_cases hbit : (pattern >>> UInt8.ofNat (3 - iBC)) &&& 0x1 ≠ 0
        · simp [hbit]
        · simp [hbit]
  exact hfold (List.range 4) (s.log (.trigger pattern tag))

theorem doTrigger_answered (pattern tag : UInt8) (h : s.Answered) :
    (s.doTrigger w pattern tag).Answered := by
  have hrecognised := (doTrigger_left (w := w) (s := s) pattern tag).recognised
  constructor
  · rw [doTrigger_events, hrecognised, List.flatMap_append, h.tags]
    simp
  · rw [hrecognised]
    intro q hq
    rcases List.mem_append.mp hq with hold | hnew
    · exact h.reads q hold
    · rw [List.mem_singleton.mp hnew]
      trivial

theorem retrieve_kept (h : s.retrieve = some s') :
    s'.events = s.events ∧ s'.recognised = s.recognised := by
  unfold retrieve at h
  split at h
  · cases h
  · cases h
    exact ⟨rfl, rfl⟩

theorem retrieveUntil_kept {fieldSize n : Nat} (h : retrieveUntil fieldSize n s = some s') :
    s'.events = s.events ∧ s'.recognised = s.recognised := by
  induction n generalizing s with
  | zero =>
      cases h
      exact ⟨rfl, rfl⟩
  | succ n ih =>
      rw [retrieveUntil] at h
      split at h
      · obtain ⟨t, ht, hs'⟩ := Option.bind_eq_some_iff.mp h
        rcases ih hs' with ⟨hevents, hrecognised⟩
        rcases retrieve_kept ht with ⟨hevents', hrecognised'⟩
        exact ⟨hevents.trans hevents', hrecognised.trans hrecognised'⟩
      · cases h
        exact ⟨rfl, rfl⟩

theorem readIDAddrData_kept {command : Header} {output : UInt32 × UInt32 × UInt32}
    (h : s.readIDAddrData command = some (output, s')) :
    s'.events = s.events ∧ s'.recognised = s.recognised := by
  obtain ⟨t, ht, hrest⟩ := Option.bind_eq_some_iff.mp h
  obtain ⟨output', -, hs'⟩ := Option.bind_eq_some_iff.mp hrest
  cases hs'
  rcases retrieveUntil_kept ht with ⟨hevents, hrecognised⟩
  exact ⟨hevents, hrecognised⟩

theorem doCommand_answered {header : Header} (h : s.Answered)
    (hs' : s.doCommand w header = some s') : s'.Answered := by
  cases header with
  | wrReg =>
      obtain ⟨⟨input, t⟩, ht, hrest⟩ := Option.bind_eq_some_iff.mp hs'
      rcases readIDAddrData_kept ht with ⟨hevents, hrecognised⟩
      cases hrest
      have hadd : t.recognised ++ [.read .wrReg input.1 input.2.1 input.2.2] =
          s.recognised ++ [.read .wrReg input.1 input.2.1 input.2.2] := by rw [hrecognised]
      exact h.add hevents hadd rfl trivial
  | rdReg =>
      obtain ⟨⟨input, t⟩, ht, hrest⟩ := Option.bind_eq_some_iff.mp hs'
      rcases readIDAddrData_kept ht with ⟨hevents, hrecognised⟩
      dsimp only at hrest
      split at hrest
      · rename_i haddress
        cases hrest
        have hadd : t.recognised ++ [.read .rdReg input.1 input.2.1 input.2.2] =
            s.recognised ++ [.read .rdReg input.1 input.2.1 input.2.2] := by rw [hrecognised]
        exact h.add hevents hadd rfl haddress
      · cases hrest
  | cal =>
      obtain ⟨⟨input, t⟩, ht, hrest⟩ := Option.bind_eq_some_iff.mp hs'
      rcases readIDAddrData_kept ht with ⟨hevents, hrecognised⟩
      cases hrest
      have hadd : t.recognised ++ [.read .cal input.1 input.2.1 input.2.2] =
          s.recognised ++ [.read .cal input.1 input.2.1 input.2.2] := by rw [hrecognised]
      exact h.add hevents hadd rfl trivial
  | globalPulse =>
      simp only [doCommand, doGlobalPulse] at hs'
      split at hs'
      · cases hs'
      · cases hs'
        exact h.add rfl rfl rfl trivial
  | _ =>
      cases hs'
      exact h.add rfl rfl rfl trivial

theorem handle_answered {front : UInt16} (h : s.Answered) (hs' : s.handle w front = some s') :
    s'.Answered := by
  unfold handle at hs'
  split at hs'
  · exact doCommand_answered h hs'
  · split at hs'
    · cases hs'
      exact doTrigger_answered _ _ h
    · cases hs'

theorem Answered.congr (h : s.Answered) (hevents : s'.events = s.events)
    (hrecognised : s'.recognised = s.recognised) : s'.Answered := by
  constructor
  · rw [hevents, hrecognised]
    exact h.tags
  · rw [hrecognised]
    exact h.reads

theorem executeLoop_answered (h : s.Answered) (hs' : s.executeLoop w = some s') :
    s'.Answered := by
  unfold executeLoop at hs'
  split at hs'
  · cases hs'
    exact h
  · obtain ⟨t, ht, hrest⟩ := Option.bind_eq_some_iff.mp hs'
    have hanswered : t.Answered := by
      split at ht
      · rcases retrieve_kept ht with ⟨hevents, hrecognised⟩
        exact h.congr hevents hrecognised
      · cases ht
        exact h
    split at hrest
    · cases hrest
    · rename_i rest _
      have hpopped : Emu.Answered { t with commandStream := rest } := hanswered.congr rfl rfl
      exact handle_answered hpopped hrest

end Emu

end Yarr.Rd53aEmu

namespace Yarr.Rd53.Rd53aCmd

open Rd53aEmu

/-- Different symbols for the same bits, never the bits themselves. -/
theorem symbol_ne_tag (tag : Fin 32) : (symbol (arg tag)).toUInt32 &&& 0x1f ≠ arg tag := by
  have htable : ∀ tag : Fin 32, (symbol (arg tag)).toUInt32 &&& 0x1f ≠ arg tag := by decide
  exact htable tag

theorem crossings_ne_nil (bc : Fin 16) : crossings (UInt8.ofNat bc) = [] ↔ bc = 0 := by
  have htable : ∀ bc : Fin 16, crossings (UInt8.ofNat bc) = [] ↔ bc = 0 := by decide
  exact htable bc

namespace Command

/-- The tags that the events of a trigger ought to have. -/
def tags : Command → List UInt32
  | trigger bc tag bc2 tag2 =>
      (crossings (UInt8.ofNat bc)).map (fun _ => arg tag) ++
        (crossings (UInt8.ofNat bc2)).map fun _ => arg tag2
  | _ => []

/-- The tags that they have. -/
def sentTags : Command → List UInt32
  | trigger bc tag bc2 tag2 =>
      (crossings (UInt8.ofNat bc)).map (fun _ => (symbol (arg tag)).toUInt32 &&& 0x1f) ++
        (crossings (UInt8.ofNat bc2)).map fun _ => (symbol (arg tag2)).toUInt32 &&& 0x1f
  | _ => []

theorem tags_issuedTrigger (bc : Fin 16) (tag : Fin 32) :
    (issuedTrigger bc tag).tags =
      (crossings (UInt8.ofNat bc)).map fun _ => (symbol (arg tag)).toUInt32 &&& 0x1f := by
  unfold issuedTrigger
  split
  · rfl
  · rename_i hbc
    have hzero : bc = 0 := by omega
    rw [(crossings_ne_nil bc).mpr hzero]
    rfl

theorem tags_received (c : Command) : c.received.flatMap Recognised.tags = c.sentTags := by
  cases c with
  | trigger bc tag bc2 tag2 =>
      rw [sentTags, ← tags_issuedTrigger, ← tags_issuedTrigger]
      simp [received, paddingBefore, issued, paddingAfter, Recognised.tags]
  | _ => rfl

theorem length_sentTags (c : Command) : c.sentTags.length = c.tags.length := by
  cases c with
  | trigger bc tag bc2 tag2 => simp [sentTags, tags]
  | _ => rfl

/-- The emulator can answer a read, and nothing is triggered. -/
def Kept : Command → Prop
  | rdRegister _ address => address.val < Rd53aGlobalCfg.numRegs
  | trigger bc _ bc2 _ => bc = 0 ∧ bc2 = 0
  | _ => True

theorem readsRegister_of_kept {c : Command} (h : c.Kept) : c.ReadsRegister := by
  cases c with
  | rdRegister chipId address => exact h
  | _ => trivial

theorem tags_of_kept {c : Command} (h : c.Kept) : c.sentTags = c.tags := by
  cases c with
  | trigger bc tag bc2 tag2 =>
      rcases h with ⟨hbc, hbc2⟩
      rw [sentTags, tags, (crossings_ne_nil bc).mpr hbc, (crossings_ne_nil bc2).mpr hbc2]
      rfl
  | _ => rfl

theorem of_map_crossings {bc : Fin 16} {tag : Fin 32}
    (h : (crossings (UInt8.ofNat bc)).map (fun _ => (symbol (arg tag)).toUInt32 &&& 0x1f) =
      (crossings (UInt8.ofNat bc)).map fun _ => arg tag) : bc = 0 := by
  rw [← crossings_ne_nil bc]
  cases hbcs : crossings (UInt8.ofNat bc) with
  | nil => rfl
  | cons iBC bcs =>
      rw [hbcs, List.map_cons, List.map_cons, List.cons.injEq] at h
      exact absurd h.1 (symbol_ne_tag tag)

theorem kept_of_tags {c : Command} (hread : c.ReadsRegister) (h : c.sentTags = c.tags) :
    c.Kept := by
  cases c with
  | trigger bc tag bc2 tag2 =>
      rcases List.append_inj h (by simp) with ⟨hfirst, hsecond⟩
      exact ⟨of_map_crossings hfirst, of_map_crossings hsecond⟩
  | rdRegister chipId address => exact hread
  | _ => trivial

end Command

end Yarr.Rd53.Rd53aCmd

namespace Yarr.Rd53aEmu

open Rd53 Rd53.Rd53aCmd

namespace Emu

/--
What was recognised so far is the beginning of what was issued, and in the end
it is all of it, with the issued tags in the headers of the events.
-/
def Transports (w : Surroundings) (cmds : List Command) (k : Nat) (s : Emu) : Prop :=
  (∀ n, ∃ s', Transport.calls (executeLoop w) n s = some s' ∧
      s'.recognised <+: expected cmds k) ∧
    ∃ n, ∀ m, n ≤ m → ∃ s', Transport.calls (executeLoop w) m s = some s' ∧
      s'.recognised = expected cmds k ∧ s'.events.map Event.tag = cmds.flatMap Command.tags

variable {w : Surroundings} {cmds : List Command} {k : Nat}

theorem answered_start (tx : List UInt32) (calTiming injectTiming l1id bcid : UInt32) :
    (start tx calTiming injectTiming l1id bcid).Answered :=
  ⟨rfl, fun _ hr => absurd hr List.not_mem_nil⟩

theorem tags_expected (cmds : List Command) (k : Nat) :
    (expected cmds k).flatMap Recognised.tags = cmds.flatMap Command.sentTags := by
  have hidle : (List.replicate (2 * k + 1) (Recognised.command .noop)).flatMap Recognised.tags =
      [] := by
    rw [List.flatMap_eq_nil_iff]
    intro r hr
    rw [List.eq_of_mem_replicate hr]
    rfl
  rw [expected, List.flatMap_append, hidle, List.append_nil, List.flatMap_assoc]
  apply congrArg (fun f => cmds.flatMap f)
  funext c
  exact c.tags_received

theorem kept_of_transports {s : Emu} (hs : s.Answered) (h : s.Transports w cmds k) :
    ∀ c ∈ cmds, c.Kept := by
  obtain ⟨-, n, hn⟩ := h
  obtain ⟨s', hcalls, hrecognised, htags⟩ := hn n (Nat.le_refl n)
  have hanswered : s'.Answered :=
    Transport.calls_kept (fun _ _ => executeLoop_answered) hs hcalls
  have hsent : cmds.flatMap Command.sentTags = cmds.flatMap Command.tags := by
    rw [← tags_expected cmds k, ← hrecognised, ← hanswered.tags, htags]
  intro c hc
  apply Command.kept_of_tags
  · cases c with
    | rdRegister chipId address =>
        have hread : Recognised.read .rdReg (arg chipId) (arg address) 0 ∈ s'.recognised := by
          rw [hrecognised, expected]
          apply List.mem_append_left
          rw [List.mem_flatMap]
          refine ⟨_, hc, ?_⟩
          simp [Command.received, Command.paddingBefore, Command.issued, Command.paddingAfter]
        have hlt := hanswered.reads _ hread
        rw [Recognised.Answerable, toNat_arg address (by omega)] at hlt
        exact hlt
    | _ => trivial
  · exact Transport.flatMap_eq_of_length Command.length_sentTags hsent c hc

/--
The commands arrive with their tags exactly if there is no trigger among them
and no read of a register that the chip does not have.
-/
theorem tags_kept_iff (w : Surroundings) (cmds : List Command) (k : Nat)
    (calTiming injectTiming l1id bcid : UInt32) :
    (start (cmds.flatMap Command.words ++ List.replicate (k + 1) 0x69696969) calTiming
      injectTiming l1id bcid).Transports w cmds k ↔ ∀ c ∈ cmds, c.Kept := by
  constructor
  · exact kept_of_transports (answered_start _ _ _ _ _)
  · intro hkept
    have hread : ∀ c ∈ cmds, c.ReadsRegister := fun c hc => Command.readsRegister_of_kept (hkept c hc)
    obtain ⟨hbegin, n, hn⟩ :=
      commands_recognised w k hread calTiming injectTiming l1id bcid
    apply And.intro hbegin
    apply Exists.intro n
    intro m hm
    obtain ⟨s', hcalls, hrecognised⟩ := hn m hm
    have hanswered : s'.Answered :=
      Transport.calls_kept (fun _ _ => executeLoop_answered) (answered_start _ _ _ _ _) hcalls
    refine ⟨s', hcalls, hrecognised, ?_⟩
    rw [hanswered.tags, hrecognised, tags_expected]
    exact List.flatMap_congr fun c hc => Command.tags_of_kept (hkept c hc)

/-- A trigger with tag 0 and the first crossing of its pattern. -/
theorem tag_lost :
    ¬ ∀ (w : Surroundings) (cmds : List Command) (k : Nat)
        (calTiming injectTiming l1id bcid : UInt32),
      (start (cmds.flatMap Command.words ++ List.replicate (k + 1) 0x69696969) calTiming
        injectTiming l1id bcid).Transports w cmds k := by
  intro h
  let w : Surroundings := ⟨fun _ => Vector.replicate _ 0, fun _ => []⟩
  have hkept := kept_of_transports (answered_start _ _ _ _ _) (h w [.trigger 8 0 0 0] 0 0 0 0 0)
    (.trigger 8 0 0 0) List.mem_cons_self
  exact absurd hkept.1 (by decide)

end Emu

end Yarr.Rd53aEmu
