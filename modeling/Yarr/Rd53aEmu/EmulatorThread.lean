import Yarr.Rd53aEmu.ExecuteLoop

/-!
# The thread of the RD53A emulator

The command loop again, cut into the steps between which other threads run: the
test of the Tx ring buffer, each word taken from it, and each write to the Rx
ring buffer. What is behind in the Tx ring buffer changes nothing of a step that
does something. When a padding word was the last to be taken, no data follow.
-/

namespace Yarr.Rd53aEmu

/-- Where `executeLoop` stands. -/
inductive Stage where
  /-- Before the test of the ring buffer. -/
  | top
  | retrieve
  /-- Before the lookup of the front half. -/
  | front
  /-- In the function of a command, before its fields are complete. -/
  | command (header : Header)
  /-- Words to be pushed out one by one. -/
  | pushOutput (words : List UInt32)
  | crossing (pattern tag : UInt8) (iBC : Nat)

/-- More words in the Tx ring buffer. -/
def Emu.send (words : List UInt32) (s : Emu) : Emu :=
  { s with m_txRingBuffer := s.m_txRingBuffer ++ words }

structure EmuThread where
  emu : Emu
  stage : Stage

def Event.data (event : Event) : List UInt32 := event.header :: event.words

namespace EmuThread

/-- `fieldSize` as far as words are retrieved for it. -/
def needs : Header → Nat
  | .globalPulse => 0
  | header => Emu.fieldSize header

/-- The words that a command has got ready for `pushOutput`. -/
def replies (before after : Emu) : List UInt32 :=
  (after.regFrames.drop before.regFrames.length).flatMap fun frame => [frame.1, frame.2]

variable (w : Surroundings)

/-- One step, with what it writes to the Rx ring buffer. `none`: the thread waits in `read32`,
or the program ends. -/
def step (t : EmuThread) : Option (EmuThread × List UInt32) :=
  match t.stage with
  | .top =>
      if t.emu.m_txRingBuffer.isEmpty then some (t, []) else some (⟨t.emu, .retrieve⟩, [])
  | .retrieve =>
      if t.emu.commandStream.isEmpty then t.emu.retrieve.map fun emu => (⟨emu, .front⟩, [])
      else some (⟨t.emu, .front⟩, [])
  | .front =>
      match t.emu.commandStream with
      | [] => none
      | front :: rest =>
          let emu := { t.emu with commandStream := rest }
          match commandFuncs.lookup front with
          | some header => some (⟨emu, .command header⟩, [])
          | none =>
              (triggerPatterns.lookup (front >>> 8).toUInt8).map fun pattern =>
                let tag := (front &&& 0x00ff).toUInt8
                (⟨emu.log (.trigger pattern tag), .crossing pattern tag 0⟩, [])
  | .command header =>
      if t.emu.commandStream.length < needs header then
        t.emu.retrieve.map fun emu => (⟨emu, .command header⟩, [])
      else
        (t.emu.doCommand w header).map fun emu => (⟨emu, .pushOutput (replies t.emu emu)⟩, [])
  | .pushOutput [] => some (⟨t.emu, .top⟩, [])
  | .pushOutput (value :: words) => some (⟨t.emu, .pushOutput words⟩, [value])
  | .crossing pattern tag iBC =>
      if iBC < 4 then
        some (⟨t.emu.crossing w pattern tag iBC, .crossing pattern tag (iBC + 1)⟩,
          if (pattern >>> UInt8.ofNat (3 - iBC)) &&& 0x1 ≠ 0 then (t.emu.outputLoop w tag).data
          else [])
      else some (⟨{ t.emu with l1id := t.emu.l1id + 1 }, .top⟩, [])

/-- The steps of a thread, with all that they write. -/
inductive Steps : EmuThread → List UInt32 → EmuThread → Prop
  | refl (t : EmuThread) : Steps t [] t
  | head {t t' t'' : EmuThread} {out data : List UInt32} :
      t.step w = some (t', out) → Steps t' data t'' → Steps t (out ++ data) t''

/-- All that the thread ever writes when it runs by itself. -/
def Answers (t : EmuThread) (data : List UInt32) : Prop :=
  (∃ t', Steps w t data t') ∧ ∀ data' t', Steps w t data' t' → data' <+: data

def send (words : List UInt32) (t : EmuThread) : EmuThread := { t with emu := t.emu.send words }

end EmuThread

/-! ## Words behind -/

namespace Emu

variable {w : Surroundings} {s s' : Emu} {words : List UInt32}

theorem retrieve_send (h : s.retrieve = some s') :
    (s.send words).retrieve = some (s'.send words) := by
  unfold retrieve at h ⊢
  cases hring : s.m_txRingBuffer with
  | nil =>
      rw [hring] at h
      cases h
  | cons d ring =>
      rw [hring] at h
      cases h
      simp [send, hring]

theorem retrieveUntil_enough {fieldSize n : Nat} (h : fieldSize ≤ s.commandStream.length) :
    retrieveUntil fieldSize n s = some s := by
  cases n with
  | zero => rfl
  | succ n => rw [retrieveUntil, if_neg (Nat.not_lt.mpr h)]

theorem readIDAddrData_enough (s : Emu) (command : Header)
    (h : fieldSize command ≤ s.commandStream.length) :
    s.readIDAddrData command = (fields command s.commandStream).map fun output =>
      (output, { s with commandStream := s.commandStream.drop (fieldSize command) }) := by
  rw [readIDAddrData, retrieveUntil_enough h, Option.bind_eq_bind, Option.bind_some]
  cases fields command s.commandStream <;> rfl

theorem readIDAddrData_send {command : Header} {output : UInt32 × UInt32 × UInt32}
    (h : s.readIDAddrData command = some (output, s'))
    (henough : fieldSize command ≤ s.commandStream.length) :
    (s.send words).readIDAddrData command = some (output, s'.send words) := by
  have henough' : fieldSize command ≤ (s.send words).commandStream.length := henough
  rw [readIDAddrData_enough s command henough] at h
  rw [readIDAddrData_enough _ command henough']
  rcases Option.map_eq_some_iff.mp h with ⟨output', hfields, hs'⟩
  cases hs'
  exact Option.map_eq_some_iff.mpr ⟨output, hfields, rfl⟩

theorem crossing_send (pattern tag : UInt8) (iBC : Nat) :
    (s.send words).crossing w pattern tag iBC = (s.crossing w pattern tag iBC).send words := by
  unfold crossing
  split <;> rfl

/-- A command that has its fields leaves the ring buffer alone. -/
theorem doCommand_send {header : Header}
    (henough : EmuThread.needs header ≤ s.commandStream.length)
    (h : s.doCommand w header = some s') :
    (s.send words).doCommand w header = some (s'.send words) := by
  cases header with
  | wrReg =>
      rcases Option.bind_eq_some_iff.mp h with ⟨⟨input, t⟩, ht, hrest⟩
      cases hrest
      simp only [doCommand, doWrReg, readIDAddrData_send ht henough]
      rfl
  | rdReg =>
      rcases Option.bind_eq_some_iff.mp h with ⟨⟨input, t⟩, ht, hrest⟩
      simp only [doCommand, doRdReg, readIDAddrData_send ht henough, Option.bind_eq_bind,
        Option.bind_some]
      dsimp only at hrest
      split at hrest
      · rename_i haddress
        rw [dif_pos haddress]
        cases hrest
        rfl
      · cases hrest
  | cal =>
      rcases Option.bind_eq_some_iff.mp h with ⟨⟨input, t⟩, ht, hrest⟩
      cases hrest
      simp only [doCommand, doCal, readIDAddrData_send ht henough]
      rfl
  | globalPulse =>
      simp only [doCommand, doGlobalPulse] at h ⊢
      have hstream : (s.send words).commandStream = s.commandStream := rfl
      cases hhalves : s.commandStream with
      | nil =>
          rw [hhalves] at h
          cases h
      | cons half rest =>
          rw [hhalves] at h
          cases h
          rw [hstream, hhalves]
          rfl
  | _ =>
      cases h
      rfl

theorem doCommand_quiet {header : Header}
    (henough : EmuThread.needs header ≤ s.commandStream.length) (hread : header ≠ .rdReg)
    (h : s.doCommand w header = some s') : s'.m_txRingBuffer = s.m_txRingBuffer ∧
      s'.regFrames = s.regFrames ∧
      s'.commandStream = s.commandStream.drop (fieldSize header) := by
  cases header with
  | wrReg =>
      rcases Option.bind_eq_some_iff.mp h with ⟨⟨input, t⟩, ht, hrest⟩
      cases hrest
      rw [readIDAddrData_enough s .wrReg henough] at ht
      rcases Option.map_eq_some_iff.mp ht with ⟨output, -, heq⟩
      cases heq
      exact ⟨rfl, rfl, rfl⟩
  | rdReg => exact absurd rfl hread
  | cal =>
      rcases Option.bind_eq_some_iff.mp h with ⟨⟨input, t⟩, ht, hrest⟩
      cases hrest
      rw [readIDAddrData_enough s .cal henough] at ht
      rcases Option.map_eq_some_iff.mp ht with ⟨output, -, heq⟩
      cases heq
      exact ⟨rfl, rfl, rfl⟩
  | globalPulse =>
      simp only [doCommand, doGlobalPulse] at h
      cases hhalves : s.commandStream with
      | nil =>
          rw [hhalves] at h
          cases h
      | cons half rest =>
          rw [hhalves] at h
          cases h
          exact ⟨rfl, rfl, rfl⟩
  | _ =>
      cases h
      exact ⟨rfl, rfl, rfl⟩

theorem doRdReg_zero (henough : 2 ≤ s.commandStream.length)
    (hzero : 0 ∈ s.commandStream.take 2) : s.doRdReg w = none := by
  have hbad : cmdTo5bitPair 0 = none := by decide
  rw [doRdReg, readIDAddrData_enough s .rdReg henough]
  match hhalves : s.commandStream with
  | [] =>
      rw [hhalves] at henough
      cases henough
  | [half] =>
      rw [hhalves] at henough
      exact absurd henough (by simp)
  | half :: half' :: rest =>
      rw [hhalves] at hzero
      have hnone : fields .rdReg (half :: half' :: rest) = none := by
        rcases List.mem_cons.mp hzero with rfl | hzero
        · simp [fields, hbad]
        · rw [← List.mem_singleton.mp hzero]
          cases hfirst : cmdTo5bitPair half <;> simp [fields, hbad, hfirst]
      rw [hnone]
      rfl

end Emu

namespace EmuThread

variable {w : Surroundings} {t t' t'' : EmuThread} {out data data' words : List UInt32}

theorem send_nil (t : EmuThread) : t.send [] = t := by
  simp [send, Emu.send]

theorem send_append (t : EmuThread) (words words' : List UInt32) :
    t.send (words ++ words') = (t.send words).send words' := by
  simp [send, Emu.send]

/-- A step goes on in the same way with more words behind, unless it only found no words. -/
theorem step_send (words : List UInt32) (h : t.step w = some (t', out)) :
    t' = t ∧ out = [] ∨ (t.send words).step w = some (t'.send words, out) := by
  rcases t with ⟨emu, stage⟩
  cases stage with
  | top =>
      by_cases hempty : emu.m_txRingBuffer.isEmpty = true
      · simp only [step, hempty, if_true] at h
        cases h
        exact Or.inl ⟨rfl, rfl⟩
      · simp only [step, if_neg hempty] at h
        cases h
        have hmore : ¬ (emu.m_txRingBuffer ++ words).isEmpty = true := by
          simpa using fun hring => absurd (by simpa using hring) hempty
        exact Or.inr (if_neg hmore)
  | retrieve =>
      simp only [step] at h
      split at h
      · rename_i hstream
        rcases Option.map_eq_some_iff.mp h with ⟨emu', hretrieve, heq⟩
        cases heq
        apply Or.inr
        simp only [step, send, Emu.send, hstream, if_true]
        exact Option.map_eq_some_iff.mpr ⟨_, Emu.retrieve_send hretrieve, rfl⟩
      · rename_i hstream
        cases h
        exact Or.inr (if_neg hstream)
  | front =>
      simp only [step] at h
      split at h
      · cases h
      · rename_i front rest hstream
        apply Or.inr
        simp only [step, send, Emu.send, hstream]
        split at h
        · rename_i header hheader
          cases h
          rfl
        · rename_i hheader
          rcases Option.map_eq_some_iff.mp h with ⟨pattern, hpattern, heq⟩
          cases heq
          simp only [hpattern]
          rfl
  | command header =>
      simp only [step] at h
      split at h
      · rename_i hneeds
        rcases Option.map_eq_some_iff.mp h with ⟨emu', hretrieve, heq⟩
        cases heq
        have hneeds' : (emu.send words).commandStream.length < needs header := hneeds
        have hgo : (⟨emu.send words, .command header⟩ : EmuThread).step w
            = (emu.send words).retrieve.map fun emu => (⟨emu, .command header⟩, []) :=
          if_pos hneeds'
        rw [Emu.retrieve_send hretrieve] at hgo
        exact Or.inr hgo
      · rename_i hneeds
        rcases Option.map_eq_some_iff.mp h with ⟨emu', hcommand, heq⟩
        cases heq
        have hneeds' : ¬ (emu.send words).commandStream.length < needs header := hneeds
        have hgo : (⟨emu.send words, .command header⟩ : EmuThread).step w
            = ((emu.send words).doCommand w header).map fun emu' =>
              (⟨emu', .pushOutput (replies (emu.send words) emu')⟩, []) := if_neg hneeds'
        rw [Emu.doCommand_send (Nat.not_lt.mp hneeds) hcommand] at hgo
        exact Or.inr hgo
  | pushOutput pending =>
      cases pending with
      | nil =>
          cases h
          exact Or.inr rfl
      | cons value pending =>
          cases h
          exact Or.inr rfl
  | crossing pattern tag iBC =>
      simp only [step] at h
      split at h
      · rename_i hcrossing
        cases h
        apply Or.inr
        simp only [step, send, if_pos hcrossing, Emu.crossing_send]
        rfl
      · rename_i hcrossing
        cases h
        exact Or.inr (if_neg hcrossing)

/-! ## Runs of a thread by itself -/

theorem Steps.tail (h : Steps w t data t') (hstep : t'.step w = some (t'', out)) :
    Steps w t (data ++ out) t'' := by
  induction h with
  | refl t =>
      have hone := Steps.head hstep (Steps.refl t'')
      rwa [List.append_nil] at hone
  | head hfirst _ ih =>
      rw [List.append_assoc]
      exact .head hfirst (ih hstep)

theorem Steps.linear (h : Steps w t data t') (h' : Steps w t data' t'') :
    (∃ rest, Steps w t' rest t'' ∧ data' = data ++ rest) ∨
      ∃ rest, Steps w t'' rest t' ∧ data = data' ++ rest := by
  induction h generalizing data' with
  | refl t => exact Or.inl ⟨data', h', rfl⟩
  | @head t t₁ t' out data hstep hrest ih =>
      cases h' with
      | refl _ => exact Or.inr ⟨_, .head hstep hrest, rfl⟩
      | @head _ t₂ _ out' data' hstep' hrest' =>
          rw [hstep, Option.some.injEq, Prod.mk.injEq] at hstep'
          rcases hstep' with ⟨rfl, rfl⟩
          rcases ih hrest' with ⟨rest, hgo, heq⟩ | ⟨rest, hgo, heq⟩
          · exact Or.inl ⟨rest, hgo, by rw [heq, List.append_assoc]⟩
          · exact Or.inr ⟨rest, hgo, by rw [heq, List.append_assoc]⟩

/-! ## Behind the padding -/

/-- No word is left, and behind what is at work there are only halves of zeros. -/
def Spent (t : EmuThread) : Prop :=
  t.emu.m_txRingBuffer = [] ∧
    match t.stage with
    | .command header =>
        (∀ half ∈ t.emu.commandStream.drop (Emu.fieldSize header), half = 0) ∧
          (header = .rdReg → 0 ∈ t.emu.commandStream.take 2)
    | .pushOutput pending => pending = [] ∧ ∀ half ∈ t.emu.commandStream, half = 0
    | .crossing _ _ _ => False
    | _ => ∀ half ∈ t.emu.commandStream, half = 0

/-- The last word is padding, or was. -/
def Padded (t : EmuThread) : Prop := (∃ ring, t.emu.m_txRingBuffer = ring ++ [0]) ∨ t.Spent

theorem Spent.step (h : t.Spent) (hstep : t.step w = some (t', out)) : t'.Spent ∧ out = [] := by
  rcases t with ⟨emu, stage⟩
  rcases h with ⟨hring, hstage⟩
  dsimp only at hring hstage
  cases stage with
  | top =>
      simp only [EmuThread.step, hring, List.isEmpty_nil, if_true] at hstep
      cases hstep
      exact ⟨⟨hring, hstage⟩, rfl⟩
  | retrieve =>
      simp only [EmuThread.step, Emu.retrieve, hring] at hstep
      split at hstep
      · cases hstep
      · cases hstep
        exact ⟨⟨hring, hstage⟩, rfl⟩
  | front =>
      simp only [EmuThread.step] at hstep
      split at hstep
      · cases hstep
      · rename_i front rest hstream
        rw [hstream, List.forall_mem_cons] at hstage
        rcases hstage with ⟨rfl, hrest⟩
        have hzero : commandFuncs.lookup 0 = some .zero := by decide
        rw [hzero] at hstep
        cases hstep
        exact ⟨⟨hring, hrest, fun hread => by cases hread⟩, rfl⟩
  | command header =>
      rcases hstage with ⟨hhalves, hread⟩
      simp only [EmuThread.step, Emu.retrieve, hring] at hstep
      split at hstep
      · cases hstep
      · rename_i hneeds
        rcases Option.map_eq_some_iff.mp hstep with ⟨emu', hcommand, heq⟩
        cases heq
        have hother : header ≠ .rdReg := by
          rintro rfl
          rw [Emu.doCommand, Emu.doRdReg_zero (Nat.not_lt.mp hneeds) (hread rfl)] at hcommand
          cases hcommand
        rcases Emu.doCommand_quiet (Nat.not_lt.mp hneeds) hother hcommand with
          ⟨hring', hframes, hstream⟩
        refine ⟨⟨hring'.trans hring, ?_, ?_⟩, rfl⟩
        · simp [replies, hframes]
        · rw [hstream]
          exact hhalves
  | pushOutput pending =>
      rcases hstage with ⟨rfl, hhalves⟩
      cases hstep
      exact ⟨⟨hring, hhalves⟩, rfl⟩
  | crossing pattern tag iBC => exact hstage.elim

theorem Spent.steps (h : t.Spent) (hsteps : Steps w t data t') : data = [] := by
  induction hsteps with
  | refl _ => rfl
  | head hstep _ ih =>
      rcases h.step hstep with ⟨hspent, rfl⟩
      exact ih hspent

theorem Steps.answers (h : Steps w t data t') (hspent : t'.Spent) : Answers w t data := by
  refine ⟨⟨t', h⟩, fun data' t'' h' => ?_⟩
  rcases h.linear h' with ⟨rest, hgo, heq⟩ | ⟨rest, -, heq⟩
  · have hdata : data' = data := by rw [heq, hspent.steps hgo, List.append_nil]
    exact hdata ▸ List.prefix_rfl
  · exact ⟨rest, heq.symm⟩

theorem Padded.send (t : EmuThread) : (t.send [0]).Padded :=
  Or.inl ⟨t.emu.m_txRingBuffer, rfl⟩

theorem Padded.spent (h : t.Padded) (hring : t.emu.m_txRingBuffer = []) : t.Spent := by
  rcases h with ⟨ring, hpadded⟩ | hspent
  · rw [hring] at hpadded
    exact absurd hpadded.symm (List.append_ne_nil_of_right_ne_nil _ (List.cons_ne_nil _ _))
  · exact hspent

theorem retrieve_padding {emu emu' : Emu} (hring : emu.m_txRingBuffer = [0])
    (h : emu.retrieve = some emu') :
    emu'.m_txRingBuffer = [] ∧ emu'.commandStream = emu.commandStream ++ [0, 0] := by
  unfold Emu.retrieve at h
  rw [hring] at h
  cases h
  exact ⟨rfl, rfl⟩

theorem retrieve_ring {emu emu' : Emu} {d : UInt32} {ring : List UInt32}
    (hring : emu.m_txRingBuffer = d :: ring) (h : emu.retrieve = some emu') :
    emu'.m_txRingBuffer = ring := by
  unfold Emu.retrieve at h
  rw [hring] at h
  cases h
  rfl

theorem needs_le (header : Header) : needs header ≤ Emu.fieldSize header := by
  cases header <;> decide

theorem doCommand_ring {emu emu' : Emu} {header : Header}
    (henough : needs header ≤ emu.commandStream.length)
    (h : emu.doCommand w header = some emu') : emu'.m_txRingBuffer = emu.m_txRingBuffer := by
  by_cases hread : header = .rdReg
  · subst hread
    rcases Option.bind_eq_some_iff.mp h with ⟨⟨input, t⟩, ht, hrest⟩
    rw [Emu.readIDAddrData_enough emu .rdReg henough] at ht
    rcases Option.map_eq_some_iff.mp ht with ⟨output, -, heq⟩
    cases heq
    dsimp only at hrest
    split at hrest
    · cases hrest
      rfl
    · cases hrest
  · exact (Emu.doCommand_quiet henough hread h).1

/-- Taking a word leaves the padding in the ring buffer, or only zeros behind the fields. -/
theorem Padded.step (h : t.Padded) (hstep : t.step w = some (t', out)) : t'.Padded := by
  rcases h with ⟨ring, hring⟩ | hspent
  · rcases t with ⟨emu, stage⟩
    dsimp only at hring
    cases stage with
    | top =>
        simp only [EmuThread.step] at hstep
        split at hstep
        · cases hstep
          exact Or.inl ⟨ring, hring⟩
        · cases hstep
          exact Or.inl ⟨ring, hring⟩
    | retrieve =>
        simp only [EmuThread.step] at hstep
        split at hstep
        · rename_i hstream
          rcases Option.map_eq_some_iff.mp hstep with ⟨emu', hretrieve, heq⟩
          cases heq
          cases ring with
          | nil =>
              rcases retrieve_padding hring hretrieve with ⟨hring', hhalves⟩
              rw [List.isEmpty_iff.mp hstream] at hhalves
              refine Or.inr ⟨hring', ?_⟩
              dsimp only
              rw [hhalves]
              simp
          | cons d ring => exact Or.inl ⟨ring, retrieve_ring hring hretrieve⟩
        · cases hstep
          exact Or.inl ⟨ring, hring⟩
    | front =>
        simp only [EmuThread.step] at hstep
        split at hstep
        · cases hstep
        · split at hstep
          · cases hstep
            exact Or.inl ⟨ring, hring⟩
          · rcases Option.map_eq_some_iff.mp hstep with ⟨pattern, -, heq⟩
            cases heq
            exact Or.inl ⟨ring, hring⟩
    | command header =>
        simp only [EmuThread.step] at hstep
        split at hstep
        · rename_i hneeds
          rcases Option.map_eq_some_iff.mp hstep with ⟨emu', hretrieve, heq⟩
          cases heq
          cases ring with
          | nil =>
              rcases retrieve_padding hring hretrieve with ⟨hring', hhalves⟩
              have hshort := Nat.lt_of_lt_of_le hneeds (needs_le header)
              refine Or.inr ⟨hring', ?_, ?_⟩
              · dsimp only
                rw [hhalves, List.drop_append, List.drop_eq_nil_of_le (Nat.le_of_lt hshort),
                  List.nil_append]
                intro half hhalf
                simpa using List.mem_of_mem_drop hhalf
              · rintro rfl
                dsimp only
                have hone : emu.commandStream.length < 2 := hshort
                rw [hhalves, List.take_append]
                apply List.mem_append_right
                obtain ⟨n, hn⟩ : ∃ n, 2 - emu.commandStream.length = n + 1 :=
                  ⟨1 - emu.commandStream.length, by omega⟩
                rw [hn, List.take_succ_cons]
                exact List.mem_cons_self
          | cons d ring => exact Or.inl ⟨ring, retrieve_ring hring hretrieve⟩
        · rename_i hneeds
          rcases Option.map_eq_some_iff.mp hstep with ⟨emu', hcommand, heq⟩
          cases heq
          exact Or.inl ⟨ring, (doCommand_ring (Nat.not_lt.mp hneeds) hcommand).trans hring⟩
    | pushOutput pending =>
        cases pending with
        | nil =>
            cases hstep
            exact Or.inl ⟨ring, hring⟩
        | cons value pending =>
            cases hstep
            exact Or.inl ⟨ring, hring⟩
    | crossing pattern tag iBC =>
        simp only [EmuThread.step] at hstep
        split at hstep
        · cases hstep
          have hsame : (emu.crossing w pattern tag iBC).m_txRingBuffer = emu.m_txRingBuffer := by
            unfold Emu.crossing
            split <;> rfl
          exact Or.inl ⟨ring, hsame.trans hring⟩
        · cases hstep
          exact Or.inl ⟨ring, hring⟩
  · exact Or.inr (hspent.step hstep).1

end EmuThread

end Yarr.Rd53aEmu
