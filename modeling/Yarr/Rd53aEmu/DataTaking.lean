import Yarr.Rd53aEmu.EmulatorThread
import Yarr.Scan.DataRouting

/-!
# Emulated data taking

A thread writes the triggers and some padding to the Tx ring buffers, the
emulators answer them in the Rx ring buffers, and the gatherer reads until the
triggers are done. The threads take steps in any order.
-/

namespace Yarr.Rd53aEmu

open Scan

/-- The channels that are enabled, the triggers, and the surroundings of the emulators. -/
structure DataTaking where
  tx : List UInt32
  rx : List UInt32
  m_trigCnt : UInt32
  trigWord : List UInt32
  w : UInt32 → Surroundings

/-- Where `doTrigger` stands: the words still to be written, and the channels still to be tested
in its last loop. -/
inductive TriggerProc where
  | write32 (rest : List (UInt32 × UInt32))
  | isCmdEmpty (rest : List UInt32)
  | finished

/-- Where `execPart2` of the gatherer stands, with the chunks of the present read. -/
inductive Gathering where
  | isTrigDone
  | isCmdEmpty (rest : List UInt32)
  | readData (triggerIsDone : Bool) (rest : List UInt32) (newData : List RawData)
  | finished

structure TakingState where
  emus : UInt32 → EmuThread
  rxRings : UInt32 → List UInt32
  triggerProc : TriggerProc
  trigProcRunning : Bool
  gathering : Gathering
  results : List PassResults

inductive Thread where
  | emulator (chn : UInt32)
  | triggerProc
  | gatherer

namespace DataTaking

variable (cfg : DataTaking)

/-- What `doTrigger` writes, in its order. The trigger words go from the last to the first. -/
def doTrigger : List (UInt32 × UInt32) :=
  ((List.range cfg.m_trigCnt.toNat).flatMap fun _ =>
      cfg.tx.flatMap fun chn => cfg.trigWord.reverse.map fun word => (chn, word)) ++
    cfg.tx.map fun chn => (chn, 0x0)

/-- After `setTrigEnable`. -/
def start (emus : UInt32 → EmuThread) (rxRings : UInt32 → List UInt32) : TakingState where
  emus := emus
  rxRings := rxRings
  triggerProc := .write32 cfg.doTrigger
  trigProcRunning := true
  gathering := .isTrigDone
  results := []

def isEmpty (s : TakingState) (chn : UInt32) : Bool := (s.emus chn).emu.m_txRingBuffer.isEmpty

/-- An emulator writes to its own Rx ring buffer. -/
def emulate (s : TakingState) (chn : UInt32) : Option TakingState :=
  ((s.emus chn).step (cfg.w chn)).map fun (t, out) =>
    { s with
      emus := Function.update s.emus chn t
      rxRings := Function.update s.rxRings chn (s.rxRings chn ++ out) }

def trigger (s : TakingState) : Option TakingState :=
  match s.triggerProc with
  | .write32 ((chn, word) :: rest) =>
      some { s with
        emus := Function.update s.emus chn ((s.emus chn).send [word])
        triggerProc := .write32 rest }
  | .write32 [] => some { s with triggerProc := .isCmdEmpty cfg.tx }
  | .isCmdEmpty (chn :: rest) =>
      some { s with triggerProc := .isCmdEmpty (if isEmpty s chn then rest else cfg.tx) }
  | .isCmdEmpty [] => some { s with trigProcRunning := false, triggerProc := .finished }
  | .finished => none

def gather (s : TakingState) : Option TakingState :=
  match s.gathering with
  | .isTrigDone =>
      some { s with
        gathering := if s.trigProcRunning then .readData false cfg.rx [] else .isCmdEmpty cfg.tx }
  | .isCmdEmpty (chn :: rest) =>
      some { s with
        gathering := if isEmpty s chn then .isCmdEmpty rest else .readData false cfg.rx [] }
  | .isCmdEmpty [] => some { s with gathering := .readData true cfg.rx [] }
  | .readData triggerIsDone (chn :: rest) newData =>
      if (s.rxRings chn).isEmpty then
        some { s with gathering := .readData triggerIsDone rest newData }
      else
        some { s with
          rxRings := Function.update s.rxRings chn []
          gathering := .readData triggerIsDone rest (newData ++ [⟨chn, s.rxRings chn⟩]) }
  | .readData triggerIsDone [] newData =>
      some { s with
        results := s.results ++ [⟨triggerIsDone, newData⟩]
        gathering := if triggerIsDone then .finished else .isTrigDone }
  | .finished => none

def step (s : TakingState) : Thread → Option TakingState
  | .emulator chn => cfg.emulate s chn
  | .triggerProc => cfg.trigger s
  | .gatherer => cfg.gather s

/-- `none`: a thread that was to take a step waits, or is at its end. -/
def run (s : TakingState) (turns : List Thread) : Option TakingState :=
  turns.foldlM cfg.step s

/-- The words for a channel, in a list of writes. -/
def wordsOn (chn : UInt32) (writes : List (UInt32 × UInt32)) : List UInt32 :=
  (writes.filter fun write => write.1 = chn).map Prod.snd

/-- The data of a channel, in a list of chunks. -/
def dataOf (chn : UInt32) (chunks : List RawData) : List UInt32 :=
  (chunks.filter fun chunk => chunk.adr = chn).flatMap RawData.buf

end DataTaking

/-! ## What is on its way -/

namespace TakingState

variable (s : TakingState)

def unwritten : List (UInt32 × UInt32) :=
  match s.triggerProc with
  | .write32 rest => rest
  | _ => []

/-- The chunks that `readData` has returned so far. -/
def received : List RawData :=
  StdDataGatherer.chunksRead s.results ++
    match s.gathering with
    | .readData _ _ newData => newData
    | _ => []

end TakingState

namespace DataTaking

variable {cfg : DataTaking} {emus : UInt32 → EmuThread} {rxRings : UInt32 → List UInt32}
  {s s' : TakingState}

/-- What has come to the Rx ring buffer of a channel is what its emulator writes by itself for
the same words. -/
structure OnWay (cfg : DataTaking) (emus : UInt32 → EmuThread)
    (rxRings : UInt32 → List UInt32) (s : TakingState) : Prop where
  data : ∀ chn, ∃ data,
    EmuThread.Steps (cfg.w chn) ((emus chn).send (wordsOn chn cfg.doTrigger)) data
      ((s.emus chn).send (wordsOn chn s.unwritten)) ∧
    dataOf chn s.received ++ s.rxRings chn = rxRings chn ++ data
  padding : ∀ chn ∈ cfg.tx, (∃ words, wordsOn chn s.unwritten = words ++ [0]) ∨
    (wordsOn chn s.unwritten = [] ∧ (s.emus chn).Padded)

/-- What the gatherer knows when it has seen that the triggers are done. -/
structure Knows (cfg : DataTaking) (s : TakingState) : Prop where
  flag : s.trigProcRunning = false → s.triggerProc = .finished
  empty : ∀ rest, s.gathering = .isCmdEmpty rest → s.triggerProc = .finished ∧
    ∀ chn ∈ cfg.tx, chn ∈ rest ∨ (s.emus chn).Spent
  read : ∀ rest newData, s.gathering = .readData true rest newData →
    s.triggerProc = .finished ∧ ∀ chn ∈ cfg.tx, (s.emus chn).Spent ∧
      (chn ∈ cfg.rx → chn ∈ rest ∨ s.rxRings chn = [])
  done : s.gathering = .finished → s.triggerProc = .finished ∧
    ∀ chn ∈ cfg.tx, (s.emus chn).Spent ∧ (chn ∈ cfg.rx → s.rxRings chn = [])

/-- Only the last pass of the gatherer has seen that the triggers are done. -/
structure Passed (s : TakingState) : Prop where
  going : s.gathering ≠ .finished → ∀ r ∈ s.results, r.triggerIsDone = false
  last : s.gathering = .finished → ∃ results last, s.results = results ++ [last] ∧
    last.triggerIsDone = true ∧ ∀ r ∈ results, r.triggerIsDone = false

theorem wordsOn_cons (chn : UInt32) (write : UInt32 × UInt32) (writes : List (UInt32 × UInt32)) :
    wordsOn chn (write :: writes)
      = if write.1 = chn then write.2 :: wordsOn chn writes else wordsOn chn writes := by
  unfold wordsOn
  rw [List.filter_cons]
  by_cases hchn : write.1 = chn
  · simp [hchn]
  · simp [hchn]

theorem wordsOn_append (chn : UInt32) (writes writes' : List (UInt32 × UInt32)) :
    wordsOn chn (writes ++ writes') = wordsOn chn writes ++ wordsOn chn writes' := by
  simp [wordsOn]

theorem dataOf_append (chn : UInt32) (chunks chunks' : List RawData) :
    dataOf chn (chunks ++ chunks') = dataOf chn chunks ++ dataOf chn chunks' := by
  simp [dataOf]

theorem dataOf_singleton (chn c : UInt32) (buf : List UInt32) :
    dataOf chn [⟨c, buf⟩] = if c = chn then buf else [] := by
  by_cases hchn : c = chn
  · simp [dataOf, hchn]
  · simp [dataOf, hchn]

theorem wordsOn_doTrigger {chn : UInt32} (h : chn ∈ cfg.tx) :
    ∃ words, wordsOn chn cfg.doTrigger = words ++ [0] := by
  have hpads : wordsOn chn (cfg.tx.map fun chn => (chn, 0x0)) ≠ [] := by
    apply List.ne_nil_of_mem (a := 0)
    exact List.mem_map.mpr ⟨(chn, 0), List.mem_filter.mpr ⟨List.mem_map.mpr ⟨chn, h, rfl⟩, by simp⟩,
      rfl⟩
  have hzero : ∀ word ∈ wordsOn chn (cfg.tx.map fun chn => (chn, 0x0)), word = 0 := by
    intro word hword
    rcases List.mem_map.mp hword with ⟨write, hwrite, rfl⟩
    rcases List.mem_map.mp (List.mem_of_mem_filter hwrite) with ⟨c, -, rfl⟩
    rfl
  rcases List.eq_nil_or_concat (wordsOn chn (cfg.tx.map fun chn => (chn, 0x0))) with
    hnil | ⟨pads, pad, hconcat⟩
  · exact absurd hnil hpads
  · have hpad : pad = 0 := hzero pad (by rw [hconcat]; simp)
    rw [doTrigger, wordsOn_append, hconcat, List.concat_eq_append, hpad, ← List.append_assoc]
    exact ⟨_, rfl⟩

theorem onWay_start (cfg : DataTaking) (emus : UInt32 → EmuThread)
    (rxRings : UInt32 → List UInt32) : OnWay cfg emus rxRings (cfg.start emus rxRings) where
  data _ := ⟨[], .refl _, (List.append_nil _).symm⟩
  padding _ hchn := Or.inl (wordsOn_doTrigger hchn)

theorem OnWay.emulate {chn : UInt32} (h : OnWay cfg emus rxRings s)
    (hstep : cfg.emulate s chn = some s') : OnWay cfg emus rxRings s' := by
  rcases Option.map_eq_some_iff.mp hstep with ⟨⟨t, out⟩, ht, rfl⟩
  constructor
  · intro c
    by_cases hc : c = chn
    · subst hc
      rcases h.data c with ⟨data, hsteps, hdata⟩
      rcases EmuThread.step_send (wordsOn c s.unwritten) ht with ⟨rfl, rfl⟩ | hsent
      · refine ⟨data, ?_, ?_⟩
        · simp only [Function.update_self]
          exact hsteps
        · simp only [Function.update_self, List.append_nil]
          exact hdata
      · refine ⟨data ++ out, ?_, ?_⟩
        · simp only [Function.update_self]
          exact hsteps.tail hsent
        · simp only [Function.update_self]
          rw [← List.append_assoc, ← List.append_assoc, ← hdata]
          rfl
    · simp only [Function.update_of_ne hc]
      exact h.data c
  · intro c hctx
    rcases h.padding c hctx with hwords | ⟨hnone, hpadded⟩
    · exact Or.inl hwords
    · refine Or.inr ⟨hnone, ?_⟩
      by_cases hc : c = chn
      · subst hc
        simp only [Function.update_self]
        exact hpadded.step ht
      · simp only [Function.update_of_ne hc]
        exact hpadded

theorem OnWay.trigger (h : OnWay cfg emus rxRings s) (hstep : cfg.trigger s = some s') :
    OnWay cfg emus rxRings s' := by
  -- a step that writes nothing
  have hquiet : ∀ t : TakingState, t.emus = s.emus → t.rxRings = s.rxRings →
      t.received = s.received → t.unwritten = s.unwritten → OnWay cfg emus rxRings t := by
    intro t hemus hrings hreceived hunwritten
    constructor
    · intro c
      rw [hemus, hrings, hreceived, hunwritten]
      exact h.data c
    · intro c hc
      rw [hemus, hunwritten]
      exact h.padding c hc
  unfold DataTaking.trigger at hstep
  split at hstep
  · rename_i chn word rest hproc
    have hunwritten : s.unwritten = (chn, word) :: rest := by rw [TakingState.unwritten, hproc]
    cases hstep
    constructor
    · intro c
      rcases h.data c with ⟨data, hsteps, hdata⟩
      refine ⟨data, ?_, hdata⟩
      rw [hunwritten, wordsOn_cons] at hsteps
      by_cases hc : chn = c
      · subst hc
        simp only [Function.update_self]
        rw [if_pos rfl, ← List.singleton_append, EmuThread.send_append] at hsteps
        exact hsteps
      · simp only [Function.update_of_ne (Ne.symm hc)]
        rw [if_neg hc] at hsteps
        exact hsteps
    · intro c hctx
      have hpad := h.padding c hctx
      rw [hunwritten, wordsOn_cons] at hpad
      show (∃ words, wordsOn c rest = words ++ [0]) ∨ wordsOn c rest = [] ∧ _
      by_cases hc : chn = c
      · subst hc
        simp only [if_true] at hpad
        rcases hpad with ⟨words, hwords⟩ | ⟨hnone, -⟩
        · cases words with
          | nil =>
              rcases List.cons.inj hwords with ⟨rfl, hrest⟩
              refine Or.inr ⟨hrest, ?_⟩
              simp only [Function.update_self]
              exact EmuThread.Padded.send _
          | cons word' words => exact Or.inl ⟨words, (List.cons.inj hwords).2⟩
        · cases hnone
      · simp only [Function.update_of_ne (Ne.symm hc)]
        rw [if_neg hc] at hpad
        exact hpad
  · rename_i hproc
    cases hstep
    exact hquiet _ rfl rfl rfl (by simp [TakingState.unwritten, hproc])
  · rename_i hproc
    cases hstep
    exact hquiet _ rfl rfl rfl (by simp [TakingState.unwritten, hproc])
  · rename_i hproc
    cases hstep
    exact hquiet _ rfl rfl rfl (by simp [TakingState.unwritten, hproc])
  · cases hstep

theorem OnWay.move (h : OnWay cfg emus rxRings s) {t : TakingState} (hemus : t.emus = s.emus)
    (hproc : t.triggerProc = s.triggerProc)
    (hdata : ∀ chn, dataOf chn t.received ++ t.rxRings chn
      = dataOf chn s.received ++ s.rxRings chn) : OnWay cfg emus rxRings t := by
  have hunwritten : t.unwritten = s.unwritten := by
    rw [TakingState.unwritten, hproc]
    rfl
  constructor
  · intro c
    rw [hemus, hunwritten, hdata]
    exact h.data c
  · intro c hc
    rw [hemus, hunwritten]
    exact h.padding c hc

theorem OnWay.gather (h : OnWay cfg emus rxRings s) (hstep : cfg.gather s = some s') :
    OnWay cfg emus rxRings s' := by
  unfold DataTaking.gather at hstep
  split at hstep
  · rename_i hgathering
    cases hstep
    refine h.move rfl rfl fun chn => ?_
    cases s.trigProcRunning <;> simp [TakingState.received, hgathering]
  · rename_i c rest hgathering
    cases hstep
    refine h.move rfl rfl fun chn => ?_
    cases isEmpty s c <;> simp [TakingState.received, hgathering]
  · rename_i hgathering
    cases hstep
    refine h.move rfl rfl fun chn => ?_
    simp [TakingState.received, hgathering]
  · rename_i triggerIsDone c rest newData hgathering
    split at hstep
    · cases hstep
      refine h.move rfl rfl fun chn => ?_
      simp [TakingState.received, hgathering]
    · cases hstep
      refine h.move rfl rfl fun chn => ?_
      simp only [TakingState.received, hgathering]
      rw [← List.append_assoc, dataOf_append, dataOf_singleton]
      by_cases hc : c = chn
      · subst hc
        simp
      · simp [hc, Function.update_of_ne (Ne.symm hc)]
  · rename_i triggerIsDone newData hgathering
    cases hstep
    refine h.move rfl rfl fun chn => ?_
    cases triggerIsDone <;>
      simp [TakingState.received, hgathering, StdDataGatherer.chunksRead]
  · cases hstep

/-! ## What the gatherer knows -/

theorem knows_start (cfg : DataTaking) (emus : UInt32 → EmuThread)
    (rxRings : UInt32 → List UInt32) : Knows cfg (cfg.start emus rxRings) where
  flag h := by cases h
  empty _ h := by cases h
  read _ _ h := by cases h
  done h := by cases h

theorem spent_emulate {chn c : UInt32} (hstep : cfg.emulate s chn = some s')
    (h : (s.emus c).Spent) : (s'.emus c).Spent ∧ s'.rxRings c = s.rxRings c := by
  rcases Option.map_eq_some_iff.mp hstep with ⟨⟨t, out⟩, ht, rfl⟩
  by_cases hc : c = chn
  · subst hc
    rcases h.step ht with ⟨hspent, rfl⟩
    simpa using hspent
  · simpa [Function.update_of_ne hc] using h

theorem emulate_frame {chn : UInt32} (hstep : cfg.emulate s chn = some s') :
    s'.gathering = s.gathering ∧ s'.triggerProc = s.triggerProc ∧
      s'.trigProcRunning = s.trigProcRunning ∧ s'.results = s.results := by
  rcases Option.map_eq_some_iff.mp hstep with ⟨⟨t, out⟩, -, rfl⟩
  exact ⟨rfl, rfl, rfl, rfl⟩

theorem Knows.emulate {chn : UInt32} (h : Knows cfg s)
    (hstep : cfg.emulate s chn = some s') : Knows cfg s' := by
  rcases emulate_frame hstep with ⟨hgathering, hproc, hrunning, -⟩
  constructor
  · rw [hrunning, hproc]
    exact h.flag
  · intro rest
    rw [hgathering, hproc]
    intro hrest
    rcases h.empty rest hrest with ⟨hfinished, hempty⟩
    refine ⟨hfinished, fun c hc => (hempty c hc).imp id fun hspent => ?_⟩
    exact (spent_emulate hstep hspent).1
  · intro rest newData
    rw [hgathering, hproc]
    intro hread
    rcases h.read rest newData hread with ⟨hfinished, hread⟩
    refine ⟨hfinished, fun c hc => ?_⟩
    rcases hread c hc with ⟨hspent, hrings⟩
    rcases spent_emulate hstep hspent with ⟨hspent', hsame⟩
    rw [hsame]
    exact ⟨hspent', hrings⟩
  · rw [hgathering, hproc]
    intro hdone
    rcases h.done hdone with ⟨hfinished, hdone⟩
    refine ⟨hfinished, fun c hc => ?_⟩
    rcases hdone c hc with ⟨hspent, hrings⟩
    rcases spent_emulate hstep hspent with ⟨hspent', hsame⟩
    rw [hsame]
    exact ⟨hspent', hrings⟩

theorem Knows.trigger (h : Knows cfg s) (hstep : cfg.trigger s = some s') : Knows cfg s' := by
  have hworking : s.triggerProc ≠ .finished := by
    intro hfinished
    rw [DataTaking.trigger, hfinished] at hstep
    cases hstep
  have hgathering : s'.gathering = s.gathering := by
    unfold DataTaking.trigger at hstep
    split at hstep <;> cases hstep <;> rfl
  have hflag : s'.trigProcRunning = false → s'.triggerProc = .finished := by
    unfold DataTaking.trigger at hstep
    split at hstep
    · cases hstep
      exact fun hoff => absurd (h.flag hoff) hworking
    · cases hstep
      exact fun hoff => absurd (h.flag hoff) hworking
    · cases hstep
      exact fun hoff => absurd (h.flag hoff) hworking
    · cases hstep
      exact fun _ => rfl
    · cases hstep
  constructor
  · exact hflag
  · intro rest hrest
    exact absurd (h.empty rest (hgathering.symm.trans hrest)).1 hworking
  · intro rest newData hread
    exact absurd (h.read rest newData (hgathering.symm.trans hread)).1 hworking
  · intro hdone
    exact absurd (h.done (hgathering.symm.trans hdone)).1 hworking

theorem Knows.gather (h : Knows cfg s) (hway : OnWay cfg emus rxRings s)
    (hstep : cfg.gather s = some s') : Knows cfg s' := by
  -- a gatherer that reads before it has seen that the triggers are done
  have hunsure : ∀ rest newData,
      Knows cfg { s with gathering := .readData false rest newData } := fun rest newData =>
    ⟨h.flag, fun _ hrest => (by cases hrest), fun _ _ hread => (by cases hread),
      fun hdone => (by cases hdone)⟩
  unfold DataTaking.gather at hstep
  split at hstep
  · rename_i hgathering
    cases hstep
    cases hrunning : s.trigProcRunning with
    | true =>
        rw [if_pos rfl, ← hrunning]
        exact hunsure _ _
    | false =>
        rw [if_neg Bool.false_ne_true, ← hrunning]
        refine ⟨h.flag, fun rest hrest => ?_, fun _ _ hread => (by cases hread),
          fun hdone => (by cases hdone)⟩
        rw [← Gathering.isCmdEmpty.inj hrest]
        exact ⟨h.flag hrunning, fun chn hchn => Or.inl hchn⟩
  · rename_i c rest hgathering
    cases hstep
    rcases h.empty _ hgathering with ⟨hfinished, hempty⟩
    cases hring : isEmpty s c with
    | true =>
        rw [if_pos rfl]
        refine ⟨h.flag, fun rest' hrest => ?_, fun _ _ hread => (by cases hread),
          fun hdone => (by cases hdone)⟩
        rw [← Gathering.isCmdEmpty.inj hrest]
        refine ⟨hfinished, fun chn hchn => ?_⟩
        rcases hempty chn hchn with hmem | hspent
        · rcases List.mem_cons.mp hmem with rfl | hmem
          · -- all words for the channel are written, the padding as the last
            have hnone : wordsOn chn s.unwritten = [] := by
              rw [TakingState.unwritten, hfinished]
              rfl
            rcases hway.padding chn hchn with ⟨words, hwords⟩ | ⟨-, hpadded⟩
            · rw [hnone] at hwords
              exact absurd hwords.symm (List.append_ne_nil_of_right_ne_nil _ (by simp))
            · exact Or.inr (hpadded.spent (List.isEmpty_iff.mp hring))
          · exact Or.inl hmem
        · exact Or.inr hspent
    | false =>
        rw [if_neg Bool.false_ne_true]
        exact hunsure _ _
  · rename_i hgathering
    cases hstep
    rcases h.empty _ hgathering with ⟨hfinished, hempty⟩
    refine ⟨h.flag, fun rest hrest => (by cases hrest), fun rest newData hread => ?_,
      fun hdone => (by cases hdone)⟩
    refine ⟨hfinished, fun chn hchn => ⟨?_, fun hrx => ?_⟩⟩
    · exact (hempty chn hchn).resolve_left List.not_mem_nil
    · cases hread
      exact Or.inl hrx
  · rename_i triggerIsDone c rest newData hgathering
    cases triggerIsDone with
    | false =>
        split at hstep
        · cases hstep
          exact hunsure _ _
        · cases hstep
          exact ⟨h.flag, fun _ hrest => (by cases hrest), fun _ _ hread => (by cases hread),
            fun hdone => (by cases hdone)⟩
    | true =>
        rcases h.read _ _ hgathering with ⟨hfinished, hread⟩
        split at hstep
        · rename_i hring
          cases hstep
          refine ⟨h.flag, fun rest hrest => (by cases hrest), fun rest' newData' hread' => ?_,
            fun hdone => (by cases hdone)⟩
          cases hread'
          refine ⟨hfinished, fun chn hchn => ⟨(hread chn hchn).1, fun hrx => ?_⟩⟩
          rcases (hread chn hchn).2 hrx with hmem | hnone
          · rcases List.mem_cons.mp hmem with rfl | hmem
            · exact Or.inr (List.isEmpty_iff.mp hring)
            · exact Or.inl hmem
          · exact Or.inr hnone
        · cases hstep
          refine ⟨h.flag, fun rest hrest => (by cases hrest), fun rest' newData' hread' => ?_,
            fun hdone => (by cases hdone)⟩
          cases hread'
          refine ⟨hfinished, fun chn hchn => ⟨(hread chn hchn).1, fun hrx => ?_⟩⟩
          by_cases hc : chn = c
          · subst hc
            exact Or.inr (Function.update_self _ _ _)
          · simp only [Function.update_of_ne hc]
            rcases (hread chn hchn).2 hrx with hmem | hnone
            · exact Or.inl ((List.mem_cons.mp hmem).resolve_left hc)
            · exact Or.inr hnone
  · rename_i triggerIsDone newData hgathering
    cases hstep
    cases triggerIsDone with
    | false =>
        exact ⟨h.flag, fun _ hrest => (by cases hrest), fun _ _ hread => (by cases hread),
          fun hdone => (by cases hdone)⟩
    | true =>
        rcases h.read _ _ hgathering with ⟨hfinished, hread⟩
        refine ⟨h.flag, fun rest hrest => (by cases hrest), fun _ _ hread => (by cases hread),
          fun _ => ⟨hfinished, fun chn hchn => ⟨(hread chn hchn).1, fun hrx => ?_⟩⟩⟩
        exact ((hread chn hchn).2 hrx).resolve_left List.not_mem_nil
  · cases hstep

/-! ## The results of the passes -/

theorem Passed.same (h : Passed s) (hgathering : s'.gathering = s.gathering)
    (hresults : s'.results = s.results) : Passed s' := by
  constructor
  · rw [hgathering, hresults]
    exact h.going
  · rw [hgathering, hresults]
    exact h.last

theorem Passed.gather (h : Passed s) (hstep : cfg.gather s = some s') : Passed s' := by
  -- a step within a pass
  have hwithin : ∀ t : TakingState, t.results = s.results → s.gathering ≠ .finished →
      t.gathering ≠ .finished → Passed t := by
    intro t hresults hgoing hgoing'
    refine ⟨fun _ => ?_, fun hdone => absurd hdone hgoing'⟩
    rw [hresults]
    exact h.going hgoing
  unfold DataTaking.gather at hstep
  split at hstep
  · rename_i hgathering
    cases hstep
    refine hwithin _ rfl (by simp [hgathering]) ?_
    cases s.trigProcRunning <;> exact fun hdone => by cases hdone
  · rename_i c rest hgathering
    cases hstep
    refine hwithin _ rfl (by simp [hgathering]) ?_
    cases isEmpty s c <;> exact fun hdone => by cases hdone
  · rename_i hgathering
    cases hstep
    exact hwithin _ rfl (by simp [hgathering]) fun hdone => by cases hdone
  · rename_i triggerIsDone c rest newData hgathering
    split at hstep
    · cases hstep
      exact hwithin _ rfl (by simp [hgathering]) fun hdone => by cases hdone
    · cases hstep
      exact hwithin _ rfl (by simp [hgathering]) fun hdone => by cases hdone
  · rename_i triggerIsDone newData hgathering
    have hgoing := h.going (by simp [hgathering])
    cases hstep
    cases triggerIsDone with
    | false =>
        refine ⟨fun _ r hr => ?_, fun hdone => by cases hdone⟩
        rcases List.mem_append.mp hr with hold | hnew
        · exact hgoing r hold
        · rw [List.mem_singleton.mp hnew]
    | true => exact ⟨fun hgo => absurd rfl hgo, fun _ => ⟨s.results, _, rfl, rfl, hgoing⟩⟩
  · cases hstep

/-! ## Whole runs -/

/-- What holds in every state of a run. -/
structure Sound (cfg : DataTaking) (emus : UInt32 → EmuThread) (rxRings : UInt32 → List UInt32)
    (s : TakingState) : Prop where
  way : OnWay cfg emus rxRings s
  knows : Knows cfg s
  passed : Passed s

theorem Sound.step {thread : Thread} (h : Sound cfg emus rxRings s)
    (hstep : cfg.step s thread = some s') : Sound cfg emus rxRings s' := by
  cases thread with
  | emulator chn =>
      rcases emulate_frame hstep with ⟨hgathering, -, -, hresults⟩
      exact ⟨h.way.emulate hstep, h.knows.emulate hstep, h.passed.same hgathering hresults⟩
  | triggerProc =>
      have hsame : s'.gathering = s.gathering ∧ s'.results = s.results := by
        change cfg.trigger s = some s' at hstep
        unfold DataTaking.trigger at hstep
        split at hstep <;> cases hstep <;> exact ⟨rfl, rfl⟩
      exact ⟨h.way.trigger hstep, h.knows.trigger hstep, h.passed.same hsame.1 hsame.2⟩
  | gatherer =>
      exact ⟨h.way.gather hstep, h.knows.gather h.way hstep, h.passed.gather hstep⟩

theorem sound_run (cfg : DataTaking) (emus : UInt32 → EmuThread)
    (rxRings : UInt32 → List UInt32) {turns : List Thread}
    (hrun : cfg.run (cfg.start emus rxRings) turns = some s) : Sound cfg emus rxRings s := by
  have hloop : ∀ (turns : List Thread) (t : TakingState), Sound cfg emus rxRings t →
      turns.foldlM cfg.step t = some s → Sound cfg emus rxRings s := by
    intro turns
    induction turns with
    | nil =>
        intro t ht hrun
        cases hrun
        exact ht
    | cons thread turns ih =>
        intro t ht hrun
        rw [List.foldlM_cons] at hrun
        rcases Option.bind_eq_some_iff.mp hrun with ⟨t', hstep, hrest⟩
        exact ih t' (ht.step hstep) hrest
  refine hloop turns _ ⟨onWay_start _ _ _, knows_start _ _ _, ?_⟩ hrun
  exact ⟨fun _ r hr => absurd hr List.not_mem_nil, fun hdone => by cases hdone⟩

/--
When the read behind the end of the triggers is done, all that the emulator of a
channel ever answers to the words for it has been returned, and the gatherer
pushes all that was returned.
-/
theorem data_complete (cfg : DataTaking) (emus : UInt32 → EmuThread)
    (rxRings : UInt32 → List UInt32) (turns : List Thread) {s : TakingState}
    (hrun : cfg.run (cfg.start emus rxRings) turns = some s)
    (hfinished : s.gathering = .finished) :
    (∀ chn ∈ cfg.tx, chn ∈ cfg.rx → s.rxRings chn = [] ∧ ∃ answer,
      EmuThread.Answers (cfg.w chn) ((emus chn).send (wordsOn chn cfg.doTrigger)) answer ∧
      dataOf chn (s.results.flatMap PassResults.newData) = rxRings chn ++ answer) ∧
    ∀ {FrontEnd : Type} [DecidableEq FrontEnd] (fes : List (FrontEnd × FrontEndConnectivity))
      (record : LoopStatus) (gatherer : StdDataGatherer),
      ∃ clips, StdDataGatherer.execPart2 (.ofFrontEnds fes) record gatherer s.results
          = .ok (clips, []) ∧
        ∀ id < (Bookkeeper.ofFrontEnds fes).getNumOfEntries, ∃ body,
          clips id = body ++ [some .iterEnd] ∧ chunksOf body
            = chunksFor (.ofFrontEnds fes) id (s.results.flatMap PassResults.newData) := by
  have hsound := sound_run cfg emus rxRings hrun
  rcases hsound.knows.done hfinished with ⟨hproc, hdone⟩
  constructor
  · intro chn htx hrx
    rcases hdone chn htx with ⟨hspent, hring⟩
    rcases hsound.way.data chn with ⟨data, hsteps, hdata⟩
    have hnone : s.unwritten = [] := by rw [TakingState.unwritten, hproc]
    have hreceived : s.received = s.results.flatMap PassResults.newData := by
      rw [TakingState.received, hfinished, List.append_nil]
      rfl
    rw [hnone, show wordsOn chn [] = [] from rfl, EmuThread.send_nil] at hsteps
    rw [hreceived, hring hrx, List.append_nil] at hdata
    exact ⟨hring hrx, data, hsteps.answers hspent, hdata⟩
  · intro FrontEnd _ fes record gatherer
    rcases hsound.passed.last hfinished with ⟨results, last, hresults, hlast, hgoing⟩
    rw [hresults]
    exact StdDataGatherer.execPart2_whole gatherer (routes_ofFrontEnds fes) hgoing hlast

def TakingState.isFinished (s : TakingState) : Bool :=
  match s.gathering with
  | .finished => true
  | _ => false

/-- One channel, one trigger, and a front-end without hits. -/
def oneTrigger : DataTaking where
  tx := [0]
  rx := [0]
  m_trigCnt := 1
  trigWord := [0x2b6a6969]
  w := fun _ => ⟨fun _ => Vector.replicate _ 0, fun _ => []⟩

/-- An emulator that waits for its first word. -/
def idle : EmuThread where
  emu := ⟨[], [], 0, 0, 0, 0, [], [], [], []⟩
  stage := .top

/-- The first read comes while the trigger is handled, and the last one when the padding was
taken, but not handled. -/
def lateTurns : List Thread :=
  List.replicate 3 .triggerProc ++ List.replicate 3 (.emulator 0) ++ List.replicate 3 .gatherer ++
    List.replicate 12 (.emulator 0) ++ List.replicate 2 .triggerProc ++ List.replicate 5 .gatherer

theorem oneTrigger_complete : ∃ s, oneTrigger.run (oneTrigger.start (fun _ => idle) fun _ => [])
    lateTurns = some s ∧ ∃ answer,
      EmuThread.Answers (oneTrigger.w 0) (idle.send (wordsOn 0 oneTrigger.doTrigger)) answer ∧
      dataOf 0 (s.results.flatMap PassResults.newData) = answer := by
  have hrun : (oneTrigger.run (oneTrigger.start (fun _ => idle) fun _ => []) lateTurns).any
      TakingState.isFinished = true := by decide +kernel
  rcases (Option.any_eq_true _ _).mp hrun with ⟨s, hs, hdone⟩
  have hfinished : s.gathering = .finished := by
    unfold TakingState.isFinished at hdone
    split at hdone
    · assumption
    · cases hdone
  have hcomplete := data_complete oneTrigger (fun _ => idle) (fun _ => []) lateTurns hs hfinished
  rcases hcomplete.1 0 List.mem_cons_self List.mem_cons_self with ⟨-, answer, hanswers, hdata⟩
  exact ⟨s, hs, answer, hanswers, hdata⟩

end DataTaking

end Yarr.Rd53aEmu
