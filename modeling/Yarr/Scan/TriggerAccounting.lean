import Yarr.Core.Invariant
import Yarr.Scan.StdDataLoop

/-!
# The triggers that the data loop counts

A data processor answers each decoded event through a queue of its own. The
data loop empties the queue once, at the end of a call, while the processor may
still be at work on containers of this call.
-/

namespace Yarr.Scan.StdDataLoop

open Script

/-! ## The processors beside the loop -/

/-- What comes of an event, with the call in which its container was pushed. -/
abbrev Answer := Nat × FeedbackProcessingInfo

/-- A front-end: its containers, the rest of the container that is worked on, and the queue of
answers. A container is the list of what its events come to. -/
structure Side where
  clipRawData : List (List Answer)
  work : List Answer
  clipProcFeedback : List Answer
  channelReceivedTriggersCnt : UInt32
  /-- The calls of the events behind the counter. -/
  counted : List Nat

/-- What the processor has not answered yet. -/
def Side.toCome (side : Side) : List Answer := side.work ++ side.clipRawData.flatten

inductive Phase where
  | idle
  | running
  | closing (ids : List Nat)

structure Traffic where
  phase : Phase
  call : Nat
  activeChannels : Finset Nat
  side : Nat → Side

inductive Action where
  | start
  | push (id : Nat) (infos : List FeedbackProcessingInfo)
  | popFeedback (id : Nat)
  | close
  | reset
  | finish
  | popRaw (id : Nat)
  | pushFeedback (id : Nat)

namespace Traffic

def initial : Traffic := ⟨.idle, 0, ∅, fun _ => ⟨[], [], [], 0, []⟩⟩

def update (s : Traffic) (id : Nat) (side : Side) : Traffic :=
  { s with side := Function.update s.side id side }

/-- The counter goes up for an answer with a trigger tag. -/
def count (side : Side) (answer : Answer) : Side :=
  if answer.2.trigger_tag ≥ 0 then
    { side with
      channelReceivedTriggersCnt := side.channelReceivedTriggersCnt + 1
      counted := side.counted ++ [answer.1] }
  else side

/-! ### The loop -/

def start (s : Traffic) : Option Traffic :=
  match s.phase with
  | .idle => some
      { phase := .running
        call := s.call + 1
        activeChannels := ∅
        side := fun id => { s.side id with channelReceivedTriggersCnt := 0, counted := [] } }
  | _ => none

def push (n : Nat) (s : Traffic) (id : Nat) (infos : List FeedbackProcessingInfo) :
    Option Traffic :=
  match s.phase with
  | .running =>
      if id < n then
        some { s.update id { s.side id with
            clipRawData := (s.side id).clipRawData ++ [infos.map fun info => (s.call, info)] } with
          activeChannels := insert id s.activeChannels }
      else none
  | _ => none

def popFeedback (s : Traffic) (id : Nat) : Option Traffic :=
  match s.phase, (s.side id).clipProcFeedback with
  | .running, answer :: rest =>
      if id ∈ s.activeChannels then
        some (s.update id (count { s.side id with clipProcFeedback := rest } answer))
      else none
  | _, _ => none

def close (n : Nat) (s : Traffic) : Option Traffic :=
  match s.phase with
  | .running => some { s with phase := .closing (List.range n) }
  | _ => none

/-- The end of iteration marker is a container without events. -/
def reset (s : Traffic) : Option Traffic :=
  match s.phase with
  | .closing (id :: ids) =>
      some { s.update id { s.side id with
          clipRawData := (s.side id).clipRawData ++ [[]]
          clipProcFeedback := [] } with
        phase := .closing ids }
  | _ => none

def finish (s : Traffic) : Option Traffic :=
  match s.phase with
  | .closing [] => some { s with phase := .idle }
  | _ => none

/-! ### The processors -/

def popRaw (s : Traffic) (id : Nat) : Option Traffic :=
  match (s.side id).work, (s.side id).clipRawData with
  | [], container :: rest =>
      some (s.update id { s.side id with clipRawData := rest, work := container })
  | _, _ => none

def pushFeedback (s : Traffic) (id : Nat) : Option Traffic :=
  match (s.side id).work with
  | answer :: rest =>
      some (s.update id { s.side id with
        work := rest
        clipProcFeedback := (s.side id).clipProcFeedback ++ [answer] })
  | [] => none

/-- The loop takes the steps of its calls in their order, each processor takes its own steps in
between. -/
def step (n : Nat) (s : Traffic) : Action → Option Traffic
  | .start => s.start
  | .push id infos => push n s id infos
  | .popFeedback id => s.popFeedback id
  | .close => close n s
  | .reset => s.reset
  | .finish => s.finish
  | .popRaw id => s.popRaw id
  | .pushFeedback id => s.pushFeedback id

/-! ## What is to hold -/

/-- The counters have the events of this call only. -/
def CountsOwn (s : Traffic) : Prop :=
  ∀ id, (s.side id).channelReceivedTriggersCnt = UInt32.ofNat (s.side id).counted.length ∧
    ∀ call ∈ (s.side id).counted, call = s.call

/-- The queue is emptied when the processor has nothing left to answer. -/
def Fits (s : Traffic) : Action → Prop
  | .reset =>
      match s.phase with
      | .closing (id :: _) => (s.side id).toCome = []
      | _ => True
  | _ => True

/-! ## Nothing of an earlier call -/

/-- The front-ends whose queues are still to be emptied. -/
def Open (n : Nat) (id : Nat) : Phase → Prop
  | .idle => False
  | .running => id < n
  | .closing ids => id ∈ ids

/-- The invariant: all that is on its way is of this call, and there is nothing on its way for the
front-ends whose queues have been emptied. -/
structure Tidy (n : Nat) (s : Traffic) : Prop where
  ofCall : ∀ id, ∀ answer ∈ (s.side id).toCome ++ (s.side id).clipProcFeedback, answer.1 = s.call
  empty : ∀ id, ¬Open n id s.phase →
    (s.side id).toCome = [] ∧ (s.side id).clipProcFeedback = []
  counts : CountsOwn s

@[simp] theorem update_side_self (s : Traffic) (id : Nat) (side : Side) :
    (s.update id side).side id = side := Function.update_self ..

theorem update_side_of_ne (s : Traffic) {id id' : Nat} (hne : id' ≠ id) (side : Side) :
    (s.update id side).side id' = s.side id' := Function.update_of_ne hne ..

theorem Tidy.update {n : Nat} {s : Traffic} (htidy : Tidy n s) {id : Nat} {side : Side}
    {phase : Phase} {activeChannels : Finset Nat}
    (hofCall : ∀ answer ∈ side.toCome ++ side.clipProcFeedback, answer.1 = s.call)
    (hempty : ¬Open n id phase → side.toCome = [] ∧ side.clipProcFeedback = [])
    (hphase : ∀ id', id' ≠ id → Open n id' s.phase → Open n id' phase)
    (hcounts : side.channelReceivedTriggersCnt = UInt32.ofNat side.counted.length ∧
      ∀ call ∈ side.counted, call = s.call) :
    Tidy n { s.update id side with phase := phase, activeChannels := activeChannels } := by
  constructor
  · intro id'
    by_cases heq : id' = id
    · subst heq
      show ∀ answer ∈ ((s.update id' side).side id').toCome ++ _, _
      rw [update_side_self]
      exact hofCall
    · show ∀ answer ∈ ((s.update id side).side id').toCome ++ _, _
      rw [update_side_of_ne s heq]
      exact htidy.ofCall id'
  · intro id' hclosed
    by_cases heq : id' = id
    · subst heq
      show ((s.update id' side).side id').toCome = [] ∧ _
      rw [update_side_self]
      exact hempty hclosed
    · show ((s.update id side).side id').toCome = [] ∧ _
      rw [update_side_of_ne s heq]
      exact htidy.empty id' fun hopen => hclosed (hphase id' heq hopen)
  · intro id'
    by_cases heq : id' = id
    · subst heq
      show ((s.update id' side).side id').channelReceivedTriggersCnt = _ ∧ _
      rw [update_side_self]
      exact hcounts
    · show ((s.update id side).side id').channelReceivedTriggersCnt = _ ∧ _
      rw [update_side_of_ne s heq]
      exact htidy.counts id'

/-- The loop's counter takes an answer as `countTriggers` does. -/
theorem count_cnt (side : Side) (answer : Answer) :
    (count side answer).channelReceivedTriggersCnt =
      countTriggers side.channelReceivedTriggersCnt answer.2 := by
  unfold count countTriggers
  split
  · rfl
  · rfl

theorem tidy_initial (n : Nat) : Tidy n initial where
  ofCall _ _ hmem := absurd hmem List.not_mem_nil
  empty _ _ := ⟨rfl, rfl⟩
  counts _ := ⟨rfl, fun _ hmem => absurd hmem List.not_mem_nil⟩

theorem counts_count {s : Traffic} {side : Side} {answer : Answer}
    (hcounts : side.channelReceivedTriggersCnt = UInt32.ofNat side.counted.length ∧
      ∀ call ∈ side.counted, call = s.call) (hcall : answer.1 = s.call) :
    (count side answer).channelReceivedTriggersCnt =
        UInt32.ofNat (count side answer).counted.length ∧
      ∀ call ∈ (count side answer).counted, call = s.call := by
  rw [count_cnt]
  unfold count countTriggers
  split
  · constructor
    · show side.channelReceivedTriggersCnt + 1 = _
      rw [hcounts.1, List.length_append, List.length_singleton, UInt32.ofNat_add]
      rfl
    · intro call hmem
      rcases List.mem_append.mp hmem with hmem | hmem
      · exact hcounts.2 call hmem
      · rw [List.mem_singleton.mp hmem]
        exact hcall
  · exact hcounts

theorem count_toCome (side : Side) (answer : Answer) :
    (count side answer).toCome = side.toCome ∧
      (count side answer).clipProcFeedback = side.clipProcFeedback := by
  unfold count
  split
  · exact ⟨rfl, rfl⟩
  · exact ⟨rfl, rfl⟩

theorem tidy_start {n : Nat} {s s' : Traffic} (htidy : Tidy n s)
    (hstep : s.start = some s') : Tidy n s' := by
  unfold start at hstep
  cases hphase : s.phase with
  | idle =>
      rw [hphase] at hstep
      cases hstep
      have hempty : ∀ id, (s.side id).toCome = [] ∧ (s.side id).clipProcFeedback = [] := by
        intro id
        apply htidy.empty id
        rw [hphase]
        exact not_false
      refine ⟨?_, fun id _ => hempty id, fun _ => ⟨rfl, fun _ hmem => by cases hmem⟩⟩
      intro id answer hmem
      have hmem' : answer ∈ (s.side id).toCome ++ (s.side id).clipProcFeedback := hmem
      rw [(hempty id).1, (hempty id).2] at hmem'
      cases hmem'
  | running =>
      rw [hphase] at hstep
      cases hstep
  | closing ids =>
      rw [hphase] at hstep
      cases hstep

theorem tidy_push {n : Nat} {s s' : Traffic} {id : Nat} {infos : List FeedbackProcessingInfo}
    (htidy : Tidy n s) (hstep : push n s id infos = some s') : Tidy n s' := by
  unfold push at hstep
  cases hphase : s.phase with
  | running =>
      rw [hphase] at hstep
      by_cases hid : id < n
      · simp only [if_pos hid] at hstep
        cases hstep
        refine @Tidy.update n s htidy id _ s.phase _ ?_ ?_ (fun _ _ hopen => hopen)
          (htidy.counts id)
        · intro answer hmem
          simp only [Side.toCome, List.flatten_append, List.flatten_singleton, List.mem_append,
            List.mem_map] at hmem
          have hbefore := htidy.ofCall id answer
          simp only [Side.toCome, List.mem_append] at hbefore
          rcases hmem with (hwork | hraw | ⟨info, _, rfl⟩) | hqueue
          · exact hbefore (Or.inl (Or.inl hwork))
          · exact hbefore (Or.inl (Or.inr hraw))
          · rfl
          · exact hbefore (Or.inr hqueue)
        · intro hclosed
          rw [hphase] at hclosed
          exact absurd hid hclosed
      · simp only [if_neg hid] at hstep
        cases hstep
  | idle =>
      rw [hphase] at hstep
      cases hstep
  | closing ids =>
      rw [hphase] at hstep
      cases hstep

theorem tidy_popFeedback {n : Nat} {s s' : Traffic} {id : Nat} (htidy : Tidy n s)
    (hstep : s.popFeedback id = some s') : Tidy n s' := by
  unfold popFeedback at hstep
  cases hphase : s.phase with
  | running =>
      cases hqueue : (s.side id).clipProcFeedback with
      | nil =>
          rw [hphase, hqueue] at hstep
          cases hstep
      | cons answer rest =>
          rw [hphase, hqueue] at hstep
          by_cases hid : id ∈ s.activeChannels
          · simp only [if_pos hid] at hstep
            cases hstep
            have hbefore := htidy.ofCall id
            rw [hqueue] at hbefore
            have hcall : answer.1 = s.call :=
              hbefore answer (List.mem_append_right _ List.mem_cons_self)
            obtain ⟨hcome, hrest⟩ :=
              count_toCome { s.side id with clipProcFeedback := rest } answer
            refine @Tidy.update n s htidy id _ s.phase _ ?_ ?_ (fun _ _ hopen => hopen)
              (counts_count (htidy.counts id) hcall)
            · rw [hcome, hrest]
              intro other hmem
              apply hbefore other
              rcases List.mem_append.mp hmem with hmem | hmem
              · exact List.mem_append_left _ hmem
              · exact List.mem_append_right _ (List.mem_cons_of_mem _ hmem)
            · intro hclosed
              have hnone := (htidy.empty id hclosed).2
              rw [hqueue] at hnone
              cases hnone
          · simp only [if_neg hid] at hstep
            cases hstep
  | idle =>
      rw [hphase] at hstep
      cases hstep
  | closing ids =>
      rw [hphase] at hstep
      cases hstep

theorem tidy_close {n : Nat} {s s' : Traffic} (htidy : Tidy n s)
    (hstep : close n s = some s') : Tidy n s' := by
  unfold close at hstep
  cases hphase : s.phase with
  | running =>
      rw [hphase] at hstep
      cases hstep
      refine ⟨htidy.ofCall, ?_, htidy.counts⟩
      intro id hclosed
      apply htidy.empty id
      rw [hphase]
      intro hid
      exact hclosed (List.mem_range.mpr hid)
  | idle =>
      rw [hphase] at hstep
      cases hstep
  | closing ids =>
      rw [hphase] at hstep
      cases hstep

theorem tidy_reset {n : Nat} {s s' : Traffic} (htidy : Tidy n s) (hfits : Fits s .reset)
    (hstep : s.reset = some s') : Tidy n s' := by
  unfold reset at hstep
  unfold Fits at hfits
  cases hphase : s.phase with
  | closing ids =>
      cases ids with
      | nil =>
          rw [hphase] at hstep
          cases hstep
      | cons id ids =>
          rw [hphase] at hstep hfits
          cases hstep
          have hnone : (s.side id).toCome = [] := hfits
          have hcome : ({ s.side id with
              clipRawData := (s.side id).clipRawData ++ [[]]
              clipProcFeedback := [] } : Side).toCome = [] := by
            unfold Side.toCome at hnone ⊢
            simpa using hnone
          refine htidy.update ?_ (fun _ => ⟨hcome, rfl⟩) ?_ (htidy.counts id)
          · rw [hcome]
            intro answer hmem
            cases hmem
          · intro id' hne hopen
            rw [hphase] at hopen
            exact (List.mem_cons.mp hopen).resolve_left hne
  | idle =>
      rw [hphase] at hstep
      cases hstep
  | running =>
      rw [hphase] at hstep
      cases hstep

theorem tidy_finish {n : Nat} {s s' : Traffic} (htidy : Tidy n s)
    (hstep : s.finish = some s') : Tidy n s' := by
  unfold finish at hstep
  cases hphase : s.phase with
  | closing ids =>
      cases ids with
      | nil =>
          rw [hphase] at hstep
          cases hstep
          refine ⟨htidy.ofCall, ?_, htidy.counts⟩
          intro id _
          apply htidy.empty id
          rw [hphase]
          exact List.not_mem_nil
      | cons id ids =>
          rw [hphase] at hstep
          cases hstep
  | idle =>
      rw [hphase] at hstep
      cases hstep
  | running =>
      rw [hphase] at hstep
      cases hstep

theorem tidy_popRaw {n : Nat} {s s' : Traffic} {id : Nat} (htidy : Tidy n s)
    (hstep : s.popRaw id = some s') : Tidy n s' := by
  unfold popRaw at hstep
  cases hwork : (s.side id).work with
  | nil =>
      cases hraw : (s.side id).clipRawData with
      | nil =>
          rw [hwork, hraw] at hstep
          cases hstep
      | cons container rest =>
          rw [hwork, hraw] at hstep
          cases hstep
          have hcome : ({ s.side id with clipRawData := rest, work := container } : Side).toCome =
              (s.side id).toCome := by
            unfold Side.toCome
            rw [hwork, hraw]
            rfl
          refine @Tidy.update n s htidy id _ s.phase _ ?_ ?_ (fun _ _ hopen => hopen)
            (htidy.counts id)
          · rw [hcome]
            exact htidy.ofCall id
          · rw [hcome]
            exact htidy.empty id
  | cons answer rest =>
      rw [hwork] at hstep
      cases hstep

theorem tidy_pushFeedback {n : Nat} {s s' : Traffic} {id : Nat} (htidy : Tidy n s)
    (hstep : s.pushFeedback id = some s') : Tidy n s' := by
  unfold pushFeedback at hstep
  cases hwork : (s.side id).work with
  | nil =>
      rw [hwork] at hstep
      cases hstep
  | cons answer rest =>
      rw [hwork] at hstep
      cases hstep
      refine @Tidy.update n s htidy id _ s.phase _ ?_ ?_ (fun _ _ hopen => hopen) (htidy.counts id)
      · intro other hmem
        apply htidy.ofCall id other
        unfold Side.toCome at hmem ⊢
        rw [hwork]
        simp only [List.mem_append, List.mem_cons, List.not_mem_nil, or_false] at hmem ⊢
        rcases hmem with (hrest | hraw) | hqueue | heq
        · exact Or.inl (Or.inl (Or.inr hrest))
        · exact Or.inl (Or.inr hraw)
        · exact Or.inr hqueue
        · exact Or.inl (Or.inl (Or.inl heq))
      · intro hclosed
        have hnone := (htidy.empty id hclosed).1
        unfold Side.toCome at hnone
        rw [hwork] at hnone
        cases hnone

theorem tidy_step {n : Nat} {s s' : Traffic} {action : Action} (htidy : Tidy n s)
    (hfits : Fits s action) (hstep : step n s action = some s') : Tidy n s' := by
  cases action with
  | start => exact tidy_start htidy hstep
  | push id infos => exact tidy_push htidy hstep
  | popFeedback id => exact tidy_popFeedback htidy hstep
  | close => exact tidy_close htidy hstep
  | reset => exact tidy_reset htidy hfits hstep
  | finish => exact tidy_finish htidy hstep
  | popRaw id => exact tidy_popRaw htidy hstep
  | pushFeedback id => exact tidy_pushFeedback htidy hstep

theorem tidy_run {n : Nat} (actions : List Action)
    (hfits : ∀ p a s, p ++ [a] <+: actions → p.foldlM (step n) initial = some s → Fits s a)
    {s : Traffic} (hrun : actions.foldlM (step n) initial = some s) : Tidy n s := by
  induction actions using List.reverseRecOn generalizing s with
  | nil =>
      cases hrun
      exact tidy_initial n
  | append_singleton actions a ih =>
      obtain ⟨s₀, hs₀, hstep⟩ := Invariant.foldlM_concat.mp hrun
      apply tidy_step (ih ?_ hs₀) (hfits actions a s₀ (List.prefix_refl _) hs₀) hstep
      intro p b s hp hs
      exact hfits p b s (hp.trans (List.prefix_append _ _)) hs

end Traffic

/-! ## The number of triggers that are waited for -/

/-- Without a trigger action the number stays as it is. -/
def init (loop : StdDataLoop) (expEvents : Option UInt32) (m_triggersLostTolerance : UInt32) :
    StdDataLoop :=
  match expEvents with
  | some expEvents =>
      { loop with ntriggersToReceive := expEvents - m_triggersLostTolerance }
  | none => loop

theorem required_iff (loop : StdDataLoop) (expEvents tolerance : UInt32) :
    (init loop (some expEvents) tolerance).ntriggersToReceive.toNat =
      expEvents.toNat - tolerance.toNat ↔ tolerance ≤ expEvents := by
  show (expEvents - tolerance).toNat = _ ↔ _
  have hexp := expEvents.toNat_lt
  have htol := tolerance.toNat_lt
  rw [UInt32.toNat_sub, UInt32.le_iff_toNat_le]
  omega

/-! ## The reports of a call -/

section Reports

variable {FrontEnd : Type} (keeper : Bookkeeper FrontEnd) (record : LoopStatus)
  (loop : StdDataLoop)

/-- The front-ends that a cycle reports. -/
def timedOut (r : CycleResults) (received : Nat → UInt32) : List Nat :=
  if r.thereIsStillTime then []
  else (List.range keeper.getNumOfEntries).filter fun id => received id < loop.ntriggersToReceive

/-- The reports of all cycles of a call. -/
def reports : List CycleResults → List Read → State → Except Stop (List Nat)
  | [], _, _ => .error .waiting
  | r :: results, reads, s =>
      (rxCycle keeper record loop r reads s).bind fun (s, receivingRxData, reads) =>
        let ids := timedOut keeper loop r s.channelReceivedTriggersCnt
        if receivingRxData then (reports results reads s).map (ids ++ ·) else .ok ids

/-- In some cycle the trigger is done and all the front-ends have delivered what is required, and
before that cycle there is time. -/
def InTime (required : Nat) : List CycleResults → List Read → State → Prop
  | [], _, _ => False
  | r :: results, reads, s => ∃ s' receivingRxData reads',
      rxCycle keeper record loop r reads s = .ok (s', receivingRxData, reads') ∧
      ((r.triggerIsDone = true ∧
          ∀ id < keeper.getNumOfEntries, required ≤ (s'.channelReceivedTriggersCnt id).toNat) ∨
        (r.thereIsStillTime = true ∧ InTime required results reads' s'))

variable {keeper record loop}

theorem receiving_eq {r : CycleResults} {reads reads' : List Read} {s s' : State} {again : Bool}
    (hcycle : rxCycle keeper record loop r reads s = .ok (s', again, reads')) :
    again = (!r.triggerIsDone || (r.thereIsStillTime &&
      !decide ((List.range keeper.getNumOfEntries).countP (fun id =>
        decide (s'.channelReceivedTriggersCnt id ≥ loop.ntriggersToReceive)) ≥
          keeper.getNumOfEntries))) := by
  unfold rxCycle at hcycle
  obtain ⟨_, _, hcycle⟩ := bind_eq_ok hcycle
  obtain ⟨_, _, hcycle⟩ := bind_eq_ok hcycle
  obtain ⟨_, _, hcycle⟩ := bind_eq_ok hcycle
  cases hcycle
  rfl

theorem quiet_of_inTime {required : Nat} (hrequired : loop.ntriggersToReceive.toNat = required)
    (results : List CycleResults) {reads : List Read} {s : State}
    (htime : InTime keeper record loop required results reads s) :
    reports keeper record loop results reads s = .ok [] := by
  induction results generalizing reads s with
  | nil => cases htime
  | cons r results ih =>
      obtain ⟨s', again, reads', hcycle, hend⟩ := htime
      unfold reports
      rw [hcycle]
      show (if again = true then (reports keeper record loop results reads' s').map _ else _) = _
      rcases hend with ⟨hdone, hall⟩ | ⟨htime, hnext⟩
      · have hreached : ∀ id ∈ List.range keeper.getNumOfEntries,
            s'.channelReceivedTriggersCnt id ≥ loop.ntriggersToReceive := by
          intro id hid
          rw [ge_iff_le, UInt32.le_iff_toNat_le, hrequired]
          exact hall id (List.mem_range.mp hid)
        have hcount : (List.range keeper.getNumOfEntries).countP (fun id =>
            decide (s'.channelReceivedTriggersCnt id ≥ loop.ntriggersToReceive)) =
              keeper.getNumOfEntries := by
          rw [List.countP_eq_length.mpr fun id hid => decide_eq_true (hreached id hid),
            List.length_range]
        have hagain := receiving_eq hcycle
        rw [hcount, hdone, decide_eq_true (Nat.le_refl _)] at hagain
        have hstop : again = false := by
          rw [hagain]
          cases r.thereIsStillTime with
          | false => rfl
          | true => rfl
        have hnone : timedOut keeper loop r s'.channelReceivedTriggersCnt = [] := by
          unfold timedOut
          split
          · rfl
          · rw [List.filter_eq_nil_iff]
            intro id hid hlt
            have hge := hreached id hid
            have hlt' : s'.channelReceivedTriggersCnt id < loop.ntriggersToReceive :=
              of_decide_eq_true hlt
            rw [ge_iff_le, UInt32.le_iff_toNat_le] at hge
            rw [UInt32.lt_iff_toNat_lt] at hlt'
            omega
        rw [hstop, if_neg Bool.false_ne_true, hnone]
      · have hnone : timedOut keeper loop r s'.channelReceivedTriggersCnt = [] := if_pos htime
        rw [hnone, ih hnext]
        cases again with
        | false => rfl
        | true => rfl

end Reports

/-! ## The whole claim -/

/-- One front-end that is silent. -/
def lone : Bookkeeper Unit := Bookkeeper.empty.addFeChannel () 0

/-- When the difference wraps, the silent front-end is reported although nothing is required. -/
theorem lone_reported {loop : StdDataLoop} (record : LoopStatus)
    (hrequired : 0 < loop.ntriggersToReceive) :
    reports lone record loop [⟨[fun _ => []], false, true⟩] [⟨[], 0⟩]
      ⟨fun _ => [], ∅, fun _ => 0⟩ = .ok [0] := by
  have hfilter : (List.range lone.getNumOfEntries).filter
      (fun _ => decide ((0 : UInt32) < loop.ntriggersToReceive)) = [0] := by
    rw [decide_eq_true hrequired]
    rfl
  have hout : timedOut lone loop ⟨[fun _ => []], false, true⟩ (fun _ => 0) = [0] := hfilter
  rw [← hout]
  rfl

theorem lone_inTime (record : LoopStatus) (loop : StdDataLoop) :
    InTime lone record loop 0 [⟨[fun _ => []], false, true⟩] [⟨[], 0⟩]
      ⟨fun _ => [], ∅, fun _ => 0⟩ :=
  ⟨⟨fun _ => [], ∅, fun _ => 0⟩, _, [], rfl, Or.inl ⟨rfl, fun _ _ => Nat.zero_le _⟩⟩

/-- The calls that get what is required in time report nothing. -/
def Quiet (loop : StdDataLoop) (required : Nat) : Prop :=
  ∀ (FrontEnd : Type) (keeper : Bookkeeper FrontEnd) (record : LoopStatus) (clips : Clips)
    (results : List CycleResults) (reads : List Read),
    InTime keeper record loop required results reads ⟨clips, ∅, fun _ => 0⟩ →
      reports keeper record loop results reads ⟨clips, ∅, fun _ => 0⟩ = .ok []

theorem quiet_iff (loop : StdDataLoop) (expEvents tolerance : UInt32) :
    Quiet (init loop (some expEvents) tolerance) (expEvents.toNat - tolerance.toNat) ↔
      tolerance ≤ expEvents := by
  constructor
  · intro hquiet
    by_contra hle
    have hlt : expEvents.toNat < tolerance.toNat := by
      rw [UInt32.le_iff_toNat_le] at hle
      omega
    have hnone : expEvents.toNat - tolerance.toNat = 0 := by omega
    rw [hnone] at hquiet
    have hrequired : 0 < (init loop (some expEvents) tolerance).ntriggersToReceive := by
      have hne := mt (required_iff loop expEvents tolerance).mp hle
      rw [hnone] at hne
      rw [UInt32.lt_iff_toNat_lt]
      exact Nat.pos_of_ne_zero hne
    have hsilent := hquiet Unit lone .iterationEnd _ _ _ (lone_inTime .iterationEnd _)
    rw [lone_reported .iterationEnd hrequired] at hsilent
    cases hsilent
  · intro hle FrontEnd keeper record clips results reads htime
    exact quiet_of_inTime ((required_iff loop expEvents tolerance).mpr hle) results htime

/-- The required number and the silence need a tolerance within the expected events; the counters
need an answer to everything before the queues are emptied. -/
theorem trigger_accounting (loop : StdDataLoop) (expEvents tolerance : UInt32) :
    ((init loop (some expEvents) tolerance).ntriggersToReceive.toNat =
        expEvents.toNat - tolerance.toNat ↔ tolerance ≤ expEvents) ∧
    (∀ (n : Nat) (actions : List Action),
      (∀ p a s, p ++ [a] <+: actions → p.foldlM (Traffic.step n) .initial = some s →
        Traffic.Fits s a) →
      ∀ s, actions.foldlM (Traffic.step n) .initial = some s → Traffic.CountsOwn s) ∧
    (Quiet (init loop (some expEvents) tolerance) (expEvents.toNat - tolerance.toNat) ↔
      tolerance ≤ expEvents) :=
  ⟨required_iff loop expEvents tolerance,
    fun _ actions hfits _ hrun => (Traffic.tidy_run actions hfits hrun).counts,
    quiet_iff loop expEvents tolerance⟩

/-- A call whose event is answered before the queue is emptied, and the start of the next one. -/
def answered : List Action :=
  [.start, .push 0 [⟨0⟩], .popRaw 0, .pushFeedback 0, .popFeedback 0, .close, .reset, .finish,
    .start]

theorem answered_fits {p : List Action} {a : Action} {s : Traffic} (hp : p ++ [a] <+: answered)
    (hs : p.foldlM (Traffic.step 1) .initial = some s) : Traffic.Fits s a := by
  cases a with
  | reset =>
      obtain ⟨rest, hrest⟩ := hp
      have ha : answered[p.length]? = some .reset := by
        rw [← hrest]
        simp
      have hlength : p.length = 6 := by
        generalize p.length = k at ha
        unfold answered at ha
        rcases k with _ | _ | _ | _ | _ | _ | _ | _ | _ | k
        all_goals first | rfl | cases ha
      have hp : p = answered.take 6 := by
        rw [← hrest, List.append_assoc, ← hlength, List.take_left]
      subst hp
      cases hs
      exact rfl
  | _ => exact trivial

theorem answered_accounted (s : Traffic)
    (hs : answered.foldlM (Traffic.step 1) .initial = some s) : Traffic.CountsOwn s :=
  (trigger_accounting ⟨0, 0⟩ 1 0).2.1 1 answered (fun _ _ _ hp hs => answered_fits hp hs) s hs

/-- With the tolerance one above the expected events, all but one of the values of the counter are
too few. An event that is answered after the queue was emptied is counted in the next call. -/
theorem late_answer_counted :
    (init ⟨0, 0⟩ (some 0) 1).ntriggersToReceive = 4294967295 ∧
    ([.start, .push 0 [⟨0⟩], .close, .reset, .finish, .popRaw 0, .pushFeedback 0, .start,
      .push 0 [], .popFeedback 0].foldlM (Traffic.step 1) .initial).map
        (fun s => (s.call, (s.side 0).counted)) = some (2, [1]) ∧
    reports lone .iterationEnd (init ⟨0, 0⟩ (some 0) 1) [⟨[fun _ => []], false, true⟩]
      [⟨[], 0⟩] ⟨fun _ => [], ∅, fun _ => 0⟩ = .ok [0] :=
  ⟨rfl, by decide +kernel, lone_reported _ (by decide)⟩

end Yarr.Scan.StdDataLoop
