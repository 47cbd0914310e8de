import Yarr.Rd53.Rd53aGlobalFeedback

/-!
# What other front-ends do to a tuned value

The loops go on until the last front-end is done, and a front-end that is done takes
every feedback up to then. Two runs of a loop with the same feedback for a
front-end, until it is done, are compared.
-/

namespace Yarr.Scan.GlobalFeedback

open Rounds

/-- A run up to its end. -/
structure Run (rule : Party Channel Event) (init : Channel) (n : Nat) where
  events : Feedback n
  signed : events.Signed
  rounds : Nat
  final : Fin n → Channel
  reached : Reached rule false events (fun _ => init) rounds true final

/-- The value that goes to the register of a front-end. -/
def writePar {n : Nat} (s : Fin n → Channel) (id : Fin n) : Int := (s id).values

namespace Run

variable {rule : Party Channel Event} {init : Channel} {n n' : Nat}

/-- What `end` writes. -/
def endWrites (run : Run rule init n) (id : Fin n) : Int := writePar run.final id

/-- The state after some rounds. -/
def At (run : Run rule init n) (k : Nat) (s : Fin n → Channel) : Prop :=
  ∃ ended, Reached rule false run.events (fun _ => init) k ended s

/-- The front-end is done after so many rounds, and not before. -/
def DoneAfter (run : Run rule init n) (id : Fin n) (d : Nat) : Prop :=
  (∃ s, run.At d s ∧ rule.done (s id) = true) ∧
    ∀ j, j < d → ∀ s, run.At j s → rule.done (s id) = false

/-- Two runs give a front-end the same feedback in the first rounds. -/
def Agree (run : Run rule init n) (run' : Run rule init n') (id : Fin n) (id' : Fin n')
    (d : Nat) : Prop :=
  ∀ j, j < d → run.events j id = run'.events j id'

/-- Every feedback for a front-end that is done leaves its value. -/
def RestsFrom (rests : Channel → Event → Prop) (run : Run rule init n) (id : Fin n)
    (d : Nat) : Prop :=
  ∀ j, d ≤ j → j < run.rounds → ∀ s, run.At j s → rests (s id) (run.events j id)

end Run

/-- The value at the end does not depend on what comes after a front-end is done. -/
def Independent (rule : Party Channel Event) (init : Channel) : Prop :=
  ∀ (n n' : Nat) (run : Run rule init n) (run' : Run rule init n') (id : Fin n) (id' : Fin n')
    (d : Nat), run.DoneAfter id d → run.Agree run' id id' d →
    run.endWrites id = run'.endWrites id'

/-- The runs for which it does not, and which feedbacks make the difference. -/
structure IndependentWhen (rule : Party Channel Event) (init : Channel)
    (rests : Channel → Event → Prop) : Prop where
  same : ∀ (n n' : Nat) (run : Run rule init n) (run' : Run rule init n') (id : Fin n)
    (id' : Fin n') (d : Nat), run.DoneAfter id d → run.Agree run' id id' d →
    run.RestsFrom rests id d → run'.RestsFrom rests id' d →
    run.endWrites id = run'.endWrites id'
  moved : ∀ (n : Nat) (run : Run rule init n) (id : Fin n) (j : Nat) (s s' : Fin n → Channel),
    run.At j s → run.At (j + 1) s' →
    (writePar s' id = writePar s id ↔ rests (s id) (run.events j id))

/-! ## From one feedback to two runs -/

/-- What is needed of one feedback. -/
structure RestsRule (rule : Party Channel Event) (init : Channel)
    (rests : Channel → Event → Prop) : Prop where
  start : 0 ≤ init.values
  nonneg : ∀ {c c' : Channel} {event : Event}, rule.step event c = some c' → 0 ≤ c'.values
  iff : ∀ {c c' : Channel} {event : Event}, event.sign = 1 ∨ event.sign = -1 → 0 ≤ c.values →
    rule.step event c = some c' → (c'.values = c.values ↔ rests c event)

section Law

variable {rule : Party Channel Event} {init : Channel} {rests : Channel → Event → Prop}
  {n n' : Nat}

theorem Run.nonneg (hrule : RestsRule rule init rests) (run : Run rule init n) {k : Nat}
    {s : Fin n → Channel} (hs : run.At k s) (id : Fin n) : 0 ≤ (s id).values := by
  obtain ⟨ended, hs⟩ := hs
  cases hs with
  | start => exact hrule.start
  | round _ hstep => exact hrule.nonneg (hstep id)

theorem Run.final_done (run : Run rule init n) (id : Fin n) :
    rule.done (run.final id) = true := by
  have hreached := run.reached
  generalize run.rounds = k at hreached
  cases k with
  | zero => exact absurd hreached.of_zero.1 (by decide)
  | succ k =>
      obtain ⟨_, -, -, hended⟩ := hreached.of_succ
      exact of_decide_eq_true hended.symm id

theorem Run.done_le (run : Run rule init n) {id : Fin n} {d : Nat} (hdone : run.DoneAfter id d) :
    d ≤ run.rounds := by
  by_cases hle : d ≤ run.rounds
  · exact hle
  · have hnot := hdone.2 run.rounds (Nat.lt_of_not_le hle) run.final ⟨true, run.reached⟩
    rw [run.final_done id] at hnot
    cases hnot

theorem Run.at_of_le (run : Run rule init n) {k : Nat} (hk : k ≤ run.rounds) :
    ∃ s, run.At k s := by
  by_cases hlast : k = run.rounds
  · exact ⟨run.final, true, hlast ▸ run.reached⟩
  · obtain ⟨s, hs⟩ := run.reached.earlier (by omega : k < run.rounds)
    exact ⟨s, false, hs⟩

theorem Run.same_state {run : Run rule init n} {run' : Run rule init n'} {id : Fin n}
    {id' : Fin n'} {d k : Nat} (hagree : run.Agree run' id id' d) (hk : k ≤ d)
    {s : Fin n → Channel} {s' : Fin n' → Channel} (hs : run.At k s) (hs' : run'.At k s') :
    s id = s' id' := by
  obtain ⟨_, hs⟩ := hs
  obtain ⟨_, hs'⟩ := hs'
  have hstart : (fun _ : Fin n => init) id = (fun _ : Fin n' => init) id' := rfl
  exact same_of_events hstart hs hs' fun j hj => hagree j (by omega)

theorem Run.done_le_of_agree {run : Run rule init n} {run' : Run rule init n'} {id : Fin n}
    {id' : Fin n'} {d : Nat} (hdone : run.DoneAfter id d) (hagree : run.Agree run' id id' d) :
    d ≤ run'.rounds := by
  by_cases hle : d ≤ run'.rounds
  · exact hle
  · have hlt : run'.rounds < d := Nat.lt_of_not_le hle
    have hd := run.done_le hdone
    obtain ⟨s, hs⟩ := run.at_of_le (by omega : run'.rounds ≤ run.rounds)
    have hnot := hdone.2 _ hlt s hs
    rw [Run.same_state hagree (Nat.le_of_lt hlt) hs ⟨true, run'.reached⟩,
      run'.final_done id'] at hnot
    cases hnot

theorem Run.endWrites_eq (hrule : RestsRule rule init rests) (run : Run rule init n) {id : Fin n}
    {d : Nat} (hd : d ≤ run.rounds) (hrests : run.RestsFrom rests id d) {s : Fin n → Channel}
    (hs : run.At d s) : run.endWrites id = (s id).values := by
  obtain ⟨ended, hs⟩ := hs
  apply value_kept hd run.reached hs
  intro j u v hj hlt hu hstep
  have hat : run.At j u := ⟨false, hu⟩
  exact (hrule.iff (run.signed j id) (run.nonneg hrule hat id) hstep).mpr
    (hrests j hj hlt u hat)

theorem independentWhen (hrule : RestsRule rule init rests) :
    IndependentWhen rule init rests where
  same n n' run run' id id' d hdone hagree hrests hrests' := by
    have hd := run.done_le hdone
    have hd' := Run.done_le_of_agree hdone hagree
    obtain ⟨s, hs⟩ := run.at_of_le hd
    obtain ⟨s', hs'⟩ := run'.at_of_le hd'
    calc run.endWrites id = (s id).values := run.endWrites_eq hrule hd hrests hs
      _ = (s' id').values := by rw [Run.same_state hagree (Nat.le_refl d) hs hs']
      _ = run'.endWrites id' := (run'.endWrites_eq hrule hd' hrests' hs').symm
  moved n run id j s s' hs hs' := by
    have hnonneg := run.nonneg hrule hs id
    obtain ⟨_, hs'⟩ := hs'
    obtain ⟨t, ht, hstep, -⟩ := hs'.of_succ
    have hagree : run.Agree run id id j := fun _ _ => rfl
    have hsame : t id = s id := Run.same_state hagree (Nat.le_refl j) ⟨false, ht⟩ hs
    have hnext := hstep id
    rw [hsame] at hnext
    exact hrule.iff (run.signed j id) hnonneg hnext

end Law

theorem tuned_alone_when (cfg : Rd53.Itkpixv2GlobalFeedback.Config) (hmin : 0 ≤ cfg.min)
    (hle : cfg.min ≤ cfg.max) :
    IndependentWhen (Rd53.Itkpixv2GlobalFeedback.rule cfg)
      (Rd53.Itkpixv2GlobalFeedback.init cfg) (Rd53.Itkpixv2GlobalFeedback.Rests cfg) ∧
    IndependentWhen (Rd53.Rd53bGlobalFeedback.rule cfg)
      (Rd53.Rd53bGlobalFeedback.init cfg) (Rd53.Itkpixv2GlobalFeedback.Rests cfg) ∧
    IndependentWhen (Rd53.Rd53aGlobalFeedback.rule cfg)
      (Rd53.Rd53aGlobalFeedback.init cfg) (Rd53.Rd53aGlobalFeedback.Rests cfg) := by
  have hpixel : RestsRule (Rd53.Itkpixv2GlobalFeedback.rule cfg)
      (Rd53.Itkpixv2GlobalFeedback.init cfg) (Rd53.Itkpixv2GlobalFeedback.Rests cfg) :=
    { start := Int.le_trans hmin hle
      nonneg := Rd53.Itkpixv2GlobalFeedback.step_nonneg hmin hle
      iff := Rd53.Itkpixv2GlobalFeedback.step_values_iff hle }
  refine ⟨?_, ?_, ?_⟩
  · exact independentWhen hpixel
  · exact independentWhen hpixel
  · exact independentWhen
      { start := Int.le_trans hmin hle
        nonneg := Rd53.Rd53aGlobalFeedback.step_nonneg hmin hle
        iff := Rd53.Rd53aGlobalFeedback.step_values_iff hle }

/-! ## A front-end alone, and beside one that needs another round -/

/-- A search that is done after its first round. -/
structure FirstRound (rule : Party Channel Event) (init : Channel) (event : Event)
    (c : Channel) : Prop where
  signed : event.sign = 1 ∨ event.sign = -1
  start : rule.done init = false
  step : rule.step event init = some c
  done : rule.done c = true

/-- One that needs two. -/
structure SecondRound (rule : Party Channel Event) (init : Channel) (first second : Event)
    (c c' : Channel) : Prop where
  signed : (first.sign = 1 ∨ first.sign = -1) ∧ (second.sign = 1 ∨ second.sign = -1)
  step : rule.step first init = some c
  notDone : rule.done c = false
  next : rule.step second c = some c'
  done : rule.done c' = true

section Pairs

variable {rule : Party Channel Event} {init c c' d d' : Channel} {event first second : Event}

theorem reached_round {n k : Nat} {events : Feedback n} {s s' : Fin n → Channel} {ended : Bool}
    (hreached : Reached rule false events (fun _ => init) k false s)
    (hstep : ∀ id, rule.step (events k id) (s id) = some (s' id))
    (hended : decide (∀ id, rule.done (s' id) = true) = ended) :
    Reached rule false events (fun _ => init) (k + 1) ended s' :=
  hended ▸ Reached.round hreached hstep

def alone (hround : FirstRound rule init event c) : Run rule init 1 where
  events _ _ := event
  signed _ _ := hround.signed
  rounds := 1
  final _ := c
  reached := reached_round .start (fun _ => hround.step) (decide_eq_true fun _ => hround.done)

/-- The other front-end has another feedback in its second round. -/
def besideEvents (event first second : Event) : Feedback 2 := fun k id =>
  if id = 0 then event else if k = 0 then first else second

def besideStates (c d : Channel) : Fin 2 → Channel := fun id => if id = 0 then c else d

theorem beside_first (hround : FirstRound rule init event c)
    (hother : SecondRound rule init first second d d') :
    Reached rule false (besideEvents event first second) (fun _ => init) 1 false
      (besideStates c d) := by
  apply reached_round .start
  · intro id
    unfold besideEvents besideStates
    split
    · exact hround.step
    · exact hother.step
  · apply decide_eq_false
    intro hall
    have hdone : rule.done d = true := hall 1
    rw [hother.notDone] at hdone
    cases hdone

def beside (hround : FirstRound rule init event c) (hagain : rule.step event c = some c')
    (hdone : rule.done c' = true) (hother : SecondRound rule init first second d d') :
    Run rule init 2 where
  events := besideEvents event first second
  signed k id := by
    unfold besideEvents
    split
    · exact hround.signed
    · split
      · exact hother.signed.1
      · exact hother.signed.2
  rounds := 2
  final := besideStates c' d'
  reached := by
    apply reached_round (beside_first hround hother)
    · intro id
      unfold besideEvents besideStates
      split
      · exact hagain
      · exact hother.next
    · apply decide_eq_true
      intro id
      unfold besideStates
      split
      · exact hdone
      · exact hother.done

theorem alone_doneAfter (hround : FirstRound rule init event c) :
    (alone hround).DoneAfter 0 1 := by
  constructor
  · exact ⟨fun _ => c, ⟨true, (alone hround).reached⟩, hround.done⟩
  · intro j hj s hs
    have hzero : j = 0 := by omega
    subst hzero
    obtain ⟨_, hs⟩ := hs
    rw [hs.of_zero.2]
    exact hround.start

theorem alone_agree (hround : FirstRound rule init event c)
    (hagain : rule.step event c = some c') (hdone : rule.done c' = true)
    (hother : SecondRound rule init first second d d') :
    (alone hround).Agree (beside hround hagain hdone hother) 0 0 1 := fun _ _ => rfl

theorem beside_restsFrom {rests : Channel → Event → Prop} (hround : FirstRound rule init event c)
    (hagain : rule.step event c = some c') (hdone : rule.done c' = true)
    (hother : SecondRound rule init first second d d') (hrests : rests c event) :
    (beside hround hagain hdone hother).RestsFrom rests 0 1 := by
  intro j hj hlt s hs
  have hone : j = 1 := by
    have hlt' : j < 2 := hlt
    omega
  subst hone
  have hstate : s 0 = besideStates c d 0 :=
    Run.same_state (fun _ _ => rfl) (Nat.le_refl 1) hs
      (show (beside hround hagain hdone hother).At 1 _ from ⟨false, beside_first hround hother⟩)
  rw [hstate]
  exact hrests

theorem alone_restsFrom {rests : Channel → Event → Prop}
    (hround : FirstRound rule init event c) : (alone hround).RestsFrom rests 0 1 :=
  fun _ hj hlt => absurd hlt (Nat.not_lt.mpr hj)

theorem not_independent (hround : FirstRound rule init event c)
    (hagain : rule.step event c = some c') (hdone : rule.done c' = true)
    (hother : SecondRound rule init first second d d') (hne : c.values ≠ c'.values) :
    ¬Independent rule init := fun hindependent =>
  hne (hindependent 1 2 (alone hround) (beside hround hagain hdone hother) 0 0 1
    (alone_doneAfter hround) (alone_agree hround hagain hdone hother))

end Pairs

/-- A feedback downwards leaves a value at the lower end. -/
theorem lower_end_rests :
    (∃ (run : Run (Rd53.Itkpixv2GlobalFeedback.rule ⟨0, 4, 4⟩)
        (Rd53.Itkpixv2GlobalFeedback.init ⟨0, 4, 4⟩) 1)
      (run' : Run (Rd53.Itkpixv2GlobalFeedback.rule ⟨0, 4, 4⟩)
        (Rd53.Itkpixv2GlobalFeedback.init ⟨0, 4, 4⟩) 2),
      run.rounds = 1 ∧ run'.rounds = 2 ∧ run.endWrites 0 = run'.endWrites 0) ∧
    (∃ (run : Run (Rd53.Rd53bGlobalFeedback.rule ⟨0, 4, 4⟩)
        (Rd53.Rd53bGlobalFeedback.init ⟨0, 4, 4⟩) 1)
      (run' : Run (Rd53.Rd53bGlobalFeedback.rule ⟨0, 4, 4⟩)
        (Rd53.Rd53bGlobalFeedback.init ⟨0, 4, 4⟩) 2),
      run.rounds = 1 ∧ run'.rounds = 2 ∧ run.endWrites 0 = run'.endWrites 0) ∧
    (∃ (run : Run (Rd53.Rd53aGlobalFeedback.rule ⟨0, 4, 4⟩)
        (Rd53.Rd53aGlobalFeedback.init ⟨0, 4, 4⟩) 1)
      (run' : Run (Rd53.Rd53aGlobalFeedback.rule ⟨0, 4, 4⟩)
        (Rd53.Rd53aGlobalFeedback.init ⟨0, 4, 4⟩) 2),
      run.rounds = 1 ∧ run'.rounds = 2 ∧ run.endWrites 0 = run'.endWrites 0) := by
  have hround : FirstRound (Rd53.Itkpixv2GlobalFeedback.rule ⟨0, 4, 4⟩)
      (Rd53.Itkpixv2GlobalFeedback.init ⟨0, 4, 4⟩) ⟨.feedback, -1, false⟩ ⟨0, 4, -1, true⟩ :=
    ⟨Or.inr rfl, rfl, rfl, rfl⟩
  have hother : SecondRound (Rd53.Itkpixv2GlobalFeedback.rule ⟨0, 4, 4⟩)
      (Rd53.Itkpixv2GlobalFeedback.init ⟨0, 4, 4⟩) ⟨.feedback, 1, false⟩
      ⟨.feedbackBinary, -1, false⟩ ⟨4, 2, 1, false⟩ ⟨2, 1, 1, true⟩ :=
    ⟨⟨Or.inl rfl, Or.inr rfl⟩, rfl, rfl, rfl, rfl⟩
  have hround53a : FirstRound (Rd53.Rd53aGlobalFeedback.rule ⟨0, 4, 4⟩)
      (Rd53.Rd53aGlobalFeedback.init ⟨0, 4, 4⟩) ⟨.feedback, -1, false⟩ ⟨0, 4, -1, true⟩ :=
    ⟨Or.inr rfl, rfl, rfl, rfl⟩
  have hother53a : SecondRound (Rd53.Rd53aGlobalFeedback.rule ⟨0, 4, 4⟩)
      (Rd53.Rd53aGlobalFeedback.init ⟨0, 4, 4⟩) ⟨.feedback, 1, false⟩
      ⟨.feedbackBinary, -1, false⟩ ⟨4, 2, 0, false⟩ ⟨2, 1, 0, true⟩ :=
    ⟨⟨Or.inl rfl, Or.inr rfl⟩, rfl, rfl, rfl, rfl⟩
  refine ⟨⟨alone hround, beside hround rfl rfl hother, rfl, rfl, ?_⟩,
    ⟨alone hround, beside hround rfl rfl hother, rfl, rfl, ?_⟩,
    ⟨alone hround53a, beside hround53a rfl rfl hother53a, rfl, rfl, ?_⟩⟩
  · exact (tuned_alone_when ⟨0, 4, 4⟩ (by decide) (by decide)).1.same 1 2 _ _ 0 0 1
      (alone_doneAfter hround) (alone_agree hround rfl rfl hother) (alone_restsFrom hround)
      (beside_restsFrom hround rfl rfl hother (Or.inr ⟨rfl, rfl⟩))
  · exact (tuned_alone_when ⟨0, 4, 4⟩ (by decide) (by decide)).2.1.same 1 2 _ _ 0 0 1
      (alone_doneAfter hround) (alone_agree hround rfl rfl hother) (alone_restsFrom hround)
      (beside_restsFrom hround rfl rfl hother (Or.inr ⟨rfl, rfl⟩))
  · exact (tuned_alone_when ⟨0, 4, 4⟩ (by decide) (by decide)).2.2.same 1 2 _ _ 0 0 1
      (alone_doneAfter hround53a) (alone_agree hround53a rfl rfl hother53a)
      (alone_restsFrom hround53a)
      (beside_restsFrom hround53a rfl rfl hother53a (Or.inr ⟨rfl, rfl⟩))

/-- Two binary searches downwards, one of which needs another round. -/
theorem moved_by_others :
    ¬Independent (Rd53.Itkpixv2GlobalFeedback.rule ⟨0, 255, 2⟩)
      (Rd53.Itkpixv2GlobalFeedback.init ⟨0, 255, 2⟩) ∧
    ¬Independent (Rd53.Rd53bGlobalFeedback.rule ⟨0, 255, 2⟩)
      (Rd53.Rd53bGlobalFeedback.init ⟨0, 255, 2⟩) ∧
    ¬Independent (Rd53.Rd53aGlobalFeedback.rule ⟨0, 255, 2⟩)
      (Rd53.Rd53aGlobalFeedback.init ⟨0, 255, 2⟩) := by
  have hpixel : ¬Independent (Rd53.Itkpixv2GlobalFeedback.rule ⟨0, 255, 2⟩)
      (Rd53.Itkpixv2GlobalFeedback.init ⟨0, 255, 2⟩) := by
    have hround : FirstRound (Rd53.Itkpixv2GlobalFeedback.rule ⟨0, 255, 2⟩)
        (Rd53.Itkpixv2GlobalFeedback.init ⟨0, 255, 2⟩) ⟨.feedbackBinary, -1, false⟩
        ⟨253, 1, -1, true⟩ := ⟨Or.inr rfl, rfl, rfl, rfl⟩
    have hagain : (Rd53.Itkpixv2GlobalFeedback.rule ⟨0, 255, 2⟩).step
        ⟨.feedbackBinary, -1, false⟩ ⟨253, 1, -1, true⟩ = some ⟨252, 0, -1, true⟩ := rfl
    have hother : SecondRound (Rd53.Itkpixv2GlobalFeedback.rule ⟨0, 255, 2⟩)
        (Rd53.Itkpixv2GlobalFeedback.init ⟨0, 255, 2⟩) ⟨.feedback, -1, false⟩
        ⟨.feedbackBinary, -1, false⟩ ⟨253, 2, -1, false⟩ ⟨251, 1, -1, true⟩ :=
      ⟨⟨Or.inr rfl, Or.inr rfl⟩, rfl, rfl, rfl, rfl⟩
    exact not_independent hround hagain rfl hother (by decide)
  refine ⟨hpixel, hpixel, ?_⟩
  have hround : FirstRound (Rd53.Rd53aGlobalFeedback.rule ⟨0, 255, 2⟩)
      (Rd53.Rd53aGlobalFeedback.init ⟨0, 255, 2⟩) ⟨.feedbackBinary, -1, false⟩
      ⟨253, 1, -1, true⟩ := ⟨Or.inr rfl, rfl, rfl, rfl⟩
  have hagain : (Rd53.Rd53aGlobalFeedback.rule ⟨0, 255, 2⟩).step
      ⟨.feedbackBinary, -1, false⟩ ⟨253, 1, -1, true⟩ = some ⟨252, 0, -1, true⟩ := rfl
  have hother : SecondRound (Rd53.Rd53aGlobalFeedback.rule ⟨0, 255, 2⟩)
      (Rd53.Rd53aGlobalFeedback.init ⟨0, 255, 2⟩) ⟨.feedback, -1, false⟩
      ⟨.feedbackBinary, -1, false⟩ ⟨253, 2, -1, false⟩ ⟨251, 1, -1, true⟩ :=
    ⟨⟨Or.inr rfl, Or.inr rfl⟩, rfl, rfl, rfl, rfl⟩
  exact not_independent hround hagain rfl hother (by decide)

end Yarr.Scan.GlobalFeedback
