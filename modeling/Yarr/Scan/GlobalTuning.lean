import Yarr.Fei4.Fei4GlobalFeedback
import Yarr.Rd53.Itkpixv2GlobalFeedback

/-!
# Both loops that tune a global register

The runs in which every feedback fits, and runs in which one does not.
-/

namespace Yarr.Scan.GlobalFeedback

open Rounds

/-- Both loops tune in every run whose feedbacks fit. -/
theorem global_feedback_tunes (n : Nat) :
    (∀ (cfg : Rd53.Itkpixv2GlobalFeedback.Config), cfg.Valid →
      ∀ events : Feedback n, events.Signed →
      AllFit (Rd53.Itkpixv2GlobalFeedback.rule cfg) false events
        (fun _ => Rd53.Itkpixv2GlobalFeedback.init cfg)
        (Rd53.Itkpixv2GlobalFeedback.FitsRound cfg events) →
      Tunes (Rd53.Itkpixv2GlobalFeedback.rule cfg) false cfg.min cfg.max
        (Rd53.Itkpixv2GlobalFeedback.rounds cfg) (Rd53.Itkpixv2GlobalFeedback.init cfg) events) ∧
    (∀ (cfg : Fei4.Fei4GlobalFeedback.Config), cfg.Valid →
      ∀ events : Feedback n, events.Signed →
      AllFit (Fei4.Fei4GlobalFeedback.rule cfg) true events
        (fun _ => Fei4.Fei4GlobalFeedback.init cfg)
        (Fei4.Fei4GlobalFeedback.FitsRound cfg events) →
      Tunes (Fei4.Fei4GlobalFeedback.rule cfg) true 0 cfg.max
        (Fei4.Fei4GlobalFeedback.rounds cfg) (Fei4.Fei4GlobalFeedback.init cfg) events) := by
  constructor
  · intro cfg hvalid events hsigned hfit
    exact Rd53.Itkpixv2GlobalFeedback.tunes hvalid hsigned hfit
  · intro cfg hvalid events hsigned hfit
    exact Fei4.Fei4GlobalFeedback.tunes hvalid hsigned hfit

/-! ## Short runs -/

/-- One front-end and the same feedback in every round. -/
def always (kind : Kind) (sign : Int) : Feedback 1 := fun _ _ => ⟨kind, sign, false⟩

section Runs

variable {rule : Party Channel Event} {early : Bool} {events : Feedback 1} {init : Channel}

theorem reached_next {k : Nat} {c c' : Channel}
    (hreached : Reached rule early events (fun _ => init) k false fun _ => c)
    (hstep : rule.step (events k 0) c = some c') {ended : Bool}
    (hended : decide (∀ _ : Fin 1, rule.done (if early then c else c') = true) = ended) :
    Reached rule early events (fun _ => init) (k + 1) ended fun _ => c' := by
  rw [← hended]
  apply Reached.round hreached
  intro id
  have hid : id = 0 := Subsingleton.elim _ _
  rw [hid]
  exact hstep

theorem eq_of_reached {k : Nat} {c c' : Channel}
    (hbefore : ∀ s, Reached rule early events (fun _ => init) k false s → s = fun _ => c)
    (hstep : rule.step (events k 0) c = some c') {ended : Bool} {s : Fin 1 → Channel}
    (hreached : Reached rule early events (fun _ => init) (k + 1) ended s) :
    ended = decide (∀ _ : Fin 1, rule.done (if early then c else c') = true) ∧
      s = fun _ => c' := by
  obtain ⟨s₀, hreached₀, hnext, hended⟩ := hreached.of_succ
  have hs₀ := hbefore s₀ hreached₀
  subst hs₀
  have hs : s = fun _ => c' := by
    funext id
    have hid : id = 0 := Subsingleton.elim _ _
    rw [hid]
    exact Option.some.inj ((hnext 0).symm.trans hstep)
  subst hs
  exact ⟨hended, rfl⟩

end Runs

/-- A binary search with two steps, downwards. -/
theorem two_steps_tune :
    Tunes (Rd53.Itkpixv2GlobalFeedback.rule ⟨0, 255, 2⟩) false 0 255
      (Rd53.Itkpixv2GlobalFeedback.rounds ⟨0, 255, 2⟩)
      (Rd53.Itkpixv2GlobalFeedback.init ⟨0, 255, 2⟩) (always .feedbackBinary (-1)) ∧
    Tunes (Fei4.Fei4GlobalFeedback.rule ⟨255, 2⟩) true 0 255
      (Fei4.Fei4GlobalFeedback.rounds ⟨255, 2⟩)
      (Fei4.Fei4GlobalFeedback.init ⟨255, 2⟩) (always .feedbackBinary (-1)) := by
  constructor
  · apply (global_feedback_tunes 1).1 ⟨0, 255, 2⟩ ⟨by decide, by decide, by decide, by decide⟩
    · intro k id
      exact Or.inr rfl
    · intro k s hreached id
      cases k with
      | zero =>
          have hfits : Rd53.Itkpixv2GlobalFeedback.Fits ⟨0, 255, 2⟩
              (Rd53.Itkpixv2GlobalFeedback.init ⟨0, 255, 2⟩) ⟨.feedbackBinary, -1, false⟩ :=
            ⟨⟨by decide, by decide⟩, ⟨by decide, by decide⟩, fun _ => Or.inl (by decide)⟩
          rw [hreached.of_zero.2]
          exact hfits
      | succ k =>
          exfalso
          rw [Nat.add_comm] at hreached
          apply not_reached_after ?_ k s hreached
          intro s₁ hone
          have hended := (eq_of_reached (fun _ h => h.of_zero.2)
            (show _ = some ⟨253, 1, -1, true⟩ from rfl) hone).1
          cases hended
  · apply (global_feedback_tunes 1).2 ⟨255, 2⟩ ⟨by decide, by decide, by decide⟩
    · intro k id
      exact Or.inr rfl
    · have hfirst : ∀ s, Reached (Fei4.Fei4GlobalFeedback.rule ⟨255, 2⟩) true
          (always .feedbackBinary (-1)) (fun _ => Fei4.Fei4GlobalFeedback.init ⟨255, 2⟩) 1 false s →
          s = fun _ => ⟨253, 1, 2 ^ 32 - 1, true⟩ :=
        fun _ hone => (eq_of_reached (fun _ h => h.of_zero.2) rfl hone).2
      intro k s hreached id
      cases k with
      | zero =>
          have hfits : Fei4.Fei4GlobalFeedback.Fits ⟨255, 2⟩ (-1)
              (Fei4.Fei4GlobalFeedback.init ⟨255, 2⟩) ⟨.feedbackBinary, -1, false⟩ :=
            ⟨⟨by decide, by decide⟩, fun _ => Or.inl (by decide)⟩
          rw [hreached.of_zero.2]
          exact hfits
      | succ k =>
          cases k with
          | zero =>
              have hfits : Fei4.Fei4GlobalFeedback.Fits ⟨255, 2⟩ (-1)
                  ⟨253, 1, 2 ^ 32 - 1, true⟩ ⟨.feedbackBinary, -1, false⟩ :=
                ⟨⟨by decide, by decide⟩, fun hdone => by cases hdone⟩
              rw [hfirst s hreached]
              exact hfits
          | succ k =>
              exfalso
              rw [Nat.add_assoc, Nat.add_comm] at hreached
              apply not_reached_after ?_ k s hreached
              intro s₂ htwo
              have hended := (eq_of_reached hfirst
                (show _ = some ⟨252, 0, 2 ^ 32 - 1, true⟩ from rfl) htwo).1
              cases hended

/-- A step of one with the first sign upwards leads out of the range, and the same sign twice
halves the step of the FE-I4. -/
theorem out_of_range_and_halved :
    ¬Tunes (Rd53.Itkpixv2GlobalFeedback.rule ⟨0, 255, 1⟩) false 0 255
      (Rd53.Itkpixv2GlobalFeedback.rounds ⟨0, 255, 1⟩)
      (Rd53.Itkpixv2GlobalFeedback.init ⟨0, 255, 1⟩) (always .feedback 1) ∧
    ¬Tunes (Fei4.Fei4GlobalFeedback.rule ⟨255, 16⟩) true 0 255
      (Fei4.Fei4GlobalFeedback.rounds ⟨255, 16⟩)
      (Fei4.Fei4GlobalFeedback.init ⟨255, 16⟩) (always .feedback (-1)) := by
  constructor
  · intro htunes
    have hone : Reached (Rd53.Itkpixv2GlobalFeedback.rule ⟨0, 255, 1⟩) false (always .feedback 1)
        (fun _ => Rd53.Itkpixv2GlobalFeedback.init ⟨0, 255, 1⟩) 1 true
        fun _ => ⟨256, 0, 1, true⟩ := reached_next .start rfl rfl
    have hrange := htunes.inRange 1 _ _ hone 0
    exact absurd hrange.2 (by decide)
  · intro htunes
    have hone : Reached (Fei4.Fei4GlobalFeedback.rule ⟨255, 16⟩) true (always .feedback (-1))
        (fun _ => Fei4.Fei4GlobalFeedback.init ⟨255, 16⟩) 1 false
        fun _ => ⟨247, 8, 0, false⟩ := reached_next .start rfl rfl
    have hnext : (Fei4.Fei4GlobalFeedback.rule ⟨255, 16⟩).step ⟨.feedback, -1, false⟩
        ⟨247, 8, 0, false⟩ = some ⟨243, 4, 0, false⟩ := rfl
    have hchange : (⟨243, 4, 0, false⟩ : Channel).localStep ≠
        (⟨247, 8, 0, false⟩ : Channel).localStep := by decide
    exact htunes.halved 1 _ (fun _ => ⟨243, 4, 0, false⟩) hone (fun _ => hnext) 0 rfl hchange rfl

end Yarr.Scan.GlobalFeedback
