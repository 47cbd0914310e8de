import Yarr.Core.Indices
import Yarr.Core.Rounds

/-!
# Loops that tune a global register

An analysis answers each round with a sign for each front-end, and the loop
moves the value of the register of the front-end by a step in that direction.
Only active front-ends take part.
-/

namespace Yarr.Scan.GlobalFeedback

/-- Which rule an analysis asks for. -/
inductive Kind where
  | feedback
  | feedbackBinary

/-- One feedback. -/
structure Event where
  kind : Kind
  sign : Int
  last : Bool

/-- The value, the step, the sign that is kept, and the entry of `fbDoneMap`. -/
structure Channel where
  values : Int
  localStep : Nat
  oldSign : Int
  done : Bool

/-- From `double` to `int`; a number that does not fit has no conversion. -/
def toInt (x : Int) : Option Int := if -2 ^ 31 ≤ x ∧ x < 2 ^ 31 then some x else none

def toUnsigned (x : Int) : Option Int := if 0 ≤ x ∧ x < 2 ^ 32 then some x else none

theorem toInt_of_fits {x : Int} (hfits : -2 ^ 31 ≤ x ∧ x < 2 ^ 31) : toInt x = some x :=
  if_pos hfits

theorem toUnsigned_of_fits {x : Int} (hfits : 0 ≤ x ∧ x < 2 ^ 32) : toUnsigned x = some x :=
  if_pos hfits

/-- The sign that `feedback` had for a front-end before a round, -1 before the first one. -/
def preceding (events : Nat → Event) : Nat → Int
  | 0 => -1
  | k + 1 =>
      match (events k).kind with
      | .feedback => (events k).sign
      | .feedbackBinary => preceding events k

/-- A rule as a party of the rounds. -/
def party (feedback feedbackBinary : Channel → Int → Bool → Option Channel) :
    Rounds.Party Channel Event where
  step event c :=
    match event.kind with
    | .feedback => feedback c event.sign event.last
    | .feedbackBinary => feedbackBinary c event.sign event.last
  done c := c.done

/-- The feedback of all rounds. -/
abbrev Feedback (n : Nat) := Nat → Fin n → Event

def Feedback.Signed {n : Nat} (events : Feedback n) : Prop :=
  ∀ k id, (events k id).sign = 1 ∨ (events k id).sign = -1

open Rounds in
/-- What a tuning loop is to do: values stay between the bounds, the step is halved only when the
sign is another one, and the loop comes to its end. -/
structure Tunes {n : Nat} (rule : Party Channel Event) (early : Bool) (low high : Int)
    (bound : Nat) (init : Channel) (events : Feedback n) : Prop where
  inRange : ∀ k ended s, Reached rule early events (fun _ => init) k ended s →
    ∀ id, low ≤ (s id).values ∧ (s id).values ≤ high
  halved : ∀ (k : Nat) (s s' : Fin n → Channel),
    Reached rule early events (fun _ => init) k false s →
    (∀ id, rule.step (events k id) (s id) = some (s' id)) →
    ∀ id, (events k id).kind = .feedback → (s' id).localStep ≠ (s id).localStep →
    (events k id).sign ≠ preceding (fun j => events j id) k
  ends : ∃ k, k ≤ bound ∧ ∃ s, Reached rule early events (fun _ => init) k true s

end Yarr.Scan.GlobalFeedback
