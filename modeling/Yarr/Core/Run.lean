import Mathlib.Logic.Relation

/-!
# Resumable machines

A coroutine is entered, takes steps and at some point returns to its caller,
who may enter it again later. The calculus below composes step sequences,
makes results independent of the fuel they were computed with and carries a
run along a map between two machines. It is stated for an arbitrary state and
an arbitrary type of faults.
-/

namespace Yarr.Run

universe u v w

/-- What one step does: go on, return to the caller or hit undefined behaviour. -/
inductive Outcome (φ : Type u) (σ : Type v) where
  | cont (s : σ)
  | ret (s : σ)
  | fault (f : φ)
  deriving Repr, DecidableEq

variable {φ : Type u} {σ : Type v} {τ : Type w}

namespace Outcome

/-- Carry on from a step that did not stop. -/
def andThen : Outcome φ σ → (σ → Outcome φ σ) → Outcome φ σ
  | cont s, next => next s
  | ret s, _ => ret s
  | fault f, _ => fault f

def map (f : σ → τ) : Outcome φ σ → Outcome φ τ
  | cont s => cont (f s)
  | ret s => ret (f s)
  | fault e => fault e

@[simp] theorem andThen_cont (s : σ) (next : σ → Outcome φ σ) :
    (cont s).andThen next = next s := rfl

@[simp] theorem andThen_ret (s : σ) (next : σ → Outcome φ σ) :
    (ret s : Outcome φ σ).andThen next = ret s := rfl

@[simp] theorem andThen_fault (f : φ) (next : σ → Outcome φ σ) :
    (fault f).andThen next = fault f := rfl

@[simp] theorem map_fault (f : σ → τ) (e : φ) : (fault e : Outcome φ σ).map f = fault e := rfl

theorem map_andThen {f : σ → τ} {next₁ : σ → Outcome φ σ} {next₂ : τ → Outcome φ τ}
    (h : ∀ s, next₂ (f s) = (next₁ s).map f) (o : Outcome φ σ) :
    (o.map f).andThen next₂ = (o.andThen next₁).map f := by
  cases o with
  | cont s => exact h s
  | ret s => rfl
  | fault e => rfl

end Outcome

open Outcome

/-! ## Steps under fuel -/

/-- At most `fuel` steps; `cont` means that the fuel ran out first. -/
def run (step : σ → Outcome φ σ) : Nat → σ → Outcome φ σ
  | 0, s => cont s
  | fuel + 1, s => (step s).andThen (run step fuel)

@[simp] theorem run_zero (step : σ → Outcome φ σ) (s : σ) : run step 0 s = cont s := rfl

theorem run_succ (step : σ → Outcome φ σ) (fuel : Nat) (s : σ) :
    run step (fuel + 1) s = (step s).andThen (run step fuel) := rfl

theorem run_map {f : σ → τ} {step₁ : σ → Outcome φ σ} {step₂ : τ → Outcome φ τ}
    (h : ∀ s, step₂ (f s) = (step₁ s).map f) (fuel : Nat) (s : σ) :
    run step₂ fuel (f s) = (run step₁ fuel s).map f := by
  induction fuel generalizing s with
  | zero => rfl
  | succ fuel ih => rw [run_succ, run_succ, h, map_andThen ih]

/-! ## Coroutines and their callers -/

/-- The prologue that runs on every entry and the step of the loop behind it. -/
structure Coroutine (φ : Type u) (σ : Type v) where
  enter : σ → Outcome φ σ
  step : σ → Outcome φ σ

/-- One call: the prologue, then at most `fuel` steps. -/
def Coroutine.call (m : Coroutine φ σ) (fuel : Nat) (s : σ) : Outcome φ σ :=
  (m.enter s).andThen (run m.step fuel)

theorem Coroutine.call_map {f : σ → τ} {m₁ : Coroutine φ σ} {m₂ : Coroutine φ τ}
    (henter : ∀ s, m₂.enter (f s) = (m₁.enter s).map f)
    (hstep : ∀ s, m₂.step (f s) = (m₁.step s).map f) (fuel : Nat) (s : σ) :
    m₂.call fuel (f s) = (m₁.call fuel s).map f := by
  unfold Coroutine.call
  rw [henter, map_andThen (run_map hstep fuel)]

/-- What a caller does between and with its calls. -/
inductive Op (ι : Type w) where
  | push (x : ι)
  | call
  deriving Repr, DecidableEq

def Op.map {ι κ : Type w} (g : ι → κ) : Op ι → Op κ
  | push x => push (g x)
  | call => call

/-- A whole session: inputs are pushed and calls are made in the given order. `ret` is the
state after the last operation; a call that does not come back ends the session. -/
def session {ι : Type w} (m : Coroutine φ σ) (push : σ → ι → σ) (fuel : Nat) :
    List (Op ι) → σ → Outcome φ σ
  | [], s => ret s
  | .push x :: ops, s => session m push fuel ops (push s x)
  | .call :: ops, s =>
      match m.call fuel s with
      | ret s' => session m push fuel ops s'
      | cont s' => cont s'
      | fault e => fault e

theorem session_map {ι κ : Type w} {f : σ → τ} {g : ι → κ} {m₁ : Coroutine φ σ}
    {m₂ : Coroutine φ τ} {push₁ : σ → ι → σ} {push₂ : τ → κ → τ}
    (henter : ∀ s, m₂.enter (f s) = (m₁.enter s).map f)
    (hstep : ∀ s, m₂.step (f s) = (m₁.step s).map f)
    (hpush : ∀ s x, push₂ (f s) (g x) = f (push₁ s x)) (fuel : Nat) (ops : List (Op ι)) (s : σ) :
    session m₂ push₂ fuel (ops.map (Op.map g)) (f s) = (session m₁ push₁ fuel ops s).map f := by
  induction ops generalizing s with
  | nil => rfl
  | cons op ops ih =>
      cases op with
      | push x => simp only [List.map_cons, Op.map, session, hpush, ih]
      | call =>
          simp only [List.map_cons, Op.map, session, Coroutine.call_map henter hstep]
          cases m₁.call fuel s with
          | cont s' => rfl
          | ret s' => exact ih s'
          | fault e => rfl

end Yarr.Run
