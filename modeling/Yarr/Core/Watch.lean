import Yarr.Core.Returns

/-!
# Watched coroutines

Notes are taken beside a coroutine, from the states before and after each
step that goes on. They change nothing: every run is the run of a watched
coroutine.
-/

namespace Yarr.Run

universe u v w x

/-- What is noted of a prologue and of a step, from the states around them. -/
structure Watch (σ : Type v) (γ : Type x) where
  enter : σ → σ → γ → γ
  step : σ → σ → γ → γ

variable {φ : Type u} {σ : Type v} {γ : Type v} {ι : Type w}

/-- An outcome with the notes; a return adds none. -/
def Outcome.noted (notes : σ → γ → γ) (a : γ) : Outcome φ σ → Outcome φ (σ × γ)
  | .cont s => .cont (s, notes s a)
  | .ret s => .ret (s, a)
  | .fault e => .fault e

def Coroutine.watched (m : Coroutine φ σ) (w : Watch σ γ) : Coroutine φ (σ × γ) where
  enter p := (m.enter p.1).noted (w.enter p.1) p.2
  step p := (m.step p.1).noted (w.step p.1) p.2

/-- Notes are not touched by what arrives. -/
def pushWatched (push : σ → ι → σ) (p : σ × γ) (x : ι) : σ × γ := (push p.1 x, p.2)

variable {m : Coroutine φ σ} {push : σ → ι → σ} (w : Watch σ γ)

/-- What the steps of a watched coroutine keep, case by case. -/
structure Watch.Keeps (m : Coroutine φ σ) (push : σ → ι → σ) (w : Watch σ γ)
    (idle busy : σ → γ → Prop) : Prop where
  pushIdle : ∀ s a x, idle s a → idle (push s x) a
  pushBusy : ∀ s a x, busy s a → busy (push s x) a
  enterCont : ∀ s s' a, m.enter s = .cont s' → idle s a → busy s' (w.enter s s' a)
  enterRet : ∀ s s' a, m.enter s = .ret s' → idle s a → idle s' a
  stepCont : ∀ s s' a, m.step s = .cont s' → busy s a → busy s' (w.step s s' a)
  stepRet : ∀ s s' a, m.step s = .ret s' → busy s a → idle s' a

def Watch.Holds (idle busy : σ → γ → Prop) (c : Caller (σ × γ)) : Prop :=
  if c.inside then busy c.state.1 c.state.2 else idle c.state.1 c.state.2

variable {w} {idle busy : σ → γ → Prop}

theorem Outcome.noted_cont {notes : σ → γ → γ} {a : γ} {o : Outcome φ σ} {p : σ × γ}
    (h : o.noted notes a = .cont p) : o = .cont p.1 ∧ p.2 = notes p.1 a := by
  cases o with
  | cont s =>
      injection h with h
      subst h
      exact ⟨rfl, rfl⟩
  | ret s => cases h
  | fault e => cases h

theorem Outcome.noted_ret {notes : σ → γ → γ} {a : γ} {o : Outcome φ σ} {p : σ × γ}
    (h : o.noted notes a = .ret p) : o = .ret p.1 ∧ p.2 = a := by
  cases o with
  | cont s => cases h
  | ret s =>
      injection h with h
      subst h
      exact ⟨rfl, rfl⟩
  | fault e => cases h

theorem Watch.Keeps.reaches (hkeeps : w.Keeps m push idle busy) {c c' : Caller (σ × γ)}
    (h : Reaches (m.watched w) (pushWatched push) c c') (hc : Holds idle busy c) :
    Holds idle busy c' := by
  induction h with
  | refl => exact hc
  | tail _ hlast ih =>
      cases hlast with
      | push b p x =>
          cases b with
          | true => exact hkeeps.pushBusy _ _ x ih
          | false => exact hkeeps.pushIdle _ _ x ih
      | enterCont p p' he =>
          rcases Outcome.noted_cont he with ⟨he, ha⟩
          have hbusy := hkeeps.enterCont _ _ p.2 he ih
          rw [← ha] at hbusy
          exact hbusy
      | enterRet p p' he =>
          rcases Outcome.noted_ret he with ⟨he, ha⟩
          have hidle := hkeeps.enterRet _ _ p.2 he ih
          rw [← ha] at hidle
          exact hidle
      | stepCont p p' hs =>
          rcases Outcome.noted_cont hs with ⟨hs, ha⟩
          have hbusy := hkeeps.stepCont _ _ p.2 hs ih
          rw [← ha] at hbusy
          exact hbusy
      | stepRet p p' hs =>
          rcases Outcome.noted_ret hs with ⟨hs, ha⟩
          have hidle := hkeeps.stepRet _ _ p.2 hs ih
          rw [← ha] at hidle
          exact hidle

/-! ## Runs of whole calls -/

theorem reaches_of_run {m : Coroutine φ σ} {push : σ → ι → σ} {fuel : Nat} {s s' : σ}
    (h : run m.step fuel s = .ret s') : Reaches m push ⟨true, s⟩ ⟨false, s'⟩ := by
  induction fuel generalizing s with
  | zero => cases h
  | succ fuel ih =>
      rw [run_succ] at h
      cases ho : m.step s with
      | cont s₁ =>
          rw [ho] at h
          exact .head (.stepCont s s₁ ho) (ih h)
      | ret s₁ =>
          rw [ho, Outcome.andThen_ret] at h
          injection h with h
          subst h
          exact .single (.stepRet s s₁ ho)
      | fault e => simp [ho] at h

theorem reaches_of_call {m : Coroutine φ σ} {push : σ → ι → σ} {fuel : Nat} {s s' : σ}
    (h : m.call fuel s = .ret s') : Reaches m push ⟨false, s⟩ ⟨false, s'⟩ := by
  unfold Coroutine.call at h
  cases ho : m.enter s with
  | cont s₁ =>
      rw [ho] at h
      exact .head (.enterCont s s₁ ho) (reaches_of_run h)
  | ret s₁ =>
      rw [ho, Outcome.andThen_ret] at h
      injection h with h
      subst h
      exact .single (.enterRet s s₁ ho)
  | fault e => simp [ho] at h

theorem reaches_of_session {m : Coroutine φ σ} {push : σ → ι → σ} {fuel : Nat}
    {ops : List (Op ι)} {s s' : σ} (h : session m push fuel ops s = .ret s') :
    Reaches m push ⟨false, s⟩ ⟨false, s'⟩ := by
  induction ops generalizing s with
  | nil =>
      injection h with h
      subst h
      exact .refl
  | cons op ops ih =>
      cases op with
      | push x => exact .head (.push false s x) (ih h)
      | call =>
          rw [session] at h
          cases ho : m.call fuel s with
          | cont s₁ => simp [ho] at h
          | ret s₁ =>
              rw [ho] at h
              exact (reaches_of_call ho).trans (ih h)
          | fault e => simp [ho] at h

end Yarr.Run
