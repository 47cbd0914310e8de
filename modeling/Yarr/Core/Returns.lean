import Mathlib.Logic.Relation
import Yarr.Core.Run

/-!
# A coroutine and its caller

Inputs arrive at any time, also while a call is under way.
-/

namespace Yarr.Run

universe u v w

/-- A coroutine in use: its state, and whether a call is under way. -/
structure Caller (σ : Type v) where
  inside : Bool
  state : σ

variable {φ : Type u} {σ : Type v} {ι : Type w}

/-- What can happen next; a step into undefined behaviour leads nowhere. -/
inductive CallerStep (m : Coroutine φ σ) (push : σ → ι → σ) : Caller σ → Caller σ → Prop where
  | push (b : Bool) (s : σ) (x : ι) : CallerStep m push ⟨b, s⟩ ⟨b, push s x⟩
  | enterCont (s s' : σ) : m.enter s = .cont s' → CallerStep m push ⟨false, s⟩ ⟨true, s'⟩
  | enterRet (s s' : σ) : m.enter s = .ret s' → CallerStep m push ⟨false, s⟩ ⟨false, s'⟩
  | stepCont (s s' : σ) : m.step s = .cont s' → CallerStep m push ⟨true, s⟩ ⟨true, s'⟩
  | stepRet (s s' : σ) : m.step s = .ret s' → CallerStep m push ⟨true, s⟩ ⟨false, s'⟩

def Reaches (m : Coroutine φ σ) (push : σ → ι → σ) : Caller σ → Caller σ → Prop :=
  Relation.ReflTransGen (CallerStep m push)

end Yarr.Run
