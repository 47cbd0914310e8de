import Mathlib.Algebra.Ring.Int.Defs
import Mathlib.Algebra.Ring.Nat

/-!
# Rounds until all parties are done

In each round every party takes one step of its own. The loop ends when all are
found done, before the step of a round or after it. Steps may be undefined.
-/

namespace Yarr.Rounds

variable {σ ε : Type} {n : Nat}

/-- The rules of a party. -/
structure Party (σ ε : Type) where
  step : ε → σ → Option σ
  done : σ → Bool

/-- What the loop comes to after some rounds, and whether it has ended. With `early` the parties
are asked before the step of the round. -/
inductive Reached (party : Party σ ε) (early : Bool) (events : Nat → Fin n → ε)
    (start : Fin n → σ) : Nat → Bool → (Fin n → σ) → Prop where
  | start : Reached party early events start 0 false start
  | round {k : Nat} {s s' : Fin n → σ} : Reached party early events start k false s →
      (∀ id, party.step (events k id) (s id) = some (s' id)) →
      Reached party early events start (k + 1)
        (decide (∀ id, party.done (if early then s id else s' id) = true)) s'

/-- Every step that fits is defined, keeps the invariant, and leads nearer to the end. -/
structure Ranked (party : Party σ ε) (events : Nat → Fin n → ε) (start : Fin n → σ)
    (fits inv : Nat → Fin n → σ → Prop) (rank : σ → Nat) (bound : Nat) : Prop where
  start : ∀ id, inv 0 id (start id) ∧ rank (start id) ≤ bound
  step : ∀ k id s, inv k id s → fits k id s →
    ∃ s', party.step (events k id) s = some s' ∧ inv (k + 1) id s' ∧
      (party.done s = true → party.done s' = true) ∧
      (party.done s = false → party.done s' = true ∨ rank s' < rank s)

variable {party : Party σ ε} {early : Bool} {events : Nat → Fin n → ε} {start : Fin n → σ}
  {fits inv : Nat → Fin n → σ → Prop} {rank : σ → Nat} {bound : Nat}

theorem Reached.of_zero {ended : Bool} {s : Fin n → σ}
    (hreached : Reached party early events start 0 ended s) : ended = false ∧ s = start := by
  cases hreached
  exact ⟨rfl, rfl⟩

theorem Reached.of_succ {k : Nat} {ended : Bool} {s' : Fin n → σ}
    (hreached : Reached party early events start (k + 1) ended s') :
    ∃ s, Reached party early events start k false s ∧
      (∀ id, party.step (events k id) (s id) = some (s' id)) ∧
      ended = decide (∀ id, party.done (if early then s id else s' id) = true) := by
  cases hreached with
  | round hbefore hstep => exact ⟨_, hbefore, hstep, rfl⟩

theorem not_reached_after {k : Nat} (hended : ∀ s, ¬Reached party early events start k false s)
    (j : Nat) (s : Fin n → σ) : ¬Reached party early events start (k + j) false s := by
  induction j generalizing s with
  | zero => exact hended s
  | succ j ih =>
      intro hreached
      obtain ⟨s₀, hbefore, _⟩ := Reached.of_succ hreached
      exact ih s₀ hbefore

/-- In every round of the run all steps fit. -/
def AllFit (party : Party σ ε) (early : Bool) (events : Nat → Fin n → ε) (start : Fin n → σ)
    (fits : Nat → Fin n → σ → Prop) : Prop :=
  ∀ k s, Reached party early events start k false s → ∀ id, fits k id (s id)

theorem kept (hranked : Ranked party events start fits inv rank bound)
    (hfit : AllFit party early events start fits) {k : Nat} {ended : Bool} {s : Fin n → σ}
    (hreached : Reached party early events start k ended s) (id : Fin n) :
    inv k id (s id) ∧ (party.done (s id) = true ∨ rank (s id) + k ≤ bound) := by
  induction hreached with
  | start =>
      obtain ⟨hinv, hrank⟩ := hranked.start id
      exact ⟨hinv, Or.inr hrank⟩
  | @round k s s' hbefore hstep ih =>
      obtain ⟨hinv, hleft⟩ := ih
      obtain ⟨t, ht, hinv', hdone, hless⟩ := hranked.step k id (s id) hinv (hfit k s hbefore id)
      have hsame : t = s' id := Option.some.inj (ht.symm.trans (hstep id))
      subst hsame
      refine ⟨hinv', ?_⟩
      cases hd : party.done (s id) with
      | true => exact Or.inl (hdone hd)
      | false =>
          rcases hless hd with hdone' | hlt
          · exact Or.inl hdone'
          · rw [hd] at hleft
            rcases hleft with hfalse | hle
            · cases hfalse
            · right
              omega

theorem done_of_bound (hranked : Ranked party events start fits inv rank bound)
    (hfit : AllFit party early events start fits) {k : Nat} {ended : Bool} {s : Fin n → σ}
    (hreached : Reached party early events start k ended s) (hk : bound < k) (id : Fin n) :
    party.done (s id) = true := by
  rcases (kept hranked hfit hreached id).2 with hdone | hle
  · exact hdone
  · omega

theorem ended_or_reached (hranked : Ranked party events start fits inv rank bound)
    (hfit : AllFit party early events start fits) (k : Nat) :
    (∃ j, j ≤ k ∧ ∃ s, Reached party early events start j true s) ∨
      ∃ s, Reached party early events start k false s := by
  induction k with
  | zero => exact Or.inr ⟨start, .start⟩
  | succ k ih =>
      rcases ih with ⟨j, hj, s, hs⟩ | ⟨s, hs⟩
      · exact Or.inl ⟨j, Nat.le_succ_of_le hj, s, hs⟩
      · have hnext : ∀ id, ∃ s', party.step (events k id) (s id) = some s' := by
          intro id
          obtain ⟨s', hs', _⟩ :=
            hranked.step k id (s id) (kept hranked hfit hs id).1 (hfit k s hs id)
          exact ⟨s', hs'⟩
        have hround := Reached.round hs fun id => (hnext id).choose_spec
        generalize hended : decide (∀ id, party.done
          (if early then s id else (hnext id).choose) = true) = ended at hround
        cases ended with
        | true => exact Or.inl ⟨k + 1, Nat.le_refl _, _, hround⟩
        | false => exact Or.inr ⟨_, hround⟩

theorem ends (hranked : Ranked party events start fits inv rank bound)
    (hfit : AllFit party early events start fits) :
    ∃ k, k ≤ bound + 2 ∧ ∃ s, Reached party early events start k true s := by
  rcases ended_or_reached hranked hfit (bound + 2) with hended | ⟨s, hs⟩
  · exact hended
  · -- all were done a round before
    generalize hk : bound + 2 = k at hs
    generalize hended : false = ended at hs
    cases hs with
    | start => omega
    | @round k s₀ _ hbefore hstep =>
        have hall : ∀ id, party.done (if early then s₀ id else s id) = true := by
          intro id
          cases early with
          | true => exact done_of_bound hranked hfit hbefore (by omega) id
          | false => exact done_of_bound hranked hfit (.round hbefore hstep) (by omega) id
        rw [decide_eq_true hall] at hended
        cases hended

/-! ## One party in two runs -/

section TwoRuns

variable {n' : Nat} {events' : Nat → Fin n' → ε} {start' : Fin n' → σ} {id : Fin n} {id' : Fin n'}

theorem same_of_events (hstart : start id = start' id') {k : Nat} {ended ended' : Bool}
    {s : Fin n → σ} {s' : Fin n' → σ} (hreached : Reached party early events start k ended s)
    (hreached' : Reached party early events' start' k ended' s')
    (hsame : ∀ j, j < k → events j id = events' j id') : s id = s' id' := by
  induction k generalizing ended ended' s s' with
  | zero =>
      rw [hreached.of_zero.2, hreached'.of_zero.2]
      exact hstart
  | succ k ih =>
      obtain ⟨t, ht, hstep, -⟩ := hreached.of_succ
      obtain ⟨t', ht', hstep', -⟩ := hreached'.of_succ
      have hbefore := ih ht ht' fun j hj => hsame j (Nat.lt_succ_of_lt hj)
      have hnext := hstep id
      rw [hsame k (Nat.lt_succ_self k), hbefore, hstep' id'] at hnext
      exact (Option.some.inj hnext).symm

theorem Reached.earlier {k j : Nat} {ended : Bool} {s : Fin n → σ}
    (hreached : Reached party early events start k ended s) (hj : j < k) :
    ∃ s', Reached party early events start j false s' := by
  induction k generalizing ended s with
  | zero => exact absurd hj (Nat.not_lt_zero j)
  | succ k ih =>
      obtain ⟨t, ht, -, -⟩ := hreached.of_succ
      by_cases hlast : j = k
      · exact ⟨t, hlast ▸ ht⟩
      · exact ih ht (by omega)

theorem value_kept {β : Type} {value : σ → β} {d k : Nat} (hd : d ≤ k) {ended ended' : Bool}
    {s t : Fin n → σ} (hreached : Reached party early events start k ended s)
    (hbefore : Reached party early events start d ended' t)
    (hkeeps : ∀ (j : Nat) (u : Fin n → σ) (v : σ), d ≤ j → j < k →
      Reached party early events start j false u →
      party.step (events j id) (u id) = some v → value v = value (u id)) :
    value (s id) = value (t id) := by
  induction k generalizing ended s with
  | zero =>
      have hzero : d = 0 := Nat.le_zero.mp hd
      subst hzero
      rw [same_of_events rfl hreached hbefore fun _ _ => rfl]
  | succ k ih =>
      by_cases hlast : d = k + 1
      · subst hlast
        rw [same_of_events rfl hreached hbefore fun _ _ => rfl]
      · have hle : d ≤ k := by omega
        obtain ⟨u, hu, hstep, -⟩ := hreached.of_succ
        have hstay := hkeeps k u (s id) hle (Nat.lt_succ_self k) hu (hstep id)
        have hrest := ih hle hu fun j w v hj hjk => hkeeps j w v hj (Nat.lt_succ_of_lt hjk)
        exact hstay.trans hrest

end TwoRuns

end Yarr.Rounds
