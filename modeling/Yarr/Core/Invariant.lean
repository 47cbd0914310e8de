import Mathlib.Data.List.Induction

/-!
# Invariants with a condition

A step keeps an invariant exactly under a condition on the state before it.
Then a run keeps it in all its states exactly if all its steps meet the
condition.
-/

namespace Yarr.Invariant

universe u v

variable {σ : Type u} {α : Type v} {P : σ → Prop} {C : σ → α → Prop}

theorem prefix_of_concat {p l : List α} {a : α} (h : p ++ [a] <+: l) : p <+: l :=
  (List.prefix_append p [a]).trans h

theorem eq_of_concat_prefix_singleton {p : List α} {a b : α} (h : p ++ [a] <+: [b]) :
    p = [] ∧ a = b := by
  cases p with
  | nil =>
      rw [List.nil_append, List.cons_prefix_cons] at h
      exact ⟨rfl, h.1⟩
  | cons c p =>
      have hle := h.length_le
      simp at hle

theorem throughout_iff {step : σ → α → σ} (hstep : ∀ s a, P s → (P (step s a) ↔ C s a)) {s : σ}
    (hs : P s) (l : List α) :
    (∀ p, p <+: l → P (p.foldl step s)) ↔ ∀ p a, p ++ [a] <+: l → C (p.foldl step s) a := by
  constructor
  · intro h p a hp
    have hnext := h _ hp
    rw [List.foldl_append] at hnext
    exact (hstep _ a (h p (prefix_of_concat hp))).mp hnext
  · intro h p
    induction p using List.reverseRecOn with
    | nil => exact fun _ => hs
    | append_singleton p a ih =>
        intro hp
        rw [List.foldl_append]
        exact (hstep _ a (ih (prefix_of_concat hp))).mpr (h p a hp)

theorem foldlM_concat {step : σ → α → Option σ} {s : σ} {p : List α} {a : α} {s'' : σ} :
    (p ++ [a]).foldlM step s = some s'' ↔
      ∃ s', p.foldlM step s = some s' ∧ step s' a = some s'' := by
  rw [List.foldlM_append, Option.bind_eq_bind, Option.bind_eq_some_iff]
  simp

theorem throughout_iff_of_partial {step : σ → α → Option σ}
    (hstep : ∀ s a s', P s → step s a = some s' → (P s' ↔ C s a)) {s : σ} (hs : P s)
    (l : List α) :
    (∀ p s', p <+: l → p.foldlM step s = some s' → P s') ↔
      ∀ p a s' s'', p ++ [a] <+: l → p.foldlM step s = some s' → step s' a = some s'' →
        C s' a := by
  constructor
  · intro h p a s' s'' hp hs' hs''
    have hnext := h (p ++ [a]) s'' hp (foldlM_concat.mpr ⟨s', hs', hs''⟩)
    exact (hstep s' a s'' (h p s' (prefix_of_concat hp) hs') hs'').mp hnext
  · intro h p
    induction p using List.reverseRecOn with
    | nil =>
        intro s' _ hs'
        obtain rfl := Option.some.inj hs'
        exact hs
    | append_singleton p a ih =>
        intro s'' hp hrun
        obtain ⟨s', hs', hs''⟩ := foldlM_concat.mp hrun
        have hbefore := ih s' (prefix_of_concat hp) hs'
        exact (hstep s' a s'' hbefore hs'').mpr (h p a s' s'' hp hs' hs'')

end Yarr.Invariant

/-!
## A pool with one worker

Tasks queue up. The worker takes the first one, and finishes it before it takes
another one. So the state is that after some first tasks, in their order.
-/

namespace Yarr

universe u v

structure Pool (σ : Type u) (τ : Type v) where
  state : σ
  running : Option τ
  tasks : List τ

namespace Pool

variable {σ : Type u} {τ : Type v} (p : Pool σ τ)

def taskSize : Nat := p.tasks.length

def enqueue (t : τ) : Pool σ τ := { p with tasks := p.tasks ++ [t] }

/-- The worker goes to the queue; `none` while it is at work, or nothing is there. -/
def take : Option (Pool σ τ) :=
  match p.running, p.tasks with
  | none, t :: tasks => some ⟨p.state, some t, tasks⟩
  | _, _ => none

/-- The worker is done with its task. -/
def finish (exec : σ → τ → Option σ) : Option (Pool σ τ) :=
  match p.running with
  | some t => (exec p.state t).map fun state => ⟨state, none, p.tasks⟩
  | none => none

/-- The tasks that have had no effect so far. -/
def pending : List τ := p.running.toList ++ p.tasks

variable {p}

/-- The state is that after `executed`, and the rest of the tasks is still to come. -/
structure Served (exec : σ → τ → Option σ) (init : σ) (issued executed : List τ)
    (p : Pool σ τ) : Prop where
  issued_eq : executed ++ p.pending = issued
  state_eq : executed.foldlM exec init = some p.state

variable {exec : σ → τ → Option σ} {init : σ} {issued executed : List τ}

theorem served_start : Served exec init [] [] ⟨init, none, []⟩ := ⟨rfl, rfl⟩

theorem Served.enqueue (h : Served exec init issued executed p) (t : τ) :
    Served exec init (issued ++ [t]) executed (p.enqueue t) := by
  constructor
  · rw [← h.issued_eq, pending, pending, List.append_assoc, List.append_assoc]
    rfl
  · exact h.state_eq

theorem Served.take (h : Served exec init issued executed p) {p' : Pool σ τ}
    (hp' : p.take = some p') : Served exec init issued executed p' := by
  obtain ⟨state, running, tasks⟩ := p
  cases running with
  | some t => cases hp'
  | none =>
      cases tasks with
      | nil => cases hp'
      | cons t tasks =>
          obtain rfl := Option.some.inj hp'
          exact ⟨h.issued_eq, h.state_eq⟩

theorem Served.finish (h : Served exec init issued executed p) {p' : Pool σ τ}
    (hp' : p.finish exec = some p') :
    ∃ t, p.running = some t ∧ exec p.state t = some p'.state ∧
      Served exec init issued (executed ++ [t]) p' := by
  obtain ⟨state, running, tasks⟩ := p
  cases running with
  | none => cases hp'
  | some t =>
      obtain ⟨state', hexec, rfl⟩ := Option.map_eq_some_iff.mp hp'
      refine ⟨t, rfl, hexec, ?_, ?_⟩
      · rw [← h.issued_eq, List.append_assoc]
        rfl
      · exact Invariant.foldlM_concat.mpr ⟨state, h.state_eq, hexec⟩

end Pool

end Yarr
