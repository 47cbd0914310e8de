import Mathlib.Data.List.Forall2

/-!
# Observational equality

Two states are alike if they show the same after any operations, those that
have no defined result included. A relation that operations keep, and whose
states show the same, is enough for that.
-/

namespace Yarr.Observation

universe u v w

variable {σ : Type u} {ι : Type v} {ω : Type w}

variable (step : σ → ι → Option σ) (observe : σ → ω) (allowed : ι → Prop)

/-- The state after some operations. -/
def runOps (s : σ) : List ι → Option σ
  | [] => some s
  | i :: ops => (step s i).bind fun t => runOps t ops

def Alike (s t : σ) : Prop :=
  ∀ ops : List ι, (∀ i ∈ ops, allowed i) →
    (runOps step s ops).map observe = (runOps step t ops).map observe

variable {step observe allowed}

theorem Alike.now {s t : σ} (h : Alike step observe allowed s t) : observe s = observe t := by
  have hnow := h [] (by simp)
  simpa [runOps] using hnow

theorem Alike.next {s t : σ} (h : Alike step observe allowed s t) {i : ι} (hi : allowed i) :
    (step s i).map observe = (step t i).map observe := by
  have hnext := h [i] (by simpa using hi)
  simpa [runOps] using hnext

theorem alike_of_relation (R : σ → σ → Prop) (hobserve : ∀ s t, R s t → observe s = observe t)
    (hstep : ∀ s t i, R s t → Option.Rel R (step s i) (step t i)) {s t : σ} (h : R s t) :
    Alike step observe allowed s t := by
  intro ops hallowed
  clear hallowed
  induction ops generalizing s t with
  | nil => exact congrArg some (hobserve s t h)
  | cons i ops ih =>
      have hnext := hstep s t i h
      rw [runOps, runOps]
      cases hs : step s i with
      | none =>
          rw [hs] at hnext
          cases ht : step t i with
          | none => rfl
          | some t' =>
              rw [ht] at hnext
              cases hnext
      | some s' =>
          rw [hs] at hnext
          cases ht : step t i with
          | none =>
              rw [ht] at hnext
              cases hnext
          | some t' =>
              rw [ht] at hnext
              cases hnext with
              | some hrel => exact ih hrel

end Yarr.Observation

/-!
## Machines in lockstep

Machines that are given the same inputs, one after the other, do what each of
them does with the inputs alone.
-/

namespace Yarr.Lockstep

variable {ε σ ι : Type}

theorem mapM_ok_iff {α β : Type} (f : α → Except ε β) (xs : List α) (ys : List β) :
    xs.mapM f = .ok ys ↔ List.Forall₂ (fun x y => f x = .ok y) xs ys := by
  induction xs generalizing ys with
  | nil =>
      rw [List.forall₂_nil_left_iff, List.mapM_nil]
      exact ⟨fun h => (Except.ok.inj h).symm, fun h => h ▸ rfl⟩
  | cons x xs ih =>
      rw [List.mapM_cons, List.forall₂_cons_left_iff]
      cases hx : f x with
      | error e => simp [bind, Except.bind]
      | ok y =>
          cases hxs : xs.mapM f with
          | error e =>
              have hnone : ∀ zs, ¬List.Forall₂ (fun x y => f x = .ok y) xs zs := by
                intro zs hzs
                rw [← ih, hxs] at hzs
                cases hzs
              simp [bind, Except.bind, hnone]
          | ok zs =>
              have honly : ∀ us, List.Forall₂ (fun x y => f x = .ok y) xs us ↔ zs = us := by
                intro us
                rw [← ih, hxs]
                exact ⟨Except.ok.inj, fun h => h ▸ rfl⟩
              simp only [honly, Except.ok.injEq]
              show Except.ok (y :: zs) = Except.ok ys ↔ _
              rw [Except.ok.injEq]
              exact ⟨fun h => ⟨y, zs, rfl, rfl, h.symm⟩, fun ⟨_, _, hy, hzs, h⟩ => by rw [h, hy, hzs]⟩

theorem forall₂_comp {α β γ : Type} {R : α → β → Prop} {S : β → γ → Prop} {xs : List α}
    {zs : List γ} : List.Forall₂ (fun x z => ∃ y, R x y ∧ S y z) xs zs ↔
      ∃ ys, List.Forall₂ R xs ys ∧ List.Forall₂ S ys zs := by
  constructor
  · intro h
    induction h with
    | nil => exact ⟨[], .nil, .nil⟩
    | cons hxz _ ih =>
        rcases hxz with ⟨y, hR, hS⟩
        rcases ih with ⟨ys, hRs, hSs⟩
        exact ⟨y :: ys, .cons hR hRs, .cons hS hSs⟩
  · rintro ⟨ys, hR, hS⟩
    induction hR generalizing zs with
    | nil =>
        cases hS
        exact .nil
    | cons hxy _ ih =>
        cases hS with
        | cons hyz hS => exact .cons ⟨_, hxy, hyz⟩ (ih hS)

theorem forall₂_and {α β : Type} {R S : α → β → Prop} {xs : List α} {ys : List β} :
    List.Forall₂ (fun x y => R x y ∧ S x y) xs ys ↔ List.Forall₂ R xs ys ∧ List.Forall₂ S xs ys := by
  constructor
  · intro h
    exact ⟨h.imp fun _ _ h => h.1, h.imp fun _ _ h => h.2⟩
  · rintro ⟨hR, hS⟩
    induction hR with
    | nil => exact .nil
    | cons hxy _ ih =>
        cases hS with
        | cons hS hSs => exact .cons ⟨hxy, hS⟩ (ih hSs)

theorem exists_forall₂_iff {α β : Type} (R : α → β → Prop) (xs : List α) :
    (∃ ys, List.Forall₂ R xs ys) ↔ ∀ x ∈ xs, ∃ y, R x y := by
  induction xs with
  | nil => exact ⟨fun _ x hx => absurd hx List.not_mem_nil, fun _ => ⟨[], .nil⟩⟩
  | cons x xs ih =>
      rw [List.forall_mem_cons, ← ih]
      constructor
      · rintro ⟨_, h⟩
        cases h with
        | cons hy hys => exact ⟨⟨_, hy⟩, ⟨_, hys⟩⟩
      · rintro ⟨⟨y, hy⟩, ⟨ys, hys⟩⟩
        exact ⟨y :: ys, .cons hy hys⟩

theorem foldlM_cons_ok_iff (step : σ → ι → Except ε σ) (i : ι) (items : List ι) (s t : σ) :
    (i :: items).foldlM step s = .ok t ↔ ∃ u, step s i = .ok u ∧ items.foldlM step u = .ok t := by
  rw [List.foldlM_cons]
  cases h : step s i with
  | error e => simp [bind, Except.bind]
  | ok u => simp [bind, Except.bind]

theorem foldlM_mapM_ok_iff (step : σ → ι → Except ε σ) (items : List ι) (xs ys : List σ) :
    items.foldlM (fun xs i => xs.mapM (step · i)) xs = .ok ys ↔
      List.Forall₂ (fun x y => items.foldlM step x = .ok y) xs ys := by
  induction items generalizing xs with
  | nil =>
      have heq : (fun x y : σ => [].foldlM step x = Except.ok y) = Eq := by
        funext x y
        exact propext ⟨Except.ok.inj, fun h => h ▸ rfl⟩
      rw [heq, List.forall₂_eq_eq_eq]
      exact ⟨Except.ok.inj, fun h => h ▸ rfl⟩
  | cons i items ih =>
      simp only [foldlM_cons_ok_iff, forall₂_comp, mapM_ok_iff, ih]

end Yarr.Lockstep
