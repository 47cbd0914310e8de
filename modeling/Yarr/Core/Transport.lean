import Mathlib.Data.List.Basic

/-!
# Items sent as units

A sender writes each item as a run of units. A reader holds the units that are
still to come in whatever buffers it likes, and each of its calls takes one
item. Where an item ends may depend on what follows it. If every call takes the
item that stands first, repeated calls take the items in their order and
nothing else.
-/

namespace Yarr.Transport

universe u v w x

variable {ι : Type u} {υ : Type v} {γ : Type w} {σ : Type x}

theorem flatMap_eq_of_length {α : Type u} {β : Type v} {f g : α → List β}
    (hlength : ∀ a, (f a).length = (g a).length) {l : List α} (h : l.flatMap f = l.flatMap g) :
    ∀ a ∈ l, f a = g a := by
  induction l with
  | nil => exact fun a ha => absurd ha List.not_mem_nil
  | cons b l ih =>
      rw [List.flatMap_cons, List.flatMap_cons] at h
      rcases List.append_inj h (hlength b) with ⟨hb, hrest⟩
      intro a ha
      rcases List.mem_cons.mp ha with rfl | hmem
      · exact hb
      · exact ih hrest a hmem

/-- How items are written, what is read for them, and what may follow them. -/
structure Format (ι : Type u) (υ : Type v) (γ : Type w) where
  units : ι → List υ
  emits : ι → List γ
  Followed : ι → List υ → Prop

namespace Format

variable (F : Format ι υ γ)

def stream (items : List ι) : List υ := items.flatMap F.units

def read (items : List ι) : List γ := items.flatMap F.emits

/-- Every item is followed by what may follow it. -/
def Ordered : List ι → Prop
  | [] => True
  | i :: items => F.Followed i (F.stream items) ∧ Ordered items

@[simp] theorem stream_nil : F.stream [] = [] := rfl

@[simp] theorem stream_cons (i : ι) (items : List ι) :
    F.stream (i :: items) = F.units i ++ F.stream items := rfl

@[simp] theorem read_nil : F.read [] = [] := rfl

@[simp] theorem read_cons (i : ι) (items : List ι) :
    F.read (i :: items) = F.emits i ++ F.read items := rfl

theorem stream_append (a b : List ι) : F.stream (a ++ b) = F.stream a ++ F.stream b :=
  List.flatMap_append

theorem read_append (a b : List ι) : F.read (a ++ b) = F.read a ++ F.read b :=
  List.flatMap_append

theorem read_prefix {a b : List ι} (h : a <+: b) : F.read a <+: F.read b := by
  obtain ⟨c, rfl⟩ := h
  rw [read_append]
  exact List.prefix_append _ _

/-- An item that does not care what follows. -/
def Closed (i : ι) : Prop := ∀ rest, F.Followed i rest

/--
Items may be put before any others if each of them is content with what follows
it among them, however the stream goes on.
-/
def Sealed (items : List ι) : Prop :=
  ∀ later, F.Ordered later → F.Ordered (items ++ later)

theorem sealed_of_closed {items : List ι} (h : ∀ i ∈ items, F.Closed i) : F.Sealed items := by
  induction items with
  | nil => exact fun _ hlater => hlater
  | cons i items ih =>
      intro later hlater
      have hitems := ih (fun j hj => h j (List.mem_cons_of_mem i hj)) later hlater
      exact ⟨h i List.mem_cons_self _, hitems⟩

theorem sealed_append {a b : List ι} (ha : F.Sealed a) (hb : F.Sealed b) : F.Sealed (a ++ b) := by
  intro later hlater
  rw [List.append_assoc]
  exact ha _ (hb later hlater)

theorem sealed_flatMap {κ : Type*} {l : List κ} {f : κ → List ι} (h : ∀ k, F.Sealed (f k)) :
    F.Sealed (l.flatMap f) := by
  induction l with
  | nil => exact fun _ hlater => hlater
  | cons k l ih =>
      rw [List.flatMap_cons]
      exact F.sealed_append (h k) ih

theorem ordered_of_sealed {items : List ι} (h : F.Sealed items) : F.Ordered items := by
  have hall := h [] trivial
  rw [List.append_nil] at hall
  exact hall

end Format

/-- A state of the reader: the units to come and what has been read. -/
structure View (σ : Type x) (υ : Type v) (γ : Type w) where
  pending : σ → List υ
  out : σ → List γ

/-- `n` calls in a row. -/
def calls (call : σ → Option σ) : Nat → σ → Option σ
  | 0, s => some s
  | n + 1, s => (call s).bind (calls call n)

variable (F : Format ι υ γ) (V : View σ υ γ) (call : σ → Option σ)

/-- A call takes the item that stands first. -/
def TakesFirst : Prop :=
  ∀ s i rest, V.pending s = F.units i ++ rest → F.Followed i rest →
    ∃ s', call s = some s' ∧ V.pending s' = rest ∧ V.out s' = V.out s ++ F.emits i

variable {F V call}

theorem calls_take (h : TakesFirst F V call) {items : List ι} (hordered : F.Ordered items) {s : σ}
    (hs : V.pending s = F.stream items) {n : Nat} (hn : n ≤ items.length) :
    ∃ s', calls call n s = some s' ∧ V.pending s' = F.stream (items.drop n) ∧
      V.out s' = V.out s ++ F.read (items.take n) := by
  induction n generalizing items s with
  | zero =>
      apply Exists.intro s
      rw [List.drop_zero, List.take_zero, F.read_nil, List.append_nil]
      exact ⟨rfl, hs, rfl⟩
  | succ n ih =>
      cases items with
      | nil => simp at hn
      | cons i items =>
          obtain ⟨hfollowed, hrest⟩ := hordered
          obtain ⟨t, ht, hpending, hout⟩ := h s i (F.stream items) hs hfollowed
          have hle : n ≤ items.length := by
            rw [List.length_cons] at hn
            omega
          obtain ⟨s', hs', hpending', hout'⟩ := ih hrest hpending hle
          apply Exists.intro s'
          rw [calls, ht, Option.bind_some, List.drop_succ_cons, List.take_succ_cons, F.read_cons,
            ← List.append_assoc, ← hout]
          exact ⟨hs', hpending', hout'⟩

theorem calls_add (m n : Nat) (s : σ) : calls call (m + n) s = (calls call m s).bind (calls call n) := by
  induction m generalizing s with
  | zero => rw [Nat.zero_add, calls, Option.bind_some]
  | succ m ih =>
      rw [Nat.succ_add, calls, calls, Option.bind_assoc]
      apply congrArg
      funext t
      exact ih t

theorem calls_kept {I : σ → Prop} (hstep : ∀ s s', I s → call s = some s' → I s') {s s' : σ}
    (hs : I s) {n : Nat} (h : calls call n s = some s') : I s' := by
  induction n generalizing s with
  | zero =>
      cases h
      exact hs
  | succ n ih =>
      obtain ⟨t, ht, hrest⟩ := Option.bind_eq_some_iff.mp h
      exact ih (hstep s t hs ht) hrest

theorem calls_idle {s : σ} (h : call s = some s) (n : Nat) : calls call n s = some s := by
  induction n with
  | zero => rfl
  | succ n ih => rw [calls, h, Option.bind_some, ih]

end Yarr.Transport

/-!
## Queues that are flushed

Items enter a queue at its end and leave it at its front, through a coding,
into the record of what was sent. A `Passes` fact says of a step, or of a
whole run, which items entered; nothing is lost, repeated or reordered.
-/

namespace Yarr

universe u v w x

/-- What was sent so far and what still waits. -/
structure Outbox (β : Type u) (γ : Type v) where
  sent : List γ
  held : List β
  deriving DecidableEq

namespace Outbox

variable {β : Type u} {γ : Type v} {f : β → γ} {a b c : Outbox β γ} {xs ys : List β}

/-- From `a` to `b` the items `xs` entered, and what left the front was sent. -/
def Passes (f : β → γ) (a b : Outbox β γ) (xs : List β) : Prop :=
  ∃ out, b.sent = a.sent ++ out.map f ∧ out ++ b.held = a.held ++ xs

theorem Passes.refl (f : β → γ) (a : Outbox β γ) : Passes f a a [] :=
  ⟨[], by simp⟩

theorem Passes.put (f : β → γ) (a : Outbox β γ) (xs : List β) :
    Passes f a ⟨a.sent, a.held ++ xs⟩ xs :=
  ⟨[], by simp⟩

theorem Passes.flush (f : β → γ) (a : Outbox β γ) :
    Passes f a ⟨a.sent ++ a.held.map f, []⟩ [] :=
  ⟨a.held, by simp⟩

theorem Passes.trans (h₁ : Passes f a b xs) (h₂ : Passes f b c ys) :
    Passes f a c (xs ++ ys) := by
  obtain ⟨out₁, hs₁, hh₁⟩ := h₁
  obtain ⟨out₂, hs₂, hh₂⟩ := h₂
  refine ⟨out₁ ++ out₂, ?_, ?_⟩
  · rw [hs₂, hs₁, List.map_append, List.append_assoc]
  · rw [List.append_assoc, hh₂, ← List.append_assoc, hh₁, List.append_assoc]

theorem passes_foldl {σ : Type w} {ι : Type x} {step : σ → ι → σ} (P : σ → Prop)
    (view : σ → Outbox β γ) (hP : ∀ s i, P s → P (step s i))
    (hstep : ∀ s i, P s → Passes f (view s) (view (step s i)) []) (is : List ι) {s : σ}
    (h : P s) : Passes f (view s) (view (is.foldl step s)) [] := by
  induction is generalizing s with
  | nil => exact Passes.refl f _
  | cons i is ih => exact (hstep s i h).trans (ih (hP s i h))

end Outbox

end Yarr

/-!
## Computations on a script

A computation asks its environment for results, and a script has the results
that it gets. It may come to the end of the script, where it would wait, or to
a step that has no defined effect.
-/

namespace Yarr.Script

universe u v

inductive Stop where
  | waiting
  | crash
  deriving DecidableEq

variable {α : Type u} {β : Type u} {σ : Type u} {ι : Type v}

/-- There is no crash, and what is returned meets a condition. -/
def Ensures (x : Except Stop α) (Q : α → Prop) : Prop :=
  match x with
  | .ok a => Q a
  | .error .waiting => True
  | .error .crash => False

theorem ensures_pure {a : α} {Q : α → Prop} (h : Q a) :
    Ensures (pure a : Except Stop α) Q := h

theorem ensures_waiting {Q : α → Prop} : Ensures (.error .waiting : Except Stop α) Q := trivial

theorem Ensures.mono {x : Except Stop α} {Q R : α → Prop} (h : Ensures x Q)
    (himp : ∀ a, Q a → R a) : Ensures x R := by
  cases x with
  | ok a => exact himp a h
  | error e =>
      cases e with
      | waiting => trivial
      | crash => exact h

theorem Ensures.bind {x : Except Stop α} {f : α → Except Stop β} {Q : α → Prop} {R : β → Prop}
    (h : Ensures x Q) (hf : ∀ a, Q a → Ensures (f a) R) : Ensures (x >>= f) R := by
  cases x with
  | ok a => exact hf a h
  | error e =>
      cases e with
      | waiting => trivial
      | crash => exact h

theorem ensures_foldlM {f : σ → ι → Except Stop σ} {I : List ι → σ → Prop} {l done : List ι}
    (hf : ∀ done s i, i ∈ l → I done s → Ensures (f s i) (I (done ++ [i]))) {s : σ}
    (h : I done s) : Ensures (l.foldlM f s) (I (done ++ l)) := by
  induction l generalizing done s with
  | nil =>
      rw [List.append_nil]
      exact h
  | cons i l ih =>
      rw [List.foldlM_cons]
      apply (hf done s i List.mem_cons_self h).bind
      intro s' hs'
      have hrest := ih (fun done s j hj => hf done s j (List.mem_cons_of_mem i hj)) hs'
      rw [List.append_assoc] at hrest
      exact hrest

theorem Ensures.returns {x : Except Stop α} {Q : α → Prop} (h : Ensures x Q)
    (hwaiting : x ≠ .error .waiting) : ∃ a, x = .ok a ∧ Q a := by
  cases x with
  | ok a => exact ⟨a, rfl, h⟩
  | error e =>
      cases e with
      | waiting => exact absurd rfl hwaiting
      | crash => exact h.elim

theorem bind_ne_waiting {x : Except Stop α} {f : α → Except Stop β} (hx : x ≠ .error .waiting)
    (hf : ∀ a, f a ≠ .error .waiting) : (x >>= f) ≠ .error .waiting := by
  cases x with
  | ok a => exact hf a
  | error e => exact fun h => hx (by cases h; rfl)

theorem bind_eq_ok {x : Except Stop α} {f : α → Except Stop β} {b : β}
    (h : (x >>= f) = .ok b) : ∃ a, x = .ok a ∧ f a = .ok b := by
  cases x with
  | ok a => exact ⟨a, rfl, h⟩
  | error e => cases h

theorem foldlM_ne_waiting {f : σ → ι → Except Stop σ} (hf : ∀ s i, f s i ≠ .error .waiting)
    (l : List ι) (s : σ) : l.foldlM f s ≠ .error .waiting := by
  induction l generalizing s with
  | nil => exact fun h => by cases h
  | cons i l ih =>
      rw [List.foldlM_cons]
      exact bind_ne_waiting (hf s i) ih

end Yarr.Script
