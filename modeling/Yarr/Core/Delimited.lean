import Mathlib.Data.List.Basic
import Mathlib.Data.List.Induction

/-!
# Groups of items in a stream of symbols

Items are gathered until a closing symbol gives the group out. A stream may be cut
into pieces each of which is read on its own, and what is open at the end of a
piece is given out there as a group.
-/

namespace Yarr.Delimited

variable {α : Type}

inductive Symbol (α : Type) where
  | item (a : α)
  | close
  | idle

/-- The groups that are closed, and the one that is open at the end. -/
def scan : List α → List (Symbol α) → List (List α) × List α
  | pending, [] => ([], pending)
  | pending, .item a :: rest => scan (pending ++ [a]) rest
  | pending, .close :: rest => (pending :: (scan [] rest).1, (scan [] rest).2)
  | pending, .idle :: rest => scan pending rest

/-- How many groups are closed. -/
def closes : List (Symbol α) → Nat
  | [] => 0
  | .close :: rest => closes rest + 1
  | _ :: rest => closes rest

/-- What is open at the end, when there was nothing before. -/
def openAt (xs : List (Symbol α)) : List α := (scan [] xs).2

/-- What is given out for a piece: an open group is given out too, unless it is empty. -/
def flushed (xs : List (Symbol α)) : List (List α) :=
  (scan [] xs).1 ++ if openAt xs = [] then [] else [openAt xs]

theorem scan_append (pending : List α) (xs ys : List (Symbol α)) :
    scan pending (xs ++ ys) =
      ((scan pending xs).1 ++ (scan (scan pending xs).2 ys).1,
        (scan (scan pending xs).2 ys).2) := by
  induction xs generalizing pending with
  | nil => rfl
  | cons x xs ih =>
      cases x with
      | item a => exact ih (pending ++ [a])
      | close =>
          have hrest := ih []
          simp only [List.cons_append, scan]
          rw [hrest]
      | idle => exact ih pending

theorem length_scan (pending : List α) (xs : List (Symbol α)) :
    (scan pending xs).1.length = closes xs := by
  induction xs generalizing pending with
  | nil => rfl
  | cons x xs ih =>
      cases x with
      | item a => exact ih _
      | close => exact congrArg (· + 1) (ih [])
      | idle => exact ih _

theorem length_pending (pending : List α) (xs : List (Symbol α)) :
    (scan pending xs).2.length ≤ pending.length + xs.length := by
  induction xs generalizing pending with
  | nil => exact Nat.le_refl _
  | cons x xs ih =>
      rw [List.length_cons]
      cases x with
      | item a =>
          have hrest := ih (pending ++ [a])
          rw [List.length_append, List.length_singleton] at hrest
          simp only [scan]
          omega
      | close =>
          have hrest := ih []
          rw [List.length_nil] at hrest
          simp only [scan]
          omega
      | idle =>
          have hrest := ih pending
          simp only [scan]
          omega

theorem pending_suffix (before pending : List α) (xs : List (Symbol α)) :
    (scan pending xs).2 <:+ (scan (before ++ pending) xs).2 := by
  induction xs generalizing before pending with
  | nil => exact List.suffix_append _ _
  | cons x xs ih =>
      cases x with
      | item a =>
          have hrest := ih before (pending ++ [a])
          rw [← List.append_assoc] at hrest
          exact hrest
      | close => exact List.suffix_rfl
      | idle => exact ih before pending

theorem openAt_of_pending {pending : List α} {xs : List (Symbol α)}
    (hopen : (scan pending xs).2 = []) : openAt xs = [] := by
  have hsuffix := pending_suffix pending [] xs
  rw [List.append_nil, hopen] at hsuffix
  exact List.suffix_nil.mp hsuffix

theorem closes_append (xs ys : List (Symbol α)) : closes (xs ++ ys) = closes xs + closes ys := by
  have hlen := length_scan [] (xs ++ ys)
  rw [scan_append, List.length_append, length_scan, length_scan] at hlen
  exact hlen.symm

theorem openAt_append {xs : List (Symbol α)} (hxs : openAt xs = []) (ys : List (Symbol α)) :
    openAt (xs ++ ys) = openAt ys := by
  unfold openAt at hxs ⊢
  rw [scan_append, hxs]

theorem scan_append_of_closed {xs : List (Symbol α)} (hxs : openAt xs = [])
    (ys : List (Symbol α)) : (scan [] (xs ++ ys)).1 = (scan [] xs).1 ++ (scan [] ys).1 := by
  unfold openAt at hxs
  rw [scan_append, hxs]

theorem flushed_append {xs : List (Symbol α)} (hxs : openAt xs = []) (ys : List (Symbol α)) :
    flushed (xs ++ ys) = flushed xs ++ flushed ys := by
  unfold flushed
  rw [scan_append_of_closed hxs, openAt_append hxs, if_pos hxs, List.append_nil, List.append_assoc]

theorem flushed_of_closed {xs : List (Symbol α)} (hxs : openAt xs = []) :
    flushed xs = (scan [] xs).1 := by
  unfold flushed
  rw [if_pos hxs, List.append_nil]

theorem length_flushed (xs : List (Symbol α)) :
    (flushed xs).length = closes xs + if openAt xs = [] then 0 else 1 := by
  unfold flushed
  rw [List.length_append, length_scan]
  split
  · rfl
  · rfl

/-! ## Pieces -/

/-- Nothing is open behind any piece. -/
def ClosedCuts (pieces : List (List (Symbol α))) : Prop :=
  ∀ before after, pieces = before ++ after → openAt before.flatten = []

theorem closedCuts_of_all {pieces : List (List (Symbol α))} (hall : ∀ x ∈ pieces, openAt x = []) :
    ClosedCuts pieces := by
  rintro before after rfl
  induction before with
  | nil => rfl
  | cons x before ih =>
      have hx := hall x List.mem_cons_self
      rw [List.flatten_cons, openAt_append hx]
      exact ih fun y hy => hall y (List.mem_cons_of_mem _ hy)

theorem all_of_closedCuts {pieces : List (List (Symbol α))} (hcuts : ClosedCuts pieces) :
    ∀ x ∈ pieces, openAt x = [] := by
  intro x hx
  obtain ⟨before, after, rfl⟩ := List.append_of_mem hx
  have hbefore := hcuts before (x :: after) rfl
  have hnext := hcuts (before ++ [x]) after (by simp)
  rw [List.flatten_append, List.flatten_singleton, openAt_append hbefore] at hnext
  exact hnext

theorem flatMap_flushed_of_all {pieces : List (List (Symbol α))}
    (hall : ∀ x ∈ pieces, openAt x = []) :
    pieces.flatMap flushed = (scan [] pieces.flatten).1 := by
  induction pieces with
  | nil => rfl
  | cons x pieces ih =>
      have hx := hall x List.mem_cons_self
      rw [List.flatMap_cons, List.flatten_cons, scan_append_of_closed hx, flushed_of_closed hx,
        ih fun y hy => hall y (List.mem_cons_of_mem _ hy)]

theorem length_flatMap_flushed (pieces : List (List (Symbol α))) :
    closes pieces.flatten ≤ (pieces.flatMap flushed).length ∧
      ((pieces.flatMap flushed).length = closes pieces.flatten →
        ∀ x ∈ pieces, openAt x = []) := by
  induction pieces with
  | nil => exact ⟨Nat.le_refl _, fun _ _ hx => absurd hx List.not_mem_nil⟩
  | cons x pieces ih =>
      obtain ⟨hle, hall⟩ := ih
      have hlen := length_flushed x
      rw [List.flatten_cons, closes_append, List.flatMap_cons, List.length_append, hlen]
      by_cases hopen : openAt x = []
      · rw [if_pos hopen]
        refine ⟨by omega, ?_⟩
        intro heq y hy
        rcases List.mem_cons.mp hy with rfl | hmem
        · exact hopen
        · exact hall (by omega) y hmem
      · rw [if_neg hopen]
        refine ⟨by omega, ?_⟩
        intro heq
        omega

/-- Reading piece by piece gives the groups of the stream if and only if nothing is open at a
cut. -/
theorem flatMap_flushed_iff (pieces : List (List (Symbol α))) :
    pieces.flatMap flushed = (scan [] pieces.flatten).1 ↔ ClosedCuts pieces := by
  constructor
  · intro heq
    have hlen := congrArg List.length heq
    rw [length_scan] at hlen
    exact closedCuts_of_all ((length_flatMap_flushed pieces).2 hlen)
  · intro hcuts
    exact flatMap_flushed_of_all (all_of_closedCuts hcuts)

end Yarr.Delimited
