import Mathlib.Data.List.Induction
import Mathlib.Data.Nat.Periodic
import Mathlib.Order.Defs.LinearOrder

/-!
# The latest of the cheapest

An element of least cost, and the last one if there are several, which a search
through a list carries along.
-/

namespace Yarr.Closest

universe u v

variable {α : Type u} {β : Type v} [LinearOrder β] (cost : α → β)

/-- The later element wins unless it costs more. -/
def pick (b p : α) : α := if cost b < cost p then b else p

def closest (b : α) (l : List α) : α := l.foldl (pick cost) b

@[simp] theorem closest_nil (b : α) : closest cost b [] = b := rfl

theorem closest_concat (b : α) (l : List α) (p : α) :
    closest cost b (l ++ [p]) = pick cost (closest cost b l) p := by
  rw [closest, List.foldl_append]
  rfl

theorem pick_or (b p : α) : pick cost b p = b ∨ pick cost b p = p := by
  unfold pick
  split
  · exact Or.inl rfl
  · exact Or.inr rfl

theorem cost_pick_le (b p : α) :
    cost (pick cost b p) ≤ cost b ∧ cost (pick cost b p) ≤ cost p := by
  unfold pick
  by_cases h : cost b < cost p
  · rw [if_pos h]
    exact ⟨le_refl _, le_of_lt h⟩
  · rw [if_neg h]
    exact ⟨le_of_not_gt h, le_refl _⟩

theorem closest_mem (b : α) (l : List α) : closest cost b l ∈ b :: l := by
  induction l using List.reverseRecOn with
  | nil => exact List.mem_cons_self
  | append_singleton l p ih =>
      rw [closest_concat]
      rcases pick_or cost (closest cost b l) p with h | h
      · rw [h]
        exact List.mem_append_left [p] ih
      · rw [h]
        exact List.mem_append_right (b :: l) List.mem_cons_self

theorem cost_closest_le (b : α) (l : List α) : ∀ q ∈ b :: l, cost (closest cost b l) ≤ cost q := by
  induction l using List.reverseRecOn with
  | nil =>
      intro q hq
      rw [List.mem_singleton.mp hq]
      exact le_refl _
  | append_singleton l p ih =>
      intro q hq
      rw [closest_concat]
      have hle := cost_pick_le cost (closest cost b l) p
      rcases List.mem_append.mp (show q ∈ (b :: l) ++ [p] from hq) with hbefore | hlast
      · exact le_trans hle.1 (ih q hbefore)
      · rw [List.mem_singleton.mp hlast]
        exact hle.2

end Yarr.Closest

/-!
## The last match of a scan

A scan that goes through all elements and keeps each one that passes a test is
left with the last of them, or with what it started from.
-/

namespace Yarr.LastMatch

variable {α : Type} (p : α → Prop) [DecidablePred p]

def lastMatch (start : α) (xs : List α) : α :=
  xs.foldl (fun found x => if p x then x else found) start

theorem lastMatch_concat (start : α) (xs : List α) (x : α) :
    lastMatch p start (xs ++ [x]) = if p x then x else lastMatch p start xs := by
  unfold lastMatch
  rw [List.foldl_append]
  rfl

variable {p}

theorem lastMatch_of_none {start : α} {xs : List α} (hnone : ∀ x ∈ xs, ¬p x) :
    lastMatch p start xs = start := by
  induction xs using List.reverseRecOn with
  | nil => rfl
  | append_singleton xs x ih =>
      have hx : ¬p x := hnone x (by simp)
      rw [lastMatch_concat, if_neg hx]
      exact ih fun y hy => hnone y (by simp [hy])

/-- In an ordered list, nothing behind the match passes the test. -/
theorem lastMatch_spec {R : α → α → Prop} (hrefl : ∀ x, R x x) (start : α) {xs : List α}
    (hsorted : xs.Pairwise R) (hsome : ∃ x ∈ xs, p x) :
    lastMatch p start xs ∈ xs ∧ p (lastMatch p start xs) ∧
      ∀ x ∈ xs, p x → R x (lastMatch p start xs) := by
  induction xs using List.reverseRecOn with
  | nil => simp at hsome
  | append_singleton xs x ih =>
      rw [List.pairwise_append] at hsorted
      obtain ⟨hsorted, _, hbefore⟩ := hsorted
      rw [lastMatch_concat]
      by_cases hx : p x
      · rw [if_pos hx]
        refine ⟨by simp, hx, ?_⟩
        intro y hy _
        rcases List.mem_append.mp hy with hy | hy
        · exact hbefore y hy x (by simp)
        · rw [List.mem_singleton.mp hy]
          exact hrefl x
      · rw [if_neg hx]
        have hsome' : ∃ y ∈ xs, p y := by
          rcases hsome with ⟨y, hy, hpy⟩
          rcases List.mem_append.mp hy with hy | hy
          · exact ⟨y, hy, hpy⟩
          · rw [List.mem_singleton.mp hy] at hpy
            exact absurd hpy hx
        obtain ⟨hmem, hp, hlast⟩ := ih hsorted hsome'
        refine ⟨List.mem_append_left _ hmem, hp, ?_⟩
        intro y hy hpy
        rcases List.mem_append.mp hy with hy | hy
        · exact hlast y hy hpy
        · rw [List.mem_singleton.mp hy] at hpy
          exact absurd hpy hx

end Yarr.LastMatch

/-!
## Patterns

What a loop shows that sets bits one after the other, and how often a predicate
holds in a window that slides over a periodic pattern.
-/

namespace Yarr.Patterns

universe u v

theorem foldl_or {σ : Type u} {α : Type v} {f : σ → Bool} {step : σ → α → σ} {hits : α → Bool}
    (l : List α) (hstep : ∀ s, ∀ a ∈ l, f (step s a) = (f s || hits a)) (s : σ) :
    f (l.foldl step s) = (f s || l.any hits) := by
  induction l generalizing s with
  | nil => exact (Bool.or_false _).symm
  | cons a l ih =>
      rw [List.foldl_cons, ih fun s b hb => hstep s b (List.mem_cons_of_mem a hb),
        hstep s a List.mem_cons_self, List.any_cons, Bool.or_assoc]

theorem count_window {p : Nat → Prop} [DecidablePred p] {a : Nat}
    (hp : Function.Periodic p a) (last : Nat) (hlast : a ≤ last + 1) :
    Nat.count (fun c => p (last - c)) a = Nat.count p a := by
  have hwindow := Nat.filter_Ico_card_eq_of_periodic (last + 1 - a) a p hp
  have hend : last + 1 - a + a = last + 1 := by omega
  have himage : (Finset.Ico 0 a).image (fun c => last - c) =
      Finset.Ico (last + 1 - a) (last + 1) := Nat.Ico_image_const_sub_eq_Ico (by omega)
  rw [hend, ← himage, Finset.filter_image] at hwindow
  rw [← hwindow, Nat.count_eq_card_filter_range, Finset.range_eq_Ico]
  apply (Finset.card_image_of_injOn _).symm
  intro c hc d hd heq
  have hc' := (Finset.mem_Ico.mp (Finset.mem_filter.mp hc).1).2
  have hd' := (Finset.mem_Ico.mp (Finset.mem_filter.mp hd).1).2
  change last - c = last - d at heq
  omega

theorem count_mod_lt {n a : Nat} (hn : n ≤ a) : Nat.count (fun x => x % a < n) a = n := by
  have hfilter : (Finset.range a).filter (fun x => x % a < n) = Finset.range n := by
    ext x
    rw [Finset.mem_filter, Finset.mem_range, Finset.mem_range]
    constructor
    · rintro ⟨hx, hlt⟩
      rwa [Nat.mod_eq_of_lt hx] at hlt
    · intro hx
      have hlt : x < a := Nat.lt_of_lt_of_le hx hn
      exact ⟨hlt, by rwa [Nat.mod_eq_of_lt hlt]⟩
  rw [Nat.count_eq_card_filter_range, hfilter, Finset.card_range]

theorem periodic_mod (p : Nat → Prop) (a : Nat) : Function.Periodic (fun x => p (x % a)) a := by
  intro x
  show p ((x + a) % a) = p (x % a)
  rw [Nat.add_mod_right]

end Yarr.Patterns
