import Mathlib.Data.Fintype.Basic
import Mathlib.Data.List.Induction
import Mathlib.Data.UInt
import Mathlib.Logic.Function.Basic
import Yarr.Core.Gather

/-!
# Sums of several kinds under one key

Items are filed under keys and added up by kind. The sums of a key are given
out together when every kind has as many items as it waits for.
-/

namespace Yarr

universe u v w x

/-- How items are filed and added up, and how many of each kind a key waits for. `keeps` says
whether the sums stay behind when they are given out. -/
structure Join (κ : Type u) (π : Type v) (ι : Type w) (α : Type x) where
  key : ι → κ
  kind : ι → π
  new : α
  add : α → ι → α
  wanted : UInt32
  keeps : Bool

namespace Join

structure State (κ : Type u) (π : Type v) (α : Type x) where
  current : κ → π → Option α
  count : κ → π → UInt32
  done : List (κ × (π → α))

def State.empty {κ : Type u} {π : Type v} {α : Type x} : State κ π α :=
  ⟨fun _ _ => none, fun _ _ => 0, []⟩

variable {κ : Type u} {π : Type v} {ι : Type w} {α : Type x} [DecidableEq κ] [DecidableEq π]
  [Fintype π] (g : Join κ π ι α)

/-- Where nothing is under construction a new sum is. -/
def sums (s : State κ π α) (k : κ) : π → α := fun p => (s.current k p).getD g.new

/-- The counter of a new sum starts from zero. -/
def counts (s : State κ π α) (k : κ) : π → UInt32 :=
  fun p => if (s.current k p).isSome then s.count k p else 0

def added (s : State κ π α) (i : ι) : π → α :=
  Function.update (g.sums s (g.key i)) (g.kind i) (g.add (g.sums s (g.key i) (g.kind i)) i)

def counted (s : State κ π α) (i : ι) : π → UInt32 :=
  Function.update (counts s (g.key i)) (g.kind i) (counts s (g.key i) (g.kind i) + 1)

def step (s : State κ π α) (i : ι) : State κ π α :=
  if ∀ p, g.counted s i p = g.wanted then
    { current := Function.update s.current (g.key i) fun p =>
        if g.keeps then some (g.added s i p) else none
      count := Function.update s.count (g.key i) fun _ => 0
      done := s.done ++ [(g.key i, g.added s i)] }
  else
    { current := Function.update s.current (g.key i) fun p => some (g.added s i p)
      count := Function.update s.count (g.key i) (g.counted s i)
      done := s.done }

/-- The items of a kind under a key. -/
def itemsOf (k : κ) (p : π) (items : List ι) : List ι :=
  items.filter fun i => decide (g.key i = k ∧ g.kind i = p)

def total (items : List ι) : α := items.foldl g.add g.new

def doneOf (k : κ) (done : List (κ × (π → α))) : List (κ × (π → α)) :=
  done.filter fun d => decide (d.1 = k)

/-- What is known of a key that waits for `n` items of each kind. -/
structure Progress (n : Nat) (k : κ) (items : List ι) (s : State κ π α) : Prop where
  waiting : (∃ p, (g.itemsOf k p items).length ≠ n) →
    (∀ p, g.sums s k p = g.total (g.itemsOf k p items)) ∧
      (∀ p, counts s k p = UInt32.ofNat (g.itemsOf k p items).length) ∧ doneOf k s.done = []
  given : (∀ p, (g.itemsOf k p items).length = n) →
    doneOf k s.done = [(k, fun p => g.total (g.itemsOf k p items))]

/-! ## One item -/

omit [Fintype π] in
theorem itemsOf_concat (k : κ) (p : π) (items : List ι) (i : ι) :
    g.itemsOf k p (items ++ [i])
      = if g.key i = k ∧ g.kind i = p then g.itemsOf k p items ++ [i]
        else g.itemsOf k p items := by
  unfold itemsOf
  rw [List.filter_append]
  by_cases h : g.key i = k ∧ g.kind i = p
  · simp [h]
  · rw [if_neg h]
    simpa using h

omit [DecidableEq κ] [DecidableEq π] [Fintype π] in
theorem total_concat (items : List ι) (i : ι) :
    g.total (items ++ [i]) = g.add (g.total items) i := by
  rw [total, List.foldl_append]
  rfl

omit [DecidableEq π] [Fintype π] in
theorem doneOf_concat (k : κ) (done : List (κ × (π → α))) (d : κ × (π → α)) :
    doneOf k (done ++ [d]) = if d.1 = k then doneOf k done ++ [d] else doneOf k done := by
  unfold doneOf
  rw [List.filter_append]
  by_cases h : d.1 = k
  · simp [h]
  · simp [h]

theorem step_other (s : State κ π α) {i : ι} {k : κ} (h : g.key i ≠ k) :
    (g.step s i).current k = s.current k ∧ (g.step s i).count k = s.count k ∧
      doneOf k (g.step s i).done = doneOf k s.done := by
  have hk : k ≠ g.key i := fun heq => h heq.symm
  unfold step
  split
  · refine ⟨Function.update_of_ne hk _ _, Function.update_of_ne hk _ _, ?_⟩
    rw [doneOf_concat, if_neg h]
  · exact ⟨Function.update_of_ne hk _ _, Function.update_of_ne hk _ _, rfl⟩

theorem Progress.other {n : Nat} {k : κ} {items : List ι} {s : State κ π α}
    (h : g.Progress n k items s) {i : ι} (hi : g.key i ≠ k) :
    g.Progress n k (items ++ [i]) (g.step s i) := by
  have hsame : ∀ p, g.itemsOf k p (items ++ [i]) = g.itemsOf k p items := by
    intro p
    rw [itemsOf_concat, if_neg fun hboth => hi hboth.1]
  have hstep := g.step_other s hi
  have hsums : g.sums (g.step s i) k = g.sums s k := by
    unfold sums
    rw [hstep.1]
  have hcounts : counts (g.step s i) k = counts s k := by
    unfold counts
    rw [hstep.1, hstep.2.1]
  constructor
  · simp only [hsame]
    rw [hsums, hcounts, hstep.2.2]
    exact h.waiting
  · simp only [hsame]
    rw [hstep.2.2]
    exact h.given

/-- One more item of the key: the sums and counters are those of the items so far, and they are
given out exactly if no kind waits any longer. -/
theorem Progress.own {n : Nat} (hn : n < 2 ^ 32) (hwanted : g.wanted.toNat = n)
    {items : List ι} {s : State κ π α} {i : ι} (h : g.Progress n (g.key i) items s)
    (hle : ∀ p, (g.itemsOf (g.key i) p (items ++ [i])).length ≤ n) :
    g.Progress n (g.key i) (items ++ [i]) (g.step s i) := by
  have hitems : ∀ p, g.itemsOf (g.key i) p (items ++ [i])
      = if p = g.kind i then g.itemsOf (g.key i) p items ++ [i]
        else g.itemsOf (g.key i) p items := by
    intro p
    rw [itemsOf_concat]
    by_cases hp : p = g.kind i
    · rw [if_pos hp, if_pos ⟨rfl, hp.symm⟩]
    · rw [if_neg hp, if_neg fun hboth => hp hboth.2.symm]
  -- there was room for the item, so its kind was still waiting
  have hopen : ∃ p, (g.itemsOf (g.key i) p items).length ≠ n := by
    have hroom := hle (g.kind i)
    rw [hitems, if_pos rfl, List.length_append, List.length_singleton] at hroom
    exact ⟨g.kind i, by omega⟩
  rcases h.waiting hopen with ⟨hsums, hcounts, hdone⟩
  have hadded : ∀ p, g.added s i p = g.total (g.itemsOf (g.key i) p (items ++ [i])) := by
    intro p
    rw [hitems, added]
    by_cases hp : p = g.kind i
    · rw [if_pos hp, hp, Function.update_self, total_concat, hsums]
    · rw [if_neg hp, Function.update_of_ne hp, hsums]
  have hcounted : ∀ p, g.counted s i p
      = UInt32.ofNat (g.itemsOf (g.key i) p (items ++ [i])).length := by
    intro p
    rw [hitems, counted]
    by_cases hp : p = g.kind i
    · rw [if_pos hp, hp, Function.update_self, hcounts, List.length_append,
        List.length_singleton, UInt32.ofNat_add]
      rfl
    · rw [if_neg hp, Function.update_of_ne hp, hcounts]
  have hfull : (∀ p, g.counted s i p = g.wanted) ↔
      ∀ p, (g.itemsOf (g.key i) p (items ++ [i])).length = n := by
    apply forall_congr'
    intro p
    have hlen := hle p
    rw [hcounted, ← UInt32.toNat_inj, hwanted, UInt32.toNat_ofNat_of_lt' (by
      exact Nat.lt_of_le_of_lt hlen hn)]
  by_cases hall : ∀ p, g.counted s i p = g.wanted
  · have hlens := hfull.mp hall
    constructor
    · intro hwaits
      rcases hwaits with ⟨p, hp⟩
      exact absurd (hlens p) hp
    · intro _
      rw [step, if_pos hall, doneOf_concat, if_pos rfl, hdone, List.nil_append]
      rw [funext hadded]
  · have hlens : ¬ ∀ p, (g.itemsOf (g.key i) p (items ++ [i])).length = n :=
      fun hlens => hall (hfull.mpr hlens)
    constructor
    · intro _
      rw [step, if_neg hall]
      refine ⟨fun p => ?_, fun p => ?_, hdone⟩
      · rw [← hadded, sums]
        simp
      · rw [← hcounted, counts]
        simp
    · intro hlens'
      exact absurd hlens' hlens

/-! ## Whole runs -/

theorem key_of_mem_done (items : List ι) {d : κ × (π → α)}
    (h : d ∈ (items.foldl g.step .empty).done) : ∃ i ∈ items, g.key i = d.1 := by
  induction items using List.reverseRecOn with
  | nil => exact absurd h List.not_mem_nil
  | append_singleton items i ih =>
      have hlater : d ∈ (items.foldl g.step .empty).done →
          ∃ j ∈ items ++ [i], g.key j = d.1 := by
        intro hd
        rcases ih hd with ⟨j, hj, hkey⟩
        exact ⟨j, List.mem_append_left _ hj, hkey⟩
      rw [List.foldl_append, List.foldl_cons, List.foldl_nil, step] at h
      split at h
      · rcases List.mem_append.mp h with hd | hd
        · exact hlater hd
        · rw [List.mem_singleton.mp hd]
          exact ⟨i, List.mem_append_right _ List.mem_cons_self, rfl⟩
      · exact hlater h

theorem progress_foldl {n : Nat} (hpos : 0 < n) (hn : n < 2 ^ 32) (hwanted : g.wanted.toNat = n)
    [Nonempty π] (k : κ) (items : List ι) (hle : ∀ p, (g.itemsOf k p items).length ≤ n) :
    g.Progress n k items (items.foldl g.step .empty) := by
  induction items using List.reverseRecOn with
  | nil =>
      constructor
      · intro _
        exact ⟨fun _ => rfl, fun _ => rfl, rfl⟩
      · intro hlens
        have hzero := hlens (Classical.arbitrary π)
        exact absurd hzero (Nat.ne_of_lt hpos)
  | append_singleton items i ih =>
      have hprogress := ih fun p => by
        have hp := hle p
        rw [itemsOf_concat] at hp
        split at hp
        · rw [List.length_append] at hp
          exact Nat.le_of_add_right_le hp
        · exact hp
      rw [List.foldl_append, List.foldl_cons, List.foldl_nil]
      by_cases hi : g.key i = k
      · subst hi
        exact hprogress.own g hn hwanted hle
      · exact hprogress.other g hi

theorem doneOf_foldl {n : Nat} (hpos : 0 < n) (hn : n < 2 ^ 32) (hwanted : g.wanted.toNat = n)
    [Nonempty π] (k : κ) (items : List ι) (hlen : ∀ p, (g.itemsOf k p items).length = n) :
    doneOf k (items.foldl g.step .empty).done
      = [(k, fun p => g.total (g.itemsOf k p items))] :=
  (g.progress_foldl hpos hn hwanted k items fun p => (hlen p).le).given hlen

theorem done_perm {n : Nat} (hpos : 0 < n) (hn : n < 2 ^ 32) (hwanted : g.wanted.toNat = n)
    [Nonempty π] {keys : List κ} (hnodup : keys.Nodup) (items : List ι)
    (hkeys : ∀ i ∈ items, g.key i ∈ keys)
    (hlen : ∀ k ∈ keys, ∀ p, (g.itemsOf k p items).length = n) :
    (items.foldl g.step .empty).done.Perm
      (keys.map fun k => (k, fun p => g.total (g.itemsOf k p items))) := by
  have hperm := Gather.perm_flatMap_filter Prod.fst hnodup (items.foldl g.step .empty).done
    fun d hd => by
      rcases g.key_of_mem_done items hd with ⟨i, hi, hkey⟩
      exact hkey ▸ hkeys i hi
  have hone : (keys.flatMap fun k => doneOf k (items.foldl g.step .empty).done)
      = keys.map fun k => (k, fun p => g.total (g.itemsOf k p items)) := by
    rw [List.map_eq_flatMap]
    apply List.flatMap_congr
    intro k hk
    exact g.doneOf_foldl hpos hn hwanted k items (hlen k hk)
  rw [← hone]
  exact hperm.symm

end Join

end Yarr
