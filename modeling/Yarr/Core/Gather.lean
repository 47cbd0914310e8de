import Mathlib.Algebra.BigOperators.Group.List.Basic
import Mathlib.Data.List.Basic
import Mathlib.Data.List.Perm.Basic
import Mathlib.Logic.Function.Basic

/-!
# Gathering by key

Items are added up under their keys. A counter for each key tells when a sum
is complete; the sum is given out then and the next item starts a new one.
What is given out for a key are the sums of consecutive chunks of its items.
-/

namespace Yarr

universe u v w x

/-- How items are filed, added up and counted. -/
structure Gather (κ : Type u) (ι : Type v) (α : Type w) (γ : Type x) where
  key : ι → κ
  new : ι → α
  add : α → ι → α
  tick : γ → γ
  full : γ → Bool

namespace Gather

structure State (κ : Type u) (α : Type w) (γ : Type x) where
  current : κ → Option α
  count : κ → γ
  done : List (κ × α)

variable {κ : Type u} {ι : Type v} {α : Type w} {γ : Type x} [DecidableEq κ]
  (g : Gather κ ι α γ)

/-- The sum under construction after one more item. -/
def grow (current : Option α) (i : ι) : α := g.add (current.getD (g.new i)) i

def step (s : State κ α γ) (i : ι) : State κ α γ :=
  let a := g.grow (s.current (g.key i)) i
  let c := g.tick (s.count (g.key i))
  { current := Function.update s.current (g.key i) (if g.full c then none else some a)
    count := Function.update s.count (g.key i) c
    done := if g.full c then s.done ++ [(g.key i, a)] else s.done }

/-- The sum of some items, nothing for none. -/
def total (items : List ι) : Option α :=
  items.foldl (fun current i => some (g.grow current i)) none

/-- The items of one key, cut behind each item at which the counter is full. An unfinished
chunk at the end is left out. -/
def chunks (c : γ) (pending : List ι) : List ι → List (List ι)
  | [] => []
  | i :: items =>
      if g.full (g.tick c) then (pending ++ [i]) :: chunks (g.tick c) [] items
      else chunks (g.tick c) (pending ++ [i]) items

omit [DecidableEq κ] in
theorem total_concat (items : List ι) (i : ι) :
    g.total (items ++ [i]) = some (g.grow (g.total items) i) := by
  rw [total, List.foldl_append]
  rfl

omit [DecidableEq κ] in
theorem ne_nil_of_mem_chunks {c : γ} {pending items : List ι} {chunk : List ι}
    (h : chunk ∈ g.chunks c pending items) : chunk ≠ [] := by
  induction items generalizing c pending with
  | nil => exact absurd h List.not_mem_nil
  | cons i items ih =>
      rw [chunks] at h
      split at h
      · rcases List.mem_cons.mp h with rfl | h
        · exact List.append_ne_nil_of_right_ne_nil _ (List.cons_ne_nil _ _)
        · exact ih h
      · exact ih h

omit [DecidableEq κ] in
theorem chunks_flatten_prefix (c : γ) (pending items : List ι) :
    (g.chunks c pending items).flatten <+: pending ++ items := by
  induction items generalizing c pending with
  | nil => exact List.nil_prefix
  | cons i items ih =>
      have hassoc : pending ++ i :: items = (pending ++ [i]) ++ items := by simp
      rw [chunks, hassoc]
      split
      · rw [List.flatten_cons]
        exact (List.prefix_append_right_inj _).mpr (ih _ [])
      · exact ih _ _

/-! ## What comes out for one key -/

/-- The items that are filed under a key. -/
def itemsOf (k : κ) (items : List ι) : List ι := items.filter fun i => decide (g.key i = k)

/-- What was given out for a key. -/
def doneOf (k : κ) (done : List (κ × α)) : List (κ × α) :=
  done.filter fun d => decide (d.1 = k)

theorem doneOf_foldl (items : List ι) (s : State κ α γ) (pending : κ → List ι)
    (h : ∀ k, s.current k = g.total (pending k)) (k : κ) :
    doneOf k (items.foldl g.step s).done
      = doneOf k s.done ++ (g.chunks (s.count k) (pending k) (g.itemsOf k items)).filterMap
          fun chunk => (g.total chunk).map (k, ·) := by
  induction items generalizing s pending with
  | nil => simp [itemsOf, chunks]
  | cons i items ih =>
      rw [List.foldl_cons]
      have hgrow : some (g.grow (s.current (g.key i)) i) = g.total (pending (g.key i) ++ [i]) := by
        rw [total_concat, h]
      by_cases hfull : g.full (g.tick (s.count (g.key i)))
      · rw [ih (g.step s i) (Function.update pending (g.key i) [])]
        · by_cases hk : g.key i = k
          · subst hk
            simp [step, itemsOf, chunks, doneOf, hfull, ← hgrow, List.filter_append]
          · have hk' : k ≠ g.key i := fun heq => hk heq.symm
            simp [step, itemsOf, doneOf, hfull, hk, hk', List.filter_append]
        · intro k'
          by_cases hk : k' = g.key i
          · subst hk
            simp [step, hfull, total]
          · simp [step, hk, h]
      · rw [ih (g.step s i) (Function.update pending (g.key i) (pending (g.key i) ++ [i]))]
        · by_cases hk : g.key i = k
          · subst hk
            simp [step, itemsOf, chunks, hfull]
          · have hk' : k ≠ g.key i := fun heq => hk heq.symm
            simp [step, itemsOf, hfull, hk, hk']
        · intro k'
          by_cases hk : k' = g.key i
          · subst hk
            simp [step, hfull, hgrow]
          · simp [step, hk, h]

theorem key_of_mem_done (items : List ι) (s : State κ α γ) {d : κ × α}
    (h : d ∈ (items.foldl g.step s).done) : d ∈ s.done ∨ ∃ i ∈ items, g.key i = d.1 := by
  induction items generalizing s with
  | nil => exact Or.inl h
  | cons i items ih =>
      rcases ih (g.step s i) h with hd | ⟨j, hj, hkey⟩
      · by_cases hfull : g.full (g.tick (s.count (g.key i)))
        · simp only [step, hfull, if_true, List.mem_append, List.mem_singleton] at hd
          rcases hd with hd | rfl
          · exact Or.inl hd
          · exact Or.inr ⟨i, List.mem_cons_self, rfl⟩
        · simp only [step, hfull] at hd
          exact Or.inl hd
      · exact Or.inr ⟨j, List.mem_cons_of_mem _ hj, hkey⟩

/-! ## Counters that wrap -/

section Counter

/-- Ticks from `c` until a 32-bit counter next stands at `n`. -/
def gap (n c : UInt32) : Nat := if c = n then 2 ^ 32 else (n - c).toNat

theorem gap_pos (n c : UInt32) : 0 < gap n c := by
  unfold gap
  split
  · decide
  · rename_i h
    have hne : c.toNat ≠ n.toNat := fun heq => h (UInt32.toNat_inj.mp heq)
    have hc := c.toNat_lt
    have hn := n.toNat_lt
    rw [UInt32.toNat_sub]
    omega

theorem gap_le (n c : UInt32) : gap n c ≤ 2 ^ 32 := by
  unfold gap
  split
  · exact Nat.le_refl _
  · exact Nat.le_of_lt (UInt32.toNat_lt _)

theorem gap_zero_eq {n : UInt32} {N : Nat} (hpos : 0 < N) (hfits : N ≤ 2 ^ 32)
    (hn : n.toNat = N % 2 ^ 32) : gap n 0 = N := by
  unfold gap
  split
  · rename_i h
    subst h
    simp at hn
    omega
  · rename_i h
    have hne : n.toNat ≠ 0 := by
      intro hzero
      exact h (UInt32.toNat_inj.mp hzero.symm)
    rw [UInt32.sub_zero]
    omega

theorem gap_zero_mod (n : UInt32) : gap n 0 % 2 ^ 32 = n.toNat := by
  unfold gap
  split
  · rename_i h
    rw [← h]
    rfl
  · rw [UInt32.sub_zero]
    exact Nat.mod_eq_of_lt n.toNat_lt

theorem gap_self (n : UInt32) : gap n n = 2 ^ 32 := if_pos rfl

theorem gap_of_next {n c : UInt32} (h : c + 1 = n) : gap n c = 1 := by
  have hne : c ≠ n := by
    intro heq
    have := congrArg UInt32.toNat (heq.trans h.symm)
    rw [UInt32.toNat_add] at this
    have hc := c.toNat_lt
    simp at this
    omega
  have hsub : c + 1 - c = 1 := by grind
  rw [gap, if_neg hne, ← h, hsub]
  rfl

theorem gap_succ {n c : UInt32} (h : c + 1 ≠ n) : gap n (c + 1) + 1 = gap n c := by
  have hne : (c + 1).toNat ≠ n.toNat := fun heq => h (UInt32.toNat_inj.mp heq)
  have hc := c.toNat_lt
  have hn := n.toNat_lt
  rw [gap, if_neg h, gap]
  split
  · rename_i heq
    subst heq
    rw [UInt32.toNat_sub]
    rw [UInt32.toNat_add] at hne ⊢
    simp at hne ⊢
    omega
  · rename_i hcn
    have hcn' : c.toNat ≠ n.toNat := fun heq => hcn (UInt32.toNat_inj.mp heq)
    rw [UInt32.toNat_sub, UInt32.toNat_sub]
    rw [UInt32.toNat_add] at hne ⊢
    simp at hne ⊢
    omega

variable {g : Gather κ ι α UInt32} {n : UInt32}

omit [DecidableEq κ] in
theorem chunks_of_short (htick : ∀ c, g.tick c = c + 1) (hfull : ∀ c, g.full c = (c == n))
    {items : List ι} {c : UInt32} (pending : List ι) (h : items.length < gap n c) :
    g.chunks c pending items = [] := by
  induction items generalizing c pending with
  | nil => rfl
  | cons i items ih =>
      rw [List.length_cons] at h
      have hnext : c + 1 ≠ n := by
        intro heq
        rw [gap_of_next heq] at h
        omega
      have hgap := gap_succ hnext
      rw [chunks, hfull, htick, if_neg (by simpa using hnext)]
      exact ih _ (by omega)

omit [DecidableEq κ] in
theorem chunks_of_long (htick : ∀ c, g.tick c = c + 1) (hfull : ∀ c, g.full c = (c == n))
    {items : List ι} {c : UInt32} (pending : List ι) (h : gap n c ≤ items.length) :
    g.chunks c pending items
      = (pending ++ items.take (gap n c)) :: g.chunks n [] (items.drop (gap n c)) := by
  induction items generalizing c pending with
  | nil =>
      have := gap_pos n c
      simp at h
      omega
  | cons i items ih =>
      rw [List.length_cons] at h
      rw [chunks, hfull, htick]
      by_cases hnext : c + 1 = n
      · rw [if_pos (by simpa using hnext), gap_of_next hnext, hnext]
        rfl
      · have hgap := gap_succ hnext
        rw [if_neg (by simpa using hnext), ih _ (by omega), ← hgap]
        simp

end Counter

/-! ## Lists by key -/

/-- A list is, up to order, what it holds under each of the keys that occur. -/
theorem perm_flatMap_filter {β : Type*} (f : β → κ) {keys : List κ} (hnodup : keys.Nodup)
    (l : List β) (h : ∀ b ∈ l, f b ∈ keys) :
    (keys.flatMap fun k => l.filter fun b => decide (f b = k)).Perm l := by
  induction keys generalizing l with
  | nil =>
      have hl : l = [] := List.eq_nil_iff_forall_not_mem.mpr fun b hb => by simpa using h b hb
      rw [hl]
      rfl
  | cons k keys ih =>
      obtain ⟨hk, hnodup⟩ := List.nodup_cons.mp hnodup
      have hrest := ih hnodup (l.filter fun b => !decide (f b = k)) (by
        intro b hb
        obtain ⟨hb, hne⟩ := List.mem_filter.mp hb
        have hmem := h b hb
        simp only [Bool.not_eq_true', decide_eq_false_iff_not] at hne
        exact (List.mem_cons.mp hmem).resolve_left hne)
      have hsame : (keys.flatMap fun k' => (l.filter fun b => !decide (f b = k)).filter
            fun b => decide (f b = k'))
          = keys.flatMap fun k' => l.filter fun b => decide (f b = k') := by
        apply List.flatMap_congr
        intro k' hk'
        rw [List.filter_filter]
        apply List.filter_congr
        intro b _
        by_cases hb : f b = k'
        · have hne : f b ≠ k := fun heq => hk (heq ▸ hb ▸ hk')
          simp [hb, hb ▸ hne]
        · simp [hb]
      rw [List.flatMap_cons, ← hsame]
      exact (hrest.append_left _).trans (List.filter_append_perm _ l)

end Gather

end Yarr

/-!
## Collecting by key until a last item

Items are added up under their keys. Some items are marked as last: a sum is
given out with the item that closes it, and the next item under the key
starts a new one.
-/

namespace Yarr

universe u v w

/-- How items are filed and added up, and which of them close a sum. -/
structure Collect (κ : Type u) (ι : Type v) (α : Type w) where
  key : ι → κ
  new : ι → α
  add : α → ι → α
  last : ι → Bool

namespace Collect

structure State (κ : Type u) (ι : Type v) (α : Type w) where
  current : κ → Option α
  done : List (ι × α)

def State.empty {κ : Type u} {ι : Type v} {α : Type w} : State κ ι α := ⟨fun _ => none, []⟩

variable {κ : Type u} {ι : Type v} {α : Type w} [DecidableEq κ] (g : Collect κ ι α)

/-- The sum under construction after one more item. -/
def grow (current : Option α) (i : ι) : α := g.add (current.getD (g.new i)) i

def step (s : State κ ι α) (i : ι) : State κ ι α :=
  let a := g.grow (s.current (g.key i)) i
  { current := Function.update s.current (g.key i) (if g.last i then none else some a)
    done := if g.last i then s.done ++ [(i, a)] else s.done }

/-- The sum of some items on top of what is there. -/
def total (current : Option α) (items : List ι) : Option α :=
  items.foldl (fun current i => some (g.grow current i)) current

def itemsOf (k : κ) (items : List ι) : List ι := items.filter fun i => decide (g.key i = k)

def doneOf (k : κ) (done : List (ι × α)) : List (ι × α) :=
  done.filter fun d => decide (g.key d.1 = k)

theorem map_fst_done (items : List ι) (s : State κ ι α) :
    (items.foldl g.step s).done.map Prod.fst = s.done.map Prod.fst ++ items.filter g.last := by
  induction items generalizing s with
  | nil => simp
  | cons i items ih =>
      rw [List.foldl_cons, ih]
      by_cases hlast : g.last i
      · simp [step, hlast]
      · simp [step, hlast]

theorem foldl_open (items : List ι) (s : State κ ι α) (k : κ)
    (h : ∀ i ∈ items, g.key i = k → g.last i = false) :
    (items.foldl g.step s).current k = g.total (s.current k) (g.itemsOf k items) ∧
      g.doneOf k (items.foldl g.step s).done = g.doneOf k s.done := by
  induction items generalizing s with
  | nil => exact ⟨rfl, rfl⟩
  | cons i items ih =>
      have hrest := ih (g.step s i) fun j hj => h j (List.mem_cons_of_mem _ hj)
      rw [List.foldl_cons, hrest.1, hrest.2]
      by_cases hk : g.key i = k
      · have hopen := h i List.mem_cons_self hk
        subst hk
        constructor
        · simp [step, itemsOf, total, hopen]
        · simp [step, hopen]
      · have hk' : k ≠ g.key i := fun heq => hk heq.symm
        constructor
        · simp [step, itemsOf, hk, hk']
        · by_cases hlast : g.last i
          · simp [step, doneOf, hlast, hk, List.filter_append]
          · simp [step, hlast]

/-- A key with one last item, behind all its others, has all its items given out in one sum. -/
theorem doneOf_foldl {items front : List ι} {z : ι} {k : κ}
    (hitems : g.itemsOf k items = front ++ [z]) (hfront : ∀ i ∈ front, g.last i = false)
    (hz : g.last z = true) :
    (g.doneOf k (items.foldl g.step .empty).done).map (fun d => some d.2)
      = [g.total none (front ++ [z])] := by
  obtain ⟨before, rest, hsplit, hbefore, hrest⟩ := List.filter_eq_append_iff.mp hitems
  obtain ⟨skipped, after, rfl, hskipped, hkey, hafter⟩ := List.filter_eq_cons_iff.mp hrest
  have hkz : g.key z = k := of_decide_eq_true hkey
  have hopen : ∀ i ∈ before ++ skipped, g.key i = k → g.last i = false := by
    intro i hi hik
    rcases List.mem_append.mp hi with hi | hi
    · exact hfront i (hbefore ▸ List.mem_filter.mpr ⟨hi, decide_eq_true hik⟩)
    · exact absurd (decide_eq_true hik) (hskipped i hi)
  have hnone : ∀ i ∈ after, g.key i ≠ k := by
    intro i hi hik
    exact List.filter_eq_nil_iff.mp hafter i hi (decide_eq_true hik)
  have hskip : g.itemsOf k skipped = [] := List.filter_eq_nil_iff.mpr hskipped
  have hfirst := g.foldl_open (before ++ skipped) .empty k hopen
  have hthen := g.foldl_open after (g.step ((before ++ skipped).foldl g.step .empty) z) k
    fun i hi hik => absurd hik (hnone i hi)
  have hfiled : g.itemsOf k (before ++ skipped) = front := by
    rw [itemsOf, List.filter_append, hbefore]
    change front ++ g.itemsOf k skipped = front
    rw [hskip, List.append_nil]
  rw [hfiled] at hfirst
  rw [hsplit, ← List.append_assoc, List.foldl_append, List.foldl_cons, hthen.2]
  simp only [step, hz, if_true, doneOf, List.filter_append, hkz, hfirst.1]
  rw [← doneOf, hfirst.2]
  simp [doneOf, State.empty, total, hkz]

end Collect

end Yarr
