import Mathlib.Data.List.Basic
import Mathlib.Data.List.Induction
import Mathlib.Logic.Function.Basic

/-!
# Independent fields

A state from which values are read under keys. A write under a key brings back
what was written and leaves what is read under all the other keys. Writing the
fields of one state to a document, and loading them from there into another
state, makes the two states agree.
-/

namespace Yarr

universe u v w x y

/-- Fields of a state: how they are read and written, and the values that they can take. -/
structure Fields (σ : Type u) (κ : Type v) (β : Type w) where
  get : σ → κ → β
  set : σ → κ → β → σ
  Valid : κ → β → Prop

namespace Fields

variable {σ : Type u} {κ : Type v} {β : Type w} (f : Fields σ κ β)

structure Independent : Prop where
  get_set : ∀ st k v, f.Valid k v → f.get (f.set st k v) k = v
  get_set_ne : ∀ st k k' v, f.Valid k v → k' ≠ k → f.get (f.set st k v) k' = f.get st k'
  valid_get : ∀ st k, f.Valid k (f.get st k)

/-- The fields `keys`, one after the other. -/
def setAll (value : κ → β) (keys : List κ) (st : σ) : σ :=
  keys.foldl (fun st k => f.set st k (value k)) st

variable {f} {value : κ → β}

theorem Independent.get_setAll_of_not_mem (h : f.Independent) {keys : List κ}
    (hvalid : ∀ k ∈ keys, f.Valid k (value k)) {k : κ} (hk : k ∉ keys) (st : σ) :
    f.get (f.setAll value keys st) k = f.get st k := by
  induction keys generalizing st with
  | nil => rfl
  | cons first keys ih =>
      have hne : k ≠ first := fun heq => hk (heq ▸ List.mem_cons_self)
      have hrest := ih (fun k' hk' => hvalid k' (List.mem_cons_of_mem _ hk'))
        (fun hmem => hk (List.mem_cons_of_mem _ hmem)) (f.set st first (value first))
      exact hrest.trans (h.get_set_ne st first k _ (hvalid first List.mem_cons_self) hne)

theorem Independent.get_setAll (h : f.Independent) {keys : List κ}
    (hvalid : ∀ k ∈ keys, f.Valid k (value k)) {k : κ} (hk : k ∈ keys) (st : σ) :
    f.get (f.setAll value keys st) k = value k := by
  induction keys generalizing st with
  | nil => exact absurd hk List.not_mem_nil
  | cons first keys ih =>
      have hvalid' : ∀ k' ∈ keys, f.Valid k' (value k') := fun k' hk' =>
        hvalid k' (List.mem_cons_of_mem _ hk')
      by_cases hin : k ∈ keys
      · exact ih hvalid' hin _
      · have hlast := h.get_setAll_of_not_mem hvalid' hin (f.set st first (value first))
        rcases List.mem_cons.mp hk with rfl | hmem
        · exact hlast.trans (h.get_set st k _ (hvalid k List.mem_cons_self))
        · exact absurd hmem hin

theorem Independent.congr {g : Fields σ κ β} (h : f.Independent)
    (hget : ∀ st k, g.get st k = f.get st k)
    (hset : ∀ st k v, f.Valid k v → g.set st k v = f.set st k v)
    (hvalid : ∀ k v, g.Valid k v ↔ f.Valid k v) : g.Independent where
  get_set st k v hv := by
    have hv' := (hvalid k v).mp hv
    rw [hset st k v hv', hget]
    exact h.get_set st k v hv'
  get_set_ne st k k' v hv hne := by
    have hv' := (hvalid k v).mp hv
    rw [hset st k v hv', hget, hget]
    exact h.get_set_ne st k k' v hv' hne
  valid_get st k := by
    rw [hvalid, hget]
    exact h.valid_get st k

/-! ## Fields of fields -/

/-- Every field of the outer state has fields of its own. -/
def comp {α : Type x} {ι : Type v} (f : Fields σ κ α) (inner : κ → Fields α ι β) :
    Fields σ (κ × ι) β where
  get st k := (inner k.1).get (f.get st k.1) k.2
  set st k v := f.set st k.1 ((inner k.1).set (f.get st k.1) k.2 v)
  Valid k v := (inner k.1).Valid k.2 v

theorem Independent.comp {α : Type x} {ι : Type v} {f : Fields σ κ α}
    {inner : κ → Fields α ι β} (h : f.Independent) (hall : ∀ k a, f.Valid k a)
    (hinner : ∀ k, (inner k).Independent) : (f.comp inner).Independent where
  get_set st k v hv := by
    show (inner k.1).get (f.get (f.set st k.1 _) k.1) k.2 = v
    rw [h.get_set st k.1 _ (hall _ _)]
    exact (hinner k.1).get_set _ k.2 v hv
  get_set_ne st k k' v hv hne := by
    show (inner k'.1).get (f.get (f.set st k.1 _) k'.1) k'.2 = (inner k'.1).get (f.get st k'.1) k'.2
    by_cases hk : k'.1 = k.1
    · have hi : k'.2 ≠ k.2 := fun hi => hne (Prod.ext hk hi)
      rw [hk, h.get_set st k.1 _ (hall _ _)]
      exact (hinner k.1).get_set_ne _ k.2 k'.2 v hv hi
    · rw [h.get_set_ne st k.1 k'.1 _ (hall _ _) hk]
  valid_get st k := (hinner k.1).valid_get _ k.2

/-! ## Values that depend on the old ones -/

/-- The fields `keys`, one after the other, each from what it was. `none`: one of the new values
is undefined. -/
def updateAll (f : Fields σ κ β) (new : κ → β → Option β) (keys : List κ) (st : σ) : Option σ :=
  keys.foldlM (fun st k => (new k (f.get st k)).map fun v => f.set st k v) st

theorem Independent.updateAll_eq {f : Fields σ κ β} (h : f.Independent) {new : κ → β → Option β}
    {value : κ → β} {keys : List κ} (hnodup : keys.Nodup) {st : σ}
    (hnew : ∀ k ∈ keys, new k (f.get st k) = some (value k))
    (hvalid : ∀ k ∈ keys, f.Valid k (value k)) :
    f.updateAll new keys st = some (f.setAll value keys st) := by
  induction keys generalizing st with
  | nil => rfl
  | cons first keys ih =>
      obtain ⟨hfirst, hnodup⟩ := List.nodup_cons.mp hnodup
      have hvalue := hvalid first List.mem_cons_self
      have hrest : ∀ k ∈ keys, new k (f.get (f.set st first (value first)) k) = some (value k) := by
        intro k hk
        have hne : k ≠ first := fun heq => hfirst (heq ▸ hk)
        rw [h.get_set_ne st first k _ hvalue hne]
        exact hnew k (List.mem_cons_of_mem _ hk)
      have hstep := ih hnodup hrest fun k hk => hvalid k (List.mem_cons_of_mem _ hk)
      unfold updateAll at hstep ⊢
      rw [List.foldlM_cons, hnew first List.mem_cons_self]
      exact hstep

/-- Where all new values are defined, each field has the one that was made from its old value. -/
theorem Independent.get_of_updateAll {f : Fields σ κ β} (h : f.Independent)
    {new : κ → β → Option β} (hvalid : ∀ k b v, new k b = some v → f.Valid k v) {keys : List κ}
    (hnodup : keys.Nodup) {st st' : σ} (hupdate : f.updateAll new keys st = some st') {k : κ}
    (hk : k ∈ keys) : new k (f.get st k) = some (f.get st' k) := by
  have hstays : ∀ (keys : List κ) (st st' : σ), f.updateAll new keys st = some st' →
      ∀ k, k ∉ keys → f.get st' k = f.get st k := by
    intro keys
    induction keys with
    | nil =>
        intro st st' hst k _
        cases hst
        rfl
    | cons first keys ih =>
        intro st st' hst k hk
        unfold updateAll at hst ih
        rw [List.foldlM_cons] at hst
        obtain ⟨st₁, hst₁, hst⟩ := Option.bind_eq_some_iff.mp hst
        obtain ⟨v, hv, rfl⟩ := Option.map_eq_some_iff.mp hst₁
        rw [ih _ _ hst k fun hmem => hk (List.mem_cons_of_mem _ hmem)]
        exact h.get_set_ne st first k v (hvalid _ _ _ hv)
          fun heq => hk (heq ▸ List.mem_cons_self)
  induction keys generalizing st with
  | nil => exact absurd hk List.not_mem_nil
  | cons first keys ih =>
      obtain ⟨hfirst, hnodup⟩ := List.nodup_cons.mp hnodup
      unfold updateAll at hupdate ih
      rw [List.foldlM_cons] at hupdate
      obtain ⟨st₁, hst₁, hrest⟩ := Option.bind_eq_some_iff.mp hupdate
      obtain ⟨v, hv, rfl⟩ := Option.map_eq_some_iff.mp hst₁
      have hfits := hvalid _ _ _ hv
      rcases List.mem_cons.mp hk with rfl | hmem
      · rw [hstays keys _ _ hrest k hfirst, h.get_set st k v hfits]
        exact hv
      · have hne : k ≠ first := fun heq => hfirst (heq ▸ hmem)
        have hlater := ih hnodup hrest hmem
        rw [h.get_set_ne st first k v hfits hne] at hlater
        exact hlater

/-- A function of the keys. -/
def ofFunction {ι : Type v} [DecidableEq ι] {α : Type w} : Fields (ι → α) ι α where
  get st k := st k
  set st k v := Function.update st k v
  Valid _ _ := True

theorem ofFunction_independent {ι : Type v} [DecidableEq ι] {α : Type w} :
    (ofFunction : Fields (ι → α) ι α).Independent where
  get_set st k v _ := by
    show Function.update st k v k = v
    rw [Function.update_self]
  get_set_ne st k k' v _ hne := by
    show Function.update st k v k' = st k'
    rw [Function.update_of_ne hne]
  valid_get _ _ := trivial

/-! ## Documents -/

variable {π : Type y} (f) (place : κ → π)

/-- Every field goes to its place in the document. -/
def write [DecidableEq π] (keys : List κ) (st : σ) (doc : π → Option β) : π → Option β :=
  keys.foldl (fun doc k => Function.update doc (place k) (some (f.get st k))) doc

/-- `none`: a place of the document is empty. -/
def load (keys : List κ) (doc : π → Option β) (st : σ) : Option σ :=
  keys.foldlM (fun st k => (doc (place k)).map fun v => f.set st k v) st

variable {f place}

theorem write_place [DecidableEq π] (hplace : ∀ k k', place k = place k' → k = k')
    {keys : List κ} {k : κ} (hk : k ∈ keys) (st : σ) (doc : π → Option β) :
    f.write place keys st doc (place k) = some (f.get st k) := by
  induction keys using List.reverseRecOn with
  | nil => exact absurd hk List.not_mem_nil
  | append_singleton keys last ih =>
      unfold write at ih ⊢
      rw [List.foldl_append, List.foldl_cons, List.foldl_nil]
      by_cases heq : place k = place last
      · rw [heq, Function.update_self, hplace k last heq]
      · rw [Function.update_of_ne heq]
        apply ih
        rcases List.mem_append.mp hk with hmem | hmem
        · exact hmem
        · exact absurd (congrArg place (List.mem_singleton.mp hmem)) heq

theorem load_eq {doc : π → Option β} {keys : List κ}
    (hdoc : ∀ k ∈ keys, doc (place k) = some (value k)) (st : σ) :
    f.load place keys doc st = some (f.setAll value keys st) := by
  induction keys generalizing st with
  | nil => rfl
  | cons first keys ih =>
      have hrest := ih (fun k hk => hdoc k (List.mem_cons_of_mem _ hk))
        (f.set st first (value first))
      unfold load at hrest ⊢
      rw [List.foldlM_cons, hdoc first List.mem_cons_self]
      exact hrest

theorem Independent.load_write [DecidableEq π] (h : f.Independent)
    (hplace : ∀ k k', place k = place k' → k = k') {keys : List κ} (source st : σ)
    (doc : π → Option β) :
    ∃ st', f.load place keys (f.write place keys source doc) st = some st' ∧
      ∀ k ∈ keys, f.get st' k = f.get source k :=
  ⟨f.setAll (f.get source) keys st, load_eq (fun _ hk => write_place hplace hk source doc) st,
    fun _ hk => h.get_setAll (fun k _ => h.valid_get source k) hk st⟩

end Fields

end Yarr
