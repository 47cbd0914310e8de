import Mathlib.Data.List.Basic
import Mathlib.Data.List.Induction
import Mathlib.Data.List.Sort
import Mathlib.Data.Rat.Floor
import Mathlib.Data.String.Basic
import Mathlib.Order.Defs.LinearOrder

/-!
# Maps from names

An ordered map with strings as keys, as a list of pairs in the order of the
keys. A second insertion under a key replaces the first.
-/

namespace Yarr

universe u

abbrev NameMap (α : Type u) := List (String × α)

namespace NameMap

variable {α : Type u}

def insert (key : String) (value : α) : NameMap α → NameMap α
  | [] => [(key, value)]
  | (k, v) :: rest =>
      if k = key then (key, value) :: rest
      else if key < k then (key, value) :: (k, v) :: rest
      else (k, v) :: insert key value rest

def find (key : String) : NameMap α → Option α
  | [] => none
  | (k, v) :: rest => if k = key then some v else find key rest

/-- A map filled in the order of the list. -/
def ofList (entries : List (String × α)) : NameMap α :=
  entries.foldl (fun m e => m.insert e.1 e.2) []

theorem find_insert (key k : String) (value : α) (m : NameMap α) :
    (m.insert key value).find k = if k = key then some value else m.find k := by
  induction m with
  | nil => simp only [insert, find, eq_comm]
  | cons e m ih =>
      obtain ⟨k', v'⟩ := e
      rw [insert]
      by_cases hk' : k' = key
      · subst hk'
        rw [if_pos rfl, find, find]
        by_cases hk : k = k'
        · rw [if_pos hk.symm, if_pos hk]
        · rw [if_neg (Ne.symm hk), if_neg hk, if_neg (Ne.symm hk)]
      · rw [if_neg hk']
        by_cases hlt : key < k'
        · rw [if_pos hlt]
          by_cases hk : k = key
          · simp only [find, if_pos hk, if_pos hk.symm]
          · simp only [find, if_neg hk, if_neg (Ne.symm hk)]
        · rw [if_neg hlt]
          by_cases hk : k = key
          · have hne : k' ≠ k := fun h => hk' (h.trans hk)
            simp only [find, ih, if_pos hk, if_neg hne]
          · simp only [find, ih, if_neg hk]

theorem mem_of_find {key : String} {value : α} {m : NameMap α} (h : m.find key = some value) :
    (key, value) ∈ m := by
  induction m with
  | nil => exact absurd h (Option.some_ne_none value).symm
  | cons e m ih =>
      obtain ⟨k, v⟩ := e
      rw [find] at h
      by_cases hk : k = key
      · rw [if_pos hk] at h
        rw [hk, Option.some.inj h]
        exact List.mem_cons_self
      · rw [if_neg hk] at h
        exact List.mem_cons_of_mem _ (ih h)

/-- The keys stand in their order, so none stands twice. -/
def Ordered (m : NameMap α) : Prop := m.Pairwise fun a b => a.1 < b.1

theorem mem_insert {key : String} {value : α} {m : NameMap α} {e : String × α}
    (h : e ∈ m.insert key value) : e = (key, value) ∨ e ∈ m := by
  induction m with
  | nil => exact Or.inl (List.mem_singleton.mp h)
  | cons e' m ih =>
      obtain ⟨k, v⟩ := e'
      rw [insert] at h
      by_cases hk : k = key
      · rw [if_pos hk] at h
        exact (List.mem_cons.mp h).imp id (List.mem_cons_of_mem _)
      · rw [if_neg hk] at h
        by_cases hlt : key < k
        · rw [if_pos hlt] at h
          exact List.mem_cons.mp h
        · rw [if_neg hlt] at h
          rcases List.mem_cons.mp h with rfl | h
          · exact Or.inr List.mem_cons_self
          · exact (ih h).imp id (List.mem_cons_of_mem _)

theorem Ordered.insert {m : NameMap α} (h : m.Ordered) (key : String) (value : α) :
    (m.insert key value).Ordered := by
  induction m with
  | nil => exact List.pairwise_singleton _ _
  | cons e m ih =>
      obtain ⟨k, v⟩ := e
      obtain ⟨hfirst, hrest⟩ := List.pairwise_cons.mp h
      rw [NameMap.insert]
      by_cases hk : k = key
      · rw [if_pos hk]
        apply List.pairwise_cons.mpr
        exact ⟨fun e he => hk ▸ hfirst e he, hrest⟩
      · rw [if_neg hk]
        by_cases hlt : key < k
        · rw [if_pos hlt]
          apply List.pairwise_cons.mpr
          constructor
          · intro e he
            rcases List.mem_cons.mp he with rfl | he
            · exact hlt
            · exact lt_trans hlt (hfirst e he)
          · exact h
        · rw [if_neg hlt]
          apply List.pairwise_cons.mpr
          constructor
          · intro e he
            rcases mem_insert he with rfl | he
            · exact lt_of_le_of_ne (not_lt.mp hlt) hk
            · exact hfirst e he
          · exact ih hrest

theorem ordered_ofList (entries : List (String × α)) : (ofList entries).Ordered := by
  have h : ∀ m : NameMap α, m.Ordered →
      (entries.foldl (fun m e => m.insert e.1 e.2) m).Ordered := by
    induction entries with
    | nil => exact fun m hm => hm
    | cons e entries ih => exact fun m hm => ih _ (hm.insert e.1 e.2)
  exact h [] List.Pairwise.nil

theorem mem_of_mem_ofList {entries : List (String × α)} {e : String × α}
    (h : e ∈ ofList entries) : e ∈ entries := by
  have hfold : ∀ m : NameMap α, e ∈ entries.foldl (fun m e => m.insert e.1 e.2) m →
      e ∈ m ∨ e ∈ entries := by
    clear h
    induction entries with
    | nil => exact fun m hm => Or.inl hm
    | cons e' entries ih =>
        intro m hm
        rcases ih _ hm with h | h
        · rcases mem_insert h with rfl | h
          · exact Or.inr List.mem_cons_self
          · exact Or.inl h
        · exact Or.inr (List.mem_cons_of_mem _ h)
  exact (hfold [] h).resolve_left List.not_mem_nil

theorem find_ofList (entries : List (String × α)) (key : String) :
    (ofList entries).find key = (entries.reverse.find? fun e => e.1 == key).map Prod.snd := by
  induction entries using List.reverseRecOn with
  | nil => rfl
  | append_singleton entries e ih =>
      rw [ofList, List.foldl_concat, ← ofList, find_insert, ih, List.reverse_append,
        List.reverse_singleton, List.singleton_append, List.find?_cons]
      by_cases hk : key = e.1
      · rw [if_pos hk, hk, beq_self_eq_true]
        rfl
      · rw [if_neg hk, beq_false_of_ne (Ne.symm hk)]

theorem Ordered.find_of_mem {m : NameMap α} (h : m.Ordered) {e : String × α} (he : e ∈ m) :
    m.find e.1 = some e.2 := by
  induction m with
  | nil => exact absurd he List.not_mem_nil
  | cons e' m ih =>
      obtain ⟨k, v⟩ := e'
      obtain ⟨hfirst, hrest⟩ := List.pairwise_cons.mp h
      rw [find]
      rcases List.mem_cons.mp he with rfl | he
      · exact if_pos rfl
      · have hne : k ≠ e.1 := ne_of_lt (hfirst e he)
        rw [if_neg hne, ih hrest he]

theorem Ordered.nodup {m : NameMap α} (h : m.Ordered) : (m.map Prod.fst).Nodup := by
  rw [List.Nodup, List.pairwise_map]
  exact h.imp fun hlt => ne_of_lt hlt

end NameMap

end Yarr

/-!
## Ordered maps

A map as the list of its pairs, in the order of the keys. A second insertion
under a key replaces the first.
-/

namespace Yarr

abbrev KeyMap (K V : Type) := List (K × V)

namespace KeyMap

variable {K V : Type} [LinearOrder K]

def insert (key : K) (value : V) : KeyMap K V → KeyMap K V
  | [] => [(key, value)]
  | (k, v) :: rest =>
      if key < k then (key, value) :: (k, v) :: rest
      else if k = key then (key, value) :: rest
      else (k, v) :: insert key value rest

def find (key : K) : KeyMap K V → Option V
  | [] => none
  | (k, v) :: rest => if k = key then some v else find key rest

def keys (m : KeyMap K V) : List K := m.map Prod.fst

def Ordered (m : KeyMap K V) : Prop := m.keys.Pairwise (· < ·)

theorem find_insert (key k : K) (value : V) (m : KeyMap K V) :
    (m.insert key value).find k = if k = key then some value else m.find k := by
  induction m with
  | nil => simp only [insert, find, eq_comm]
  | cons e m ih =>
      obtain ⟨k', v'⟩ := e
      rw [insert]
      split
      · simp only [find, eq_comm]
      · split
        · rename_i hk'
          subst hk'
          by_cases hk : k = k'
          · simp only [find, if_pos hk, if_pos hk.symm]
          · simp only [find, if_neg hk, if_neg (Ne.symm hk)]
        · rename_i hk'
          by_cases hk : k = key
          · have hne : k' ≠ k := fun h => hk' (h.trans hk)
            simp only [find, ih, if_pos hk, if_neg hne]
          · simp only [find, ih, if_neg hk]

theorem mem_keys_insert {key k : K} {value : V} {m : KeyMap K V} :
    k ∈ (m.insert key value).keys ↔ k = key ∨ k ∈ m.keys := by
  induction m with
  | nil => simp [insert, keys]
  | cons e m ih =>
      obtain ⟨k', v'⟩ := e
      rw [insert]
      split
      · simp [keys]
      · split
        · rename_i hk'
          subst hk'
          simp [keys]
        · unfold keys at ih ⊢
          rw [List.map_cons, List.mem_cons, ih, List.map_cons, List.mem_cons]
          exact or_left_comm

theorem Ordered.insert {m : KeyMap K V} (h : m.Ordered) (key : K) (value : V) :
    (KeyMap.insert key value m).Ordered := by
  induction m with
  | nil => exact List.pairwise_singleton _ _
  | cons e m ih =>
      obtain ⟨k', v'⟩ := e
      obtain ⟨hfirst, hrest⟩ := List.pairwise_cons.mp h
      rw [KeyMap.insert]
      split
      · rename_i hlt
        apply List.pairwise_cons.mpr
        refine ⟨?_, h⟩
        intro k hk
        rcases List.mem_cons.mp hk with rfl | hk
        · exact hlt
        · exact lt_trans hlt (hfirst k hk)
      · split
        · rename_i hk'
          subst hk'
          exact h
        · rename_i hge hne
          apply List.pairwise_cons.mpr
          refine ⟨?_, ih hrest⟩
          intro k hk
          rcases mem_keys_insert.mp hk with rfl | hk
          · exact lt_of_le_of_ne (not_lt.mp hge) hne
          · exact hfirst k hk

theorem find_isSome {k : K} {m : KeyMap K V} : (m.find k).isSome ↔ k ∈ m.keys := by
  induction m with
  | nil => simp [find, keys]
  | cons e m ih =>
      obtain ⟨k', v'⟩ := e
      rw [find]
      by_cases hk : k' = k
      · rw [if_pos hk]
        simp [keys, hk]
      · have hne : k ≠ k' := Ne.symm hk
        rw [if_neg hk, ih]
        simp [keys, hne]

theorem Ordered.eq_map {m : KeyMap K V} (h : m.Ordered) :
    m.map (fun e => some e.2) = m.keys.map fun k => m.find k := by
  induction m with
  | nil => rfl
  | cons e m ih =>
      obtain ⟨k', v'⟩ := e
      obtain ⟨hfirst, hrest⟩ := List.pairwise_cons.mp h
      have hskip : (keys m).map (fun k => find k ((k', v') :: m)) =
          (keys m).map (fun k => find k m) := by
        apply List.map_congr_left
        intro k hk
        exact if_neg (ne_of_lt (hfirst k hk))
      show some v' :: m.map (fun e => some e.2) =
        find k' ((k', v') :: m) :: (keys m).map (fun k => find k ((k', v') :: m))
      rw [hskip, ih hrest]
      congr 1
      exact (if_pos rfl).symm

end KeyMap

end Yarr

/-!
## Arrays that grow

An array with nulls in it, which an assignment makes as long as it has to be.
-/

namespace Yarr

abbrev SparseArray (α : Type) := List (Option α)

namespace SparseArray

variable {α : Type}

def at? (a : SparseArray α) (i : Nat) : Option α := (a[i]?).join

def assign (a : SparseArray α) (i : Nat) (x : α) : SparseArray α :=
  (a ++ List.replicate (i + 1 - a.length) none).set i (some x)

theorem at?_assign (a : SparseArray α) (i : Nat) (x : α) (j : Nat) :
    (a.assign i x).at? j = if j = i then some x else a.at? j := by
  unfold assign at?
  by_cases hj : j = i
  · subst hj
    have hlong : j < (a ++ List.replicate (j + 1 - a.length) none).length := by
      rw [List.length_append, List.length_replicate]
      omega
    rw [if_pos rfl, List.getElem?_set_self hlong]
    rfl
  · rw [if_neg hj, List.getElem?_set_ne (Ne.symm hj)]
    by_cases hshort : j < a.length
    · rw [List.getElem?_append_left hshort]
    · have hnone : a[j]? = none := List.getElem?_eq_none (Nat.le_of_not_lt hshort)
      rw [hnone, List.getElem?_append_right (Nat.le_of_not_lt hshort), List.getElem?_replicate]
      split <;> rfl

theorem at?_foldl_assign {β : Type} (xs : List β) (a : SparseArray (List β)) (i j : Nat) :
    (xs.foldl (fun a x => a.assign i ((a.at? i).getD [] ++ [x])) a).at? j =
      if j = i ∧ xs ≠ [] then some ((a.at? i).getD [] ++ xs) else a.at? j := by
  induction xs generalizing a with
  | nil => simp
  | cons x xs ih =>
      rw [List.foldl_cons, ih, at?_assign, at?_assign]
      by_cases hj : j = i
      · subst hj
        cases xs with
        | nil => simp
        | cons y ys => simp
      · simp [hj]

end SparseArray

end Yarr

/-!
## JSON values

A value is read and written through keys. Writing through a null value makes
an object of it, as a fresh value starts; writing through a value of another
kind is an error.
-/

namespace Yarr

inductive Json where
  | null
  | bool (b : Bool)
  | int (n : Int)
  | float (x : ℚ)
  | str (s : String)
  | arr (elems : List Json)
  | obj (members : List (String × Json))

namespace Json

/-- The member of an object, if it is there. -/
def find (j : Json) (key : String) : Option Json :=
  match j with
  | obj members => NameMap.find key members
  | _ => none

/-- Work on the member `key`, which is null where there was none. -/
def update (j : Json) (key : String) (f : Json → Option Json) : Option Json :=
  match j with
  | null => (f null).map fun v => obj [(key, v)]
  | obj members =>
      (f ((NameMap.find key members).getD null)).map fun v => obj (NameMap.insert key v members)
  | _ => none

def set (j : Json) (key : String) (value : Json) : Option Json := j.update key fun _ => some value

/-- A number as a 16-bit one: bits above are cut off, fractions too. -/
def toUInt16 : Json → Option UInt16
  | bool b => some (if b then 1 else 0)
  | int n => some (UInt16.ofInt n)
  | float x => some (UInt16.ofInt (x.num.tdiv x.den))
  | _ => none

theorem toUInt16_int (x : UInt16) : (int x.toNat).toUInt16 = some x := by
  have hlt := x.toNat_lt
  have hmod : ((x.toNat : Int) % 2 ^ 16).toNat = x.toNat := by omega
  rw [toUInt16, UInt16.ofInt, hmod, UInt16.ofNat_toNat]

theorem find_update {j j' : Json} {key : String} {f : Json → Option Json}
    (h : j.update key f = some j') :
    ∃ v, f ((j.find key).getD null) = some v ∧
      ∀ k, j'.find k = if k = key then some v else j.find k := by
  cases j with
  | null =>
      obtain ⟨v, hv, rfl⟩ := Option.map_eq_some_iff.mp h
      refine ⟨v, hv, ?_⟩
      intro k
      simp only [find, NameMap.find, eq_comm]
  | obj members =>
      obtain ⟨v, hv, rfl⟩ := Option.map_eq_some_iff.mp h
      refine ⟨v, hv, ?_⟩
      intro k
      exact NameMap.find_insert key k v members
  | _ => exact absurd h (Option.some_ne_none j').symm

/-- A null value and an object can be written through. -/
def Open (j : Json) : Prop := j = null ∨ ∃ members, j = obj members

theorem Open.update {j : Json} (h : j.Open) {key : String} {f : Json → Option Json}
    (hf : (f ((j.find key).getD null)).isSome) : (j.update key f).isSome := by
  rcases h with rfl | ⟨members, rfl⟩
  · rw [Json.update, Option.isSome_map]
    exact hf
  · rw [Json.update, Option.isSome_map]
    exact hf

theorem open_of_update {j j' : Json} {key : String} {f : Json → Option Json}
    (h : j.update key f = some j') : j'.Open := by
  cases j with
  | null =>
      obtain ⟨v, -, rfl⟩ := Option.map_eq_some_iff.mp h
      exact Or.inr ⟨_, rfl⟩
  | obj members =>
      obtain ⟨v, -, rfl⟩ := Option.map_eq_some_iff.mp h
      exact Or.inr ⟨_, rfl⟩
  | _ => exact absurd h (Option.some_ne_none j').symm

end Json

end Yarr
