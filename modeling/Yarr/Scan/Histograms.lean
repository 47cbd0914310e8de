import Mathlib.Algebra.BigOperators.Group.List.Basic
import Mathlib.Data.Rat.Floor

/-!
# One-dimensional histograms

Over exact numbers, with what the analyses use of them.
-/

namespace Yarr.Scan

structure Histo1d where
  bins : Nat
  xlow : ℚ
  xhigh : ℚ
  data : List ℚ
  underflow : ℚ := 0
  overflow : ℚ := 0

namespace Histo1d

def new (arg_bins : Nat) (arg_xlow arg_xhigh : ℚ) : Histo1d where
  bins := arg_bins
  xlow := arg_xlow
  xhigh := arg_xhigh
  data := List.replicate arg_bins 0

variable (h : Histo1d)

def binWidth : ℚ := (h.xhigh - h.xlow) / h.bins

/-- A bin behind the last one is not there to be written. -/
def fill (x v : ℚ) : Option Histo1d :=
  if x < h.xlow then some { h with underflow := h.underflow + v }
  else if h.xhigh ≤ x then some { h with overflow := h.overflow + v }
  else
    let bin := ((x - h.xlow) / h.binWidth).floor.toNat
    if bin < h.data.length then some { h with data := h.data.modify bin (· + v) } else none

def getBin (n : Nat) : ℚ := if n < h.bins then h.data.getD n 0 else 0

/-- The source returns -1 outside the bounds. -/
def binNum (x : ℚ) : Option Nat :=
  if x < h.xlow then none
  else if h.xhigh < x then none
  else some ((x - h.xlow) / h.binWidth).floor.toNat

theorem bins_fill {h h' : Histo1d} {x v : ℚ} (hfill : h.fill x v = some h') :
    h'.bins = h.bins := by
  unfold fill at hfill
  split at hfill
  · cases hfill
    rfl
  · split at hfill
    · cases hfill
      rfl
    · dsimp only at hfill
      split at hfill
      · cases hfill
        rfl
      · cases hfill

end Histo1d

end Yarr.Scan

/-!
## Two-dimensional histograms

Bins in rows of `xbins`, over exact numbers. An entry outside the bounds goes
into the underflow or the overflow. A bin that was never filled holds zero.
-/

namespace Yarr.Scan

structure Histo2d where
  xbins : Nat
  xlow : ℚ
  xhigh : ℚ
  ybins : Nat
  ylow : ℚ
  yhigh : ℚ
  data : List ℚ
  m_isFilled : List Bool
  underflow : ℚ
  overflow : ℚ
  min : ℚ
  max : ℚ
  entries : UInt32
  length_data : data.length = xbins * ybins
  length_filled : m_isFilled.length = xbins * ybins
  unfilled : ∀ n, m_isFilled.getD n false = false → data.getD n 0 = 0

namespace Histo2d

def new (xbins : Nat) (xlow xhigh : ℚ) (ybins : Nat) (ylow yhigh : ℚ) : Histo2d where
  xbins := xbins
  xlow := xlow
  xhigh := xhigh
  ybins := ybins
  ylow := ylow
  yhigh := yhigh
  data := List.replicate (xbins * ybins) 0
  m_isFilled := List.replicate (xbins * ybins) false
  underflow := 0
  overflow := 0
  min := 0
  max := 0
  entries := 0
  length_data := List.length_replicate
  length_filled := List.length_replicate
  unfilled := by
    intro n _
    rw [List.getD_eq_getElem?_getD, List.getElem?_replicate]
    split <;> rfl

private theorem unfilled_of_marked {data data' : List ℚ} {filled filled' : List Bool}
    (h : ∀ n, filled.getD n false = false → data.getD n 0 = 0)
    (hsame : ∀ n, filled'.getD n false = false →
      filled.getD n false = false ∧ data'.getD n 0 = data.getD n 0) (n : Nat)
    (hn : filled'.getD n false = false) : data'.getD n 0 = 0 := by
  obtain ⟨hfilled, hdata⟩ := hsame n hn
  rw [hdata, h n hfilled]

private theorem getD_set_filled {filled : List Bool} {data data' : List ℚ} {i : Nat}
    (hlen : filled.length = data.length)
    (hother : ∀ n, n ≠ i ∨ data.length ≤ i → data'.getD n 0 = data.getD n 0) (n : Nat)
    (hn : (filled.set i true).getD n false = false) :
    filled.getD n false = false ∧ data'.getD n 0 = data.getD n 0 := by
  by_cases hi : i = n
  · subst hi
    by_cases hlt : i < filled.length
    · simp [List.getD_eq_getElem?_getD, hlt] at hn
    · have hle : filled.length ≤ i := Nat.le_of_not_lt hlt
      have hother' := hother i (Or.inr (hlen ▸ hle))
      exact ⟨by simp [List.getD_eq_getElem?_getD, List.getElem?_eq_none hle], hother'⟩
  · refine ⟨?_, hother n (Or.inl fun h => hi h.symm)⟩
    simpa [List.getD_eq_getElem?_getD, hi] using hn

variable (h : Histo2d)

def size : Nat := h.xbins * h.ybins

def xbinWidth : ℚ := (h.xhigh - h.xlow) / h.xbins

def ybinWidth : ℚ := (h.yhigh - h.ylow) / h.ybins

/-- Where `fill` and `binNum` find a point that is within the bounds. -/
def index (x y : ℚ) : Nat :=
  ((x - h.xlow) / h.xbinWidth).floor.toNat + ((y - h.ylow) / h.ybinWidth).floor.toNat * h.xbins

def getBin (n : Nat) : ℚ := if n < h.size then h.data.getD n 0 else 0

def isFilled (n : Nat) : Bool := h.m_isFilled.getD n false

def setBin (n : Nat) (v : ℚ) : Histo2d :=
  if n < h.size then
    { h with
      data := h.data.set n v
      m_isFilled := h.m_isFilled.set n true
      length_data := by rw [List.length_set, h.length_data]
      length_filled := by rw [List.length_set, h.length_filled]
      unfilled := by
        apply unfilled_of_marked h.unfilled
        apply getD_set_filled (h.length_filled.trans h.length_data.symm)
        intro m hm
        rcases hm with hm | hm
        · simp [List.getD_eq_getElem?_getD, hm.symm]
        · rw [List.set_eq_of_length_le hm] }
  else h

/-- A write behind the last bin, which the source does not keep from happening at the upper
bounds, is left out. -/
def fill (x y v : ℚ) : Histo2d :=
  if x < h.xlow ∨ y < h.ylow then
    { h with underflow := h.underflow + v, entries := h.entries + 1 }
  else if h.xhigh < x ∨ h.yhigh < y then
    { h with overflow := h.overflow + v, entries := h.entries + 1 }
  else
    { h with
      data := h.data.modify (h.index x y) (· + v)
      m_isFilled := h.m_isFilled.set (h.index x y) true
      max := if h.max < v then v else h.max
      min := if v < h.min then v else h.min
      entries := h.entries + 1
      length_data := by rw [List.length_modify, h.length_data]
      length_filled := by rw [List.length_set, h.length_filled]
      unfilled := by
        apply unfilled_of_marked h.unfilled
        apply getD_set_filled (h.length_filled.trans h.length_data.symm)
        intro m hm
        rcases hm with hm | hm
        · simp [List.getD_eq_getElem?_getD, hm.symm]
        · rw [List.modify_eq_self hm] }

/-- Bins that the other histogram never filled are skipped. -/
def add (other : Histo2d) : Histo2d :=
  if h.size = other.size then
    { h with
      data := h.data.mapIdx fun i d => if other.isFilled i then d + other.getBin i else d
      m_isFilled := h.m_isFilled.mapIdx fun i b => other.isFilled i || b
      max := (List.range h.size).foldl
        (fun m i => if other.isFilled i then Max.max (other.getBin i) m else m) h.max
      entries := h.entries + other.entries
      length_data := by rw [List.length_mapIdx, h.length_data]
      length_filled := by rw [List.length_mapIdx, h.length_filled]
      unfilled := by
        apply unfilled_of_marked h.unfilled
        intro n hn
        have hlen : h.m_isFilled.length = h.data.length :=
          h.length_filled.trans h.length_data.symm
        simp only [List.getD_eq_getElem?_getD, List.getElem?_mapIdx] at hn ⊢
        by_cases hlt : n < h.data.length
        · have hlt' : n < h.m_isFilled.length := hlen ▸ hlt
          simp only [List.getElem?_eq_getElem hlt', Option.map_some, Option.getD_some,
            Bool.or_eq_false_iff] at hn
          simp [List.getElem?_eq_getElem hlt, List.getElem?_eq_getElem hlt', hn]
        · have hle : h.data.length ≤ n := Nat.le_of_not_lt hlt
          simp [List.getElem?_eq_none hle, List.getElem?_eq_none (hlen ▸ hle)] }
  else h

def scale (s : ℚ) : Histo2d :=
  { h with
    data := h.data.map (· * s)
    length_data := by rw [List.length_map, h.length_data]
    unfilled := by
      apply unfilled_of_marked h.unfilled
      intro n hn
      refine ⟨hn, ?_⟩
      have hzero := h.unfilled n hn
      rw [List.getD_eq_getElem?_getD] at hzero ⊢
      rw [List.getD_eq_getElem?_getD, List.getElem?_map]
      cases hget : h.data[n]? with
      | none => rfl
      | some d =>
          rw [hget] at hzero
          obtain rfl : d = 0 := hzero
          exact zero_mul s }

/-- Over the bins that were filled. -/
def getMean : ℚ :=
  let filled := (List.range h.size).filter h.isFilled
  if filled.length < 1 then 0 else (filled.map h.getBin).sum / filled.length

/-- `binNum`, where the source returns -1 outside the bounds. -/
def binNum (x y : ℚ) : Option Nat :=
  if x < h.xlow ∨ y < h.ylow then none
  else if h.xhigh < x ∨ h.yhigh < y then none
  else some (h.index x y)

/-! ## Reading bins -/

/-- What one entry adds to a bin. -/
def gain (n : Nat) (x y v : ℚ) : ℚ := if h.binNum x y = some n then v else 0

theorem getBin_eq (n : Nat) : h.getBin n = h.data.getD n 0 := by
  unfold getBin
  split
  · rfl
  · rename_i hn
    have hlen : h.data.length ≤ n := by rw [h.length_data]; exact Nat.le_of_not_lt hn
    rw [List.getD_eq_getElem?_getD, List.getElem?_eq_none hlen]
    rfl

theorem data_eq : h.data = (List.range h.size).map h.getBin := by
  apply List.ext_getElem
  · rw [h.length_data, List.length_map, List.length_range]
    rfl
  · intro n hn _
    rw [List.getElem_map, List.getElem_range, getBin_eq, List.getD_eq_getElem?_getD,
      List.getElem?_eq_getElem hn]
    rfl

theorem getBin_of_le {n : Nat} (hn : h.size ≤ n) : h.getBin n = 0 :=
  if_neg (Nat.not_lt.mpr hn)

@[simp] theorem getBin_new (xbins : Nat) (xlow xhigh : ℚ) (ybins : Nat) (ylow yhigh : ℚ)
    (n : Nat) : (new xbins xlow xhigh ybins ylow yhigh).getBin n = 0 := by
  rw [getBin_eq, new, List.getD_eq_getElem?_getD, List.getElem?_replicate]
  split <;> rfl

theorem binNum_fill (x y v x' y' : ℚ) : (h.fill x y v).binNum x' y' = h.binNum x' y' := by
  unfold fill
  split
  · rfl
  · split <;> rfl

theorem size_fill (x y v : ℚ) : (h.fill x y v).size = h.size := by
  unfold fill
  split
  · rfl
  · split <;> rfl

theorem getBin_fill {n : Nat} (hn : n < h.size) (x y v : ℚ) :
    (h.fill x y v).getBin n = h.getBin n + h.gain n x y v := by
  simp only [getBin_eq, gain, binNum, fill]
  split
  · simp
  · split
    · simp
    · have hlen : n < h.data.length := by rw [h.length_data]; exact hn
      by_cases hi : h.index x y = n
      · simp [hi, List.getD_eq_getElem?_getD, hlen]
      · simp [hi, List.getD_eq_getElem?_getD]

theorem size_add (other : Histo2d) : (h.add other).size = h.size := by
  unfold add
  split <;> rfl

theorem getBin_add {other : Histo2d} (hsize : h.size = other.size) (n : Nat) :
    (h.add other).getBin n = h.getBin n + other.getBin n := by
  by_cases hn : n < h.size
  · have hlen : n < h.data.length := by rw [h.length_data]; exact hn
    rw [add, if_pos hsize]
    simp only [getBin_eq _ n, List.getD_eq_getElem?_getD, List.getElem?_mapIdx,
      List.getElem?_eq_getElem hlen, Option.map_some, Option.getD_some]
    split
    · rfl
    · rename_i hfilled
      have hzero := other.unfilled n (by simpa [isFilled] using hfilled)
      rw [List.getD_eq_getElem?_getD] at hzero
      rw [hzero, add_zero]
  · have hle := Nat.le_of_not_lt hn
    rw [getBin_of_le _ ((h.size_add other).symm ▸ hle), getBin_of_le _ hle,
      getBin_of_le _ (hsize ▸ hle), add_zero]

theorem getBin_scale (s : ℚ) (n : Nat) : (h.scale s).getBin n = h.getBin n * s := by
  rw [getBin_eq, getBin_eq, scale, List.getD_eq_getElem?_getD, List.getD_eq_getElem?_getD,
    List.getElem?_map]
  cases h.data[n]? with
  | none => exact (zero_mul s).symm
  | some d => rfl

theorem size_setBin (n : Nat) (v : ℚ) : (h.setBin n v).size = h.size := by
  unfold setBin
  split <;> rfl

theorem getBin_setBin {n : Nat} (hn : n < h.size) (v : ℚ) (m : Nat) :
    (h.setBin n v).getBin m = if m = n then v else h.getBin m := by
  have hlen : n < h.data.length := by rw [h.length_data]; exact hn
  rw [getBin_eq, getBin_eq, setBin, if_pos hn]
  simp only [List.getD_eq_getElem?_getD, List.getElem?_set]
  by_cases hm : n = m
  · subst hm
    simp [hlen]
  · simp [hm, Ne.symm hm]

theorem isFilled_add {other : Histo2d} (hsize : h.size = other.size) {n : Nat} (hn : n < h.size) :
    (h.add other).isFilled n = (other.isFilled n || h.isFilled n) := by
  have hlen : n < h.m_isFilled.length := by rw [h.length_filled]; exact hn
  rw [add, if_pos hsize]
  simp only [isFilled, List.getD_eq_getElem?_getD, List.getElem?_mapIdx,
    List.getElem?_eq_getElem hlen, Option.map_some, Option.getD_some]

theorem isFilled_setBin {n : Nat} (hn : n < h.size) (v : ℚ) (m : Nat) :
    (h.setBin n v).isFilled m = (decide (m = n) || h.isFilled m) := by
  have hlen : n < h.m_isFilled.length := by rw [h.length_filled]; exact hn
  rw [setBin, if_pos hn]
  simp only [isFilled, List.getD_eq_getElem?_getD, List.getElem?_set]
  by_cases hm : n = m
  · subst hm
    simp [hlen]
  · simp [hm, Ne.symm hm]

/-- A loop that sets some of the bins. -/
def setWhere (set : Nat → Prop) [DecidablePred set] (v : Nat → ℚ) (n : Nat) : Histo2d :=
  (List.range n).foldl (fun h i => if set i then h.setBin i (v i) else h) h

theorem setWhere_of_not {set : Nat → Prop} [DecidablePred set] (hnot : ∀ i, ¬set i) (v : Nat → ℚ)
    (n : Nat) : h.setWhere set v n = h := by
  unfold setWhere
  induction List.range n with
  | nil => rfl
  | cons i is ih => rw [List.foldl_cons, if_neg (hnot i), ih]

theorem size_setWhere (set : Nat → Prop) [DecidablePred set] (v : Nat → ℚ) (n : Nat) :
    (h.setWhere set v n).size = h.size := by
  unfold setWhere
  induction n with
  | zero => rfl
  | succ n ih =>
      rw [List.range_succ, List.foldl_append, List.foldl_cons, List.foldl_nil]
      split
      · rw [size_setBin, ih]
      · exact ih

theorem getBin_setWhere (set : Nat → Prop) [DecidablePred set] (v : Nat → ℚ) {n : Nat}
    (hn : n ≤ h.size) (i : Nat) :
    (h.setWhere set v n).getBin i = if i < n ∧ set i then v i else h.getBin i := by
  induction n with
  | zero => simp [setWhere]
  | succ n ih =>
      have hsize := h.size_setWhere set v n
      have hstep : h.setWhere set v (n + 1) =
          if set n then (h.setWhere set v n).setBin n (v n) else h.setWhere set v n := by
        unfold setWhere
        rw [List.range_succ, List.foldl_append, List.foldl_cons, List.foldl_nil]
      rw [hstep]
      by_cases hset : set n
      · rw [if_pos hset, getBin_setBin _ (by omega), ih (by omega)]
        by_cases hi : i = n
        · subst hi
          simp [hset]
        · have hlt : i < n + 1 ↔ i < n := by omega
          rw [if_neg hi]
          simp only [hlt]
      · rw [if_neg hset, ih (by omega)]
        by_cases hi : i = n
        · subst hi
          simp [hset]
        · have hlt : i < n + 1 ↔ i < n := by omega
          simp only [hlt]

end Histo2d

end Yarr.Scan
