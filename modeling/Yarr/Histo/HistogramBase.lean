import Mathlib.Data.List.Induction
import Mathlib.Data.List.Range
import Mathlib.Data.UInt
import Yarr.Core.Lockstep
import Yarr.Core.Maps
import Yarr.Scan.Loops

/-!
# What all histograms have

The numbers are of any arithmetic that has the operations of `double`, so no
law of exact numbers is used. Bins hold numbers of a type that fits into
`double` and comes back unchanged.
-/

namespace Yarr.Histo

open Scan

/-! ## Numbers -/

/-- The operations of `double`. `toUnsigned` is the conversion to `unsigned`. -/
class Double (D : Type) extends Zero D, Add D, Sub D, Mul D, Div D, LT D, LE D, NatCast D where
  decLt : ∀ x y : D, Decidable (x < y)
  decLe : ∀ x y : D, Decidable (x ≤ y)
  eqZero : D → Bool
  pow : D → Nat → D
  sqrt : D → D
  toUnsigned : D → Nat
  toUnsigned_natCast : ∀ n : Nat, n < 2 ^ 16 → toUnsigned (n : D) = n

instance decidableLt {D : Type} [Double D] (x y : D) : Decidable (x < y) := Double.decLt x y

instance decidableLe {D : Type} [Double D] (x y : D) : Decidable (x ≤ y) := Double.decLe x y

/-- `std::max`. -/
def stdMax {D : Type} [Double D] (x y : D) : D := if x < y then y else x

/-! ## JSON values -/

inductive Doc (D : Type) where
  | str (s : String)
  | unsigned (n : Nat)
  | double (x : D)
  | arr (elems : List (Doc D))
  | obj (members : List (String × Doc D))

namespace Doc

variable {D : Type}

/-- A member that is not there is not to be read. -/
def find : Doc D → String → Option (Doc D)
  | obj members, key => NameMap.find key members
  | _, _ => none

def elem : Doc D → Nat → Option (Doc D)
  | arr elems, i => elems[i]?
  | _, _ => none

def toString : Doc D → Option String
  | str s => some s
  | _ => none

def toNat : Doc D → Option Nat
  | unsigned n => some n
  | _ => none

def toDouble [Double D] : Doc D → Option D
  | double x => some x
  | unsigned n => some n
  | _ => none

@[simp] theorem find_obj (members : List (String × Doc D)) (key : String) :
    (obj members).find key = NameMap.find key members := rfl

@[simp] theorem elem_arr (elems : List (Doc D)) (i : Nat) : (arr elems).elem i = elems[i]? := rfl

@[simp] theorem toString_str (s : String) : (str s : Doc D).toString = some s := rfl

@[simp] theorem toNat_unsigned (n : Nat) : (unsigned n : Doc D).toNat = some n := rfl

@[simp] theorem toDouble_double [Double D] (x : D) : (double x).toDouble = some x := rfl

end Doc

/-- The type of the bins: `float` or `uint16_t`. -/
class Element (D : Type) [Double D] (T : Type) extends Zero T, Add T where
  gt : T → T → Bool
  toDouble : T → D
  ofDouble : D → T
  toDoc : T → Doc D
  ofDoc : Doc D → Option T
  ofDouble_toDouble : ∀ t, ofDouble (toDouble t) = t
  ofDoc_toDoc : ∀ t, ofDoc (toDoc t) = some t

attribute [simp] Element.ofDouble_toDouble Element.ofDoc_toDoc

/-- Sums are made in `int` and cut to 16 bits. -/
instance {D : Type} [Double D] : Element D UInt16 where
  gt x y := y < x
  toDouble x := (x.toNat : D)
  ofDouble x := UInt16.ofNat (Double.toUnsigned x)
  toDoc x := .unsigned x.toNat
  ofDoc j := j.toNat.map UInt16.ofNat
  ofDouble_toDouble x := by
    rw [Double.toUnsigned_natCast x.toNat x.toNat_lt, UInt16.ofNat_toNat]
  ofDoc_toDoc x := by simp [Doc.toNat]

/-! ## The base class -/

structure HistogramBase where
  name : String
  lStat : LoopStatus
  xAxisTitle : String := "x"
  yAxisTitle : String := "y"
  zAxisTitle : String := "z"

/-- Positions and styles are what a status shows here; the flag for the end of an iteration
and the loops that are left out of names are not part of the position. -/
def HistogramBase.position (h : HistogramBase) : List UInt32 × List LoopStyle :=
  (h.lStat.statVec, h.lStat.styleVec)

/-- The axes have the titles that the constructors give them. -/
def HistogramBase.DefaultTitles (h : HistogramBase) : Prop :=
  h.xAxisTitle = "x" ∧ h.yAxisTitle = "y" ∧ h.zAxisTitle = "z"

structure Axis (D : Type) where
  bins : Nat
  low : D
  high : D
  binWidth : D

/-- An axis as the constructors make it. -/
def Axis.of {D : Type} [Double D] (bins : Nat) (low high : D) : Axis D :=
  ⟨bins, low, high, (high - low) / (bins : D)⟩

def axisDoc {D : Type} (title : String) (axis : Axis D) : Doc D :=
  .obj [("AxisTitle", .str title), ("Bins", .unsigned axis.bins), ("Low", .double axis.low),
    ("High", .double axis.high)]

/-- The title and the bounds of an axis. The width that it had before stays. -/
def readAxis {D : Type} [Double D] (before : Axis D) (j : Doc D) : Option (String × Axis D) := do
  let title ← (← j.find "AxisTitle").toString
  let bins ← (← j.find "Bins").toNat
  let low ← (← j.find "Low").toDouble
  let high ← (← j.find "High").toDouble
  return (title, ⟨bins, low, high, before.binWidth⟩)

theorem readAxis_axisDoc {D : Type} [Double D] (title : String) {axis : Axis D}
    (h : axis = .of axis.bins axis.low axis.high) :
    readAxis (.of axis.bins axis.low axis.high) (axisDoc title axis) = some (title, axis) := by
  have haxis : (⟨axis.bins, axis.low, axis.high,
      (Axis.of axis.bins axis.low axis.high).binWidth⟩ : Axis D) = axis := h.symm
  simp [readAxis, axisDoc, NameMap.find, haxis]

/-- `statusFromJson`: positions from the document, styles from the template. -/
def statusFromJson {D : Type} (j : Doc D) (input : LoopStatus) : Option LoopStatus := do
  let statVec ← (List.range input.size).mapM fun i => do
    let position ← (← j.find "loopStatus").elem i
    return UInt32.ofNat (← position.toNat)
  if h : statVec.length = input.size then
    return ⟨statVec, input.styleVec, true, h ▸ input.size_le, h ▸ input.length_styleVec⟩
  else none

/-- The member for the position, which is not there without loops. -/
def statusMembers {D : Type} (l : LoopStatus) : List (String × Doc D) :=
  if l.size = 0 then []
  else [("loopStatus", .arr (l.statVec.map fun position => .unsigned position.toNat))]

theorem mapM_range {α : Type} (l : List α) {f : Nat → Option α} {n : Nat} (hn : n = l.length)
    (h : ∀ i, (hi : i < l.length) → f i = some l[i]) : (List.range n).mapM f = some l := by
  subst hn
  induction l using List.reverseRecOn with
  | nil => rfl
  | append_singleton l x ih =>
      have hinit := ih fun i hi => by
        rw [h i (by simp; omega), List.getElem_append_left hi]
      have hlast := h l.length (by simp)
      rw [List.getElem_append_right (Nat.le_refl _)] at hlast
      simp only [List.length_append, List.length_singleton, List.range_succ, List.mapM_append,
        hinit]
      simp [hlast]

theorem statusFromJson_eq {D : Type} {j : Doc D} {l template : LoopStatus}
    (hstyles : template.styleVec = l.styleVec)
    (hfind : l.size ≠ 0 → j.find "loopStatus" =
      some (.arr (l.statVec.map fun position => .unsigned position.toNat))) :
    ∃ l', statusFromJson j template = some l' ∧ l'.statVec = l.statVec ∧
      l'.styleVec = l.styleVec := by
  have hsize : template.size = l.statVec.length := by
    have hlength : template.styleVec.length = l.styleVec.length := congrArg List.length hstyles
    rw [template.length_styleVec, l.length_styleVec] at hlength
    exact hlength
  have hread : ((List.range template.size).mapM fun i => do
      let position ← (← j.find "loopStatus").elem i
      return UInt32.ofNat (← position.toNat)) = some l.statVec := by
    apply mapM_range l.statVec hsize
    intro i hi
    have hne : l.size ≠ 0 := by
      intro hzero
      exact Nat.not_lt_zero i (hzero ▸ hi)
    rw [hfind hne]
    simp [Doc.elem, Doc.toNat, List.getElem?_eq_getElem hi]
  unfold statusFromJson
  rw [hread]
  refine ⟨⟨l.statVec, template.styleVec, true, l.size_le, ?_⟩, ?_, rfl, hstyles⟩
  · rw [hstyles, l.length_styleVec]
  · simp [hsize]

/-- What a histogram shows; `none` where a flag is read that is not there. -/
structure Observed (D : Type) (T : Type) where
  name : String
  titles : List String
  axes : List (Axis D)
  contents : List D
  filled : List (Option Bool)
  underflow : T
  overflow : T
  entries : UInt32
  position : List UInt32 × List LoopStyle
  mean : Option D
  stdDev : Option D

end Yarr.Histo

/-!
## Bins with flags

A flag beside each bin says whether anything was put into it. Mean and
deviation are those of the bins with the flag.
-/

namespace Yarr.Histo

variable {D : Type} [Double D]

/-- The bins with the flag, unless a flag is not there. -/
def filledBins (data : List D) (m_isFilled : List Bool) : Option (List D) :=
  if m_isFilled.length < data.length then none
  else some (((data.zip m_isFilled).filter Prod.snd).map Prod.fst)

def meanOf (bins : List D) : D :=
  let sum := bins.foldl (· + ·) 0
  let entries : D := (bins.length : D)
  if entries < ((1 : Nat) : D) then 0 else sum / entries

def stdDevOf (square : D → D) (bins : List D) : D :=
  let mean := meanOf bins
  let mu := bins.foldl (fun mu d => mu + square (d - mean)) 0
  let entries : D := (bins.length : D)
  if entries < ((2 : Nat) : D) then 0
  else Double.sqrt (mu / (entries - ((1 : Nat) : D)))

/-- The flags as they are read one by one. -/
def flagsRead (size : Nat) (m_isFilled : List Bool) : List (Option Bool) :=
  (List.range size).map fun n => m_isFilled[n]?

theorem flagsRead_injective {size : Nat} {flags flags' : List Bool} (hlength : flags.length = size)
    (hlength' : flags'.length = size) (h : flagsRead size flags = flagsRead size flags') :
    flags = flags' := by
  apply List.ext_getElem?
  intro n
  by_cases hn : n < size
  · have hget := congrArg (fun l : List (Option Bool) => l[n]?) h
    simpa [flagsRead, hn] using hget
  · rw [List.getElem?_eq_none (by omega), List.getElem?_eq_none (by omega)]

theorem flagsRead_nil {size : Nat} (hsize : size ≠ 0) {flags : List Bool}
    (hlength : flags.length = size) : flagsRead size [] ≠ flagsRead size flags := by
  intro h
  have hzero : 0 < size := Nat.pos_of_ne_zero hsize
  have hget := congrArg (fun l : List (Option Bool) => l[0]?) h
  have hnil : flags = [] := by simpa [flagsRead, hzero] using hget
  rw [hnil] at hlength
  exact hsize hlength.symm

theorem flags_eq_map_iff {α : Type} {data : List α} {flags : List Bool} (p : α → Bool) (other : α)
    (hlength : flags.length = data.length) :
    flags = data.map p ↔
      ∀ n < data.length, flags[n]? = some true ↔ p (data.getD n other) = true := by
  constructor
  · intro heq n hn
    rw [heq]
    simp [hn]
  · intro hcond
    apply List.ext_getElem (hlength.trans (List.length_map p).symm)
    intro n hn hn'
    have hlt : n < data.length := hlength ▸ hn
    have hiff := hcond n hlt
    rw [List.getElem?_eq_getElem hn, List.getD_eq_getElem?_getD, List.getElem?_eq_getElem hlt,
      Option.some.injEq, Option.getD_some] at hiff
    rw [List.getElem_map, Bool.eq_iff_iff]
    exact hiff

end Yarr.Histo
