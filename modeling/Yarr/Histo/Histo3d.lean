import Yarr.Histo.HistogramBase

/-!
# Three-dimensional histograms

Bins of any type of elements, the last axis running fastest. What goes through
a document comes back without the flags, which are made anew from the bins that
are positive. A copy has no flags at all, and another third axis.
-/

namespace Yarr.Histo

open Scan Observation

variable {D : Type} [Double D] {T : Type} [Element D T]

structure Histo3dT (D T : Type) extends HistogramBase where
  data : List T
  underflow : T
  overflow : T
  x : Axis D
  y : Axis D
  z : Axis D
  max : T
  min : T
  entries : UInt32
  m_isFilled : List Bool

namespace Histo3dT

def new (arg_name : String) (arg_xbins : Nat) (arg_xlow arg_xhigh : D) (arg_ybins : Nat)
    (arg_ylow arg_yhigh : D) (arg_zbins : Nat) (arg_zlow arg_zhigh : D) (stat : LoopStatus) :
    Histo3dT D T where
  name := arg_name
  lStat := stat
  data := List.replicate (arg_xbins * arg_ybins * arg_zbins) (Zero.zero : T)
  underflow := Zero.zero
  overflow := Zero.zero
  x := .of arg_xbins arg_xlow arg_xhigh
  y := .of arg_ybins arg_ylow arg_yhigh
  z := .of arg_zbins arg_zlow arg_zhigh
  max := Zero.zero
  min := Zero.zero
  entries := 0
  m_isFilled := List.replicate (arg_xbins * arg_ybins * arg_zbins) false

variable (h : Histo3dT D T)

def size : Nat := h.x.bins * h.y.bins * h.z.bins

def getBin (n : Nat) : D :=
  if n < h.size then Element.toDouble (h.data.getD n (Zero.zero : T)) else 0

/-- The flag behind the last one is read too, and is not there. -/
def isFilled (n : Nat) : Option Bool :=
  if n ≤ h.m_isFilled.length then h.m_isFilled[n]? else some false

/-- The bounds and the width of the third axis are its number of bins, and no flag is copied. -/
def copy : Histo3dT D T where
  name := h.name
  lStat := h.lStat
  data := (List.range h.size).map fun i => Element.ofDouble (h.getBin i)
  underflow := h.underflow
  overflow := h.overflow
  x := h.x
  y := h.y
  z := ⟨h.z.bins, (h.z.bins : D), (h.z.bins : D), (h.z.bins : D)⟩
  max := h.max
  min := h.min
  entries := h.entries
  m_isFilled := []

/-- A bin or a flag behind the last one is not there to be written. -/
def fill (x y z : D) (v : T) : Option (Histo3dT D T) :=
  if x < h.x.low ∨ y < h.y.low ∨ z < h.z.low then
    some { h with underflow := h.underflow + v, entries := h.entries + 1 }
  else if h.x.high < x ∨ h.y.high < y ∨ h.z.high < z then
    some { h with overflow := h.overflow + v, entries := h.entries + 1 }
  else
    let xbin := Double.toUnsigned ((x - h.x.low) / h.x.binWidth)
    let ybin := Double.toUnsigned ((y - h.y.low) / h.y.binWidth)
    let zbin := Double.toUnsigned ((z - h.z.low) / h.z.binWidth)
    let index := (ybin + xbin * h.y.bins) * h.z.bins + zbin
    if index < h.data.length ∧ index < h.m_isFilled.length then
      some
        { h with
          data := h.data.modify index (· + v)
          max := if Element.gt D v h.max then v else h.max
          min := if Element.gt D h.min v then v else h.min
          m_isFilled := h.m_isFilled.set index true
          entries := h.entries + 1 }
    else none

/-- `data[i] + h.getBin(i)`, as it is kept. -/
def added (other : Histo3dT D T) : List T :=
  h.data.mapIdx fun i d => Element.ofDouble (Element.toDouble d + other.getBin i)

def add (other : Histo3dT D T) : Option (Histo3dT D T) :=
  if h.size ≠ other.size then some h
  else if h.m_isFilled.length < h.size then none
  else
    some
      { h with
        data := h.added other
        m_isFilled := h.m_isFilled.mapIdx fun i b => b || other.isFilled i = some true
        max := (h.added other).foldl (fun max d => if Element.gt D max d then max else d) h.max
        entries := h.entries + other.entries }

def divide (other : Histo3dT D T) : Histo3dT D T :=
  if h.size ≠ other.size then h
  else
    { h with
      data := h.data.mapIdx fun i d =>
        if Double.eqZero (other.getBin i) then (Zero.zero : T)
        else Element.ofDouble (Element.toDouble d / other.getBin i)
      entries := h.entries + other.entries }

def multiply (other : Histo3dT D T) : Histo3dT D T :=
  if h.size ≠ other.size then h
  else
    { h with
      data := h.data.mapIdx fun i d => Element.ofDouble (Element.toDouble d * other.getBin i)
      entries := h.entries + other.entries }

def scale (s : D) : Histo3dT D T :=
  { h with data := h.data.map fun d => Element.ofDouble (Element.toDouble d * s) }

/-- The flag is not set here. -/
def setBin (n : Nat) (v : T) : Histo3dT D T :=
  if n < h.size then { h with data := h.data.set n v } else h

def filled : Option (List D) :=
  filledBins (h.data.map (Element.toDouble : T → D)) h.m_isFilled

def getMean : Option D := h.filled.map meanOf

def getStdDev : Option D := h.filled.map (stdDevOf fun d => d * d)

/-! ## Documents -/

def dataLines : List (Doc D) :=
  (List.range h.x.bins).map fun x => .arr ((List.range h.y.bins).map fun y =>
    .arr ((List.range h.z.bins).map fun z =>
      Element.toDoc (h.data.getD ((y + x * h.y.bins) * h.z.bins + z) (Zero.zero : T))))

def toJson : Doc D :=
  .obj ([("Type", .str "Histo3d"), ("Name", .str h.name),
    ("x", axisDoc h.xAxisTitle h.x), ("y", axisDoc h.yAxisTitle h.y),
    ("z", axisDoc h.zAxisTitle h.z),
    ("Underflow", Element.toDoc h.underflow), ("Overflow", Element.toDoc h.overflow),
    ("Entries", .unsigned h.entries.toNat)] ++
    statusMembers h.lStat ++ if h.x.bins = 0 then [] else [("Data", .arr h.dataLines)])

/-- The bins in the order of their numbers, each from its place in the lines. -/
def readData (j : Doc D) (xbins ybins zbins : Nat) : Option (List T) :=
  (List.range (xbins * ybins * zbins)).mapM fun i => do
    let plane ← (← j.find "Data").elem (i / zbins / ybins)
    let line ← plane.elem (i / zbins % ybins)
    let elem ← line.elem (i % zbins)
    Element.ofDoc elem

/-- The flags that a document brings back. -/
def positive (data : List T) : List Bool := data.map fun d => Element.gt D d Zero.zero

/-- The member function, for a document of the right type. The flag is set for positive bins. -/
def fromJson (j : Doc D) : Option (Histo3dT D T) := do
  let name ← (← j.find "Name").toString
  let (xAxisTitle, x) ← readAxis h.x (← j.find "x")
  let (yAxisTitle, y) ← readAxis h.y (← j.find "y")
  let (zAxisTitle, z) ← readAxis h.z (← j.find "z")
  let underflow ← Element.ofDoc (← j.find "Underflow")
  let overflow ← Element.ofDoc (← j.find "Overflow")
  let entries ← (← j.find "Entries").toNat
  let data ← readData j x.bins y.bins z.bins
  return { h with
    name := name
    xAxisTitle := xAxisTitle
    yAxisTitle := yAxisTitle
    zAxisTitle := zAxisTitle
    x := x
    y := y
    z := z
    underflow := underflow
    overflow := overflow
    entries := UInt32.ofNat entries
    data := data
    m_isFilled := positive (D := D) data
    max := data.foldl
      (fun max d => if Element.gt D d Zero.zero && Element.gt D d max then d else max) h.max }

/-! ## What a histogram shows -/

def observe : Observed D T where
  name := h.name
  titles := [h.xAxisTitle, h.yAxisTitle, h.zAxisTitle]
  axes := [h.x, h.y, h.z]
  contents := (List.range h.size).map h.getBin
  filled := flagsRead h.size h.m_isFilled
  underflow := h.underflow
  overflow := h.overflow
  entries := h.entries
  position := h.position
  mean := h.getMean
  stdDev := h.getStdDev

inductive Reachable : Histo3dT D T → Prop where
  | new (name : String) (xbins : Nat) (xlow xhigh : D) (ybins : Nat) (ylow yhigh : D)
      (zbins : Nat) (zlow zhigh : D) (stat : LoopStatus) :
      Reachable (.new name xbins xlow xhigh ybins ylow yhigh zbins zlow zhigh stat)
  | titles (h : Histo3dT D T) (x y z : String) : Reachable h →
      Reachable { h with xAxisTitle := x, yAxisTitle := y, zAxisTitle := z }
  | fill (h h' : Histo3dT D T) (x y z : D) (v : T) : Reachable h → h.fill x y z v = some h' →
      Reachable h'
  | setBin (h : Histo3dT D T) (n : Nat) (v : T) : Reachable h → Reachable (h.setBin n v)
  | scale (h : Histo3dT D T) (s : D) : Reachable h → Reachable (h.scale s)
  | add (h h' other : Histo3dT D T) : Reachable h → Reachable other → h.add other = some h' →
      Reachable h'
  | multiply (h other : Histo3dT D T) : Reachable h → Reachable other →
      Reachable (h.multiply other)
  | divide (h other : Histo3dT D T) : Reachable h → Reachable other → Reachable (h.divide other)

/-- What may be done with both histograms. -/
inductive Op (D T : Type) where
  | fill (x y z : D) (v : T)
  | add (other : Histo3dT D T)

def perform (h : Histo3dT D T) : Op D T → Option (Histo3dT D T)
  | .fill x y z v => h.fill x y z v
  | .add other => h.add other

/-- Only histograms that there can be are added. -/
def Allowed : Op D T → Prop
  | .fill _ _ _ _ => True
  | .add other => Reachable other

/-- Nothing tells the two apart. -/
def Equal (h h' : Histo3dT D T) : Prop := Alike perform observe Allowed h h'

/-! ## Invariants -/

/-- A bin and a flag for each index, and widths that fit to the bounds. -/
structure Wellformed (h : Histo3dT D T) : Prop where
  length_data : h.data.length = h.size
  length_filled : h.m_isFilled.length = h.size
  xAxis : h.x = .of h.x.bins h.x.low h.x.high
  yAxis : h.y = .of h.y.bins h.y.low h.y.high
  zAxis : h.z = .of h.z.bins h.z.low h.z.high

/-- The shape of a histogram stays as it is. -/
structure SameShape (h h' : Histo3dT D T) : Prop where
  x : h'.x = h.x
  y : h'.y = h.y
  z : h'.z = h.z
  data : h'.data.length = h.data.length
  filled : h'.m_isFilled.length = h.m_isFilled.length

theorem SameShape.wellformed {h h' : Histo3dT D T} (hsame : SameShape h h') (hwf : h.Wellformed) :
    h'.Wellformed := by
  have hsize : h'.size = h.size := by rw [size, size, hsame.x, hsame.y, hsame.z]
  constructor
  · rw [hsame.data, hwf.length_data, hsize]
  · rw [hsame.filled, hwf.length_filled, hsize]
  · rw [hsame.x]
    exact hwf.xAxis
  · rw [hsame.y]
    exact hwf.yAxis
  · rw [hsame.z]
    exact hwf.zAxis

theorem sameShape_fill {h h' : Histo3dT D T} {x y z : D} {v : T}
    (hfill : h.fill x y z v = some h') : SameShape h h' := by
  unfold fill at hfill
  split at hfill
  · cases hfill
    exact ⟨rfl, rfl, rfl, rfl, rfl⟩
  · split at hfill
    · cases hfill
      exact ⟨rfl, rfl, rfl, rfl, rfl⟩
    · dsimp only at hfill
      split at hfill
      · cases hfill
        exact ⟨rfl, rfl, rfl, List.length_modify _ _ _, List.length_set⟩
      · cases hfill

theorem sameShape_setBin (h : Histo3dT D T) (n : Nat) (v : T) : SameShape h (h.setBin n v) := by
  unfold setBin
  split
  · exact ⟨rfl, rfl, rfl, List.length_set, rfl⟩
  · exact ⟨rfl, rfl, rfl, rfl, rfl⟩

theorem sameShape_add {h h' other : Histo3dT D T} (hadd : h.add other = some h') :
    SameShape h h' := by
  unfold add at hadd
  split at hadd
  · cases hadd
    exact ⟨rfl, rfl, rfl, rfl, rfl⟩
  · split at hadd
    · cases hadd
    · cases hadd
      exact ⟨rfl, rfl, rfl, List.length_mapIdx, List.length_mapIdx⟩

theorem sameShape_multiply (h other : Histo3dT D T) : SameShape h (h.multiply other) := by
  unfold multiply
  split
  · exact ⟨rfl, rfl, rfl, rfl, rfl⟩
  · exact ⟨rfl, rfl, rfl, List.length_mapIdx, rfl⟩

theorem sameShape_divide (h other : Histo3dT D T) : SameShape h (h.divide other) := by
  unfold divide
  split
  · exact ⟨rfl, rfl, rfl, rfl, rfl⟩
  · exact ⟨rfl, rfl, rfl, List.length_mapIdx, rfl⟩

theorem Reachable.wellformed {h : Histo3dT D T} (hreach : Reachable h) : h.Wellformed := by
  induction hreach with
  | new name xbins xlow xhigh ybins ylow yhigh zbins zlow zhigh stat =>
      exact ⟨List.length_replicate, List.length_replicate, rfl, rfl, rfl⟩
  | titles h x y z _ ih =>
      exact ⟨ih.length_data, ih.length_filled, ih.xAxis, ih.yAxis, ih.zAxis⟩
  | fill h h' x y z v _ hfill ih => exact (sameShape_fill hfill).wellformed ih
  | setBin h n v _ ih => exact (sameShape_setBin h n v).wellformed ih
  | scale h s _ ih =>
      exact ⟨(List.length_map _).trans ih.length_data, ih.length_filled, ih.xAxis, ih.yAxis,
        ih.zAxis⟩
  | add h h' other _ _ hadd ih => exact (sameShape_add hadd).wellformed ih
  | multiply h other _ _ ih => exact (sameShape_multiply h other).wellformed ih
  | divide h other _ _ ih => exact (sameShape_divide h other).wellformed ih

/-! ## The way through a document -/

theorem find_toJson (h : Histo3dT D T) :
    h.toJson.find "Type" = some (.str "Histo3d") ∧ h.toJson.find "Name" = some (.str h.name) ∧
    h.toJson.find "x" = some (axisDoc h.xAxisTitle h.x) ∧
    h.toJson.find "y" = some (axisDoc h.yAxisTitle h.y) ∧
    h.toJson.find "z" = some (axisDoc h.zAxisTitle h.z) ∧
    h.toJson.find "Underflow" = some (Element.toDoc h.underflow) ∧
    h.toJson.find "Overflow" = some (Element.toDoc h.overflow) ∧
    h.toJson.find "Entries" = some (.unsigned h.entries.toNat) ∧
    (h.x.bins ≠ 0 → h.toJson.find "Data" = some (.arr h.dataLines)) := by
  unfold toJson statusMembers
  split
  · simp +contextual [NameMap.find]
  · simp +contextual [NameMap.find]

theorem find_loopStatus (h : Histo3dT D T) (hsize : h.lStat.size ≠ 0) :
    h.toJson.find "loopStatus" =
      some (.arr (h.lStat.statVec.map fun position => .unsigned position.toNat)) := by
  simp [toJson, statusMembers, hsize, NameMap.find]

theorem readData_toJson {h : Histo3dT D T} (hwf : h.Wellformed) :
    readData h.toJson h.x.bins h.y.bins h.z.bins = some h.data := by
  obtain ⟨_, _, _, _, _, _, _, _, hdata⟩ := h.find_toJson
  apply mapM_range h.data hwf.length_data.symm
  intro i hi
  have hlt : i < h.x.bins * h.y.bins * h.z.bins := lt_of_lt_of_eq hi hwf.length_data
  have hpos : 0 < h.x.bins * h.y.bins * h.z.bins := Nat.lt_of_le_of_lt (Nat.zero_le i) hlt
  have hz : i % h.z.bins < h.z.bins := Nat.mod_lt i (Nat.pos_of_mul_pos_left hpos)
  have hxy : 0 < h.x.bins * h.y.bins := Nat.pos_of_mul_pos_right hpos
  have hy : i / h.z.bins % h.y.bins < h.y.bins := Nat.mod_lt _ (Nat.pos_of_mul_pos_left hxy)
  have hx : i / h.z.bins / h.y.bins < h.x.bins := by
    apply Nat.div_lt_of_lt_mul
    rw [Nat.mul_comm h.y.bins]
    apply Nat.div_lt_of_lt_mul
    rw [Nat.mul_comm h.z.bins]
    exact hlt
  have hline : i / h.z.bins % h.y.bins + i / h.z.bins / h.y.bins * h.y.bins = i / h.z.bins := by
    rw [Nat.mul_comm]
    exact Nat.mod_add_div _ _
  have hindex : i / h.z.bins * h.z.bins + i % h.z.bins = i := by
    rw [Nat.mul_comm]
    exact Nat.div_add_mod _ _
  have hbins : h.x.bins ≠ 0 := Nat.ne_of_gt (Nat.lt_of_le_of_lt (Nat.zero_le _) hx)
  simp [hdata hbins, dataLines, hx, hy, hz, hline, hindex, List.getElem?_eq_getElem hi]

/-- The largest positive bin, or zero. -/
def maxRead (data : List T) : T :=
  data.foldl (fun max d => if Element.gt D d Zero.zero && Element.gt D d max then d else max)
    Zero.zero

theorem fromJson_toJson {h : Histo3dT D T} (hwf : h.Wellformed) (stat : LoopStatus) :
    (new h.name h.x.bins h.x.low h.x.high h.y.bins h.y.low h.y.high h.z.bins h.z.low h.z.high stat :
        Histo3dT D T).fromJson h.toJson =
      some { h with
        lStat := stat
        max := maxRead (D := D) h.data
        min := Zero.zero
        m_isFilled := positive (D := D) h.data } := by
  obtain ⟨_, hname, hx, hy, hz, hunderflow, hoverflow, hentries, _⟩ := h.find_toJson
  have hxAxis := readAxis_axisDoc h.xAxisTitle hwf.xAxis
  have hyAxis := readAxis_axisDoc h.yAxisTitle hwf.yAxis
  have hzAxis := readAxis_axisDoc h.zAxisTitle hwf.zAxis
  simp [fromJson, hname, hx, hy, hz, hunderflow, hoverflow, hentries, readData_toJson hwf,
    new, hxAxis, hyAxis, hzAxis, maxRead]

/-! ## What does not show -/

/-- Equal but for the extreme entries and the parts of the status that do not show. -/
def SameShown (h h' : Histo3dT D T) : Prop :=
  ∃ stat max min, h.position = (stat.statVec, stat.styleVec) ∧
    h' = { h with lStat := stat, max := max, min := min }

theorem SameShown.fill {h h' : Histo3dT D T} (hsame : SameShown h h') (x y z : D) (v : T) :
    Option.Rel SameShown (h.fill x y z v) (h'.fill x y z v) := by
  obtain ⟨stat, max, min, hposition, rfl⟩ := hsame
  unfold Histo3dT.fill
  by_cases hlow : x < h.x.low ∨ y < h.y.low ∨ z < h.z.low
  · simp only [if_pos hlow]
    exact .some ⟨_, _, _, hposition, rfl⟩
  · by_cases hhigh : h.x.high < x ∨ h.y.high < y ∨ h.z.high < z
    · simp only [if_neg hlow, if_pos hhigh]
      exact .some ⟨_, _, _, hposition, rfl⟩
    · simp only [if_neg hlow, if_neg hhigh]
      split
      · exact .some ⟨_, _, _, hposition, rfl⟩
      · exact .none

theorem SameShown.add {h h' : Histo3dT D T} (hsame : SameShown h h') (other : Histo3dT D T) :
    Option.Rel SameShown (h.add other) (h'.add other) := by
  obtain ⟨stat, max, min, hposition, rfl⟩ := hsame
  by_cases hsize : h.size ≠ other.size
  · have hleft : h.add other = some h := if_pos hsize
    have hright : Histo3dT.add { h with lStat := stat, max := max, min := min } other =
        some { h with lStat := stat, max := max, min := min } := if_pos hsize
    rw [hright, hleft]
    exact .some ⟨stat, max, min, hposition, rfl⟩
  · by_cases hflags : h.m_isFilled.length < h.size
    · have hleft : h.add other = none := (if_neg hsize).trans (if_pos hflags)
      have hright : Histo3dT.add { h with lStat := stat, max := max, min := min } other = none :=
        (if_neg hsize).trans (if_pos hflags)
      rw [hright, hleft]
      exact .none
    · have hleft : h.add other = some _ := (if_neg hsize).trans (if_neg hflags)
      have hright : Histo3dT.add { h with lStat := stat, max := max, min := min } other = some _ :=
        (if_neg hsize).trans (if_neg hflags)
      rw [hright, hleft]
      exact .some ⟨stat, _, min, hposition, rfl⟩

theorem SameShown.observe {h h' : Histo3dT D T} (hsame : SameShown h h') :
    h.observe = h'.observe := by
  obtain ⟨stat, max, min, hposition, rfl⟩ := hsame
  unfold Histo3dT.observe
  rw [hposition]
  rfl

theorem equal_of_sameShown {h h' : Histo3dT D T} (hsame : SameShown h h') : Equal h h' := by
  apply alike_of_relation SameShown (fun _ _ => SameShown.observe) ?_ hsame
  intro s t op hst
  cases op with
  | fill x y z v => exact hst.fill x y z v
  | add other => exact hst.add other

theorem equal_iff_filled {h : Histo3dT D T} (hwf : h.Wellformed) {stat : LoopStatus} {max min : T}
    {flags : List Bool} (hposition : h.position = (stat.statVec, stat.styleVec))
    (hflags : flags.length = h.size) :
    Equal h { h with lStat := stat, max := max, min := min, m_isFilled := flags } ↔
      h.m_isFilled = flags := by
  constructor
  · intro hequal
    exact flagsRead_injective hwf.length_filled hflags (congrArg Observed.filled hequal.now)
  · intro heq
    apply equal_of_sameShown
    refine ⟨stat, max, min, hposition, ?_⟩
    rw [heq]

theorem filled_eq_positive_iff {h : Histo3dT D T} (hwf : h.Wellformed) :
    h.m_isFilled = positive (D := D) h.data ↔
      ∀ n < h.size, h.isFilled n = some true ↔
        Element.gt D (h.data.getD n (Zero.zero : T)) Zero.zero = true := by
  rw [positive, flags_eq_map_iff _ (Zero.zero : T) (hwf.length_filled.trans hwf.length_data.symm),
    hwf.length_data]
  apply forall₂_congr
  intro n hn
  have hle : n ≤ h.m_isFilled.length := by
    rw [hwf.length_filled]
    exact Nat.le_of_lt hn
  rw [isFilled, if_pos hle]

/-! ## The copy -/

theorem data_copy {h : Histo3dT D T} (hwf : h.Wellformed) : h.copy.data = h.data := by
  apply List.ext_getElem?
  intro n
  by_cases hn : n < h.size
  · have hlt : n < h.data.length := by
      rw [hwf.length_data]
      exact hn
    simp [copy, getBin, hn, List.getElem?_eq_getElem hlt, List.getD_eq_getElem?_getD]
  · have hlength : h.copy.data.length = h.size := by simp [copy]
    have hle := Nat.le_of_not_lt hn
    rw [List.getElem?_eq_none (hlength ▸ hle), List.getElem?_eq_none (hwf.length_data ▸ hle)]

/-- The third axis that a copy has. -/
def copiedAxis (z : Axis D) : Axis D := ⟨z.bins, (z.bins : D), (z.bins : D), (z.bins : D)⟩

theorem copy_eq {h : Histo3dT D T} (hwf : h.Wellformed) :
    h.copy = { h with
      xAxisTitle := "x"
      yAxisTitle := "y"
      zAxisTitle := "z"
      z := copiedAxis h.z
      m_isFilled := [] } := by
  have hdata := data_copy hwf
  unfold copy at hdata ⊢
  simp only at hdata
  rw [hdata]
  rfl

theorem equal_copy_iff {h : Histo3dT D T} (hwf : h.Wellformed) :
    Equal h h.copy ↔ h.size = 0 ∧ h.z = copiedAxis h.z ∧ h.DefaultTitles := by
  rw [copy_eq hwf]
  constructor
  · intro hequal
    have haxes := congrArg Observed.axes hequal.now
    have htitles := congrArg Observed.titles hequal.now
    have hfilled := congrArg Observed.filled hequal.now
    refine ⟨?_, ?_, ?_⟩
    · by_contra hsize
      exact flagsRead_nil hsize hwf.length_filled hfilled.symm
    · simpa [observe] using haxes
    · simpa [observe, HistogramBase.DefaultTitles] using htitles
  · intro ⟨hsize, hz, hxTitle, hyTitle, hzTitle⟩
    have hnil : h.m_isFilled = [] := by
      apply List.eq_nil_of_length_eq_zero
      rw [hwf.length_filled, hsize]
    apply equal_of_sameShown
    refine ⟨h.lStat, h.max, h.min, rfl, ?_⟩
    rw [← hz, ← hnil, ← hxTitle, ← hyTitle, ← hzTitle]

end Histo3dT

/-- The bins are 16 bits wide. -/
abbrev Histo3d (D : Type) := Histo3dT D UInt16

end Yarr.Histo
