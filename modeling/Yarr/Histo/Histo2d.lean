import Yarr.Histo.HistogramBase

/-!
# Two-dimensional histograms

Bins in rows along the first axis. What goes through a document comes back
without the flags, which are made anew from the bins that are positive.
-/

namespace Yarr.Histo

open Scan Observation

variable {D : Type} [Double D] {S : Type} [Element D S]

structure Histo2d (D S : Type) extends HistogramBase where
  data : List S
  m_isFilled : List Bool
  underflow : D
  overflow : D
  x : Axis D
  y : Axis D
  max : D
  min : D
  entries : UInt32

namespace Histo2d

def new (arg_name : String) (arg_xbins : Nat) (arg_xlow arg_xhigh : D) (arg_ybins : Nat)
    (arg_ylow arg_yhigh : D) (stat : LoopStatus) : Histo2d D S where
  name := arg_name
  lStat := stat
  data := List.replicate (arg_xbins * arg_ybins) (Zero.zero : S)
  m_isFilled := List.replicate (arg_xbins * arg_ybins) false
  underflow := 0
  overflow := 0
  x := .of arg_xbins arg_xlow arg_xhigh
  y := .of arg_ybins arg_ylow arg_yhigh
  max := 0
  min := 0
  entries := 0

variable (h : Histo2d D S)

def size : Nat := h.x.bins * h.y.bins

def getBin (n : Nat) : D :=
  if n < h.size then Element.toDouble (h.data.getD n (Zero.zero : S)) else 0

/-- The flag behind the last one is read too, and is not there. -/
def isFilled (n : Nat) : Option Bool :=
  if n ≤ h.m_isFilled.length then h.m_isFilled[n]? else some false

/-- The copy has the name, but not the titles of the axes. -/
def copy : Histo2d D S where
  name := h.name
  lStat := h.lStat
  data := (List.range h.size).map fun i => Element.ofDouble (h.getBin i)
  m_isFilled := h.m_isFilled
  underflow := h.underflow
  overflow := h.overflow
  x := h.x
  y := h.y
  max := h.max
  min := h.min
  entries := h.entries

/-- A bin behind the last one is not there to be written. -/
def fill (x y v : D) : Option (Histo2d D S) :=
  if x < h.x.low ∨ y < h.y.low then
    some { h with underflow := h.underflow + v, entries := h.entries + 1 }
  else if h.x.high < x ∨ h.y.high < y then
    some { h with overflow := h.overflow + v, entries := h.entries + 1 }
  else
    let xbin := Double.toUnsigned ((x - h.x.low) / h.x.binWidth)
    let ybin := Double.toUnsigned ((y - h.y.low) / h.y.binWidth)
    let index := xbin + ybin * h.x.bins
    if index < h.data.length then
      some
        { h with
          data := h.data.modify index fun d => Element.ofDouble (Element.toDouble d + v)
          max := if h.max < v then v else h.max
          min := if v < h.min then v else h.min
          m_isFilled := h.m_isFilled.set index true
          entries := h.entries + 1 }
    else none

/-- Bins without the flag are not added. -/
def add (other : Histo2d D S) : Histo2d D S :=
  if h.size ≠ other.size then h
  else
    { h with
      data := h.data.mapIdx fun i d =>
        if other.isFilled i = some true then
          Element.ofDouble (Element.toDouble d + other.getBin i)
        else d
      max := (List.range h.size).foldl
        (fun max i => if other.isFilled i = some true then stdMax (other.getBin i) max else max)
        h.max
      m_isFilled := h.m_isFilled.mapIdx fun i b =>
        if other.isFilled i = some true then true else b
      entries := h.entries + other.entries }

def divide (other : Histo2d D S) : Histo2d D S :=
  if h.size ≠ other.size then h
  else
    { h with
      data := h.data.mapIdx fun i d =>
        if Double.eqZero (other.getBin i) then (Zero.zero : S)
        else Element.ofDouble (Element.toDouble d / other.getBin i)
      entries := h.entries + other.entries }

def multiply (other : Histo2d D S) : Histo2d D S :=
  if h.size ≠ other.size then h
  else
    { h with
      data := h.data.mapIdx fun i d => Element.ofDouble (Element.toDouble d * other.getBin i)
      entries := h.entries + other.entries }

def scale (s : D) : Histo2d D S :=
  { h with data := h.data.map fun d => Element.ofDouble (Element.toDouble d * s) }

def setBin (n : Nat) (v : D) : Histo2d D S :=
  if n < h.size then
    { h with
      data := h.data.set n (Element.ofDouble v)
      m_isFilled := h.m_isFilled.set n true }
  else h

def filled : Option (List D) :=
  filledBins (h.data.map (Element.toDouble : S → D)) h.m_isFilled

def getMean : Option D := h.filled.map meanOf

def getStdDev : Option D := h.filled.map (stdDevOf fun d => Double.pow d 2)

/-! ## Documents -/

/-- One line for each bin of the first axis. -/
def dataLines : List (Doc D) :=
  (List.range h.x.bins).map fun x => .arr ((List.range h.y.bins).map fun y =>
    .double (Element.toDouble (h.data.getD (x + y * h.x.bins) (Zero.zero : S))))

def toJson : Doc D :=
  .obj ([("Type", .str "Histo2d"), ("Name", .str h.name),
    ("x", axisDoc h.xAxisTitle h.x), ("y", axisDoc h.yAxisTitle h.y),
    ("z", .obj [("AxisTitle", .str h.zAxisTitle)]),
    ("Underflow", .double h.underflow), ("Overflow", .double h.overflow),
    ("Entries", .unsigned h.entries.toNat)] ++
    statusMembers h.lStat ++ if h.x.bins = 0 then [] else [("Data", .arr h.dataLines)])

/-- The bins in the order of their numbers, each from its place in the lines. -/
def readData (j : Doc D) (xbins ybins : Nat) : Option (List D) :=
  (List.range (xbins * ybins)).mapM fun i => do
    let line ← (← j.find "Data").elem (i % xbins)
    let elem ← line.elem (i / xbins)
    elem.toDouble

/-- The member function, for a document of the right type. The flag is set for positive bins. -/
def fromJson (j : Doc D) : Option (Histo2d D S) := do
  let name ← (← j.find "Name").toString
  let (xAxisTitle, x) ← readAxis h.x (← j.find "x")
  let (yAxisTitle, y) ← readAxis h.y (← j.find "y")
  let zAxisTitle ← (← (← j.find "z").find "AxisTitle").toString
  let underflow ← (← j.find "Underflow").toDouble
  let overflow ← (← j.find "Overflow").toDouble
  let entries ← (← j.find "Entries").toNat
  let bins ← readData j x.bins y.bins
  return { h with
    name := name
    xAxisTitle := xAxisTitle
    yAxisTitle := yAxisTitle
    zAxisTitle := zAxisTitle
    x := x
    y := y
    underflow := underflow
    overflow := overflow
    entries := UInt32.ofNat entries
    data := bins.map Element.ofDouble
    m_isFilled := bins.map fun d => decide (0 < d)
    max := bins.foldl (fun max d => if 0 < d then stdMax d max else max) h.max }

/-! ## What a histogram shows -/

def observe : Observed D D where
  name := h.name
  titles := [h.xAxisTitle, h.yAxisTitle, h.zAxisTitle]
  axes := [h.x, h.y]
  contents := (List.range h.size).map h.getBin
  filled := flagsRead h.size h.m_isFilled
  underflow := h.underflow
  overflow := h.overflow
  entries := h.entries
  position := h.position
  mean := h.getMean
  stdDev := h.getStdDev

inductive Reachable : Histo2d D S → Prop where
  | new (name : String) (xbins : Nat) (xlow xhigh : D) (ybins : Nat) (ylow yhigh : D)
      (stat : LoopStatus) : Reachable (.new name xbins xlow xhigh ybins ylow yhigh stat)
  | titles (h : Histo2d D S) (x y z : String) : Reachable h →
      Reachable { h with xAxisTitle := x, yAxisTitle := y, zAxisTitle := z }
  | fill (h h' : Histo2d D S) (x y v : D) : Reachable h → h.fill x y v = some h' → Reachable h'
  | setBin (h : Histo2d D S) (n : Nat) (v : D) : Reachable h → Reachable (h.setBin n v)
  | scale (h : Histo2d D S) (s : D) : Reachable h → Reachable (h.scale s)
  | add (h other : Histo2d D S) : Reachable h → Reachable other → Reachable (h.add other)
  | multiply (h other : Histo2d D S) : Reachable h → Reachable other →
      Reachable (h.multiply other)
  | divide (h other : Histo2d D S) : Reachable h → Reachable other → Reachable (h.divide other)

/-- What may be done with both histograms. -/
inductive Op (D S : Type) where
  | fill (x y v : D)
  | add (other : Histo2d D S)

def perform (h : Histo2d D S) : Op D S → Option (Histo2d D S)
  | .fill x y v => h.fill x y v
  | .add other => some (h.add other)

/-- Only histograms that there can be are added. -/
def Allowed : Op D S → Prop
  | .fill _ _ _ => True
  | .add other => Reachable other

/-- Nothing tells the two apart. -/
def Equal (h h' : Histo2d D S) : Prop := Alike perform observe Allowed h h'

/-! ## Invariants -/

/-- A bin and a flag for each index, and widths that fit to the bounds. -/
structure Wellformed (h : Histo2d D S) : Prop where
  length_data : h.data.length = h.size
  length_filled : h.m_isFilled.length = h.size
  xAxis : h.x = .of h.x.bins h.x.low h.x.high
  yAxis : h.y = .of h.y.bins h.y.low h.y.high

/-- The shape of a histogram stays as it is. -/
structure SameShape (h h' : Histo2d D S) : Prop where
  x : h'.x = h.x
  y : h'.y = h.y
  data : h'.data.length = h.data.length
  filled : h'.m_isFilled.length = h.m_isFilled.length

theorem SameShape.wellformed {h h' : Histo2d D S} (hsame : SameShape h h') (hwf : h.Wellformed) :
    h'.Wellformed := by
  have hsize : h'.size = h.size := by rw [size, size, hsame.x, hsame.y]
  constructor
  · rw [hsame.data, hwf.length_data, hsize]
  · rw [hsame.filled, hwf.length_filled, hsize]
  · rw [hsame.x]
    exact hwf.xAxis
  · rw [hsame.y]
    exact hwf.yAxis

theorem sameShape_fill {h h' : Histo2d D S} {x y v : D} (hfill : h.fill x y v = some h') :
    SameShape h h' := by
  unfold fill at hfill
  split at hfill
  · cases hfill
    exact ⟨rfl, rfl, rfl, rfl⟩
  · split at hfill
    · cases hfill
      exact ⟨rfl, rfl, rfl, rfl⟩
    · dsimp only at hfill
      split at hfill
      · cases hfill
        exact ⟨rfl, rfl, List.length_modify _ _ _, List.length_set⟩
      · cases hfill

theorem sameShape_setBin (h : Histo2d D S) (n : Nat) (v : D) : SameShape h (h.setBin n v) := by
  unfold setBin
  split
  · exact ⟨rfl, rfl, List.length_set, List.length_set⟩
  · exact ⟨rfl, rfl, rfl, rfl⟩

theorem sameShape_add (h other : Histo2d D S) : SameShape h (h.add other) := by
  unfold add
  split
  · exact ⟨rfl, rfl, rfl, rfl⟩
  · exact ⟨rfl, rfl, List.length_mapIdx, List.length_mapIdx⟩

theorem sameShape_multiply (h other : Histo2d D S) : SameShape h (h.multiply other) := by
  unfold multiply
  split
  · exact ⟨rfl, rfl, rfl, rfl⟩
  · exact ⟨rfl, rfl, List.length_mapIdx, rfl⟩

theorem sameShape_divide (h other : Histo2d D S) : SameShape h (h.divide other) := by
  unfold divide
  split
  · exact ⟨rfl, rfl, rfl, rfl⟩
  · exact ⟨rfl, rfl, List.length_mapIdx, rfl⟩

theorem Reachable.wellformed {h : Histo2d D S} (hreach : Reachable h) : h.Wellformed := by
  induction hreach with
  | new name xbins xlow xhigh ybins ylow yhigh stat =>
      exact ⟨List.length_replicate, List.length_replicate, rfl, rfl⟩
  | titles h x y z _ ih => exact ⟨ih.length_data, ih.length_filled, ih.xAxis, ih.yAxis⟩
  | fill h h' x y v _ hfill ih => exact (sameShape_fill hfill).wellformed ih
  | setBin h n v _ ih => exact (sameShape_setBin h n v).wellformed ih
  | scale h s _ ih =>
      exact ⟨(List.length_map _).trans ih.length_data, ih.length_filled, ih.xAxis, ih.yAxis⟩
  | add h other _ _ ih => exact (sameShape_add h other).wellformed ih
  | multiply h other _ _ ih => exact (sameShape_multiply h other).wellformed ih
  | divide h other _ _ ih => exact (sameShape_divide h other).wellformed ih

/-! ## The way through a document -/

theorem find_toJson (h : Histo2d D S) :
    h.toJson.find "Type" = some (.str "Histo2d") ∧ h.toJson.find "Name" = some (.str h.name) ∧
    h.toJson.find "x" = some (axisDoc h.xAxisTitle h.x) ∧
    h.toJson.find "y" = some (axisDoc h.yAxisTitle h.y) ∧
    h.toJson.find "z" = some (.obj [("AxisTitle", .str h.zAxisTitle)]) ∧
    h.toJson.find "Underflow" = some (.double h.underflow) ∧
    h.toJson.find "Overflow" = some (.double h.overflow) ∧
    h.toJson.find "Entries" = some (.unsigned h.entries.toNat) ∧
    (h.x.bins ≠ 0 → h.toJson.find "Data" = some (.arr h.dataLines)) := by
  unfold toJson statusMembers
  split
  · simp +contextual [NameMap.find]
  · simp +contextual [NameMap.find]

theorem find_loopStatus (h : Histo2d D S) (hsize : h.lStat.size ≠ 0) :
    h.toJson.find "loopStatus" =
      some (.arr (h.lStat.statVec.map fun position => .unsigned position.toNat)) := by
  simp [toJson, statusMembers, hsize, NameMap.find]

theorem readData_toJson {h : Histo2d D S} (hwf : h.Wellformed) :
    readData h.toJson h.x.bins h.y.bins = some (h.data.map (Element.toDouble : S → D)) := by
  obtain ⟨_, _, _, _, _, _, _, _, hdata⟩ := h.find_toJson
  have hsize : h.x.bins * h.y.bins = (h.data.map (Element.toDouble : S → D)).length := by
    rw [List.length_map, hwf.length_data]
    rfl
  apply mapM_range _ hsize
  intro i hi
  have hlt : i < h.x.bins * h.y.bins := hsize ▸ hi
  have hbins : h.x.bins ≠ 0 := by
    intro hzero
    rw [hzero, Nat.zero_mul] at hlt
    exact Nat.not_lt_zero i hlt
  have hx : i % h.x.bins < h.x.bins := Nat.mod_lt i (Nat.pos_of_ne_zero hbins)
  have hy : i / h.x.bins < h.y.bins := Nat.div_lt_of_lt_mul hlt
  have hindex : i % h.x.bins + i / h.x.bins * h.x.bins = i := by
    rw [Nat.mul_comm]
    exact Nat.mod_add_div i h.x.bins
  have hi' : i < h.data.length := by simpa using hi
  simp [hdata hbins, dataLines, hx, hy, hindex, List.getElem?_eq_getElem hi']

/-- The largest positive bin, or zero. -/
def maxRead (data : List S) : D :=
  (data.map (Element.toDouble : S → D)).foldl
    (fun max d => if 0 < d then stdMax d max else max) 0

/-- The flags that a document brings back. -/
def positive (data : List S) : List Bool :=
  data.map fun d => decide (0 < (Element.toDouble d : D))

theorem fromJson_toJson {h : Histo2d D S} (hwf : h.Wellformed) (stat : LoopStatus) :
    (new h.name h.x.bins h.x.low h.x.high h.y.bins h.y.low h.y.high stat : Histo2d D S).fromJson
        h.toJson =
      some { h with
        lStat := stat
        max := maxRead h.data
        min := 0
        m_isFilled := positive (D := D) h.data } := by
  obtain ⟨_, hname, hx, hy, hz, hunderflow, hoverflow, hentries, _⟩ := h.find_toJson
  have hxAxis := readAxis_axisDoc h.xAxisTitle hwf.xAxis
  have hyAxis := readAxis_axisDoc h.yAxisTitle hwf.yAxis
  have hdata : (h.data.map (Element.toDouble : S → D)).map Element.ofDouble = h.data := by
    rw [List.map_map]
    exact (List.map_congr_left fun d _ => Element.ofDouble_toDouble d).trans (List.map_id h.data)
  have hfilled : (h.data.map (Element.toDouble : S → D)).map (fun d => decide (0 < d)) =
      positive (D := D) h.data := List.map_map
  simp [fromJson, hname, hx, hy, hz, hunderflow, hoverflow, hentries, readData_toJson hwf,
    NameMap.find, new, hxAxis, hyAxis, maxRead, -List.map_map, hdata, hfilled]

/-! ## What does not show -/

/-- Equal but for the extreme entries and the parts of the status that do not show. -/
def SameShown (h h' : Histo2d D S) : Prop :=
  ∃ stat max min, h.position = (stat.statVec, stat.styleVec) ∧
    h' = { h with lStat := stat, max := max, min := min }

theorem SameShown.fill {h h' : Histo2d D S} (hsame : SameShown h h') (x y v : D) :
    Option.Rel SameShown (h.fill x y v) (h'.fill x y v) := by
  obtain ⟨stat, max, min, hposition, rfl⟩ := hsame
  unfold Histo2d.fill
  by_cases hlow : x < h.x.low ∨ y < h.y.low
  · simp only [if_pos hlow]
    exact .some ⟨_, _, _, hposition, rfl⟩
  · by_cases hhigh : h.x.high < x ∨ h.y.high < y
    · simp only [if_neg hlow, if_pos hhigh]
      exact .some ⟨_, _, _, hposition, rfl⟩
    · by_cases hindex : Double.toUnsigned ((x - h.x.low) / h.x.binWidth) +
          Double.toUnsigned ((y - h.y.low) / h.y.binWidth) * h.x.bins < h.data.length
      · simp only [if_neg hlow, if_neg hhigh, if_pos hindex]
        exact .some ⟨_, _, _, hposition, rfl⟩
      · simp only [if_neg hlow, if_neg hhigh, if_neg hindex]
        exact .none

theorem SameShown.add {h h' : Histo2d D S} (hsame : SameShown h h') (other : Histo2d D S) :
    SameShown (h.add other) (h'.add other) := by
  obtain ⟨stat, max, min, hposition, rfl⟩ := hsame
  by_cases hsize : h.size ≠ other.size
  · have hleft : h.add other = h := if_pos hsize
    rw [hleft]
    exact ⟨stat, max, min, hposition, if_pos hsize⟩
  · have hleft : h.add other = _ := if_neg hsize
    rw [hleft]
    exact ⟨stat, _, min, hposition, if_neg hsize⟩

theorem SameShown.observe {h h' : Histo2d D S} (hsame : SameShown h h') :
    h.observe = h'.observe := by
  obtain ⟨stat, max, min, hposition, rfl⟩ := hsame
  unfold Histo2d.observe
  rw [hposition]
  rfl

theorem equal_of_sameShown {h h' : Histo2d D S} (hsame : SameShown h h') : Equal h h' := by
  apply alike_of_relation SameShown (fun _ _ => SameShown.observe) ?_ hsame
  intro s t op hst
  cases op with
  | fill x y v => exact hst.fill x y v
  | add other => exact .some (hst.add other)

theorem equal_iff_filled {h : Histo2d D S} (hwf : h.Wellformed) {stat : LoopStatus} {max min : D}
    {flags : List Bool} (hposition : h.position = (stat.statVec, stat.styleVec))
    (hflags : flags.length = h.size) :
    Equal h { h with lStat := stat, max := max, min := min, m_isFilled := flags } ↔
      h.m_isFilled = flags := by
  constructor
  · intro hequal
    exact flagsRead_injective hwf.length_filled hflags (congrArg Observed.filled hequal.now)
  · intro heq
    apply equal_of_sameShown
    refine ⟨stat, max, min, hposition, ?_⟩
    rw [heq]

theorem filled_eq_positive_iff {h : Histo2d D S} (hwf : h.Wellformed) :
    h.m_isFilled = positive (D := D) h.data ↔
      ∀ n < h.size, h.isFilled n = some true ↔ 0 < h.getBin n := by
  rw [positive, flags_eq_map_iff _ (Zero.zero : S) (hwf.length_filled.trans hwf.length_data.symm),
    hwf.length_data]
  apply forall₂_congr
  intro n hn
  have hle : n ≤ h.m_isFilled.length := by
    rw [hwf.length_filled]
    exact Nat.le_of_lt hn
  rw [isFilled, if_pos hle, getBin, if_pos hn, decide_eq_true_eq]

/-! ## The copy -/

theorem data_copy {h : Histo2d D S} (hwf : h.Wellformed) : h.copy.data = h.data := by
  apply List.ext_getElem?
  intro n
  by_cases hn : n < h.size
  · have hlt : n < h.data.length := by
      rw [hwf.length_data]
      exact hn
    simp [copy, getBin, hn, List.getElem?_eq_getElem hlt, List.getD_eq_getElem?_getD]
  · have hlength : h.copy.data.length = h.size := by simp [copy]
    have hle := Nat.le_of_not_lt hn
    rw [List.getElem?_eq_none (hlength ▸ hle), List.getElem?_eq_none (hwf.length_data ▸ hle)]

theorem copy_eq {h : Histo2d D S} (hwf : h.Wellformed) :
    h.copy = { h with xAxisTitle := "x", yAxisTitle := "y", zAxisTitle := "z" } := by
  have hdata := data_copy hwf
  unfold copy at hdata ⊢
  simp only at hdata
  rw [hdata]

theorem equal_copy_iff {h : Histo2d D S} (hwf : h.Wellformed) :
    Equal h h.copy ↔ h.DefaultTitles := by
  rw [copy_eq hwf]
  constructor
  · intro hequal
    have htitles := congrArg Observed.titles hequal.now
    simpa [observe, HistogramBase.DefaultTitles] using htitles
  · intro ⟨hx, hy, hz⟩
    apply equal_of_sameShown
    refine ⟨h.lStat, h.max, h.min, rfl, ?_⟩
    rw [← hx, ← hy, ← hz]

end Histo2d

end Yarr.Histo
