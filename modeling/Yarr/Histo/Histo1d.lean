import Yarr.Histo.HistogramBase

/-!
# One-dimensional histograms

The sum of all entries is kept beside the bins.
-/

namespace Yarr.Histo

open Scan Observation

variable {D : Type} [Double D]

structure Histo1d (D : Type) extends HistogramBase where
  data : List D
  underflow : D
  overflow : D
  x : Axis D
  max : D
  min : D
  entries : UInt32
  sum : D

namespace Histo1d

def new (arg_name : String) (arg_bins : Nat) (arg_xlow arg_xhigh : D) (stat : LoopStatus) :
    Histo1d D where
  name := arg_name
  lStat := stat
  data := List.replicate arg_bins 0
  underflow := 0
  overflow := 0
  x := .of arg_bins arg_xlow arg_xhigh
  max := 0
  min := 0
  entries := 0
  sum := 0

variable (h : Histo1d D)

/-- A bin behind the last one is not there to be written. -/
def fill (x v : D) : Option (Histo1d D) :=
  if x < h.x.low then some { h with underflow := h.underflow + v }
  else if h.x.high ≤ x then some { h with overflow := h.overflow + v }
  else
    let bin := Double.toUnsigned ((x - h.x.low) / h.x.binWidth)
    if bin < h.data.length then
      some
        { h with
          data := h.data.modify bin (· + v)
          max := if h.max < v then v else h.max
          min := if v < h.min then v else h.min
          entries := h.entries + 1
          sum := h.sum + v }
    else none

def getBin (n : Nat) : D := if n < h.x.bins then h.data.getD n 0 else 0

def setBin (n : Nat) (v : D) : Histo1d D :=
  let h := if n < h.x.bins then
      { h with
        data := h.data.set n v
        max := if h.max < v then v else h.max
        min := if v < h.min then v else h.min }
    else h
  { h with
    entries := h.entries + 1
    sum := h.sum + v }

def scale (s : D) : Histo1d D :=
  { h with
    data := h.data.map (· * s)
    overflow := h.overflow * s
    underflow := h.underflow * s
    sum := h.sum * s }

def add (other : Histo1d D) : Histo1d D :=
  if other.x.bins ≠ h.x.bins then h
  else
    { h with
      data := h.data.mapIdx fun i d => d + other.getBin i
      sum := (List.range h.x.bins).foldl (fun sum i => sum + other.getBin i) h.sum
      entries := h.entries + other.entries
      overflow := h.overflow + other.overflow
      underflow := h.underflow + other.underflow }

/-- The middle of a bin. -/
def center (i : Nat) : D :=
  (i : D) * h.x.binWidth + h.x.low + h.x.binWidth / ((2 : Nat) : D)

def weighted_sum : D :=
  (List.range h.x.bins).foldl (fun s i => s + h.data.getD i 0 * h.center i) 0

def total : D := (List.range h.x.bins).foldl (fun n i => n + h.data.getD i 0) 0

def getMean : D :=
  if Double.eqZero h.sum || h.entries == 0 then 0
  else if Double.eqZero h.total then 0
  else h.weighted_sum / h.total

def getStdDev : D :=
  if Double.eqZero h.sum || h.entries == 0 then 0
  else
    let mean := h.getMean
    let mu := (List.range h.x.bins).foldl
      (fun mu i => mu + h.data.getD i 0 * Double.pow (h.center i - mean) 2) 0
    Double.sqrt (mu / h.sum)

/-! ## Documents -/

def toJson : Doc D :=
  .obj ([("Type", .str "Histo1d"), ("Name", .str h.name),
    ("x", axisDoc h.xAxisTitle h.x), ("y", .obj [("AxisTitle", .str h.yAxisTitle)]),
    ("z", .obj [("AxisTitle", .str h.zAxisTitle)]),
    ("Underflow", .double h.underflow), ("Overflow", .double h.overflow),
    ("Entries", .unsigned h.entries.toNat)] ++
    statusMembers h.lStat ++ [("Data", .arr (h.data.map .double))])

/-- The sum of the bins, in their order. -/
def sumOf (data : List D) : D := data.foldl (· + ·) 0

def readData (j : Doc D) (bins : Nat) : Option (List D) :=
  (List.range bins).mapM fun i => do
    let elem ← (← j.find "Data").elem i
    elem.toDouble

/-- The member function, for a document of the right type. -/
def fromJson (j : Doc D) : Option (Histo1d D) := do
  let name ← (← j.find "Name").toString
  let (xAxisTitle, x) ← readAxis h.x (← j.find "x")
  let yAxisTitle ← (← (← j.find "y").find "AxisTitle").toString
  let zAxisTitle ← (← (← j.find "z").find "AxisTitle").toString
  let underflow ← (← j.find "Underflow").toDouble
  let overflow ← (← j.find "Overflow").toDouble
  let entries ← (← j.find "Entries").toNat
  let data ← readData j x.bins
  return { h with
    name := name
    xAxisTitle := xAxisTitle
    yAxisTitle := yAxisTitle
    zAxisTitle := zAxisTitle
    x := x
    underflow := underflow
    overflow := overflow
    entries := UInt32.ofNat entries
    sum := sumOf data
    data := data }

/-! ## What a histogram shows -/

def observe : Observed D D where
  name := h.name
  titles := [h.xAxisTitle, h.yAxisTitle, h.zAxisTitle]
  axes := [h.x]
  contents := (List.range h.x.bins).map h.getBin
  filled := []
  underflow := h.underflow
  overflow := h.overflow
  entries := h.entries
  position := h.position
  mean := some h.getMean
  stdDev := some h.getStdDev

inductive Reachable : Histo1d D → Prop where
  | new (name : String) (bins : Nat) (low high : D) (stat : LoopStatus) :
      Reachable (.new name bins low high stat)
  | titles (h : Histo1d D) (x y z : String) : Reachable h →
      Reachable { h with xAxisTitle := x, yAxisTitle := y, zAxisTitle := z }
  | fill (h h' : Histo1d D) (x v : D) : Reachable h → h.fill x v = some h' → Reachable h'
  | setBin (h : Histo1d D) (n : Nat) (v : D) : Reachable h → Reachable (h.setBin n v)
  | scale (h : Histo1d D) (s : D) : Reachable h → Reachable (h.scale s)
  | add (h other : Histo1d D) : Reachable h → Reachable other → Reachable (h.add other)

/-- What may be done with both histograms. -/
inductive Op (D : Type) where
  | fill (x v : D)
  | add (other : Histo1d D)

def perform (h : Histo1d D) : Op D → Option (Histo1d D)
  | .fill x v => h.fill x v
  | .add other => some (h.add other)

/-- Only histograms that there can be are added. -/
def Allowed : Op D → Prop
  | .fill _ _ => True
  | .add other => Reachable other

/-- Nothing tells the two apart. -/
def Equal (h h' : Histo1d D) : Prop := Alike perform observe Allowed h h'

/-! ## Invariants -/

theorem fill_inside {D : Type} [Double D] {h : Histo1d D} {x : D} (v : D) {bin : Nat}
    (hlow : ¬x < h.x.low) (hhigh : ¬h.x.high ≤ x)
    (hplace : Double.toUnsigned ((x - h.x.low) / h.x.binWidth) = bin)
    (hbin : bin < h.data.length) : h.fill x v =
      some
        { h with
          data := h.data.modify bin (· + v)
          max := if h.max < v then v else h.max
          min := if v < h.min then v else h.min
          entries := h.entries + 1
          sum := h.sum + v } := by
  unfold fill
  rw [if_neg hlow, if_neg hhigh, hplace]
  exact if_pos hbin

/-- There is a bin for each index, and the width fits to the bounds. -/
structure Wellformed (h : Histo1d D) : Prop where
  length_data : h.data.length = h.x.bins
  axis : h.x = .of h.x.bins h.x.low h.x.high

theorem axis_fill {h h' : Histo1d D} {x v : D} (hfill : h.fill x v = some h') :
    h'.x = h.x ∧ h'.data.length = h.data.length ∧ h'.lStat = h.lStat := by
  unfold fill at hfill
  split at hfill
  · cases hfill
    exact ⟨rfl, rfl, rfl⟩
  · split at hfill
    · cases hfill
      exact ⟨rfl, rfl, rfl⟩
    · dsimp only at hfill
      split at hfill
      · cases hfill
        exact ⟨rfl, List.length_modify _ _ _, rfl⟩
      · cases hfill

theorem axis_setBin (h : Histo1d D) (n : Nat) (v : D) :
    (h.setBin n v).x = h.x ∧ (h.setBin n v).data.length = h.data.length := by
  unfold setBin
  split
  · exact ⟨rfl, List.length_set⟩
  · exact ⟨rfl, rfl⟩

theorem axis_add (h other : Histo1d D) :
    (h.add other).x = h.x ∧ (h.add other).data.length = h.data.length := by
  unfold add
  split
  · exact ⟨rfl, rfl⟩
  · exact ⟨rfl, List.length_mapIdx⟩

theorem Reachable.wellformed {h : Histo1d D} (hreach : Reachable h) : h.Wellformed := by
  induction hreach with
  | new name bins low high stat => exact ⟨List.length_replicate, rfl⟩
  | titles h x y z _ ih => exact ⟨ih.length_data, ih.axis⟩
  | fill h h' x v _ hfill ih =>
      obtain ⟨haxis, hlength, _⟩ := axis_fill hfill
      constructor
      · rw [hlength, haxis, ih.length_data]
      · rw [haxis]
        exact ih.axis
  | setBin h n v _ ih =>
      obtain ⟨haxis, hlength⟩ := h.axis_setBin n v
      constructor
      · rw [hlength, haxis, ih.length_data]
      · rw [haxis]
        exact ih.axis
  | scale h s _ ih =>
      constructor
      · exact (List.length_map _).trans ih.length_data
      · exact ih.axis
  | add h other _ _ ih =>
      obtain ⟨haxis, hlength⟩ := h.axis_add other
      constructor
      · rw [hlength, haxis, ih.length_data]
      · rw [haxis]
        exact ih.axis

/-! ## The way through a document -/

theorem find_toJson (h : Histo1d D) :
    h.toJson.find "Type" = some (.str "Histo1d") ∧ h.toJson.find "Name" = some (.str h.name) ∧
    h.toJson.find "x" = some (axisDoc h.xAxisTitle h.x) ∧
    h.toJson.find "y" = some (.obj [("AxisTitle", .str h.yAxisTitle)]) ∧
    h.toJson.find "z" = some (.obj [("AxisTitle", .str h.zAxisTitle)]) ∧
    h.toJson.find "Underflow" = some (.double h.underflow) ∧
    h.toJson.find "Overflow" = some (.double h.overflow) ∧
    h.toJson.find "Entries" = some (.unsigned h.entries.toNat) ∧
    h.toJson.find "Data" = some (.arr (h.data.map .double)) := by
  unfold toJson statusMembers
  split
  · simp [NameMap.find]
  · simp [NameMap.find]

theorem find_loopStatus (h : Histo1d D) (hsize : h.lStat.size ≠ 0) : h.toJson.find "loopStatus" =
    some (.arr (h.lStat.statVec.map fun position => .unsigned position.toNat)) := by
  simp [toJson, statusMembers, hsize, NameMap.find]

theorem readData_toJson {h : Histo1d D} (hwf : h.Wellformed) :
    readData h.toJson h.x.bins = some h.data := by
  obtain ⟨_, _, _, _, _, _, _, _, hdata⟩ := h.find_toJson
  apply mapM_range h.data hwf.length_data.symm
  intro i hi
  simp [hdata, List.getElem?_eq_getElem hi]

theorem fromJson_toJson {h : Histo1d D} (hwf : h.Wellformed) (stat : LoopStatus) :
    (new h.name h.x.bins h.x.low h.x.high stat).fromJson h.toJson =
      some { h with lStat := stat, max := 0, min := 0, sum := sumOf h.data } := by
  obtain ⟨_, hname, hx, hy, hz, hunderflow, hoverflow, hentries, _⟩ := h.find_toJson
  have haxis := readAxis_axisDoc h.xAxisTitle hwf.axis
  simp [fromJson, hname, hx, hy, hz, hunderflow, hoverflow, hentries, readData_toJson hwf,
    NameMap.find, new, haxis]

/-! ## What does not show -/

/-- Equal but for the sum, the extreme entries and the parts of the status that do not show. -/
def SameBut (sum : D) (h h' : Histo1d D) : Prop :=
  ∃ stat max min, h.position = (stat.statVec, stat.styleVec) ∧
    h' = { h with lStat := stat, max := max, min := min, sum := sum }

/-- Equal but for the extreme entries and the parts of the status that do not show. -/
def SameShown (h h' : Histo1d D) : Prop := SameBut h.sum h h'

theorem SameBut.fill {sum : D} {h h' : Histo1d D} (hsame : SameBut sum h h') (x v : D) :
    (h.fill x v = none ∧ h'.fill x v = none) ∨
      ∃ t t', h.fill x v = some t ∧ h'.fill x v = some t' ∧
        ((t.sum = h.sum ∧ SameBut sum t t') ∨ (t.sum = h.sum + v ∧ SameBut (sum + v) t t')) := by
  obtain ⟨stat, max, min, hposition, rfl⟩ := hsame
  unfold Histo1d.fill
  by_cases hlow : x < h.x.low
  · right
    simp only [if_pos hlow]
    exact ⟨_, _, rfl, rfl, Or.inl ⟨rfl, _, _, _, hposition, rfl⟩⟩
  · by_cases hhigh : h.x.high ≤ x
    · right
      simp only [if_neg hlow, if_pos hhigh]
      exact ⟨_, _, rfl, rfl, Or.inl ⟨rfl, _, _, _, hposition, rfl⟩⟩
    · by_cases hbin : Double.toUnsigned ((x - h.x.low) / h.x.binWidth) < h.data.length
      · right
        simp only [if_neg hlow, if_neg hhigh, if_pos hbin]
        exact ⟨_, _, rfl, rfl, Or.inr ⟨rfl, _, _, _, hposition, rfl⟩⟩
      · left
        simp only [if_neg hlow, if_neg hhigh, if_neg hbin, and_self]

/-- What `add` makes of the sum. -/
def addedSum (h other : Histo1d D) (sum : D) : D :=
  if other.x.bins ≠ h.x.bins then sum
  else (List.range h.x.bins).foldl (fun sum i => sum + other.getBin i) sum

theorem sum_add (h other : Histo1d D) : (h.add other).sum = h.addedSum other h.sum := by
  unfold add addedSum
  split
  · rfl
  · rfl

theorem SameBut.add {sum : D} {h h' : Histo1d D} (hsame : SameBut sum h h') (other : Histo1d D) :
    SameBut (h.addedSum other sum) (h.add other) (h'.add other) := by
  obtain ⟨stat, max, min, hposition, rfl⟩ := hsame
  unfold Histo1d.add addedSum
  by_cases hbins : other.x.bins ≠ h.x.bins
  · simp only [if_pos hbins]
    exact ⟨_, _, _, hposition, rfl⟩
  · simp only [if_neg hbins]
    exact ⟨_, _, _, hposition, rfl⟩

theorem SameShown.observe {h h' : Histo1d D} (hsame : SameShown h h') : h.observe = h'.observe := by
  obtain ⟨stat, max, min, hposition, rfl⟩ := hsame
  unfold Histo1d.observe
  rw [hposition]
  rfl

theorem equal_of_sameShown {h h' : Histo1d D} (hsame : SameShown h h') : Equal h h' := by
  apply alike_of_relation SameShown (fun _ _ => SameShown.observe) ?_ hsame
  intro s t op hst
  cases op with
  | fill x v =>
      rcases hst.fill x v with ⟨hs, ht⟩ | ⟨s', t', hs, ht, ⟨hsum, hnext⟩ | ⟨hsum, hnext⟩⟩
      · rw [perform, perform, hs, ht]
        exact .none
      · rw [perform, perform, hs, ht]
        rw [← hsum] at hnext
        exact .some hnext
      · rw [perform, perform, hs, ht]
        rw [← hsum] at hnext
        exact .some hnext
  | add other =>
      have hnext := hst.add other
      rw [← sum_add] at hnext
      exact .some hnext

end Histo1d

end Yarr.Histo
