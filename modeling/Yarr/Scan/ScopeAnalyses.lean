import Mathlib.Data.Finset.Insert
import Yarr.Core.Join
import Yarr.Scan.ScurveFitter

/-!
# Precision time of arrival

Two analyses add up maps of three kinds over the inner loops, filed under one
integer for the position of the outer loops. When all maps of a position are
there, the sums are divided by the occupancy.
-/

namespace Yarr.Scan

namespace Histo2d

/-- Bins in which the other histogram holds zero become zero. -/
def divide (h other : Histo2d) : Histo2d :=
  if h.size = other.size then
    { h with
      data := h.data.mapIdx fun i d => if other.getBin i = 0 then 0 else d / other.getBin i
      entries := h.entries + other.entries
      length_data := by rw [List.length_mapIdx, h.length_data]
      unfilled := by
        intro n hn
        have hzero := h.unfilled n hn
        rw [List.getD_eq_getElem?_getD] at hzero
        rw [List.getD_eq_getElem?_getD, List.getElem?_mapIdx]
        cases hget : h.data[n]? with
        | none => rfl
        | some d =>
            rw [hget] at hzero
            have hd : d = 0 := hzero
            simp [hd] }
  else h

variable (h : Histo2d)

theorem size_divide (other : Histo2d) : (h.divide other).size = h.size := by
  unfold divide
  split <;> rfl

theorem getBin_divide {other : Histo2d} (hsize : h.size = other.size) (n : Nat) :
    (h.divide other).getBin n = h.getBin n / other.getBin n := by
  rw [divide, if_pos hsize, getBin_eq, getBin_eq h, List.getD_eq_getElem?_getD,
    List.getD_eq_getElem?_getD, List.getElem?_mapIdx]
  cases h.data[n]? with
  | none => simp
  | some d =>
      by_cases hzero : other.getBin n = 0
      · simp [hzero]
      · simp [hzero]

end Histo2d

/-! ## `init` -/

/-- The number of triggers is there if the action is a `StdTriggerAction`. -/
structure ScopeLoopInfo extends LoopActionInfo where
  trigCnt : Option UInt32 := none

namespace LoopActionInfo

def isTriggerLoop (l : LoopActionInfo) : Bool :=
  match l.style with
  | .trigger | .triggerFeedback => true
  | _ => false

/-- The number of steps that an inner loop is taken to have. -/
def expected (l : LoopActionInfo) : UInt32 :=
  let cnt := (l.getMax - l.getMin) / l.getStep
  if cnt = 0 then 1 else cnt

end LoopActionInfo

/-- What `init` takes from the scan, and the size of the matrix. -/
structure GroupedScan where
  nCol : Nat
  nRow : Nat
  m_loops : List Nat := []
  m_loopMax : List UInt32 := []
  m_n_count : UInt32 := 1
  m_injections : UInt32 := 0

namespace GroupedScan

/-- The part of the loop of `init` that both analyses have. -/
def initLoop (a : GroupedScan) (n : Nat) (l : ScopeLoopInfo) : GroupedScan :=
  let a : GroupedScan :=
    if l.isInner then { a with m_n_count := a.m_n_count * l.expected }
    else { a with m_loops := a.m_loops ++ [n], m_loopMax := a.m_loopMax ++ [l.getMax] }
  if l.isTriggerLoop then { a with m_injections := l.trigCnt.getD a.m_injections } else a

def initLoops (a : GroupedScan) (n : Nat) : List ScopeLoopInfo → GroupedScan
  | [] => a
  | l :: ls => initLoops (a.initLoop n l) (n + 1) ls

/-- Values and offsets are added up. -/
def identLoop (stat : LoopStatus) : List (Nat × UInt32) → UInt32 → UInt32 → UInt32
  | [], ident, _ => ident
  | (loop, max) :: rest, ident, offset =>
      identLoop stat rest (ident + (stat.get loop + offset)) (offset + max)

def ident (a : GroupedScan) (stat : LoopStatus) : UInt32 :=
  identLoop stat (a.m_loops.zip a.m_loopMax) 0 0

end GroupedScan

/-- The range of a parameter loop. -/
structure ThresholdRange where
  threshold_min : UInt32
  threshold_max : UInt32
  threshold_step : UInt32

/-- The last parameter loop is the threshold loop. -/
def thresholdOf (ls : List ScopeLoopInfo) : Option ThresholdRange :=
  ls.foldl (fun threshold l =>
    if l.style = .parameter then some ⟨l.getMin, l.getMax, l.getStep⟩ else threshold) none

/-! ## Sums of maps -/

/-- Sums of the maps of each kind, with counters. -/
structure MapSums (π : Type) where
  maps : π → IdentMap (Option Histo2d) := fun _ _ => none
  count : π → IdentMap UInt32 := fun _ _ => 0

namespace MapSums

variable {π : Type} (m : MapSums π) (nCol nRow : Nat)

/-- Sums that are not there are created. -/
def create (ident : UInt32) : MapSums π where
  maps p := if (m.maps p ident).isSome then m.maps p
    else Function.update (m.maps p) ident (some (emptyMap nCol nRow))
  count p := if (m.maps p ident).isSome then m.count p
    else Function.update (m.count p) ident 0

def merge [DecidableEq π] (p : π) (ident : UInt32) (h : Histo2d) : MapSums π where
  maps := Function.update m.maps p
    (Function.update (m.maps p) ident ((m.maps p ident).map fun sum => sum.add h))
  count := Function.update m.count p (Function.update (m.count p) ident (m.count p ident + 1))

/-- All three counters are where they should be. -/
def received [Fintype π] (m_n_count ident : UInt32) : Bool :=
  decide (∀ p, m.count p ident = m_n_count)

def clearCounts (ident : UInt32) : MapSums π where
  maps := m.maps
  count p := Function.update (m.count p) ident 0

def clear (ident : UInt32) : MapSums π where
  maps p := Function.update (m.maps p) ident none
  count p := Function.update (m.count p) ident 0

/-- The sum of a kind, which is there when it is asked for. -/
def heldAt (ident : UInt32) (p : π) : Histo2d := (m.maps p ident).getD (emptyMap nCol nRow)

end MapSums

/-! ## `FrontEndScopeAnalysis` -/

inductive ScopeMap where
  | occ
  | ptot
  | ptoa
  deriving DecidableEq

instance : Fintype ScopeMap where
  elems := {.occ, .ptot, .ptoa}
  complete p := by cases p <;> decide

def ScopeMap.outputName : ScopeMap → String
  | occ => "OccupancyMap"
  | ptot => "TotMap"
  | ptoa => "ToaMap"

def ScopeMap.ofName (name : String) : Option ScopeMap :=
  if name = "OccupancyMap" then some .occ
  else if name = "TotMap" then some .ptot
  else if name = "ToaMap" then some .ptoa
  else none

structure ScopeSettings where
  nCol : Nat
  nRow : Nat
  m_doPulseShapeMap : Bool := true
  m_pulseShape_xlo : ℚ := 100
  m_pulseShape_xhi : ℚ := 400
  m_pulseShape_nxbins : Nat := 300
  m_exclude_LRCols : Bool := true

/-- What is pushed to the output for one identifier, which is in the names of the maps. -/
structure ScopeResult where
  id : UInt32
  meanPToTMap : Histo2d
  meanPToAMap : Histo2d

structure FrontEndScopeAnalysis extends GroupedScan where
  settings : ScopeSettings
  threshold : Option ThresholdRange
  sums : MapSums ScopeMap := {}
  h_pulseShapeMap : Option Histo2d := none
  output : List ScopeResult := []

namespace ScopeSettings

variable (c : ScopeSettings)

/-- The bins up are steps of the threshold. -/
def newPulseShapeMap (t : ThresholdRange) : Histo2d :=
  let ylo : ℚ := t.threshold_min.toNat
  let yhi : ℚ := 115 / 100 * t.threshold_max.toNat
  .new c.m_pulseShape_nxbins c.m_pulseShape_xlo c.m_pulseShape_xhi
    ((yhi - ylo) / t.threshold_step.toNat).floor.toNat ylo yhi

/-- The test for the columns at the sides. -/
def leavesOut (ii : Nat) : Bool :=
  let pix_col := ii / 384
  c.m_exclude_LRCols &&
    (pix_col == 0 || pix_col == 1 || pix_col == 398 || pix_col == 399)

/-- The rising and the falling edge of the pulse of each pixel. -/
def fillPulseShape (m_injections : ℚ) (id : UInt32) (occ meanPToT meanPToA shape : Histo2d) :
    Histo2d :=
  (List.range meanPToA.size).foldl (fun shape ii =>
    if occ.getBin ii ≠ m_injections then shape
    else if c.leavesOut ii then shape
    else
      let mean_ptoa := meanPToA.getBin ii
      let mean_ptot := meanPToT.getBin ii
      (shape.fill mean_ptoa id.toNat 1).fill (mean_ptoa + mean_ptot) id.toNat 1) shape

end ScopeSettings

namespace FrontEndScopeAnalysis

def init (settings : ScopeSettings) (s : List ScopeLoopInfo) : FrontEndScopeAnalysis where
  toGroupedScan := .initLoops { nCol := settings.nCol, nRow := settings.nRow } 0 s
  settings := settings
  threshold := thresholdOf s

variable (a : FrontEndScopeAnalysis)

def injections : ℚ := a.m_injections.toNat

/-- Bins without full occupancy are set to zero. -/
def fullBins (occ : Histo2d) : Histo2d :=
  occ.setWhere (fun ii => occ.getBin ii ≠ a.injections) (fun _ => 0) occ.size

/-- The mean maps of an identifier. -/
def means (id : UInt32) (sumOf : ScopeMap → Histo2d) : ScopeResult where
  id := id
  meanPToTMap := ((emptyMap a.nCol a.nRow).add (sumOf .ptot)).divide (a.fullBins (sumOf .occ))
  meanPToAMap := ((emptyMap a.nCol a.nRow).add (sumOf .ptoa)).divide (a.fullBins (sumOf .occ))

/-- The map is made when the first position is complete. -/
def pulseShape (sumOf : ScopeMap → Histo2d) (r : ScopeResult) : Option Histo2d :=
  match a.threshold with
  | none => a.h_pulseShapeMap
  | some t =>
      if a.settings.m_doPulseShapeMap then
        some (a.settings.fillPulseShape a.injections r.id (a.fullBins (sumOf .occ))
          r.meanPToTMap r.meanPToAMap
          (a.h_pulseShapeMap.getD (a.settings.newPulseShapeMap t)))
      else a.h_pulseShapeMap

/-- The part of `processHistogram` behind `all_data_received`. -/
def finish (id : UInt32) : FrontEndScopeAnalysis :=
  let sumOf := a.sums.heldAt a.nCol a.nRow id
  let r := a.means id sumOf
  { a with
    sums := a.sums.clear id
    h_pulseShapeMap := a.pulseShape sumOf r
    output := a.output ++ [r] }

def processHistogram (name : String) (stat : LoopStatus) (h : Histo2d) :
    FrontEndScopeAnalysis :=
  match ScopeMap.ofName name with
  | none => a
  | some p =>
      let id := a.ident stat
      let a := { a with sums := (a.sums.create a.nCol a.nRow id).merge p id h }
      if a.sums.received a.m_n_count id then a.finish id else a

def run (feed : List OccupancyAnalysis.Input) : FrontEndScopeAnalysis :=
  feed.foldl (fun a i => a.processHistogram i.name i.stat i.histo) a

end FrontEndScopeAnalysis

/-! ## `ToaAnalysis` -/

inductive ToaMapKind where
  | occ
  | ptoa
  | ptoa2
  deriving DecidableEq

instance : Fintype ToaMapKind where
  elems := {.occ, .ptoa, .ptoa2}
  complete p := by cases p <;> decide

def ToaMapKind.outputName : ToaMapKind → String
  | occ => "OccupancyMap"
  | ptoa => "ToaMap"
  | ptoa2 => "Toa2Map"

def ToaMapKind.ofName (name : String) : Option ToaMapKind :=
  if name = "OccupancyMap" then some .occ
  else if name = "ToaMap" then some .ptoa
  else if name = "Toa2Map" then some .ptoa2
  else none

structure ToaResult where
  ident : UInt32
  meanPToAMap : Histo2d

structure ToaAnalysis extends GroupedScan where
  sums : MapSums ToaMapKind := {}
  output : List ToaResult := []

namespace ToaAnalysis

def init (nCol nRow : Nat) (s : List ScopeLoopInfo) : ToaAnalysis where
  toGroupedScan := .initLoops { nCol := nCol, nRow := nRow } 0 s

variable (a : ToaAnalysis)

def means (ident : UInt32) (sumOf : ToaMapKind → Histo2d) : ToaResult where
  ident := ident
  meanPToAMap := ((emptyMap a.nCol a.nRow).add (sumOf .ptoa)).divide (sumOf .occ)

/-- The part of `processHistogram` behind `got_all_data`. The sums stay where they are. -/
def finish (ident : UInt32) : ToaAnalysis :=
  { a with
    sums := a.sums.clearCounts ident
    output := a.output ++ [a.means ident (a.sums.heldAt a.nCol a.nRow ident)] }

def processHistogram (name : String) (stat : LoopStatus) (h : Histo2d) : ToaAnalysis :=
  match ToaMapKind.ofName name with
  | none => a
  | some p =>
      let ident := a.ident stat
      let a := { a with sums := (a.sums.create a.nCol a.nRow ident).merge p ident h }
      if a.sums.received a.m_n_count ident then a.finish ident else a

def run (feed : List OccupancyAnalysis.Input) : ToaAnalysis :=
  feed.foldl (fun a i => a.processHistogram i.name i.stat i.histo) a

end ToaAnalysis

end Yarr.Scan
