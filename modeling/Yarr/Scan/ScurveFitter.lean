import Yarr.Core.Gather
import Yarr.Scan.OccupancyAnalysis

/-!
# S-curves

The occupancy of each pixel is collected over the steps of the threshold
loop, under one integer for the pixel and the position of the outer loops. A
curve goes to the fit with the entry of the last threshold.
-/

namespace Yarr.Scan

/-- What the analysis asks a loop action for. The name of the parameter is there if the action
is a `StdParameterAction`. -/
structure LoopActionInfo where
  style : LoopStyle
  getMin : UInt32 := 0
  getMax : UInt32 := 0
  getStep : UInt32 := 1
  getParName : Option String := none

namespace LoopActionInfo

/-- `isTriggerLoop() || isMaskLoop() || isDataLoop()`. -/
def isInner (l : LoopActionInfo) : Bool :=
  match l.style with
  | .mask | .trigger | .triggerFeedback | .data => true
  | _ => false

/-- Without a list of parameters of interest every parameter loop is one. -/
def isPOILoop (m_parametersOfInterest : List String) (l : LoopActionInfo) : Bool :=
  if l.style ≠ .parameter then false
  else
    match l.getParName with
    | none => true
    | some loop_name =>
        m_parametersOfInterest.isEmpty || m_parametersOfInterest.contains loop_name

end LoopActionInfo

/-- The configuration of the fitter and the size of the matrix. -/
structure ScurveSettings where
  nCol : Nat
  nRow : Nat
  reverse : Bool := false
  m_parametersOfInterest : List String := []

/-- What `init` takes from the scan. -/
structure ScurveScan extends ScurveSettings where
  vcalLoop : Nat := 0
  vcalMin : UInt32 := 0
  vcalMax : UInt32 := 0
  vcalStep : UInt32 := 1
  vcalBins : UInt32 := 0
  loops : List Nat := []
  loopMax : List UInt32 := []

namespace ScurveScan

/-- The body of the loop of `init`. -/
def initLoop (a : ScurveScan) (n : Nat) (l : LoopActionInfo) : ScurveScan :=
  let poi := l.isPOILoop a.m_parametersOfInterest
  let a : ScurveScan :=
    if l.isInner || poi then a
    else { a with loops := a.loops ++ [n], loopMax := a.loopMax ++ [l.getMax] }
  if poi then
    { a with
      vcalLoop := n
      vcalMax := l.getMax
      vcalMin := l.getMin
      vcalStep := l.getStep
      vcalBins := (l.getMax - l.getMin) / l.getStep }
  else a

def initLoops (a : ScurveScan) (n : Nat) : List LoopActionInfo → ScurveScan
  | [] => a
  | l :: ls => initLoops (a.initLoop n l) (n + 1) ls

def init (settings : ScurveSettings) (s : List LoopActionInfo) : ScurveScan :=
  initLoops { settings with } 0 s

end ScurveScan

/-- The histogram of a curve. `points` is what was filled in, in the order of arrival. -/
structure Scurve where
  name : String
  bins : Nat
  xlow : ℚ
  xhigh : ℚ
  data : List ℚ
  underflow : ℚ := 0
  overflow : ℚ := 0
  points : List (UInt32 × ℚ) := []

namespace Scurve

def new (name : String) (bins : Nat) (xlow xhigh : ℚ) : Scurve where
  name := name
  bins := bins
  xlow := xlow
  xhigh := xhigh
  data := List.replicate bins 0

variable (c : Scurve)

def binWidth : ℚ := (c.xhigh - c.xlow) / c.bins

/-- `Histo1d::fill`. -/
def fill (x : UInt32) (v : ℚ) : Scurve :=
  let c : Scurve := { c with points := c.points ++ [(x, v)] }
  if (x.toNat : ℚ) < c.xlow then { c with underflow := c.underflow + v }
  else if c.xhigh ≤ x.toNat then { c with overflow := c.overflow + v }
  else
    { c with data := c.data.modify ((x.toNat - c.xlow) / c.binWidth).floor.toNat (· + v) }

end Scurve

/-- A bin of a pixel that goes into a curve, with the identifier of the curve. -/
structure ScurveEntry where
  col : Nat
  row : Nat
  stat : LoopStatus
  hits : ℚ
  ident : UInt32
  deriving DecidableEq

/-- `histos` holds the curves under construction. `collected` are the entries so far, `fitted`
the curves that went to the fit, each with the entry that closed it. -/
structure ScurveFitter extends ScurveScan where
  histos : IdentMap (Option Scurve) := fun _ => none
  collected : List ScurveEntry := []
  fitted : List (ScurveEntry × Scurve) := []

namespace ScurveScan

variable (a : ScurveScan)

def grouping : List (Nat × UInt32) := a.loops.zip a.loopMax

/-- The identifier and the offset behind the loop over `loops`. -/
def identLoop (stat : LoopStatus) : List (Nat × UInt32) → UInt64 → UInt64 → UInt64 × UInt64
  | [], ident, offset => (ident, offset)
  | (loop, max) :: rest, ident, offset =>
      identLoop stat rest (ident + (stat.get loop).toUInt64 * offset) (offset * max.toUInt64)

def nameOf (col row : Nat) (stat : LoopStatus) : String :=
  OccupancyScan.nameOf ("Scurve-" ++ toString col ++ "-" ++ toString row) (a.loops.map stat.get)

/-- A new curve with a bin around each step. -/
def newCurve (col row : Nat) (stat : LoopStatus) : Scurve :=
  .new (a.nameOf col row stat) (a.vcalBins + 1).toNat
    (a.vcalMin.toNat - a.vcalStep.toNat / 2) (a.vcalMax.toNat + a.vcalStep.toNat / 2)

/-- The result of `binNum`, which is -1 outside the histogram, as an unsigned number. -/
def binNum (hh : Histo2d) (p : Nat × Nat) : UInt32 :=
  match hh.binNum p.1 p.2 with
  | some bin => UInt32.ofNat bin
  | none => 0xFFFFFFFF

/-- Columns and rows count from one. -/
def pixels : List (Nat × Nat) :=
  (List.range a.nCol).flatMap fun col => (List.range a.nRow).map fun row => (col + 1, row + 1)

def isRelevant (hh : Histo2d) (p : Nat × Nat) : Bool :=
  hh.getBin (binNum hh p).toNat != 0 || a.reverse

end ScurveScan

namespace ScurveFitter

variable (a : ScurveFitter)

/-- The part of the pixel loop behind the identifier. -/
def collect (e : ScurveEntry) : ScurveFitter :=
  let vcal := e.stat.get a.vcalLoop
  let curve := (a.histos e.ident).getD (a.newCurve e.col e.row e.stat)
  let curve := curve.fill vcal e.hits
  if a.vcalMax ≤ vcal then
    { a with
      histos := Function.update a.histos e.ident none
      collected := a.collected ++ [e]
      fitted := a.fitted ++ [(e, curve)] }
  else
    { a with
      histos := Function.update a.histos e.ident (some curve)
      collected := a.collected ++ [e] }

/-- The pixel loop carries `offset` on from pixel to pixel. -/
def pixelLoop (stat : LoopStatus) (hh : Histo2d) (offset : UInt64) :
    List (Nat × Nat) → ScurveFitter → ScurveFitter
  | [], a => a
  | p :: ps, a =>
      if a.isRelevant hh p then
        let bin := ScurveScan.binNum hh p
        let (ident, offset) := ScurveScan.identLoop stat a.grouping bin.toUInt64 offset
        pixelLoop stat hh offset ps
          (a.collect ⟨p.1, p.2, stat, hh.getBin bin.toNat, ident.toUInt32⟩)
      else pixelLoop stat hh offset ps a

def processHistogram (name : String) (stat : LoopStatus) (hh : Histo2d) : ScurveFitter :=
  if !"OccupancyMap".toList.isPrefixOf name.toList then a
  else pixelLoop stat hh (UInt32.ofNat (a.nCol * a.nRow)).toUInt64 a.pixels a

def run (feed : List OccupancyAnalysis.Input) : ScurveFitter :=
  feed.foldl (fun a i => a.processHistogram i.name i.stat i.histo) a

end ScurveFitter

end Yarr.Scan
