import Yarr.Core.Gather
import Yarr.Scan.Loops
import Yarr.Scan.StdHistogrammer

/-!
# Occupancy analysis

Occupancy maps are added up over the inner loops, filed under one integer for
the position of the outer loops, and put out when as many maps have come in
as the ranges of the inner loops let expect.
-/

namespace Yarr.Scan

/-- `std::map` keeps what was never stored as a null pointer or zero. -/
abbrev IdentMap (α : Type) := UInt32 → α

inductive CfgCall where
  | maskPixel (col row : Nat)
  | enableAll
  deriving DecidableEq

structure NamedHisto2d where
  name : String
  histo : Histo2d

/-- What is pushed to the output for one identifier: the enable mask, then the map. -/
structure OccupancyResult where
  mask : NamedHisto2d
  occMap : NamedHisto2d

/-- The configuration of the analysis and the size of the matrix. -/
structure OccupancySettings where
  nCol : Nat := 80
  nRow : Nat := 336
  make_mask : Bool := true
  createMask : Bool := true
  coreColMask : Bool := false
  LowThr : ℚ := 0
  HighThr : ℚ := 0
  nCol_pos : 0 < nCol
  nRow_pos : 0 < nRow

/-- What `init` takes from the scan. -/
structure OccupancyScan extends OccupancySettings where
  loops : List Nat := []
  loopMax : List UInt32 := []
  n_count : UInt32 := 1
  injections : UInt32 := 0

structure OccupancyAnalysis extends OccupancyScan where
  occMaps : IdentMap (Option NamedHisto2d) := fun _ => none
  innerCnt : IdentMap UInt32 := fun _ => 0
  cfgCalls : List CfgCall := []
  output : List OccupancyResult := []

/-! ## `init` -/

namespace OccupancyScan

/-- The number of steps that an inner loop is taken to have. -/
def expected (l : ScanLoop) : UInt32 :=
  let cnt := (l.getMax - l.getMin) / l.getStep
  if cnt = 0 then 1 else cnt

/-- The body of the loop of `init`. -/
def initLoop (a : OccupancyScan) (n : Nat) (l : ScanLoop) : OccupancyScan :=
  let a : OccupancyScan :=
    if l.isInner then { a with n_count := a.n_count * expected l }
    else { a with loops := a.loops ++ [n], loopMax := a.loopMax ++ [l.getMax] }
  match l with
  | .trigger trigCnt => { a with injections := trigCnt }
  | _ => a

def initLoops (a : OccupancyScan) (n : Nat) : List ScanLoop → OccupancyScan
  | [] => a
  | l :: ls => initLoops (a.initLoop n l) (n + 1) ls

def init (settings : OccupancySettings) (s : List ScanLoop) : OccupancyScan :=
  let a : OccupancyScan := initLoops { settings with } 0 s
  if a.LowThr = 0 ∧ a.HighThr = 0 then
    { a with LowThr := a.injections.toNat, HighThr := a.injections.toNat }
  else a

variable (a : OccupancyScan)

/-! ## `processHistogram` -/

/-- Positions in one integer: `unsigned long` arithmetic, cut to the key of the map. -/
def identLoop (stat : LoopStatus) : List (Nat × UInt32) → UInt64 → UInt64 → UInt64
  | [], ident, _ => ident
  | (loop, max) :: rest, ident, offset =>
      identLoop stat rest (ident + (stat.get loop).toUInt64 * offset) (offset * max.toUInt64)

def ident (stat : LoopStatus) : UInt32 :=
  (identLoop stat (a.loops.zip a.loopMax) 0 1).toUInt32

/-- The loop values behind the name of a map. -/
def nameOf (name : String) (values : List UInt32) : String :=
  values.foldl (fun name v => name ++ "-" ++ toString v.toNat) name

def outerValues (stat : LoopStatus) : List UInt32 := a.loops.map stat.get

/-- The bin of a pixel, zero outside the histogram. -/
def binAt (h : Histo2d) (col row : Nat) : ℚ :=
  match h.binNum col row with
  | some i => h.getBin i
  | none => 0

def setAt (h : Histo2d) (col row : Nat) (v : ℚ) : Histo2d :=
  match h.binNum col row with
  | some i => h.setBin i v
  | none => h

def inThresholds (v : ℚ) : Bool := decide (a.LowThr ≤ v ∧ v ≤ a.HighThr)

/-- Columns and rows count from one. -/
def pixels : List (Nat × Nat) :=
  (List.range a.nCol).flatMap fun col => (List.range a.nRow).map fun row => (col + 1, row + 1)

def enMask (occ : Histo2d) : Histo2d :=
  a.pixels.foldl (fun mask p =>
    if a.inThresholds (binAt occ p.1 p.2) then setAt mask p.1 p.2 1 else mask)
    (emptyMap a.nCol a.nRow)

/-- `maskPixel` counts from zero. -/
def pixelCalls (occ : Histo2d) : List CfgCall :=
  if a.make_mask && a.createMask then
    (a.pixels.filter fun p => !a.inThresholds (binAt occ p.1 p.2)).map fun p =>
      .maskPixel (p.1 - 1) (p.2 - 1)
  else []

/-- A core column with more than a tenth of its pixels outside the thresholds is masked. -/
def coreColCalls (occ : Histo2d) : List CfgCall :=
  if a.coreColMask then
    .enableAll :: (List.range 50).flatMap fun coreCol =>
      let bad := (List.range 8).flatMap fun col => (List.range a.nRow).filter fun row =>
        !a.inThresholds (binAt occ (coreCol * 8 + col + 1) (row + 1))
      if (bad.length : ℚ) > 1 / 10 * 8 * a.nRow then
        (List.range (a.nRow * 8)).map fun iPixel =>
          .maskPixel (coreCol * 8 + iPixel % 8) (iPixel / 8)
      else []
  else []

end OccupancyScan

namespace OccupancyAnalysis

variable (a : OccupancyAnalysis)

def processHistogram (name : String) (stat : LoopStatus) (h : Histo2d) : OccupancyAnalysis :=
  if name ≠ "OccupancyMap" then a
  else
    let ident := a.ident stat
    let occ := (a.occMaps ident).getD
      ⟨OccupancyScan.nameOf "OccupancyMap" (a.outerValues stat), emptyMap a.nCol a.nRow⟩
    let occ : NamedHisto2d := { occ with histo := occ.histo.add h }
    let cnt := a.innerCnt ident + 1
    if cnt = a.n_count then
      let mask : NamedHisto2d :=
        ⟨OccupancyScan.nameOf "EnMask" (a.outerValues stat), a.enMask occ.histo⟩
      { a with
        occMaps := Function.update a.occMaps ident none
        innerCnt := Function.update a.innerCnt ident cnt
        cfgCalls := a.cfgCalls ++ a.pixelCalls occ.histo ++ a.coreColCalls occ.histo
        output := a.output ++ [⟨mask, occ⟩] }
    else
      { a with
        occMaps := Function.update a.occMaps ident (some occ)
        innerCnt := Function.update a.innerCnt ident cnt }

/-- A histogram as the analysis receives it. -/
structure Input where
  name : String
  stat : LoopStatus
  histo : Histo2d

def run (feed : List Input) : OccupancyAnalysis :=
  feed.foldl (fun a i => a.processHistogram i.name i.stat i.histo) a

end OccupancyAnalysis

end Yarr.Scan
