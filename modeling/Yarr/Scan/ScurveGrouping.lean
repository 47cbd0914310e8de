import Yarr.Scan.Completeness
import Yarr.Scan.ScurveFitter

/-!
# Grouping of the S-curves

One offset is carried on from pixel to pixel, so the identifier of a pixel
depends on how many pixels of the map were taken before it. The curves come
out right exactly if these numbers do no harm and every pixel has one entry
at the last threshold.
-/

namespace Yarr.Scan

open OccupancyScan (weightedSum)

/-! ## Nests with a threshold loop -/

/-- A loop with the values it takes. -/
structure ScurveLoop where
  info : LoopActionInfo
  visited : List UInt32
  nodup : visited.Nodup

/-- A parameter loop with the values it takes. -/
structure ThresholdLoop where
  range : LoopRange
  getParName : Option String
  visited : List UInt32
  visits : (ScanLoop.parameter range).Visits range.min.toUInt32 visited

namespace ThresholdLoop

variable (l : ThresholdLoop)

def info : LoopActionInfo where
  style := .parameter
  getMin := l.range.min.toUInt32
  getMax := l.range.max.toUInt32
  getStep := l.range.step
  getParName := l.getParName

/-- Thresholds are not negative, and `int` has room for a step behind the last. -/
def Ordinary : Prop :=
  0 ≤ l.range.min.toInt ∧ l.range.max.toInt + l.range.step.toNat < 2 ^ 31

end ThresholdLoop

/-- Loops outside and inside of the threshold loop. Only mask, trigger and data loops are
inside. -/
structure ScurveNest extends ScurveSettings where
  outer : List ScurveLoop
  vcal : ThresholdLoop
  inner : List ScurveLoop
  isInner_inner : ∀ l ∈ inner, l.info.isInner = true
  isPOILoop_vcal : vcal.info.isPOILoop m_parametersOfInterest = true
  size_le : outer.length + 1 + inner.length ≤ 8

/-- All choices of one value from each list, in the order of nested loops. -/
def nested : List (List UInt32) → List (List UInt32)
  | [] => [[]]
  | vs :: vss => vs.flatMap fun v => (nested vss).map (v :: ·)

theorem length_of_mem_nested {vss : List (List UInt32)} {p : List UInt32} (h : p ∈ nested vss) :
    p.length = vss.length := by
  induction vss generalizing p with
  | nil =>
      rw [List.mem_singleton.mp h]
      rfl
  | cons vs vss ih =>
      rcases List.mem_flatMap.mp h with ⟨v, _, hp⟩
      rcases List.mem_map.mp hp with ⟨p', hp', rfl⟩
      rw [List.length_cons, List.length_cons, ih hp']

/-- Positions with the same values of the first loops come in the order of the next one. -/
theorem pairwise_nested {R : UInt32 → UInt32 → Prop} (hrefl : ∀ v, R v v)
    {front : List (List UInt32)} (hfront : ∀ vs ∈ front, vs.Nodup) {vs : List UInt32}
    (hvs : vs.Pairwise R) (back : List (List UInt32)) :
    (nested (front ++ vs :: back)).Pairwise fun p q =>
      p.take front.length = q.take front.length →
        R (p.getD front.length 0) (q.getD front.length 0) := by
  induction front with
  | nil =>
      rw [List.nil_append, nested, List.pairwise_flatMap]
      refine ⟨fun v _ => ?_, hvs.imp fun {v w} hvw p hp q hq _ => ?_⟩
      · rw [List.pairwise_map]
        exact List.pairwise_of_forall fun _ _ _ => hrefl v
      · rcases List.mem_map.mp hp with ⟨p', _, rfl⟩
        rcases List.mem_map.mp hq with ⟨q', _, rfl⟩
        exact hvw
  | cons us front ih =>
      have hrest := ih fun ws hws => hfront ws (List.mem_cons_of_mem _ hws)
      rw [List.cons_append, nested, List.pairwise_flatMap]
      refine ⟨fun v _ => ?_, (hfront us List.mem_cons_self).imp fun {v w} hvw p hp q hq h => ?_⟩
      · rw [List.pairwise_map]
        exact hrest.imp fun {p q} hpq h => hpq (by simpa using h)
      · rcases List.mem_map.mp hp with ⟨p', _, rfl⟩
        rcases List.mem_map.mp hq with ⟨q', _, rfl⟩
        exact absurd (List.cons.inj h).1 hvw

namespace ScurveNest

variable (nest : ScurveNest)

def infos : List LoopActionInfo :=
  nest.outer.map ScurveLoop.info ++ nest.vcal.info :: nest.inner.map ScurveLoop.info

/-- The fitter after `init` on the nest. -/
def scan : ScurveScan := .init nest.toScurveSettings nest.infos

def values : List (List UInt32) :=
  nest.outer.map ScurveLoop.visited ++ nest.vcal.visited :: nest.inner.map ScurveLoop.visited

theorem length_values : nest.values.length = nest.infos.length := by
  simp [values, infos]

/-- The status at every position of the scan. -/
def points : List LoopStatus :=
  (nested nest.values).attach.map fun p =>
    { statVec := p.1
      styleVec := nest.infos.map LoopActionInfo.style
      size_le := by
        have hsize := nest.size_le
        rw [length_of_mem_nested p.2, values, List.length_append, List.length_cons,
          List.length_map, List.length_map]
        omega
      length_styleVec := by
        rw [List.length_map, length_of_mem_nested p.2, nest.length_values] }

theorem map_statVec_points : nest.points.map LoopStatus.statVec = nested nest.values := by
  simp [points, Function.comp_def]

/-- The position of the loops outside of the threshold loop. -/
def outerOf (stat : LoopStatus) : List UInt32 := stat.statVec.take nest.outer.length

def vcalOf (stat : LoopStatus) : UInt32 := stat.get nest.outer.length

/-- The loops that are neither inner loops nor loops over a parameter of interest, with their
places in the nest. -/
def groupedLoops : List (ScurveLoop × Nat) :=
  nest.outer.zipIdx.filter fun l =>
    !(l.1.info.isInner || l.1.info.isPOILoop nest.m_parametersOfInterest)

/-- The position of the grouped loops as a number with their maxima as radices. -/
def outerNumber (stat : LoopStatus) : Nat :=
  weightedSum (nest.groupedLoops.map fun l => stat.get l.2)
    (nest.groupedLoops.map fun l => l.1.info.getMax)

def radix : Nat := (nest.groupedLoops.map fun l => l.1.info.getMax.toNat).prod

/-! ## What `init` computes -/

theorem initLoop_other (a : ScurveScan) (n : Nat) {l : LoopActionInfo}
    (h : l.isPOILoop a.m_parametersOfInterest = false) :
    a.initLoop n l = if l.isInner then a
      else { a with loops := a.loops ++ [n], loopMax := a.loopMax ++ [l.getMax] } := by
  unfold ScurveScan.initLoop
  rw [h]
  cases l.isInner <;> rfl

theorem initLoop_poi (a : ScurveScan) (n : Nat) {l : LoopActionInfo}
    (h : l.isPOILoop a.m_parametersOfInterest = true) :
    a.initLoop n l = { a with
      vcalLoop := n
      vcalMax := l.getMax
      vcalMin := l.getMin
      vcalStep := l.getStep
      vcalBins := (l.getMax - l.getMin) / l.getStep } := by
  unfold ScurveScan.initLoop
  rw [h]
  cases l.isInner <;> rfl

theorem initLoop_settings (a : ScurveScan) (n : Nat) (l : LoopActionInfo) :
    (a.initLoop n l).toScurveSettings = a.toScurveSettings := by
  cases h : l.isPOILoop a.m_parametersOfInterest with
  | true => rw [initLoop_poi a n h]
  | false =>
      rw [initLoop_other a n h]
      split <;> rfl

theorem initLoops_settings (a : ScurveScan) (n : Nat) (ls : List LoopActionInfo) :
    (a.initLoops n ls).toScurveSettings = a.toScurveSettings := by
  induction ls generalizing a n with
  | nil => rfl
  | cons l ls ih => rw [ScurveScan.initLoops, ih, initLoop_settings]

/-- A loop that `init` files in `loops`. -/
def isGrouped (poi : List String) (l : LoopActionInfo) : Bool := !(l.isInner || l.isPOILoop poi)

theorem initLoops_loops (a : ScurveScan) (n : Nat) (ls : List LoopActionInfo) :
    (a.initLoops n ls).loops = a.loops
        ++ ((ls.zipIdx n).filter fun l => isGrouped a.m_parametersOfInterest l.1).map Prod.snd ∧
      (a.initLoops n ls).loopMax = a.loopMax
        ++ ((ls.zipIdx n).filter fun l => isGrouped a.m_parametersOfInterest l.1).map
          fun l => l.1.getMax := by
  induction ls generalizing a n with
  | nil => simp [ScurveScan.initLoops]
  | cons l ls ih =>
      have hrest := ih (a.initLoop n l) (n + 1)
      have hpoi := congrArg ScurveSettings.m_parametersOfInterest (initLoop_settings a n l)
      rw [hpoi] at hrest
      rw [ScurveScan.initLoops, hrest.1, hrest.2, List.zipIdx_cons]
      cases h : l.isPOILoop a.m_parametersOfInterest with
      | true => simp [initLoop_poi a n h, isGrouped, h]
      | false =>
          rw [initLoop_other a n h]
          cases hin : l.isInner with
          | true => simp [isGrouped, hin]
          | false => simp [isGrouped, h, hin]

theorem isPOILoop_of_isInner {l : LoopActionInfo} (h : l.isInner = true) (poi : List String) :
    l.isPOILoop poi = false := by
  unfold LoopActionInfo.isInner at h
  unfold LoopActionInfo.isPOILoop
  cases hstyle : l.style <;> simp [hstyle] at h ⊢

theorem initLoops_inner (a : ScurveScan) (n : Nat) (ls : List LoopActionInfo)
    (h : ∀ l ∈ ls, l.isInner = true) : a.initLoops n ls = a := by
  induction ls generalizing n with
  | nil => rfl
  | cons l ls ih =>
      have hl := h l List.mem_cons_self
      rw [ScurveScan.initLoops, initLoop_other a n (isPOILoop_of_isInner hl _), if_pos hl]
      exact ih _ fun l hl => h l (List.mem_cons_of_mem _ hl)

theorem initLoops_append (a : ScurveScan) (n : Nat) (ls ls' : List LoopActionInfo) :
    a.initLoops n (ls ++ ls') = (a.initLoops n ls).initLoops (n + ls.length) ls' := by
  induction ls generalizing a n with
  | nil => rfl
  | cons l ls ih =>
      rw [List.cons_append, ScurveScan.initLoops, ih, List.length_cons, ScurveScan.initLoops,
        Nat.add_assoc, Nat.add_comm 1]

theorem scan_eq : nest.scan =
    { ScurveScan.initLoops { nest.toScurveSettings with } 0 (nest.outer.map ScurveLoop.info) with
      vcalLoop := nest.outer.length
      vcalMax := nest.vcal.range.max.toUInt32
      vcalMin := nest.vcal.range.min.toUInt32
      vcalStep := nest.vcal.range.step
      vcalBins := (nest.vcal.range.max.toUInt32 - nest.vcal.range.min.toUInt32)
        / nest.vcal.range.step } := by
  have hinner : ∀ l ∈ nest.inner.map ScurveLoop.info, l.isInner = true := by
    intro l hl
    rcases List.mem_map.mp hl with ⟨l', hl', rfl⟩
    exact nest.isInner_inner l' hl'
  have hpoi := congrArg ScurveSettings.m_parametersOfInterest (initLoops_settings
    { nest.toScurveSettings with } 0 (nest.outer.map ScurveLoop.info))
  rw [scan, ScurveScan.init, infos, initLoops_append, ScurveScan.initLoops,
    initLoops_inner _ _ _ hinner, initLoop_poi, List.length_map, Nat.zero_add]
  · rfl
  · rw [hpoi]
    exact nest.isPOILoop_vcal

theorem settings_scan : nest.scan.toScurveSettings = nest.toScurveSettings := by
  rw [scan_eq]
  exact initLoops_settings _ _ _

theorem grouping_scan :
    nest.scan.grouping = nest.groupedLoops.map fun l => (l.2, l.1.info.getMax) := by
  have hloops := initLoops_loops { nest.toScurveSettings with } 0
    (nest.outer.map ScurveLoop.info)
  have hfilter : (((nest.outer.map ScurveLoop.info).zipIdx 0).filter
        fun l => isGrouped nest.m_parametersOfInterest l.1)
      = nest.groupedLoops.map fun l => (l.1.info, l.2) := by
    rw [groupedLoops, List.zipIdx_map, List.filter_map]
    rfl
  rw [scan_eq, ScurveScan.grouping]
  dsimp only
  rw [hloops.1, hloops.2, hfilter]
  simp only [List.nil_append, List.map_map, List.zip_map']
  rfl

end ScurveNest

/-! ## The entries of a map -/

namespace ScurveScan

theorem identLoop_fst (stat : LoopStatus) (ls : List (Nat × UInt32)) (ident offset : UInt64) :
    (identLoop stat ls ident offset).1 = OccupancyScan.identLoop stat ls ident offset := by
  induction ls generalizing ident offset with
  | nil => rfl
  | cons l ls ih => exact ih _ _

theorem identLoop_snd (stat : LoopStatus) (ls : List (Nat × UInt32)) (ident offset : UInt64) :
    (identLoop stat ls ident offset).2.toNat
      = offset.toNat * (ls.map fun l => l.2.toNat).prod % 2 ^ 64 := by
  induction ls generalizing ident offset with
  | nil => simp [identLoop, Nat.mod_eq_of_lt offset.toNat_lt]
  | cons l ls ih =>
      rw [identLoop, ih, UInt64.toNat_mul, UInt32.toNat_toUInt64, List.map_cons, List.prod_cons,
        Nat.mod_mul_mod, Nat.mul_assoc]

variable (a : ScurveScan)

/-- What the pixel loop collects. -/
def entriesFrom (stat : LoopStatus) (hh : Histo2d) (offset : UInt64) :
    List (Nat × Nat) → List ScurveEntry
  | [] => []
  | p :: ps =>
      if a.isRelevant hh p then
        let next := identLoop stat a.grouping (binNum hh p).toUInt64 offset
        ⟨p.1, p.2, stat, hh.getBin (binNum hh p).toNat, next.1.toUInt32⟩ ::
          entriesFrom stat hh next.2 ps
      else entriesFrom stat hh offset ps

def entriesOf (stat : LoopStatus) (hh : Histo2d) : List ScurveEntry :=
  a.entriesFrom stat hh (UInt32.ofNat (a.nCol * a.nRow)).toUInt64 a.pixels

/-- The pixels of a map that go into curves, in the order of the pixel loop. -/
def hitPixels (hh : Histo2d) : List (Nat × Nat) := a.pixels.filter (a.isRelevant hh)

end ScurveScan

namespace ScurveNest

variable (nest : ScurveNest)

/-- The identifier of a pixel that is the `k`-th to be taken from its map. -/
def codeOf (stat : LoopStatus) (hh : Histo2d) (k : Nat) (p : Nat × Nat) : UInt32 :=
  UInt32.ofNat ((ScurveScan.binNum hh p).toNat
    + nest.nCol * nest.nRow * nest.radix ^ k * nest.outerNumber stat)

def entryOf (stat : LoopStatus) (hh : Histo2d) (p : (Nat × Nat) × Nat) : ScurveEntry :=
  ⟨p.1.1, p.1.2, stat, hh.getBin (ScurveScan.binNum hh p.1).toNat, nest.codeOf stat hh p.2 p.1⟩

theorem toUInt32_eq_ofNat {x : UInt64} {n : Nat} (h : x.toNat ≡ n [MOD 2 ^ 32]) :
    x.toUInt32 = UInt32.ofNat n := by
  apply UInt32.toNat_inj.mp
  rw [UInt64.toNat_toUInt32, UInt32.toNat_ofNat']
  exact h

theorem identLoop_scan (stat : LoopStatus) (ident offset : UInt64) {n : Nat}
    (h : offset.toNat ≡ n [MOD 2 ^ 32]) :
    (ScurveScan.identLoop stat nest.scan.grouping ident offset).1.toUInt32
        = UInt32.ofNat (ident.toNat + n * nest.outerNumber stat) ∧
      (ScurveScan.identLoop stat nest.scan.grouping ident offset).2.toNat
        ≡ n * nest.radix [MOD 2 ^ 32] := by
  have hdvd : 2 ^ 32 ∣ 2 ^ 64 := by decide
  constructor
  · apply toUInt32_eq_ofNat
    rw [ScurveScan.identLoop_fst, OccupancyScan.identLoop_toNat, grouping_scan]
    simp only [List.map_map, Function.comp_def]
    have hmod := (Nat.mod_modEq (ident.toNat + offset.toNat * nest.outerNumber stat)
      (2 ^ 64)).of_dvd hdvd
    exact hmod.trans ((h.mul_right _).add_left _)
  · rw [ScurveScan.identLoop_snd, grouping_scan]
    simp only [List.map_map, Function.comp_def]
    exact ((Nat.mod_modEq (offset.toNat * nest.radix) (2 ^ 64)).of_dvd hdvd).trans (h.mul_right _)

theorem entriesFrom_eq (stat : LoopStatus) (hh : Histo2d) (offset : UInt64) (k : Nat)
    (h : offset.toNat ≡ nest.nCol * nest.nRow * nest.radix ^ k [MOD 2 ^ 32])
    (ps : List (Nat × Nat)) :
    nest.scan.entriesFrom stat hh offset ps
      = ((ps.filter (nest.scan.isRelevant hh)).zipIdx k).map (nest.entryOf stat hh) := by
  induction ps generalizing offset k with
  | nil => rfl
  | cons p ps ih =>
      rw [ScurveScan.entriesFrom, List.filter_cons]
      cases hp : nest.scan.isRelevant hh p with
      | false => exact ih offset k h
      | true =>
          have hident := nest.identLoop_scan stat (ScurveScan.binNum hh p).toUInt64 offset h
          have hnext := hident.2
          rw [Nat.mul_assoc, ← Nat.pow_succ] at hnext
          simp only [if_true, List.zipIdx_cons, List.map_cons]
          rw [ih _ (k + 1) hnext, hident.1]
          rfl

theorem entriesOf_eq (stat : LoopStatus) (hh : Histo2d) :
    nest.scan.entriesOf stat hh
      = (nest.scan.hitPixels hh).zipIdx.map (nest.entryOf stat hh) := by
  have hcol := congrArg ScurveSettings.nCol nest.settings_scan
  have hrow := congrArg ScurveSettings.nRow nest.settings_scan
  apply nest.entriesFrom_eq
  rw [hcol, hrow, UInt32.toNat_toUInt64, UInt32.toNat_ofNat', Nat.pow_zero, Nat.mul_one]
  exact Nat.mod_modEq _ _

theorem mem_entriesOf {stat : LoopStatus} {hh : Histo2d} {e : ScurveEntry} :
    e ∈ nest.scan.entriesOf stat hh ↔
      ∃ k p, (nest.scan.hitPixels hh)[k]? = some p ∧ nest.entryOf stat hh (p, k) = e := by
  rw [entriesOf_eq, List.mem_map]
  constructor
  · rintro ⟨⟨p, k⟩, hmem, rfl⟩
    exact ⟨k, p, List.mem_zipIdx_iff_getElem?.mp hmem, rfl⟩
  · rintro ⟨k, p, hk, rfl⟩
    exact ⟨(p, k), List.mem_zipIdx_iff_getElem?.mpr hk, rfl⟩

end ScurveNest

/-! ## The run over the entries -/

namespace ScurveFitter

theorem toScurveScan_collect (a : ScurveFitter) (e : ScurveEntry) :
    (a.collect e).toScurveScan = a.toScurveScan := by
  unfold collect
  dsimp only
  split <;> rfl

theorem toScurveScan_collects (a : ScurveFitter) (es : List ScurveEntry) :
    (es.foldl collect a).toScurveScan = a.toScurveScan := by
  induction es generalizing a with
  | nil => rfl
  | cons e es ih => rw [List.foldl_cons, ih, toScurveScan_collect]

theorem pixelLoop_eq (a : ScurveFitter) (stat : LoopStatus) (hh : Histo2d) (offset : UInt64)
    (ps : List (Nat × Nat)) :
    pixelLoop stat hh offset ps a = (a.entriesFrom stat hh offset ps).foldl collect a := by
  induction ps generalizing a offset with
  | nil => rfl
  | cons p ps ih =>
      rw [pixelLoop, ScurveScan.entriesFrom]
      by_cases hp : a.isRelevant hh p
      · rw [if_pos hp, if_pos hp]
        dsimp only
        rw [ih, toScurveScan_collect, List.foldl_cons]
      · rw [if_neg hp, if_neg hp, ih]

def isOccupancy (i : OccupancyAnalysis.Input) : Bool :=
  "OccupancyMap".toList.isPrefixOf i.name.toList

theorem run_eq (a : ScurveFitter) (feed : List OccupancyAnalysis.Input) :
    a.run feed = ((feed.filter isOccupancy).flatMap
      fun i => a.entriesOf i.stat i.histo).foldl collect a := by
  induction feed generalizing a with
  | nil => rfl
  | cons i feed ih =>
      rw [run, List.foldl_cons, ← run, ih]
      by_cases hi : isOccupancy i
      · have hstep : a.processHistogram i.name i.stat i.histo
            = (a.entriesOf i.stat i.histo).foldl collect a := by
          have hname : (!"OccupancyMap".toList.isPrefixOf i.name.toList) = false := by
            rw [Bool.not_eq_false']
            exact hi
          rw [processHistogram, hname]
          exact pixelLoop_eq a _ _ _ _
        rw [hstep, toScurveScan_collects, List.filter_cons_of_pos hi, List.flatMap_cons,
          List.foldl_append]
      · have hstep : a.processHistogram i.name i.stat i.histo = a := by
          have hname : (!"OccupancyMap".toList.isPrefixOf i.name.toList) = true := by
            rw [Bool.not_eq_true']
            exact Bool.eq_false_iff.mpr hi
          rw [processHistogram, hname]
          rfl
        rw [hstep, List.filter_cons_of_neg hi]

/-- Entries under their identifiers, until the last threshold. -/
def curves (a : ScurveScan) : Collect UInt32 ScurveEntry Scurve where
  key e := e.ident
  new e := a.newCurve e.col e.row e.stat
  add c e := c.fill (e.stat.get a.vcalLoop) e.hits
  last e := a.vcalMax ≤ e.stat.get a.vcalLoop

/-- The state of the fitter is the state of the collection. -/
structure Refines (scan : ScurveScan) (a : ScurveFitter)
    (s : Collect.State UInt32 ScurveEntry Scurve) : Prop where
  scan_eq : a.toScurveScan = scan
  histos_eq : a.histos = s.current
  fitted_eq : a.fitted = s.done

theorem Refines.collect {scan : ScurveScan} {a : ScurveFitter}
    {s : Collect.State UInt32 ScurveEntry Scurve} (h : Refines scan a s) (e : ScurveEntry) :
    Refines scan (a.collect e) ((curves scan).step s e) := by
  rcases h with ⟨rfl, hhistos, hfitted⟩
  by_cases hlast : a.vcalMax ≤ e.stat.get a.vcalLoop
  · constructor <;>
      simp [ScurveFitter.collect, Collect.step, Collect.grow, curves, hlast, hhistos, hfitted]
  · constructor <;>
      simp [ScurveFitter.collect, Collect.step, Collect.grow, curves, hlast, hhistos, hfitted]

theorem Refines.foldl {scan : ScurveScan} {a : ScurveFitter}
    {s : Collect.State UInt32 ScurveEntry Scurve} (h : Refines scan a s) (es : List ScurveEntry) :
    Refines scan (es.foldl ScurveFitter.collect a) (es.foldl (curves scan).step s) := by
  induction es generalizing a s with
  | nil => exact h
  | cons e es ih => exact ih (h.collect e)

theorem collected_foldl (a : ScurveFitter) (es : List ScurveEntry) :
    (es.foldl collect a).collected = a.collected ++ es := by
  induction es generalizing a with
  | nil => exact (List.append_nil _).symm
  | cons e es ih =>
      have hone : (a.collect e).collected = a.collected ++ [e] := by
        unfold collect
        dsimp only
        split <;> rfl
      rw [List.foldl_cons, ih, hone, List.append_assoc, List.singleton_append]

end ScurveFitter

/-! ## The steps of the threshold loop -/

namespace ThresholdLoop

variable (l : ThresholdLoop)

def min : Nat := l.range.min.toUInt32.toNat

def max : Nat := l.range.max.toUInt32.toNat

def step : Nat := l.range.step.toNat

theorem step_pos : 0 < l.step := l.range.step_pos

variable {l}

theorem Ordinary.bounds (h : l.Ordinary) :
    (l.min : Int) = l.range.min.toInt ∧ (l.max : Int) = l.range.max.toInt ∧ l.min ≤ l.max := by
  rcases h with ⟨hmin, hroom⟩
  have hle : l.range.min.toInt ≤ l.range.max.toInt := Int32.le_iff_toInt_le.mp l.range.min_le_max
  have hmin' := toInt_toInt32 l.range.min.toUInt32
  have hmax' := toInt_toInt32 l.range.max.toUInt32
  have hltmin := l.range.min.toUInt32.toNat_lt
  have hltmax := l.range.max.toUInt32.toNat_lt
  change l.range.min.toInt = _ at hmin'
  change l.range.max.toInt = _ at hmax'
  unfold min max
  split_ifs at hmin' hmax' <;> omega

/-- From a threshold on, the loop takes every step up to the maximum. -/
theorem Ordinary.visited_from (h : l.Ordinary) {m_cur : UInt32} {vs : List UInt32}
    (hvs : (ScanLoop.parameter l.range).Visits m_cur vs) (hcur : m_cur.toNat ≤ l.max) :
    vs.map UInt32.toNat
      = (List.range ((l.max - m_cur.toNat) / l.step + 1)).map fun j =>
        m_cur.toNat + j * l.step := by
  have hpos := l.step_pos
  have hmax := h.bounds.2.1
  have hroom := h.2
  have hsigned : ∀ m : UInt32, m.toNat ≤ l.max →
      (m + l.range.step).toInt32.toInt = m.toNat + l.step ∧
        (m + l.range.step).toNat = m.toNat + l.step := by
    intro m hm
    have hcur : m.toInt32.toInt = m.toNat := by
      rw [toInt_toInt32, if_pos (by omega)]
    have hstep : m.toInt32.toInt + l.range.step.toNat < 2 ^ 31 := by omega
    refine ⟨by rw [toInt_step hstep, hcur]; rfl, ?_⟩
    rw [UInt32.toNat_add]
    exact Nat.mod_eq_of_lt (by omega)
  induction hvs with
  | @last m_cur hstop =>
      have hnext := (hsigned m_cur hcur).1
      have hover : l.max - m_cur.toNat < l.step := by
        simp only [ScanLoop.goesOn, ScanLoop.getStep, decide_eq_false_iff_not, not_not,
          Int32.lt_iff_toInt_lt, hnext] at hstop
        omega
      rw [Nat.div_eq_of_lt hover]
      simp
  | @next m_cur rest hgo hrest ih =>
      have hnext := hsigned m_cur hcur
      have hon : m_cur.toNat + l.step ≤ l.max := by
        simp only [ScanLoop.goesOn, ScanLoop.getStep, decide_eq_true_eq,
          Int32.lt_iff_toInt_lt, hnext.1] at hgo
        omega
      have hsub : l.max - m_cur.toNat = l.max - (m_cur.toNat + l.step) + l.step := by omega
      have hrest := ih (by rw [ScanLoop.getStep, hnext.2]; exact hon)
      rw [ScanLoop.getStep, hnext.2] at hrest
      rw [List.map_cons, hrest, hsub, Nat.add_div_right _ hpos]
      generalize (l.max - (m_cur.toNat + l.step)) / l.step = q
      have hsplit : List.range (q + 1 + 1) = 0 :: (List.range (q + 1)).map Nat.succ :=
        List.range_succ_eq_map
      rw [hsplit, List.map_cons, List.map_map, Nat.zero_mul, Nat.add_zero]
      congr 1
      apply List.map_congr_left
      intro j _
      rw [Function.comp_apply, Nat.succ_mul]
      omega

theorem Ordinary.visited_eq (h : l.Ordinary) :
    l.visited.map UInt32.toNat
      = (List.range ((l.max - l.min) / l.step + 1)).map fun j => l.min + j * l.step :=
  h.visited_from l.visits h.bounds.2.2

theorem Ordinary.pairwise (h : l.Ordinary) :
    l.visited.Pairwise fun v w => v.toNat ≤ w.toNat := by
  have hsorted : (l.visited.map UInt32.toNat).Pairwise (· ≤ ·) := by
    rw [h.visited_eq, List.pairwise_map]
    exact List.pairwise_lt_range.imp fun {i j} hij =>
      Nat.add_le_add_left (Nat.mul_le_mul_right _ (Nat.le_of_lt hij)) _
  exact List.pairwise_map.mp hsorted

theorem Ordinary.mem_visited (h : l.Ordinary) {v : UInt32} (hv : v ∈ l.visited) :
    ∃ j ≤ (l.max - l.min) / l.step, v.toNat = l.min + j * l.step := by
  have hmem := List.mem_map_of_mem (f := UInt32.toNat) hv
  rw [h.visited_eq] at hmem
  rcases List.mem_map.mp hmem with ⟨j, hj, hv⟩
  exact ⟨j, Nat.le_of_lt_succ (List.mem_range.mp hj), hv.symm⟩

end ThresholdLoop

/-! ## The bins of a curve -/

namespace Scurve

/-- What the points at a threshold add up to. -/
def sumAt (points : List (UInt32 × ℚ)) (v : Nat) : ℚ :=
  ((points.filter fun p => p.1.toNat = v).map Prod.snd).sum

/-- A curve that has a bin around each of the thresholds `min + j * step`. -/
structure Binned (min step n : Nat) (c : Scurve) : Prop where
  bins : c.bins = n
  xlow : c.xlow = min - step / 2
  xhigh : c.xhigh = min + n * step - step / 2
  data : c.data = (List.range n).map fun j => sumAt c.points (min + j * step)

theorem sumAt_concat (points : List (UInt32 × ℚ)) (x : UInt32) (v : ℚ) (n : Nat) :
    sumAt (points ++ [(x, v)]) n = sumAt points n + if x.toNat = n then v else 0 := by
  unfold sumAt
  rw [List.filter_append, List.map_append, List.sum_append]
  by_cases hx : x.toNat = n <;> simp [hx]

theorem Binned.fill {min step n : Nat} (hstep : 0 < step) {c : Scurve} (h : Binned min step n c)
    {x : UInt32} {j : Nat} (hj : j < n) (hx : x.toNat = min + j * step) (v : ℚ) :
    Binned min step n (c.fill x v) := by
  rcases h with ⟨hbins, hlow, hhigh, hdata⟩
  have hstepQ : (0 : ℚ) < step := by exact_mod_cast hstep
  have hxQ : (x.toNat : ℚ) = min + j * step := by exact_mod_cast hx
  have hjn : (j : ℚ) + 1 ≤ n := by exact_mod_cast hj
  have hnQ : (0 : ℚ) < n := lt_of_lt_of_le (by positivity) hjn
  have hwidth : c.binWidth = step := by
    have hdiff : c.xhigh - c.xlow = n * step := by rw [hlow, hhigh]; ring
    rw [binWidth, hdiff, hbins]
    exact mul_div_cancel_left₀ _ hnQ.ne'
  have hbelow : ¬ (x.toNat : ℚ) < c.xlow := by
    have hmul : (0 : ℚ) ≤ j * step := by positivity
    rw [hxQ, hlow]
    linarith
  have habove : ¬ c.xhigh ≤ (x.toNat : ℚ) := by
    have hmul : ((j : ℚ) + 1) * step ≤ n * step := mul_le_mul_of_nonneg_right hjn hstepQ.le
    rw [hxQ, hhigh]
    linarith
  have hbin : ((x.toNat - c.xlow) / c.binWidth).floor.toNat = j := by
    have hquot : ((x.toNat : ℚ) - c.xlow) / c.binWidth = j + 1 / 2 := by
      rw [hwidth, hxQ, hlow]
      field_simp
      ring
    have hfloor : ((j : ℚ) + 1 / 2).floor = j := by
      have hle : ((j : ℤ) : ℚ) ≤ (j : ℚ) + 1 / 2 := by simp
      have hlt : (j : ℚ) + 1 / 2 < ((j : ℤ) : ℚ) + 1 := by
        rw [Int.cast_natCast]
        linarith
      exact Int.floor_eq_iff.mpr ⟨hle, hlt⟩
    rw [hquot, hfloor, Int.toNat_natCast]
  have hfill : c.fill x v
      = { c with points := c.points ++ [(x, v)], data := c.data.modify j (· + v) } := by
    have hwidth' : ({ c with points := c.points ++ [(x, v)] } : Scurve).binWidth = c.binWidth :=
      rfl
    simp only [Scurve.fill, if_neg hbelow, if_neg habove, hwidth', hbin]
  rw [hfill]
  refine ⟨hbins, hlow, hhigh, ?_⟩
  apply List.ext_getElem
  · simp [hdata]
  · intro i hi hi'
    have hin : i < n := by simpa using hi'
    have hlen : i < c.data.length := by simpa [hdata] using hin
    have hdatai : c.data[i] = sumAt c.points (min + i * step) := by simp [hdata]
    rw [List.getElem_modify, hdatai, List.getElem_map, List.getElem_range, sumAt_concat]
    have hsame : x.toNat = min + i * step ↔ j = i := by
      rw [hx, Nat.add_left_cancel_iff, Nat.mul_left_inj hstep.ne']
    by_cases hji : j = i
    · rw [if_pos hji, if_pos (hsame.mpr hji)]
    · rw [if_neg hji, if_neg fun heq => hji (hsame.mp heq), add_zero]

theorem binned_new (name : String) (min step n : Nat) :
    Binned min step n (.new name n (min - step / 2) (min + n * step - step / 2)) := by
  refine ⟨rfl, rfl, rfl, ?_⟩
  apply List.ext_getElem
  · simp [Scurve.new]
  · intro i _ _
    simp [Scurve.new, sumAt]

@[simp] theorem points_fill (c : Scurve) (x : UInt32) (v : ℚ) :
    (c.fill x v).points = c.points ++ [(x, v)] := by
  unfold Scurve.fill
  dsimp only
  split
  · rfl
  · split <;> rfl

end Scurve

/-! ## Full scans -/

namespace ScurveNest

variable (nest : ScurveNest) (contents : LoopStatus → Histo2d)

/-- One map for every position of the scan. -/
def scanMaps : List (LoopStatus × Histo2d) := nest.points.map fun stat => (stat, contents stat)

def start : ScurveFitter := { nest.scan with }

/-- The pixel and the outer position that an entry is for. -/
def placeOf (e : ScurveEntry) : (Nat × Nat) × List UInt32 := ((e.col, e.row), nest.outerOf e.stat)

/-- Each place has an identifier of its own, under which its entries are collected, and gives
one curve with all its entries, a bin for each step of the threshold loop. -/
structure Grouped (a : ScurveFitter) : Prop where
  one_ident : ∀ e ∈ a.collected, ∀ e' ∈ a.collected,
    nest.placeOf e = nest.placeOf e' → e.ident = e'.ident
  own_ident : ∀ e ∈ a.collected, ∀ e' ∈ a.collected,
    e.ident = e'.ident → nest.placeOf e = nest.placeOf e'
  one_curve : ∀ e ∈ a.collected, ∃ c : Scurve,
    (a.fitted.filter fun f => nest.placeOf f.1 = nest.placeOf e).map Prod.snd = [c] ∧
      c.points = (a.collected.filter fun e' => nest.placeOf e' = nest.placeOf e).map
        (fun e' => (nest.vcalOf e'.stat, e'.hits)) ∧
      c.data = nest.vcal.visited.map fun v =>
        ((a.collected.filter fun e' =>
          nest.placeOf e' = nest.placeOf e ∧ nest.vcalOf e'.stat = v).map ScurveEntry.hits).sum

/-- The offsets of the hit pixels, each shifted once for every hit pixel before it in its map,
keep exactly the places apart, and every place with a hit has one at the last threshold. -/
structure WellGrouped : Prop where
  codes : ∀ stat ∈ nest.points, ∀ stat' ∈ nest.points, ∀ (k k' : Nat) (p p' : Nat × Nat),
    (nest.scan.hitPixels (contents stat))[k]? = some p →
    (nest.scan.hitPixels (contents stat'))[k']? = some p' →
    (nest.codeOf stat (contents stat) k p = nest.codeOf stat' (contents stat') k' p' ↔
      p = p' ∧ nest.outerOf stat = nest.outerOf stat')
  closes : ∀ stat ∈ nest.points, ∀ p ∈ nest.scan.hitPixels (contents stat),
    (nest.points.countP fun stat' => nest.outerOf stat' = nest.outerOf stat ∧
      nest.vcal.range.max.toUInt32 ≤ nest.vcalOf stat' ∧
      p ∈ nest.scan.hitPixels (contents stat')) = 1

/-- The entries of the scan. -/
def entries : List ScurveEntry :=
  nest.points.flatMap fun stat => nest.scan.entriesOf stat (contents stat)

theorem mem_entries {e : ScurveEntry} : e ∈ nest.entries contents ↔
    ∃ stat ∈ nest.points, ∃ k p, (nest.scan.hitPixels (contents stat))[k]? = some p ∧
      nest.entryOf stat (contents stat) (p, k) = e := by
  simp only [entries, List.mem_flatMap, mem_entriesOf]

/-! ### The run -/

variable {nest contents} {feed : List OccupancyAnalysis.Input}

theorem run_start (hfeed : (feed.filter ScurveFitter.isOccupancy).map (fun i => (i.stat, i.histo))
      = nest.scanMaps contents) :
    nest.start.run feed = (nest.entries contents).foldl ScurveFitter.collect nest.start := by
  rw [ScurveFitter.run_eq]
  congr 1
  have hmap := congrArg (fun maps : List (LoopStatus × Histo2d) =>
    maps.flatMap fun i => nest.scan.entriesOf i.1 i.2) hfeed
  simp only [List.flatMap_map, scanMaps] at hmap
  exact hmap

theorem collected_run (hfeed : (feed.filter ScurveFitter.isOccupancy).map
      (fun i => (i.stat, i.histo)) = nest.scanMaps contents) :
    (nest.start.run feed).collected = nest.entries contents := by
  rw [run_start hfeed, ScurveFitter.collected_foldl]
  rfl

theorem fitted_run (hfeed : (feed.filter ScurveFitter.isOccupancy).map
      (fun i => (i.stat, i.histo)) = nest.scanMaps contents) :
    (nest.start.run feed).fitted
      = ((nest.entries contents).foldl (ScurveFitter.curves nest.scan).step .empty).done := by
  have hstart : ScurveFitter.Refines nest.scan nest.start .empty := ⟨rfl, rfl, rfl⟩
  rw [run_start hfeed]
  exact (hstart.foldl _).fitted_eq

theorem vcalLoop_scan : nest.scan.vcalLoop = nest.outer.length := by rw [scan_eq]

theorem last_eq (e : ScurveEntry) : (ScurveFitter.curves nest.scan).last e
    = decide (nest.vcal.range.max.toUInt32 ≤ nest.vcalOf e.stat) := by
  simp only [ScurveFitter.curves, scan_eq]
  rfl

/-! ### Entries in order -/

theorem vcalOf_mem {stat : LoopStatus} (h : stat ∈ nest.points) :
    nest.vcalOf stat ∈ nest.vcal.visited := by
  have hmem : stat.statVec ∈ nested nest.values := by
    rw [← map_statVec_points]
    exact List.mem_map_of_mem h
  have hsplit : ∀ (front : List (List UInt32)) {vs : List UInt32} {back : List (List UInt32)}
      {p : List UInt32}, p ∈ nested (front ++ vs :: back) → p.getD front.length 0 ∈ vs := by
    intro front
    induction front with
    | nil =>
        intro vs back p hp
        rcases List.mem_flatMap.mp hp with ⟨v, hv, hp⟩
        rcases List.mem_map.mp hp with ⟨p', _, rfl⟩
        exact hv
    | cons us front ih =>
        intro vs back p hp
        rcases List.mem_flatMap.mp hp with ⟨v, hv, hp⟩
        rcases List.mem_map.mp hp with ⟨p', hp', rfl⟩
        simpa using ih hp'
  simpa [vcalOf, LoopStatus.get] using hsplit (nest.outer.map ScurveLoop.visited) hmem

/-- Entries of one outer position come in the order of their thresholds. -/
theorem pairwise_entries (h : nest.vcal.Ordinary) :
    (nest.entries contents).Pairwise fun e e' => nest.outerOf e.stat = nest.outerOf e'.stat →
      (nest.vcalOf e.stat).toNat ≤ (nest.vcalOf e'.stat).toNat := by
  have hpoints : nest.points.Pairwise fun stat stat' =>
      nest.outerOf stat = nest.outerOf stat' →
        (nest.vcalOf stat).toNat ≤ (nest.vcalOf stat').toNat := by
    have houter : ∀ vs ∈ nest.outer.map ScurveLoop.visited, vs.Nodup := by
      intro vs hvs
      rcases List.mem_map.mp hvs with ⟨l, _, rfl⟩
      exact l.nodup
    have hnested := pairwise_nested (fun v => Nat.le_refl v.toNat) houter h.pairwise
      (nest.inner.map ScurveLoop.visited)
    rw [List.length_map, ← values, ← map_statVec_points, List.pairwise_map] at hnested
    exact hnested
  have hstat : ∀ {stat : LoopStatus} {e : ScurveEntry},
      e ∈ nest.scan.entriesOf stat (contents stat) → e.stat = stat := by
    intro stat e he
    rcases (nest.mem_entriesOf).mp he with ⟨k, p, _, rfl⟩
    rfl
  rw [entries, List.pairwise_flatMap]
  refine ⟨fun stat _ => ?_, hpoints.imp fun {stat stat'} hle e he e' he' => ?_⟩
  · apply List.Pairwise.imp_of_mem _ (List.pairwise_of_forall fun _ _ => trivial)
    intro e e' he he' _ _
    rw [hstat he, hstat he']
  · rw [hstat he, hstat he']
    exact hle

theorem nodup_pixels (a : ScurveScan) : a.pixels.Nodup := by
  rw [ScurveScan.pixels, List.nodup_flatMap]
  refine ⟨fun col _ => ?_, ?_⟩
  · exact List.nodup_range.map fun row row' h => Nat.succ.inj (Prod.mk.inj h).2
  · apply List.nodup_range.imp
    intro col col' hne p hp hp'
    rcases List.mem_map.mp hp with ⟨row, _, rfl⟩
    rcases List.mem_map.mp hp' with ⟨row', _, heq⟩
    exact hne (Nat.succ.inj (Prod.mk.inj heq).1).symm

theorem map_pixel_entriesOf (stat : LoopStatus) (hh : Histo2d) :
    (nest.scan.entriesOf stat hh).map (fun e => (e.col, e.row)) = nest.scan.hitPixels hh := by
  rw [entriesOf_eq, List.map_map]
  exact List.zipIdx_map_fst 0 _

/-- As many entries of a place close a curve as maps at the last threshold have the pixel. -/
theorem countP_entries (nest : ScurveNest) (contents : LoopStatus → Histo2d) (p : Nat × Nat)
    (q : List UInt32) :
    ((nest.entries contents).countP fun e => nest.placeOf e = (p, q) ∧
        (ScurveFitter.curves nest.scan).last e)
      = nest.points.countP fun stat => nest.outerOf stat = q ∧
        nest.vcal.range.max.toUInt32 ≤ nest.vcalOf stat ∧
        p ∈ nest.scan.hitPixels (contents stat) := by
  unfold entries
  induction nest.points with
  | nil => rfl
  | cons stat points ih =>
      rw [List.flatMap_cons, List.countP_append, ih, List.countP_cons, Nat.add_comm]
      congr 1
      have hnodup : (nest.scan.hitPixels (contents stat)).Nodup := (nodup_pixels _).filter _
      by_cases hq : nest.outerOf stat = q ∧ nest.vcal.range.max.toUInt32 ≤ nest.vcalOf stat
      · have hcount : ((nest.scan.entriesOf stat (contents stat)).countP fun e =>
              nest.placeOf e = (p, q) ∧ (ScurveFitter.curves nest.scan).last e)
            = (nest.scan.hitPixels (contents stat)).count p := by
          rw [← map_pixel_entriesOf, List.count, List.countP_map]
          apply List.countP_congr
          intro e he
          rcases (nest.mem_entriesOf).mp he with ⟨k, p', _, rfl⟩
          simp [placeOf, entryOf, last_eq, hq, Prod.ext_iff]
        rw [hcount, List.Nodup.count hnodup]
        simp [hq]
      · rw [List.countP_eq_zero.mpr, if_neg]
        · simpa [← and_assoc] using fun h1 h2 => absurd ⟨h1, h2⟩ hq
        · intro e he
          rcases (nest.mem_entriesOf).mp he with ⟨k, p', _, rfl⟩
          simp only [placeOf, entryOf, last_eq, Prod.mk.injEq, decide_eq_true_eq]
          exact fun h => hq ⟨h.1.2, h.2⟩

theorem eq_concat_of_countP {α : Type*} {f : α → Nat} {m : Nat} {l : List α}
    (hsorted : l.Pairwise fun a b => f a ≤ f b) (hone : l.countP (fun a => m ≤ f a) = 1) :
    ∃ front z, l = front ++ [z] ∧ (∀ a ∈ front, f a < m) ∧ m ≤ f z := by
  induction l with
  | nil => exact absurd hone Nat.zero_ne_one
  | cons a l ih =>
      rw [List.pairwise_cons] at hsorted
      by_cases ha : m ≤ f a
      · have hnone : l.countP (fun a => m ≤ f a) = 0 := by simpa [ha] using hone
        cases l with
        | nil => exact ⟨[], a, rfl, fun b hb => absurd hb List.not_mem_nil, ha⟩
        | cons b l =>
            have hb := List.countP_eq_zero.mp hnone b List.mem_cons_self
            rw [decide_eq_true_eq] at hb
            exact absurd (Nat.le_trans ha (hsorted.1 b List.mem_cons_self)) hb
      · have hrest : l.countP (fun a => m ≤ f a) = 1 := by simpa [ha] using hone
        rcases ih hsorted.2 hrest with ⟨front, z, rfl, hfront, hz⟩
        refine ⟨a :: front, z, rfl, ?_, hz⟩
        rw [List.forall_mem_cons]
        exact ⟨Nat.lt_of_not_le ha, hfront⟩

/-! ### The curve of a place -/

theorem newCurve_binned (h : nest.vcal.Ordinary)
    (hdvd : nest.vcal.max
      = nest.vcal.min + (nest.vcal.max - nest.vcal.min) / nest.vcal.step * nest.vcal.step)
    (col row : Nat) (stat : LoopStatus) :
    (nest.scan.newCurve col row stat).Binned nest.vcal.min nest.vcal.step
      ((nest.vcal.max - nest.vcal.min) / nest.vcal.step + 1) := by
  have hle := h.bounds.2.2
  have hmax := nest.vcal.range.max.toUInt32.toNat_lt
  have hbins : (nest.scan.vcalBins + 1).toNat
      = (nest.vcal.max - nest.vcal.min) / nest.vcal.step + 1 := by
    have hsub : (nest.vcal.range.max.toUInt32 - nest.vcal.range.min.toUInt32).toNat
        = nest.vcal.max - nest.vcal.min := UInt32.toNat_sub_of_le _ _ hle
    have hdiv := Nat.div_le_self (nest.vcal.max - nest.vcal.min) nest.vcal.step
    have hroom := h.2
    have hpos := nest.vcal.step_pos
    have hmax' := h.bounds.2.1
    rw [scan_eq, UInt32.toNat_add, UInt32.toNat_div, hsub]
    change ((nest.vcal.max - nest.vcal.min) / nest.vcal.step + 1) % 2 ^ 32 = _
    unfold ThresholdLoop.step at hpos hdiv ⊢
    exact Nat.mod_eq_of_lt (by omega)
  have hhigh : (nest.vcal.max : ℚ) + nest.vcal.step / 2
      = nest.vcal.min + (((nest.vcal.max - nest.vcal.min) / nest.vcal.step + 1 : Nat) : ℚ)
        * nest.vcal.step - nest.vcal.step / 2 := by
    have hmaxQ := congrArg (Nat.cast (R := ℚ)) hdvd
    push_cast at hmaxQ ⊢
    rw [hmaxQ]
    ring
  have hnew := Scurve.binned_new (nest.scan.nameOf col row stat) nest.vcal.min nest.vcal.step
    ((nest.vcal.max - nest.vcal.min) / nest.vcal.step + 1)
  rw [← hhigh, ← hbins] at hnew
  rw [← hbins]
  have hsame : nest.scan.newCurve col row stat = .new (nest.scan.nameOf col row stat)
      (nest.scan.vcalBins + 1).toNat (nest.vcal.min - nest.vcal.step / 2)
      (nest.vcal.max + nest.vcal.step / 2) := by
    simp only [ScurveScan.newCurve, scan_eq]
    rfl
  rw [hsame]
  exact hnew

/-- The points of an entry. -/
def pointOf (nest : ScurveNest) (e : ScurveEntry) : UInt32 × ℚ := (nest.vcalOf e.stat, e.hits)

theorem total_binned {min step n : Nat} (hstep : 0 < step) (items : List ScurveEntry)
    (hvcal : ∀ e ∈ items, ∃ j < n, (nest.vcalOf e.stat).toNat = min + j * step) {c : Scurve}
    (hc : c.Binned min step n) :
    ∃ c' : Scurve, (ScurveFitter.curves nest.scan).total (some c) items = some c' ∧
      c'.points = c.points ++ items.map nest.pointOf ∧ c'.Binned min step n := by
  induction items generalizing c with
  | nil => exact ⟨c, rfl, (List.append_nil _).symm, hc⟩
  | cons e items ih =>
      rcases hvcal e List.mem_cons_self with ⟨j, hj, hx⟩
      have hfill := hc.fill hstep hj hx e.hits
      rcases ih (fun e' he' => hvcal e' (List.mem_cons_of_mem _ he')) hfill with
        ⟨c', htotal, hpoints, hbinned⟩
      refine ⟨c', ?_, ?_, hbinned⟩
      · rw [← htotal]
        simp only [Collect.total, List.foldl_cons, Collect.grow, Option.getD_some,
          ScurveFitter.curves, vcalLoop_scan]
        rfl
      · rw [hpoints, Scurve.points_fill, List.append_assoc]
        rfl

theorem total_new {min step n : Nat} (hstep : 0 < step)
    (hnew : ∀ col row stat, (nest.scan.newCurve col row stat).Binned min step n)
    (items : List ScurveEntry) (hne : items ≠ [])
    (hvcal : ∀ e ∈ items, ∃ j < n, (nest.vcalOf e.stat).toNat = min + j * step) :
    ∃ c : Scurve, (ScurveFitter.curves nest.scan).total none items = some c ∧
      c.points = items.map nest.pointOf ∧ c.Binned min step n := by
  cases items with
  | nil => exact absurd rfl hne
  | cons e items =>
      have hfirst : (ScurveFitter.curves nest.scan).total none (e :: items)
          = (ScurveFitter.curves nest.scan).total
            (some (nest.scan.newCurve e.col e.row e.stat)) (e :: items) := rfl
      rcases total_binned hstep (e :: items) hvcal (hnew e.col e.row e.stat) with
        ⟨c, htotal, hpoints, hbinned⟩
      exact ⟨c, hfirst.trans htotal, hpoints, hbinned⟩

theorem sumAt_map (items : List ScurveEntry) (v : UInt32) :
    Scurve.sumAt (items.map nest.pointOf) v.toNat
      = ((items.filter fun e => nest.vcalOf e.stat = v).map ScurveEntry.hits).sum := by
  rw [Scurve.sumAt, List.filter_map, List.map_map]
  congr 2
  apply List.filter_congr
  intro e _
  exact decide_eq_decide.mpr UInt32.toNat_inj

theorem bins_eq (h : nest.vcal.Ordinary) {c : Scurve} (hbinned : c.Binned nest.vcal.min
      nest.vcal.step ((nest.vcal.max - nest.vcal.min) / nest.vcal.step + 1)) :
    c.data = nest.vcal.visited.map fun v => Scurve.sumAt c.points v.toNat := by
  have hmap := congrArg (List.map (Scurve.sumAt c.points)) h.visited_eq
  rw [List.map_map, List.map_map] at hmap
  rw [hbinned.data]
  exact hmap.symm

theorem placeOf_mem {e : ScurveEntry} (he : e ∈ nest.entries contents) :
    ∃ stat ∈ nest.points, ∃ p ∈ nest.scan.hitPixels (contents stat),
      e.stat = stat ∧ nest.placeOf e = (p, nest.outerOf stat) := by
  rcases (nest.mem_entries contents).mp he with ⟨stat, hstat, k, p, hk, rfl⟩
  exact ⟨stat, hstat, p, List.mem_of_getElem? hk, rfl, rfl⟩

/-- A place whose codes are its own and that is closed once has its curve. -/
theorem curve_of_wellGrouped (h : nest.vcal.Ordinary) (hgood : nest.WellGrouped contents)
    (hident : ∀ e ∈ nest.entries contents, ∀ e' ∈ nest.entries contents,
      (e.ident = e'.ident ↔ nest.placeOf e = nest.placeOf e'))
    {e : ScurveEntry} (he : e ∈ nest.entries contents) :
    ∃ c : Scurve, ((((nest.entries contents).foldl (ScurveFitter.curves nest.scan).step
          .empty).done.filter fun f => nest.placeOf f.1 = nest.placeOf e).map Prod.snd = [c]) ∧
      c.points = ((nest.entries contents).filter fun e' =>
        nest.placeOf e' = nest.placeOf e).map nest.pointOf ∧
      c.data = nest.vcal.visited.map fun v => Scurve.sumAt c.points v.toNat := by
  rcases placeOf_mem he with ⟨stat, hstat, p, hp, _, hplace⟩
  have hitems : (ScurveFitter.curves nest.scan).itemsOf e.ident (nest.entries contents)
      = (nest.entries contents).filter fun e' => nest.placeOf e' = nest.placeOf e := by
    apply List.filter_congr
    intro e' he'
    exact decide_eq_decide.mpr (hident e' he' e he)
  have hdone : ∀ d ∈ ((nest.entries contents).foldl (ScurveFitter.curves nest.scan).step
      .empty).done, d.1 ∈ nest.entries contents := by
    intro d hd
    have hmem := List.mem_map_of_mem (f := Prod.fst) hd
    rw [Collect.map_fst_done] at hmem
    exact (List.mem_filter.mp hmem).1
  have hcurves : (ScurveFitter.curves nest.scan).doneOf e.ident
        ((nest.entries contents).foldl (ScurveFitter.curves nest.scan).step .empty).done
      = ((nest.entries contents).foldl (ScurveFitter.curves nest.scan).step .empty).done.filter
        fun f => nest.placeOf f.1 = nest.placeOf e := by
    apply List.filter_congr
    intro d hd
    exact decide_eq_decide.mpr (hident d.1 (hdone d hd) e he)
  have hone : ((nest.entries contents).filter fun e' =>
        nest.placeOf e' = nest.placeOf e).countP
        (fun e' => nest.vcal.max ≤ (nest.vcalOf e'.stat).toNat) = 1 := by
    have hcount := countP_entries nest contents p (nest.outerOf stat)
    rw [hgood.closes stat hstat p hp, ← hplace] at hcount
    rw [List.countP_filter, ← hcount]
    apply List.countP_congr
    intro e' _
    rw [Bool.and_eq_true, decide_eq_true_eq, decide_eq_true_eq, decide_eq_true_eq, last_eq,
      decide_eq_true_eq]
    exact and_comm
  have hsorted : ((nest.entries contents).filter fun e' =>
      nest.placeOf e' = nest.placeOf e).Pairwise fun a b =>
        (nest.vcalOf a.stat).toNat ≤ (nest.vcalOf b.stat).toNat := by
    apply ((pairwise_entries h).filter _).imp_of_mem
    intro a b ha hb hab
    have ha := of_decide_eq_true (List.mem_filter.mp ha).2
    have hb := of_decide_eq_true (List.mem_filter.mp hb).2
    exact hab (congrArg Prod.snd (ha.trans hb.symm))
  have hvisited : ∀ e' ∈ (nest.entries contents).filter
      (fun e' => nest.placeOf e' = nest.placeOf e), nest.vcalOf e'.stat ∈ nest.vcal.visited := by
    intro e' he'
    rcases placeOf_mem (List.mem_filter.mp he').1 with ⟨stat', hstat', _, _, hsame, _⟩
    rw [hsame]
    exact vcalOf_mem hstat'
  rcases eq_concat_of_countP hsorted hone with ⟨front, z, hsplit, hfront, hz⟩
  rw [hsplit] at hvisited
  have hlast : ∀ e', (ScurveFitter.curves nest.scan).last e' = true ↔
      nest.vcal.max ≤ (nest.vcalOf e'.stat).toNat := by
    intro e'
    rw [last_eq, decide_eq_true_eq]
    rfl
  have hopen : ∀ i ∈ front, (ScurveFitter.curves nest.scan).last i = false := by
    intro i hi
    rw [Bool.eq_false_iff, ne_eq, hlast]
    exact Nat.not_le_of_lt (hfront i hi)
  have hgiven := Collect.doneOf_foldl (ScurveFitter.curves nest.scan) (hitems.trans hsplit)
    hopen ((hlast z).mpr hz)
  -- the last threshold is a step of the loop, so the bins are as wide as the steps
  have hdvd : nest.vcal.max
      = nest.vcal.min + (nest.vcal.max - nest.vcal.min) / nest.vcal.step * nest.vcal.step := by
    rcases h.mem_visited (hvisited z (List.mem_append_right _ List.mem_cons_self)) with
      ⟨j, hj, hzj⟩
    have hmul := Nat.mul_le_mul_right nest.vcal.step hj
    have hle := Nat.div_mul_le_self (nest.vcal.max - nest.vcal.min) nest.vcal.step
    have hbounds := h.bounds.2.2
    omega
  have hsteps : ∀ e' ∈ front ++ [z],
      ∃ j < (nest.vcal.max - nest.vcal.min) / nest.vcal.step + 1,
        (nest.vcalOf e'.stat).toNat = nest.vcal.min + j * nest.vcal.step := by
    intro e' he'
    rcases h.mem_visited (hvisited e' he') with ⟨j, hj, hvcal⟩
    exact ⟨j, Nat.lt_succ_of_le hj, hvcal⟩
  rcases total_new nest.vcal.step_pos (newCurve_binned h hdvd) (front ++ [z])
    (List.append_ne_nil_of_right_ne_nil _ (List.cons_ne_nil _ _)) hsteps with
    ⟨c, htotal, hpoints, hbinned⟩
  rw [htotal, hcurves] at hgiven
  refine ⟨c, ?_, by rw [hsplit, hpoints], bins_eq h hbinned⟩
  have hmap := congrArg (List.filterMap id) hgiven
  rw [List.filterMap_map] at hmap
  simpa using hmap

theorem ident_iff_of_codes (hgood : nest.WellGrouped contents) :
    ∀ e ∈ nest.entries contents, ∀ e' ∈ nest.entries contents,
      (e.ident = e'.ident ↔ nest.placeOf e = nest.placeOf e') := by
  intro e he e' he'
  rcases (nest.mem_entries contents).mp he with ⟨stat, hstat, k, p, hk, rfl⟩
  rcases (nest.mem_entries contents).mp he' with ⟨stat', hstat', k', p', hk', rfl⟩
  rw [placeOf, placeOf, Prod.mk.injEq]
  exact hgood.codes stat hstat stat' hstat' k k' p p' hk hk'

theorem grouped_of_wellGrouped (h : nest.vcal.Ordinary) (hgood : nest.WellGrouped contents)
    (hfeed : (feed.filter ScurveFitter.isOccupancy).map (fun i => (i.stat, i.histo))
      = nest.scanMaps contents) : nest.Grouped (nest.start.run feed) := by
  have hident := ident_iff_of_codes hgood
  constructor
  · rw [collected_run hfeed]
    exact fun e he e' he' => (hident e he e' he').mpr
  · rw [collected_run hfeed]
    exact fun e he e' he' => (hident e he e' he').mp
  · rw [collected_run hfeed, fitted_run hfeed]
    intro e he
    rcases curve_of_wellGrouped h hgood hident he with ⟨c, hcurve, hpoints, hdata⟩
    refine ⟨c, hcurve, hpoints, hdata.trans (List.map_congr_left fun v _ => ?_)⟩
    rw [hpoints, sumAt_map, List.filter_filter]
    congr 2
    apply List.filter_congr
    intro e' _
    rw [Bool.and_comm, ← Bool.decide_and]

theorem wellGrouped_of_grouped
    (hfeed : (feed.filter ScurveFitter.isOccupancy).map (fun i => (i.stat, i.histo))
      = nest.scanMaps contents) (hgrouped : nest.Grouped (nest.start.run feed)) :
    nest.WellGrouped contents := by
  rcases hgrouped with ⟨hsame, hown, hcurve⟩
  rw [collected_run hfeed] at hsame hown hcurve
  constructor
  · intro stat hstat stat' hstat' k k' p p' hk hk'
    have he := (nest.mem_entries contents).mpr ⟨stat, hstat, k, p, hk, rfl⟩
    have he' := (nest.mem_entries contents).mpr ⟨stat', hstat', k', p', hk', rfl⟩
    have hiff : nest.placeOf (nest.entryOf stat (contents stat) (p, k))
        = nest.placeOf (nest.entryOf stat' (contents stat') (p', k')) ↔
        p = p' ∧ nest.outerOf stat = nest.outerOf stat' := by
      rw [placeOf, placeOf, Prod.mk.injEq]
      rfl
    rw [← hiff]
    exact ⟨hown _ he _ he', hsame _ he _ he'⟩
  · intro stat hstat p hp
    rcases List.getElem?_of_mem hp with ⟨k, hk⟩
    have he := (nest.mem_entries contents).mpr ⟨stat, hstat, k, p, hk, rfl⟩
    rcases hcurve _ he with ⟨c, hone, _⟩
    rw [fitted_run hfeed] at hone
    have hlen := congrArg List.length hone
    have hlast := Collect.map_fst_done (ScurveFitter.curves nest.scan) (nest.entries contents)
      .empty
    have hcount := congrArg (List.countP fun e => nest.placeOf e
      = nest.placeOf (nest.entryOf stat (contents stat) (p, k))) hlast
    rw [List.length_map, List.length_singleton, ← List.countP_eq_length_filter] at hlen
    rw [List.countP_map] at hcount
    change List.countP (fun f : ScurveEntry × Scurve => decide (nest.placeOf f.1
      = nest.placeOf (nest.entryOf stat (contents stat) (p, k)))) _ = _ at hcount
    rw [hlen] at hcount
    rw [← countP_entries nest contents p (nest.outerOf stat), hcount]
    simp only [Collect.State.empty, List.map_nil, List.nil_append, List.countP_filter]
    apply List.countP_congr
    intro e _
    simp [placeOf, entryOf]

/-- A full scan is grouped exactly if the shifted offsets keep the places apart and each place
is closed once. -/
theorem grouped_iff (nest : ScurveNest) (h : nest.vcal.Ordinary) (contents : LoopStatus → Histo2d)
    (feed : List OccupancyAnalysis.Input)
    (hfeed : (feed.filter ScurveFitter.isOccupancy).map (fun i => (i.stat, i.histo))
      = nest.scanMaps contents) :
    nest.Grouped (nest.start.run feed) ↔ nest.WellGrouped contents :=
  ⟨wellGrouped_of_grouped hfeed, fun hgood => grouped_of_wellGrouped h hgood hfeed⟩

/-- Two thresholds, a hit in the one pixel at each. -/
def zeroOrOne : ThresholdLoop where
  range := ⟨0, 1, 1, Index.zero_le_one, Index.zero_lt_one⟩
  getParName := some "InjVcalDiff"
  visited := [0, 1]
  visits := .next rfl (.last rfl)

def onePass : ScurveLoop := ⟨{ style := .mask, getMax := 1 }, [0], List.nodup_singleton 0⟩

def onePixelNest : ScurveNest where
  nCol := 1
  nRow := 1
  m_parametersOfInterest := ["InjVcalDiff"]
  outer := []
  vcal := zeroOrOne
  inner := [onePass]
  isInner_inner := by simp [onePass, LoopActionInfo.isInner]
  isPOILoop_vcal := by decide
  size_le := by decide

def oneHit : Histo2d := (emptyMap 1 1).fill 1 1 1

def feedOf (nest : ScurveNest) (contents : LoopStatus → Histo2d) : List OccupancyAnalysis.Input :=
  (nest.scanMaps contents).map fun i => ⟨"OccupancyMap", i.1, i.2⟩

theorem onePixelNest_grouped : onePixelNest.Grouped
    (onePixelNest.start.run (onePixelNest.feedOf fun _ => oneHit)) := by
  apply (onePixelNest.grouped_iff ⟨by decide, by decide⟩ (fun _ => oneHit) _ rfl).mpr
  have hhits : onePixelNest.scan.hitPixels oneHit = [(1, 1)] := by decide +kernel
  constructor
  · intro stat _ stat' _ k k' p p' hk hk'
    rw [hhits, List.getElem?_singleton] at hk hk'
    have hp : p = (1, 1) := by
      split at hk
      · exact (Option.some.inj hk).symm
      · cases hk
    have hp' : p' = (1, 1) := by
      split at hk'
      · exact (Option.some.inj hk').symm
      · cases hk'
    subst hp
    subst hp'
    exact ⟨fun _ => ⟨rfl, rfl⟩, fun _ => rfl⟩
  · intro stat _ p hp
    rw [hhits, List.mem_singleton] at hp
    subst hp
    change onePixelNest.points.countP (fun stat' => [] = [] ∧ (1 : UInt32) ≤ stat'.get 0 ∧
      (1, 1) ∈ onePixelNest.scan.hitPixels oneHit) = 1
    decide +kernel

/-- An outer loop over 0, 1 and 2 and a matrix of two pixels. -/
def twoPixelNest : ScurveNest where
  nCol := 2
  nRow := 1
  m_parametersOfInterest := ["InjVcalDiff"]
  outer := [⟨{ style := .parameter, getMax := 2, getParName := some "Vff" }, [0, 1, 2],
    by decide⟩]
  vcal := zeroOrOne
  inner := [onePass]
  isInner_inner := by simp [onePass, LoopActionInfo.isInner]
  isPOILoop_vcal := by decide
  size_le := by decide

/-- Both pixels are hit, only the second one at the first threshold of position 1. -/
def lateHit (stat : LoopStatus) : Histo2d :=
  if stat.statVec = [1, 0, 0] then (emptyMap 2 1).fill 2 1 1
  else ((emptyMap 2 1).fill 1 1 1).fill 2 1 1

/-- The second pixel is then filed under two identifiers. -/
theorem twoPixelNest_not_grouped : ¬ twoPixelNest.Grouped
    (twoPixelNest.start.run (twoPixelNest.feedOf lateHit)) := by
  intro h
  have htwo : ((twoPixelNest.start.run (twoPixelNest.feedOf lateHit)).collected.any fun e =>
      (twoPixelNest.start.run (twoPixelNest.feedOf lateHit)).collected.any fun e' =>
        decide (twoPixelNest.placeOf e = twoPixelNest.placeOf e' ∧ e.ident ≠ e'.ident)) = true := by
    decide +kernel
  rcases List.any_eq_true.mp htwo with ⟨e, he, htwo⟩
  rcases List.any_eq_true.mp htwo with ⟨e', he', hboth⟩
  rcases of_decide_eq_true hboth with ⟨hplace, hne⟩
  exact hne (h.one_ident e he e' he' hplace)

end ScurveNest

end Yarr.Scan
