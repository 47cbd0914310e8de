import Mathlib.Algebra.BigOperators.Ring.List
import Mathlib.Data.List.Dedup
import Mathlib.Data.List.Induction
import Mathlib.Data.Nat.ModEq
import Mathlib.Data.UInt
import Mathlib.Tactic.Ring
import Yarr.Scan.OccupancyAnalysis

/-!
# Completeness of the occupancy maps

The analysis gathers maps by key. It puts out one map for each outer position
exactly if its count of the inner positions is right and no two outer
positions share a key.
-/

namespace Yarr.Scan

namespace OccupancyScan

/-! ## What `init` computes -/

theorem initLoop_settings (a : OccupancyScan) (n : Nat) (l : ScanLoop) :
    (a.initLoop n l).toOccupancySettings = a.toOccupancySettings := by
  cases l <;> rfl

theorem initLoop_inner (a : OccupancyScan) (n : Nat) {l : ScanLoop} (h : l.isInner = true) :
    (a.initLoop n l).n_count = a.n_count * expected l ∧ (a.initLoop n l).loops = a.loops ∧
      (a.initLoop n l).loopMax = a.loopMax := by
  cases l with
  | parameter range => simp [ScanLoop.isInner, ScanLoop.style] at h
  | _ => exact ⟨rfl, rfl, rfl⟩

theorem initLoop_outer (a : OccupancyScan) (n : Nat) {l : ScanLoop} (h : l.isInner = false) :
    (a.initLoop n l).n_count = a.n_count ∧ (a.initLoop n l).loops = a.loops ++ [n] ∧
      (a.initLoop n l).loopMax = a.loopMax ++ [l.getMax] := by
  cases l with
  | parameter range => exact ⟨rfl, rfl, rfl⟩
  | _ => simp [ScanLoop.isInner, ScanLoop.style] at h

theorem initLoops_settings (a : OccupancyScan) (n : Nat) (ls : List ScanLoop) :
    (a.initLoops n ls).toOccupancySettings = a.toOccupancySettings := by
  induction ls generalizing a n with
  | nil => rfl
  | cons l ls ih => rw [initLoops, ih, initLoop_settings]

theorem initLoops_n_count (a : OccupancyScan) (n : Nat) (ls : List ScanLoop) :
    (a.initLoops n ls).n_count
      = a.n_count * ((ls.filter ScanLoop.isInner).map expected).prod := by
  induction ls generalizing a n with
  | nil => simp [initLoops]
  | cons l ls ih =>
      rw [initLoops, ih]
      cases hin : l.isInner with
      | true => simp [initLoop_inner a n hin, hin, UInt32.mul_assoc]
      | false => simp [initLoop_outer a n hin, hin]

theorem initLoops_loopMax (a : OccupancyScan) (n : Nat) (ls : List ScanLoop) :
    (a.initLoops n ls).loopMax
      = a.loopMax ++ (ls.filter fun l => !l.isInner).map ScanLoop.getMax := by
  induction ls generalizing a n with
  | nil => simp [initLoops]
  | cons l ls ih =>
      rw [initLoops, ih]
      cases hin : l.isInner with
      | true => simp [initLoop_inner a n hin, hin]
      | false => simp [initLoop_outer a n hin, hin]

theorem initLoops_loops (a : OccupancyScan) (ls : List RunLoop) (before p : List UInt32)
    (hp : p.length = ls.length) :
    ((a.initLoops before.length (ls.map RunLoop.loop)).loops.map fun i => (before ++ p).getD i 0)
      = (a.loops.map fun i => (before ++ p).getD i 0) ++ outerPart ls p := by
  induction ls generalizing a before p with
  | nil =>
      rw [List.eq_nil_of_length_eq_zero hp]
      simp [initLoops, outerPart]
  | cons l ls ih =>
      cases p with
      | nil => simp at hp
      | cons v p =>
          have hrest := ih (a.initLoop before.length l.loop) (before ++ [v]) p (by simpa using hp)
          rw [List.length_append, List.length_singleton, List.append_assoc,
            List.singleton_append] at hrest
          rw [List.map_cons, initLoops, hrest]
          cases hin : l.loop.isInner with
          | true => simp [initLoop_inner a _ hin, outerPart, hin]
          | false => simp [initLoop_outer a _ hin, outerPart, hin]

/-! ## Keys -/

/-- The integer that `init` and `processHistogram` mean a position to have. -/
def weightedSum : List UInt32 → List UInt32 → Nat
  | v :: p, m :: maxima => v.toNat + m.toNat * weightedSum p maxima
  | _, _ => 0

theorem identLoop_toNat (stat : LoopStatus) (ls : List (Nat × UInt32)) (ident offset : UInt64) :
    (identLoop stat ls ident offset).toNat
      = (ident.toNat + offset.toNat * weightedSum (ls.map fun l => stat.get l.1)
          (ls.map Prod.snd)) % 2 ^ 64 := by
  induction ls generalizing ident offset with
  | nil => simp [identLoop, weightedSum, Nat.mod_eq_of_lt ident.toNat_lt]
  | cons l ls ih =>
      obtain ⟨i, m⟩ := l
      rw [identLoop, ih]
      simp only [UInt64.toNat_add, UInt64.toNat_mul, UInt32.toNat_toUInt64, List.map_cons,
        weightedSum]
      have hident : (ident.toNat + (stat.get i).toNat * offset.toNat % 2 ^ 64) % 2 ^ 64
          ≡ ident.toNat + (stat.get i).toNat * offset.toNat [MOD 2 ^ 64] :=
        (Nat.mod_modEq _ _).trans ((Nat.mod_modEq _ _).add_left _)
      have hoffset : offset.toNat * m.toNat % 2 ^ 64 ≡ offset.toNat * m.toNat [MOD 2 ^ 64] :=
        Nat.mod_modEq _ _
      have hsum := hident.add (hoffset.mul_right
        (weightedSum (ls.map fun l => stat.get l.1) (ls.map Prod.snd)))
      have hreorder : ident.toNat + (stat.get i).toNat * offset.toNat + offset.toNat * m.toNat *
            weightedSum (ls.map fun l => stat.get l.1) (ls.map Prod.snd)
          = ident.toNat + offset.toNat * ((stat.get i).toNat + m.toNat *
            weightedSum (ls.map fun l => stat.get l.1) (ls.map Prod.snd)) := by ring
      rw [hreorder] at hsum
      exact hsum

theorem initLoops_length (a : OccupancyScan) (n : Nat) (ls : List ScanLoop)
    (h : a.loops.length = a.loopMax.length) :
    (a.initLoops n ls).loops.length = (a.initLoops n ls).loopMax.length := by
  induction ls generalizing a n with
  | nil => exact h
  | cons l ls ih =>
      apply ih
      cases hin : l.isInner with
      | true =>
          obtain ⟨-, hloops, hmax⟩ := initLoop_inner a n hin
          rw [hloops, hmax, h]
      | false =>
          obtain ⟨-, hloops, hmax⟩ := initLoop_outer a n hin
          rw [hloops, hmax, List.length_append, List.length_append, h]
          rfl

/-- The thresholds that `init` may set do not touch the rest. -/
theorem init_eq (settings : OccupancySettings) (ls : List ScanLoop) :
    (init settings ls).loops = (initLoops { settings with } 0 ls).loops ∧
      (init settings ls).loopMax = (initLoops { settings with } 0 ls).loopMax ∧
      (init settings ls).n_count = (initLoops { settings with } 0 ls).n_count ∧
      (init settings ls).nCol = settings.nCol ∧ (init settings ls).nRow = settings.nRow := by
  have hsettings := initLoops_settings { settings with } 0 ls
  have hcol := congrArg OccupancySettings.nCol hsettings
  have hrow := congrArg OccupancySettings.nRow hsettings
  unfold init
  dsimp only
  split <;> exact ⟨rfl, rfl, rfl, hcol, hrow⟩

variable (settings : OccupancySettings) (nest : Nest)

/-- The analysis after `init` on a nest. -/
def ofNest : OccupancyScan := init settings (nest.loops.map RunLoop.loop)

def outerOf (stat : LoopStatus) : List UInt32 := outerPart nest.loops stat.statVec

def outerMaxima : List UInt32 :=
  (nest.loops.map RunLoop.loop |>.filter fun l => !l.isInner).map ScanLoop.getMax

theorem outerValues_ofNest {stat : LoopStatus} (h : stat.statVec ∈ positions nest.loops) :
    (ofNest settings nest).outerValues stat = outerOf nest stat := by
  have hloops := initLoops_loops { settings with } nest.loops [] stat.statVec
    (length_of_mem_positions h)
  simp only [List.nil_append, List.length_nil, List.map_nil] at hloops
  rw [outerValues, ofNest, (init_eq settings _).1]
  exact hloops

theorem ident_ofNest {stat : LoopStatus} (h : stat.statVec ∈ positions nest.loops) :
    ((ofNest settings nest).ident stat).toNat
      = weightedSum (outerOf nest stat) (outerMaxima nest) % 2 ^ 32 := by
  have hvalues := outerValues_ofNest settings nest h
  have hlen : (ofNest settings nest).loops.length = (ofNest settings nest).loopMax.length := by
    rw [ofNest, (init_eq settings _).1, (init_eq settings _).2.1]
    exact initLoops_length _ _ _ rfl
  have hmax : (ofNest settings nest).loopMax = outerMaxima nest := by
    rw [ofNest, (init_eq settings _).2.1, initLoops_loopMax]
    rfl
  have hfst : ((ofNest settings nest).loops.zip (ofNest settings nest).loopMax).map
      (fun l => stat.get l.1) = outerOf nest stat := by
    rw [← hvalues, outerValues]
    have hzip : ((ofNest settings nest).loops.zip (ofNest settings nest).loopMax).map Prod.fst =
        (ofNest settings nest).loops := List.map_fst_zip hlen.le
    conv_rhs => rw [← hzip, List.map_map]
    rfl
  have hsnd : ((ofNest settings nest).loops.zip (ofNest settings nest).loopMax).map Prod.snd
      = outerMaxima nest := by
    rw [← hmax]
    exact List.map_snd_zip hlen.ge
  rw [ident, UInt64.toNat_toUInt32, identLoop_toNat, hfst, hsnd]
  simp only [UInt64.toNat_zero, UInt64.toNat_one, Nat.zero_add, Nat.one_mul]
  exact Nat.mod_mod_of_dvd _ (by decide)

/-- The steps that the range of a loop lets expect. -/
def stepsExpected (l : ScanLoop) : Nat :=
  Nat.max 1 ((l.getMax - l.getMin).toNat / l.getStep.toNat)

theorem expected_toNat (l : ScanLoop) : (expected l).toNat = stepsExpected l := by
  have hdiv : ((l.getMax - l.getMin) / l.getStep).toNat
      = (l.getMax - l.getMin).toNat / l.getStep.toNat := UInt32.toNat_div _ _
  unfold expected stepsExpected
  dsimp only
  split
  · rename_i h
    have hzero := congrArg UInt32.toNat h
    rw [hdiv] at hzero
    rw [hzero]
    rfl
  · rename_i h
    have hne : (l.getMax - l.getMin).toNat / l.getStep.toNat ≠ 0 := by
      intro hzero
      exact h (UInt32.toNat_inj.mp (hdiv.trans hzero))
    rw [hdiv]
    exact (Nat.max_eq_right (Nat.one_le_iff_ne_zero.mpr hne)).symm

theorem prod_toNat (l : List UInt32) : l.prod.toNat = (l.map UInt32.toNat).prod % 2 ^ 32 := by
  induction l with
  | nil => rfl
  | cons a l ih =>
      rw [List.prod_cons, UInt32.toNat_mul, ih, List.map_cons, List.prod_cons, Nat.mul_mod_mod]

/-- How many maps the analysis waits for. -/
def countExpected : Nat :=
  ((nest.loops.map RunLoop.loop |>.filter ScanLoop.isInner).map stepsExpected).prod

theorem n_count_ofNest : (ofNest settings nest).n_count.toNat = countExpected nest % 2 ^ 32 := by
  rw [ofNest, (init_eq settings _).2.2.1, initLoops_n_count]
  have hone : ∀ n : UInt32, (1 : UInt32) * n = n := fun n => UInt32.one_mul n
  rw [hone, prod_toNat, List.map_map, countExpected]
  congr 3
  funext l
  exact expected_toNat l

end OccupancyScan

/-! ## The analysis gathers by key -/

namespace OccupancyAnalysis

open OccupancyScan

/-- The maps are filed, added up and counted like this. -/
def gather (a : OccupancyScan) : Gather UInt32 (LoopStatus × Histo2d) NamedHisto2d UInt32 where
  key i := a.ident i.1
  new i := ⟨nameOf "OccupancyMap" (a.outerValues i.1), emptyMap a.nCol a.nRow⟩
  add occ i := { occ with histo := occ.histo.add i.2 }
  tick c := c + 1
  full c := c == a.n_count

/-- The state of the analysis is the state of the gathering. -/
structure Refines (scan : OccupancyScan) (a : OccupancyAnalysis)
    (s : Gather.State UInt32 NamedHisto2d UInt32) : Prop where
  scan_eq : a.toOccupancyScan = scan
  occMaps_eq : a.occMaps = s.current
  innerCnt_eq : a.innerCnt = s.count
  output_eq : a.output.map OccupancyResult.occMap = s.done.map Prod.snd

theorem processHistogram_other (a : OccupancyAnalysis) {name : String}
    (h : name ≠ "OccupancyMap") (stat : LoopStatus) (histo : Histo2d) :
    a.processHistogram name stat histo = a := if_pos h

theorem Refines.processHistogram {scan : OccupancyScan} {a : OccupancyAnalysis}
    {s : Gather.State UInt32 NamedHisto2d UInt32} (h : Refines scan a s) (stat : LoopStatus)
    (histo : Histo2d) :
    Refines scan (a.processHistogram "OccupancyMap" stat histo)
      ((gather scan).step s (stat, histo)) := by
  obtain ⟨rfl, hmaps, hcnt, hout⟩ := h
  by_cases hfull : s.count (a.ident stat) + 1 = a.n_count
  · constructor <;>
      simp [OccupancyAnalysis.processHistogram, Gather.step, gather, Gather.grow, hmaps, hcnt,
        hout, hfull]
  · constructor <;>
      simp [OccupancyAnalysis.processHistogram, Gather.step, gather, Gather.grow, hmaps, hcnt,
        hout, hfull]

def Input.isOccupancy (i : Input) : Bool := i.name == "OccupancyMap"

theorem Refines.run {scan : OccupancyScan} {a : OccupancyAnalysis}
    {s : Gather.State UInt32 NamedHisto2d UInt32} (h : Refines scan a s) (feed : List Input) :
    Refines scan (a.run feed)
      (((feed.filter Input.isOccupancy).map fun i => (i.stat, i.histo)).foldl
        (gather scan).step s) := by
  induction feed generalizing a s with
  | nil => exact h
  | cons i feed ih =>
      obtain ⟨name, stat, histo⟩ := i
      rw [OccupancyAnalysis.run, List.foldl_cons, ← OccupancyAnalysis.run]
      by_cases hname : name = "OccupancyMap"
      · subst hname
        exact ih (h.processHistogram stat histo)
      · rw [processHistogram_other a hname]
        have hskip : (Input.isOccupancy ⟨name, stat, histo⟩) = false := by
          simpa [Input.isOccupancy] using hname
        rw [List.filter_cons, hskip]
        exact ih h

/-- Before the first histogram. -/
def start (scan : OccupancyScan) : OccupancyAnalysis := { scan with }

def startState : Gather.State UInt32 NamedHisto2d UInt32 := ⟨fun _ => none, fun _ => 0, []⟩

theorem refines_start (scan : OccupancyScan) : Refines scan (start scan) startState :=
  ⟨rfl, rfl, rfl, rfl⟩

/-! ## Sums of maps -/

section Totals

variable (scan : OccupancyScan)

/-- The bins of a sum of maps are the sums of the bins. -/
theorem total_bins {items : List (LoopStatus × Histo2d)} (hne : items ≠ [])
    (hsize : ∀ i ∈ items, i.2.size = scan.nCol * scan.nRow) :
    ∃ occ, (gather scan).total items = some occ ∧ occ.histo.size = scan.nCol * scan.nRow ∧
      ∀ n, occ.histo.getBin n = (items.map fun i => i.2.getBin n).sum := by
  induction items using List.reverseRecOn with
  | nil => exact absurd rfl hne
  | append_singleton items i ih =>
      have hi := hsize i (List.mem_append_right _ (List.mem_singleton.mpr rfl))
      rw [Gather.total_concat]
      refine ⟨_, rfl, ?_⟩
      by_cases hitems : items = []
      · subst hitems
        have hempty : (emptyMap scan.nCol scan.nRow).size = i.2.size := hi.symm
        refine ⟨Histo2d.size_add _ _, ?_⟩
        intro n
        have hzero : (emptyMap scan.nCol scan.nRow).getBin n = 0 := Histo2d.getBin_new ..
        simp [Gather.total, Gather.grow, gather, Histo2d.getBin_add _ hempty, hzero]
      · obtain ⟨occ, htotal, hocc, hbins⟩ := ih hitems fun j hj =>
          hsize j (List.mem_append_left _ hj)
        rw [htotal]
        refine ⟨(Histo2d.size_add _ _).trans hocc, ?_⟩
        intro n
        simp [Gather.grow, gather, Histo2d.getBin_add _ (hocc.trans hi.symm), hbins]

theorem total_name (i : LoopStatus × Histo2d) (items : List (LoopStatus × Histo2d)) :
    ((gather scan).total (i :: items)).map NamedHisto2d.name
      = some (nameOf "OccupancyMap" (scan.outerValues i.1)) := by
  induction items using List.reverseRecOn with
  | nil => rfl
  | append_singleton items j ih =>
      obtain ⟨occ, htotal, hname⟩ := Option.map_eq_some_iff.mp ih
      rw [← List.cons_append, Gather.total_concat, htotal]
      exact congrArg some hname

end Totals

/-! ## Complete scans -/

section Complete

variable (settings : OccupancySettings) (nest : Nest) (contents : LoopStatus → Histo2d)

/-- One map for every position of the scan. -/
def scanMaps : List (LoopStatus × Histo2d) := nest.points.map fun stat => (stat, contents stat)

def outerPositions : List (List UInt32) := positions (outerLoops nest.loops)

/-- The sum of exactly the maps with an outer position. -/
def expectedMap (q : List UInt32) : String × List ℚ :=
  (nameOf "OccupancyMap" q, (List.range (settings.nCol * settings.nRow)).map fun n =>
    (((scanMaps nest contents).filter fun i => decide (outerOf nest i.1 = q)).map
      fun i => i.2.getBin n).sum)

def filed (occ : NamedHisto2d) : String × List ℚ := (occ.name, occ.histo.data)

/-- Whatever the maps of a full scan hold and whatever else comes in between, one map comes
out for every outer position, the sum of the maps of that position. -/
def Complete : Prop :=
  ∀ (settings : OccupancySettings) (contents : LoopStatus → Histo2d),
    (∀ stat, (contents stat).size = settings.nCol * settings.nRow) →
    ∀ feed : List Input,
      (feed.filter Input.isOccupancy).map (fun i => (i.stat, i.histo)) = scanMaps nest contents →
      (((start (ofNest settings nest)).run feed).output.map fun r => filed r.occMap).Perm
        ((outerPositions nest).map (expectedMap settings nest contents))

/-- The code's count of the inner positions is right and fits its counter, and no two outer
positions have the same key. -/
structure WellCounted : Prop where
  fits : innerCount nest.loops ≤ 2 ^ 32
  counted : countExpected nest ≡ innerCount nest.loops [MOD 2 ^ 32]
  distinct : ∀ q ∈ outerPositions nest, ∀ q' ∈ outerPositions nest,
    weightedSum q (outerMaxima nest) ≡ weightedSum q' (outerMaxima nest) [MOD 2 ^ 32] → q = q'

/-- What was put out after the maps of the scan. -/
def gathered : List (UInt32 × NamedHisto2d) :=
  ((scanMaps nest contents).foldl (gather (ofNest settings nest)).step startState).done

def keyOf (q : List UInt32) : UInt32 := UInt32.ofNat (weightedSum q (outerMaxima nest))

theorem keyOf_eq_iff (q q' : List UInt32) : keyOf nest q = keyOf nest q'
    ↔ weightedSum q (outerMaxima nest) ≡ weightedSum q' (outerMaxima nest) [MOD 2 ^ 32] := by
  rw [← UInt32.toNat_inj, keyOf, keyOf, UInt32.toNat_ofNat', UInt32.toNat_ofNat']
  rfl

theorem statVec_mem {i : LoopStatus × Histo2d} (h : i ∈ scanMaps nest contents) :
    i.1.statVec ∈ positions nest.loops := by
  obtain ⟨stat, hstat, rfl⟩ := List.mem_map.mp h
  rw [← nest.map_statVec_points]
  exact List.mem_map_of_mem hstat

theorem key_eq {i : LoopStatus × Histo2d} (h : i ∈ scanMaps nest contents) :
    (gather (ofNest settings nest)).key i = keyOf nest (outerOf nest i.1) := by
  have hident := ident_ofNest settings nest (statVec_mem nest contents h)
  apply UInt32.toNat_inj.mp
  rw [keyOf, UInt32.toNat_ofNat']
  exact hident

theorem outerOf_mem {i : LoopStatus × Histo2d} (h : i ∈ scanMaps nest contents) :
    outerOf nest i.1 ∈ outerPositions nest :=
  outerPart_mem (statVec_mem nest contents h)

theorem length_filter_outerOf {q : List UInt32} (h : q ∈ outerPositions nest) :
    ((scanMaps nest contents).filter fun i => decide (outerOf nest i.1 = q)).length
      = innerCount nest.loops := by
  rw [← countP_outerPart nest.loops h, ← nest.map_statVec_points, List.countP_map,
    ← List.countP_eq_length_filter, scanMaps, List.countP_map]
  rfl

theorem gathered_of_key (k : UInt32) :
    Gather.doneOf k (gathered settings nest contents)
      = ((gather (ofNest settings nest)).chunks 0 []
          ((gather (ofNest settings nest)).itemsOf k (scanMaps nest contents))).filterMap
        fun chunk => ((gather (ofNest settings nest)).total chunk).map (k, ·) := by
  have h := Gather.doneOf_foldl (gather (ofNest settings nest)) (scanMaps nest contents)
    startState (fun _ => []) (fun _ => rfl) k
  rw [gathered, h]
  rfl

theorem gathered_key_mem {d : UInt32 × NamedHisto2d} (h : d ∈ gathered settings nest contents) :
    d.1 ∈ (outerPositions nest).map (keyOf nest) := by
  rcases Gather.key_of_mem_done _ _ _ h with hstart | ⟨i, hi, hkey⟩
  · exact absurd hstart List.not_mem_nil
  · rw [key_eq settings nest contents hi] at hkey
    rw [← hkey]
    exact List.mem_map_of_mem (outerOf_mem nest contents hi)

theorem gap_of_counted (h : WellCounted nest) :
    Gather.gap (ofNest settings nest).n_count 0 = innerCount nest.loops := by
  apply Gather.gap_zero_eq (innerCount_pos nest.loops) h.fits
  rw [n_count_ofNest]
  exact h.counted

variable (hsize : ∀ stat, (contents stat).size = settings.nCol * settings.nRow)

include hsize in
theorem size_of_mem {i : LoopStatus × Histo2d} (h : i ∈ scanMaps nest contents) :
    i.2.size = (ofNest settings nest).nCol * (ofNest settings nest).nRow := by
  obtain ⟨stat, -, rfl⟩ := List.mem_map.mp h
  obtain ⟨-, -, -, hcol, hrow⟩ := init_eq settings (nest.loops.map RunLoop.loop)
  rw [ofNest, hcol, hrow]
  exact hsize stat

include hsize in
/-- The maps of an outer position add up to the expected map. -/
theorem total_outer {q : List UInt32} (h : q ∈ outerPositions nest) :
    ∃ occ, (gather (ofNest settings nest)).total
        ((scanMaps nest contents).filter fun i => decide (outerOf nest i.1 = q)) = some occ ∧
      filed occ = expectedMap settings nest contents q := by
  obtain ⟨-, -, -, hcol, hrow⟩ := init_eq settings (nest.loops.map RunLoop.loop)
  have hlen := length_filter_outerOf nest contents h
  have hpos := innerCount_pos nest.loops
  obtain ⟨i, items, hitems⟩ := List.exists_cons_of_length_pos (hlen ▸ hpos)
  have hmem : ∀ j ∈ (scanMaps nest contents).filter fun i => decide (outerOf nest i.1 = q),
      j ∈ scanMaps nest contents ∧ outerOf nest j.1 = q := by
    intro j hj
    obtain ⟨hj, hq⟩ := List.mem_filter.mp hj
    exact ⟨hj, of_decide_eq_true hq⟩
  obtain ⟨occ, htotal, hocc, hbins⟩ := total_bins (ofNest settings nest)
    (hitems ▸ List.cons_ne_nil i items)
    fun j hj => size_of_mem settings nest contents hsize (hmem j hj).1
  refine ⟨occ, htotal, ?_⟩
  have hname := total_name (ofNest settings nest) i items
  rw [← hitems, htotal] at hname
  obtain ⟨hi, hq⟩ := hmem i (hitems ▸ List.mem_cons_self)
  rw [outerValues_ofNest settings nest (statVec_mem nest contents hi), hq] at hname
  rw [filed, expectedMap, Histo2d.data_eq, Option.some.inj hname, hocc, ofNest, hcol, hrow]
  exact congrArg (Prod.mk _) (List.map_congr_left fun n _ => hbins n)

include hsize in
theorem gathered_of_position (h : WellCounted nest) {q : List UInt32}
    (hq : q ∈ outerPositions nest) :
    (Gather.doneOf (keyOf nest q) (gathered settings nest contents)).map (filed ∘ Prod.snd)
      = [expectedMap settings nest contents q] := by
  have hitems : (gather (ofNest settings nest)).itemsOf (keyOf nest q) (scanMaps nest contents)
      = (scanMaps nest contents).filter fun i => decide (outerOf nest i.1 = q) := by
    apply List.filter_congr
    intro i hi
    rw [key_eq settings nest contents hi]
    congr 1
    rw [keyOf_eq_iff]
    apply propext
    constructor
    · exact h.distinct _ (outerOf_mem nest contents hi) _ hq
    · intro heq
      rw [heq]
  have hlen := length_filter_outerOf nest contents hq
  have hgap := gap_of_counted settings nest h
  obtain ⟨occ, htotal, hocc⟩ := total_outer settings nest contents hsize hq
  rw [gathered_of_key, hitems, Gather.chunks_of_long (fun _ => rfl) (fun _ => rfl) [] (by omega)]
  rw [hgap, ← hlen, List.take_length, List.drop_length, List.nil_append]
  simp [Gather.chunks, htotal, hocc]

include hsize in
theorem gathered_perm (h : WellCounted nest) :
    ((gathered settings nest contents).map (filed ∘ Prod.snd)).Perm
      ((outerPositions nest).map (expectedMap settings nest contents)) := by
  have hnodup : ((outerPositions nest).map (keyOf nest)).Nodup := by
    apply List.Nodup.map_on _ (nodup_positions _)
    intro q hq q' hq' hkey
    exact h.distinct q hq q' hq' ((keyOf_eq_iff nest q q').mp hkey)
  have hperm := Gather.perm_flatMap_filter Prod.fst hnodup (gathered settings nest contents)
    fun d hd => gathered_key_mem settings nest contents hd
  have hmap := hperm.symm.map (filed ∘ Prod.snd)
  rw [List.flatMap_map, List.map_flatMap] at hmap
  have hone : ((outerPositions nest).flatMap fun q =>
        ((gathered settings nest contents).filter fun d => decide (d.1 = keyOf nest q)).map
          (filed ∘ Prod.snd))
      = (outerPositions nest).map (expectedMap settings nest contents) := by
    rw [← List.flatMap_singleton' ((outerPositions nest).map _), List.flatMap_map]
    apply List.flatMap_congr
    intro q hq
    exact gathered_of_position settings nest contents hsize h hq
  rw [hone] at hmap
  exact hmap

theorem output_of_feed {feed : List Input}
    (hfeed : (feed.filter Input.isOccupancy).map (fun i => (i.stat, i.histo))
      = scanMaps nest contents) :
    ((start (ofNest settings nest)).run feed).output.map (fun r => filed r.occMap)
      = (gathered settings nest contents).map (filed ∘ Prod.snd) := by
  have hrun := (refines_start (ofNest settings nest)).run feed
  have hout := hrun.output_eq
  rw [hfeed] at hout
  have hmap := congrArg (List.map filed) hout
  rw [List.map_map, List.map_map] at hmap
  exact hmap

theorem complete_of_wellCounted (h : WellCounted nest) : Complete nest := by
  intro settings contents hsize feed hfeed
  rw [output_of_feed settings nest contents hfeed]
  exact gathered_perm settings nest contents hsize h

/-! ## Scans of maps with one hit -/

/-- A matrix of one pixel with one hit in it. -/
def oneHit : Histo2d := (emptyMap 1 1).fill 1 1 1

theorem getBin_oneHit : oneHit.getBin 0 = 1 := by decide +kernel

def onePixel : OccupancySettings where
  nCol := 1
  nRow := 1
  nCol_pos := Nat.one_pos
  nRow_pos := Nat.one_pos

theorem size_oneHit : oneHit.size = onePixel.nCol * onePixel.nRow :=
  Histo2d.size_fill _ 1 1 1

theorem sum_bins_oneHit {items : List (LoopStatus × Histo2d)} (h : ∀ i ∈ items, i.2 = oneHit) :
    (items.map fun i => i.2.getBin 0).sum = items.length := by
  have hone : (items.map fun i => i.2.getBin 0) = items.map fun _ => 1 :=
    List.map_congr_left fun i hi => by rw [h i hi, getBin_oneHit]
  rw [hone, List.map_const', List.sum_replicate, nsmul_eq_mul, mul_one]

theorem oneHit_of_mem {i : LoopStatus × Histo2d}
    (h : i ∈ scanMaps nest fun _ => oneHit) : i.2 = oneHit := by
  obtain ⟨stat, -, rfl⟩ := List.mem_map.mp h
  rfl

theorem positions_ne_nil (ls : List RunLoop) : positions ls ≠ [] := by
  induction ls with
  | nil => exact List.cons_ne_nil _ _
  | cons l ls ih =>
      obtain ⟨v, hv⟩ := List.exists_mem_of_ne_nil _ l.visits.ne_nil
      obtain ⟨p, hp⟩ := List.exists_mem_of_ne_nil _ ih
      exact List.ne_nil_of_mem (List.mem_flatMap.mpr ⟨v, hv, List.mem_map_of_mem hp⟩)

/-- The maps under a key in a scan of maps with one hit. -/
def classOf (k : UInt32) : List (LoopStatus × Histo2d) :=
  (gather (ofNest onePixel nest)).itemsOf k (scanMaps nest fun _ => oneHit)

def chunksOf (k : UInt32) : List (List (LoopStatus × Histo2d)) :=
  (gather (ofNest onePixel nest)).chunks 0 [] (classOf nest k)

theorem mem_scanMaps_of_chunk {k : UInt32} {chunk : List (LoopStatus × Histo2d)}
    (h : chunk ∈ chunksOf nest k) : ∀ i ∈ chunk, i ∈ scanMaps nest fun _ => oneHit := by
  intro i hi
  have hpre := Gather.chunks_flatten_prefix (gather (ofNest onePixel nest)) 0 []
    (classOf nest k)
  have hmem := hpre.subset (List.mem_flatten_of_mem h hi)
  exact (List.mem_filter.mp hmem).1

theorem hits_of_key (k : UInt32) :
    (Gather.doneOf k (gathered onePixel nest fun _ => oneHit)).map
        (fun d => d.2.histo.getBin 0)
      = (chunksOf nest k).map fun chunk => (chunk.length : ℚ) := by
  rw [gathered_of_key, ← classOf, ← chunksOf, List.map_filterMap]
  rw [← List.filterMap_eq_map]
  apply List.filterMap_congr
  intro chunk hchunk
  have hmem := mem_scanMaps_of_chunk nest hchunk
  obtain ⟨occ, htotal, -, hbins⟩ := total_bins (ofNest onePixel nest)
    (Gather.ne_nil_of_mem_chunks _ hchunk)
    fun i hi => size_of_mem onePixel nest (fun _ => oneHit) (fun _ => size_oneHit) (hmem i hi)
  rw [htotal]
  simp only [Option.map_some, Function.comp_apply]
  rw [hbins, sum_bins_oneHit fun i hi => oneHit_of_mem nest (hmem i hi)]

/-- The maps of a scan and nothing else. -/
def feedOf (maps : List (LoopStatus × Histo2d)) : List Input :=
  maps.map fun i => ⟨"OccupancyMap", i.1, i.2⟩

theorem feedOf_filter (maps : List (LoopStatus × Histo2d)) :
    ((feedOf maps).filter Input.isOccupancy).map (fun i => (i.stat, i.histo)) = maps := by
  have hall : (feedOf maps).filter Input.isOccupancy = feedOf maps := by
    rw [List.filter_eq_self]
    intro i hi
    obtain ⟨j, -, rfl⟩ := List.mem_map.mp hi
    rfl
  rw [hall, feedOf, List.map_map]
  exact List.map_id _

variable (hcomplete : Complete nest)

include hcomplete in
theorem gathered_oneHit : ((gathered onePixel nest fun _ => oneHit).map (filed ∘ Prod.snd)).Perm
    ((outerPositions nest).map (expectedMap onePixel nest fun _ => oneHit)) := by
  have h := hcomplete onePixel (fun _ => oneHit) (fun _ => size_oneHit)
    (feedOf (scanMaps nest fun _ => oneHit)) (feedOf_filter _)
  rwa [output_of_feed onePixel nest _ (feedOf_filter _)] at h

/-- The bin of the one pixel in a filed map. -/
def pixelBin (m : String × List ℚ) : ℚ := m.2.getD 0 0

theorem pixelBin_expectedMap {q : List UInt32} (h : q ∈ outerPositions nest) :
    pixelBin (expectedMap onePixel nest (fun _ => oneHit) q) = innerCount nest.loops := by
  rw [← length_filter_outerOf nest (fun _ => oneHit) h, ← sum_bins_oneHit]
  · rfl
  · intro i hi
    exact oneHit_of_mem nest (List.mem_filter.mp hi).1

include hcomplete in
theorem length_of_mem_chunksOf {k : UInt32} {chunk : List (LoopStatus × Histo2d)}
    (h : chunk ∈ chunksOf nest k) : chunk.length = innerCount nest.loops := by
  have hhits : (chunk.length : ℚ) ∈ (Gather.doneOf k (gathered onePixel nest fun _ => oneHit)).map
      fun d => d.2.histo.getBin 0 := by
    rw [hits_of_key]
    exact List.mem_map_of_mem h
  obtain ⟨d, hd, hbin⟩ := List.mem_map.mp hhits
  have hmem := (gathered_oneHit nest hcomplete).subset
    (List.mem_map_of_mem (List.mem_filter.mp hd).1)
  obtain ⟨q, hq, hfiled⟩ := List.mem_map.mp hmem
  have hpixel := congrArg pixelBin hfiled
  rw [pixelBin_expectedMap nest hq] at hpixel
  have hd0 : pixelBin ((filed ∘ Prod.snd) d) = d.2.histo.getBin 0 := (Histo2d.getBin_eq _ 0).symm
  rw [hd0, hbin] at hpixel
  exact_mod_cast hpixel.symm

private theorem eq_of_sum_map_eq {ι : Type*} {f g : ι → Nat} {l : List ι}
    (hle : ∀ i ∈ l, f i ≤ g i) (hsum : (l.map f).sum = (l.map g).sum) : ∀ i ∈ l, f i = g i := by
  induction l with
  | nil => exact fun i hi => absurd hi List.not_mem_nil
  | cons i l ih =>
      have htail : (l.map f).sum ≤ (l.map g).sum :=
        List.sum_le_sum fun j hj => hle j (List.mem_cons_of_mem _ hj)
      have hhead := hle i List.mem_cons_self
      simp only [List.map_cons, List.sum_cons] at hsum
      rw [List.forall_mem_cons]
      exact ⟨by omega, ih (fun j hj => hle j (List.mem_cons_of_mem _ hj)) (by omega)⟩

private theorem countP_add_le {ι : Type*} {p p' r : ι → Bool} {l : List ι}
    (hp : ∀ i ∈ l, p i → r i) (hp' : ∀ i ∈ l, p' i → r i) (hne : ∀ i ∈ l, p i → ¬ p' i) :
    l.countP p + l.countP p' ≤ l.countP r := by
  induction l with
  | nil => simp
  | cons i l ih =>
      have hrest := ih (fun j hj => hp j (List.mem_cons_of_mem _ hj))
        (fun j hj => hp' j (List.mem_cons_of_mem _ hj))
        (fun j hj => hne j (List.mem_cons_of_mem _ hj))
      have hi := hp i List.mem_cons_self
      have hi' := hp' i List.mem_cons_self
      have hnei := hne i List.mem_cons_self
      simp only [List.countP_cons]
      cases h : p i <;> cases h' : p' i <;> cases hr : r i <;> simp_all <;> omega

/-- The keys that occur, each once. -/
def scanKeys : List UInt32 := ((outerPositions nest).map (keyOf nest)).dedup

theorem keyOf_mem_scanKeys {q : List UInt32} (hq : q ∈ outerPositions nest) :
    keyOf nest q ∈ scanKeys nest := List.mem_dedup.mpr (List.mem_map_of_mem hq)

theorem sum_length_classOf :
    ((scanKeys nest).map fun k => (classOf nest k).length).sum
      = (outerPositions nest).length * innerCount nest.loops := by
  have hkeys := Gather.perm_flatMap_filter (gather (ofNest onePixel nest)).key
    (List.nodup_dedup _) (scanMaps nest fun _ => oneHit) fun i hi => by
      rw [key_eq onePixel nest _ hi]
      exact keyOf_mem_scanKeys nest (outerOf_mem nest _ hi)
  have houter := Gather.perm_flatMap_filter (fun i => outerOf nest i.1) (nodup_positions _)
    (scanMaps nest fun _ => oneHit) fun i hi => outerOf_mem nest _ hi
  have hlen := hkeys.length_eq.trans houter.length_eq.symm
  rw [List.length_flatMap, List.length_flatMap] at hlen
  have hconst : ((outerPositions nest).map fun q =>
        ((scanMaps nest fun _ => oneHit).filter fun i => decide (outerOf nest i.1 = q)).length)
      = (outerPositions nest).map fun _ => innerCount nest.loops :=
    List.map_congr_left fun q hq => length_filter_outerOf nest _ hq
  rw [← outerPositions, hconst, List.map_const', List.sum_replicate_nat] at hlen
  exact hlen

include hcomplete in
theorem sum_length_chunksOf :
    ((scanKeys nest).map fun k => (chunksOf nest k).length).sum = (outerPositions nest).length := by
  have hperm := Gather.perm_flatMap_filter Prod.fst (List.nodup_dedup _)
    (gathered onePixel nest fun _ => oneHit)
    fun d hd => List.mem_dedup.mpr (gathered_key_mem onePixel nest (fun _ => oneHit) hd)
  have hlen := hperm.length_eq
  have hall := (gathered_oneHit nest hcomplete).length_eq
  rw [List.length_map, List.length_map] at hall
  rw [List.length_flatMap, hall] at hlen
  rw [← hlen, scanKeys]
  congr 1
  apply List.map_congr_left
  intro k _
  have hhits := congrArg List.length (hits_of_key nest k)
  rw [List.length_map, List.length_map] at hhits
  exact hhits.symm

include hcomplete in
theorem length_classOf {k : UInt32} (hk : k ∈ scanKeys nest) :
    (classOf nest k).length = (chunksOf nest k).length * innerCount nest.loops := by
  have hle : ∀ k ∈ scanKeys nest,
      (chunksOf nest k).length * innerCount nest.loops ≤ (classOf nest k).length := by
    intro k _
    have hpre := (Gather.chunks_flatten_prefix (gather (ofNest onePixel nest)) 0 []
      (classOf nest k)).length_le
    rw [List.nil_append, List.length_flatten] at hpre
    have hconst : (chunksOf nest k).map List.length
        = (chunksOf nest k).map fun _ => innerCount nest.loops :=
      List.map_congr_left fun chunk hchunk => length_of_mem_chunksOf nest hcomplete hchunk
    rw [show (gather (ofNest onePixel nest)).chunks 0 [] (classOf nest k) = chunksOf nest k from rfl,
      hconst, List.map_const', List.sum_replicate_nat] at hpre
    exact hpre
  have hsum : ((scanKeys nest).map fun k =>
        (chunksOf nest k).length * innerCount nest.loops).sum
      = ((scanKeys nest).map fun k => (classOf nest k).length).sum := by
    rw [List.sum_map_mul_right, sum_length_chunksOf nest hcomplete, sum_length_classOf]
  exact (eq_of_sum_map_eq hle hsum k hk).symm

theorem length_le_classOf {q : List UInt32} (hq : q ∈ outerPositions nest) :
    innerCount nest.loops ≤ (classOf nest (keyOf nest q)).length := by
  have hlen := length_filter_outerOf nest (fun _ => oneHit) hq
  rw [← List.countP_eq_length_filter] at hlen
  rw [classOf, Gather.itemsOf, ← List.countP_eq_length_filter, ← hlen]
  apply List.countP_mono_left
  intro i hi hiq
  rw [decide_eq_true_eq] at hiq ⊢
  rw [key_eq onePixel nest _ hi, hiq]

/-- Two outer positions under one key have maps for both of them. -/
theorem length_add_le_classOf {q q' : List UInt32} (hq : q ∈ outerPositions nest)
    (hq' : q' ∈ outerPositions nest) (hne : q ≠ q') (hkey : keyOf nest q = keyOf nest q') :
    innerCount nest.loops + innerCount nest.loops ≤ (classOf nest (keyOf nest q)).length := by
  have hlen := length_filter_outerOf nest (fun _ => oneHit) hq
  have hlen' := length_filter_outerOf nest (fun _ => oneHit) hq'
  rw [← List.countP_eq_length_filter] at hlen hlen'
  rw [classOf, Gather.itemsOf, ← List.countP_eq_length_filter]
  have hadd : (scanMaps nest fun _ => oneHit).countP (fun i => decide (outerOf nest i.1 = q))
        + (scanMaps nest fun _ => oneHit).countP (fun i => decide (outerOf nest i.1 = q'))
      ≤ (scanMaps nest fun _ => oneHit).countP fun i =>
        decide ((gather (ofNest onePixel nest)).key i = keyOf nest q) := by
    apply countP_add_le
    · intro i hi hiq
      rw [decide_eq_true_eq] at hiq ⊢
      rw [key_eq onePixel nest _ hi, hiq]
    · intro i hi hiq
      rw [decide_eq_true_eq] at hiq ⊢
      rw [key_eq onePixel nest _ hi, hiq, hkey]
    · intro i _ hiq hiq'
      rw [decide_eq_true_eq] at hiq hiq'
      exact hne (hiq.symm.trans hiq')
  rw [hlen, hlen'] at hadd
  exact hadd

include hcomplete in
/-- The first chunk of a key has as many maps as the counter lets through. A second one would
have `2 ^ 32`. -/
theorem classOf_of_complete (hN : innerCount nest.loops ≠ 2 ^ 32) {q : List UInt32}
    (hq : q ∈ outerPositions nest) :
    Gather.gap (ofNest onePixel nest).n_count 0 = innerCount nest.loops ∧
      (classOf nest (keyOf nest q)).length = innerCount nest.loops := by
  have hclass := length_classOf nest hcomplete (keyOf_mem_scanKeys nest hq)
  have hle := length_le_classOf nest hq
  have hpos := innerCount_pos nest.loops
  have hlong : Gather.gap (ofNest onePixel nest).n_count 0
      ≤ (classOf nest (keyOf nest q)).length := by
    by_contra hshort
    have hnil : chunksOf nest (keyOf nest q) = [] :=
      Gather.chunks_of_short (fun _ => rfl) (fun _ => rfl) [] (Nat.lt_of_not_le hshort)
    rw [hnil] at hclass
    simp only [List.length_nil, Nat.zero_mul] at hclass
    omega
  have hchunks : chunksOf nest (keyOf nest q)
      = (classOf nest (keyOf nest q)).take (Gather.gap (ofNest onePixel nest).n_count 0) ::
        (gather (ofNest onePixel nest)).chunks (ofNest onePixel nest).n_count []
          ((classOf nest (keyOf nest q)).drop (Gather.gap (ofNest onePixel nest).n_count 0)) :=
    Gather.chunks_of_long (fun _ => rfl) (fun _ => rfl) [] hlong
  have hfirst := length_of_mem_chunksOf nest hcomplete (hchunks ▸ List.mem_cons_self)
  rw [List.length_take, Nat.min_eq_left hlong] at hfirst
  refine ⟨hfirst, ?_⟩
  cases hrest : (gather (ofNest onePixel nest)).chunks (ofNest onePixel nest).n_count []
      ((classOf nest (keyOf nest q)).drop (Gather.gap (ofNest onePixel nest).n_count 0)) with
  | nil =>
      rw [hchunks, hrest, List.length_singleton, Nat.one_mul] at hclass
      exact hclass
  | cons second rest =>
      have hlong' : Gather.gap (ofNest onePixel nest).n_count (ofNest onePixel nest).n_count
          ≤ ((classOf nest (keyOf nest q)).drop
            (Gather.gap (ofNest onePixel nest).n_count 0)).length := by
        by_contra hshort
        have hnil := Gather.chunks_of_short (g := gather (ofNest onePixel nest)) (fun _ => rfl)
          (fun _ => rfl) [] (Nat.lt_of_not_le hshort)
        rw [hnil] at hrest
        exact List.cons_ne_nil _ _ hrest.symm
      have hsecond := Gather.chunks_of_long (g := gather (ofNest onePixel nest)) (fun _ => rfl)
        (fun _ => rfl) [] hlong'
      rw [hrest, List.nil_append] at hsecond
      obtain ⟨hhead, -⟩ := List.cons.inj hsecond
      have hmem : second ∈ chunksOf nest (keyOf nest q) := by
        rw [hchunks, hrest]
        exact List.mem_cons_of_mem _ List.mem_cons_self
      have hlen := length_of_mem_chunksOf nest hcomplete hmem
      rw [hhead, List.length_take, Nat.min_eq_left hlong', Gather.gap_self] at hlen
      exact absurd hlen.symm hN

include hcomplete in
theorem wellCounted_of_complete (hN : innerCount nest.loops ≠ 2 ^ 32) : WellCounted nest := by
  obtain ⟨q₀, hq₀⟩ := List.exists_mem_of_ne_nil _ (positions_ne_nil (outerLoops nest.loops))
  obtain ⟨hgap, -⟩ := classOf_of_complete nest hcomplete hN hq₀
  have hcount := n_count_ofNest onePixel nest
  have hpos := innerCount_pos nest.loops
  constructor
  · rw [← hgap]
    exact Gather.gap_le _ _
  · rw [Nat.ModEq, ← hcount, ← hgap, Gather.gap_zero_mod]
  · intro q hq q' hq' hkey
    by_contra hne
    obtain ⟨-, hlen⟩ := classOf_of_complete nest hcomplete hN hq
    have hadd := length_add_le_classOf nest hq hq' hne ((keyOf_eq_iff nest q q').mpr hkey)
    omega

end Complete

end OccupancyAnalysis

end Yarr.Scan
