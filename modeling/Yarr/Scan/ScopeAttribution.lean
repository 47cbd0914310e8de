import Mathlib.Algebra.BigOperators.Group.List.Basic
import Mathlib.Algebra.BigOperators.Ring.List
import Yarr.Scan.ScopeSums
import Yarr.Scan.ScurveGrouping

/-!
# What the precision time maps are made of

Identifiers are sums of loop values, so they tell the positions of one outer
loop apart and those of several only if no two sums agree. Then every
position has its mean maps, and they are made of its own maps alone.
-/

namespace Yarr.Scan

/-! ## Nests -/

/-- A loop with the values it takes. -/
structure ScopeLoop where
  info : ScopeLoopInfo
  visited : List UInt32
  nodup : visited.Nodup
  visited_ne_nil : visited ≠ []

/-- Parameter and feedback loops around mask, trigger and data loops. -/
structure ScopeNest where
  outer : List ScopeLoop
  inner : List ScopeLoop
  outer_ne_nil : outer ≠ []
  isInner_outer : ∀ l ∈ outer, l.info.isInner = false
  isInner_inner : ∀ l ∈ inner, l.info.isInner = true
  size_le : outer.length + inner.length ≤ 8

theorem nested_append (front back : List (List UInt32)) :
    nested (front ++ back)
      = (nested front).flatMap fun q => (nested back).map fun r => q ++ r := by
  induction front with
  | nil => simp [nested]
  | cons vs front ih =>
      rw [List.cons_append, nested, ih, nested, List.flatMap_assoc]
      apply List.flatMap_congr
      intro v _
      rw [List.map_flatMap, List.flatMap_map]
      apply List.flatMap_congr
      intro q _
      rw [List.map_map]
      rfl

theorem nodup_nested {vss : List (List UInt32)} (h : ∀ vs ∈ vss, vs.Nodup) :
    (nested vss).Nodup := by
  induction vss with
  | nil => exact List.nodup_singleton _
  | cons vs vss ih =>
      have hrest := ih fun ws hws => h ws (List.mem_cons_of_mem _ hws)
      rw [nested, List.nodup_flatMap]
      constructor
      · intro v _
        exact hrest.map (List.cons_injective)
      · apply (h vs List.mem_cons_self).imp
        intro v w hvw p hp hq
        rcases List.mem_map.mp hp with ⟨p', _, rfl⟩
        rcases List.mem_map.mp hq with ⟨q', _, hcons⟩
        exact hvw (List.cons.inj hcons).1.symm

theorem nested_ne_nil {vss : List (List UInt32)} (h : ∀ vs ∈ vss, vs ≠ []) :
    nested vss ≠ [] := by
  induction vss with
  | nil => exact List.cons_ne_nil _ _
  | cons vs vss ih =>
      intro hnil
      rw [nested, List.flatMap_eq_nil_iff] at hnil
      rcases List.exists_mem_of_ne_nil vs (h vs List.mem_cons_self) with ⟨v, hv⟩
      have hback := fun ws hws => h ws (List.mem_cons_of_mem vs hws)
      exact ih hback (List.map_eq_nil_iff.mp (hnil v hv))

/-- Behind each choice of the first values come all choices of the others. -/
theorem countP_nested_take {front : List (List UInt32)} (back : List (List UInt32))
    (h : ∀ vs ∈ front, vs.Nodup) {q : List UInt32} (hq : q ∈ nested front) :
    (nested (front ++ back)).countP (fun p => decide (p.take front.length = q))
      = (nested back).length := by
  have hblock : ∀ q' ∈ nested front,
      ((nested back).map fun r => q' ++ r).countP (fun p => decide (p.take front.length = q))
        = if q' = q then (nested back).length else 0 := by
    intro q' hq'
    have htake : ∀ r, (q' ++ r).take front.length = q' := fun r => by
      rw [← length_of_mem_nested hq', List.take_left]
    rw [List.countP_map]
    by_cases heq : q' = q
    · rw [if_pos heq]
      apply List.countP_eq_length.mpr
      intro r _
      exact decide_eq_true ((htake r).trans heq)
    · rw [if_neg heq]
      apply List.countP_eq_zero.mpr
      intro r _ hr
      exact heq ((htake r).symm.trans (of_decide_eq_true hr))
  have hone : (nested front).count q = 1 := List.count_eq_one_of_mem (nodup_nested h) hq
  have hblocks : (nested front).map ((List.countP fun p => decide (p.take front.length = q)) ∘
      fun q' => (nested back).map fun r => q' ++ r)
        = (nested front).map fun q' => if q' = q then (nested back).length else 0 :=
    List.map_congr_left hblock
  rw [nested_append, List.countP_flatMap, hblocks]
  have hsum : ∀ l : List (List UInt32),
      (l.map fun q' => if q' = q then (nested back).length else 0).sum
        = l.count q * (nested back).length := by
    intro l
    induction l with
    | nil => simp
    | cons q' l ih =>
        rw [List.map_cons, List.sum_cons, ih, List.count_cons]
        by_cases heq : q' = q
        · simp [heq, Nat.add_mul, Nat.add_comm]
        · simp [heq]
  rw [hsum, hone, Nat.one_mul]

namespace GroupedScan

/-! ## What `init` computes -/

theorem initLoop_inner (a : GroupedScan) (n : Nat) {l : ScopeLoopInfo}
    (h : l.isInner = true) :
    (a.initLoop n l).m_loops = a.m_loops ∧ (a.initLoop n l).m_loopMax = a.m_loopMax ∧
      (a.initLoop n l).m_n_count = a.m_n_count * l.expected ∧
      (a.initLoop n l).nCol = a.nCol ∧ (a.initLoop n l).nRow = a.nRow := by
  simp only [initLoop, h]
  cases l.isTriggerLoop <;> exact ⟨rfl, rfl, rfl, rfl, rfl⟩

theorem initLoop_outer (a : GroupedScan) (n : Nat) {l : ScopeLoopInfo}
    (h : l.isInner = false) :
    (a.initLoop n l).m_loops = a.m_loops ++ [n] ∧
      (a.initLoop n l).m_loopMax = a.m_loopMax ++ [l.getMax] ∧
      (a.initLoop n l).m_n_count = a.m_n_count ∧
      (a.initLoop n l).nCol = a.nCol ∧ (a.initLoop n l).nRow = a.nRow := by
  simp only [initLoop, h]
  cases l.isTriggerLoop <;> exact ⟨rfl, rfl, rfl, rfl, rfl⟩

theorem initLoops_append (a : GroupedScan) (n : Nat) (ls ls' : List ScopeLoopInfo) :
    a.initLoops n (ls ++ ls') = (a.initLoops n ls).initLoops (n + ls.length) ls' := by
  induction ls generalizing a n with
  | nil => rfl
  | cons l ls ih =>
      rw [List.cons_append, initLoops, ih, initLoops, List.length_cons, Nat.add_right_comm,
        Nat.add_assoc]

theorem initLoops_inner (a : GroupedScan) (n : Nat) {ls : List ScopeLoopInfo}
    (h : ∀ l ∈ ls, l.isInner = true) :
    (a.initLoops n ls).m_loops = a.m_loops ∧ (a.initLoops n ls).m_loopMax = a.m_loopMax ∧
      (a.initLoops n ls).m_n_count = a.m_n_count * (ls.map fun l => l.expected).prod ∧
      (a.initLoops n ls).nCol = a.nCol ∧ (a.initLoops n ls).nRow = a.nRow := by
  induction ls generalizing a n with
  | nil => simp [initLoops]
  | cons l ls ih =>
      have hhead := a.initLoop_inner n (h l List.mem_cons_self)
      have hrest := ih (a.initLoop n l) (n + 1) fun l' hl' => h l' (List.mem_cons_of_mem _ hl')
      rw [initLoops]
      simpa [hhead, UInt32.mul_assoc] using hrest

theorem initLoops_outer (a : GroupedScan) (n : Nat) {ls : List ScopeLoopInfo}
    (h : ∀ l ∈ ls, l.isInner = false) :
    (a.initLoops n ls).m_loops = a.m_loops ++ List.range' n ls.length ∧
      (a.initLoops n ls).m_loopMax = a.m_loopMax ++ ls.map (fun l => l.getMax) ∧
      (a.initLoops n ls).m_n_count = a.m_n_count ∧
      (a.initLoops n ls).nCol = a.nCol ∧ (a.initLoops n ls).nRow = a.nRow := by
  induction ls generalizing a n with
  | nil => simp [initLoops]
  | cons l ls ih =>
      have hhead := a.initLoop_outer n (h l List.mem_cons_self)
      have hrest := ih (a.initLoop n l) (n + 1) fun l' hl' => h l' (List.mem_cons_of_mem _ hl')
      rw [initLoops]
      simpa [hhead, List.range'_succ] using hrest

/-- What the offsets add up to. -/
def offsets : List UInt32 → UInt32 → UInt32
  | [], _ => 0
  | max :: rest, offset => offset + offsets rest (offset + max)

theorem identLoop_eq (stat : LoopStatus) (ls : List (Nat × UInt32)) (ident offset : UInt32) :
    identLoop stat ls ident offset
      = ident + (ls.map fun l => stat.get l.1).sum + offsets (ls.map Prod.snd) offset := by
  induction ls generalizing ident offset with
  | nil => simp [identLoop, offsets]
  | cons l ls ih =>
      rcases l with ⟨loop, max⟩
      rw [identLoop, ih, List.map_cons, List.sum_cons, List.map_cons, offsets]
      grind

end GroupedScan

namespace ScopeNest

variable (nest : ScopeNest)

def infos : List ScopeLoopInfo :=
  nest.outer.map ScopeLoop.info ++ nest.inner.map ScopeLoop.info

def outerValues : List (List UInt32) := nest.outer.map ScopeLoop.visited

def innerValues : List (List UInt32) := nest.inner.map ScopeLoop.visited

/-- The status at every position of the scan. -/
def points : List LoopStatus :=
  (nested (nest.outerValues ++ nest.innerValues)).attach.map fun p =>
    { statVec := p.1
      styleVec := nest.infos.map fun l => l.style
      size_le := by
        have hsize := nest.size_le
        rw [length_of_mem_nested p.2, List.length_append, outerValues, innerValues,
          List.length_map, List.length_map]
        exact hsize
      length_styleVec := by
        rw [length_of_mem_nested p.2, List.length_map, infos, List.length_append,
          List.length_append, outerValues, innerValues]
        simp only [List.length_map] }

theorem map_statVec_points :
    nest.points.map LoopStatus.statVec = nested (nest.outerValues ++ nest.innerValues) := by
  simp [points, Function.comp_def]

/-- The values of the outer loops. -/
def outerOf (stat : LoopStatus) : List UInt32 := stat.statVec.take nest.outer.length

def outerPositions : List (List UInt32) := nested nest.outerValues

def innerCount : Nat := (nested nest.innerValues).length

/-- The scan after `init` on the nest. -/
def scan (nCol nRow : Nat) : GroupedScan :=
  .initLoops { nCol := nCol, nRow := nRow } 0 nest.infos

/-- How many maps of a kind are expected at a position. -/
def expectedCount : UInt32 := (nest.inner.map fun l => l.info.expected).prod

/-- The identifier of a position. -/
def identOf (q : List UInt32) : UInt32 :=
  q.sum + GroupedScan.offsets (nest.outer.map fun l => l.info.getMax) 0

/-- No two positions of the outer loops have the same sum of values. -/
def Distinct : Prop :=
  ∀ q ∈ nest.outerPositions, ∀ q' ∈ nest.outerPositions, q.sum = q'.sum → q = q'

/-- The ranges of the inner loops tell how many positions these take. -/
def Counted : Prop := nest.expectedCount.toNat = nest.innerCount

theorem scan_eq (nCol nRow : Nat) :
    (nest.scan nCol nRow).m_loops = List.range nest.outer.length ∧
      (nest.scan nCol nRow).m_loopMax = nest.outer.map (fun l => l.info.getMax) ∧
      (nest.scan nCol nRow).m_n_count = nest.expectedCount ∧
      (nest.scan nCol nRow).nCol = nCol ∧ (nest.scan nCol nRow).nRow = nRow := by
  have hout := @GroupedScan.initLoops_outer { nCol := nCol, nRow := nRow } 0
    (nest.outer.map ScopeLoop.info) fun l hl => by
      rcases List.mem_map.mp hl with ⟨l', hl', rfl⟩
      exact nest.isInner_outer l' hl'
  have hin := @GroupedScan.initLoops_inner
    (GroupedScan.initLoops { nCol := nCol, nRow := nRow } 0 (nest.outer.map ScopeLoop.info))
    (0 + (nest.outer.map ScopeLoop.info).length)
    (nest.inner.map ScopeLoop.info) fun l hl => by
      rcases List.mem_map.mp hl with ⟨l', hl', rfl⟩
      exact nest.isInner_inner l' hl'
  rw [scan, infos, GroupedScan.initLoops_append, hin.1, hin.2.1, hin.2.2.1, hin.2.2.2.1,
    hin.2.2.2.2, hout.1, hout.2.1, hout.2.2.1, hout.2.2.2.1, hout.2.2.2.2]
  refine ⟨?_, ?_, ?_, rfl, rfl⟩
  · rw [List.nil_append, List.length_map, List.range_eq_range']
  · rw [List.nil_append, List.map_map]
    rfl
  · rw [List.map_map, UInt32.one_mul]
    rfl

theorem length_statVec {stat : LoopStatus} (h : stat ∈ nest.points) :
    stat.statVec.length = nest.outer.length + nest.inner.length := by
  have hmem := List.mem_map_of_mem (f := LoopStatus.statVec) h
  rw [map_statVec_points] at hmem
  rw [length_of_mem_nested hmem, List.length_append, outerValues, innerValues, List.length_map,
    List.length_map]

theorem outerOf_mem {stat : LoopStatus} (h : stat ∈ nest.points) :
    nest.outerOf stat ∈ nest.outerPositions := by
  have hmem := List.mem_map_of_mem (f := LoopStatus.statVec) h
  rw [map_statVec_points, nested_append] at hmem
  rcases List.mem_flatMap.mp hmem with ⟨q, hq, hmem⟩
  rcases List.mem_map.mp hmem with ⟨r, _, hsplit⟩
  have hlen : q.length = nest.outer.length := by
    rw [length_of_mem_nested hq, outerValues, List.length_map]
  rw [outerOf, ← hsplit, ← hlen, List.take_left]
  exact hq

/-- The identifier is the sum of the outer values behind a constant. -/
theorem ident_scan (nCol nRow : Nat) {stat : LoopStatus} (h : stat ∈ nest.points) :
    (nest.scan nCol nRow).ident stat = nest.identOf (nest.outerOf stat) := by
  have hscan := nest.scan_eq nCol nRow
  have hlen := nest.length_statVec h
  have hvalues : ((List.range nest.outer.length).map stat.get) = nest.outerOf stat := by
    apply List.ext_getElem
    · rw [List.length_map, List.length_range, outerOf, List.length_take]
      omega
    · intro i hi _
      rw [List.length_map, List.length_range] at hi
      rw [List.getElem_map, List.getElem_range, LoopStatus.get, List.getD_eq_getElem?_getD,
        List.getElem?_eq_getElem (by omega)]
      simp [outerOf]
  have hfst : ((List.range nest.outer.length).zip
      (nest.outer.map fun l => l.info.getMax)).map (fun l => stat.get l.1)
        = nest.outerOf stat := by
    have hzip : ((List.range nest.outer.length).zip
        (nest.outer.map fun l => l.info.getMax)).map Prod.fst = List.range nest.outer.length :=
      List.map_fst_zip (by simp)
    conv_rhs => rw [← hvalues, ← hzip, List.map_map]
    rfl
  rw [GroupedScan.ident, hscan.1, hscan.2.1, GroupedScan.identLoop_eq, hfst,
    List.map_snd_zip (by simp), UInt32.zero_add]
  rfl

theorem identOf_inj (hdistinct : nest.Distinct) {q q' : List UInt32}
    (hq : q ∈ nest.outerPositions) (hq' : q' ∈ nest.outerPositions) :
    nest.identOf q = nest.identOf q' ↔ q = q' := by
  constructor
  · intro h
    exact hdistinct q hq q' hq' (by
      unfold identOf at h
      grind)
  · rintro rfl
    rfl

theorem distinct_of_single (h : nest.outer.length = 1) : nest.Distinct := by
  rcases List.length_eq_one_iff.mp h with ⟨l, hl⟩
  intro q hq q' hq' hsum
  rw [outerPositions, outerValues, hl] at hq hq'
  simp only [List.map_cons, List.map_nil, nested, List.mem_flatMap, List.mem_singleton] at hq hq'
  rcases hq with ⟨v, _, hq⟩
  rcases hq' with ⟨v', _, hq'⟩
  subst hq
  subst hq'
  simpa using hsum

theorem innerCount_pos : 0 < nest.innerCount := by
  apply List.length_pos_of_ne_nil
  apply nested_ne_nil
  intro vs hvs
  rcases List.mem_map.mp hvs with ⟨l, _, rfl⟩
  exact l.visited_ne_nil

theorem nodup_outerPositions : nest.outerPositions.Nodup := by
  apply nodup_nested
  intro vs hvs
  rcases List.mem_map.mp hvs with ⟨l, _, rfl⟩
  exact l.nodup

/-- The positions of the scan at a position of the outer loops. -/
def pointsAt (q : List UInt32) : List LoopStatus :=
  nest.points.filter fun stat => decide (nest.outerOf stat = q)

theorem length_pointsAt {q : List UInt32} (hq : q ∈ nest.outerPositions) :
    (nest.pointsAt q).length = nest.innerCount := by
  have hnodup : ∀ vs ∈ nest.outerValues, vs.Nodup := by
    intro vs hvs
    rcases List.mem_map.mp hvs with ⟨l, _, rfl⟩
    exact l.nodup
  have hcount := countP_nested_take nest.innerValues hnodup hq
  have hlen : nest.outerValues.length = nest.outer.length := List.length_map _
  rw [← map_statVec_points, List.countP_map, hlen] at hcount
  rw [pointsAt, ← List.countP_eq_length_filter, innerCount, ← hcount]
  rfl

end ScopeNest

/-! ## Full scans -/

section FullScan

variable {π : Type} [DecidableEq π] (nest : ScopeNest) (nCol nRow : Nat) (keeps : Bool)
  {ofName : String → Option π} {outputName : π → String}
  {contents : π → LoopStatus → Histo2d} {feed : List OccupancyAnalysis.Input}

namespace ScopeNest

/-- Of each kind one map comes in for every position, in the order of the loops. Other
histograms and maps of the other kinds may come in between. -/
def FullScan (outputName : π → String) (contents : π → LoopStatus → Histo2d)
    (feed : List OccupancyAnalysis.Input) : Prop :=
  ∀ p, (feed.filter fun i => decide (i.name = outputName p)).map (fun i => (i.stat, i.histo))
    = nest.points.map fun stat => (stat, contents p stat)

/-- All maps of a scan have the size of the matrix. -/
def Fits (contents : π → LoopStatus → Histo2d) : Prop :=
  ∀ p stat, (contents p stat).size = nCol * nRow

/-- The sum of a bin over the maps at a position of the outer loops. -/
def binSum (contents : LoopStatus → Histo2d) (q : List UInt32) (i : Nat) : ℚ :=
  ((nest.pointsAt q).map fun stat => (contents stat).getBin i).sum

def sumsAt (contents : π → LoopStatus → Histo2d) (q : List UInt32) (p : π) : Histo2d :=
  ((nest.pointsAt q).map (contents p)).foldl Histo2d.add (emptyMap nCol nRow)

end ScopeNest

theorem foldl_add_bins (hs : List Histo2d) (acc : Histo2d) (h : ∀ x ∈ hs, x.size = acc.size) :
    (hs.foldl Histo2d.add acc).size = acc.size ∧
      ∀ n, (hs.foldl Histo2d.add acc).getBin n
        = acc.getBin n + (hs.map fun x => x.getBin n).sum := by
  induction hs generalizing acc with
  | nil => simp
  | cons x hs ih =>
      have hx := h x List.mem_cons_self
      have hrest := ih (acc.add x) fun y hy =>
        (h y (List.mem_cons_of_mem _ hy)).trans (acc.size_add x).symm
      rw [List.foldl_cons, hrest.1, acc.size_add]
      refine ⟨rfl, fun n => ?_⟩
      rw [hrest.2, Histo2d.getBin_add _ hx.symm, List.map_cons, List.sum_cons, add_assoc]

omit [DecidableEq π] in
theorem sumsAt_spec (hfits : ScopeNest.Fits nCol nRow contents) (q : List UInt32) (p : π) :
    (nest.sumsAt nCol nRow contents q p).size = nCol * nRow ∧
      ∀ n, (nest.sumsAt nCol nRow contents q p).getBin n = nest.binSum (contents p) q n := by
  have hsize : (emptyMap nCol nRow).size = nCol * nRow := rfl
  have hfold := foldl_add_bins ((nest.pointsAt q).map (contents p)) (emptyMap nCol nRow) (by
    intro x hx
    rcases List.mem_map.mp hx with ⟨stat, _, rfl⟩
    exact (hfits p stat).trans hsize.symm)
  refine ⟨hfold.1.trans hsize, fun n => ?_⟩
  have hzero : (emptyMap nCol nRow).getBin n = 0 := Histo2d.getBin_new ..
  rw [ScopeNest.sumsAt, hfold.2, hzero, zero_add, List.map_map]
  rfl

theorem filter_mapItems (hname : ∀ n p, ofName n = some p ↔ n = outputName p) (p : π)
    (feed : List OccupancyAnalysis.Input) :
    (mapItems ofName feed).filter (fun i => decide (i.1 = p))
      = (feed.filter fun i => decide (i.name = outputName p)).map
        fun i => (p, i.stat, i.histo) := by
  induction feed with
  | nil => rfl
  | cons i feed ih =>
      cases hi : ofName i.name with
      | none =>
          have hne : i.name ≠ outputName p := fun heq => by
            rw [(hname i.name p).mpr heq] at hi
            cases hi
          rw [mapItems_cons_none hi, ih, List.filter_cons_of_neg (by simpa using hne)]
      | some p' =>
          rw [mapItems_cons_some hi]
          by_cases hp : p' = p
          · subst hp
            have heq := (hname i.name p').mp hi
            rw [List.filter_cons_of_pos (by simp), ih,
              List.filter_cons_of_pos (by simpa using heq), List.map_cons]
          · have hne : i.name ≠ outputName p := fun heq => by
              rw [(hname i.name p).mpr heq] at hi
              exact hp (Option.some.inj hi).symm
            rw [List.filter_cons_of_neg (by simpa using hp), ih,
              List.filter_cons_of_neg (by simpa using hne)]

theorem filter_of_fullScan (hname : ∀ n p, ofName n = some p ↔ n = outputName p)
    (hfeed : nest.FullScan outputName contents feed) (p : π) :
    (mapItems ofName feed).filter (fun i => decide (i.1 = p))
      = nest.points.map fun stat => (p, stat, contents p stat) := by
  have hmap := congrArg (List.map fun i : LoopStatus × Histo2d => (p, i.1, i.2)) (hfeed p)
  rw [List.map_map, List.map_map] at hmap
  rw [filter_mapItems hname]
  exact hmap

theorem itemsOf_identOf (hdistinct : nest.Distinct)
    (hname : ∀ n p, ofName n = some p ↔ n = outputName p)
    (hfeed : nest.FullScan outputName contents feed) {q : List UInt32}
    (hq : q ∈ nest.outerPositions) (p : π) :
    ((nest.scan nCol nRow).join keeps).itemsOf (nest.identOf q) p (mapItems ofName feed)
      = (nest.pointsAt q).map fun stat => (p, stat, contents p stat) := by
  have hsplit : ((nest.scan nCol nRow).join keeps).itemsOf (nest.identOf q) p
        (mapItems ofName feed)
      = ((mapItems ofName feed).filter fun i => decide (i.1 = p)).filter
        fun i => decide ((nest.scan nCol nRow).ident i.2.1 = nest.identOf q) := by
    rw [List.filter_filter, Join.itemsOf]
    apply List.filter_congr
    intro i _
    exact Bool.decide_and _ _
  rw [hsplit, filter_of_fullScan nest hname hfeed, List.filter_map, ScopeNest.pointsAt]
  congr 1
  apply List.filter_congr
  intro stat hstat
  have hident := nest.ident_scan nCol nRow hstat
  have hinj := nest.identOf_inj hdistinct (nest.outerOf_mem hstat) hq
  simp only [Function.comp_apply]
  rw [hident]
  exact decide_eq_decide.mpr hinj

theorem key_mem_of_fullScan (hname : ∀ n p, ofName n = some p ↔ n = outputName p)
    (hfeed : nest.FullScan outputName contents feed) {i : π × LoopStatus × Histo2d}
    (hi : i ∈ mapItems ofName feed) :
    (nest.scan nCol nRow).ident i.2.1 ∈ nest.outerPositions.map nest.identOf := by
  have hmem : i ∈ (mapItems ofName feed).filter fun j => decide (j.1 = i.1) :=
    List.mem_filter.mpr ⟨hi, decide_eq_true rfl⟩
  rw [filter_of_fullScan nest hname hfeed] at hmem
  rcases List.mem_map.mp hmem with ⟨stat, hstat, hsame⟩
  rw [← hsame, nest.ident_scan nCol nRow hstat]
  exact List.mem_map_of_mem (nest.outerOf_mem hstat)

/-- Every position of the outer loops is given out once, with the sums of its own maps. -/
theorem join_done [Fintype π] [Nonempty π] (hdistinct : nest.Distinct)
    (hcounted : nest.Counted) (hname : ∀ n p, ofName n = some p ↔ n = outputName p)
    (hfeed : nest.FullScan outputName contents feed) :
    ∃ order : List (List UInt32), order.Perm nest.outerPositions ∧
      ((mapItems ofName feed).foldl ((nest.scan nCol nRow).join keeps).step .empty).done
        = order.map fun q => (nest.identOf q, nest.sumsAt nCol nRow contents q) := by
  have hscan := nest.scan_eq nCol nRow
  have hwanted : ((nest.scan nCol nRow).join keeps (π := π)).wanted.toNat = nest.innerCount :=
    (congrArg UInt32.toNat hscan.2.2.1).trans hcounted
  have hlt : nest.innerCount < 2 ^ 32 := hcounted ▸ UInt32.toNat_lt _
  have hkeys : (nest.outerPositions.map nest.identOf).Nodup :=
    List.Nodup.map_on (fun q hq q' hq' h => (nest.identOf_inj hdistinct hq hq').mp h)
      nest.nodup_outerPositions
  have hperm := ((nest.scan nCol nRow).join keeps).done_perm nest.innerCount_pos hlt hwanted
    hkeys (mapItems ofName feed) (fun i hi => key_mem_of_fullScan nest nCol nRow hname hfeed hi)
    (by
      intro k hk p
      rcases List.mem_map.mp hk with ⟨q, hq, rfl⟩
      rw [itemsOf_identOf nest nCol nRow keeps hdistinct hname hfeed hq, List.length_map,
        nest.length_pointsAt hq])
  have htotals : (nest.outerPositions.map nest.identOf).map (fun k =>
        (k, fun p => ((nest.scan nCol nRow).join keeps).total
          (((nest.scan nCol nRow).join keeps).itemsOf k p (mapItems ofName feed))))
      = nest.outerPositions.map fun q =>
        (nest.identOf q, nest.sumsAt nCol nRow contents q) := by
    rw [List.map_map]
    apply List.map_congr_left
    intro q hq
    refine Prod.ext rfl (funext fun p => ?_)
    dsimp only [Function.comp_apply]
    rw [itemsOf_identOf nest nCol nRow keeps hdistinct hname hfeed hq, Join.total,
      ScopeNest.sumsAt, List.foldl_map, List.foldl_map]
    simp only [GroupedScan.join, hscan.2.2.2.1, hscan.2.2.2.2]
  rw [htotals] at hperm
  have hcomp := congrFun (congrFun (List.eq_map_comp_perm (fun q : List UInt32 =>
    (nest.identOf q, nest.sumsAt nCol nRow contents q))) ((mapItems ofName feed).foldl
      ((nest.scan nCol nRow).join keeps).step .empty).done) nest.outerPositions
  rcases hcomp.mpr hperm with ⟨order, hdone, horder⟩
  exact ⟨order, horder, hdone⟩

end FullScan

/-! ## What comes out -/

def ScopeResult.view (r : ScopeResult) : UInt32 × List ℚ × List ℚ :=
  (r.id, r.meanPToTMap.data, r.meanPToAMap.data)

def ToaResult.view (r : ToaResult) : UInt32 × List ℚ := (r.ident, r.meanPToAMap.data)

theorem ScopeMap.ofName_eq_some (n : String) (p : ScopeMap) :
    ScopeMap.ofName n = some p ↔ n = p.outputName := by
  unfold ScopeMap.ofName
  constructor
  · intro h
    split at h
    · cases h
      assumption
    · split at h
      · cases h
        assumption
      · split at h
        · cases h
          assumption
        · cases h
  · rintro rfl
    cases p <;> rfl

theorem ToaMapKind.ofName_eq_some (n : String) (p : ToaMapKind) :
    ToaMapKind.ofName n = some p ↔ n = p.outputName := by
  unfold ToaMapKind.ofName
  constructor
  · intro h
    split at h
    · cases h
      assumption
    · split at h
      · cases h
        assumption
      · split at h
        · cases h
          assumption
        · cases h
  · rintro rfl
    cases p <;> rfl

theorem GroupedScan.m_injections_initLoops (a : GroupedScan) (n : Nat)
    (ls : List ScopeLoopInfo) :
    (a.initLoops n ls).m_injections = ls.foldl (fun m l =>
      if l.isTriggerLoop then l.trigCnt.getD m else m) a.m_injections := by
  induction ls generalizing a n with
  | nil => rfl
  | cons l ls ih =>
      have hhead : (a.initLoop n l).m_injections
          = if l.isTriggerLoop then l.trigCnt.getD a.m_injections else a.m_injections := by
        unfold initLoop
        cases l.isTriggerLoop <;> cases l.isInner <;> rfl
      rw [initLoops, ih, List.foldl_cons, hhead]

namespace ScopeNest

variable (nest : ScopeNest)

/-- The number of triggers of the last trigger loop. -/
def injections : ℚ :=
  (nest.infos.foldl (fun m l => if l.isTriggerLoop then l.trigCnt.getD m else m)
    (0 : UInt32)).toNat

/-- The quotient of two sums where every injection was seen, zero elsewhere. -/
def fullMean (contents : ScopeMap → LoopStatus → Histo2d) (p : ScopeMap) (q : List UInt32)
    (i : Nat) : ℚ :=
  if nest.binSum (contents .occ) q i = nest.injections then
    nest.binSum (contents p) q i / nest.binSum (contents .occ) q i
  else 0

def scopeMeans (settings : ScopeSettings) (contents : ScopeMap → LoopStatus → Histo2d)
    (q : List UInt32) : UInt32 × List ℚ × List ℚ :=
  (nest.identOf q,
    (List.range (settings.nCol * settings.nRow)).map (nest.fullMean contents .ptot q),
    (List.range (settings.nCol * settings.nRow)).map (nest.fullMean contents .ptoa q))

/-- Two entries for each pixel with full occupancy that is kept. -/
def pulseEntries (settings : ScopeSettings) (contents : ScopeMap → LoopStatus → Histo2d)
    (keep : Nat → Bool) (q : List UInt32) : List (ℚ × ℚ) :=
  ((List.range (settings.nCol * settings.nRow)).filter fun i =>
    decide (nest.binSum (contents .occ) q i = nest.injections) && keep i).flatMap fun i =>
      [(nest.fullMean contents .ptoa q i, ((nest.identOf q).toNat : ℚ)),
        (nest.fullMean contents .ptoa q i + nest.fullMean contents .ptot q i,
          ((nest.identOf q).toNat : ℚ))]

/-- One pair of mean maps for each position of the outer loops, from its own maps, and one
pulse shape with the entries of all of them. -/
def ScopeAttributed (settings : ScopeSettings) (contents : ScopeMap → LoopStatus → Histo2d)
    (keep : Nat → Bool) (a : FrontEndScopeAnalysis) : Prop :=
  ∃ order : List (List UInt32), order.Perm nest.outerPositions ∧
    a.output.map ScopeResult.view = order.map (nest.scopeMeans settings contents) ∧
    (0 < nest.injections → a.h_pulseShapeMap =
      (if settings.m_doPulseShapeMap then thresholdOf nest.infos else none).map fun t =>
        (order.flatMap (nest.pulseEntries settings contents keep)).foldl
          (fun shape e => shape.fill e.1 e.2 1) (settings.newPulseShapeMap t))

def toaMeans (nCol nRow : Nat) (contents : ToaMapKind → LoopStatus → Histo2d)
    (q : List UInt32) : UInt32 × List ℚ :=
  (nest.identOf q, (List.range (nCol * nRow)).map fun i =>
    nest.binSum (contents .ptoa) q i / nest.binSum (contents .occ) q i)

/-- One mean map for each position of the outer loops, from its own maps. -/
def ToaAttributed (nCol nRow : Nat) (contents : ToaMapKind → LoopStatus → Histo2d)
    (a : ToaAnalysis) : Prop :=
  ∃ order : List (List UInt32), order.Perm nest.outerPositions ∧
    a.output.map ToaResult.view = order.map (nest.toaMeans nCol nRow contents)

end ScopeNest

/-! ## The analyses -/

namespace ScopeNest

variable (nest : ScopeNest)

def scopeAnalysis (settings : ScopeSettings) : FrontEndScopeAnalysis :=
  .init settings nest.infos

def toaAnalysis (nCol nRow : Nat) : ToaAnalysis := .init nCol nRow nest.infos

section Scope

variable (settings : ScopeSettings) {contents : ScopeMap → LoopStatus → Histo2d}
  (hfits : Fits settings.nCol settings.nRow contents) (q : List UInt32)

theorem injections_scopeAnalysis : (nest.scopeAnalysis settings).injections
    = nest.injections := by
  have hinit := GroupedScan.m_injections_initLoops
    { nCol := settings.nCol, nRow := settings.nRow } 0 nest.infos
  rw [FrontEndScopeAnalysis.injections, injections]
  exact congrArg (fun n : UInt32 => (n.toNat : ℚ)) hinit

include hfits

theorem fullBins_spec :
    ((nest.scopeAnalysis settings).fullBins
        (nest.sumsAt settings.nCol settings.nRow contents q .occ)).size
          = settings.nCol * settings.nRow ∧
      ∀ i < settings.nCol * settings.nRow, ((nest.scopeAnalysis settings).fullBins
        (nest.sumsAt settings.nCol settings.nRow contents q .occ)).getBin i
          = if nest.binSum (contents .occ) q i = nest.injections then
              nest.binSum (contents .occ) q i else 0 := by
  have hsum := sumsAt_spec nest settings.nCol settings.nRow hfits q .occ
  constructor
  · rw [FrontEndScopeAnalysis.fullBins, Histo2d.size_setWhere, hsum.1]
  · intro i hi
    rw [FrontEndScopeAnalysis.fullBins, Histo2d.getBin_setWhere _ _ _ le_rfl,
      nest.injections_scopeAnalysis, hsum.1, hsum.2]
    by_cases hfull : nest.binSum (contents .occ) q i = nest.injections
    · rw [if_neg fun h => h.2 hfull, if_pos hfull]
    · rw [if_pos ⟨hi, hfull⟩, if_neg hfull]

theorem mean_spec (p : ScopeMap) :
    (((emptyMap settings.nCol settings.nRow).add
        (nest.sumsAt settings.nCol settings.nRow contents q p)).divide
          ((nest.scopeAnalysis settings).fullBins
            (nest.sumsAt settings.nCol settings.nRow contents q .occ))).size
        = settings.nCol * settings.nRow ∧
      ∀ i < settings.nCol * settings.nRow, (((emptyMap settings.nCol settings.nRow).add
        (nest.sumsAt settings.nCol settings.nRow contents q p)).divide
          ((nest.scopeAnalysis settings).fullBins
            (nest.sumsAt settings.nCol settings.nRow contents q .occ))).getBin i
        = nest.fullMean contents p q i := by
  have hsum := sumsAt_spec nest settings.nCol settings.nRow hfits q p
  have hfull := nest.fullBins_spec settings hfits q
  have hempty : (emptyMap settings.nCol settings.nRow).size = settings.nCol * settings.nRow := rfl
  have hzero : ∀ n, (emptyMap settings.nCol settings.nRow).getBin n = 0 :=
    fun n => Histo2d.getBin_new ..
  have hadd := (emptyMap settings.nCol settings.nRow).size_add
    (nest.sumsAt settings.nCol settings.nRow contents q p)
  constructor
  · rw [Histo2d.size_divide, hadd, hempty]
  · intro i hi
    rw [Histo2d.getBin_divide _ (hadd.trans (hempty.trans hfull.1.symm)),
      Histo2d.getBin_add _ (hempty.trans hsum.1.symm), hzero, zero_add, hsum.2, hfull.2 i hi,
      fullMean]
    split
    · rfl
    · exact div_zero _

theorem view_means : ((nest.scopeAnalysis settings).means (nest.identOf q)
      (nest.sumsAt settings.nCol settings.nRow contents q)).view
    = nest.scopeMeans settings contents q := by
  have hscan := nest.scan_eq settings.nCol settings.nRow
  have hdata : ∀ p, (((emptyMap settings.nCol settings.nRow).add
        (nest.sumsAt settings.nCol settings.nRow contents q p)).divide
          ((nest.scopeAnalysis settings).fullBins
            (nest.sumsAt settings.nCol settings.nRow contents q .occ))).data
      = (List.range (settings.nCol * settings.nRow)).map (nest.fullMean contents p q) := by
    intro p
    have hmean := nest.mean_spec settings hfits q p
    rw [Histo2d.data_eq, hmean.1]
    apply List.map_congr_left
    intro i hi
    exact hmean.2 i (List.mem_range.mp hi)
  have hcol : (nest.scopeAnalysis settings).nCol = settings.nCol := hscan.2.2.2.1
  have hrow : (nest.scopeAnalysis settings).nRow = settings.nRow := hscan.2.2.2.2
  unfold FrontEndScopeAnalysis.means ScopeResult.view scopeMeans
  rw [hcol, hrow, hdata, hdata]

omit hfits in
theorem foldl_fill_pairs (l : List Nat) (taken : Nat → Bool) (rising falling : Nat → ℚ) (y : ℚ)
    (shape : Histo2d) :
    l.foldl (fun shape i =>
        if taken i then (shape.fill (rising i) y 1).fill (falling i) y 1 else shape) shape
      = ((l.filter taken).flatMap fun i => [(rising i, y), (falling i, y)]).foldl
        (fun shape e => shape.fill e.1 e.2 1) shape := by
  induction l generalizing shape with
  | nil => rfl
  | cons i l ih =>
      rw [List.foldl_cons, ih]
      by_cases hi : taken i = true
      · rw [if_pos hi, List.filter_cons_of_pos hi, List.flatMap_cons, List.foldl_append]
        rfl
      · rw [if_neg hi, List.filter_cons_of_neg hi]

/-- With injections, the bins that still hold as many are those with full occupancy. -/
theorem fillPulseShape_eq (hpos : 0 < nest.injections) (shape : Histo2d) :
    settings.fillPulseShape (nest.scopeAnalysis settings).injections (nest.identOf q)
        ((nest.scopeAnalysis settings).fullBins
          (nest.sumsAt settings.nCol settings.nRow contents q .occ))
        ((nest.scopeAnalysis settings).means (nest.identOf q)
          (nest.sumsAt settings.nCol settings.nRow contents q)).meanPToTMap
        ((nest.scopeAnalysis settings).means (nest.identOf q)
          (nest.sumsAt settings.nCol settings.nRow contents q)).meanPToAMap shape
      = (nest.pulseEntries settings contents (fun i => !settings.leavesOut i) q).foldl
        (fun shape e => shape.fill e.1 e.2 1) shape := by
  have hscan := nest.scan_eq settings.nCol settings.nRow
  have hcol : (nest.scopeAnalysis settings).nCol = settings.nCol := hscan.2.2.2.1
  have hrow : (nest.scopeAnalysis settings).nRow = settings.nRow := hscan.2.2.2.2
  have htot := nest.mean_spec settings hfits q .ptot
  have htoa := nest.mean_spec settings hfits q .ptoa
  have hfull := nest.fullBins_spec settings hfits q
  simp only [FrontEndScopeAnalysis.means, hcol, hrow]
  rw [ScopeSettings.fillPulseShape, htoa.1, nest.injections_scopeAnalysis, pulseEntries,
    ← foldl_fill_pairs]
  apply List.foldl_ext
  intro shape i hi
  have hbound := List.mem_range.mp hi
  have hbin : ((nest.scopeAnalysis settings).fullBins
      (nest.sumsAt settings.nCol settings.nRow contents q .occ)).getBin i ≠ nest.injections ↔
        nest.binSum (contents .occ) q i ≠ nest.injections := by
    rw [hfull.2 i hbound]
    by_cases hocc : nest.binSum (contents .occ) q i = nest.injections
    · rw [if_pos hocc]
    · rw [if_neg hocc]
      exact ⟨fun _ => hocc, fun _ => hpos.ne⟩
  dsimp only
  rw [htot.2 i hbound, htoa.2 i hbound]
  by_cases hocc : nest.binSum (contents .occ) q i = nest.injections
  · rw [if_neg fun h => hbin.mp h hocc]
    cases hout : settings.leavesOut i
    · simp [hocc]
    · simp
  · rw [if_pos (hbin.mpr hocc)]
    simp [hocc]

end Scope

theorem shapeOf_off (settings : ScopeSettings)
    (hoff : (if settings.m_doPulseShapeMap then thresholdOf nest.infos else none) = none)
    (done : List (UInt32 × (ScopeMap → Histo2d))) :
    (nest.scopeAnalysis settings).shapeOf done = none := by
  induction done using List.reverseRecOn with
  | nil => rfl
  | append_singleton done d ih =>
      rw [FrontEndScopeAnalysis.shapeOf_concat, FrontEndScopeAnalysis.pulseShape, ih]
      cases ht : thresholdOf nest.infos with
      | none =>
          have hthreshold : (nest.scopeAnalysis settings).threshold = none := ht
          simp only [hthreshold]
      | some t =>
          have hthreshold : (nest.scopeAnalysis settings).threshold = some t := ht
          have hdo : settings.m_doPulseShapeMap = false := by
            cases hdo : settings.m_doPulseShapeMap with
            | false => rfl
            | true =>
                rw [hdo, ht] at hoff
                cases hoff
          have hsettings : (nest.scopeAnalysis settings).settings.m_doPulseShapeMap = false := hdo
          simp only [hthreshold, hsettings]
          rfl

/-- The entries of all positions go into one map, which the first of them makes. -/
theorem shapeOf_on (settings : ScopeSettings) {contents : ScopeMap → LoopStatus → Histo2d}
    (hfits : Fits settings.nCol settings.nRow contents) (hpos : 0 < nest.injections)
    {t : ThresholdRange} (hdo : settings.m_doPulseShapeMap = true)
    (ht : thresholdOf nest.infos = some t) (order : List (List UInt32)) :
    (nest.scopeAnalysis settings).shapeOf (order.map fun q =>
        (nest.identOf q, nest.sumsAt settings.nCol settings.nRow contents q))
      = if order = [] then none
        else some ((order.flatMap (nest.pulseEntries settings contents
          fun i => !settings.leavesOut i)).foldl
            (fun shape e => shape.fill e.1 e.2 1) (settings.newPulseShapeMap t)) := by
  have hthreshold : (nest.scopeAnalysis settings).threshold = some t := ht
  have hsettings : (nest.scopeAnalysis settings).settings.m_doPulseShapeMap = true := hdo
  induction order using List.reverseRecOn with
  | nil => rfl
  | append_singleton order q ih =>
      have hbefore : ((nest.scopeAnalysis settings).shapeOf (order.map fun q =>
            (nest.identOf q, nest.sumsAt settings.nCol settings.nRow contents q))).getD
              (settings.newPulseShapeMap t)
          = (order.flatMap (nest.pulseEntries settings contents
            fun i => !settings.leavesOut i)).foldl
              (fun shape e => shape.fill e.1 e.2 1) (settings.newPulseShapeMap t) := by
        rw [ih]
        by_cases hnil : order = []
        · rw [hnil]
          rfl
        · rw [if_neg hnil]
          rfl
      rw [List.map_append, List.map_singleton, FrontEndScopeAnalysis.shapeOf_concat,
        FrontEndScopeAnalysis.pulseShape]
      simp only [hthreshold, hsettings, if_true]
      rw [if_neg (List.append_ne_nil_of_right_ne_nil _ (List.cons_ne_nil _ _)),
        List.flatMap_append, List.foldl_append, List.flatMap_singleton, ← hbefore]
      exact congrArg some (nest.fillPulseShape_eq settings hfits q hpos _)

/-! ## Attribution -/

theorem outerPositions_ne_nil : nest.outerPositions ≠ [] := by
  apply nested_ne_nil
  intro vs hvs
  rcases List.mem_map.mp hvs with ⟨l, _, rfl⟩
  exact l.visited_ne_nil

theorem scopeAttributed_run (hdistinct : nest.Distinct) (hcounted : nest.Counted)
    (settings : ScopeSettings) {contents : ScopeMap → LoopStatus → Histo2d}
    (hfits : Fits settings.nCol settings.nRow contents) {feed : List OccupancyAnalysis.Input}
    (hfeed : nest.FullScan ScopeMap.outputName contents feed) :
    nest.ScopeAttributed settings contents (fun i => !settings.leavesOut i)
      ((nest.scopeAnalysis settings).run feed) := by
  have hnonempty : Nonempty ScopeMap := ⟨.occ⟩
  rcases join_done nest settings.nCol settings.nRow false hdistinct hcounted
    ScopeMap.ofName_eq_some hfeed with ⟨order, horder, hdone⟩
  rcases (nest.scopeAnalysis settings).run_after (s := .empty) MapSums.refines_empty feed with
    ⟨m, hrun⟩
  have hstart : (nest.scopeAnalysis settings).after {} [] = nest.scopeAnalysis settings := rfl
  have hne : order ≠ [] := by
    rintro rfl
    exact nest.outerPositions_ne_nil horder.nil_eq.symm
  change ((mapItems ScopeMap.ofName feed).foldl
    ((nest.scopeAnalysis settings).join false).step .empty).done = _ at hdone
  change ((nest.scopeAnalysis settings).after {} []).run feed = _ at hrun
  rw [hstart, hdone] at hrun
  rw [hrun]
  refine ⟨order, horder, ?_, fun hpos => ?_⟩
  · rw [FrontEndScopeAnalysis.after]
    dsimp only
    rw [List.map_map, List.map_map]
    apply List.map_congr_left
    intro q _
    exact nest.view_means settings hfits q
  · rw [FrontEndScopeAnalysis.after]
    dsimp only
    cases hdo : settings.m_doPulseShapeMap with
    | false =>
        exact nest.shapeOf_off settings (by rw [hdo]; rfl) _
    | true =>
        rw [if_pos rfl]
        cases ht : thresholdOf nest.infos with
        | none => exact nest.shapeOf_off settings (by rw [hdo, if_pos rfl, ht]) _
        | some t =>
            rw [nest.shapeOf_on settings hfits hpos hdo ht, if_neg hne]
            rfl

theorem toaAttributed_run (hdistinct : nest.Distinct) (hcounted : nest.Counted)
    (nCol nRow : Nat) {contents : ToaMapKind → LoopStatus → Histo2d}
    (hfits : Fits nCol nRow contents) {feed : List OccupancyAnalysis.Input}
    (hfeed : nest.FullScan ToaMapKind.outputName contents feed) :
    nest.ToaAttributed nCol nRow contents ((nest.toaAnalysis nCol nRow).run feed) := by
  have hnonempty : Nonempty ToaMapKind := ⟨.occ⟩
  rcases join_done nest nCol nRow true hdistinct hcounted ToaMapKind.ofName_eq_some hfeed with
    ⟨order, horder, hdone⟩
  rcases (nest.toaAnalysis nCol nRow).run_after (s := .empty) MapSums.refines_empty feed with
    ⟨m, hrun⟩
  have hstart : (nest.toaAnalysis nCol nRow).after {} [] = nest.toaAnalysis nCol nRow := rfl
  change ((mapItems ToaMapKind.ofName feed).foldl
    ((nest.toaAnalysis nCol nRow).join true).step .empty).done = _ at hdone
  change ((nest.toaAnalysis nCol nRow).after {} []).run feed = _ at hrun
  rw [hstart, hdone] at hrun
  rw [hrun]
  refine ⟨order, horder, ?_⟩
  rw [ToaAnalysis.after]
  dsimp only
  rw [List.map_map, List.map_map]
  apply List.map_congr_left
  intro q _
  have hscan := nest.scan_eq nCol nRow
  have hcol : (nest.toaAnalysis nCol nRow).nCol = nCol := hscan.2.2.2.1
  have hrow : (nest.toaAnalysis nCol nRow).nRow = nRow := hscan.2.2.2.2
  have hocc := sumsAt_spec nest nCol nRow hfits q .occ
  have htoa := sumsAt_spec nest nCol nRow hfits q .ptoa
  have hempty : (emptyMap nCol nRow).size = nCol * nRow := rfl
  have hzero : ∀ n, (emptyMap nCol nRow).getBin n = 0 := fun n => Histo2d.getBin_new ..
  have hadd := (emptyMap nCol nRow).size_add (nest.sumsAt nCol nRow contents q .ptoa)
  have hdata : (((emptyMap nCol nRow).add (nest.sumsAt nCol nRow contents q .ptoa)).divide
        (nest.sumsAt nCol nRow contents q .occ)).data
      = (List.range (nCol * nRow)).map fun i =>
        nest.binSum (contents .ptoa) q i / nest.binSum (contents .occ) q i := by
    rw [Histo2d.data_eq, Histo2d.size_divide, hadd, hempty]
    apply List.map_congr_left
    intro i _
    rw [Histo2d.getBin_divide _ (hadd.trans (hempty.trans hocc.1.symm)),
      Histo2d.getBin_add _ (hempty.trans htoa.1.symm), hzero, zero_add, htoa.2, hocc.2]
  unfold Function.comp ToaAnalysis.means ToaResult.view toaMeans
  dsimp only
  rw [hcol, hrow, hdata]

/-- Positions have the same identifier exactly if they are at the same outer values. -/
def IdentsApart (nCol nRow : Nat) : Prop :=
  ∀ stat ∈ nest.points, ∀ stat' ∈ nest.points,
    ((nest.scan nCol nRow).ident stat = (nest.scan nCol nRow).ident stat' ↔
      nest.outerOf stat = nest.outerOf stat')

theorem identsApart_of_distinct (hdistinct : nest.Distinct) (nCol nRow : Nat) :
    nest.IdentsApart nCol nRow := by
  intro stat hstat stat' hstat'
  rw [nest.ident_scan nCol nRow hstat, nest.ident_scan nCol nRow hstat']
  exact nest.identOf_inj hdistinct (nest.outerOf_mem hstat) (nest.outerOf_mem hstat')

/-- A loop over two thresholds. -/
def twoThresholds : ScopeLoop where
  info := { style := .parameter, getMax := 1, getParName := some "DiffVff" }
  visited := [0, 1]
  nodup := by decide
  visited_ne_nil := by decide

/-- Two injections at each position. -/
def twoInjections : ScopeLoop where
  info := { style := .trigger, trigCnt := some 2 }
  visited := [0]
  nodup := Index.nodup_zero
  visited_ne_nil := by decide

def thresholdNest : ScopeNest where
  outer := [twoThresholds]
  inner := [twoInjections]
  outer_ne_nil := by decide
  isInner_outer := by simp [twoThresholds, LoopActionInfo.isInner]
  isInner_inner := by simp [twoInjections, LoopActionInfo.isInner]
  size_le := by decide

def onePixelScope : ScopeSettings where
  nCol := 1
  nRow := 1
  m_exclude_LRCols := false

/-- One hit with three units in all maps. -/
def oneOfTwo (p : ScopeMap) (_ : LoopStatus) : Histo2d :=
  match p with
  | .occ => (emptyMap 1 1).fill 1 1 1
  | _ => (emptyMap 1 1).fill 1 1 3

/-- The maps of a scan one after another. -/
def feedOf {π : Type} (nest : ScopeNest) (outputName : π → String) (kinds : List π)
    (contents : π → LoopStatus → Histo2d) : List OccupancyAnalysis.Input :=
  nest.points.flatMap fun stat => kinds.map fun p => ⟨outputName p, stat, contents p stat⟩

theorem thresholdNest_fullScan : thresholdNest.FullScan ScopeMap.outputName oneOfTwo
    (thresholdNest.feedOf ScopeMap.outputName [.occ, .ptot, .ptoa] oneOfTwo) := by
  intro p
  cases p <;> rfl

def twoLoopNest : ScopeNest where
  outer := [twoThresholds, twoThresholds]
  inner := [twoInjections]
  outer_ne_nil := by decide
  isInner_outer := by simp [twoThresholds, LoopActionInfo.isInner]
  isInner_inner := by simp [twoInjections, LoopActionInfo.isInner]
  size_le := by decide

end ScopeNest

end Yarr.Scan
