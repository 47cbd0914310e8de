import Yarr.Scan.ScopeAnalyses

/-!
# Sums of the precision time maps

Both analyses join the maps of three kinds under one identifier. One of them
clears the sums that it has given out, the other leaves them behind.
-/

namespace Yarr.Scan

/-! ## The sums are those of a join -/

section Sums

variable {π : Type} [DecidableEq π] [Fintype π]

namespace GroupedScan

/-- How maps are filed, sorted and added up. -/
def join (a : GroupedScan) (keeps : Bool) :
    Join UInt32 π (π × LoopStatus × Histo2d) Histo2d where
  key i := a.ident i.2.1
  kind i := i.1
  new := emptyMap a.nCol a.nRow
  add sum i := sum.add i.2.2
  wanted := a.m_n_count
  keeps := keeps

end GroupedScan

namespace MapSums

structure Refines (m : MapSums π) (s : Join.State UInt32 π Histo2d) : Prop where
  maps_eq : ∀ p k, m.maps p k = s.current k p
  count_eq : ∀ p k, m.count p k = s.count k p

omit [DecidableEq π] [Fintype π] in
theorem refines_empty : Refines ({} : MapSums π) .empty := ⟨fun _ _ => rfl, fun _ _ => rfl⟩

variable (a : GroupedScan) (keeps : Bool) {m : MapSums π} {s : Join.State UInt32 π Histo2d}
  (p : π) (stat : LoopStatus) (h : Histo2d)

/-- The sums after one more map. -/
def grown (a : GroupedScan) (m : MapSums π) (p : π) (stat : LoopStatus) (h : Histo2d) :
    MapSums π := (m.create a.nCol a.nRow (a.ident stat)).merge p (a.ident stat) h

omit [Fintype π] in
theorem Refines.grown_own (hm : m.Refines s) (q : π) :
    (grown a m p stat h).maps q (a.ident stat)
        = some ((a.join keeps).added s (p, stat, h) q) ∧
      (grown a m p stat h).count q (a.ident stat)
        = (a.join keeps).counted s (p, stat, h) q := by
  have hsum : (m.create a.nCol a.nRow (a.ident stat)).maps q (a.ident stat)
      = some ((a.join keeps).sums s (a.ident stat) q) := by
    simp only [create, Join.sums, GroupedScan.join, hm.maps_eq]
    cases hcur : s.current (a.ident stat) q with
    | none => simp
    | some sum => simp [hm.maps_eq, hcur]
  have hcount : (m.create a.nCol a.nRow (a.ident stat)).count q (a.ident stat)
      = Join.counts s (a.ident stat) q := by
    simp only [create, Join.counts, hm.maps_eq]
    cases hcur : s.current (a.ident stat) q with
    | none => simp
    | some sum => simp [hm.count_eq]
  unfold grown merge Join.added Join.counted
  by_cases hq : q = p
  · subst hq
    simp [hsum, hcount, GroupedScan.join]
  · simp [hq, hsum, hcount, GroupedScan.join]

omit [Fintype π] in
theorem Refines.grown_other (hm : m.Refines s) (q : π) {k : UInt32} (hk : k ≠ a.ident stat) :
    (grown a m p stat h).maps q k = s.current k q ∧
      (grown a m p stat h).count q k = s.count k q := by
  have hmap : (m.create a.nCol a.nRow (a.ident stat)).maps q k = s.current k q := by
    simp only [create]
    split
    · exact hm.maps_eq q k
    · rw [Function.update_of_ne hk, hm.maps_eq]
  have hcount : (m.create a.nCol a.nRow (a.ident stat)).count q k = s.count k q := by
    simp only [create]
    split
    · exact hm.count_eq q k
    · rw [Function.update_of_ne hk, hm.count_eq]
  unfold grown merge
  by_cases hq : q = p
  · subst hq
    simp [hk, hmap, hcount]
  · simp [hq, hmap, hcount]

theorem Refines.received_iff (hm : m.Refines s) :
    (grown a m p stat h).received a.m_n_count (a.ident stat) = true ↔
      ∀ q, (a.join keeps).counted s (p, stat, h) q = a.m_n_count := by
  rw [received, decide_eq_true_iff]
  simp only [fun q => (hm.grown_own a keeps p stat h q).2]

theorem Refines.step_waiting (hm : m.Refines s)
    (hwaits : ¬ ∀ q, (a.join keeps).counted s (p, stat, h) q = a.m_n_count) :
    (grown a m p stat h).Refines ((a.join keeps).step s (p, stat, h)) ∧
      ((a.join keeps).step s (p, stat, h)).done = s.done := by
  have hstep : (a.join keeps).step s (p, stat, h) =
      { current := Function.update s.current (a.ident stat) fun q =>
          some ((a.join keeps).added s (p, stat, h) q)
        count := Function.update s.count (a.ident stat)
          ((a.join keeps).counted s (p, stat, h))
        done := s.done } := if_neg hwaits
  rw [hstep]
  refine ⟨⟨fun q k => ?_, fun q k => ?_⟩, rfl⟩
  · by_cases hk : k = a.ident stat
    · subst hk
      simpa using (hm.grown_own a keeps p stat h q).1
    · simpa [hk] using (hm.grown_other a p stat h q hk).1
  · by_cases hk : k = a.ident stat
    · subst hk
      simpa using (hm.grown_own a keeps p stat h q).2
    · simpa [hk] using (hm.grown_other a p stat h q hk).2

theorem step_given (a : GroupedScan) (keeps : Bool) (s : Join.State UInt32 π Histo2d)
    (hall : ∀ q, (a.join keeps).counted s (p, stat, h) q = a.m_n_count) :
    (a.join keeps).step s (p, stat, h) =
      { current := Function.update s.current (a.ident stat) fun q =>
          if keeps then some ((a.join keeps).added s (p, stat, h) q) else none
        count := Function.update s.count (a.ident stat) fun _ => 0
        done := s.done ++ [(a.ident stat, (a.join keeps).added s (p, stat, h))] } :=
  if_pos hall

theorem Refines.step_clear (hm : m.Refines s)
    (hall : ∀ q, (a.join false).counted s (p, stat, h) q = a.m_n_count) :
    ((grown a m p stat h).clear (a.ident stat)).Refines
      ((a.join false).step s (p, stat, h)) := by
  rw [step_given p stat h a false s hall]
  constructor
  · intro q k
    by_cases hk : k = a.ident stat
    · subst hk
      simp [clear]
    · simpa [clear, hk] using (hm.grown_other a p stat h q hk).1
  · intro q k
    by_cases hk : k = a.ident stat
    · subst hk
      simp [clear]
    · simpa [clear, hk] using (hm.grown_other a p stat h q hk).2

theorem Refines.step_clearCounts (hm : m.Refines s)
    (hall : ∀ q, (a.join true).counted s (p, stat, h) q = a.m_n_count) :
    ((grown a m p stat h).clearCounts (a.ident stat)).Refines
      ((a.join true).step s (p, stat, h)) := by
  rw [step_given p stat h a true s hall]
  constructor
  · intro q k
    by_cases hk : k = a.ident stat
    · subst hk
      simpa [clearCounts] using (hm.grown_own a true p stat h q).1
    · simpa [clearCounts, hk] using (hm.grown_other a p stat h q hk).1
  · intro q k
    by_cases hk : k = a.ident stat
    · subst hk
      simp [clearCounts]
    · simpa [clearCounts, hk] using (hm.grown_other a p stat h q hk).2

omit [Fintype π] in
theorem Refines.heldAt_grown (hm : m.Refines s) :
    (grown a m p stat h).heldAt a.nCol a.nRow (a.ident stat)
      = (a.join keeps).added s (p, stat, h) := by
  funext q
  rw [heldAt, (hm.grown_own a keeps p stat h q).1]
  rfl

end MapSums

end Sums

/-- The maps of the feed that an analysis takes. -/
def mapItems {π : Type} (ofName : String → Option π) (feed : List OccupancyAnalysis.Input) :
    List (π × LoopStatus × Histo2d) :=
  feed.filterMap fun i => (ofName i.name).map fun p => (p, i.stat, i.histo)

theorem mapItems_cons_none {π : Type} {ofName : String → Option π} {i : OccupancyAnalysis.Input}
    (h : ofName i.name = none) (feed : List OccupancyAnalysis.Input) :
    mapItems ofName (i :: feed) = mapItems ofName feed := by
  rw [mapItems, List.filterMap_cons, h]
  rfl

theorem mapItems_cons_some {π : Type} {ofName : String → Option π} {p : π}
    {i : OccupancyAnalysis.Input} (h : ofName i.name = some p)
    (feed : List OccupancyAnalysis.Input) :
    mapItems ofName (i :: feed) = (p, i.stat, i.histo) :: mapItems ofName feed := by
  rw [mapItems, List.filterMap_cons, h]
  rfl

namespace FrontEndScopeAnalysis

variable (a : FrontEndScopeAnalysis)

/-- The pulse shapes of what was given out. -/
def shapeOf (done : List (UInt32 × (ScopeMap → Histo2d))) : Option Histo2d :=
  done.foldl (fun shape d =>
    { a with h_pulseShapeMap := shape }.pulseShape d.2 (a.means d.1 d.2)) none

theorem shapeOf_concat (done : List (UInt32 × (ScopeMap → Histo2d)))
    (d : UInt32 × (ScopeMap → Histo2d)) :
    a.shapeOf (done ++ [d])
      = { a with h_pulseShapeMap := a.shapeOf done }.pulseShape d.2 (a.means d.1 d.2) := by
  rw [shapeOf, List.foldl_append]
  rfl

/-- The analysis with some sums, after it gave out others. -/
def after (m : MapSums ScopeMap) (done : List (UInt32 × (ScopeMap → Histo2d))) :
    FrontEndScopeAnalysis :=
  { a with
    sums := m
    h_pulseShapeMap := a.shapeOf done
    output := done.map fun d => a.means d.1 d.2 }

theorem processHistogram_after {m : MapSums ScopeMap} {s : Join.State UInt32 ScopeMap Histo2d}
    (hm : m.Refines s) {name : String} {p : ScopeMap} (hp : ScopeMap.ofName name = some p)
    (stat : LoopStatus) (h : Histo2d) :
    ∃ m', m'.Refines ((a.join false).step s (p, stat, h)) ∧
      (a.after m s.done).processHistogram name stat h
        = a.after m' ((a.join false).step s (p, stat, h)).done := by
  have hbody : (a.after m s.done).processHistogram name stat h =
      if (MapSums.grown a.toGroupedScan m p stat h).received a.m_n_count (a.ident stat) then
        ({ a.after m s.done with
          sums := MapSums.grown a.toGroupedScan m p stat h } : FrontEndScopeAnalysis).finish
            (a.ident stat)
      else { a.after m s.done with sums := MapSums.grown a.toGroupedScan m p stat h } := by
    rw [processHistogram, hp]
    rfl
  have hreceived := hm.received_iff a.toGroupedScan false p stat h
  by_cases hall : ∀ q, (a.join false).counted s (p, stat, h) q = a.m_n_count
  · refine ⟨_, hm.step_clear a.toGroupedScan p stat h hall, ?_⟩
    have hheld := hm.heldAt_grown a.toGroupedScan false p stat h
    have hdone := congrArg Join.State.done
      (MapSums.step_given p stat h a.toGroupedScan false s hall)
    rw [hbody, if_pos (hreceived.mpr hall), hdone]
    unfold finish after
    dsimp only
    rw [hheld, List.map_append, shapeOf_concat]
    rfl
  · have hwaits := hm.step_waiting a.toGroupedScan false p stat h hall
    refine ⟨_, hwaits.1, ?_⟩
    rw [hbody, if_neg (fun hgot => hall (hreceived.mp hgot)), hwaits.2]
    rfl

theorem run_after {m : MapSums ScopeMap} {s : Join.State UInt32 ScopeMap Histo2d}
    (hm : m.Refines s) (feed : List OccupancyAnalysis.Input) :
    ∃ m', (a.after m s.done).run feed
      = a.after m' ((mapItems ScopeMap.ofName feed).foldl (a.join false).step s).done := by
  induction feed generalizing m s with
  | nil => exact ⟨m, rfl⟩
  | cons i feed ih =>
      rw [run, List.foldl_cons, ← run]
      cases hp : ScopeMap.ofName i.name with
      | none =>
          have hskip : (a.after m s.done).processHistogram i.name i.stat i.histo
              = a.after m s.done := by
            rw [processHistogram, hp]
          rw [hskip, mapItems_cons_none hp]
          exact ih hm
      | some p =>
          rcases a.processHistogram_after hm hp i.stat i.histo with ⟨m', hm', hstep⟩
          rw [hstep, mapItems_cons_some hp, List.foldl_cons]
          exact ih hm'

end FrontEndScopeAnalysis

namespace ToaAnalysis

variable (a : ToaAnalysis)

def after (m : MapSums ToaMapKind) (done : List (UInt32 × (ToaMapKind → Histo2d))) :
    ToaAnalysis :=
  { a with
    sums := m
    output := done.map fun d => a.means d.1 d.2 }

theorem processHistogram_after {m : MapSums ToaMapKind}
    {s : Join.State UInt32 ToaMapKind Histo2d} (hm : m.Refines s) {name : String}
    {p : ToaMapKind} (hp : ToaMapKind.ofName name = some p) (stat : LoopStatus) (h : Histo2d) :
    ∃ m', m'.Refines ((a.join true).step s (p, stat, h)) ∧
      (a.after m s.done).processHistogram name stat h
        = a.after m' ((a.join true).step s (p, stat, h)).done := by
  have hbody : (a.after m s.done).processHistogram name stat h =
      if (MapSums.grown a.toGroupedScan m p stat h).received a.m_n_count (a.ident stat) then
        ({ a.after m s.done with
          sums := MapSums.grown a.toGroupedScan m p stat h } : ToaAnalysis).finish
            (a.ident stat)
      else { a.after m s.done with sums := MapSums.grown a.toGroupedScan m p stat h } := by
    rw [processHistogram, hp]
    rfl
  have hreceived := hm.received_iff a.toGroupedScan true p stat h
  by_cases hall : ∀ q, (a.join true).counted s (p, stat, h) q = a.m_n_count
  · refine ⟨_, hm.step_clearCounts a.toGroupedScan p stat h hall, ?_⟩
    have hheld := hm.heldAt_grown a.toGroupedScan true p stat h
    have hdone := congrArg Join.State.done
      (MapSums.step_given p stat h a.toGroupedScan true s hall)
    rw [hbody, if_pos (hreceived.mpr hall), hdone]
    unfold finish after
    dsimp only
    rw [hheld, List.map_append]
    rfl
  · have hwaits := hm.step_waiting a.toGroupedScan true p stat h hall
    refine ⟨_, hwaits.1, ?_⟩
    rw [hbody, if_neg (fun hgot => hall (hreceived.mp hgot)), hwaits.2]
    rfl

theorem run_after {m : MapSums ToaMapKind} {s : Join.State UInt32 ToaMapKind Histo2d}
    (hm : m.Refines s) (feed : List OccupancyAnalysis.Input) :
    ∃ m', (a.after m s.done).run feed
      = a.after m' ((mapItems ToaMapKind.ofName feed).foldl (a.join true).step s).done := by
  induction feed generalizing m s with
  | nil => exact ⟨m, rfl⟩
  | cons i feed ih =>
      rw [run, List.foldl_cons, ← run]
      cases hp : ToaMapKind.ofName i.name with
      | none =>
          have hskip : (a.after m s.done).processHistogram i.name i.stat i.histo
              = a.after m s.done := by
            rw [processHistogram, hp]
          rw [hskip, mapItems_cons_none hp]
          exact ih hm
      | some p =>
          rcases a.processHistogram_after hm hp i.stat i.histo with ⟨m', hm', hstep⟩
          rw [hstep, mapItems_cons_some hp, List.foldl_cons]
          exact ih hm'

end ToaAnalysis

end Yarr.Scan
