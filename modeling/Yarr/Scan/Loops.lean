import Mathlib.Algebra.Order.BigOperators.Group.List
import Mathlib.Data.List.Nodup
import Yarr.Core.Indices
import Yarr.Data.EventFile

/-!
# Positions in a scan

Data and histograms are tagged with the position of the scan they belong to,
one value for each loop of the nest.
-/

namespace Yarr.Scan

inductive LoopStyle where
  | data
  | trigger
  | mask
  | parameter
  | pixelFeedback
  | globalFeedback
  | triggerFeedback
  | nop
  deriving DecidableEq, Repr

/-- The first `statCount` entries of the arrays; more than eight do not fit. -/
structure LoopStatus where
  statVec : List UInt32
  styleVec : List LoopStyle
  is_end_of_iteration : Bool := true
  size_le : statVec.length ≤ 8
  length_styleVec : styleVec.length = statVec.length
  deriving DecidableEq

namespace LoopStatus

def size (l : LoopStatus) : Nat := l.statVec.length

/-- An entry behind the last loop is not initialised; it reads as zero here. -/
def get (l : LoopStatus) (i : Nat) : UInt32 := l.statVec.getD i 0

def setEnd (l : LoopStatus) (isEnd : Bool) : LoopStatus := { l with is_end_of_iteration := isEnd }

@[simp] theorem statVec_setEnd (l : LoopStatus) (isEnd : Bool) :
    (l.setEnd isEnd).statVec = l.statVec := rfl

/-- `loopStatusIterationEnd`, which the data loop sends after the data of an iteration. -/
def iterationEnd : LoopStatus where
  statVec := [0]
  styleVec := [.globalFeedback]
  is_end_of_iteration := true
  size_le := by decide
  length_styleVec := rfl

end LoopStatus

/-- One container on the way from a data processor to the histogrammers. -/
structure FrontEndData where
  lStat : LoopStatus
  events : List EventFile.FrontEndEvent
  deriving DecidableEq

end Yarr.Scan

/-!
## Nests of loops

A loop runs from its first value in steps until its end condition holds. A
mask loop and a core column loop stop before their upper limit, a parameter
loop behind it, the others after one pass. The engine nests the loops in the
order of the list.
-/

namespace Yarr.Scan

/-- `min`, `max` and `step` of a loop. -/
structure LoopRange where
  min : Int32
  max : Int32
  step : UInt32
  min_le_max : min ≤ max
  step_pos : 0 < step
  deriving DecidableEq

/-- Core columns are taken modulo the number of steps. -/
structure CoreColSteps where
  nSteps : UInt32
  step : UInt32
  nSteps_pos : 0 < nSteps
  step_pos : 0 < step
  deriving DecidableEq

inductive ScanLoop where
  | mask (range : LoopRange)
  | coreCol (steps : CoreColSteps)
  | trigger (trigCnt : UInt32)
  | data
  | parameter (range : LoopRange)
  deriving DecidableEq

namespace ScanLoop

def style : ScanLoop → LoopStyle
  | mask _ => .mask
  | coreCol _ => .mask
  | trigger _ => .trigger
  | data => .data
  | parameter _ => .parameter

def getMin : ScanLoop → UInt32
  | mask range => range.min.toUInt32
  | parameter range => range.min.toUInt32
  | _ => 0

/-- A core column loop sets `max` to its number of steps. -/
def getMax : ScanLoop → UInt32
  | mask range => range.max.toUInt32
  | coreCol steps => steps.nSteps
  | parameter range => range.max.toUInt32
  | _ => 0

def getStep : ScanLoop → UInt32
  | mask range => range.step
  | coreCol steps => steps.step
  | parameter range => range.step
  | _ => 1

/-- `isMaskLoop() || isTriggerLoop() || isDataLoop()`. -/
def isInner (l : ScanLoop) : Bool :=
  match l.style with
  | .mask | .trigger | .triggerFeedback | .data => true
  | _ => false

/-- The loop goes on with the value `m_cur`, which it has just stepped to. -/
def goesOn : ScanLoop → UInt32 → Bool
  | mask range, m_cur => decide (m_cur.toInt32 < range.max)
  | coreCol steps, m_cur => decide (m_cur < steps.nSteps)
  | trigger _, _ => false
  | data, _ => false
  | parameter range, m_cur => decide (¬ range.max < m_cur.toInt32)

/-- From `m_cur` on the loop takes these values and then stops. -/
inductive Visits (l : ScanLoop) : UInt32 → List UInt32 → Prop
  | last {m_cur : UInt32} : l.goesOn (m_cur + l.getStep) = false → Visits l m_cur [m_cur]
  | next {m_cur : UInt32} {rest : List UInt32} : l.goesOn (m_cur + l.getStep) = true →
      Visits l (m_cur + l.getStep) rest → Visits l m_cur (m_cur :: rest)

theorem Visits.unique {l : ScanLoop} {m_cur : UInt32} {vs ws : List UInt32}
    (h : l.Visits m_cur vs) (h' : l.Visits m_cur ws) : vs = ws := by
  induction h generalizing ws with
  | last hstop =>
      cases h' with
      | last _ => rfl
      | next hgo _ => exact absurd (hstop.symm.trans hgo) Bool.false_ne_true
  | next hgo _ ih =>
      cases h' with
      | last hstop => exact absurd (hstop.symm.trans hgo) Bool.false_ne_true
      | next _ hrest => rw [ih hrest]

theorem Visits.ne_nil {l : ScanLoop} {m_cur : UInt32} {vs : List UInt32}
    (h : l.Visits m_cur vs) : vs ≠ [] := by
  cases h <;> exact List.cons_ne_nil _ _

theorem Visits.of_mem {l : ScanLoop} {m_cur v : UInt32} {vs : List UInt32}
    (h : l.Visits m_cur vs) (hv : v ∈ vs) : ∃ ws, l.Visits v ws ∧ ws.length ≤ vs.length := by
  induction h with
  | last hstop =>
      rw [List.mem_singleton.mp hv]
      exact ⟨_, .last hstop, le_rfl⟩
  | next hgo hrest ih =>
      rcases List.mem_cons.mp hv with rfl | hmem
      · exact ⟨_, .next hgo hrest, le_rfl⟩
      · obtain ⟨ws, hws, hle⟩ := ih hmem
        exact ⟨ws, hws, Nat.le_succ_of_le hle⟩

theorem Visits.nodup {l : ScanLoop} {m_cur : UInt32} {vs : List UInt32}
    (h : l.Visits m_cur vs) : vs.Nodup := by
  induction h with
  | last _ => exact List.nodup_singleton _
  | next hgo hrest ih =>
      rw [List.nodup_cons]
      refine ⟨?_, ih⟩
      intro hmem
      obtain ⟨ws, hws, hle⟩ := hrest.of_mem hmem
      have hsame := hws.unique (.next hgo hrest)
      rw [hsame, List.length_cons] at hle
      omega

end ScanLoop

/-- A loop with the values it takes. -/
structure RunLoop where
  loop : ScanLoop
  visited : List UInt32
  visits : loop.Visits loop.getMin visited

/-- All positions of a nest, in the order in which the engine runs through them. -/
def positions : List RunLoop → List (List UInt32)
  | [] => [[]]
  | l :: ls => l.visited.flatMap fun v => (positions ls).map (v :: ·)

theorem length_of_mem_positions {ls : List RunLoop} {p : List UInt32} (h : p ∈ positions ls) :
    p.length = ls.length := by
  induction ls generalizing p with
  | nil =>
      rw [positions, List.mem_singleton] at h
      rw [h]
      rfl
  | cons l ls ih =>
      obtain ⟨v, -, hp⟩ := List.mem_flatMap.mp h
      obtain ⟨p', hp', rfl⟩ := List.mem_map.mp hp
      rw [List.length_cons, List.length_cons, ih hp']

theorem nodup_positions (ls : List RunLoop) : (positions ls).Nodup := by
  induction ls with
  | nil => exact List.nodup_singleton _
  | cons l ls ih =>
      rw [positions, List.nodup_flatMap]
      constructor
      · intro v _
        exact ih.map fun p q h => (List.cons.inj h).2
      · apply l.visits.nodup.imp
        intro v w hne p hp hq
        obtain ⟨p', -, rfl⟩ := List.mem_map.mp hp
        obtain ⟨q', -, hq'⟩ := List.mem_map.mp hq
        exact hne (List.cons.inj hq').1.symm

/-! ## Outer and inner loops -/

/-- What a position says about the loops that are not summed over. -/
def outerPart : List RunLoop → List UInt32 → List UInt32
  | l :: ls, v :: p => if l.loop.isInner then outerPart ls p else v :: outerPart ls p
  | _, _ => []

def outerLoops (ls : List RunLoop) : List RunLoop := ls.filter fun l => !l.loop.isInner

/-- How many positions the inner loops have together. -/
def innerCount (ls : List RunLoop) : Nat :=
  ((ls.filter fun l => l.loop.isInner).map fun l => l.visited.length).prod

theorem innerCount_pos (ls : List RunLoop) : 0 < innerCount ls := by
  rw [innerCount, List.prod_pos_iff_forall_pos_nat]
  intro n hn
  obtain ⟨l, -, rfl⟩ := List.mem_map.mp hn
  exact List.length_pos_iff.mpr l.visits.ne_nil

theorem outerPart_mem {ls : List RunLoop} {p : List UInt32} (h : p ∈ positions ls) :
    outerPart ls p ∈ positions (outerLoops ls) := by
  induction ls generalizing p with
  | nil => exact List.mem_singleton.mpr rfl
  | cons l ls ih =>
      obtain ⟨v, hv, hp⟩ := List.mem_flatMap.mp h
      obtain ⟨p', hp', rfl⟩ := List.mem_map.mp hp
      by_cases hin : l.loop.isInner
      · simpa [outerPart, outerLoops, hin] using ih hp'
      · have hrest := ih hp'
        simp only [outerPart, outerLoops, hin, List.filter_cons, Bool.not_false, if_true,
          Bool.false_eq_true, if_false] at hrest ⊢
        exact List.mem_flatMap.mpr ⟨v, hv, List.mem_map.mpr ⟨_, hrest, rfl⟩⟩

theorem innerCount_cons_inner {l : RunLoop} (h : l.loop.isInner = true) (ls : List RunLoop) :
    innerCount (l :: ls) = l.visited.length * innerCount ls := by
  simp [innerCount, h]

theorem innerCount_cons_outer {l : RunLoop} (h : l.loop.isInner = false) (ls : List RunLoop) :
    innerCount (l :: ls) = innerCount ls := by
  simp [innerCount, h]

private theorem sum_map_indicator {α : Type*} [DecidableEq α] {l : List α} (hnodup : l.Nodup)
    {a : α} (ha : a ∈ l) (n : Nat) : (l.map fun b => if b = a then n else 0).sum = n := by
  induction l with
  | nil => exact absurd ha List.not_mem_nil
  | cons b l ih =>
      obtain ⟨hb, hnodup⟩ := List.nodup_cons.mp hnodup
      rw [List.map_cons, List.sum_cons]
      by_cases hba : b = a
      · have hzero : (l.map fun b => if b = a then n else 0) = l.map fun _ => 0 := by
          apply List.map_congr_left
          intro c hc
          have hca : c ≠ a := by
            intro hca
            rw [hba, ← hca] at hb
            exact hb hc
          rw [if_neg hca]
        rw [if_pos hba, hzero]
        simp
      · have hmem := (List.mem_cons.mp ha).resolve_left fun h => hba h.symm
        rw [if_neg hba, ih hnodup hmem, Nat.zero_add]

/-- Every outer position comes up once for each inner position. -/
theorem countP_outerPart (ls : List RunLoop) {q : List UInt32}
    (h : q ∈ positions (outerLoops ls)) :
    ((positions ls).countP fun p => outerPart ls p = q) = innerCount ls := by
  induction ls generalizing q with
  | nil =>
      rw [List.mem_singleton.mp h]
      rfl
  | cons l ls ih =>
      rw [positions, List.countP_flatMap]
      cases hin : l.loop.isInner with
      | true =>
          have hq : q ∈ positions (outerLoops ls) := by simpa [outerLoops, hin] using h
          have hone : (List.countP (fun p => decide (outerPart (l :: ls) p = q))
              ∘ fun v => (positions ls).map (v :: ·)) = fun _ => innerCount ls := by
            funext v
            rw [Function.comp_apply, List.countP_map, ← ih hq]
            simp [Function.comp_def, outerPart, hin]
          rw [hone, innerCount_cons_inner hin, List.map_const', List.sum_replicate_nat]
      | false =>
          have hq : q ∈ positions (l :: outerLoops ls) := by simpa [outerLoops, hin] using h
          obtain ⟨w, hw, hq⟩ := List.mem_flatMap.mp hq
          obtain ⟨q', hq', rfl⟩ := List.mem_map.mp hq
          have hone : (List.countP (fun p => decide (outerPart (l :: ls) p = w :: q'))
              ∘ fun v => (positions ls).map (v :: ·))
              = fun v => if v = w then innerCount ls else 0 := by
            funext v
            rw [Function.comp_apply, List.countP_map]
            by_cases hv : v = w
            · rw [if_pos hv, ← ih hq']
              simp [Function.comp_def, outerPart, hin, hv]
            · rw [if_neg hv, List.countP_eq_zero]
              simp [outerPart, hin, hv]
          rw [hone, innerCount_cons_outer hin, sum_map_indicator l.visits.nodup hw]

/-- More than eight loops do not fit into a status. -/
structure Nest where
  loops : List RunLoop
  size_le : loops.length ≤ 8

namespace Nest

variable (nest : Nest)

/-- The status at every position of the scan, as `record` takes it. -/
def points : List LoopStatus :=
  (positions nest.loops).attach.map fun p =>
    { statVec := p.1
      styleVec := nest.loops.map fun l => l.loop.style
      size_le := by rw [length_of_mem_positions p.2]; exact nest.size_le
      length_styleVec := by rw [List.length_map, length_of_mem_positions p.2] }

theorem map_statVec_points : nest.points.map LoopStatus.statVec = positions nest.loops := by
  simp [points, Function.comp_def]

end Nest

end Yarr.Scan
