import Yarr.Scan.Loops

/-!
# Execution of nested loops

The engine links the actions of a list and runs the first of them. Each run of
an action initialises it, takes steps with the run of the next action inside
until it is done, and ends it. Calls and register writes are recorded, and in
every step of the innermost action the recorded position and the registers.
-/

namespace Yarr.Scan

inductive Phase where
  | init
  | execPart1
  | execPart2
  | atEnd
  deriving DecidableEq

/-- A call of a virtual function; actions are numbered from the outermost. -/
structure Call where
  depth : Nat
  phase : Phase
  deriving DecidableEq

inductive Target where
  | globalFe
  | fe (id : Nat)
  deriving DecidableEq

/-- A write of the register of a parameter loop. The interface takes 16 bits. -/
structure Write where
  depth : Nat
  target : Target
  value : UInt16
  deriving DecidableEq

/-- What is on record in a step of the innermost action. -/
structure Snapshot where
  stat : Nat → UInt32
  regs : Target → String → UInt16

/-- The counter and the flag of an action, how often it was run before and the steps of the
present run. -/
structure ActionState where
  m_cur : UInt32 := 0
  m_done : Bool := false
  runs : Nat := 0
  taken : Nat := 0
  deriving DecidableEq

structure LoopEngine extends Snapshot where
  acts : Nat → ActionState
  calls : List Call := []
  writes : List Write := []
  seen : List Snapshot := []

namespace LoopEngine

variable (e : LoopEngine)

def call (i : Nat) (phase : Phase) : LoopEngine := { e with calls := e.calls ++ [⟨i, phase⟩] }

/-- `g_stat->set(this, v)`. -/
def set (i : Nat) (v : UInt32) : LoopEngine := { e with stat := Function.update e.stat i v }

def setAct (i : Nat) (a : ActionState) : LoopEngine :=
  { e with acts := Function.update e.acts i a }

def writeNamedRegister (i : Nat) (parName : String) (value : UInt16) (target : Target) :
    LoopEngine :=
  { e with
    regs := Function.update e.regs target (Function.update (e.regs target) parName value)
    writes := e.writes ++ [⟨i, target, value⟩] }

/-- The registers of all targets, one after the other. -/
def writeAll (i : Nat) (parName : String) (value : UInt16) (targets : List Target) : LoopEngine :=
  targets.foldl (fun e t => e.writeNamedRegister i parName value t) e

def record : LoopEngine := { e with seen := e.seen ++ [e.toSnapshot] }

end LoopEngine

/-- The range of a loop over register values. -/
structure ParameterRange extends LoopRange where
  zero_le_min : 0 ≤ min

/-- A loop over one named register. `m_checkActiveLoop` makes it write to the front-ends that
are active in loops instead of the global one. -/
structure StdParameterLoop where
  range : ParameterRange
  parName : String
  m_checkActiveLoop : Bool

structure Itkpixv2ParameterLoop where
  range : ParameterRange
  parName : String

/-- Any other action takes a positive number of steps each time it is run, since its `init`
clears the flag that is tested before a step. -/
structure OtherAction where
  steps : Nat → Nat
  steps_pos : ∀ n, 0 < steps n

/-- Which of the front-ends are active in loops. -/
abbrev Keeper := List Bool

namespace StdParameterLoop

variable (l : StdParameterLoop) (keeper : Keeper) (i : Nat) (e : LoopEngine)

def targets : List Target :=
  if l.m_checkActiveLoop then
    (keeper.zipIdx.filter fun fe => fe.1).map fun fe => .fe fe.2
  else [.globalFe]

def writePar : LoopEngine :=
  e.writeAll i l.parName (e.acts i).m_cur.toUInt16 (l.targets keeper)

def init : LoopEngine :=
  l.writePar keeper i (e.setAct i { e.acts i with m_done := false, m_cur := l.range.min.toUInt32 })

def execPart1 : LoopEngine := e.set i (e.acts i).m_cur

def execPart2 : LoopEngine :=
  let m_cur := (e.acts i).m_cur + l.range.step
  if l.range.max < m_cur.toInt32 then
    e.setAct i { e.acts i with m_cur := m_cur, m_done := true }
  else l.writePar keeper i (e.setAct i { e.acts i with m_cur := m_cur })

def atEnd : LoopEngine :=
  l.writePar keeper i (e.setAct i { e.acts i with m_cur := l.range.min.toUInt32 })

end StdParameterLoop

namespace Itkpixv2ParameterLoop

variable (l : Itkpixv2ParameterLoop) (i : Nat) (e : LoopEngine)

/-- `writeRegister` of the global front-end. -/
def writePar : LoopEngine :=
  e.writeAll i l.parName (e.acts i).m_cur.toUInt16 [.globalFe]

def init : LoopEngine :=
  l.writePar i (e.setAct i { e.acts i with m_done := false, m_cur := l.range.min.toUInt32 })

def execPart1 : LoopEngine := e.set i (e.acts i).m_cur

/-- The register is written also when the loop is done. -/
def execPart2 : LoopEngine :=
  let m_cur := (e.acts i).m_cur + l.range.step
  let a : ActionState := { e.acts i with m_cur := m_cur }
  let a := if l.range.max < m_cur.toInt32 then { a with m_done := true } else a
  l.writePar i (e.setAct i a)

def atEnd : LoopEngine :=
  l.writePar i (e.setAct i { e.acts i with m_cur := l.range.min.toUInt32 })

end Itkpixv2ParameterLoop

namespace OtherAction

variable (l : OtherAction) (i : Nat) (e : LoopEngine)

def init : LoopEngine :=
  e.setAct i { e.acts i with m_cur := 0, m_done := false, taken := 0 }

def execPart1 : LoopEngine := e.set i (e.acts i).m_cur

/-- The last of the steps of this run sets the flag. -/
def execPart2 : LoopEngine :=
  let a := e.acts i
  e.setAct i { a with
    m_cur := a.m_cur + 1
    taken := a.taken + 1
    m_done := a.taken + 1 == l.steps a.runs }

def atEnd : LoopEngine := e.setAct i { e.acts i with runs := (e.acts i).runs + 1 }

end OtherAction

inductive LoopAction where
  | std (l : StdParameterLoop)
  | itkpixv2 (l : Itkpixv2ParameterLoop)
  | other (l : OtherAction)

namespace LoopAction

variable (keeper : Keeper) (i : Nat) (e : LoopEngine)

def init (l : LoopAction) : LoopEngine :=
  let e := e.call i .init
  match l with
  | std l => l.init keeper i e
  | itkpixv2 l => l.init i e
  | other _ => OtherAction.init i e

def execPart1 (l : LoopAction) : LoopEngine :=
  let e := e.call i .execPart1
  match l with
  | std _ => StdParameterLoop.execPart1 i e
  | itkpixv2 _ => Itkpixv2ParameterLoop.execPart1 i e
  | other _ => OtherAction.execPart1 i e

def execPart2 (l : LoopAction) : LoopEngine :=
  let e := e.call i .execPart2
  match l with
  | std l => l.execPart2 keeper i e
  | itkpixv2 l => l.execPart2 i e
  | other l => l.execPart2 i e

def atEnd (l : LoopAction) : LoopEngine :=
  let e := e.call i .atEnd
  match l with
  | std l => l.atEnd keeper i e
  | itkpixv2 l => l.atEnd i e
  | other _ => OtherAction.atEnd i e

end LoopAction

namespace LoopEngine

/-- `while (!done()) execStep();` for at most `fuel` steps. -/
def steps (keeper : Keeper) (i : Nat) (l : LoopAction) (inner : LoopEngine → Option LoopEngine) :
    Nat → LoopEngine → Option LoopEngine
  | 0, _ => none
  | fuel + 1, e =>
      if (e.acts i).m_done then some e
      else (inner (l.execPart1 i e)).bind fun e => steps keeper i l inner fuel (l.execPart2 keeper i e)

/-- `run()` of the first action, with the others linked behind it. -/
def run (keeper : Keeper) (fuel : Nat) : Nat → List LoopAction → LoopEngine → Option LoopEngine
  | _, [], e => some e.record
  | i, l :: ls, e =>
      (steps keeper i l (run keeper fuel (i + 1) ls) fuel (l.init keeper i e)).map fun e =>
        l.atEnd keeper i e

/-- Nothing is run for an empty list. -/
def execute (keeper : Keeper) (fuel : Nat) (task_list : List LoopAction) (e : LoopEngine) :
    Option LoopEngine :=
  match task_list with
  | [] => some e
  | l :: ls => run keeper fuel 0 (l :: ls) e

end LoopEngine

end Yarr.Scan
