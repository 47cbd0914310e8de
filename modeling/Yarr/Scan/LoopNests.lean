import Yarr.Scan.Completeness
import Yarr.Scan.LoopEngine

/-!
# Runs of nested loops

What one call of an action does is said once for all kinds of actions. The run
of a nest follows by induction on the list, and the run of one loop by
induction on its steps.
-/

namespace Yarr.Scan

/-! ## Writing registers -/

namespace LoopEngine

variable (e : LoopEngine) (i : Nat) (parName : String) (value : UInt16)

theorem writeAll_frame (targets : List Target) :
    (e.writeAll i parName value targets).stat = e.stat ∧
      (e.writeAll i parName value targets).acts = e.acts ∧
      (e.writeAll i parName value targets).calls = e.calls ∧
      (e.writeAll i parName value targets).seen = e.seen ∧
      (e.writeAll i parName value targets).writes
        = e.writes ++ targets.map fun t => ⟨i, t, value⟩ := by
  unfold writeAll
  induction targets generalizing e with
  | nil => simp
  | cons t targets ih =>
      rcases ih (e.writeNamedRegister i parName value t) with ⟨h1, h2, h3, h4, h5⟩
      refine ⟨h1, h2, h3, h4, h5.trans ?_⟩
      simp [writeNamedRegister]

theorem regs_writeAll (targets : List Target) (t : Target) (n : String) :
    (e.writeAll i parName value targets).regs t n
      = if t ∈ targets ∧ n = parName then value else e.regs t n := by
  unfold writeAll
  induction targets generalizing e with
  | nil => simp
  | cons t' targets ih =>
      rw [List.foldl_cons, ih]
      by_cases hin : t ∈ targets ∧ n = parName
      · rw [if_pos hin, if_pos ⟨List.mem_cons_of_mem _ hin.1, hin.2⟩]
      · rw [if_neg hin]
        by_cases ht : t = t'
        · subst ht
          by_cases hn : n = parName
          · subst hn
            simp [writeNamedRegister]
          · simp [writeNamedRegister, hn]
        · have hcons : ¬ (t ∈ t' :: targets ∧ n = parName) := by
            simpa [ht] using hin
          rw [if_neg hcons]
          simp [writeNamedRegister, ht]

end LoopEngine

/-! ## Actions of all kinds -/

/-- What a part of a run adds to the records, and what it leaves alone: everything of the
actions further out and every register but the named ones. -/
structure Moves (i : Nat) (names : List String) (e e' : LoopEngine) (cs : List Call)
    (ws : List Write) (ss : List Snapshot) : Prop where
  stat : ∀ j < i, e'.stat j = e.stat j
  acts : ∀ j < i, e'.acts j = e.acts j
  regs : ∀ t n, n ∉ names → e'.regs t n = e.regs t n
  calls : e'.calls = e.calls ++ cs
  writes : e'.writes = e.writes ++ ws
  seen : e'.seen = e.seen ++ ss

theorem Moves.trans {i : Nat} {names : List String} {e₁ e₂ e₃ : LoopEngine}
    {cs cs' : List Call} {ws ws' : List Write} {ss ss' : List Snapshot}
    (h : Moves i names e₁ e₂ cs ws ss) (h' : Moves i names e₂ e₃ cs' ws' ss') :
    Moves i names e₁ e₃ (cs ++ cs') (ws ++ ws') (ss ++ ss') where
  stat j hj := (h'.stat j hj).trans (h.stat j hj)
  acts j hj := (h'.acts j hj).trans (h.acts j hj)
  regs t n hn := (h'.regs t n hn).trans (h.regs t n hn)
  calls := by rw [h'.calls, h.calls, List.append_assoc]
  writes := by rw [h'.writes, h.writes, List.append_assoc]
  seen := by rw [h'.seen, h.seen, List.append_assoc]

theorem Moves.mono {i j : Nat} {names names' : List String} {e e' : LoopEngine}
    {cs : List Call} {ws : List Write} {ss : List Snapshot} (h : Moves i names e e' cs ws ss)
    (hij : j ≤ i) (hnames : names ⊆ names') : Moves j names' e e' cs ws ss where
  stat k hk := h.stat k (Nat.lt_of_lt_of_le hk hij)
  acts k hk := h.acts k (Nat.lt_of_lt_of_le hk hij)
  regs t n hn := h.regs t n fun hmem => hn (hnames hmem)
  calls := h.calls
  writes := h.writes
  seen := h.seen

namespace LoopAction

variable (l : LoopAction) (keeper : Keeper) (i : Nat) (e : LoopEngine)

def range : LoopAction → Option ParameterRange
  | std l => some l.range
  | itkpixv2 l => some l.range
  | other _ => none

def parName : LoopAction → Option String
  | std l => some l.parName
  | itkpixv2 l => some l.parName
  | other _ => none

/-- The registers that a parameter loop writes. -/
def targets : LoopAction → List Target
  | std l => l.targets keeper
  | itkpixv2 _ => [.globalFe]
  | other _ => []

/-- Where the action stands: its value, or the number of its step. -/
def entry (a : ActionState) : Nat :=
  match l with
  | other _ => a.taken
  | _ => a.m_cur.toNat

/-! ### What the calls do to the state of the action -/

def initAct (a : ActionState) : ActionState :=
  match l with
  | std l => { a with m_done := false, m_cur := l.range.min.toUInt32 }
  | itkpixv2 l => { a with m_done := false, m_cur := l.range.min.toUInt32 }
  | other _ => { a with m_cur := 0, m_done := false, taken := 0 }

def paramStep (range : ParameterRange) (a : ActionState) : ActionState :=
  if range.max < (a.m_cur + range.step).toInt32 then
    { a with m_cur := a.m_cur + range.step, m_done := true }
  else { a with m_cur := a.m_cur + range.step }

def stepAct (a : ActionState) : ActionState :=
  match l with
  | std l => paramStep l.range a
  | itkpixv2 l => paramStep l.range a
  | other l =>
      { a with
        m_cur := a.m_cur + 1
        taken := a.taken + 1
        m_done := a.taken + 1 == l.steps a.runs }

/-- The registers hold the value at which the loop stands. -/
def Shown : Prop :=
  ∀ n, l.parName = some n → ∀ t ∈ l.targets keeper, e.regs t n = (e.acts i).m_cur.toUInt16

def names : List String := l.parName.toList

/-- The writes of one `writePar`. -/
def writesAt (v : UInt16) : List Write := (l.targets keeper).map fun t => ⟨i, t, v⟩

/-- The writes of a call that does not write unless `b`. -/
def writesIf (b : Bool) (v : UInt16) : List Write := if b then l.writesAt keeper i v else []

/-- `writePar` is left out only when a `StdParameterLoop` is done. -/
def writesStep : LoopAction → ActionState → Bool
  | std _, a => !a.m_done
  | _, _ => true

theorem moves_write (name : String) (hname : l.parName = some name) (a : ActionState)
    (phase : Phase) :
    Moves i l.names e
      (((e.call i phase).setAct i a).writeAll i name a.m_cur.toUInt16 (l.targets keeper))
      [⟨i, phase⟩] (l.writesAt keeper i a.m_cur.toUInt16) [] := by
  rcases LoopEngine.writeAll_frame ((e.call i phase).setAct i a) i name a.m_cur.toUInt16
    (l.targets keeper) with ⟨hstat, hacts, hcalls, hseen, hwrites⟩
  constructor
  · intro j hj
    rw [hstat]
    rfl
  · intro j hj
    rw [hacts]
    exact Function.update_of_ne (Nat.ne_of_lt hj) _ _
  · intro t n hn
    rw [LoopEngine.regs_writeAll, if_neg]
    · rfl
    · intro h
      apply hn
      rw [names, hname, h.2]
      exact List.mem_singleton.mpr rfl
  · exact hcalls
  · exact hwrites
  · rw [hseen, List.append_nil]
    rfl

theorem moves_setAct (a : ActionState) (phase : Phase) :
    Moves i l.names e ((e.call i phase).setAct i a) [⟨i, phase⟩] [] [] := by
  constructor
  · exact fun _ _ => rfl
  · exact fun j hj => Function.update_of_ne (Nat.ne_of_lt hj) _ _
  · exact fun _ _ _ => rfl
  · rfl
  · exact (List.append_nil _).symm
  · exact (List.append_nil _).symm

theorem shown_write (name : String) (hname : l.parName = some name) (e : LoopEngine)
    (a : ActionState) (ha : e.acts i = a) :
    l.Shown keeper i (e.writeAll i name a.m_cur.toUInt16 (l.targets keeper)) := by
  intro n hn t ht
  rw [hname, Option.some.injEq] at hn
  rcases LoopEngine.writeAll_frame e i name a.m_cur.toUInt16 (l.targets keeper) with
    ⟨_, hacts, _, _, _⟩
  rw [LoopEngine.regs_writeAll, if_pos ⟨ht, hn.symm⟩, hacts, ha]

theorem acts_write (name : String) (a : ActionState) (phase : Phase) (ts : List Target) :
    (((e.call i phase).setAct i a).writeAll i name a.m_cur.toUInt16 ts).acts i = a := by
  rcases LoopEngine.writeAll_frame ((e.call i phase).setAct i a) i name a.m_cur.toUInt16 ts with
    ⟨_, hacts, _, _, _⟩
  rw [hacts]
  exact Function.update_self _ _ _

/-- `init` puts the action at its first value and shows it. -/
theorem init_spec : Moves i l.names e (l.init keeper i e) [⟨i, .init⟩]
      (l.writesAt keeper i (l.initAct (e.acts i)).m_cur.toUInt16) [] ∧
    (l.init keeper i e).acts i = l.initAct (e.acts i) ∧
    l.Shown keeper i (l.init keeper i e) := by
  have hself : ∀ a, (((e.call i .init).setAct i a).acts i) = a :=
    fun a => Function.update_self _ _ _
  cases l with
  | std p =>
      have hdone : (LoopAction.std p).init keeper i e = ((e.call i .init).setAct i
          ((LoopAction.std p).initAct (e.acts i))).writeAll i p.parName
          ((LoopAction.std p).initAct (e.acts i)).m_cur.toUInt16 (p.targets keeper) := by
        simp only [LoopAction.init, StdParameterLoop.init, StdParameterLoop.writePar, hself]
        rfl
      rw [hdone]
      exact ⟨moves_write _ keeper i e p.parName rfl _ _, acts_write _ _ _ _ _ _,
        shown_write _ keeper i p.parName rfl _ _ (hself _)⟩
  | itkpixv2 p =>
      have hdone : (LoopAction.itkpixv2 p).init keeper i e = ((e.call i .init).setAct i
          ((LoopAction.itkpixv2 p).initAct (e.acts i))).writeAll i p.parName
          ((LoopAction.itkpixv2 p).initAct (e.acts i)).m_cur.toUInt16 [.globalFe] := by
        simp only [LoopAction.init, Itkpixv2ParameterLoop.init, Itkpixv2ParameterLoop.writePar,
          hself]
        rfl
      rw [hdone]
      exact ⟨moves_write (.itkpixv2 p) keeper i e p.parName rfl _ _, acts_write _ _ _ _ _ _,
        shown_write (.itkpixv2 p) keeper i p.parName rfl _ _ (hself _)⟩
  | other p => exact ⟨moves_setAct (.other p) i e _ _, hself _, fun n hn => by cases hn⟩

theorem execPart1_spec : Moves i l.names e (l.execPart1 i e) [⟨i, .execPart1⟩] [] [] ∧
    (l.execPart1 i e).acts = e.acts ∧ (l.execPart1 i e).regs = e.regs ∧
    (l.execPart1 i e).stat i = (e.acts i).m_cur := by
  have hset : l.execPart1 i e = (e.call i .execPart1).set i (e.acts i).m_cur := by
    cases l <;> rfl
  rw [hset]
  refine ⟨?_, rfl, rfl, Function.update_self _ _ _⟩
  constructor
  · exact fun j hj => Function.update_of_ne (Nat.ne_of_lt hj) _ _
  · exact fun _ _ => rfl
  · exact fun _ _ _ => rfl
  · rfl
  · exact (List.append_nil _).symm
  · exact (List.append_nil _).symm

/-- `execPart2` takes the step, and shows the new value unless the loop is done. -/
theorem execPart2_spec (hrunning : (e.acts i).m_done = false) :
    Moves i l.names e (l.execPart2 keeper i e) [⟨i, .execPart2⟩]
      (l.writesIf keeper i (l.writesStep (l.stepAct (e.acts i)))
        (l.stepAct (e.acts i)).m_cur.toUInt16) [] ∧
    (l.execPart2 keeper i e).acts i = l.stepAct (e.acts i) ∧
    ((l.stepAct (e.acts i)).m_done = false → l.Shown keeper i (l.execPart2 keeper i e)) := by
  have hself : ∀ a, (((e.call i .execPart2).setAct i a).acts i) = a :=
    fun a => Function.update_self _ _ _
  cases l with
  | std p =>
      by_cases hover : p.range.max < ((e.acts i).m_cur + p.range.step).toInt32
      · have hstep : (LoopAction.std p).stepAct (e.acts i)
            = { e.acts i with m_cur := (e.acts i).m_cur + p.range.step, m_done := true } :=
          if_pos hover
        have hdone : (LoopAction.std p).execPart2 keeper i e
            = (e.call i .execPart2).setAct i ((LoopAction.std p).stepAct (e.acts i)) := by
          rw [hstep]
          exact if_pos hover
        rw [hdone]
        refine ⟨?_, hself _, fun hnot => ?_⟩
        · rw [hstep]
          exact moves_setAct (.std p) i e _ _
        · rw [hstep] at hnot
          cases hnot
      · have hstep : (LoopAction.std p).stepAct (e.acts i)
            = { e.acts i with m_cur := (e.acts i).m_cur + p.range.step } := if_neg hover
        have hgo : (LoopAction.std p).execPart2 keeper i e = ((e.call i .execPart2).setAct i
            ((LoopAction.std p).stepAct (e.acts i))).writeAll i p.parName
            ((LoopAction.std p).stepAct (e.acts i)).m_cur.toUInt16 (p.targets keeper) := by
          rw [hstep]
          have hif : p.execPart2 keeper i (e.call i .execPart2)
              = p.writePar keeper i ((e.call i .execPart2).setAct i
                { e.acts i with m_cur := (e.acts i).m_cur + p.range.step }) := if_neg hover
          have hcall : (LoopAction.std p).execPart2 keeper i e
              = p.execPart2 keeper i (e.call i .execPart2) := rfl
          rw [hcall, hif, StdParameterLoop.writePar, hself]
        have hwrites : (LoopAction.std p).writesStep ((LoopAction.std p).stepAct (e.acts i))
            = true := by
          rw [hstep]
          simp [writesStep, hrunning]
        rw [hgo, hwrites]
        exact ⟨moves_write (.std p) keeper i e p.parName rfl _ _, acts_write _ _ _ _ _ _,
          fun _ => shown_write (.std p) keeper i p.parName rfl _ _ (hself _)⟩
  | itkpixv2 p =>
      have hgo : (LoopAction.itkpixv2 p).execPart2 keeper i e = ((e.call i .execPart2).setAct i
          ((LoopAction.itkpixv2 p).stepAct (e.acts i))).writeAll i p.parName
          ((LoopAction.itkpixv2 p).stepAct (e.acts i)).m_cur.toUInt16 [.globalFe] := by
        simp only [LoopAction.execPart2, Itkpixv2ParameterLoop.execPart2,
          Itkpixv2ParameterLoop.writePar, hself]
        rfl
      rw [hgo]
      exact ⟨moves_write (.itkpixv2 p) keeper i e p.parName rfl _ _, acts_write _ _ _ _ _ _,
        fun _ => shown_write (.itkpixv2 p) keeper i p.parName rfl _ _ (hself _)⟩
  | other p => exact ⟨moves_setAct (.other p) i e _ _, hself _, fun _ n hn => by cases hn⟩

theorem atEnd_spec : Moves i l.names e (l.atEnd keeper i e) [⟨i, .atEnd⟩]
    (l.writesAt keeper i (l.initAct (e.acts i)).m_cur.toUInt16) [] := by
  have hself : ∀ a, (((e.call i .atEnd).setAct i a).acts i) = a :=
    fun a => Function.update_self _ _ _
  cases l with
  | std p =>
      have hdone : (LoopAction.std p).atEnd keeper i e = ((e.call i .atEnd).setAct i
          { e.acts i with m_cur := p.range.min.toUInt32 }).writeAll i p.parName
          p.range.min.toUInt32.toUInt16 (p.targets keeper) := by
        simp only [LoopAction.atEnd, StdParameterLoop.atEnd, StdParameterLoop.writePar, hself]
        rfl
      rw [hdone]
      exact moves_write (.std p) keeper i e p.parName rfl _ _
  | itkpixv2 p =>
      have hdone : (LoopAction.itkpixv2 p).atEnd keeper i e = ((e.call i .atEnd).setAct i
          { e.acts i with m_cur := p.range.min.toUInt32 }).writeAll i p.parName
          p.range.min.toUInt32.toUInt16 [.globalFe] := by
        simp only [LoopAction.atEnd, Itkpixv2ParameterLoop.atEnd, Itkpixv2ParameterLoop.writePar,
          hself]
        rfl
      rw [hdone]
      exact moves_write (.itkpixv2 p) keeper i e p.parName rfl _ _
  | other p => exact moves_setAct (.other p) i e _ _

/-! ### The entries of one run -/

/-- From a state that is not done, the steps of the action run through these entries. -/
inductive Leads (l : LoopAction) : ActionState → List Nat → Prop
  | last {a : ActionState} : (l.stepAct a).m_done = true → Leads l a [l.entry a]
  | next {a : ActionState} {vs : List Nat} : (l.stepAct a).m_done = false →
      Leads l (l.stepAct a) vs → Leads l a (l.entry a :: vs)

theorem initAct_running (a : ActionState) : (l.initAct a).m_done = false := by cases l <;> rfl

end LoopAction

/-! ## Runs of a nest -/

/-- The calls of a run and the tuples of entries at its innermost steps, where each run of an
action takes entries as `takes` allows. -/
inductive Proper (takes : LoopAction → List Nat → Prop) :
    Nat → List LoopAction → List Call → List (List Nat) → Prop
  | innermost (i : Nat) : Proper takes i [] [] [[]]
  | run {i : Nat} {l : LoopAction} {ls : List LoopAction}
      (bodies : List (Nat × List Call × List (List Nat))) :
      takes l (bodies.map Prod.fst) →
      (∀ b ∈ bodies, Proper takes (i + 1) ls b.2.1 b.2.2) →
      Proper takes i (l :: ls)
        (⟨i, .init⟩ :: (bodies.flatMap fun b =>
          ⟨i, .execPart1⟩ :: (b.2.1 ++ [⟨i, .execPart2⟩])) ++ [⟨i, .atEnd⟩])
        (bodies.flatMap fun b => b.2.2.map (b.1 :: ·))

/-- The action is on record with an entry, and its registers hold it. -/
def LoopAction.Held (same : UInt16 → Nat → Prop) (keeper : Keeper) (i : Nat) (l : LoopAction)
    (v : Nat) (s : Snapshot) : Prop :=
  ∀ n, l.parName = some n → (s.stat i).toNat = v ∧ ∀ t ∈ l.targets keeper, same (s.regs t n) v

/-- A tuple is on record, and the registers of all loops hold it. -/
def Holds (same : UInt16 → Nat → Prop) (keeper : Keeper) :
    Nat → List LoopAction → List Nat → Snapshot → Prop
  | i, l :: ls, v :: vs, s => l.Held same keeper i v s ∧ Holds same keeper (i + 1) ls vs s
  | _, [], [], _ => True
  | _, _, _, _ => False

/-- The parameters of a nest. -/
def parNames (ls : List LoopAction) : List String := ls.filterMap LoopAction.parName

/-- What an action gives to its registers when a run takes the entries `vs`. -/
def LoopAction.Gives (l : LoopAction) (vs : List Nat) (v : UInt16) : Prop :=
  (∃ u ∈ vs, v = UInt16.ofNat u) ∨
    ∃ p u, l = .itkpixv2 p ∧ vs.getLast? = some u ∧ v = UInt16.ofNat (u + p.range.step.toNat)

def LoopAction.Takes (l : LoopAction) (vs : List Nat) : Prop := ∃ a, l.Leads (l.initAct a) vs

/-- The register of a loop holds an entry, cut to its width. -/
def Cut (r : UInt16) (v : Nat) : Prop := r = UInt16.ofNat v

/-- A snapshot inside of a run, seen from its start. -/
structure Matches (keeper : Keeper) (i : Nat) (ls : List LoopAction) (e : LoopEngine)
    (s : Snapshot) (t : List Nat) : Prop where
  stat : ∀ j < i, s.stat j = e.stat j
  regs : ∀ t n, n ∉ parNames ls → s.regs t n = e.regs t n
  holds : Holds Cut keeper i ls t s

/-- Every write is made by one of the actions and gives a value that it runs through. -/
def WroteIn (keeper : Keeper) : Nat → List LoopAction → Write → Prop
  | _, [], _ => False
  | i, l :: ls, w =>
      (w.depth = i ∧ w.target ∈ l.targets keeper ∧ ∃ vs, l.Takes vs ∧ l.Gives vs w.value) ∨
        WroteIn keeper (i + 1) ls w

/-- The `Itkpixv2ParameterLoop`s have written the value behind their last one. -/
def Finals : Nat → List LoopAction → List Write → Prop
  | _, [], _ => True
  | i, l :: ls, ws =>
      (∀ p, l = .itkpixv2 p → ∃ vs u w, l.Takes vs ∧ vs.getLast? = some u ∧ w ∈ ws ∧
        w.depth = i ∧ w.value = UInt16.ofNat (u + p.range.step.toNat)) ∧
      Finals (i + 1) ls ws

theorem Finals.mono {i : Nat} {ls : List LoopAction} {ws ws' : List Write} (h : Finals i ls ws)
    (hsub : ws ⊆ ws') : Finals i ls ws' := by
  induction ls generalizing i with
  | nil => trivial
  | cons l ls ih =>
      refine ⟨fun p hp => ?_, ih h.2⟩
      rcases h.1 p hp with ⟨vs, u, w, htakes, hlast, hw, hdepth, hvalue⟩
      exact ⟨vs, u, w, htakes, hlast, hsub hw, hdepth, hvalue⟩

/-- What a run of a nest has done. -/
def Ran (keeper : Keeper) (i : Nat) (ls : List LoopAction) (e e' : LoopEngine) : Prop :=
  ∃ cs ws ss ts, Moves i (parNames ls) e e' cs ws ss ∧ Proper LoopAction.Takes i ls cs ts ∧
    List.Forall₂ (Matches keeper i ls e) ss ts ∧ (∀ w ∈ ws, WroteIn keeper i ls w) ∧ Finals i ls ws

theorem parNames_cons (l : LoopAction) (ls : List LoopAction) :
    parNames (l :: ls) = l.names ++ parNames ls := by
  unfold parNames LoopAction.names
  rw [List.filterMap_cons]
  cases l.parName <;> rfl

theorem toUInt16_eq (v : UInt32) : v.toUInt16 = UInt16.ofNat v.toNat := by
  apply UInt16.toNat_inj.mp
  rw [UInt32.toNat_toUInt16, UInt16.toNat_ofNat']

/-! ### One loop -/

section Steps

variable {keeper : Keeper} {i : Nat} {l : LoopAction} {ls : List LoopAction}

theorem LoopAction.entry_of_parName {n : String} (h : l.parName = some n) (a : ActionState) :
    l.entry a = a.m_cur.toNat := by
  cases l with
  | std p => rfl
  | itkpixv2 p => rfl
  | other p => cases h

theorem Matches.cons {e e₁ : LoopEngine} (hfresh : ∀ n, l.parName = some n → n ∉ parNames ls)
    (hmoves : Moves i l.names e e₁ [⟨i, .execPart1⟩] [] []) (hregs : e₁.regs = e.regs)
    (hstat : e₁.stat i = (e.acts i).m_cur) (hshown : l.Shown keeper i e)
    {s : Snapshot} {t : List Nat} (h : Matches keeper (i + 1) ls e₁ s t) :
    Matches keeper i (l :: ls) e s (l.entry (e.acts i) :: t) := by
  constructor
  · intro j hj
    rw [h.stat j (Nat.lt_succ_of_lt hj), hmoves.stat j hj]
  · intro t n hn
    rw [parNames_cons, List.mem_append, not_or] at hn
    rw [h.regs t n hn.2, hregs]
  · refine ⟨fun n hn => ⟨?_, fun t ht => ?_⟩, h.holds⟩
    · rw [h.stat i (Nat.lt_succ_self i), hstat, LoopAction.entry_of_parName hn]
    · rw [Cut, h.regs t n (hfresh n hn), hregs, hshown n hn t ht, toUInt16_eq,
        LoopAction.entry_of_parName hn]

theorem Matches.later {e e₃ : LoopEngine} {cs : List Call} {ws : List Write}
    {ss : List Snapshot} (hmoves : Moves i (parNames (l :: ls)) e e₃ cs ws ss)
    {s : Snapshot} {t : List Nat} (h : Matches keeper i (l :: ls) e₃ s t) :
    Matches keeper i (l :: ls) e s t where
  stat j hj := (h.stat j hj).trans (hmoves.stat j hj)
  regs t n hn := (h.regs t n hn).trans (hmoves.regs t n hn)
  holds := h.holds

theorem LoopAction.Gives.cons {vs : List Nat} {v : UInt16} (h : l.Gives vs v) (u : Nat) :
    l.Gives (u :: vs) v := by
  rcases h with ⟨u', hu', hv⟩ | ⟨p, u', hl, hlast, hv⟩
  · exact Or.inl ⟨u', List.mem_cons_of_mem _ hu', hv⟩
  · refine Or.inr ⟨p, u', hl, ?_, hv⟩
    cases vs with
    | nil => cases hlast
    | cons v vs => rwa [List.getLast?_cons_cons]

theorem LoopAction.Leads.head {a : ActionState} {vs : List Nat} (h : l.Leads a vs) :
    ∃ rest, vs = l.entry a :: rest := by
  cases h with
  | last _ => exact ⟨[], rfl⟩
  | next _ _ => exact ⟨_, rfl⟩

theorem mem_writesAt {v : UInt16} {w : Write} (h : w ∈ l.writesAt keeper i v) :
    w.depth = i ∧ w.value = v ∧ w.target ∈ l.targets keeper := by
  rcases List.mem_map.mp h with ⟨t, ht, rfl⟩
  exact ⟨rfl, rfl, ht⟩

theorem LoopAction.parName_of_target {t : Target} (h : t ∈ l.targets keeper) :
    ∃ n, l.parName = some n := by
  cases l with
  | std p => exact ⟨_, rfl⟩
  | itkpixv2 p => exact ⟨_, rfl⟩
  | other p => exact absurd h List.not_mem_nil

theorem toUInt16_stepAct {p : Itkpixv2ParameterLoop} (a : ActionState) :
    ((LoopAction.itkpixv2 p).stepAct a).m_cur.toUInt16
      = UInt16.ofNat (a.m_cur.toNat + p.range.step.toNat) := by
  have hcur : ((LoopAction.itkpixv2 p).stepAct a).m_cur = a.m_cur + p.range.step := by
    change (LoopAction.paramStep p.range a).m_cur = _
    unfold LoopAction.paramStep
    split <;> rfl
  apply UInt16.toNat_inj.mp
  rw [hcur, UInt32.toNat_toUInt16, UInt32.toNat_add, UInt16.toNat_ofNat']
  omega

/-- The state of a run of one loop between its steps. -/
theorem steps_ran (hfresh : ∀ n, l.parName = some n → n ∉ parNames ls)
    {inner : LoopEngine → Option LoopEngine}
    (hinner : ∀ e e', inner e = some e' → Ran keeper (i + 1) ls e e') (fuel : Nat)
    {e e' : LoopEngine} (hrun : LoopEngine.steps keeper i l inner fuel e = some e')
    (hrunning : (e.acts i).m_done = false) (hshown : l.Shown keeper i e) :
    ∃ (bodies : List (Nat × List Call × List (List Nat))) (ws : List Write)
      (ss : List Snapshot),
      l.Leads (e.acts i) (bodies.map Prod.fst) ∧
      (∀ b ∈ bodies, Proper LoopAction.Takes (i + 1) ls b.2.1 b.2.2) ∧
      Moves i (parNames (l :: ls)) e e' (bodies.flatMap fun b =>
        ⟨i, .execPart1⟩ :: (b.2.1 ++ [⟨i, .execPart2⟩])) ws ss ∧
      List.Forall₂ (Matches keeper i (l :: ls) e) ss
        (bodies.flatMap fun b => b.2.2.map (b.1 :: ·)) ∧
      (∀ w ∈ ws, (w.depth = i ∧ w.target ∈ l.targets keeper ∧
        l.Gives (bodies.map Prod.fst) w.value) ∨ WroteIn keeper (i + 1) ls w) ∧
      (∀ p, l = .itkpixv2 p → ∃ u w, (bodies.map Prod.fst).getLast? = some u ∧ w ∈ ws ∧
        w.depth = i ∧ w.value = UInt16.ofNat (u + p.range.step.toNat)) ∧
      Finals (i + 1) ls ws := by
  induction fuel generalizing e with
  | zero => cases hrun
  | succ fuel ih =>
      rw [LoopEngine.steps, hrunning] at hrun
      simp only [Bool.false_eq_true, if_false] at hrun
      rcases Option.bind_eq_some_iff.mp hrun with ⟨e₂, hbody, hrest⟩
      rcases l.execPart1_spec i e with ⟨hfirst, hacts₁, hregs₁, hstat₁⟩
      rcases hinner _ _ hbody with ⟨cs, ws, ss, ts, hmoves, hproper, hmatch, hwrote, hfinals⟩
      have hact₂ : e₂.acts i = e.acts i := by rw [hmoves.acts i (Nat.lt_succ_self i), hacts₁]
      rcases l.execPart2_spec keeper i e₂ (hact₂ ▸ hrunning) with ⟨hsecond, hact₃, hshown₃⟩
      rw [hact₂] at hsecond hact₃ hshown₃
      have hnames : l.names ⊆ parNames (l :: ls) := by
        rw [parNames_cons]
        exact List.subset_append_left _ _
      have hnames' : parNames ls ⊆ parNames (l :: ls) := by
        rw [parNames_cons]
        exact List.subset_append_right _ _
      -- one step of the loop, as a whole
      have hstep := ((hfirst.mono (Nat.le_refl i) hnames).trans
        (hmoves.mono (Nat.le_succ i) hnames')).trans (hsecond.mono (Nat.le_refl i) hnames)
      have hseen : List.Forall₂ (Matches keeper i (l :: ls) e) ss
          (ts.map (l.entry (e.acts i) :: ·)) := by
        rw [List.forall₂_map_right_iff]
        exact hmatch.imp fun s t h => h.cons hfresh hfirst hregs₁ hstat₁ hshown
      have hcalls : [⟨i, .execPart1⟩] ++ cs ++ [⟨i, .execPart2⟩]
          = (⟨i, .execPart1⟩ : Call) :: (cs ++ [⟨i, .execPart2⟩]) := by simp
      simp only [List.nil_append, List.append_nil, hcalls] at hstep
      by_cases hdone : (l.stepAct (e.acts i)).m_done = true
      · have hlast : e' = l.execPart2 keeper i e₂ := by
          cases fuel with
          | zero => cases hrest
          | succ fuel =>
              rw [LoopEngine.steps, hact₃, hdone] at hrest
              exact (Option.some.inj hrest).symm
        rw [hlast]
        refine ⟨[(l.entry (e.acts i), cs, ts)], ws ++ l.writesIf keeper i
          (l.writesStep (l.stepAct (e.acts i))) (l.stepAct (e.acts i)).m_cur.toUInt16, ss,
          .last hdone, ?_, ?_, ?_, ?_, ?_, ?_⟩
        · intro b hb
          rw [List.mem_singleton.mp hb]
          exact hproper
        · simpa using hstep
        · simpa using hseen
        · intro w hw
          rcases List.mem_append.mp hw with hw | hw
          · exact Or.inr (hwrote w hw)
          · unfold LoopAction.writesIf at hw
            split at hw
            · rename_i hif
              rcases mem_writesAt hw with ⟨hdepth, hvalue, htarget⟩
              refine Or.inl ⟨hdepth, htarget, ?_⟩
              cases l with
              | std p => simp [LoopAction.writesStep, hdone] at hif
              | itkpixv2 p =>
                  refine Or.inr ⟨p, _, rfl, rfl, ?_⟩
                  rw [hvalue, toUInt16_stepAct]
                  rfl
              | other p => exact absurd htarget List.not_mem_nil
            · exact absurd hw List.not_mem_nil
        · rintro p rfl
          refine ⟨_, ⟨i, .globalFe, _⟩, rfl, ?_, rfl, toUInt16_stepAct (e.acts i)⟩
          exact List.mem_append_right _ (List.mem_singleton.mpr rfl)
        · exact hfinals.mono (List.subset_append_left _ _)
      · have hgo : (l.stepAct (e.acts i)).m_done = false := by simpa using hdone
        rcases ih hrest (hact₃ ▸ hgo) (hshown₃ hgo) with
          ⟨bodies, ws', ss', hleads, hbodies, hmoves', hmatch', hwrote', hlast', hfinals'⟩
        rw [hact₃] at hleads
        refine ⟨(l.entry (e.acts i), cs, ts) :: bodies, (ws ++ l.writesIf keeper i
          (l.writesStep (l.stepAct (e.acts i))) (l.stepAct (e.acts i)).m_cur.toUInt16) ++ ws',
          ss ++ ss', .next hgo hleads, ?_, ?_, ?_, ?_, ?_, ?_⟩
        · rw [List.forall_mem_cons]
          exact ⟨hproper, hbodies⟩
        · exact hstep.trans hmoves'
        · rw [List.flatMap_cons]
          exact List.rel_append hseen (hmatch'.imp fun s t h => h.later hstep)
        · intro w hw
          rcases List.mem_append.mp hw with hw | hw
          · rcases List.mem_append.mp hw with hw | hw
            · exact Or.inr (hwrote w hw)
            · unfold LoopAction.writesIf at hw
              split at hw
              · rcases mem_writesAt hw with ⟨hdepth, hvalue, htarget⟩
                refine Or.inl ⟨hdepth, htarget, Or.inl ?_⟩
                rcases LoopAction.parName_of_target htarget with ⟨n, hn⟩
                rcases hleads.head with ⟨rest, hhead⟩
                refine ⟨l.entry (l.stepAct (e.acts i)), ?_, ?_⟩
                · rw [List.map_cons, hhead]
                  exact List.mem_cons_of_mem _ List.mem_cons_self
                · rw [hvalue, toUInt16_eq, LoopAction.entry_of_parName hn]
              · exact absurd hw List.not_mem_nil
          · rcases hwrote' w hw with ⟨hdepth, htarget, hgives⟩ | hin
            · exact Or.inl ⟨hdepth, htarget, hgives.cons _⟩
            · exact Or.inr hin
        · rintro p rfl
          rcases hlast' p rfl with ⟨u, w, hu, hw, hdepth, hvalue⟩
          refine ⟨u, w, ?_, List.mem_append_right _ hw, hdepth, hvalue⟩
          rcases hleads.head with ⟨rest, hhead⟩
          rw [List.map_cons, hhead, List.getLast?_cons_cons, ← hhead]
          exact hu
        · exact hfinals'.mono (List.subset_append_right _ _)

end Steps

/-! ### All loops -/

/-- A run that comes to its end has run all actions as they go. -/
theorem run_ran {keeper : Keeper} (fuel : Nat) {i : Nat} {ls : List LoopAction}
    (hnames : (parNames ls).Nodup) {e e' : LoopEngine}
    (hrun : LoopEngine.run keeper fuel i ls e = some e') : Ran keeper i ls e e' := by
  induction ls generalizing i e e' with
  | nil =>
      have hrecord : e' = e.record := (Option.some.inj hrun).symm
      rw [hrecord]
      refine ⟨[], [], [e.toSnapshot], [[]], ?_, .innermost i, ?_, ?_, trivial⟩
      · exact ⟨fun _ _ => rfl, fun _ _ => rfl, fun _ _ _ => rfl, (List.append_nil _).symm,
          (List.append_nil _).symm, rfl⟩
      · exact .cons ⟨fun _ _ => rfl, fun _ _ _ => rfl, trivial⟩ .nil
      · exact fun w hw => absurd hw List.not_mem_nil
  | cons l ls ih =>
      have hsplit := hnames
      rw [parNames_cons, List.nodup_append] at hsplit
      have hfresh : ∀ n, l.parName = some n → n ∉ parNames ls := by
        intro n hn hmem
        exact hsplit.2.2 n (by simp [LoopAction.names, hn]) n hmem rfl
      rcases Option.map_eq_some_iff.mp hrun with ⟨e₂, hsteps, hend⟩
      rcases l.init_spec keeper i e with ⟨hinit, hact, hshown⟩
      have hrunning : ((l.init keeper i e).acts i).m_done = false := by
        rw [hact]
        exact l.initAct_running _
      rcases steps_ran hfresh (fun e e' h => ih hsplit.2.1 h) fuel hsteps hrunning hshown with
        ⟨bodies, ws, ss, hleads, hbodies, hmoves, hmatch, hwrote, hlast, hfinals⟩
      have hatEnd := l.atEnd_spec keeper i e₂
      rw [hend] at hatEnd
      rw [hact] at hleads
      have htakes : l.Takes (bodies.map Prod.fst) := ⟨_, hleads⟩
      have hsub : l.names ⊆ parNames (l :: ls) := by
        rw [parNames_cons]
        exact List.subset_append_left _ _
      have hfirst : ∀ a v, v = (l.initAct a).m_cur.toUInt16 → ∀ w ∈ l.writesAt keeper i v,
          WroteIn keeper i (l :: ls) w := by
        intro a v hv w hw
        rcases mem_writesAt hw with ⟨hdepth, hvalue, htarget⟩
        rcases LoopAction.parName_of_target htarget with ⟨n, hn⟩
        rcases hleads.head with ⟨rest, hhead⟩
        refine Or.inl ⟨hdepth, htarget, _, htakes, Or.inl ⟨l.entry (l.initAct (e.acts i)), ?_, ?_⟩⟩
        · rw [hhead]
          exact List.mem_cons_self
        · rw [hvalue, hv, toUInt16_eq, LoopAction.entry_of_parName hn]
          cases l with
          | std p => rfl
          | itkpixv2 p => rfl
          | other p => cases hn
      have hmoves' := ((hinit.mono (Nat.le_refl i) hsub).trans hmoves).trans
        (hatEnd.mono (Nat.le_refl i) hsub)
      refine ⟨_, _, _, _, hmoves', .run bodies htakes hbodies, ?_, ?_, ?_, ?_⟩
      · simp only [List.nil_append, List.append_nil]
        exact hmatch.imp fun s t h => h.later (hinit.mono (Nat.le_refl i) hsub)
      · intro w hw
        rcases List.mem_append.mp hw with hw | hw
        · rcases List.mem_append.mp hw with hw | hw
          · exact hfirst _ _ rfl w hw
          · rcases hwrote w hw with ⟨hdepth, htarget, hgives⟩ | hin
            · exact Or.inl ⟨hdepth, htarget, _, htakes, hgives⟩
            · exact Or.inr hin
        · exact hfirst _ _ rfl w hw
      · intro p hp
        rcases hlast p hp with ⟨u, w, hu, hw, hdepth, hvalue⟩
        exact ⟨_, u, w, htakes, hu, List.mem_append_left _ (List.mem_append_right _ hw), hdepth,
          hvalue⟩
      · exact hfinals.mono fun w hw => List.mem_append_left _ (List.mem_append_right _ hw)

end Yarr.Scan
