import Mathlib.Data.List.ReduceOption
import Yarr.Star.StarTriggerThrottleAnalysis

/-!
# Runs through the points of a scan

The bunches of several points may come in any order. What is kept under an
identifier depends on the inputs for it only.
-/

namespace Yarr.Star

open Scan

namespace ThrottleInput

def stat : ThrottleInput → LoopStatus
  | occupancyMap stat _ => stat
  | triggerComplete stat => stat

def bunch : ThrottleInput → Option Bunch
  | occupancyMap _ bunch => some bunch
  | triggerComplete _ => none

end ThrottleInput

namespace StarTriggerThrottleAnalysis

variable (a : StarTriggerThrottleAnalysis)

/-- The inputs for a point: bunches, and the completion as `none`. -/
def traceAt (p : List UInt32) (inputs : List ThrottleInput) : List (Option Bunch) :=
  (inputs.filter fun input => a.point input.stat = p).map ThrottleInput.bunch

def bunchesAt (p : List UInt32) (inputs : List ThrottleInput) : List Bunch :=
  (a.traceAt p inputs).reduceOption

/-- The points in the order of their completion. -/
def completions (inputs : List ThrottleInput) : List (List UInt32) :=
  (inputs.filter fun input => input.bunch.isNone).map fun input => a.point input.stat

/-- Each point has bunches of triggers, with maps of the size of the front end, and then its
completion. -/
structure WholeRun (pts : List (List UInt32)) (inputs : List ThrottleInput) : Prop where
  nodup : pts.Nodup
  inside : ∀ input ∈ inputs, a.point input.stat ∈ pts
  trace : ∀ p ∈ pts, a.traceAt p inputs = (a.bunchesAt p inputs).map some ++ [none]
  ne_nil : ∀ p ∈ pts, a.bunchesAt p inputs ≠ []
  size : ∀ input ∈ inputs, ∀ b ∈ input.bunch, b.curr_occ.size = a.nCol * a.nRow

/-- The bunches of a point with the answers to them. -/
def answered (inputs : List ThrottleInput) (p : List UInt32) : List (Bunch × Int) :=
  (ThrottleSlot.addBunches a.m_target_occ a.nCol a.nRow (a.bunchesAt p inputs)).2

def triggersAt (inputs : List ThrottleInput) (p : List UInt32) : Nat :=
  ((a.bunchesAt p inputs).map fun b => b.nbTriggersInBunch.toNat).sum

/-! ## What changes -/

variable {a}

/-- Only the maps, the answers and the output change. -/
def Changed (a b : StarTriggerThrottleAnalysis) : Prop :=
  ∃ occ saturated tot feedback output, b =
    { a with
      m_occMapAllBunches := occ
      m_occMapSaturatedChannels := saturated
      m_totNbTriggersSoFar := tot
      m_feedback := feedback
      output := output }

theorem Changed.processHistogram {b : StarTriggerThrottleAnalysis} (h : Changed a b)
    (input : ThrottleInput) : Changed a (b.processHistogram input) := by
  obtain ⟨occ, saturated, tot, feedback, output, rfl⟩ := h
  cases input with
  | occupancyMap stat bunch => exact ⟨_, _, _, _, _, rfl⟩
  | triggerComplete stat =>
      unfold StarTriggerThrottleAnalysis.processHistogram
      dsimp only
      split
      · exact ⟨_, _, _, _, _, rfl⟩
      · exact ⟨_, _, _, _, _, rfl⟩

theorem run_concat (a : StarTriggerThrottleAnalysis) (inputs : List ThrottleInput)
    (input : ThrottleInput) :
    a.run (inputs ++ [input]) = (a.run inputs).processHistogram input := by
  unfold run
  rw [List.foldl_append]
  rfl

theorem changed_run (a : StarTriggerThrottleAnalysis) (inputs : List ThrottleInput) :
    Changed a (a.run inputs) := by
  induction inputs using List.reverseRecOn with
  | nil => exact ⟨_, _, _, _, _, rfl⟩
  | append_singleton inputs input ih =>
      rw [run_concat]
      exact ih.processHistogram input

theorem Changed.point_eq {b : StarTriggerThrottleAnalysis} (h : Changed a b) (ls : LoopStatus) :
    b.point ls = a.point ls := by
  obtain ⟨_, _, _, _, _, rfl⟩ := h
  rfl

theorem Changed.identOf_eq {b : StarTriggerThrottleAnalysis} (h : Changed a b)
    (values : List UInt32) : b.identOf values = a.identOf values := by
  obtain ⟨_, _, _, _, _, rfl⟩ := h
  rfl

theorem Changed.buildIdent_eq {b : StarTriggerThrottleAnalysis} (h : Changed a b)
    (ls : LoopStatus) : b.buildIdent ls = a.identOf (a.point ls) := by
  unfold buildIdent
  rw [h.point_eq, h.identOf_eq]

/-- What an input does to the slot of its identifier. -/
def slotStep (a : StarTriggerThrottleAnalysis) (s : ThrottleSlot) : Option Bunch → ThrottleSlot
  | some b => (s.addBunch a.m_target_occ a.nCol a.nRow b).1
  | none => s.endBin

theorem Changed.slotStep_eq {b : StarTriggerThrottleAnalysis} (h : Changed a b) :
    b.slotStep = a.slotStep := by
  obtain ⟨_, _, _, _, _, rfl⟩ := h
  rfl

theorem slotAt_store_self (ident : UInt32) {s : ThrottleSlot}
    (h : s.totNbTriggersSoFar = none → a.m_totNbTriggersSoFar.find ident.toNat = none) :
    (a.store ident s).slotAt ident = s := by
  obtain ⟨occ, saturated, tot⟩ := s
  unfold store slotAt
  dsimp only
  rw [Function.update_self, Function.update_self]
  cases tot with
  | some tot =>
      dsimp only
      rw [KeyMap.find_insert, if_pos rfl]
  | none =>
      dsimp only
      rw [h rfl]

theorem slotAt_store_ne {ident k : UInt32} (hne : k ≠ ident) (s : ThrottleSlot) :
    (a.store ident s).slotAt k = a.slotAt k := by
  obtain ⟨occ, saturated, tot⟩ := s
  have hne' : k.toNat ≠ ident.toNat := fun h => hne (UInt32.toNat_inj.mp h)
  unfold store slotAt
  dsimp only
  rw [Function.update_of_ne hne, Function.update_of_ne hne]
  cases tot with
  | some tot =>
      dsimp only
      rw [KeyMap.find_insert, if_neg hne']
  | none => rfl

theorem endBin_of_none {s : ThrottleSlot} (h : s.average = none) : s.endBin = s := by
  obtain ⟨occ, saturated, tot⟩ := s
  unfold ThrottleSlot.average at h
  obtain rfl : occ = none := Option.map_eq_none_iff.mp h
  rfl

theorem slotAt_processHistogram (a : StarTriggerThrottleAnalysis) (input : ThrottleInput)
    (ident : UInt32) : (a.processHistogram input).slotAt ident =
      if a.buildIdent input.stat = ident then a.slotStep (a.slotAt ident) input.bunch
      else a.slotAt ident := by
  cases input with
  | occupancyMap stat bunch =>
      show (a.store (a.buildIdent stat)
          ((a.slotAt (a.buildIdent stat)).addBunch a.m_target_occ a.nCol a.nRow bunch).1).slotAt
            ident =
        if a.buildIdent stat = ident then
          ((a.slotAt ident).addBunch a.m_target_occ a.nCol a.nRow bunch).1
        else a.slotAt ident
      by_cases heq : a.buildIdent stat = ident
      · rw [if_pos heq, heq]
        exact slotAt_store_self ident fun h => absurd h (Option.some_ne_none _)
      · rw [if_neg heq]
        exact slotAt_store_ne (Ne.symm heq) _
  | triggerComplete stat =>
      show (a.processHistogram (.triggerComplete stat)).slotAt ident =
        if a.buildIdent stat = ident then (a.slotAt ident).endBin else a.slotAt ident
      rw [processHistogram]
      dsimp only
      by_cases heq : a.buildIdent stat = ident
      · rw [if_pos heq, heq]
        cases haverage : (a.slotAt ident).average with
        | some occ => exact slotAt_store_self ident fun h => h
        | none => exact (endBin_of_none haverage).symm
      · rw [if_neg heq]
        cases haverage : (a.slotAt (a.buildIdent stat)).average with
        | some occ => exact slotAt_store_ne (Ne.symm heq) _
        | none => rfl

theorem traceAt_concat (p : List UInt32) (inputs : List ThrottleInput) (input : ThrottleInput) :
    a.traceAt p (inputs ++ [input]) =
      a.traceAt p inputs ++ if a.point input.stat = p then [input.bunch] else [] := by
  unfold traceAt
  rw [List.filter_append, List.map_append]
  by_cases h : a.point input.stat = p
  · simp [h]
  · simp [h]

theorem slotAt_run {pts : List (List UInt32)} {p : List UInt32} (hp : p ∈ pts)
    (hident : ∀ p ∈ pts, ∀ q ∈ pts, a.identOf p = a.identOf q → p = q)
    {inputs : List ThrottleInput} (hinside : ∀ input ∈ inputs, a.point input.stat ∈ pts) :
    (a.run inputs).slotAt (a.identOf p) =
      (a.traceAt p inputs).foldl a.slotStep (a.slotAt (a.identOf p)) := by
  induction inputs using List.reverseRecOn with
  | nil => rfl
  | append_singleton inputs input ih =>
      have hbefore := ih fun i hi => hinside i (List.mem_append_left _ hi)
      have hin := hinside input (List.mem_append_right _ (List.mem_singleton_self _))
      have hchanged := changed_run a inputs
      rw [run_concat, slotAt_processHistogram, hchanged.buildIdent_eq, hbefore, traceAt_concat,
        hchanged.slotStep_eq, List.foldl_append]
      by_cases heq : a.point input.stat = p
      · rw [if_pos heq, if_pos (congrArg a.identOf heq)]
        rfl
      · rw [if_neg heq, if_neg fun h => heq (hident _ hin p hp h)]
        rfl

end StarTriggerThrottleAnalysis

end Yarr.Star

/-!
## The outputs of the throttled triggers

One averaged map for each point of the scan, at its completion, and at the end
the number of triggers of each point, in the order of the identifiers.
-/

namespace Yarr.Star.StarTriggerThrottleAnalysis

open Scan

variable {a : StarTriggerThrottleAnalysis}

/-! ## At the start -/

/-- Nothing has come in yet, and each loop of interest has its limit. -/
structure Fresh (a : StarTriggerThrottleAnalysis) : Prop where
  slot : ∀ ident, a.slotAt ident = {}
  tot : a.m_totNbTriggersSoFar = []
  output : a.output = []
  loops : a.ident_loops.length = a.loopMax.length

theorem Fresh.initLoops (h : a.Fresh) (n : Nat) (s : List ThrottleLoop) :
    (a.initLoops n s).Fresh := by
  induction s generalizing a n with
  | nil => exact h
  | cons l s ih =>
      apply ih
      unfold initLoop
      split
      · refine ⟨h.slot, h.tot, h.output, ?_⟩
        rw [List.length_append, List.length_append, h.loops]
        rfl
      · exact h

theorem fresh_init (nCol nRow : Nat) (m_target_occ : UInt32) (s : List ThrottleLoop) :
    (init nCol nRow m_target_occ s).Fresh :=
  Fresh.initLoops ⟨fun _ => rfl, rfl, rfl, rfl⟩ 0 s

theorem length_point (h : a.Fresh) (ls : LoopStatus) :
    (a.point ls).length = a.loopMax.length := by
  unfold point
  rw [List.length_map, h.loops]

/-! ## The slot of a point -/

theorem foldl_slotStep (bunches : List Bunch) :
    (bunches.map some).foldl a.slotStep {} =
      (ThrottleSlot.addBunches a.m_target_occ a.nCol a.nRow bunches).1 := by
  induction bunches using List.reverseRecOn with
  | nil => rfl
  | append_singleton bunches b ih =>
      rw [List.map_append, List.foldl_append, ih, ThrottleSlot.addBunches_concat]
      rfl

variable {pts : List (List UInt32)} {inputs : List ThrottleInput}

theorem mem_bunchesAt {p : List UInt32} {b : Bunch} (hb : b ∈ a.bunchesAt p inputs) :
    ∃ input ∈ inputs, b ∈ input.bunch := by
  unfold bunchesAt traceAt at hb
  have hsome := List.reduceOption_mem_iff.mp hb
  rcases List.mem_map.mp hsome with ⟨input, hinput, heq⟩
  exact ⟨input, List.mem_of_mem_filter hinput, heq⟩

theorem WholeRun.holds (hrun : a.WholeRun pts inputs) (p : List UInt32) :
    ThrottleSlot.Holds a.nCol a.nRow
      (ThrottleSlot.addBunches a.m_target_occ a.nCol a.nRow (a.bunchesAt p inputs)).1
      (a.triggersAt inputs p) fun i => ChannelSum.addAll i (a.answered inputs p) := by
  apply ThrottleSlot.holds_addBunches
  intro b hb
  rcases mem_bunchesAt hb with ⟨input, hinput, hbunch⟩
  exact hrun.size input hinput b hbunch

theorem exists_slot {bunches : List Bunch} (hne : bunches ≠ []) :
    ∃ occ saturated tot,
      (ThrottleSlot.addBunches a.m_target_occ a.nCol a.nRow bunches).1 =
        ⟨some occ, saturated, some tot⟩ := by
  rcases List.eq_nil_or_concat bunches with rfl | ⟨bunches, b, rfl⟩
  · exact absurd rfl hne
  · rw [List.concat_eq_append, ThrottleSlot.addBunches_concat]
    exact ⟨_, _, _, rfl⟩

/-- The map that is put out for a point: the channels over the triggers. -/
structure MapOf (a : StarTriggerThrottleAnalysis) (inputs : List ThrottleInput)
    (p : List UInt32) (occ : Histo2d) : Prop where
  size : occ.size = a.nCol * a.nRow
  channel : ∀ i < a.nCol * a.nRow, occ.getBin i =
    (ChannelSum.addAll i (a.answered inputs p)).occ / a.triggersAt inputs p
  sum : ∀ i < a.nCol * a.nRow, ChannelSum.Unsaturated i (a.answered inputs p) → occ.getBin i =
    ((a.bunchesAt p inputs).map fun b => b.curr_occ.getBin i).sum / a.triggersAt inputs p

theorem WholeRun.mapOf (hrun : a.WholeRun pts inputs) {p : List UInt32} (hp : p ∈ pts) :
    ∃ occ, (ThrottleSlot.addBunches a.m_target_occ a.nCol a.nRow (a.bunchesAt p inputs)).1.average =
      some occ ∧ a.MapOf inputs p occ := by
  have hholds := hrun.holds p
  rcases exists_slot (a := a) (hrun.ne_nil p hp) with ⟨occ, saturated, tot, hslot⟩
  rw [hslot] at hholds ⊢
  have htot : tot = a.triggersAt inputs p := hholds.tot
  have hbin : ∀ i < a.nCol * a.nRow, (occ.scale (1 / (tot : ℚ))).getBin i =
      (ChannelSum.addAll i (a.answered inputs p)).occ / a.triggersAt inputs p := by
    intro i hi
    have hocc : occ.getBin i = _ := hholds.occ i hi
    rw [Histo2d.getBin_scale, hocc, htot, mul_one_div]
  refine ⟨occ.scale (1 / (tot : ℚ)), rfl, hholds.size_occ, hbin, ?_⟩
  intro i hi hunsaturated
  have hmap : (a.answered inputs p).map (fun b => b.1.curr_occ.getBin i) =
      (a.bunchesAt p inputs).map fun b => b.curr_occ.getBin i := by
    have hbunches := ThrottleSlot.map_addBunches a.m_target_occ a.nCol a.nRow
      (a.bunchesAt p inputs)
    calc
      _ = ((a.answered inputs p).map Prod.fst).map fun b => b.curr_occ.getBin i :=
          List.map_map.symm
      _ = _ := by
          unfold answered
          rw [hbunches]
  rw [hbin i hi, (ChannelSum.occ_addAll hunsaturated).1, hmap]

/-! ## The maps -/

theorem eq_of_before_none {α : Type} {xs : List α} {before after : List (Option α)}
    (h : before ++ none :: after = xs.map some ++ [none]) : before = xs.map some := by
  induction xs generalizing before with
  | nil =>
      cases before with
      | nil => rfl
      | cons x before =>
          obtain ⟨_, htail⟩ := List.cons.inj h
          exact absurd htail (by simp)
  | cons x xs ih =>
      cases before with
      | nil => exact absurd (List.cons.inj h).1 (Option.some_ne_none x).symm
      | cons y before =>
          obtain ⟨rfl, htail⟩ := List.cons.inj h
          rw [ih htail]
          rfl

theorem completions_concat (inputs : List ThrottleInput) (input : ThrottleInput) :
    a.completions (inputs ++ [input]) =
      a.completions inputs ++ if input.bunch.isNone then [a.point input.stat] else [] := by
  unfold completions
  rw [List.filter_append, List.map_append]
  by_cases h : input.bunch.isNone
  · simp [h]
  · simp [h]

theorem output_run (hfresh : a.Fresh) (hrun : a.WholeRun pts inputs)
    (hident : ∀ p ∈ pts, ∀ q ∈ pts, a.identOf p = a.identOf q → p = q)
    {before after : List ThrottleInput} (hsplit : inputs = before ++ after) :
    List.Forall₂ (a.MapOf inputs) (a.completions before) (a.run before).output := by
  induction before using List.reverseRecOn generalizing after with
  | nil =>
      show List.Forall₂ _ [] a.output
      rw [hfresh.output]
      exact .nil
  | append_singleton before input ih =>
      have hbefore := @ih (input :: after) (by rw [hsplit, List.append_assoc]; rfl)
      have hmem : input ∈ inputs := by
        rw [hsplit]
        simp
      have hchanged := changed_run a before
      rw [run_concat, completions_concat]
      cases input with
      | occupancyMap stat bunch =>
          rw [if_neg (by exact Bool.false_ne_true), List.append_nil]
          exact hbefore
      | triggerComplete stat =>
          have hp : a.point stat ∈ pts := hrun.inside _ hmem
          have htrace : a.traceAt (a.point stat) before =
              (a.bunchesAt (a.point stat) inputs).map some := by
            apply @eq_of_before_none _ _ _ (a.traceAt (a.point stat) after)
            rw [← hrun.trace _ hp]
            conv_rhs => rw [hsplit]
            unfold traceAt
            rw [List.filter_append, List.filter_append, List.map_append, List.map_append]
            simp [ThrottleInput.stat, ThrottleInput.bunch]
          have hinside : ∀ i ∈ before, a.point i.stat ∈ pts := fun i hi =>
            hrun.inside i (by rw [hsplit]; simp [hi])
          have hslot := slotAt_run hp hident hinside
          rw [hfresh.slot, htrace, foldl_slotStep] at hslot
          rcases hrun.mapOf hp with ⟨occ, haverage, hmap⟩
          have hnext : (a.run before).processHistogram (.triggerComplete stat) =
              { (a.run before).store ((a.run before).buildIdent stat)
                  ((a.run before).slotAt ((a.run before).buildIdent stat)).endBin with
                output := (a.run before).output ++ [occ] } := by
            unfold processHistogram
            dsimp only
            rw [hchanged.buildIdent_eq, hslot, haverage]
          rw [if_pos (by rfl), hnext]
          exact List.rel_append hbefore (.cons hmap .nil)

theorem count_completions (p : List UInt32) (inputs : List ThrottleInput) :
    (a.completions inputs).count p = ((a.traceAt p inputs).filter Option.isNone).length := by
  induction inputs using List.reverseRecOn with
  | nil => rfl
  | append_singleton inputs input ih =>
      rw [completions_concat, traceAt_concat, List.count_append, List.filter_append,
        List.length_append, ih]
      congr 1
      by_cases hnone : input.bunch.isNone
      · by_cases hp : a.point input.stat = p
        · simp [hnone, hp]
        · simp [hnone, hp]
      · by_cases hp : a.point input.stat = p
        · simp [hnone, hp]
        · simp [hnone, hp]

theorem WholeRun.perm (hrun : a.WholeRun pts inputs) : (a.completions inputs).Perm pts := by
  rw [List.perm_iff_count]
  intro p
  rw [count_completions]
  by_cases hp : p ∈ pts
  · rw [hrun.trace p hp, List.count_eq_one_of_mem hrun.nodup hp, List.filter_append,
      List.length_append]
    have hsome : ((a.bunchesAt p inputs).map some).filter Option.isNone = [] := by
      rw [List.filter_eq_nil_iff]
      simp
    rw [hsome]
    rfl
  · have hnone : a.traceAt p inputs = [] := by
      unfold traceAt
      rw [List.map_eq_nil_iff, List.filter_eq_nil_iff]
      intro input hinput hpoint
      have hpoint' : a.point input.stat = p := by simpa using hpoint
      exact hp (hpoint' ▸ hrun.inside input hinput)
    rw [hnone, List.count_eq_zero_of_not_mem hp]
    rfl

/-! ## The numbers of triggers -/

theorem tot_occupancyMap (a : StarTriggerThrottleAnalysis) (stat : LoopStatus) (bunch : Bunch) :
    (a.processHistogram (.occupancyMap stat bunch)).m_totNbTriggersSoFar =
      (a.store (a.buildIdent stat) ((a.slotAt (a.buildIdent stat)).addBunch a.m_target_occ a.nCol
        a.nRow bunch).1).m_totNbTriggersSoFar := rfl

theorem ordered_store {ident : UInt32} {s : ThrottleSlot} (h : a.m_totNbTriggersSoFar.Ordered) :
    (a.store ident s).m_totNbTriggersSoFar.Ordered := by
  unfold store
  dsimp only
  split
  · exact h.insert _ _
  · exact h

theorem ordered_run (h : a.m_totNbTriggersSoFar.Ordered) (inputs : List ThrottleInput) :
    (a.run inputs).m_totNbTriggersSoFar.Ordered := by
  induction inputs using List.reverseRecOn with
  | nil => exact h
  | append_singleton inputs input ih =>
      rw [run_concat]
      cases input with
      | occupancyMap stat bunch =>
          rw [tot_occupancyMap]
          exact ordered_store ih
      | triggerComplete stat =>
          unfold processHistogram
          dsimp only
          split
          · exact ordered_store ih
          · exact ih

theorem mem_keys_run (hfresh : a.Fresh) {inputs : List ThrottleInput} {k : Nat}
    (hk : k ∈ KeyMap.keys (a.run inputs).m_totNbTriggersSoFar) :
    ∃ input ∈ inputs, k = (a.identOf (a.point input.stat)).toNat := by
  induction inputs using List.reverseRecOn with
  | nil =>
      have hnil : (a.run []).m_totNbTriggersSoFar = [] := hfresh.tot
      rw [hnil] at hk
      exact absurd hk List.not_mem_nil
  | append_singleton inputs input ih =>
      have hchanged := changed_run a inputs
      have hstore : ∀ s : ThrottleSlot,
          k ∈ KeyMap.keys ((a.run inputs).store ((a.run inputs).buildIdent input.stat)
            s).m_totNbTriggersSoFar →
          ∃ i ∈ inputs ++ [input], k = (a.identOf (a.point i.stat)).toNat := by
        intro s hs
        have hcases : k = ((a.run inputs).buildIdent input.stat).toNat ∨
            k ∈ KeyMap.keys (a.run inputs).m_totNbTriggersSoFar := by
          unfold store at hs
          dsimp only at hs
          split at hs
          · exact KeyMap.mem_keys_insert.mp hs
          · exact Or.inr hs
        rcases hcases with hself | hbefore
        · rw [hchanged.buildIdent_eq] at hself
          exact ⟨input, by simp, hself⟩
        · rcases ih hbefore with ⟨i, hi, heq⟩
          exact ⟨i, List.mem_append_left _ hi, heq⟩
      rw [run_concat] at hk
      cases input with
      | occupancyMap stat bunch =>
          rw [tot_occupancyMap] at hk
          exact hstore _ hk
      | triggerComplete stat =>
          unfold processHistogram at hk
          dsimp only at hk
          split at hk
          · exact hstore _ hk
          · rcases ih hk with ⟨i, hi, heq⟩
            exact ⟨i, List.mem_append_left _ hi, heq⟩

theorem find_run (hfresh : a.Fresh) (hrun : a.WholeRun pts inputs)
    (hident : ∀ p ∈ pts, ∀ q ∈ pts, a.identOf p = a.identOf q → p = q) {p : List UInt32}
    (hp : p ∈ pts) : (a.run inputs).m_totNbTriggersSoFar.find (a.identOf p).toNat =
      some (a.triggersAt inputs p) := by
  have hslot := slotAt_run hp hident hrun.inside
  rw [hfresh.slot, hrun.trace p hp, List.foldl_append, foldl_slotStep] at hslot
  have hholds := hrun.holds p
  rcases exists_slot (a := a) (hrun.ne_nil p hp) with ⟨occ, saturated, tot, heq⟩
  rw [heq] at hholds hslot
  have htot : tot = a.triggersAt inputs p := hholds.tot
  have hfind : (a.run inputs).m_totNbTriggersSoFar.find (a.identOf p).toNat = some tot :=
    congrArg ThrottleSlot.totNbTriggersSoFar hslot
  rw [hfind, htot]

theorem exists_points {α β : Type} {f : α → β} {xs : List α} {ys : List β}
    (h : ∀ y ∈ ys, ∃ x ∈ xs, y = f x) : ∃ order : List α, order.map f = ys ∧ ∀ x ∈ order, x ∈ xs := by
  induction ys with
  | nil => exact ⟨[], rfl, fun x hx => absurd hx List.not_mem_nil⟩
  | cons y ys ih =>
      rcases ih fun y' hy' => h y' (List.mem_cons_of_mem _ hy') with ⟨order, rfl, horder⟩
      rcases h y List.mem_cons_self with ⟨x, hx, rfl⟩
      refine ⟨x :: order, rfl, ?_⟩
      intro x' hx'
      rcases List.mem_cons.mp hx' with rfl | hx'
      · exact hx
      · exact horder x' hx'

/-- One bin for each point, in the order of the identifiers. -/
theorem numTriggers_run (hfresh : a.Fresh) (hrun : a.WholeRun pts inputs)
    (hident : ∀ p ∈ pts, ∀ q ∈ pts, a.identOf p = a.identOf q → p = q) :
    ∃ order : List (List UInt32), order.Perm pts ∧
      (order.map fun p => (a.identOf p).toNat).Pairwise (· < ·) ∧
      (a.run inputs).numTriggers = order.map (a.triggersAt inputs) := by
  have hordered : (a.run inputs).m_totNbTriggersSoFar.Ordered := by
    apply ordered_run
    rw [hfresh.tot]
    exact List.Pairwise.nil
  have hkeys : ∀ k ∈ KeyMap.keys (a.run inputs).m_totNbTriggersSoFar,
      ∃ p ∈ pts, k = (a.identOf p).toNat := by
    intro k hk
    rcases mem_keys_run hfresh hk with ⟨input, hinput, heq⟩
    exact ⟨_, hrun.inside input hinput, heq⟩
  rcases exists_points hkeys with ⟨order, hmap, horder⟩
  have hsorted : (order.map fun p => (a.identOf p).toNat).Pairwise (· < ·) := by
    rw [hmap]
    exact hordered
  have hnodup : order.Nodup := by
    apply List.Nodup.of_map (fun p => (a.identOf p).toNat)
    exact hsorted.imp fun h => Nat.ne_of_lt h
  refine ⟨order, ?_, hsorted, ?_⟩
  · rw [List.perm_ext_iff_of_nodup hnodup hrun.nodup]
    intro p
    refine ⟨horder p, fun hp => ?_⟩
    have hmem : (a.identOf p).toNat ∈ KeyMap.keys (a.run inputs).m_totNbTriggersSoFar := by
      rw [← KeyMap.find_isSome, find_run hfresh hrun hident hp]
      rfl
    rw [← hmap] at hmem
    rcases List.mem_map.mp hmem with ⟨q, hq, heq⟩
    rwa [hident p hp q (horder q hq) (UInt32.toNat_inj.mp heq.symm)]
  · have hvalues := hordered.eq_map
    rw [← hmap, List.map_map] at hvalues
    have hfind : order.map ((fun k => KeyMap.find k (a.run inputs).m_totNbTriggersSoFar) ∘
        fun p => (a.identOf p).toNat) = (order.map (a.triggersAt inputs)).map some := by
      rw [List.map_map]
      apply List.map_congr_left
      intro p hp
      exact find_run hfresh hrun hident (horder p hp)
    rw [hfind] at hvalues
    apply List.map_injective_iff.mpr (Option.some_injective Nat)
    rw [← hvalues]
    unfold numTriggers
    rw [List.map_map]
    rfl

/-! ## The whole analysis -/

/-- Points below the limits of their loops have identifiers of their own, within 32 bits. -/
def DistinctBelow (a : StarTriggerThrottleAnalysis) : Prop :=
  ∀ ls ls' : LoopStatus, BelowMax (a.point ls) a.loopMax → BelowMax (a.point ls') a.loopMax →
    mixed (a.point ls) a.loopMax < 2 ^ 32 → mixed (a.point ls') a.loopMax < 2 ^ 32 →
    a.buildIdent ls = a.buildIdent ls' → a.point ls = a.point ls'

/-- Every point puts out the map of its own bunches, and has a bin with its own triggers. -/
def OwnOutputs (a : StarTriggerThrottleAnalysis) (pts : List (List UInt32))
    (inputs : List ThrottleInput) : Prop :=
  (∃ order : List (List UInt32), order.Perm pts ∧
    List.Forall₂ (a.MapOf inputs) order (a.run inputs).output) ∧
  ∃ order : List (List UInt32), order.Perm pts ∧
    (order.map fun p => (a.identOf p).toNat).Pairwise (· < ·) ∧
    (a.run inputs).numTriggers = order.map (a.triggersAt inputs)

theorem outputs_init (nCol nRow : Nat) (m_target_occ : UInt32) (s : List ThrottleLoop) :
    (init nCol nRow m_target_occ s).DistinctBelow ∧
    ∀ pts inputs, (init nCol nRow m_target_occ s).WholeRun pts inputs →
      (∀ p ∈ pts, ∀ q ∈ pts, (init nCol nRow m_target_occ s).identOf p =
        (init nCol nRow m_target_occ s).identOf q → p = q) →
      (init nCol nRow m_target_occ s).OwnOutputs pts inputs := by
  have hfresh := fresh_init nCol nRow m_target_occ s
  refine ⟨?_, ?_⟩
  · intro ls ls' hbelow hbelow' hfits hfits' heq
    exact identOf_inj (length_point hfresh ls) (length_point hfresh ls') hbelow hbelow' hfits hfits'
      heq
  · intro pts inputs hrun hident
    refine ⟨⟨_, hrun.perm, ?_⟩, numTriggers_run hfresh hrun hident⟩
    exact output_run hfresh hrun hident (List.append_nil inputs).symm

/-! ## A strip that reaches the end of its counter -/

/-- One chip, in a scan with one loop of interest up to 3. -/
def oneChip : StarTriggerThrottleAnalysis := init 128 2 128 [⟨true, 3⟩]

/-- The position of the scan with the value 1. -/
def atOne : LoopStatus where
  statVec := [1]
  styleVec := [.parameter]
  size_le := by decide
  length_styleVec := rfl

/-- A noisy strip, and three others with one hit each. -/
def firstBunch : Bunch where
  curr_occ := ((((emptyMap 128 2).setBin 0 200).setBin 1 1).setBin 2 1).setBin 3 1
  nbTriggersInBunch := 300

/-- The counter of the noisy strip is full. -/
def secondBunch : Bunch where
  curr_occ := (emptyMap 128 2).setBin 0 255
  nbTriggersInBunch := 600

def noisyInputs : List ThrottleInput :=
  [.occupancyMap atOne firstBunch, .occupancyMap atOne secondBunch, .triggerComplete atOne]

theorem wholeRun_noisyInputs : oneChip.WholeRun [[1]] noisyInputs where
  nodup := List.nodup_singleton _
  inside input hinput := by
    have hcases : input = .occupancyMap atOne firstBunch ∨
        input = .occupancyMap atOne secondBunch ∨ input = .triggerComplete atOne := by
      simpa [noisyInputs] using hinput
    rcases hcases with rfl | rfl | rfl <;> exact List.mem_singleton_self _
  trace p hp := by
    obtain rfl := List.mem_singleton.mp hp
    rfl
  ne_nil p hp := by
    obtain rfl := List.mem_singleton.mp hp
    exact List.cons_ne_nil _ _
  size input hinput b hb := by
    have hcases : input = .occupancyMap atOne firstBunch ∨
        input = .occupancyMap atOne secondBunch ∨ input = .triggerComplete atOne := by
      simpa [noisyInputs] using hinput
    rcases hcases with rfl | rfl | rfl
    · obtain rfl := Option.some_inj.mp hb
      unfold firstBunch
      simp only [Histo2d.size_setBin]
      rfl
    · obtain rfl := Option.some_inj.mp hb
      exact Histo2d.size_setBin _ _ _
    · cases hb

theorem ident_noisyInputs : ∀ p ∈ [[(1 : UInt32)]], ∀ q ∈ [[(1 : UInt32)]],
    oneChip.identOf p = oneChip.identOf q → p = q := by
  intro p hp q hq _
  rw [List.mem_singleton.mp hp, List.mem_singleton.mp hq]

theorem ownOutputs_noisyInputs : oneChip.OwnOutputs [[1]] noisyInputs :=
  (outputs_init 128 2 128 [⟨true, 3⟩]).2 _ _ wholeRun_noisyInputs ident_noisyInputs

/-- Each output is the sum of the maps of its point over the triggers. -/
def SumOutputs (a : StarTriggerThrottleAnalysis) (pts : List (List UInt32))
    (inputs : List ThrottleInput) : Prop :=
  ∃ order : List (List UInt32), order.Perm pts ∧ List.Forall₂
    (fun p (occ : Histo2d) => ∀ i < a.nCol * a.nRow, occ.getBin i =
      ((a.bunchesAt p inputs).map fun b => b.curr_occ.getBin i).sum / a.triggersAt inputs p)
    order (a.run inputs).output

theorem isFilled_emptyMap (i : Nat) : (emptyMap 128 2).isFilled i = false := by
  show (List.replicate 256 false).getD i false = false
  rw [List.getD_eq_getElem?_getD, List.getElem?_replicate]
  split <;> rfl

theorem isFilled_firstBunch (i : Nat) : firstBunch.curr_occ.isFilled i = decide (i < 4) := by
  unfold firstBunch
  rw [Histo2d.isFilled_setBin, Histo2d.isFilled_setBin, Histo2d.isFilled_setBin,
    Histo2d.isFilled_setBin, isFilled_emptyMap, Bool.eq_iff_iff]
  · simp only [Bool.or_eq_true, decide_eq_true_eq, Bool.false_eq_true, or_false]
    omega
  all_goals decide

theorem getMean_firstBunch : ((emptyMap 128 2).add firstBunch.curr_occ).getMean = 203 / 4 := by
  have hsize : (emptyMap 128 2).size = firstBunch.curr_occ.size := rfl
  have hfilled : (List.range ((emptyMap 128 2).add firstBunch.curr_occ).size).filter
      ((emptyMap 128 2).add firstBunch.curr_occ).isFilled = [0, 1, 2, 3] := by
    have hsame : ∀ i ∈ List.range ((emptyMap 128 2).add firstBunch.curr_occ).size,
        ((emptyMap 128 2).add firstBunch.curr_occ).isFilled i = decide (i < 4) := by
      intro i hi
      rw [List.mem_range, Histo2d.size_add] at hi
      rw [Histo2d.isFilled_add _ hsize hi, isFilled_firstBunch, isFilled_emptyMap, Bool.or_false]
    rw [List.filter_congr hsame]
    decide +kernel
  unfold Histo2d.getMean
  rw [hfilled]
  decide +kernel

theorem not_saturated (b : Bunch) (i : Nat) :
    ¬ThrottleSlot.Saturated b.curr_occ (emptyMap 128 2) i := fun h =>
  h.2 (Histo2d.getBin_new ..)

theorem aveOccupancy_firstBunch :
    ThrottleSlot.aveOccupancy firstBunch (emptyMap 128 2) = 203 / 256 / 300 := by
  unfold ThrottleSlot.aveOccupancy
  simp only [if_neg (not_saturated firstBunch _)]
  rw [← Histo2d.data_eq]
  decide +kernel

theorem sign_firstBunch : (ThrottleSlot.addBunch 128 128 2 {} firstBunch).2 = 1 := by
  unfold ThrottleSlot.addBunch
  dsimp only [Option.getD_none]
  rw [Histo2d.setWhere_of_not _ (not_saturated firstBunch), getMean_firstBunch,
    aveOccupancy_firstBunch]
  decide +kernel

theorem answered_noisyInputs :
    ∃ sign, oneChip.answered noisyInputs [1] = [(firstBunch, 1), (secondBunch, sign)] := by
  refine ⟨(ThrottleSlot.addBunch 128 128 2
    (ThrottleSlot.addBunch 128 128 2 {} firstBunch).1 secondBunch).2, ?_⟩
  rw [← sign_firstBunch]
  rfl
/-- The strip counted 200 and 255 hits, and 600 are put out, two for each three triggers. -/
theorem noisyInputs_not_sum : oneChip.WholeRun [[1]] noisyInputs ∧
    ¬oneChip.SumOutputs [[1]] noisyInputs := by
  refine ⟨wholeRun_noisyInputs, ?_⟩
  rintro ⟨order, hperm, hsum⟩
  obtain rfl := List.perm_singleton.mp hperm
  have hown : List.Forall₂ (oneChip.MapOf noisyInputs) [[1]] (oneChip.run noisyInputs).output :=
    output_run (fresh_init _ _ _ _) wholeRun_noisyInputs ident_noisyInputs
      (List.append_nil noisyInputs).symm
  rcases List.forall₂_cons_left_iff.mp hown with ⟨occ, rest, hmap, _, houtput⟩
  rw [houtput] at hsum
  obtain ⟨hsum, _⟩ := List.forall₂_cons.mp hsum
  have hbin := (hmap.channel 0 (by decide)).symm.trans (hsum 0 (by decide))
  have hocc : (ChannelSum.addAll 0 (oneChip.answered noisyInputs [1])).occ = 600 := by
    obtain ⟨sign, hsign⟩ := answered_noisyInputs
    rw [hsign]
    show (ChannelSum.addAll 0 [(firstBunch, 1), (secondBunch, 0)]).occ = 600
    decide +kernel
  have htriggers : oneChip.triggersAt noisyInputs [1] = 900 := rfl
  have hreadings : ((oneChip.bunchesAt [1] noisyInputs).map fun b => b.curr_occ.getBin 0).sum =
      455 := by
    decide +kernel
  rw [hocc, htriggers, hreadings] at hbin
  norm_num at hbin

end Yarr.Star.StarTriggerThrottleAnalysis
