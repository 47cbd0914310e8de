import Yarr.Scan.LoopNests

/-!
# Executing a list of loops

A parameter loop runs through `min, min + step, …` up to its maximum as long as
its counter does not wrap. A list of loops whose actions all come to an end
comes to an end itself, and what its run has done is what its actions take.
-/

namespace Yarr.Scan

/-! ## The values of a range -/

namespace ParameterRange

variable (range : ParameterRange)

def low : Nat := range.min.toInt.toNat

def high : Nat := range.max.toInt.toNat

def steps : Nat := (range.high - range.low) / range.step.toNat

/-- `min, min + step, …` as far as `max`. -/
def values : List Nat :=
  (List.range (range.steps + 1)).map fun j => range.low + j * range.step.toNat

def last : Nat := range.low + range.steps * range.step.toNat

theorem step_toNat_pos : 0 < range.step.toNat := range.step_pos

theorem bounds : (range.low : Int) = range.min.toInt ∧ (range.high : Int) = range.max.toInt ∧
    range.low ≤ range.high ∧ range.high < 2 ^ 31 := by
  have hmin : 0 ≤ range.min.toInt := Int32.le_iff_toInt_le.mp range.zero_le_min
  have hle : range.min.toInt ≤ range.max.toInt := Int32.le_iff_toInt_le.mp range.min_le_max
  have hmax := range.max.toInt_lt
  unfold low high
  omega

theorem low_eq : range.min.toUInt32.toNat = range.low := by
  have hmin := toInt_toInt32 range.min.toUInt32
  change range.min.toInt = _ at hmin
  have hb := range.bounds
  have hlt := range.min.toUInt32.toNat_lt
  split_ifs at hmin <;> omega

theorem last_le : range.last ≤ range.high := by
  have hmul := Nat.div_mul_le_self (range.high - range.low) range.step.toNat
  have hle := range.bounds.2.2.1
  unfold last steps
  omega

theorem high_lt : range.high < range.last + range.step.toNat := by
  have hlt := Nat.lt_div_mul_add (a := range.high - range.low) range.step_toNat_pos
  have hle := range.bounds.2.2.1
  unfold last steps
  omega

theorem mem_values {v : Nat} : v ∈ range.values ↔
    ∃ j ≤ range.steps, v = range.low + j * range.step.toNat := by
  simp only [values, List.mem_map, List.mem_range, Nat.lt_succ_iff, eq_comm]

theorem last_mem : range.last ∈ range.values :=
  range.mem_values.mpr ⟨_, Nat.le_refl _, rfl⟩

theorem mem_bounds {v : Nat} (h : v ∈ range.values) : range.low ≤ v ∧ v ≤ range.last := by
  rcases range.mem_values.mp h with ⟨j, hj, rfl⟩
  exact ⟨Nat.le_add_right _ _, Nat.add_le_add_left (Nat.mul_le_mul_right _ hj) _⟩

theorem values_sorted : range.values.Pairwise (· < ·) := by
  rw [values, List.pairwise_map]
  exact List.pairwise_lt_range.imp fun {j k} hjk =>
    Nat.add_lt_add_left (Nat.mul_lt_mul_of_pos_right hjk range.step_toNat_pos) _

theorem getLast?_values : range.values.getLast? = some range.last := by
  rw [values, List.range_succ, List.map_append]
  simp [last]

end ParameterRange

/-! ## The entries of the actions -/

namespace LoopAction

variable {l : LoopAction}

theorem Leads.unique {a : ActionState} {vs ws : List Nat} (h : l.Leads a vs) (h' : l.Leads a ws) :
    vs = ws := by
  induction h generalizing ws with
  | last hdone =>
      cases h' with
      | last _ => rfl
      | next hgo _ => exact absurd (hgo.symm.trans hdone) Bool.false_ne_true
  | next hgo _ ih =>
      cases h' with
      | last hdone => exact absurd (hgo.symm.trans hdone) Bool.false_ne_true
      | next _ hrest => rw [ih hrest]

section Parameter

variable {range : ParameterRange}

theorem stepAct_param (hl : l.range = some range) (a : ActionState) :
    l.stepAct a = paramStep range a := by
  cases l with
  | std p => rw [← Option.some.inj hl]; rfl
  | itkpixv2 p => rw [← Option.some.inj hl]; rfl
  | other p => cases hl

theorem entry_param (hl : l.range = some range) (a : ActionState) :
    l.entry a = a.m_cur.toNat := by
  cases l with
  | std p => rfl
  | itkpixv2 p => rfl
  | other p => cases hl

theorem initAct_param (hl : l.range = some range) (a : ActionState) :
    (l.initAct a).m_cur.toNat = range.low := by
  cases l with
  | std p => rw [← Option.some.inj hl]; exact p.range.low_eq
  | itkpixv2 p => rw [← Option.some.inj hl]; exact p.range.low_eq
  | other p => cases hl

theorem paramStep_eq (range : ParameterRange) {a : ActionState} (hrunning : a.m_done = false)
    (hroom : a.m_cur.toNat + range.step.toNat < 2 ^ 31) :
    (paramStep range a).m_cur.toNat = a.m_cur.toNat + range.step.toNat ∧
      (paramStep range a).m_done = decide (range.high < a.m_cur.toNat + range.step.toNat) := by
  have hcur : a.m_cur.toInt32.toInt = a.m_cur.toNat := by
    rw [toInt_toInt32, if_pos (by omega)]
  have hnext : (a.m_cur + range.step).toInt32.toInt = a.m_cur.toNat + range.step.toNat := by
    rw [toInt_step (by omega), hcur]
  have hsum : (a.m_cur + range.step).toNat = a.m_cur.toNat + range.step.toNat := by
    rw [UInt32.toNat_add]
    exact Nat.mod_eq_of_lt (by omega)
  have hb := range.bounds
  unfold paramStep
  split_ifs with hover
  · rw [Int32.lt_iff_toInt_lt, hnext] at hover
    exact ⟨hsum, (decide_eq_true (by omega)).symm⟩
  · rw [Int32.lt_iff_toInt_lt, hnext] at hover
    exact ⟨hsum, hrunning.trans (decide_eq_false (by omega)).symm⟩

theorem leads_from (hl : l.range = some range)
    (hroom : range.last + range.step.toNat < 2 ^ 31) {k j : Nat} (hjk : j + k = range.steps)
    {a : ActionState} (hrunning : a.m_done = false)
    (hcur : a.m_cur.toNat = range.low + j * range.step.toNat) :
    l.Leads a ((List.range' j (k + 1)).map fun n => range.low + n * range.step.toNat) := by
  have hentry : l.entry a = range.low + j * range.step.toNat := (entry_param hl a).trans hcur
  have hvalue : range.low + j * range.step.toNat ∈ range.values :=
    range.mem_values.mpr ⟨j, by omega, rfl⟩
  have hlast := (range.mem_bounds hvalue).2
  rcases paramStep_eq range hrunning (by omega) with ⟨hnext, hdone⟩
  rw [← stepAct_param hl, hcur] at hnext hdone
  rw [List.range'_succ, List.map_cons, ← hentry]
  induction k generalizing j a with
  | zero =>
      apply Leads.last
      rw [hdone]
      have hj : range.low + j * range.step.toNat = range.last := by
        rw [ParameterRange.last, ← hjk, Nat.add_zero]
      rw [hj]
      exact decide_eq_true range.high_lt
  | succ k ih =>
      have hsucc : range.low + j * range.step.toNat + range.step.toNat
          = range.low + (j + 1) * range.step.toNat := by
        rw [Nat.succ_mul, Nat.add_assoc]
      have hmem : range.low + (j + 1) * range.step.toNat ∈ range.values :=
        range.mem_values.mpr ⟨j + 1, by omega, rfl⟩
      have hle := (range.mem_bounds hmem).2
      have hhigh := range.last_le
      have hgo : (l.stepAct a).m_done = false := by
        rw [hdone, hsucc]
        exact decide_eq_false (by omega)
      rw [hsucc] at hnext
      rcases paramStep_eq range hgo (by omega) with ⟨hnext', hdone'⟩
      rw [← stepAct_param hl, hnext] at hnext' hdone'
      have hentry' := (entry_param hl (l.stepAct a)).trans hnext
      have hrest := ih (by omega) hgo hnext hentry' hmem hle hnext' hdone'
      refine .next hgo ?_
      rw [List.range'_succ, List.map_cons, ← hentry']
      exact hrest

theorem leads_values (hl : l.range = some range)
    (hroom : range.last + range.step.toNat < 2 ^ 31) (a : ActionState) :
    l.Leads (l.initAct a) range.values := by
  rw [ParameterRange.values, List.range_eq_range']
  apply leads_from hl hroom (Nat.zero_add _) (l.initAct_running a)
  rw [initAct_param hl, Nat.zero_mul, Nat.add_zero]

/-- A loop that takes the last of its values and no others does not wrap behind it. -/
theorem Leads.room (hl : l.range = some range) {a : ActionState} {vs : List Nat}
    (h : l.Leads a vs) (hrunning : a.m_done = false) (hin : ∀ v ∈ vs, v ∈ range.values)
    (hlast : range.last ∈ vs) : range.last + range.step.toNat < 2 ^ 31 := by
  have hb := range.bounds
  have hle := range.last_le
  have hhigh := range.high_lt
  have hstep := range.step.toNat_lt
  have hlow := (range.mem_bounds range.last_mem).1
  induction h with
  | @last a hdone =>
      have hcur : a.m_cur.toNat = range.last := by
        rw [← entry_param hl]
        exact (List.mem_singleton.mp hlast).symm
      have hover : range.max < (a.m_cur + range.step).toInt32 := by
        by_contra hnot
        rw [stepAct_param hl, paramStep, if_neg hnot] at hdone
        exact Bool.false_ne_true (hrunning.symm.trans hdone)
      rw [Int32.lt_iff_toInt_lt, toInt_toInt32, UInt32.toNat_add, hcur] at hover
      split_ifs at hover <;> omega
  | @next a vs hgo hrest ih =>
      rcases List.mem_cons.mp hlast with hcur | hlater
      · rw [entry_param hl] at hcur
        -- the value behind the last one is taken, so it is one of the values
        rcases hrest.head with ⟨rest, hhead⟩
        have hnext := range.mem_bounds (hin (l.entry (l.stepAct a)) (by simp [hhead]))
        have hsum : l.entry (l.stepAct a) = (range.last + range.step.toNat) % 2 ^ 32 := by
          rw [entry_param hl, stepAct_param hl, paramStep, hcur]
          split <;> exact UInt32.toNat_add _ _
        have hone : range.steps = 0 := by
          apply Nat.div_eq_of_lt
          omega
        have hsame : range.last = range.low := by
          rw [ParameterRange.last, hone, Nat.zero_mul, Nat.add_zero]
        omega
      · exact ih hgo (fun v hv => hin v (List.mem_cons_of_mem _ hv)) hlater

end Parameter

theorem leads_other (p : OtherAction) {k : Nat} {a : ActionState}
    (h : a.taken + k + 1 = p.steps a.runs) :
    (other p).Leads a (List.range' a.taken (k + 1)) := by
  rw [List.range'_succ]
  induction k generalizing a with
  | zero => exact .last (by simp [stepAct, ← h])
  | succ k ih =>
      refine .next ?_ ?_
      · simp only [stepAct, ← h, beq_eq_false_iff_ne]
        omega
      · rw [List.range'_succ]
        apply ih
        simp only [stepAct]
        omega

theorem leads_initAct (p : OtherAction) (a : ActionState) :
    (other p).Leads ((other p).initAct a) (List.range (p.steps a.runs)) := by
  have hpos := p.steps_pos a.runs
  have hlead := leads_other p (k := p.steps a.runs - 1) (a := (other p).initAct a)
    (by simp only [initAct]; omega)
  have hsucc : p.steps a.runs - 1 + 1 = p.steps a.runs := by omega
  rw [hsucc] at hlead
  rw [List.range_eq_range']
  exact hlead

/-- The entries of a run as they should be. -/
def Expected : LoopAction → List Nat → Prop
  | std p, vs => vs = p.range.values
  | itkpixv2 p, vs => vs = p.range.values
  | other p, vs => ∃ run, vs = List.range (p.steps run)

theorem expected_param {range : ParameterRange} (hl : l.range = some range) {vs : List Nat} :
    l.Expected vs ↔ vs = range.values := by
  cases l with
  | std p => rw [← Option.some.inj hl]; rfl
  | itkpixv2 p => rw [← Option.some.inj hl]; rfl
  | other p => cases hl

theorem Expected.sorted {vs : List Nat} (h : l.Expected vs) : vs.Pairwise (· < ·) := by
  cases l with
  | std p => exact h.symm ▸ p.range.values_sorted
  | itkpixv2 p => exact h.symm ▸ p.range.values_sorted
  | other p =>
      rcases h with ⟨run, rfl⟩
      exact List.pairwise_lt_range

theorem Expected.ne_nil {vs : List Nat} (h : l.Expected vs) : vs ≠ [] := by
  cases l with
  | std p => exact h.symm ▸ List.ne_nil_of_mem p.range.last_mem
  | itkpixv2 p => exact h.symm ▸ List.ne_nil_of_mem p.range.last_mem
  | other p =>
      rcases h with ⟨run, rfl⟩
      exact List.ne_nil_of_mem (List.mem_range.mpr (p.steps_pos run))

theorem Takes.ne_nil {vs : List Nat} (h : l.Takes vs) : vs ≠ [] := by
  rcases h with ⟨a, hleads⟩
  rcases hleads.head with ⟨rest, rfl⟩
  exact List.cons_ne_nil _ _

/-- The counter does not wrap behind the last value. -/
def Room (l : LoopAction) : Prop :=
  ∀ range, l.range = some range → range.last + range.step.toNat < 2 ^ 31

theorem Room.leads (h : l.Room) (a : ActionState) :
    ∃ vs, l.Leads (l.initAct a) vs ∧ l.Expected vs := by
  cases l with
  | std p => exact ⟨_, leads_values rfl (h _ rfl) a, rfl⟩
  | itkpixv2 p => exact ⟨_, leads_values rfl (h _ rfl) a, rfl⟩
  | other p => exact ⟨_, leads_initAct p a, a.runs, rfl⟩

theorem Room.expected (h : l.Room) {vs : List Nat} (hvs : l.Takes vs) : l.Expected vs := by
  rcases hvs with ⟨a, hleads⟩
  rcases h.leads a with ⟨ws, hws, hexpected⟩
  rwa [hleads.unique hws]

end LoopAction

/-! ## Tuples of a nest -/

section Tuples

variable {takes takes' : LoopAction → List Nat → Prop} {i : Nat} {ls : List LoopAction}
  {cs : List Call} {ts : List (List Nat)}

theorem Proper.mono (h : Proper takes i ls cs ts)
    (htakes : ∀ l ∈ ls, ∀ vs, takes l vs → takes' l vs) : Proper takes' i ls cs ts := by
  induction h with
  | innermost i => exact .innermost i
  | run bodies hvs hbodies ih =>
      refine .run bodies (htakes _ List.mem_cons_self _ hvs) fun b hb => ?_
      exact ih b hb fun l hl => htakes l (List.mem_cons_of_mem _ hl)

theorem Proper.entries (h : Proper takes i ls cs ts) {t : List Nat} (ht : t ∈ ts) :
    List.Forall₂ (fun l v => ∃ vs, takes l vs ∧ v ∈ vs) ls t := by
  induction h generalizing t with
  | innermost i =>
      rw [List.mem_singleton.mp ht]
      exact .nil
  | run bodies hvs hbodies ih =>
      rcases List.mem_flatMap.mp ht with ⟨b, hb, ht⟩
      rcases List.mem_map.mp ht with ⟨t', ht', rfl⟩
      exact .cons ⟨_, hvs, List.mem_map_of_mem hb⟩ (ih b hb ht')

theorem Proper.complete (h : Proper takes i ls cs ts) {t : List Nat}
    (ht : List.Forall₂ (fun l v => ∀ vs, takes l vs → v ∈ vs) ls t) : t ∈ ts := by
  induction h generalizing t with
  | innermost i =>
      cases ht
      exact List.mem_singleton.mpr rfl
  | run bodies hvs hbodies ih =>
      cases ht with
      | @cons l v ls t hv ht =>
          rcases List.mem_map.mp (hv _ hvs) with ⟨b, hb, rfl⟩
          exact List.mem_flatMap.mpr ⟨b, hb, List.mem_map_of_mem (ih b hb ht)⟩

theorem Proper.ne_nil (htakes : ∀ l vs, takes l vs → vs ≠ []) (h : Proper takes i ls cs ts) :
    ts ≠ [] := by
  induction h with
  | innermost i => exact List.cons_ne_nil _ _
  | run bodies hvs hbodies ih =>
      rcases List.exists_mem_of_ne_nil _ (htakes _ _ hvs) with ⟨v, hv⟩
      rcases List.mem_map.mp hv with ⟨b, hb, rfl⟩
      rcases List.exists_mem_of_ne_nil _ (ih b hb) with ⟨t, ht⟩
      exact List.ne_nil_of_mem (List.mem_flatMap.mpr ⟨b, hb, List.mem_map_of_mem ht⟩)

/-- An entry belongs to a run of its action, all of whose entries come up. -/
theorem Proper.column (htakes : ∀ l vs, takes l vs → vs ≠ []) (h : Proper takes i ls cs ts)
    {t : List Nat} (ht : t ∈ ts) {k : Nat} {l : LoopAction} (hl : ls[k]? = some l) :
    ∃ vs, takes l vs ∧ (∃ v ∈ vs, t[k]? = some v) ∧ ∀ v ∈ vs, ∃ t ∈ ts, t[k]? = some v := by
  induction h generalizing t k with
  | innermost i => cases hl
  | run bodies hvs hbodies ih =>
      rcases List.mem_flatMap.mp ht with ⟨b, hb, ht⟩
      rcases List.mem_map.mp ht with ⟨t, ht', rfl⟩
      cases k with
      | zero =>
          rw [List.getElem?_cons_zero, Option.some.injEq] at hl
          rw [hl] at hvs
          refine ⟨_, hvs, ⟨b.1, List.mem_map_of_mem hb, rfl⟩, fun v hv => ?_⟩
          rcases List.mem_map.mp hv with ⟨b', hb', rfl⟩
          rcases List.exists_mem_of_ne_nil _ ((hbodies b' hb').ne_nil htakes) with ⟨t', ht'⟩
          exact ⟨_, List.mem_flatMap.mpr ⟨b', hb', List.mem_map_of_mem ht'⟩, rfl⟩
      | succ k =>
          rw [List.getElem?_cons_succ] at hl
          rcases ih b hb ht' hl with ⟨vs, hvs', hhere, hcolumn⟩
          refine ⟨vs, hvs', hhere, fun v hv => ?_⟩
          rcases hcolumn v hv with ⟨t'', ht'', htv⟩
          exact ⟨_, List.mem_flatMap.mpr ⟨b, hb, List.mem_map_of_mem ht''⟩, htv⟩

theorem Proper.sorted (hsorted : ∀ l vs, takes l vs → vs.Pairwise (· < ·))
    (h : Proper takes i ls cs ts) : ts.Pairwise (List.Lex (· < ·)) := by
  induction h with
  | innermost i => exact List.pairwise_singleton _ _
  | run bodies hvs hbodies ih =>
      rw [List.pairwise_flatMap]
      constructor
      · intro b hb
        rw [List.pairwise_map]
        exact (ih b hb).imp fun h => .cons h
      · apply (List.pairwise_map.mp (hsorted _ _ hvs)).imp
        intro b b' hlt t ht t' ht'
        rcases List.mem_map.mp ht with ⟨u, -, rfl⟩
        rcases List.mem_map.mp ht' with ⟨u', -, rfl⟩
        exact .rel hlt

variable {same same' : UInt16 → Nat → Prop} {keeper : Keeper} {t : List Nat} {s : Snapshot}

theorem Holds.held (h : Holds same keeper i ls t s) {k : Nat} {l : LoopAction} {v : Nat}
    (hl : ls[k]? = some l) (hv : t[k]? = some v) : l.Held same keeper (i + k) v s := by
  induction ls generalizing i k t with
  | nil => cases hl
  | cons l' ls ih =>
      cases t with
      | nil => cases hv
      | cons v' t =>
          cases k with
          | zero =>
              rw [List.getElem?_cons_zero, Option.some.injEq] at hl hv
              rw [← hl, ← hv]
              exact h.1
          | succ k =>
              have hrest := ih h.2 hl hv
              rwa [Nat.add_assoc, Nat.add_comm 1 k] at hrest

theorem Holds.imp (h : Holds same keeper i ls t s)
    (hsame : List.Forall₂ (fun l v => l.targets keeper ≠ [] → ∀ r, same r v → same' r v) ls t) :
    Holds same' keeper i ls t s := by
  induction hsame generalizing i with
  | nil => trivial
  | @cons l v ls t hlv hrest ih =>
      refine ⟨fun n hn => ⟨(h.1 n hn).1, fun tgt ht => ?_⟩, ih h.2⟩
      exact hlv (List.ne_nil_of_mem ht) _ ((h.1 n hn).2 tgt ht)

theorem WroteIn.action {w : Write} (h : WroteIn keeper i ls w) :
    ∃ k l vs, w.depth = i + k ∧ ls[k]? = some l ∧ w.target ∈ l.targets keeper ∧ l.Takes vs ∧
      l.Gives vs w.value := by
  induction ls generalizing i with
  | nil => exact h.elim
  | cons l ls ih =>
      rcases h with ⟨hdepth, htarget, vs, htakes, hgives⟩ | hrest
      · exact ⟨0, l, vs, hdepth, rfl, htarget, htakes, hgives⟩
      · rcases ih hrest with ⟨k, l', vs, hdepth, hl, hwrote⟩
        exact ⟨k + 1, l', vs, by omega, hl, hwrote⟩

theorem Finals.action {ws : List Write} (h : Finals i ls ws) {k : Nat}
    {p : Itkpixv2ParameterLoop} (hl : ls[k]? = some (.itkpixv2 p)) :
    ∃ vs u w, (LoopAction.itkpixv2 p).Takes vs ∧ vs.getLast? = some u ∧ w ∈ ws ∧
      w.depth = i + k ∧ w.value = UInt16.ofNat (u + p.range.step.toNat) := by
  induction ls generalizing i k with
  | nil => cases hl
  | cons l ls ih =>
      cases k with
      | zero =>
          rw [List.getElem?_cons_zero, Option.some.injEq] at hl
          subst hl
          exact h.1 p rfl
      | succ k =>
          have hrest := ih h.2 hl
          rwa [Nat.add_assoc, Nat.add_comm 1 k] at hrest

end Tuples

/-! ## Coming to an end -/

section End

variable {keeper : Keeper} {i : Nat}

/-- With an inner run that comes to an end, the steps of an action do. -/
theorem steps_end {l : LoopAction} {inner : Nat → LoopEngine → Option LoopEngine}
    (hframe : ∀ fuel e e', inner fuel e = some e' → e'.acts i = e.acts i)
    (hinner : ∀ e, ∃ need e', ∀ fuel, need ≤ fuel → inner fuel e = some e')
    {a : ActionState} {vs : List Nat} (h : l.Leads a vs) (hrunning : a.m_done = false)
    {e : LoopEngine} (he : e.acts i = a) :
    ∃ need e', ∀ fuel fuel', need ≤ fuel → need ≤ fuel' →
      LoopEngine.steps keeper i l (inner fuel') fuel e = some e' := by
  induction h generalizing e with
  | @last a hdone =>
      rcases hinner (l.execPart1 i e) with ⟨need, e₂, hbody⟩
      rcases l.execPart1_spec i e with ⟨-, hacts₁, -⟩
      have hact₂ : e₂.acts i = a := by
        rw [hframe need _ _ (hbody need (Nat.le_refl _)), hacts₁, he]
      have hact₃ := (l.execPart2_spec keeper i e₂ (hact₂ ▸ hrunning)).2.1
      refine ⟨need + 2, l.execPart2 keeper i e₂, fun fuel fuel' hfuel hfuel' => ?_⟩
      obtain ⟨fuel, rfl⟩ : ∃ n, fuel = n + 2 := ⟨fuel - 2, by omega⟩
      rw [LoopEngine.steps, he, hrunning, hbody fuel' (by omega)]
      simp only [Bool.false_eq_true, if_false, Option.bind_some]
      rw [LoopEngine.steps, hact₃, hact₂, if_pos hdone]
  | @next a vs hgo hrest ih =>
      rcases hinner (l.execPart1 i e) with ⟨need, e₂, hbody⟩
      rcases l.execPart1_spec i e with ⟨-, hacts₁, -⟩
      have hact₂ : e₂.acts i = a := by
        rw [hframe need _ _ (hbody need (Nat.le_refl _)), hacts₁, he]
      have hact₃ := (l.execPart2_spec keeper i e₂ (hact₂ ▸ hrunning)).2.1
      rcases ih hgo (hact₃.trans (congrArg _ hact₂)) with ⟨need', e', hsteps⟩
      refine ⟨max need need' + 1, e', fun fuel fuel' hfuel hfuel' => ?_⟩
      obtain ⟨fuel, rfl⟩ : ∃ n, fuel = n + 1 := ⟨fuel - 1, by omega⟩
      rw [LoopEngine.steps, he, hrunning, hbody fuel' (by omega)]
      simp only [Bool.false_eq_true, if_false, Option.bind_some]
      exact hsteps fuel fuel' (by omega) (by omega)

/-- A run of a nest comes to its end when every action comes to its end. -/
theorem run_end (keeper : Keeper) {ls : List LoopAction} (hnames : (parNames ls).Nodup)
    (h : ∀ l ∈ ls, ∀ a, ∃ vs, l.Leads (l.initAct a) vs) (e : LoopEngine) :
    ∃ need e', ∀ fuel, need ≤ fuel → LoopEngine.run keeper fuel i ls e = some e' := by
  induction ls generalizing i e with
  | nil => exact ⟨0, e.record, fun _ _ => rfl⟩
  | cons l ls ih =>
      have hrest : (parNames ls).Nodup := by
        rw [parNames_cons, List.nodup_append] at hnames
        exact hnames.2.1
      rcases l.init_spec keeper i e with ⟨-, hact, -⟩
      rcases h l List.mem_cons_self (e.acts i) with ⟨vs, hleads⟩
      have hframe : ∀ fuel e e', LoopEngine.run keeper fuel (i + 1) ls e = some e' →
          e'.acts i = e.acts i := by
        intro fuel e e' hrun
        rcases run_ran fuel hrest hrun with ⟨_, _, _, _, hmoves, -⟩
        exact hmoves.acts i (Nat.lt_succ_self i)
      have hinner := fun e => ih (i := i + 1) hrest
        (fun l hl => h l (List.mem_cons_of_mem _ hl)) e
      rcases steps_end hframe hinner hleads (l.initAct_running _) hact with ⟨need, e', hsteps⟩
      refine ⟨need, l.atEnd keeper i e', fun fuel hfuel => ?_⟩
      rw [LoopEngine.run, hsteps fuel fuel hfuel hfuel]
      rfl

end End

/-! ## Lists of actions -/

/-- Actions whose parameters are different. -/
structure TaskList where
  actions : List LoopAction
  different : (parNames actions).Nodup

namespace TaskList

variable (tasks : TaskList) (keeper : Keeper)

/-- A write of an action within the bounds of its range. -/
def InRange (w : Write) : Prop :=
  ∃ l range, tasks.actions[w.depth]? = some l ∧ l.range = some range ∧
    range.min.toInt ≤ w.value.toNat ∧ w.value.toNat ≤ range.max.toInt

/-- The calls are nested, the innermost steps show the tuples of the values in their order, each
once, and no write leaves its range. -/
structure Executed (e e' : LoopEngine) (cs : List Call) (ws : List Write) (ss : List Snapshot)
    (ts : List (List Nat)) : Prop where
  calls : e'.calls = e.calls ++ cs
  writes : e'.writes = e.writes ++ ws
  seen : e'.seen = e.seen ++ ss
  nested : Proper LoopAction.Expected 0 tasks.actions cs ts
  holds : List.Forall₂ (fun s t => Holds (fun r v => r.toNat = v) keeper 0 tasks.actions t s) ss ts
  sorted : ts.Pairwise (List.Lex (· < ·))
  complete : ∀ t, List.Forall₂ (fun l v => ∀ vs, l.Expected vs → v ∈ vs) tasks.actions t → t ∈ ts
  inRange : ∀ w ∈ ws, tasks.InRange w

/-- `execute` comes to an end and has done what it should. -/
def Executes (e : LoopEngine) : Prop :=
  ∃ fuel e', LoopEngine.execute keeper fuel tasks.actions e = some e' ∧
    (tasks.actions = [] → e' = e) ∧
    (tasks.actions ≠ [] → ∃ cs ws ss ts, tasks.Executed keeper e e' cs ws ss ts)

end TaskList

/-- The counter does not wrap behind the last value, the values written fit into the 16 bits of
the interface, and what an `Itkpixv2ParameterLoop` writes when it is done is within the range. -/
def LoopAction.Fits (keeper : Keeper) : LoopAction → Prop
  | std p => p.range.last + p.range.step.toNat < 2 ^ 31 ∧
      (p.targets keeper ≠ [] → p.range.last < 2 ^ 16)
  | itkpixv2 p => p.range.last + p.range.step.toNat < 2 ^ 31 ∧ p.range.last < 2 ^ 16 ∧
      p.range.low ≤ (p.range.last + p.range.step.toNat) % 2 ^ 16 ∧
      (p.range.last + p.range.step.toNat) % 2 ^ 16 ≤ p.range.high
  | other _ => True

namespace LoopAction

variable {l : LoopAction} {keeper : Keeper}

theorem Fits.room (h : l.Fits keeper) : l.Room := by
  intro range hl
  cases l with
  | std p => exact Option.some.inj hl ▸ h.1
  | itkpixv2 p => exact Option.some.inj hl ▸ h.1
  | other p => cases hl

theorem Fits.narrow (h : l.Fits keeper) (htargets : l.targets keeper ≠ [])
    {range : ParameterRange} (hl : l.range = some range) : range.last < 2 ^ 16 := by
  cases l with
  | std p => exact Option.some.inj hl ▸ h.2 htargets
  | itkpixv2 p => exact Option.some.inj hl ▸ h.2.1
  | other p => cases hl

theorem range_of_target (htargets : l.targets keeper ≠ []) : ∃ range, l.range = some range := by
  cases l with
  | std p => exact ⟨_, rfl⟩
  | itkpixv2 p => exact ⟨_, rfl⟩
  | other p => exact absurd rfl htargets

theorem Fits.gives (h : l.Fits keeper) (htargets : l.targets keeper ≠ []) {vs : List Nat}
    (hvs : l.Expected vs) {v : UInt16} (hgives : l.Gives vs v) {range : ParameterRange}
    (hl : l.range = some range) : range.min.toInt ≤ v.toNat ∧ v.toNat ≤ range.max.toInt := by
  have hb := range.bounds
  have hnarrow := h.narrow htargets hl
  have hle := range.last_le
  rw [expected_param hl] at hvs
  rcases hgives with ⟨u, hu, hv⟩ | ⟨p, u, hp, hlast, hv⟩
  · rw [hvs] at hu
    have hu := range.mem_bounds hu
    have hvalue : v.toNat = u := by
      rw [hv, UInt16.toNat_ofNat', Nat.mod_eq_of_lt (by omega)]
    omega
  · subst hp
    have hrange : p.range = range := Option.some.inj hl
    subst hrange
    rw [hvs, ParameterRange.getLast?_values, Option.some.injEq] at hlast
    have hvalue : v.toNat = (p.range.last + p.range.step.toNat) % 2 ^ 16 := by
      rw [hv, ← hlast, UInt16.toNat_ofNat']
    have hlow := h.2.2.1
    have hhigh := h.2.2.2
    omega

end LoopAction

/-! ## The executions that do what they should -/

theorem exists_left {α β : Type*} {r : α → β → Prop} {as : List α} {bs : List β}
    (h : List.Forall₂ r as bs) {b : β} (hb : b ∈ bs) : ∃ a ∈ as, r a b := by
  induction h with
  | nil => exact absurd hb List.not_mem_nil
  | cons hr hrest ih =>
      rcases List.mem_cons.mp hb with rfl | hb
      · exact ⟨_, List.mem_cons_self, hr⟩
      · rcases ih hb with ⟨a, ha, hr⟩
        exact ⟨a, List.mem_cons_of_mem _ ha, hr⟩

theorem exists_right {α β : Type*} {r : α → β → Prop} {as : List α} {bs : List β}
    (h : List.Forall₂ r as bs) {a : α} (ha : a ∈ as) : ∃ b ∈ bs, r a b := by
  rcases exists_left h.flip ha with ⟨b, hb, hr⟩
  exact ⟨b, hb, hr⟩

theorem forall₂_of_mem {α β : Type*} {r r' : α → β → Prop} {as : List α} {bs : List β}
    (h : List.Forall₂ r as bs) (himp : ∀ a ∈ as, ∀ b, r a b → r' a b) :
    List.Forall₂ r' as bs := by
  have hboth := (List.forall₂_and_left as bs).mpr ⟨himp, h⟩
  exact hboth.imp fun a b hab => hab.1 b hab.2

namespace TaskList

variable {tasks : TaskList} {keeper : Keeper} {e : LoopEngine}

theorem execute_eq (fuel : Nat) (h : tasks.actions ≠ []) :
    LoopEngine.execute keeper fuel tasks.actions e
      = LoopEngine.run keeper fuel 0 tasks.actions e := by
  cases htasks : tasks.actions with
  | nil => exact absurd htasks h
  | cons l ls => rfl

theorem executes_of_fits (h : ∀ l ∈ tasks.actions, l.Fits keeper) (e : LoopEngine) :
    tasks.Executes keeper e := by
  by_cases hnil : tasks.actions = []
  · exact ⟨0, e, by rw [hnil]; rfl, fun _ => rfl, fun hne => absurd hnil hne⟩
  · have hends : ∀ l ∈ tasks.actions, ∀ a, ∃ vs, l.Leads (l.initAct a) vs := by
      intro l hl a
      rcases (h l hl).room.leads a with ⟨vs, hleads, -⟩
      exact ⟨vs, hleads⟩
    rcases run_end keeper (i := 0) tasks.different hends e with ⟨need, e', hrun⟩
    have hend := hrun need (Nat.le_refl _)
    rcases run_ran need tasks.different hend with
      ⟨cs, ws, ss, ts, hmoves, hproper, hmatch, hwrote, -⟩
    have hnested : Proper LoopAction.Expected 0 tasks.actions cs ts :=
      hproper.mono fun l hl vs hvs => (h l hl).room.expected hvs
    refine ⟨need, e', (execute_eq need hnil).trans hend, fun hempty => absurd hempty hnil,
      fun _ => ⟨cs, ws, ss, ts, hmoves.calls, hmoves.writes, hmoves.seen, hnested, ?_,
        hnested.sorted fun l vs hvs => hvs.sorted, fun t ht => hnested.complete ht, ?_⟩⟩
    · have hentries := (List.forall₂_and_left ts ss).mpr
        ⟨fun t ht => hnested.entries ht, List.Forall₂.flip hmatch⟩
      apply List.Forall₂.flip
      apply hentries.imp
      intro t s hts
      apply hts.2.holds.imp
      apply forall₂_of_mem hts.1
      rintro l hl v ⟨vs, hvs, hv⟩ htargets r hr
      rcases LoopAction.range_of_target htargets with ⟨range, hrange⟩
      have hnarrow := (h l hl).narrow htargets hrange
      have hle := (range.mem_bounds (((LoopAction.expected_param hrange).mp hvs) ▸ hv)).2
      rw [hr, UInt16.toNat_ofNat', Nat.mod_eq_of_lt (by omega)]
    · intro w hw
      rcases (hwrote w hw).action with ⟨k, l, vs, hdepth, hl, htarget, htakes, hgives⟩
      have htargets := List.ne_nil_of_mem htarget
      have hfits := h l (List.mem_of_getElem? hl)
      rcases LoopAction.range_of_target htargets with ⟨range, hrange⟩
      rw [Nat.zero_add] at hdepth
      exact ⟨l, range, hdepth ▸ hl, hrange,
        hfits.gives htargets (hfits.room.expected htakes) hgives hrange⟩

/-- What the run of a parameter loop takes, when the recorded status is as it should be. -/
theorem leads_of_executed {e' : LoopEngine} {cs cs' : List Call} {ws : List Write}
    {ss : List Snapshot} {ts ts' : List (List Nat)}
    (h : tasks.Executed keeper e e' cs ws ss ts)
    (hproper : Proper LoopAction.Takes 0 tasks.actions cs' ts')
    (hmatch : List.Forall₂ (Matches keeper 0 tasks.actions e) ss ts') {k : Nat} {l : LoopAction}
    (hl : tasks.actions[k]? = some l) {range : ParameterRange} (hrange : l.range = some range)
    {n : String} (hn : l.parName = some n) :
    range.last + range.step.toNat < 2 ^ 31 ∧
      (l.targets keeper ≠ [] → range.last < 2 ^ 16) := by
  have hempty : ∀ l vs, LoopAction.Expected l vs → vs ≠ [] := fun l vs hvs => hvs.ne_nil
  rcases List.exists_mem_of_ne_nil _ (h.nested.ne_nil hempty) with ⟨t₀, ht₀⟩
  rcases h.nested.column hempty ht₀ hl with ⟨vs, hvs, -, hall⟩
  rw [LoopAction.expected_param hrange] at hvs
  subst hvs
  -- the step in which the last value is due
  rcases hall _ range.last_mem with ⟨t, ht, htk⟩
  rcases exists_left h.holds ht with ⟨s, hs, hholds⟩
  have hheld := hholds.held hl htk n hn
  rw [Nat.zero_add] at hheld
  rcases exists_right hmatch hs with ⟨t', ht', hmatches⟩
  rcases hproper.column (fun l vs hvs => hvs.ne_nil) ht' hl with
    ⟨vs, ⟨a, hleads⟩, ⟨v, hv, htk'⟩, hall'⟩
  have hheld' := hmatches.holds.held hl htk' n hn
  rw [Nat.zero_add] at hheld'
  have hlast : range.last ∈ vs := by
    rw [← hheld.1, hheld'.1]
    exact hv
  refine ⟨hleads.room hrange (l.initAct_running a) (fun u hu => ?_) hlast, fun htargets => ?_⟩
  · rcases hall' u hu with ⟨t₁', ht₁', hu'⟩
    rcases exists_left hmatch ht₁' with ⟨s₁, hs₁, hmatches₁⟩
    rcases exists_right h.holds hs₁ with ⟨t₁, ht₁, hholds₁⟩
    rcases h.nested.column hempty ht₁ hl with ⟨ws, hws, ⟨w, hw, htw⟩, -⟩
    rw [LoopAction.expected_param hrange] at hws
    have hstat := (hmatches₁.holds.held hl hu' n hn).1
    have hstat' := (hholds₁.held hl htw n hn).1
    rw [← hstat, hstat', ← hws]
    exact hw
  · rcases List.exists_mem_of_ne_nil _ htargets with ⟨tgt, htgt⟩
    rw [← hheld.2 tgt htgt]
    exact UInt16.toNat_lt _

theorem fits_of_executes (h : tasks.Executes keeper e) {l : LoopAction}
    (hl : l ∈ tasks.actions) : l.Fits keeper := by
  have hne := List.ne_nil_of_mem hl
  rcases h with ⟨fuel, e', hrun, -, hexecuted⟩
  rcases hexecuted hne with ⟨cs, ws, ss, ts, hexecuted⟩
  rw [execute_eq fuel hne] at hrun
  rcases run_ran fuel tasks.different hrun with
    ⟨cs', ws', ss', ts', hmoves, hproper, hmatch, -, hfinals⟩
  have hws : ws' = ws := List.append_cancel_left (hmoves.writes.symm.trans hexecuted.writes)
  have hss : ss' = ss := List.append_cancel_left (hmoves.seen.symm.trans hexecuted.seen)
  subst hws hss
  rcases List.mem_iff_getElem?.mp hl with ⟨k, hk⟩
  cases l with
  | std p => exact leads_of_executed hexecuted hproper hmatch hk rfl rfl
  | itkpixv2 p =>
      rcases leads_of_executed hexecuted hproper hmatch hk rfl rfl with ⟨hroom, hnarrow⟩
      rcases hfinals.action hk with ⟨vs, u, w, ⟨a, hleads⟩, hlast, hw, hdepth, hvalue⟩
      rw [hleads.unique (LoopAction.leads_values rfl hroom a), ParameterRange.getLast?_values,
        Option.some.injEq] at hlast
      rcases hexecuted.inRange w hw with ⟨l, range, hl', hrange, hlow, hhigh⟩
      rw [hdepth, Nat.zero_add, hk, Option.some.injEq] at hl'
      rw [← hl'] at hrange
      have hrange : p.range = range := Option.some.inj hrange
      have hb := p.range.bounds
      rw [← hrange, hvalue, UInt16.toNat_ofNat', ← hlast] at hlow hhigh
      exact ⟨hroom, hnarrow (List.cons_ne_nil _ _), by omega, by omega⟩
  | other p => trivial

/-- A list of actions is executed as it should be if and only if every one of them fits. -/
theorem executes_iff (tasks : TaskList) (keeper : Keeper) (e : LoopEngine) :
    tasks.Executes keeper e ↔ ∀ l ∈ tasks.actions, l.Fits keeper :=
  ⟨fun h _ hl => fits_of_executes h hl, fun h => executes_of_fits h e⟩

/-- The range `0, 1`. -/
def twoValues : ParameterRange where
  min := 0
  max := 1
  step := 1
  min_le_max := Index.zero_le_one
  step_pos := Index.zero_lt_one
  zero_le_min := by decide

def itkpixv2Scan : TaskList where
  actions := [.itkpixv2 ⟨twoValues, "InjVcalDiff"⟩]
  different := List.nodup_singleton _

def freshEngine : LoopEngine where
  stat := fun _ => 0
  regs := fun _ _ => 0
  acts := fun _ => {}

/-- Done with `1`, the loop has written `2` to its register. -/
theorem itkpixv2Scan_leaves_range : ¬ itkpixv2Scan.Executes [] freshEngine := by
  intro h
  have hfits : (LoopAction.itkpixv2 ⟨twoValues, "InjVcalDiff"⟩).Fits [] :=
    fits_of_executes h List.mem_cons_self
  revert hfits
  show ¬ (_ ∧ _ ∧ _ ∧ _)
  decide

end TaskList

end Yarr.Scan
