import Mathlib.Data.List.Basic
import Mathlib.Data.List.Induction
import Mathlib.Logic.Relation

/-!
# A consumer that starts afresh with each call

Items are pushed into a queue at any time. A call of the consumer starts from a
fresh state and takes items until it finds the queue empty. How the items are
cut into calls depends on the timing. What is put out does not, exactly if no
item comes out differently behind the items that the same call may have taken
before.
-/

namespace Yarr.Batches

universe u v w x

/-- What was put into two outlets. -/
@[ext]
structure Out (α : Type w) (β : Type x) where
  main : List α
  side : List β

namespace Out

variable {α : Type w} {β : Type x}

def empty : Out α β := ⟨[], []⟩

def append (a b : Out α β) : Out α β := ⟨a.main ++ b.main, a.side ++ b.side⟩

theorem append_assoc (a b c : Out α β) : (a.append b).append c = a.append (b.append c) := by
  simp [append]

@[simp] theorem append_empty (a : Out α β) : a.append empty = a := by
  simp [append, empty]

@[simp] theorem empty_append (a : Out α β) : empty.append a = a := by
  simp [append, empty]

theorem append_left_cancel {a b c : Out α β} (h : a.append b = a.append c) : b = c := by
  rw [append, append, Out.mk.injEq] at h
  exact Out.ext (List.append_cancel_left h.1) (List.append_cancel_left h.2)

theorem append_right_cancel {a b c : Out α β} (h : a.append c = b.append c) : a = b := by
  rw [append, append, Out.mk.injEq] at h
  exact Out.ext (List.append_cancel_right h.1) (List.append_cancel_right h.2)

end Out

/-- `none`: the program has no defined result. -/
structure Consumer (σ : Type u) (ι : Type v) (α : Type w) (β : Type x) where
  fresh : σ
  take : σ → ι → Option (σ × Out α β)

variable {σ : Type u} {ι : Type v} {α : Type w} {β : Type x}

/-- What is still to be pushed, what is in the queue, the call that is running, and the outlets. -/
structure World (σ : Type u) (ι : Type v) (α : Type w) (β : Type x) where
  pending : List ι
  queue : List ι
  running : Option σ
  out : Out α β

def World.start (items : List ι) : World σ ι α β := ⟨items, [], none, .empty⟩

/-- All items are taken and the last call has returned. -/
def World.Complete (w : World σ ι α β) : Prop := w.pending = [] ∧ w.queue = [] ∧ w.running = none

/-- A step of either thread. A step without a defined result leads to `none`. -/
inductive Step (C : Consumer σ ι α β) : Option (World σ ι α β) → Option (World σ ι α β) → Prop where
  | push (i : ι) (pending queue : List ι) (running : Option σ) (out : Out α β) :
      Step C (some ⟨i :: pending, queue, running, out⟩) (some ⟨pending, queue ++ [i], running, out⟩)
  | enter (pending queue : List ι) (out : Out α β) :
      Step C (some ⟨pending, queue, none, out⟩) (some ⟨pending, queue, some C.fresh, out⟩)
  | take (s s' : σ) (i : ι) (pending queue : List ι) (out out' : Out α β) :
      C.take s i = some (s', out') →
      Step C (some ⟨pending, i :: queue, some s, out⟩)
        (some ⟨pending, queue, some s', out.append out'⟩)
  | fault (s : σ) (i : ι) (pending queue : List ι) (out : Out α β) : C.take s i = none →
      Step C (some ⟨pending, i :: queue, some s, out⟩) none
  | leave (s : σ) (pending : List ι) (out : Out α β) :
      Step C (some ⟨pending, [], some s, out⟩) (some ⟨pending, [], none, out⟩)

def Run (C : Consumer σ ι α β) : Option (World σ ι α β) → Option (World σ ι α β) → Prop :=
  Relation.ReflTransGen (Step C)

/-- No run gets out of defined behaviour, and all that take every item put out the same. -/
def TimingIndependent (C : Consumer σ ι α β) (items : List ι) : Prop :=
  ∃ out, ∀ w, Run C (some (.start items)) w →
    ∃ w', w = some w' ∧ (w'.Complete → w'.out = out)

variable (C : Consumer σ ι α β)

/-! ## Calls as groups of items -/

/-- The items that one call takes. -/
def consume (s : σ) : List ι → Option (σ × Out α β)
  | [] => some (s, .empty)
  | i :: items => (C.take s i).bind fun t => (consume t.1 items).map fun r => (r.1, t.2.append r.2)

def consumeGroups : List (List ι) → Option (Out α β)
  | [] => some .empty
  | group :: groups =>
      (consume C C.fresh group).bind fun t => (consumeGroups groups).map fun out => t.2.append out

theorem consume_append (s : σ) (a b : List ι) :
    consume C s (a ++ b) =
      (consume C s a).bind fun t => (consume C t.1 b).map fun r => (r.1, t.2.append r.2) := by
  induction a generalizing s with
  | nil => simp [consume]
  | cons i a ih =>
      rw [List.cons_append, consume, consume]
      cases C.take s i with
      | none => rfl
      | some t =>
          simp only [Option.bind_some, ih]
          cases consume C t.1 a with
          | none => rfl
          | some r =>
              simp only [Option.bind_some, Option.map_some]
              cases consume C r.1 b with
              | none => rfl
              | some q => simp [Out.append_assoc]

theorem consumeGroups_append (a b : List (List ι)) :
    consumeGroups C (a ++ b) =
      (consumeGroups C a).bind fun out => (consumeGroups C b).map out.append := by
  induction a with
  | nil =>
      have hid : (Out.empty : Out α β).append = id := funext Out.empty_append
      simp [consumeGroups, hid]
  | cons group a ih =>
      rw [List.cons_append, consumeGroups, consumeGroups, ih]
      cases consume C C.fresh group with
      | none => rfl
      | some t =>
          simp only [Option.bind_some]
          cases consumeGroups C a with
          | none => rfl
          | some out =>
              simp only [Option.bind_some, Option.map_some]
              cases consumeGroups C b with
              | none => rfl
              | some out' => simp [Out.append_assoc]

variable {C}

/-! ## Runs as groups -/

/-- The items that were taken stand in the groups of the calls so far. -/
def Accounted (C : Consumer σ ι α β) (items : List ι) (w : World σ ι α β) : Prop :=
  ∃ groups out, consumeGroups C groups = some out ∧
    match w.running with
    | none => groups.flatten ++ w.queue ++ w.pending = items ∧ w.out = out
    | some s => ∃ group out', consume C C.fresh group = some (s, out') ∧
        groups.flatten ++ group ++ w.queue ++ w.pending = items ∧ w.out = out.append out'

/-- Some grouping of a beginning of the items has no defined result. -/
def Faulty (C : Consumer σ ι α β) (items : List ι) : Prop :=
  ∃ groups, groups.flatten <+: items ∧ consumeGroups C groups = none

def Explained (C : Consumer σ ι α β) (items : List ι) : Option (World σ ι α β) → Prop
  | some w => Accounted C items w
  | none => Faulty C items

theorem accounted_start (items : List ι) : Accounted C items (.start items) :=
  ⟨[], .empty, rfl, rfl, rfl⟩

theorem step_accounted {items : List ι} {w : World σ ι α β} (h : Accounted C items w)
    {w' : Option (World σ ι α β)} (hstep : Step C (some w) w') : Explained C items w' := by
  obtain ⟨groups, out, hgroups, hrunning⟩ := h
  cases hstep with
  | push i pending queue running =>
      refine ⟨groups, out, hgroups, ?_⟩
      cases running with
      | none => simpa using hrunning
      | some s => simpa using hrunning
  | enter pending queue =>
      obtain ⟨hitems, hout⟩ := hrunning
      refine ⟨groups, out, hgroups, [], .empty, rfl, ?_, ?_⟩
      · simpa using hitems
      · simpa using hout
  | take s s' i pending queue _ out' htake =>
      obtain ⟨group, out'', hgroup, hitems, hout⟩ := hrunning
      refine ⟨groups, out, hgroups, group ++ [i], out''.append out', ?_, ?_, ?_⟩
      · rw [consume_append, hgroup]
        simp [consume, htake]
      · simpa using hitems
      · rw [← Out.append_assoc, ← hout]
  | fault s i pending queue _ htake =>
      obtain ⟨group, out'', hgroup, hitems, hout⟩ := hrunning
      refine ⟨groups ++ [group ++ [i]], ?_, ?_⟩
      · rw [← hitems]
        simp
      · rw [consumeGroups_append, hgroups]
        simp [consumeGroups, consume_append, hgroup, consume, htake]
  | leave s pending =>
      obtain ⟨group, out', hgroup, hitems, hout⟩ := hrunning
      refine ⟨groups ++ [group], out.append out', ?_, ?_, ?_⟩
      · rw [consumeGroups_append, hgroups]
        simp [consumeGroups, hgroup]
      · simpa using hitems
      · exact hout

theorem run_accounted {items : List ι} {w : Option (World σ ι α β)}
    (h : Run C (some (.start items)) w) : Explained C items w := by
  induction h with
  | refl => exact accounted_start items
  | tail _ hstep ih =>
      rename_i w w' _
      cases w with
      | none => cases hstep
      | some w => exact step_accounted ih hstep

theorem run_push (a : List ι) (pending queue : List ι) (running : Option σ) (out : Out α β) :
    Run C (some ⟨a ++ pending, queue, running, out⟩)
      (some ⟨pending, queue ++ a, running, out⟩) := by
  induction a generalizing queue with
  | nil =>
      rw [List.append_nil]
      exact .refl
  | cons i a ih =>
      have hrest := ih (queue ++ [i])
      rw [List.append_assoc, List.singleton_append] at hrest
      exact .head (.push i (a ++ pending) queue running out) hrest

theorem run_take {s s' : σ} {group : List ι} {out' : Out α β}
    (h : consume C s group = some (s', out')) (pending queue : List ι) (out : Out α β) :
    Run C (some ⟨pending, group ++ queue, some s, out⟩)
      (some ⟨pending, queue, some s', out.append out'⟩) := by
  induction group generalizing s out out' with
  | nil =>
      cases h
      rw [Out.append_empty]
      exact .refl
  | cons i group ih =>
      obtain ⟨⟨t, o⟩, ht, hrest⟩ := Option.bind_eq_some_iff.mp h
      obtain ⟨⟨r, o'⟩, hr, hend⟩ := Option.map_eq_some_iff.mp hrest
      cases hend
      have hrun := ih hr (out.append o)
      rw [Out.append_assoc] at hrun
      exact .head (.take s t i pending (group ++ queue) out o ht) hrun

theorem run_take_fault {s : σ} {group : List ι} (h : consume C s group = none)
    (pending queue : List ι) (out : Out α β) :
    Run C (some ⟨pending, group ++ queue, some s, out⟩) none := by
  induction group generalizing s out with
  | nil => cases h
  | cons i group ih =>
      cases ht : C.take s i with
      | none => exact .single (.fault s i pending (group ++ queue) out ht)
      | some t =>
          have hrest : consume C t.1 group = none := by
            simpa [consume, ht] using h
          exact .head (.take s t.1 i pending (group ++ queue) out t.2 ht) (ih hrest _)

theorem run_groups {groups : List (List ι)} {out' : Out α β}
    (h : consumeGroups C groups = some out') (pending : List ι) (out : Out α β) :
    Run C (some ⟨groups.flatten ++ pending, [], none, out⟩)
      (some ⟨pending, [], none, out.append out'⟩) := by
  induction groups generalizing out out' with
  | nil =>
      cases h
      rw [Out.append_empty]
      exact .refl
  | cons group groups ih =>
      obtain ⟨⟨s, o⟩, hs, hrest⟩ := Option.bind_eq_some_iff.mp h
      obtain ⟨o', ho', hend⟩ := Option.map_eq_some_iff.mp hrest
      subst hend
      have hpush := run_push (C := C) group (groups.flatten ++ pending) [] none out
      have htake := run_take hs (groups.flatten ++ pending) [] out
      rw [List.append_nil] at htake
      have hrun := ih ho' (out.append o)
      rw [Out.append_assoc] at hrun
      rw [List.flatten_cons, List.append_assoc]
      exact (hpush.trans (.head (.enter _ group out) htake)).trans
        (.head (.leave s _ _) hrun)

theorem run_groups_fault {groups : List (List ι)} (h : consumeGroups C groups = none)
    (pending : List ι) (out : Out α β) :
    Run C (some ⟨groups.flatten ++ pending, [], none, out⟩) none := by
  induction groups generalizing out with
  | nil => cases h
  | cons group groups ih =>
      have hpush := run_push (C := C) group (groups.flatten ++ pending) [] none out
      rw [List.flatten_cons, List.append_assoc]
      cases hs : consume C C.fresh group with
      | none =>
          have htake := run_take_fault hs (groups.flatten ++ pending) [] out
          rw [List.append_nil] at htake
          exact hpush.trans (.head (.enter _ group out) htake)
      | some t =>
          have hrest : consumeGroups C groups = none := by
            simpa [consumeGroups, hs] using h
          have hs' : consume C C.fresh group = some (t.1, t.2) := hs
          have htake := run_take hs' (groups.flatten ++ pending) [] out
          rw [List.append_nil] at htake
          exact (hpush.trans (.head (.enter _ group out) htake)).trans
            (.head (.leave t.1 _ _) (ih hrest _))

theorem timingIndependent_iff_groups {items : List ι} :
    TimingIndependent C items ↔
      ∃ out, ∀ groups, groups.flatten = items → consumeGroups C groups = some out := by
  constructor
  · intro ⟨out, hall⟩
    apply Exists.intro out
    intro groups hgroups
    cases hout : consumeGroups C groups with
    | none =>
        have hrun := run_groups_fault hout [] .empty
        rw [List.append_nil, hgroups] at hrun
        obtain ⟨w', hw', _⟩ := hall _ hrun
        cases hw'
    | some o =>
        have hrun := run_groups hout [] .empty
        rw [List.append_nil, hgroups, Out.empty_append] at hrun
        obtain ⟨w', hw', hcomplete⟩ := hall _ hrun
        cases hw'
        exact congrArg some (hcomplete ⟨rfl, rfl, rfl⟩)
  · intro ⟨out, hall⟩
    apply Exists.intro out
    intro w hrun
    have haccounted := run_accounted hrun
    cases w with
    | none =>
        obtain ⟨groups, ⟨rest, hrest⟩, hnone⟩ := haccounted
        have hsome := hall (groups ++ [rest]) (by simpa using hrest)
        rw [consumeGroups_append, hnone] at hsome
        cases hsome
    | some w =>
        apply Exists.intro w
        apply And.intro rfl
        intro ⟨hpending, hqueue, hrunning⟩
        obtain ⟨groups, o, hgroups, hw⟩ := haccounted
        rw [hrunning, hpending, hqueue, List.append_nil, List.append_nil] at hw
        have hsome := hall groups hw.1
        rw [hgroups] at hsome
        rw [hw.2, Option.some.inj hsome]

/-! ## Items one by one -/

/-- What is put out for an item in a state. -/
def outOf (C : Consumer σ ι α β) (s : σ) (i : ι) : Option (Out α β) := (C.take s i).map Prod.snd

/-- An item comes out behind the given ones as it does in a call of its own. -/
def Same (C : Consumer σ ι α β) (group : List ι) (i : ι) : Prop :=
  ∃ s o o', consume C C.fresh group = some (s, o) ∧ outOf C s i = some o' ∧
    outOf C C.fresh i = some o'

theorem consumeGroups_single {i : ι} {o : Out α β} (h : outOf C C.fresh i = some o) :
    consumeGroups C [[i]] = some o := by
  obtain ⟨⟨t, o'⟩, ht, ho⟩ := Option.map_eq_some_iff.mp h
  simp [consumeGroups, consume, ht, ← ho]

theorem consume_concat {s t : σ} {group : List ι} {i : ι} {o o' : Out α β}
    (hgroup : consume C s group = some (t, o)) (hi : outOf C t i = some o') :
    ∃ r, consume C s (group ++ [i]) = some (r, o.append o') := by
  obtain ⟨⟨r, o''⟩, hr, ho⟩ := Option.map_eq_some_iff.mp hi
  apply Exists.intro r
  rw [consume_append, hgroup]
  simp [consume, hr, ← ho]

section
variable {items : List ι}

theorem consume_same (h : ∀ before group i after, items = before ++ group ++ i :: after →
    Same C group i) (group : List ι) {before after : List ι}
    (hitems : items = before ++ group ++ after) :
    ∃ s o, consume C C.fresh group = some (s, o) ∧
      consumeGroups C (group.map fun i => [i]) = some o := by
  induction group using List.reverseRecOn generalizing after with
  | nil => exact ⟨C.fresh, .empty, rfl, rfl⟩
  | append_singleton group i ih =>
      have hsplit : items = before ++ group ++ i :: after := by
        rw [hitems]
        simp
      obtain ⟨s, o, hgroup, hgroups⟩ := ih hsplit
      obtain ⟨s', o', oi, hgroup', hi, hfresh⟩ := h before group i after hsplit
      rw [hgroup] at hgroup'
      cases hgroup'
      obtain ⟨r, hr⟩ := consume_concat hgroup hi
      refine ⟨r, o.append oi, hr, ?_⟩
      rw [List.map_append, consumeGroups_append, hgroups, List.map_singleton,
        consumeGroups_single hfresh]
      rfl

theorem consumeGroups_same (h : ∀ before group i after, items = before ++ group ++ i :: after →
    Same C group i) (groups : List (List ι)) {before : List ι}
    (hitems : items = before ++ groups.flatten) :
    ∃ o, consumeGroups C groups = some o ∧
      consumeGroups C (groups.flatten.map fun i => [i]) = some o := by
  induction groups generalizing before with
  | nil => exact ⟨.empty, rfl, rfl⟩
  | cons group groups ih =>
      rw [List.flatten_cons, ← List.append_assoc] at hitems
      obtain ⟨s, o, hgroup, hsingles⟩ := consume_same h group hitems
      obtain ⟨o', hgroups, hrest⟩ := ih hitems
      apply Exists.intro (o.append o')
      constructor
      · rw [consumeGroups, hgroup, Option.bind_some, hgroups, Option.map_some]
      · rw [List.flatten_cons, List.map_append, consumeGroups_append, hsingles, hrest]
        rfl

theorem consumeGroups_singleton {group : List ι} {out : Out α β}
    (h : consumeGroups C [group] = some out) : ∃ s, consume C C.fresh group = some (s, out) := by
  obtain ⟨⟨s, o⟩, hs, hrest⟩ := Option.bind_eq_some_iff.mp h
  apply Exists.intro s
  rw [hs, ← Option.some.inj hrest]
  simp

theorem same_of_groups {out : Out α β}
    (h : ∀ groups, groups.flatten = items → consumeGroups C groups = some out)
    {before group after : List ι} {i : ι} (hitems : items = before ++ group ++ i :: after) :
    Same C group i := by
  have hflat : ∀ l : List ι, (l.map fun i => [i]).flatten = l := by
    intro l
    induction l with
    | nil => rfl
    | cons i l ih => rw [List.map_cons, List.flatten_cons, ih, List.singleton_append]
  have htogether := h (before.map (fun i => [i]) ++ ([group ++ [i]] ++ after.map fun i => [i]))
    (by simp [hflat, hitems])
  have hapart := h (before.map (fun i => [i]) ++
    ([group] ++ ([[i]] ++ after.map fun i => [i]))) (by simp [hflat, hitems])
  rw [consumeGroups_append, consumeGroups_append] at htogether hapart
  rw [consumeGroups_append] at hapart
  obtain ⟨ob, hbefore, hrest⟩ := Option.bind_eq_some_iff.mp htogether
  obtain ⟨o1, hmiddle, hout⟩ := Option.map_eq_some_iff.mp hrest
  obtain ⟨og, hgroup, hafter⟩ := Option.bind_eq_some_iff.mp hmiddle
  obtain ⟨oa, hoa, ho1⟩ := Option.map_eq_some_iff.mp hafter
  rw [hbefore, Option.bind_some] at hapart
  obtain ⟨o2, hmiddle', hout'⟩ := Option.map_eq_some_iff.mp hapart
  obtain ⟨o, halone, hafter'⟩ := Option.bind_eq_some_iff.mp hmiddle'
  obtain ⟨o3, hlast, ho2⟩ := Option.map_eq_some_iff.mp hafter'
  obtain ⟨oi, hi, hrest'⟩ := Option.bind_eq_some_iff.mp hlast
  rw [hoa, Option.map_some] at hrest'
  obtain ⟨s, hs⟩ := consumeGroups_singleton halone
  obtain ⟨r, hr⟩ := consumeGroups_singleton hgroup
  rw [consume_append, hs] at hr
  obtain ⟨⟨t, ot⟩, ht, hend⟩ := Option.map_eq_some_iff.mp hr
  obtain ⟨⟨q, oq⟩, hq, hnil⟩ := Option.bind_eq_some_iff.mp ht
  cases hnil
  cases hend
  obtain ⟨p, hp⟩ := consumeGroups_singleton hi
  obtain ⟨⟨q', oq'⟩, hq', hnil'⟩ := Option.bind_eq_some_iff.mp hp
  cases hnil'
  dsimp only at hout hout' ho1 ho2 hrest'
  refine ⟨s, o, oq, hs, ?_, ?_⟩
  · rw [outOf, hq]
    rfl
  · have hsame : o1 = o2 := Out.append_left_cancel (hout.trans hout'.symm)
    rw [← ho1, ← ho2, Out.append_assoc] at hsame
    have htail := Out.append_left_cancel hsame
    rw [← Option.some.inj hrest', Out.append_empty, Out.append_empty] at htail
    rw [outOf, hq', Out.append_right_cancel htail]
    rfl

theorem timingIndependent_iff :
    TimingIndependent C items ↔
      ∀ before group i after, items = before ++ group ++ i :: after → Same C group i := by
  rw [timingIndependent_iff_groups]
  constructor
  · intro ⟨out, hall⟩ before group i after hitems
    exact same_of_groups hall hitems
  · intro h
    have hsome : ∃ o, consumeGroups C (items.map fun i => [i]) = some o := by
      obtain ⟨s, o, _, ho⟩ := consume_same h items (show items = [] ++ items ++ [] by simp)
      exact ⟨o, ho⟩
    obtain ⟨out, hout⟩ := hsome
    apply Exists.intro out
    intro groups hgroups
    obtain ⟨o, ho, hsingles⟩ := consumeGroups_same h groups (show items = [] ++ groups.flatten by simp [hgroups])
    rw [hgroups, hout] at hsingles
    rw [ho, Option.some.inj hsingles]

end

end Yarr.Batches
