import Mathlib.Tactic.Tauto
import Yarr.Core.Batches
import Yarr.Pixel.Fragments

/-!
# Decoders that read fragments

A call of the decoder starts from fresh values and takes containers one by one.
The timing of the calls does not matter exactly if each container is read
behind those that the same call may have taken before as it is read alone.
-/

namespace Yarr.Pixel.Fragments

variable {orphanTag : UInt32}

open Batches

/-- Buffers of 32-bit words that were read out together, under one loop status. -/
structure WordContainer where
  data : List (List UInt32)
  stat : LoopStatus

def WordContainer.size (c : WordContainer) : Nat := c.data.length

/-- A decoder: what it keeps of type `κ`, and the items that it reads of a container. -/
structure Reading (κ : Type) (ι : Type) where
  orphanTag : UInt32
  fresh : κ
  carried : κ → Carried
  stat : ι → LoopStatus
  items : κ → ι → List Item
  next : κ → ι → κ
  /-- The container is passed on even if it has no events. -/
  forwards : ι → Bool
  carried_next : ∀ k c, carried (next k c) = (items k c).foldl Carried.next (carried k)
  narrow_fresh : (carried fresh).l1id.toNat < 2 ^ 16 ∧ (carried fresh).bcid.toNat < 2 ^ 16
  narrow : ∀ k c, Narrow (items k c)
  tags : ∀ k c t, .trigger t ∈ items k c → t ≠ orphanTag
  fresh_tag : ∀ k c, untagged (items k c) = true → (carried fresh).tag ≠ orphanTag

namespace Reading

variable {κ ι : Type} (R : Reading κ ι)

def consumer : Consumer κ ι FrontEndData FeedbackProcessingInfo where
  fresh := R.fresh
  take k c := (decode R.orphanTag (.start (R.carried k) (R.stat c)) (R.items k c)).map fun s =>
    (R.next k c, ⟨if R.forwards c ∨ 0 < s.events then [s.curOut] else [], s.feedback⟩)

/-- What is kept behind some containers. -/
def keptAfter (group : List ι) : κ := group.foldl R.next R.fresh

/-- A container is read behind what was kept as it is read in a new call. -/
structure Alike (k : κ) (c : ι) : Prop where
  defined : ∀ i ∈ R.items k c, i ≠ .undefined
  sameSights : sights (R.items k c) = sights (R.items R.fresh c)
  sameTags : headerTags (R.carried k).tag (R.items k c) =
    headerTags (R.carried R.fresh).tag (R.items R.fresh c)
  sameOrphaned : orphaned (R.items k c) = orphaned (R.items R.fresh c)
  sameCounters : orphaned (R.items k c) = true →
    (R.carried k).l1id = (R.carried R.fresh).l1id ∧ (R.carried k).bcid = (R.carried R.fresh).bcid

/-- What holds of all that is kept. -/
structure Kept (k : κ) : Prop where
  tag : (R.carried k).tag = (R.carried R.fresh).tag ∨ (R.carried k).tag ≠ R.orphanTag
  l1id : (R.carried k).l1id.toNat < 2 ^ 16
  bcid : (R.carried k).bcid.toNat < 2 ^ 16

end Reading

theorem foldl_next (k : Carried) (items : List Item) :
    let k' := items.foldl Carried.next k
    (k'.tag = k.tag ∨ .trigger k'.tag ∈ items) ∧
      ((k'.l1id = k.l1id ∧ k'.bcid = k.bcid) ∨
        ∃ feedback, .header k'.l1id k'.bcid feedback ∈ items) := by
  induction items generalizing k with
  | nil => exact ⟨Or.inl rfl, Or.inl ⟨rfl, rfl⟩⟩
  | cons i items ih =>
      obtain ⟨htag, hcounters⟩ := ih (k.next i)
      rw [List.foldl_cons]
      constructor
      · rcases htag with htag | htag
        · cases i with
          | trigger t =>
              right
              rw [htag]
              exact List.mem_cons_self
          | header l1id bcid feedback => exact Or.inl htag
          | data hits => exact Or.inl htag
          | undefined => exact Or.inl htag
        · exact Or.inr (List.mem_cons_of_mem _ htag)
      · rcases hcounters with ⟨hl1id, hbcid⟩ | ⟨feedback, hmem⟩
        · cases i with
          | trigger t => exact Or.inl ⟨hl1id, hbcid⟩
          | header l1id bcid feedback =>
              right
              apply Exists.intro feedback
              rw [hl1id, hbcid]
              exact List.mem_cons_self
          | data hits => exact Or.inl ⟨hl1id, hbcid⟩
          | undefined => exact Or.inl ⟨hl1id, hbcid⟩
        · exact Or.inr ⟨feedback, List.mem_cons_of_mem _ hmem⟩

namespace Reading

variable {κ ι : Type} {R : Reading κ ι}

theorem kept_next {k : κ} (h : R.Kept k) (c : ι) : R.Kept (R.next k c) := by
  obtain ⟨htag, hcounters⟩ := foldl_next (R.carried k) (R.items k c)
  rw [← R.carried_next] at htag hcounters
  have hnarrow : (R.carried (R.next k c)).l1id.toNat < 2 ^ 16 ∧
      (R.carried (R.next k c)).bcid.toNat < 2 ^ 16 := by
    rcases hcounters with ⟨hl1id, hbcid⟩ | ⟨feedback, hmem⟩
    · rw [hl1id, hbcid]
      exact ⟨h.l1id, h.bcid⟩
    · exact R.narrow k c _ _ _ hmem
  refine ⟨?_, hnarrow.1, hnarrow.2⟩
  rcases htag with htag | hmem
  · rw [htag]
    exact h.tag
  · exact Or.inr (R.tags k c _ hmem)

theorem kept_keptAfter (group : List ι) : R.Kept (R.keptAfter group) := by
  induction group using List.reverseRecOn with
  | nil => exact ⟨Or.inl rfl, R.narrow_fresh.1, R.narrow_fresh.2⟩
  | append_singleton group c ih =>
      rw [keptAfter, List.foldl_append]
      exact kept_next ih c

theorem tagsDiffer {k : κ} (h : R.Kept k) (c : ι) :
    TagsDiffer R.orphanTag (R.carried k).tag (R.items k c) := by
  constructor
  · intro huntagged
    rcases h.tag with htag | htag
    · rw [htag]
      exact R.fresh_tag k c huntagged
    · exact htag
  · exact R.tags k c

theorem sameCounters_iff {k k' : κ} (h : R.Kept k) (h' : R.Kept k') :
    (R.carried k).SameCounters (R.carried k') ↔
      (R.carried k).l1id = (R.carried k').l1id ∧ (R.carried k).bcid = (R.carried k').bcid := by
  rw [Carried.SameCounters, Nat.mod_eq_of_lt h.l1id, Nat.mod_eq_of_lt h'.l1id,
    Nat.mod_eq_of_lt h.bcid, Nat.mod_eq_of_lt h'.bcid, UInt32.toNat_inj, UInt32.toNat_inj]

theorem wellformed_start (k : Carried) (stat : LoopStatus) : (State.start k stat).Wellformed :=
  fun h => absurd rfl h

theorem outOf_eq_some {k : κ} {c : ι} {o : Out FrontEndData FeedbackProcessingInfo}
    (h : outOf R.consumer k c = some o) :
    ∃ s, decode R.orphanTag (.start (R.carried k) (R.stat c)) (R.items k c) = some s ∧
      o = ⟨if R.forwards c ∨ 0 < s.events then [s.curOut] else [], s.feedback⟩ := by
  obtain ⟨r, hr, ho⟩ := Option.map_eq_some_iff.mp h
  obtain ⟨s, hs, hrs⟩ := Option.map_eq_some_iff.mp hr
  subst hrs
  exact ⟨s, hs, ho.symm⟩

theorem outOf_of_decode {k : κ} {c : ι} {s : State}
    (h : decode R.orphanTag (.start (R.carried k) (R.stat c)) (R.items k c) = some s) :
    outOf R.consumer k c =
      some ⟨if R.forwards c ∨ 0 < s.events then [s.curOut] else [], s.feedback⟩ := by
  simp [outOf, consumer, h]

theorem out_eq_iff {stat : LoopStatus} {k k' : Carried} {items items' : List Item} {s s' : State}
    (hs : decode R.orphanTag (.start k stat) items = some s)
    (hs' : decode R.orphanTag (.start k' stat) items' = some s') (forwards : Bool) :
    ((if forwards ∨ 0 < s.events then [s.curOut] else []) =
        if forwards ∨ 0 < s'.events then [s'.curOut] else []) ↔ s.curOut = s'.curOut := by
  have hcounted : s.events = s.curOut.events.length :=
    counted_decode hs (counted_start k stat)
  have hcounted' : s'.events = s'.curOut.events.length :=
    counted_decode hs' (counted_start k' stat)
  have hstat : s.curOut.lStat = s'.curOut.lStat :=
    (decode_shows hs).lStat.trans (decode_shows hs').lStat.symm
  constructor
  · intro h
    by_cases hforwards : forwards ∨ 0 < s.events
    · rw [if_pos hforwards] at h
      by_cases hforwards' : forwards ∨ 0 < s'.events
      · rw [if_pos hforwards'] at h
        exact List.cons.inj h |>.1
      · rw [if_neg hforwards'] at h
        cases h
    · rw [if_neg hforwards] at h
      by_cases hforwards' : forwards ∨ 0 < s'.events
      · rw [if_pos hforwards'] at h
        cases h
      · -- both are without events
        have hnil : s.curOut.events = [] := List.eq_nil_of_length_eq_zero (by omega)
        have hnil' : s'.curOut.events = [] := List.eq_nil_of_length_eq_zero (by omega)
        cases hc : s.curOut
        cases hc' : s'.curOut
        simp_all
  · intro h
    rw [hcounted, hcounted', h]

theorem outOf_same_iff {k : κ} (hk : R.Kept k) (c : ι) :
    (∃ o, outOf R.consumer k c = some o ∧ outOf R.consumer R.fresh c = some o) ↔
      (∀ i ∈ R.items R.fresh c, i ≠ .undefined) ∧ R.Alike k c := by
  have hfresh : R.Kept R.fresh := kept_keptAfter []
  have hdefined := fun k => decode_ne_none_iff R.orphanTag
    (wellformed_start (R.carried k) (R.stat c)) (R.items k c)
  have hsame : ∀ s s', decode R.orphanTag (.start (R.carried k) (R.stat c)) (R.items k c) = some s →
      decode R.orphanTag (.start (R.carried R.fresh) (R.stat c)) (R.items R.fresh c) = some s' →
      (s.curOut = s'.curOut ∧ s.feedback = s'.feedback ↔
        (orphaned (R.items k c) = orphaned (R.items R.fresh c) ∧
          (orphaned (R.items k c) = true → (R.carried k).l1id = (R.carried R.fresh).l1id ∧
            (R.carried k).bcid = (R.carried R.fresh).bcid)) ∧
          sights (R.items k c) = sights (R.items R.fresh c) ∧
          headerTags (R.carried k).tag (R.items k c) =
            headerTags (R.carried R.fresh).tag (R.items R.fresh c)) := by
    intro s s' hs hs'
    rw [decode_same_iff hs hs' (tagsDiffer hk c) (tagsDiffer hfresh c), sameCounters_iff hk hfresh,
      ← marks_same_iff (R.narrow k c) (R.narrow R.fresh c)]
    tauto
  constructor
  · intro ⟨o, ho, ho'⟩
    obtain ⟨s, hs, hos⟩ := outOf_eq_some ho
    obtain ⟨s', hs', hos'⟩ := outOf_eq_some ho'
    rw [hos, Out.mk.injEq] at hos'
    obtain ⟨⟨horphaned, hcounters⟩, hsights, htags⟩ :=
      (hsame s s' hs hs').mp ⟨(out_eq_iff hs hs' (R.forwards c)).mp hos'.1, hos'.2⟩
    constructor
    · apply (hdefined R.fresh).mp
      simp [hs']
    · refine ⟨?_, hsights, htags, horphaned, hcounters⟩
      apply (hdefined k).mp
      simp [hs]
  · intro ⟨hfreshDefined, halike⟩
    obtain ⟨s', hs'⟩ := Option.ne_none_iff_exists'.mp ((hdefined R.fresh).mpr hfreshDefined)
    obtain ⟨s, hs⟩ := Option.ne_none_iff_exists'.mp ((hdefined k).mpr halike.defined)
    obtain ⟨hcurOut, hfeedback⟩ := (hsame s s' hs hs').mpr
      ⟨⟨halike.sameOrphaned, halike.sameCounters⟩, halike.sameSights, halike.sameTags⟩
    refine ⟨_, outOf_of_decode hs, ?_⟩
    rw [outOf_of_decode hs', (out_eq_iff hs hs' (R.forwards c)).mpr hcurOut, hfeedback]

theorem keptAfter_concat (group : List ι) (c : ι) :
    R.keptAfter (group ++ [c]) = R.next (R.keptAfter group) c := by
  simp [keptAfter]

theorem consume_keptAfter {group : List ι} {k : κ} {o : Out FrontEndData FeedbackProcessingInfo}
    (h : consume R.consumer R.fresh group = some (k, o)) : k = R.keptAfter group := by
  have hgeneral : ∀ k₀ k o, consume R.consumer k₀ group = some (k, o) →
      k = group.foldl R.next k₀ := by
    clear h
    induction group with
    | nil =>
        intro k₀ k o h
        cases h
        rfl
    | cons c group ih =>
        intro k₀ k o h
        obtain ⟨⟨t, ot⟩, ht, hrest⟩ := Option.bind_eq_some_iff.mp h
        obtain ⟨⟨r, or⟩, hr, hend⟩ := Option.map_eq_some_iff.mp hrest
        obtain ⟨s, _, hs⟩ := Option.map_eq_some_iff.mp ht
        cases hend
        cases hs
        exact ih _ _ _ hr
  exact hgeneral R.fresh k o h

theorem consume_defined {group : List ι}
    (h : ∀ first c rest, group = first ++ c :: rest →
      ∀ i ∈ R.items (R.keptAfter first) c, i ≠ .undefined) :
    ∃ o, consume R.consumer R.fresh group = some (R.keptAfter group, o) := by
  induction group using List.reverseRecOn with
  | nil => exact ⟨.empty, rfl⟩
  | append_singleton group c ih =>
      obtain ⟨o, ho⟩ := ih fun first c' rest hgroup =>
        h first c' (rest ++ [c]) (by rw [hgroup]; simp)
      have hdefined := h group c [] rfl
      obtain ⟨s, hs⟩ := Option.ne_none_iff_exists'.mp ((decode_ne_none_iff
        R.orphanTag (wellformed_start (R.carried (R.keptAfter group)) (R.stat c))
        (R.items (R.keptAfter group) c)).mpr hdefined)
      obtain ⟨r, hr⟩ := consume_concat (C := R.consumer) ho (outOf_of_decode hs)
      have hkept := consume_keptAfter hr
      subst hkept
      exact ⟨_, hr⟩

/-- The timing does not matter exactly if every container is read behind those that the same
call may have taken before as it is read in a new call. -/
theorem timingIndependent_iff {cs : List ι} :
    TimingIndependent R.consumer cs ↔
      ∀ before group c after, cs = before ++ group ++ c :: after →
        R.Alike (R.keptAfter group) c := by
  rw [Batches.timingIndependent_iff]
  constructor
  · intro h before group c after hcs
    obtain ⟨k, o, o', hgroup, ho, hfresh⟩ := h before group c after hcs
    rw [consume_keptAfter hgroup] at ho
    exact ((outOf_same_iff (kept_keptAfter group) c).mp ⟨o', ho, hfresh⟩).2
  · intro h before group c after hcs
    have hgroup : ∃ o, consume R.consumer R.fresh group = some (R.keptAfter group, o) :=
      consume_defined fun first c' rest hgroup =>
        (h before first c' (rest ++ c :: after) (by rw [hcs, hgroup]; simp)).defined
    obtain ⟨o, ho⟩ := hgroup
    have hfresh := (h (before ++ group) [] c after (by rw [hcs]; simp)).defined
    obtain ⟨o', hk, hf⟩ := (outOf_same_iff (kept_keptAfter group) c).mpr
      ⟨hfresh, h before group c after hcs⟩
    exact ⟨_, o, o', ho, hk, hf⟩

end Reading

end Yarr.Pixel.Fragments
