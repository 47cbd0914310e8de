import Yarr.Fei4.Fei4DataProcessor
import Yarr.Rd53.Rd53aDataProcessor

/-!
# The timing of the decoders of FE-I4 and RD53A

The calls of `process_core` cut the containers into groups, as the reader and
the decoder happen to be scheduled. Here is when the groups show in the events.
-/

namespace Yarr.Pixel.Fragments

open Batches

namespace Reading

variable {κ ι : Type} (R : Reading κ ι)

/-- Each container is read behind those that a call may have taken before as it is read alone. -/
def AlwaysAlike (cs : List ι) : Prop :=
  ∀ before group c after, cs = before ++ group ++ c :: after → R.Alike (R.keptAfter group) c

end Reading

end Yarr.Pixel.Fragments

namespace Yarr.Rd53.Rd53aDataProcessor

open Batches Pixel Pixel.Fragments

def hasHeader (c : WordContainer) : Bool := c.data.flatten.any isHeader

/-- The first word that is a header or a hit is a hit. -/
def hitFirst (c : WordContainer) : Bool :=
  (c.data.flatten.find? fun data => isHeader data || isHit data).any isHit

/-- No container starts with a hit once there was a header before it. -/
def HeadersFirst (cs : List WordContainer) : Prop :=
  ∀ before c between c' after, cs = before ++ c :: between ++ c' :: after →
    hasHeader c = true → hitFirst c' = false

theorem isHit_of_isHeader {data : UInt32} (h : isHeader data = true) : isHit data = false := by
  unfold isHeader at h
  unfold isHit
  simp only [decide_eq_true_eq] at h
  simp [h.2]

theorem orphaned_eq_hitFirst (c : WordContainer) : orphaned (itemsRead c) = hitFirst c := by
  unfold itemsRead hitFirst
  induction c.data.flatten with
  | nil => rfl
  | cons data rest ih =>
      rw [List.flatMap_cons, List.find?_cons]
      by_cases hheader : isHeader data = true
      · simp [itemsOf, hheader, orphaned, isHit_of_isHeader hheader]
      · by_cases hhit : isHit data = true
        · simp [itemsOf, hheader, hhit, orphaned]
        · simpa [itemsOf, hheader, hhit] using ih

/-- A header sets the counters to values below the first ones. -/
theorem foldl_itemsOf (k : Carried) (data : List UInt32) :
    let k' := (data.flatMap itemsOf).foldl Carried.next k
    (data.any isHeader = false → k'.l1id = k.l1id ∧ k'.bcid = k.bcid) ∧
      (data.any isHeader = true → k'.l1id ≠ 666) := by
  induction data generalizing k with
  | nil => simp
  | cons value data ih =>
      obtain ⟨hnone, hsome⟩ := ih ((itemsOf value).foldl Carried.next k)
      rw [List.flatMap_cons, List.foldl_append, List.any_cons]
      by_cases hheader : isHeader value = true
      · have hl1id : ((itemsOf value).foldl Carried.next k).l1id ≠ 666 := by
          have hand : ((value >>> 20) &&& 0x1F).toNat ≤ 0x1F := by
            rw [UInt32.toNat_and]
            exact Nat.and_le_right
          intro heq
          simp only [itemsOf, hheader, if_true, List.foldl_cons, List.foldl_nil, Carried.next]
            at heq
          rw [heq] at hand
          exact absurd hand (by decide)
        constructor
        · simp [hheader]
        · intro _
          by_cases hrest : data.any isHeader = true
          · exact hsome hrest
          · rw [(hnone (by simpa using hrest)).1]
            exact hl1id
      · have hsame : ((itemsOf value).foldl Carried.next k).l1id = k.l1id ∧
            ((itemsOf value).foldl Carried.next k).bcid = k.bcid := by
          unfold itemsOf
          rw [if_neg hheader]
          split
          · exact ⟨rfl, rfl⟩
          · exact ⟨rfl, rfl⟩
        rw [hsame.1, hsame.2] at hnone
        simpa [hheader] using And.intro hnone hsome

theorem keptAfter_fresh_iff (group : List WordContainer) :
    ((reading.keptAfter group).l1id = 666 ∧ (reading.keptAfter group).bcid = 666) ↔
      ∀ c ∈ group, hasHeader c = false := by
  induction group using List.reverseRecOn with
  | nil => simp [Reading.keptAfter, reading, fresh]
  | append_singleton group c ih =>
      obtain ⟨hnone, hsome⟩ := foldl_itemsOf (reading.keptAfter group) c.data.flatten
      rw [Reading.keptAfter_concat]
      simp only [List.forall_mem_append, List.forall_mem_singleton, ← ih]
      by_cases hheader : hasHeader c = true
      · have hl1id := hsome hheader
        constructor
        · intro h
          exact absurd h.1 hl1id
        · intro h
          rw [hheader] at h
          cases h.2
      · have hfalse : hasHeader c = false := by simpa using hheader
        obtain ⟨hl1id, hbcid⟩ := hnone hfalse
        have hnext : (reading.next (reading.keptAfter group) c).l1id =
              (reading.keptAfter group).l1id ∧
            (reading.next (reading.keptAfter group) c).bcid =
              (reading.keptAfter group).bcid := ⟨hl1id, hbcid⟩
        rw [hnext.1, hnext.2]
        simp [hfalse]

theorem alike_iff (group : List WordContainer) (c : WordContainer) :
    reading.Alike (reading.keptAfter group) c ↔
      (hitFirst c = true → ∀ c' ∈ group, hasHeader c' = false) := by
  rw [← orphaned_eq_hitFirst, ← keptAfter_fresh_iff]
  constructor
  · intro h
    exact h.sameCounters
  · intro h
    constructor
    · intro i hi
      obtain ⟨value, _, hvalue⟩ := List.mem_flatMap.mp hi
      exact (item_narrow hvalue).2.2
    · rfl
    · apply (headerTags_same_iff _ _ (itemsRead c)).mpr
      intro huntagged
      have hnot : untagged (itemsRead c) = false := untagged_itemsOf c.data.flatten
      exact absurd (hnot.symm.trans huntagged) Bool.false_ne_true
    · rfl
    · exact h

theorem alwaysAlike_iff (cs : List WordContainer) : reading.AlwaysAlike cs ↔ HeadersFirst cs := by
  constructor
  · intro h before c between c' after hcs hheader
    have halike := (alike_iff (c :: between) c').mp (h before (c :: between) c' after hcs)
    by_contra hhit
    have hnone := halike (by simpa using hhit) c List.mem_cons_self
    rw [hheader] at hnone
    cases hnone
  · intro h before group c' after hcs
    apply (alike_iff group c').mpr
    intro hhit c hc
    obtain ⟨first, rest, hgroup⟩ := List.append_of_mem hc
    by_contra hheader
    have hnot := h (before ++ first) c rest c' after (by rw [hcs, hgroup]; simp) (by simpa using hheader)
    rw [hhit] at hnot
    cases hnot

end Yarr.Rd53.Rd53aDataProcessor

namespace Yarr.Pixel.DecoderTiming

open Batches Pixel Fragments

/-- For the FE-I4, the words that are read of a container, its tags and its counters must not
depend on the containers that the same call has taken before. For the RD53A, no container may
start with a hit once there was a header. -/
theorem timingIndependent_decoders_iff (hitDiscCfg : Fin 3) (cs : List WordContainer) :
    (TimingIndependent (Fei4.process_core hitDiscCfg) cs ↔
      (Fei4.reading hitDiscCfg).AlwaysAlike cs) ∧
    (TimingIndependent Rd53.Rd53aDataProcessor.process_core cs ↔
      Rd53.Rd53aDataProcessor.HeadersFirst cs) := by
  constructor
  · rw [Fei4.process_core_eq]
    exact Reading.timingIndependent_iff
  · rw [Rd53.Rd53aDataProcessor.process_core_eq, ← Rd53.Rd53aDataProcessor.alwaysAlike_iff]
    exact Reading.timingIndependent_iff

def noLoops : LoopStatus := ⟨[], [], false, LoopStatus.same_size_nil⟩

/-- FE-I4: a trigger word with tag 5 in one container, a header in the next. RD53A: a header in
one container, a hit in the next. -/
theorem timing_shows :
    ¬TimingIndependent (Fei4.process_core 0)
      [⟨[[0x01000005]], noLoops⟩, ⟨[[0x00E90000]], noLoops⟩] ∧
    ¬TimingIndependent Rd53.Rd53aDataProcessor.process_core
      [⟨[[0x02000000]], noLoops⟩, ⟨[[0x00000000]], noLoops⟩] := by
  constructor
  · rw [Fei4.process_core_eq, Reading.timingIndependent_iff]
    intro h
    have halike := h [] [⟨[[0x01000005]], noLoops⟩] ⟨[[0x00E90000]], noLoops⟩ [] rfl
    exact absurd halike.sameTags (by decide)
  · rw [Rd53.Rd53aDataProcessor.process_core_eq, Reading.timingIndependent_iff]
    intro h
    have halike := h [] [⟨[[0x02000000]], noLoops⟩] ⟨[[0x00000000]], noLoops⟩ [] rfl
    exact absurd (halike.sameCounters (by decide)).1 (by decide)

end Yarr.Pixel.DecoderTiming
