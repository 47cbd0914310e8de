import Yarr.Core.Bits
import Yarr.Histo.Rebuild

/-!
# Histograms of raw bits

The hits of an event hold words of raw data, and a range of their bits is
counted over the events. An event may have fewer words than the range needs.
-/

namespace Yarr.Histo

open Scan EventFile Bits

/-! ## The histogrammer -/

/-- Both numbers are of type `size_t`. -/
structure RawDataHistogram where
  width : Nat := 32
  offset : Nat := 0
  width_lt : width < 2 ^ 64 := by decide
  offset_lt : offset < 2 ^ 64 := by decide

/-- The word that a hit holds. -/
def wordOf (curHit : FrontEndHit) : Nat := curHit.row.toNat <<< 16 ||| curHit.col.toNat

namespace RawDataHistogram

variable (r : RawDataHistogram)

/-! The bins are counted by an `unsigned`; sums are of type `size_t`. -/

section Calls

variable {D : Type} [Double D]

def outputName : String := "RawData"

def create (stat : LoopStatus) : Histo1d D :=
  let half : D := ((1 : Nat) : D) / ((2 : Nat) : D)
  { Histo1d.new outputName (r.width % 2 ^ 32) ((r.offset : D) - half)
      (((r.offset + r.width) % 2 ^ 64 : Nat) - half) stat with
    xAxisTitle := "Bits"
    yAxisTitle := "Accumulator" }

def word_start : Nat := r.offset / 32

def word_end : Nat := (r.offset + r.width + 31) % 2 ^ 64 / 32

def bit_first : Nat := r.offset % 32

def bit_last : Nat := (r.offset + r.width + (2 ^ 64 - 1)) % 2 ^ 64 % 32 + 1

/-- Behind which word the loop over an event ends. -/
def w_end (h_size : Nat) : Nat := if h_size ≤ r.word_end then h_size else r.word_end

/-- Behind which bit of its last word the loop over an event ends. -/
def b_last (h_size : Nat) : Nat :=
  if h_size ≤ r.word_end then
    if h_size < r.word_end then 32
    else if r.bit_last ≠ 32 then min ((r.offset + 31) % 2 ^ 64 % 32 + 1) r.bit_last
    else r.bit_last
  else r.bit_last

def bit_start (word_index : Nat) : Nat := if word_index = r.word_start then r.bit_first else 0

def bit_end (h_size word_index : Nat) : Nat :=
  if word_index = r.w_end h_size - 1 then r.b_last h_size else 32

/-- The loop over the bits of a word. -/
def fillWord (h_size word_index word : Nat) (h : Histo1d D) : Option (Histo1d D) :=
  let start := r.bit_start word_index
  (List.range' start (r.bit_end h_size word_index - start)).foldlM
    (fun h bit =>
      if word &&& 1 <<< (31 - bit) ≠ 0 then
        h.fill ((word_index * 32 + bit : Nat) : D) ((1 : Nat) : D)
      else some h) h

/-- The loop over the words of an event. -/
def fillEvent (h : Histo1d D) (curEvent : FrontEndEvent) : Option (Histo1d D) :=
  let h_size := curEvent.hits.length
  if h_size < r.word_start then some h
  else
    (List.range' r.word_start (r.w_end h_size - r.word_start)).foldlM
      (fun h word_index => do
        let curHit ← curEvent.hits[word_index]?
        r.fillWord h_size word_index (wordOf curHit) h) h

def processEvent (h : Histo1d D) (data : FrontEndData) : Option (Histo1d D) :=
  data.events.foldlM r.fillEvent h

/-- A histogram is created, and the data of an iteration come one after the other. -/
def run (stat : LoopStatus) (datas : List FrontEndData) : Option (Histo1d D) :=
  datas.foldlM r.processEvent (r.create stat)

end Calls

/-! ## What is counted -/

/-- The concatenated words of an event. -/
def bits (curEvent : FrontEndEvent) : List Bool :=
  curEvent.hits.flatMap fun curHit => bitsOf 32 (wordOf curHit)

/-- In how many events a bit is there and set. -/
def occurrences (events : List FrontEndEvent) (k : Nat) : Nat :=
  events.countP fun curEvent => (bits curEvent)[k]? == some true

/-- Each bit of the range has its bin, which counts the events that have it. -/
def Counts (events : List FrontEndEvent) (h : Histo1d ℝ) : Prop :=
  h.data = ((List.range r.width).map fun i => (occurrences events (r.offset + i) : ℝ)) ∧
    h.underflow = 0 ∧ h.overflow = 0

/-- A bit of the range that is not looked at. An addition has wrapped around, or the words of
the event end where the range ends, and the last of them is cut where the first one begins. -/
def Skipped (curEvent : FrontEndEvent) (k : Nat) : Prop :=
  2 ^ 64 ≤ r.offset + r.width + 31 ∨
    (32 * (curEvent.hits.length - 1) < r.offset + r.width ∧
      r.offset + r.width < 32 * curEvent.hits.length ∧
      32 * (curEvent.hits.length - 1) ≤ k ∧ 0 < r.offset % 32 ∧ r.offset % 32 ≤ k % 32)

/-! ## The bits that are filled -/

/-- The bits of a word that are filled. -/
def filledOf (h_size word_index word : Nat) : List Nat :=
  let start := r.bit_start word_index
  (List.range' start (r.bit_end h_size word_index - start)).flatMap fun bit =>
    if word.testBit (31 - bit) then [word_index * 32 + bit] else []

/-- The bits of an event that are filled. -/
def filled (curEvent : FrontEndEvent) : List Nat :=
  let h_size := curEvent.hits.length
  (List.range' r.word_start (r.w_end h_size - r.word_start)).flatMap fun word_index =>
    (curEvent.hits[word_index]?.map fun curHit =>
      r.filledOf h_size word_index (wordOf curHit)).getD []

theorem foldlM_flatMap {α β γ : Type} {f : α → List γ} {g : β → γ → Option β}
    {step : β → α → Option β} {l : List α}
    (hstep : ∀ a ∈ l, ∀ b, step b a = (f a).foldlM g b) (b : β) :
    l.foldlM step b = (l.flatMap f).foldlM g b := by
  induction l generalizing b with
  | nil => rfl
  | cons a l ih =>
      have htail := ih fun a' ha' => hstep a' (List.mem_cons_of_mem a ha')
      rw [List.foldlM_cons, List.flatMap_cons, List.foldlM_append, hstep a List.mem_cons_self]
      exact bind_congr htail

theorem w_end_le (h_size : Nat) : r.w_end h_size ≤ h_size := by
  unfold w_end
  split
  · exact Nat.le_refl h_size
  · exact Nat.le_of_lt (Nat.lt_of_not_le ‹_›)

section Calls

variable {D : Type} [Double D]

def fillBit (h : Histo1d D) (k : Nat) : Option (Histo1d D) := h.fill (k : D) ((1 : Nat) : D)

theorem fillWord_eq (h_size word_index word : Nat) (h : Histo1d D) :
    r.fillWord h_size word_index word h = (r.filledOf h_size word_index word).foldlM fillBit h := by
  unfold fillWord filledOf
  apply foldlM_flatMap
  intro bit _ h
  by_cases hbit : word.testBit (31 - bit) = true
  · rw [if_pos ((and_bit_ne_zero _ _).mpr hbit), if_pos hbit, List.foldlM_cons]
    exact (bind_pure _).symm
  · rw [if_neg ((and_bit_ne_zero _ _).not.mpr hbit), if_neg hbit]
    rfl

theorem fillEvent_eq (h : Histo1d D) (curEvent : FrontEndEvent) :
    r.fillEvent h curEvent = (r.filled curEvent).foldlM fillBit h := by
  have hend := r.w_end_le curEvent.hits.length
  unfold fillEvent filled
  dsimp only
  by_cases hskip : curEvent.hits.length < r.word_start
  · have hnone : r.w_end curEvent.hits.length - r.word_start = 0 := by omega
    rw [if_pos hskip, hnone]
    rfl
  · rw [if_neg hskip]
    apply foldlM_flatMap
    intro word_index hmem h
    have hlt : word_index < curEvent.hits.length := by
      have hrange := (List.mem_range'_1.mp hmem).2
      omega
    rw [List.getElem?_eq_getElem hlt]
    exact r.fillWord_eq _ _ _ h

theorem run_eq (stat : LoopStatus) (datas : List FrontEndData) :
    r.run stat datas = ((datas.flatMap FrontEndData.events).flatMap r.filled).foldlM fillBit
      (r.create (D := D) stat) := by
  rw [List.flatMap_assoc]
  apply foldlM_flatMap
  intro data _ h
  apply foldlM_flatMap
  intro curEvent _ h
  exact r.fillEvent_eq h curEvent

end Calls

/-! ## The window of an event -/

/-- The loops over an event come to a bit. -/
def InWindow (h_size k : Nat) : Prop :=
  r.word_start ≤ k / 32 ∧ k / 32 < r.w_end h_size ∧ r.bit_start (k / 32) ≤ k % 32 ∧
    k % 32 < r.bit_end h_size (k / 32)

theorem bit_last_le : r.bit_last ≤ 32 := by
  unfold bit_last
  omega

theorem bit_end_le (h_size word_index : Nat) : r.bit_end h_size word_index ≤ 32 := by
  have hlast := r.bit_last_le
  unfold bit_end b_last
  split_ifs <;> omega

theorem mem_filledOf {h_size word_index word k : Nat} :
    k ∈ r.filledOf h_size word_index word ↔ k / 32 = word_index ∧
      r.bit_start word_index ≤ k % 32 ∧ k % 32 < r.bit_end h_size word_index ∧
      word.testBit (31 - k % 32) = true := by
  have hend := r.bit_end_le h_size word_index
  unfold filledOf
  dsimp only
  rw [List.mem_flatMap]
  constructor
  · rintro ⟨bit, hrange, hk⟩
    rw [List.mem_range'_1] at hrange
    by_cases hbit : word.testBit (31 - bit) = true
    · rw [if_pos hbit, List.mem_singleton] at hk
      have hword : k / 32 = word_index := by omega
      have hplace : k % 32 = bit := by omega
      rw [hword, hplace]
      exact ⟨rfl, hrange.1, by omega, hbit⟩
    · rw [if_neg hbit] at hk
      cases hk
  · rintro ⟨hword, hlo, hhi, hbit⟩
    refine ⟨k % 32, List.mem_range'_1.mpr ⟨hlo, by omega⟩, ?_⟩
    rw [if_pos hbit, List.mem_singleton]
    omega

theorem getElem?_bits (curEvent : FrontEndEvent) (k : Nat) :
    (bits curEvent)[k]? =
      curEvent.hits[k / 32]?.map fun curHit => (wordOf curHit).testBit (31 - k % 32) := by
  have hlt : k % 32 < 32 := Nat.mod_lt _ (by decide)
  unfold bits
  rw [getElem?_flatMap_of_length (by decide) fun curHit => length_bitsOf 32 (wordOf curHit)]
  cases curEvent.hits[k / 32]? with
  | none => rfl
  | some curHit => exact getElem?_bitsOf _ hlt

theorem mem_filled {curEvent : FrontEndEvent} {k : Nat} :
    k ∈ r.filled curEvent ↔
      r.InWindow curEvent.hits.length k ∧ (bits curEvent)[k]? = some true := by
  have hend := r.w_end_le curEvent.hits.length
  unfold filled
  dsimp only
  rw [List.mem_flatMap, getElem?_bits]
  constructor
  · rintro ⟨word_index, hrange, hk⟩
    rw [List.mem_range'_1] at hrange
    rw [List.getElem?_eq_getElem (by omega)] at hk
    rcases r.mem_filledOf.mp hk with ⟨hword, hlo, hhi, hbit⟩
    subst hword
    rw [List.getElem?_eq_getElem (by omega)]
    exact ⟨⟨hrange.1, by omega, hlo, hhi⟩, congrArg some hbit⟩
  · rintro ⟨⟨hstart, hlt, hlo, hhi⟩, hbit⟩
    refine ⟨k / 32, List.mem_range'_1.mpr ⟨hstart, by omega⟩, ?_⟩
    rw [List.getElem?_eq_getElem (by omega)] at hbit ⊢
    exact r.mem_filledOf.mpr ⟨rfl, hlo, hhi, Option.some.inj hbit⟩

theorem start_iff (k : Nat) :
    r.word_start ≤ k / 32 ∧ r.bit_start (k / 32) ≤ k % 32 ↔ r.offset ≤ k := by
  unfold bit_start word_start bit_first
  split <;> omega

theorem last_cases (hwrap : r.offset + r.width + 31 < 2 ^ 64) : ∃ words,
    (r.offset + r.width = 32 * words ∧ r.word_end = words ∧ r.bit_last = 32) ∨
      ∃ rest, (0 < rest ∧ rest < 32) ∧ r.offset + r.width = 32 * words + rest ∧
        r.word_end = words + 1 ∧ r.bit_last = rest := by
  refine ⟨(r.offset + r.width) / 32, ?_⟩
  have hend : r.word_end = (r.offset + r.width + 31) / 32 := by
    unfold word_end
    rw [Nat.mod_eq_of_lt hwrap]
  rw [hend]
  unfold bit_last
  generalize r.offset + r.width = last at hwrap
  by_cases hrest : last % 32 = 0
  · left
    omega
  · right
    refine ⟨last % 32, ?_⟩
    omega

theorem end_iff (hwrap : r.offset + r.width + 31 < 2 ^ 64) (h_size k : Nat) :
    k / 32 < r.w_end h_size ∧ k % 32 < r.bit_end h_size (k / 32) ↔
      k < r.offset + r.width ∧ k / 32 < h_size ∧
        ¬(32 * (h_size - 1) < r.offset + r.width ∧ r.offset + r.width < 32 * h_size ∧
          32 * (h_size - 1) ≤ k ∧ 0 < r.offset % 32 ∧ r.offset % 32 ≤ k % 32) := by
  have hlt : k % 32 < 32 := Nat.mod_lt k (by decide)
  have hk : 32 * (k / 32) + k % 32 = k := Nat.div_add_mod k 32
  obtain ⟨words, ⟨hlast, hword, hbit⟩ | ⟨rest, hrest, hlast, hword, hbit⟩⟩ := r.last_cases hwrap
  · have hfull : r.bit_end h_size (k / 32) = 32 := by
      simp only [bit_end, b_last, hbit, ne_eq, not_true_eq_false, if_false, ite_self]
    rw [hfull, hlast, w_end, hword]
    split <;> omega
  · have hfirst : (r.offset + 31) % 2 ^ 64 % 32 + 1 = if r.offset % 32 = 0 then 32
        else r.offset % 32 := by
      split <;> omega
    unfold bit_end w_end b_last
    rw [hfirst, hword, hbit, hlast, if_pos (show rest ≠ 32 by omega)]
    clear hfirst hword hbit hlast hwrap
    rcases Nat.lt_trichotomy h_size (words + 1) with hshort | hsame | hlong
    · -- the event ends before the range
      rw [if_pos hshort.le, if_pos hshort.le, if_pos hshort, ite_self]
      omega
    · subst hsame
      rw [if_pos (Nat.le_refl _), if_pos (Nat.le_refl _), if_neg (Nat.lt_irrefl _)]
      by_cases hmid : k / 32 = words
      · rw [if_pos (show k / 32 = words + 1 - 1 from hmid)]
        split <;> omega
      · rw [if_neg (show ¬k / 32 = words + 1 - 1 from hmid)]
        omega
    · -- the event goes on behind the range
      rw [if_neg hlong.not_ge, if_neg hlong.not_ge]
      split <;> omega

theorem inWindow_iff (hwidth : r.width < 2 ^ 32) (curEvent : FrontEndEvent) (k : Nat) :
    r.InWindow curEvent.hits.length k ↔ r.offset ≤ k ∧ k < r.offset + r.width ∧
      k / 32 < curEvent.hits.length ∧ ¬r.Skipped curEvent k := by
  have hoffset := r.offset_lt
  unfold InWindow Skipped
  by_cases hwrap : 2 ^ 64 ≤ r.offset + r.width + 31
  · have hempty : r.w_end curEvent.hits.length ≤ r.word_start := by
      unfold w_end word_end word_start
      split <;> omega
    constructor
    · rintro ⟨hstart, hend, _⟩
      exact absurd (Nat.lt_of_le_of_lt hstart hend) hempty.not_gt
    · rintro ⟨_, _, _, hnot⟩
      exact absurd (Or.inl hwrap) hnot
  · have hstart := r.start_iff k
    have hend := r.end_iff (Nat.lt_of_not_le hwrap) curEvent.hits.length k
    simp only [hwrap, false_or]
    rw [← hstart, ← hend]
    tauto

theorem div_of_mem_filledOf {h_size word_index word k : Nat}
    (hk : k ∈ r.filledOf h_size word_index word) : k / 32 = word_index :=
  (r.mem_filledOf.mp hk).1

theorem nodup_flatMap_of_source {α β : Type} {f : α → List β} {g : β → α} {l : List α}
    (hl : l.Nodup) (hf : ∀ a, (f a).Nodup) (hg : ∀ a, ∀ b ∈ f a, g b = a) :
    (l.flatMap f).Nodup := by
  rw [List.nodup_flatMap]
  constructor
  · exact fun a _ => hf a
  · apply List.Nodup.pairwise_of_forall_ne hl
    intro a _ a' _ hne b hb hb'
    exact hne ((hg a b hb).symm.trans (hg a' b hb'))

theorem nodup_filledOf (h_size word_index word : Nat) :
    (r.filledOf h_size word_index word).Nodup := by
  apply nodup_flatMap_of_source (g := fun k => k - word_index * 32) List.nodup_range'
  · intro bit
    split
    · exact List.nodup_singleton _
    · exact List.nodup_nil
  · intro bit k hk
    split at hk
    · rw [List.mem_singleton] at hk
      omega
    · cases hk

theorem nodup_filled (curEvent : FrontEndEvent) : (r.filled curEvent).Nodup := by
  apply nodup_flatMap_of_source (g := fun k => k / 32) List.nodup_range'
  · intro word_index
    cases curEvent.hits[word_index]? with
    | none => exact List.nodup_nil
    | some curHit => exact r.nodup_filledOf _ _ _
  · intro word_index k hk
    cases hhit : curEvent.hits[word_index]? with
    | none =>
        rw [hhit] at hk
        cases hk
    | some curHit =>
        rw [hhit] at hk
        exact r.div_of_mem_filledOf hk

theorem count_filled (events : List FrontEndEvent) (k : Nat) :
    (events.flatMap r.filled).count k =
      events.countP fun curEvent => decide (k ∈ r.filled curEvent) := by
  induction events with
  | nil => rfl
  | cons curEvent events ih =>
      rw [List.flatMap_cons, List.count_append, ih, List.countP_cons]
      by_cases hmem : k ∈ r.filled curEvent
      · rw [List.count_eq_one_of_mem (r.nodup_filled curEvent) hmem]
        simp [hmem, Nat.add_comm]
      · rw [List.count_eq_zero_of_not_mem hmem]
        simp [hmem]

/-! ## The bins -/

/-- The bins of a histogram that was filled with a list of bits. -/
structure Filled (h : Histo1d ℝ) (ks : List Nat) : Prop where
  axis : h.x = .of (r.width % 2 ^ 32) ((r.offset : ℝ) - 1 / 2)
    (((r.offset + r.width) % 2 ^ 64 : Nat) - 1 / 2)
  data : h.data = (List.range r.width).map fun i => ((ks.count (r.offset + i) : Nat) : ℝ)
  underflow : h.underflow = 0
  overflow : h.overflow = 0

theorem bin_eq {k : Nat} (hlo : r.offset ≤ k) (hhi : k < r.offset + r.width) :
    ⌊((k : ℝ) - ((r.offset : ℝ) - 1 / 2)) /
      ((((r.offset + r.width : Nat) : ℝ) - 1 / 2 - ((r.offset : ℝ) - 1 / 2)) / (r.width : ℝ))⌋₊ =
      k - r.offset := by
  have hwidth : (r.width : ℝ) ≠ 0 := by
    rw [Nat.cast_ne_zero]
    omega
  have hone : (((r.offset + r.width : Nat) : ℝ) - 1 / 2 - ((r.offset : ℝ) - 1 / 2)) /
      (r.width : ℝ) = 1 := by
    rw [Nat.cast_add, div_eq_one_iff_eq hwidth]
    ring
  have hplace : (k : ℝ) - ((r.offset : ℝ) - 1 / 2) = ((k - r.offset : Nat) : ℝ) + 1 / 2 := by
    rw [Nat.cast_sub hlo]
    ring
  rw [hone, div_one, hplace, Nat.floor_eq_iff (by positivity)]
  constructor
  · linarith
  · linarith

variable {r}

theorem Filled.fillBit {h : Histo1d ℝ} {ks : List Nat} (hf : r.Filled h ks) {k : Nat}
    (hwidth : r.width < 2 ^ 32) (hend : r.offset + r.width < 2 ^ 64) (hlo : r.offset ≤ k)
    (hhi : k < r.offset + r.width) :
    ∃ h', RawDataHistogram.fillBit h k = some h' ∧ r.Filled h' (ks ++ [k]) := by
  have haxis := hf.axis
  rw [Nat.mod_eq_of_lt hwidth, Nat.mod_eq_of_lt hend] at haxis
  have hlow : ¬(k : ℝ) < (r.offset : ℝ) - 1 / 2 := by
    have hle : (r.offset : ℝ) ≤ k := Nat.cast_le.mpr hlo
    linarith
  have hhigh : ¬((r.offset + r.width : Nat) : ℝ) - 1 / 2 ≤ (k : ℝ) := by
    have hle : ((k + 1 : Nat) : ℝ) ≤ ((r.offset + r.width : Nat) : ℝ) := Nat.cast_le.mpr hhi
    rw [Nat.cast_succ] at hle
    linarith
  have hlength : h.data.length = r.width := by
    rw [hf.data, List.length_map, List.length_range]
  have hlow' : ¬(k : ℝ) < h.x.low := by
    rw [haxis]
    exact hlow
  have hhigh' : ¬h.x.high ≤ (k : ℝ) := by
    rw [haxis]
    exact hhigh
  have hplace : Double.toUnsigned (((k : ℝ) - h.x.low) / h.x.binWidth) = k - r.offset := by
    rw [haxis]
    exact r.bin_eq hlo hhi
  refine ⟨_, Histo1d.fill_inside ((1 : Nat) : ℝ) hlow' hhigh' hplace (by omega), hf.axis, ?_,
    hf.underflow, hf.overflow⟩
  apply List.ext_getElem
  · simp [hlength]
  · intro i hi hi'
    simp only [hf.data, List.getElem_modify, List.getElem_map, List.getElem_range,
      List.count_append, List.count_singleton]
    by_cases heq : k - r.offset = i
    · have hk : k = r.offset + i := by omega
      simp [hk]
    · have hk : ¬k = r.offset + i := by omega
      simp [heq, hk]

theorem Filled.foldlM {h : Histo1d ℝ} {ks ks' : List Nat} (hf : r.Filled h ks)
    (hwidth : r.width < 2 ^ 32) (hrange : ∀ k ∈ ks', r.offset + r.width < 2 ^ 64 ∧ r.offset ≤ k ∧
      k < r.offset + r.width) :
    ∃ h', ks'.foldlM RawDataHistogram.fillBit h = some h' ∧ r.Filled h' (ks ++ ks') := by
  induction ks' generalizing h ks with
  | nil => exact ⟨h, rfl, by rwa [List.append_nil]⟩
  | cons k ks' ih =>
      rcases hrange k List.mem_cons_self with ⟨hend, hlo, hhi⟩
      rcases hf.fillBit hwidth hend hlo hhi with ⟨h', hfill, hf'⟩
      rcases ih hf' fun k' hk' => hrange k' (List.mem_cons_of_mem k hk') with ⟨last, hrun, hlast⟩
      rw [List.append_assoc] at hlast
      rw [List.foldlM_cons, hfill]
      exact ⟨last, hrun, hlast⟩

theorem filled_create (hwidth : r.width < 2 ^ 32) (stat : LoopStatus) :
    r.Filled (r.create stat) [] := by
  constructor
  · show Axis.of _ _ _ = Axis.of _ _ _
    rw [show ((1 : Nat) : ℝ) / ((2 : Nat) : ℝ) = 1 / 2 by norm_num]
  · show List.replicate (r.width % 2 ^ 32) (0 : ℝ) = _
    rw [Nat.mod_eq_of_lt hwidth]
    apply List.ext_getElem
    · simp
    · simp
  · rfl
  · rfl

variable (r)

/-- Of a range that is not too wide, the bins count the bits that are filled. -/
theorem run_filled (hwidth : r.width < 2 ^ 32) (stat : LoopStatus) (datas : List FrontEndData) :
    ∃ h, r.run stat datas = some h ∧
      r.Filled h ((datas.flatMap FrontEndData.events).flatMap r.filled) := by
  rw [run_eq]
  have hrange : ∀ k ∈ (datas.flatMap FrontEndData.events).flatMap r.filled,
      r.offset + r.width < 2 ^ 64 ∧ r.offset ≤ k ∧ k < r.offset + r.width := by
    intro k hk
    rcases List.mem_flatMap.mp hk with ⟨curEvent, _, hfilled⟩
    have hin := (r.inWindow_iff hwidth curEvent k).mp (r.mem_filled.mp hfilled).1
    rcases hin with ⟨hlo, hhi, _, hskip⟩
    rw [Skipped, not_or] at hskip
    exact ⟨by omega, hlo, hhi⟩
  rcases (filled_create hwidth stat).foldlM hwidth hrange with ⟨h, hrun, hf⟩
  exact ⟨h, hrun, hf⟩

theorem length_run {stat : LoopStatus} {datas : List FrontEndData} {h : Histo1d ℝ}
    (hrun : r.run stat datas = some h) : h.data.length = r.width % 2 ^ 32 := by
  rw [run_eq] at hrun
  have hlength : ∀ (ks : List Nat) (s t : Histo1d ℝ), ks.foldlM fillBit s = some t →
      t.data.length = s.data.length := by
    intro ks
    induction ks with
    | nil =>
        intro s t hst
        cases hst
        rfl
    | cons k ks ih =>
        intro s t hst
        rw [List.foldlM_cons] at hst
        rcases Option.bind_eq_some_iff.mp hst with ⟨u, hfill, hrest⟩
        rw [ih u t hrest, (Histo1d.axis_fill hfill).2.1]
  rw [hlength _ _ _ hrun]
  exact List.length_replicate

theorem countP_eq_countP_iff {α : Type} {p q : α → Bool} {l : List α}
    (hle : ∀ a, p a = true → q a = true) :
    l.countP p = l.countP q ↔ ∀ a ∈ l, q a = true → p a = true := by
  induction l with
  | nil => simp
  | cons a l ih =>
      have hmono : l.countP p ≤ l.countP q := List.countP_mono_left fun x _ => hle x
      rw [List.countP_cons, List.countP_cons, List.forall_mem_cons, ← ih]
      by_cases hp : p a = true
      · simp [hp, hle a hp]
      · by_cases hq : q a = true
        · simp only [hp, hq, if_true, if_false, Bool.false_eq_true, imp_false, not_true_eq_false,
            false_and, iff_false]
          omega
        · simp [hp, hq]

variable {r} {stat : LoopStatus} {datas : List FrontEndData}

theorem occurrences_eq_iff (events : List FrontEndEvent) (k : Nat) :
    (events.flatMap r.filled).count k = occurrences events k ↔
      ∀ curEvent ∈ events, (bits curEvent)[k]? = some true → r.InWindow curEvent.hits.length k := by
  have hpart : ∀ curEvent, decide (k ∈ r.filled curEvent) = true →
      ((bits curEvent)[k]? == some true) = true := by
    intro curEvent hk
    rw [(r.mem_filled.mp (of_decide_eq_true hk)).2]
    rfl
  rw [count_filled, occurrences, countP_eq_countP_iff hpart]
  simp only [decide_eq_true_eq, mem_filled, beq_iff_eq]
  exact ⟨fun h curEvent hmem hbit => (h curEvent hmem hbit).1,
    fun h curEvent hmem hbit => ⟨h curEvent hmem hbit, hbit⟩⟩

theorem counts_of_not_skipped (hwidth : r.width < 2 ^ 32)
    (hnone : ∀ curEvent ∈ datas.flatMap FrontEndData.events, ∀ k, r.offset ≤ k →
      k < r.offset + r.width → (bits curEvent)[k]? = some true → ¬r.Skipped curEvent k) :
    ∃ h, r.run stat datas = some h ∧ r.Counts (datas.flatMap FrontEndData.events) h := by
  rcases r.run_filled hwidth stat datas with ⟨h, hrun, hf⟩
  refine ⟨h, hrun, ?_, hf.underflow, hf.overflow⟩
  rw [hf.data]
  apply List.map_congr_left
  intro i hi
  rw [List.mem_range] at hi
  congr 1
  rw [occurrences_eq_iff]
  intro curEvent hmem hbit
  have hword : (r.offset + i) / 32 < curEvent.hits.length := by
    by_contra hge
    rw [getElem?_bits, List.getElem?_eq_none (Nat.le_of_not_lt hge)] at hbit
    cases hbit
  rw [r.inWindow_iff hwidth]
  exact ⟨by omega, by omega, hword, hnone curEvent hmem _ (by omega) (by omega) hbit⟩

theorem width_lt_of_counts {events : List FrontEndEvent} {h : Histo1d ℝ}
    (hrun : r.run stat datas = some h) (hcounts : r.Counts events h) : r.width < 2 ^ 32 := by
  have hlength := r.length_run hrun
  rw [hcounts.1, List.length_map, List.length_range] at hlength
  omega

theorem not_skipped_of_counts {h : Histo1d ℝ} (hrun : r.run stat datas = some h)
    (hcounts : r.Counts (datas.flatMap FrontEndData.events) h) {curEvent : FrontEndEvent}
    (hmem : curEvent ∈ datas.flatMap FrontEndData.events) {k : Nat} (hlo : r.offset ≤ k)
    (hhi : k < r.offset + r.width) (hbit : (bits curEvent)[k]? = some true) :
    ¬r.Skipped curEvent k := by
  have hwidth := width_lt_of_counts hrun hcounts
  rcases r.run_filled hwidth stat datas with ⟨h', hrun', hf⟩
  cases hrun.symm.trans hrun'
  have hdata := hf.data.symm.trans hcounts.1
  have hbin := List.map_inj_left.mp hdata (k - r.offset) (List.mem_range.mpr (by omega))
  rw [Nat.cast_inj, Nat.add_sub_cancel' hlo, occurrences_eq_iff] at hbin
  exact ((r.inWindow_iff hwidth curEvent k).mp (hbin curEvent hmem hbit)).2.2.2

/-- The bins count the bits of the range exactly if no event has one that is skipped. -/
theorem counts_iff (r : RawDataHistogram) (stat : LoopStatus) (datas : List FrontEndData) :
    (∃ h, r.run stat datas = some h ∧ r.Counts (datas.flatMap FrontEndData.events) h) ↔
      r.width < 2 ^ 32 ∧ ∀ curEvent ∈ datas.flatMap FrontEndData.events, ∀ k,
        r.offset ≤ k → k < r.offset + r.width → (bits curEvent)[k]? = some true →
        ¬r.Skipped curEvent k := by
  constructor
  · rintro ⟨h, hrun, hcounts⟩
    exact ⟨width_lt_of_counts hrun hcounts,
      fun _ hmem _ hlo hhi hbit => not_skipped_of_counts hrun hcounts hmem hlo hhi hbit⟩
  · rintro ⟨hwidth, hnone⟩
    exact counts_of_not_skipped hwidth hnone

/-- Bits 4 to 11 of one word of ones are looked for, and none is found. -/
theorem counts_nothing :
    let r : RawDataHistogram := { width := 8, offset := 4 }
    let event := (FrontEndEvent.new 0 0 0).addHit ⟨0xffff, 0xffff, 0⟩
    occurrences [event] 4 = 1 ∧
      ¬∃ h, r.run .iterationEnd [⟨.iterationEnd, [event]⟩] = some h ∧ r.Counts [event] h := by
  constructor
  · decide +kernel
  · rintro ⟨h, hrun, hcounts⟩
    apply not_skipped_of_counts hrun hcounts List.mem_cons_self (k := 4) (by decide) (by decide)
    · decide +kernel
    · exact Or.inr (by decide)

end RawDataHistogram

end Yarr.Histo
