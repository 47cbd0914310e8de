import Mathlib.Algebra.Ring.Nat
import Mathlib.Data.List.Induction
import Yarr.Bdaq.BdaqRxCore
import Yarr.Core.Attempts

/-!
# What is delivered for a channel

The payloads of the data words of a channel are delivered in pairs and its frames
as records. What one call makes of a buffer is compared with what is due, and the
account is kept from call to call.
-/

namespace Yarr.Bdaq

/-! ## What is due -/

/-- The records of the complete frames among user-K words. -/
def dueRecords (chipType : ChipType) : List UInt32 → List Item
  | w₁ :: w₂ :: w₃ :: w₄ :: rest =>
      (frameRegData chipType w₁ w₂ w₃ w₄).map RegData.item ++ dueRecords chipType rest
  | _ => []

/-- The words of a frame that is not complete. -/
def incomplete : List UInt32 → List UInt32
  | _ :: _ :: _ :: _ :: rest => incomplete rest
  | words => words

/-- The two payloads of a word that was delivered. -/
def halves (dataWord : UInt32) : List UInt32 := [dataWord >>> 16, payload dataWord]

def Item.halves : Item → List UInt32
  | .data dataWord => Bdaq.halves dataWord
  | _ => []

def Item.isRecord : Item → Bool
  | .record _ _ => true
  | _ => false

/-- The payloads of the data words. -/
def payloads (words : List UInt32) : List UInt32 :=
  (words.filter fun word => !userK word).map payload

/-- The payloads that may wait for the next call. -/
def maxRest : ChipType → Nat
  | .RD53A => 1
  | .ItkPixV1 => 3

/-- Words that came in are delivered or kept. -/
structure Accounted (chipType : ChipType) (words : List UInt32) (output : List Item)
    (kept : List UInt32) : Prop where
  payloads : output.flatMap Item.halves ++ payloads kept = payloads words
  rest : (Bdaq.payloads kept).length ≤ maxRest chipType
  records : output.filter Item.isRecord = dueRecords chipType (words.filter userK)
  frame : kept.filter userK = incomplete (words.filter userK)

theorem length_lt_four {words : List UInt32}
    (h : ∀ w₁ w₂ w₃ w₄ rest, words = w₁ :: w₂ :: w₃ :: w₄ :: rest → False) : words.length < 4 := by
  match words with
  | [] => decide
  | [_] => simp
  | [_, _] => simp
  | [_, _, _] => simp
  | w₁ :: w₂ :: w₃ :: w₄ :: rest => exact (h w₁ w₂ w₃ w₄ rest rfl).elim

theorem incomplete_of_short {words : List UInt32} (h : words.length < 4) :
    incomplete words = words := by
  match words with
  | [] => rfl
  | [_] => rfl
  | [_, _] => rfl
  | [_, _, _] => rfl
  | _ :: _ :: _ :: _ :: rest =>
      simp only [List.length_cons] at h
      omega

theorem dueRecords_of_short (chipType : ChipType) {words : List UInt32} (h : words.length < 4) :
    dueRecords chipType words = [] := by
  match words with
  | [] => rfl
  | [_] => rfl
  | [_, _] => rfl
  | [_, _, _] => rfl
  | _ :: _ :: _ :: _ :: rest =>
      simp only [List.length_cons] at h
      omega

theorem length_incomplete (words : List UInt32) : (incomplete words).length = words.length % 4 := by
  induction words using incomplete.induct with
  | case1 w₁ w₂ w₃ w₄ rest ih =>
      simp only [incomplete, ih, List.length_cons]
      omega
  | case2 words hshort =>
      have hlen := length_lt_four hshort
      rw [incomplete_of_short hlen, Nat.mod_eq_of_lt hlen]

theorem incomplete_append (words more : List UInt32) :
    incomplete (words ++ more) = incomplete (incomplete words ++ more) := by
  induction words using incomplete.induct with
  | case1 w₁ w₂ w₃ w₄ rest ih => simpa [incomplete] using ih
  | case2 words hshort => rw [incomplete_of_short (length_lt_four hshort)]

theorem dueRecords_append (chipType : ChipType) (words more : List UInt32) :
    dueRecords chipType (words ++ more) =
      dueRecords chipType words ++ dueRecords chipType (incomplete words ++ more) := by
  induction words using incomplete.induct with
  | case1 w₁ w₂ w₃ w₄ rest ih => simp [dueRecords, incomplete, ih]
  | case2 words hshort =>
      have hlen := length_lt_four hshort
      rw [incomplete_of_short hlen, dueRecords_of_short chipType hlen, List.nil_append]

theorem payloads_append (words more : List UInt32) :
    payloads (words ++ more) = payloads words ++ payloads more := by
  simp [payloads]

variable {chipType : ChipType} {words more kept kept' : List UInt32} {output output' : List Item}

theorem Accounted.trans (h : Accounted chipType words output kept)
    (hcall : Accounted chipType (kept ++ more) output' kept') :
    Accounted chipType (words ++ more) (output ++ output') kept' := by
  constructor
  · rw [List.flatMap_append, List.append_assoc, hcall.payloads, payloads_append,
      ← List.append_assoc, h.payloads, payloads_append]
  · exact hcall.rest
  · rw [List.filter_append, h.records, hcall.records, List.filter_append, List.filter_append,
      dueRecords_append chipType (words.filter userK), h.frame]
  · rw [hcall.frame, List.filter_append, List.filter_append, h.frame, ← incomplete_append]

theorem Accounted.call (h : Accounted chipType words output kept)
    (hboth : Accounted chipType (words ++ more) (output ++ output') kept') :
    Accounted chipType (kept ++ more) output' kept' := by
  constructor
  · have hpayloads := hboth.payloads
    rw [List.flatMap_append, List.append_assoc, payloads_append, ← h.payloads,
      List.append_assoc] at hpayloads
    rw [payloads_append]
    exact List.append_cancel_left hpayloads
  · exact hboth.rest
  · have hrecords := hboth.records
    rw [List.filter_append, List.filter_append, h.records, dueRecords_append, ← h.frame]
      at hrecords
    rw [List.filter_append]
    exact List.append_cancel_left hrecords
  · rw [hboth.frame, List.filter_append, List.filter_append, h.frame, ← incomplete_append]

/-! ## What a call makes of a buffer -/

/-- The buffers of which a call makes what is due. -/
def Clean (chipType : ChipType) (buffer : List UInt32) : Prop :=
  match chipType with
  | .RD53A =>
      (∀ word ∈ buffer.take (2 * (buffer.length / 2)), userK word = false) ∨
        (4 ≤ buffer.length ∧ (∀ word ∈ buffer.take 4, userK word = true) ∧
          (((dueRecords .RD53A (buffer.take 4)).length = 1 ∧
              (∀ word ∈ buffer.drop 4, userK word = true) ∧ 4 ∣ buffer.length ∧
              dueRecords .RD53A (buffer.drop 4) = []) ∨
            (dueRecords .RD53A (buffer.take 4) = [] ∧ (payloads (buffer.drop 4)).length ≤ 1 ∧
              ((buffer.drop 4).filter userK).length < 4)))
  | .ItkPixV1 =>
      (∀ word ∈ buffer.take (4 * (buffer.length / 4)), userK word = false) ∨
        ((∀ word ∈ buffer, userK word = true) ∧ 4 ∣ buffer.length ∧
          (dueRecords .ItkPixV1 buffer).length ≤ 1)

theorem toNat_payload (word : UInt32) : (payload word).toNat = word.toNat % 2 ^ 16 := by
  unfold payload
  rw [UInt32.toNat_and]
  exact Nat.and_two_pow_sub_one_eq_mod word.toNat 16

theorem payload_pair (hi lo : UInt32) :
    halves (payload hi <<< 16 ||| payload lo) = [payload hi, payload lo] := by
  have hlow : (payload lo).toNat < 2 ^ 16 := by
    rw [toNat_payload]
    exact Nat.mod_lt _ (by decide)
  have hhigh : (payload hi).toNat < 2 ^ 16 := by
    rw [toNat_payload]
    exact Nat.mod_lt _ (by decide)
  have hpair : (payload hi <<< 16 ||| payload lo).toNat =
      (payload hi).toNat * 2 ^ 16 + (payload lo).toNat := by
    rw [UInt32.toNat_or, UInt32.toNat_shiftLeft, show (16 : UInt32).toNat % 32 = 16 from rfl,
      Nat.shiftLeft_eq, Nat.mod_eq_of_lt (by omega), ← Nat.shiftLeft_eq,
      ← Nat.shiftLeft_add_eq_or_of_lt hlow, Nat.shiftLeft_eq]
  unfold halves
  congr 1
  · apply UInt32.toNat_inj.mp
    rw [UInt32.toNat_shiftRight, hpair, show (16 : UInt32).toNat % 32 = 16 from rfl,
      Nat.shiftRight_eq_div_pow]
    omega
  · congr 1
    apply UInt32.toNat_inj.mp
    rw [toNat_payload, hpair]
    omega

/-- The first words were delivered as data, the others kept. -/
structure Builds (buffer : List UInt32) (n : Nat) (output : List Item) (s : Sorted) : Prop where
  kept : s.buffer = buffer.drop n
  halves : s.output.flatMap Item.halves =
    output.flatMap Item.halves ++ (buffer.take n).map payload
  records : s.output.filter Item.isRecord = output.filter Item.isRecord

theorem buildPairs_builds (buffer : List UInt32) (output : List Item) :
    Builds buffer (2 * (buffer.length / 2)) output (buildPairs buffer output) := by
  induction buffer, output using buildPairs.induct with
  | case1 hi lo rest output ih =>
      have hlen : 2 * ((hi :: lo :: rest).length / 2) = 2 * (rest.length / 2) + 2 := by
        simp only [List.length_cons]
        omega
      rw [hlen, buildPairs]
      constructor
      · simpa using ih.kept
      · rw [ih.halves]
        simp [Item.halves, payload_pair]
      · rw [ih.records]
        simp [Item.isRecord]
  | case2 buffer output hshort =>
      match buffer with
      | [] => constructor <;> simp [buildPairs]
      | [word] => constructor <;> simp [buildPairs]
      | hi :: lo :: rest => exact (hshort hi lo rest rfl).elim

theorem buildQuads_builds (buffer : List UInt32) (output : List Item) :
    Builds buffer (4 * (buffer.length / 4)) output (buildQuads buffer output) := by
  induction buffer, output using buildQuads.induct with
  | case1 hiOne loOne hiTwo loTwo rest output ih =>
      have hlen : 4 * ((hiOne :: loOne :: hiTwo :: loTwo :: rest).length / 4) =
          4 * (rest.length / 4) + 4 := by
        simp only [List.length_cons]
        omega
      rw [hlen, buildQuads]
      constructor
      · simpa using ih.kept
      · rw [ih.halves]
        simp [Item.halves, payload_pair]
      · rw [ih.records]
        simp [Item.isRecord]
  | case2 buffer output hshort =>
      have hlen := length_lt_four hshort
      have hzero : 4 * (buffer.length / 4) = 0 := by omega
      rw [hzero]
      match buffer with
      | [] => constructor <;> simp [buildQuads]
      | [_] => constructor <;> simp [buildQuads]
      | [_, _] => constructor <;> simp [buildQuads]
      | [_, _, _] => constructor <;> simp [buildQuads]
      | w₁ :: w₂ :: w₃ :: w₄ :: rest => exact (hshort w₁ w₂ w₃ w₄ rest rfl).elim

theorem payloads_eq_map_iff (words : List UInt32) :
    words.map payload = payloads words ↔ ∀ word ∈ words, userK word = false := by
  unfold payloads
  constructor
  · intro h
    have hlen := congrArg List.length h
    rw [List.length_map, List.length_map] at hlen
    have hall := List.filter_eq_self.mp
      (List.Sublist.eq_of_length List.filter_sublist hlen.symm)
    intro word hword
    simpa using hall word hword
  · intro h
    rw [List.filter_eq_self.mpr]
    intro word hword
    simpa using h word hword

theorem payloads_eq_nil_iff (words : List UInt32) :
    payloads words = [] ↔ ∀ word ∈ words, userK word = true := by
  unfold payloads
  rw [List.map_eq_nil_iff, List.filter_eq_nil_iff]
  simp

theorem filter_userK_of_data {words : List UInt32} (h : ∀ word ∈ words, userK word = false) :
    words.filter userK = [] := by
  rw [List.filter_eq_nil_iff]
  intro word hword
  simp [h word hword]

/-- A buffer built into data is accounted for if these words are all data. -/
theorem Builds.records_iff {buffer : List UInt32} {n : Nat} {s : Sorted}
    (h : Builds buffer n [] s) (hrest : (buffer.drop n).length ≤ maxRest chipType) :
    Accounted chipType buffer s.output s.buffer ↔
      ∀ word ∈ buffer.take n, userK word = false := by
  have hsplit : payloads buffer = payloads (buffer.take n) ++ payloads (buffer.drop n) := by
    rw [← payloads_append, List.take_append_drop]
  have hhalves : s.output.flatMap Item.halves = (buffer.take n).map payload := by
    simpa using h.halves
  have hrecords : s.output.filter Item.isRecord = [] := by simpa using h.records
  constructor
  · intro ha
    have hpayloads := ha.payloads
    rw [hhalves, h.kept, hsplit] at hpayloads
    exact (payloads_eq_map_iff _).mp (List.append_cancel_right hpayloads)
  · intro hdata
    have hmax : maxRest chipType < 4 := by cases chipType <;> decide
    have hframe : buffer.filter userK = (buffer.drop n).filter userK := by
      conv_lhs => rw [← List.take_append_drop n buffer]
      rw [List.filter_append, filter_userK_of_data hdata, List.nil_append]
    have hshort : ((buffer.drop n).filter userK).length < 4 :=
      Nat.lt_of_le_of_lt (Nat.le_trans (List.length_filter_le _ _) hrest) hmax
    constructor
    · rw [hhalves, h.kept, hsplit, (payloads_eq_map_iff _).mpr hdata]
    · rw [h.kept]
      unfold payloads
      rw [List.length_map]
      exact Nat.le_trans (List.length_filter_le _ _) hrest
    · rw [hrecords, hframe, dueRecords_of_short chipType hshort]
    · rw [h.kept, hframe, incomplete_of_short hshort]

theorem pushRegData_nil (s : Sorted) : pushRegData [] s = s := rfl

theorem pushRegData_concat (regData : List RegData) (reg : RegData) (s : Sorted) :
    pushRegData (regData ++ [reg]) s = ⟨[], [reg.item]⟩ := by
  simp [pushRegData]

theorem pushRegData_cases (regData : List RegData) (s : Sorted) :
    (regData = [] ∧ pushRegData regData s = s) ∨
      ∃ init reg, regData = init ++ [reg] ∧ pushRegData regData s = ⟨[], [reg.item]⟩ := by
  rcases List.eq_nil_or_concat regData with hnil | ⟨init, reg, hconcat⟩
  · exact Or.inl ⟨hnil, by rw [hnil, pushRegData_nil]⟩
  · rw [List.concat_eq_append] at hconcat
    exact Or.inr ⟨init, reg, hconcat, by rw [hconcat, pushRegData_concat]⟩

theorem sortRD53A_cases (buffer : List UInt32) :
    (Builds buffer (2 * (buffer.length / 2)) [] (sortRD53A buffer []) ∧
        ∀ w₁ w₂ w₃ w₄ rest, buffer = w₁ :: w₂ :: w₃ :: w₄ :: rest → userK w₁ = false) ∨
      ∃ w₁ w₂ w₃ w₄ rest, buffer = w₁ :: w₂ :: w₃ :: w₄ :: rest ∧ userK w₁ = true ∧
        sortRD53A buffer [] = pushRegData (frameRegData .RD53A w₁ w₂ w₃ w₄) ⟨rest, []⟩ := by
  match buffer with
  | [] => exact Or.inl ⟨⟨rfl, rfl, rfl⟩, fun _ _ _ _ _ h => by simp at h⟩
  | [word] =>
      refine Or.inl ⟨?_, fun _ _ _ _ _ h => by simp at h⟩
      constructor <;> simp [sortRD53A, Item.halves, Item.isRecord]
  | [hi, lo] => exact Or.inl ⟨buildPairs_builds [hi, lo] [], fun _ _ _ _ _ h => by simp at h⟩
  | [hi, lo, word] =>
      exact Or.inl ⟨buildPairs_builds [hi, lo, word] [], fun _ _ _ _ _ h => by simp at h⟩
  | w₁ :: w₂ :: w₃ :: w₄ :: rest =>
      by_cases huserk : userK w₁ = true
      · refine Or.inr ⟨w₁, w₂, w₃, w₄, rest, rfl, huserk, ?_⟩
        rw [sortRD53A, if_pos huserk]
      · rw [sortRD53A, if_neg huserk]
        refine Or.inl ⟨buildPairs_builds _ [], ?_⟩
        intro _ _ _ _ _ h
        cases h
        simpa using huserk

theorem sortItkPixV1_cases (buffer : List UInt32) :
    (Builds buffer (4 * (buffer.length / 4)) [] (sortItkPixV1 buffer []) ∧
        ∀ w₁ w₂ w₃ w₄ rest, buffer = w₁ :: w₂ :: w₃ :: w₄ :: rest → userK w₁ = false) ∨
      ∃ w₁ w₂ w₃ w₄ rest, buffer = w₁ :: w₂ :: w₃ :: w₄ :: rest ∧ userK w₁ = true ∧
        sortItkPixV1 buffer [] = userkFrames buffer [] := by
  match buffer with
  | [] => exact Or.inl ⟨⟨rfl, rfl, rfl⟩, fun _ _ _ _ _ h => by simp at h⟩
  | [_] =>
      refine Or.inl ⟨?_, fun _ _ _ _ _ h => by simp at h⟩
      constructor <;> simp [sortItkPixV1]
  | [_, _] =>
      refine Or.inl ⟨?_, fun _ _ _ _ _ h => by simp at h⟩
      constructor <;> simp [sortItkPixV1]
  | [_, _, _] =>
      refine Or.inl ⟨?_, fun _ _ _ _ _ h => by simp at h⟩
      constructor <;> simp [sortItkPixV1]
  | w₁ :: w₂ :: w₃ :: w₄ :: rest =>
      by_cases huserk : userK w₁ = true
      · refine Or.inr ⟨w₁, w₂, w₃, w₄, rest, rfl, huserk, ?_⟩
        rw [sortItkPixV1, if_pos huserk]
      · rw [sortItkPixV1, if_neg huserk]
        refine Or.inl ⟨buildQuads_builds _ [], ?_⟩
        intro _ _ _ _ _ h
        cases h
        simpa using huserk

theorem item_isRecord (reg : RegData) : reg.item.isRecord = true := rfl

theorem halves_of_records {items : List Item} (h : ∀ item ∈ items, item.isRecord = true) :
    items.flatMap Item.halves = [] := by
  rw [List.flatMap_eq_nil_iff]
  intro item hitem
  have hrecord := h item hitem
  cases item with
  | filler => rfl
  | record address data => rfl
  | data word => cases hrecord

/-- Frames that are read one after the other: the first with registers is the last. -/
theorem userkFrames_spec (words : List UInt32) :
    (userkFrames words []).buffer = [] ∧ (userkFrames words []).output.length ≤ 1 ∧
      (∀ item ∈ (userkFrames words []).output, item.isRecord = true) ∧
      ((dueRecords .ItkPixV1 words).length ≤ 1 →
        (userkFrames words []).output = dueRecords .ItkPixV1 words) := by
  induction words using incomplete.induct with
  | case1 w₁ w₂ w₃ w₄ rest ih =>
      rw [userkFrames, dueRecords]
      cases hframe : frameRegData .ItkPixV1 w₁ w₂ w₃ w₄ with
      | nil => simpa using ih
      | cons reg regData =>
          rcases pushRegData_cases (reg :: regData) ⟨rest, []⟩ with
            ⟨hnil, _⟩ | ⟨init, last, hlast, hpush⟩
          · cases hnil
          · dsimp only
            rw [hpush]
            refine ⟨rfl, by simp, ?_, ?_⟩
            · intro item hitem
              rw [List.mem_singleton.mp hitem]
              exact item_isRecord last
            · intro hlen
              rw [hlast, List.length_append, List.length_map, List.length_append] at hlen
              simp only [List.length_singleton] at hlen
              have hinit : init = [] := List.length_eq_zero_iff.mp (by omega)
              have hrest : dueRecords .ItkPixV1 rest = [] := List.length_eq_zero_iff.mp (by omega)
              rw [hlast, hinit, hrest]
              rfl
  | case2 words hshort =>
      have hlen := length_lt_four hshort
      rw [dueRecords_of_short .ItkPixV1 hlen]
      match words with
      | [] => simp [userkFrames]
      | [_] => simp [userkFrames]
      | [_, _] => simp [userkFrames]
      | [_, _, _] => simp [userkFrames]
      | w₁ :: w₂ :: w₃ :: w₄ :: rest => exact (hshort w₁ w₂ w₃ w₄ rest rfl).elim

/-! ## The clean buffers -/

theorem incomplete_eq_nil_iff (words : List UInt32) : incomplete words = [] ↔ 4 ∣ words.length := by
  rw [← List.length_eq_zero_iff, length_incomplete, Nat.dvd_iff_mod_eq_zero]

section Frame

variable {w₁ w₂ w₃ w₄ : UInt32} {rest : List UInt32}

/-- A frame without registers is dropped, what is behind it stays. -/
theorem accounted_empty_frame_iff (hnone : frameRegData .RD53A w₁ w₂ w₃ w₄ = []) :
    Accounted .RD53A (w₁ :: w₂ :: w₃ :: w₄ :: rest) [] rest ↔
      (∀ word ∈ [w₁, w₂, w₃, w₄], userK word = true) ∧ (payloads rest).length ≤ 1 ∧
        (rest.filter userK).length < 4 := by
  have hsplit := payloads_append [w₁, w₂, w₃, w₄] rest
  constructor
  · intro h
    have hpayloads := h.payloads
    rw [show w₁ :: w₂ :: w₃ :: w₄ :: rest = [w₁, w₂, w₃, w₄] ++ rest from rfl, hsplit] at hpayloads
    have hfour := (payloads_eq_nil_iff _).mp (List.append_left_eq_self.mp hpayloads.symm)
    refine ⟨hfour, h.rest, ?_⟩
    have hframe := congrArg List.length h.frame
    rw [length_incomplete] at hframe
    omega
  · rintro ⟨hfour, hrest, hshort⟩
    have hfilter : (w₁ :: w₂ :: w₃ :: w₄ :: rest).filter userK =
        w₁ :: w₂ :: w₃ :: w₄ :: rest.filter userK := by
      simp only [List.mem_cons, List.not_mem_nil, or_false, forall_eq_or_imp, forall_eq] at hfour
      simp [hfour]
    constructor
    · rw [show w₁ :: w₂ :: w₃ :: w₄ :: rest = [w₁, w₂, w₃, w₄] ++ rest from rfl, hsplit,
        (payloads_eq_nil_iff _).mpr hfour]
      rfl
    · exact hrest
    · rw [hfilter, dueRecords, hnone, dueRecords_of_short .RD53A hshort]
      rfl
    · rw [hfilter, incomplete, incomplete_of_short hshort]

theorem accounted_cleared_iff {buffer : List UInt32}
    (hrecords : ∀ item ∈ output, item.isRecord = true) :
    Accounted chipType buffer output [] ↔
      (∀ word ∈ buffer, userK word = true) ∧ 4 ∣ buffer.length ∧
        output = dueRecords chipType buffer := by
  have hhalves := halves_of_records hrecords
  have hself := List.filter_eq_self.mpr hrecords
  constructor
  · intro h
    have hpayloads := h.payloads
    rw [hhalves] at hpayloads
    have hall := (payloads_eq_nil_iff buffer).mp hpayloads.symm
    have hbuffer := List.filter_eq_self.mpr hall
    have hdue := h.records
    have hframe := h.frame
    rw [hbuffer] at hdue hframe
    exact ⟨hall, (incomplete_eq_nil_iff buffer).mp hframe.symm, hself.symm.trans hdue⟩
  · rintro ⟨hall, hdvd, hdue⟩
    have hbuffer := List.filter_eq_self.mpr hall
    constructor
    · rw [hhalves, (payloads_eq_nil_iff buffer).mpr hall]
      rfl
    · exact Nat.zero_le _
    · rw [hself, hbuffer, hdue]
    · rw [hbuffer, (incomplete_eq_nil_iff buffer).mpr hdvd]
      rfl

end Frame

theorem first_of_all {buffer : List UInt32} (hlen : 4 ≤ buffer.length)
    (hall : ∀ word ∈ buffer.take 4, userK word = true) :
    ∃ w₁ w₂ w₃ w₄ rest, buffer = w₁ :: w₂ :: w₃ :: w₄ :: rest ∧ userK w₁ = true := by
  match buffer with
  | [] => simp at hlen
  | [_] => simp at hlen
  | [_, _] => simp at hlen
  | [_, _, _] => simp at hlen
  | w₁ :: w₂ :: w₃ :: w₄ :: rest =>
      exact ⟨w₁, w₂, w₃, w₄, rest, rfl, hall w₁ (by simp)⟩

theorem not_data_of_first {w₁ : UInt32} {rest : List UInt32} {n : Nat} (hn : 0 < n)
    (huserk : userK w₁ = true) : ¬∀ word ∈ (w₁ :: rest).take n, userK word = false := by
  intro hdata
  have hfirst : w₁ ∈ (w₁ :: rest).take n := by
    rw [show n = n - 1 + 1 by omega, List.take_succ_cons]
    exact List.mem_cons_self
  rw [hdata w₁ hfirst] at huserk
  cases huserk

theorem single_record_iff (init : List RegData) (last : RegData) (due : List Item) :
    [last.item] = (init ++ [last]).map RegData.item ++ due ↔ init = [] ∧ due = [] := by
  constructor
  · intro h
    have hlen := congrArg List.length h
    simp only [List.length_append, List.length_map, List.length_singleton] at hlen
    exact ⟨List.length_eq_zero_iff.mp (by omega), List.length_eq_zero_iff.mp (by omega)⟩
  · rintro ⟨rfl, rfl⟩
    rfl

theorem sortRD53A_clean (buffer : List UInt32) :
    Accounted .RD53A buffer (sortRD53A buffer []).output (sortRD53A buffer []).buffer ↔
      Clean .RD53A buffer := by
  unfold Clean
  rcases sortRD53A_cases buffer with
    ⟨hbuilds, hfirst⟩ | ⟨w₁, w₂, w₃, w₄, rest, rfl, huserk, hsort⟩
  · have hrest : (buffer.drop (2 * (buffer.length / 2))).length ≤ maxRest .RD53A := by
      rw [List.length_drop]
      show _ ≤ 1
      omega
    rw [hbuilds.records_iff hrest]
    constructor
    · exact Or.inl
    · rintro (hdata | ⟨hlen, hall, _⟩)
      · exact hdata
      · rcases first_of_all hlen hall with ⟨w₁, w₂, w₃, w₄, rest, hbuffer, huserk⟩
        rw [hfirst w₁ w₂ w₃ w₄ rest hbuffer] at huserk
        cases huserk
  · have hdue : dueRecords .RD53A [w₁, w₂, w₃, w₄] =
        (frameRegData .RD53A w₁ w₂ w₃ w₄).map RegData.item := by
      simp [dueRecords]
    have hlen : 4 ≤ (w₁ :: w₂ :: w₃ :: w₄ :: rest).length := by simp
    have hpos : 0 < 2 * ((w₁ :: w₂ :: w₃ :: w₄ :: rest).length / 2) := by omega
    have hnot := @not_data_of_first w₁ (w₂ :: w₃ :: w₄ :: rest) _ hpos huserk
    rw [hsort]
    simp only [hnot, false_or, hlen, true_and]
    rw [show (w₁ :: w₂ :: w₃ :: w₄ :: rest).take 4 = [w₁, w₂, w₃, w₄] by simp,
      show (w₁ :: w₂ :: w₃ :: w₄ :: rest).drop 4 = rest by simp, hdue]
    rcases pushRegData_cases (frameRegData .RD53A w₁ w₂ w₃ w₄) ⟨rest, []⟩ with
      ⟨hnil, hpush⟩ | ⟨init, last, hlast, hpush⟩
    · rw [hpush]
      dsimp only
      rw [accounted_empty_frame_iff hnil, hnil]
      simp
    · have hrecord : ∀ item ∈ [last.item], item.isRecord = true := by
        intro item hitem
        rw [List.mem_singleton.mp hitem]
        exact item_isRecord last
      rw [hpush]
      dsimp only
      rw [accounted_cleared_iff hrecord, dueRecords, hlast, single_record_iff]
      have hall : (∀ word ∈ w₁ :: w₂ :: w₃ :: w₄ :: rest, userK word = true) ↔
          (∀ word ∈ [w₁, w₂, w₃, w₄], userK word = true) ∧ ∀ word ∈ rest, userK word = true :=
        @List.forall_mem_append _ _ [w₁, w₂, w₃, w₄] rest
      have hone : ((init ++ [last]).map RegData.item).length = 1 ↔ init = [] := by simp
      have hsome : (init ++ [last]).map RegData.item ≠ [] := by simp
      rw [hall, hone]
      simp only [hsome, false_and, or_false, and_assoc]
      constructor
      · rintro ⟨hfour, hrest, hdvd, hinit, hnone⟩
        exact ⟨hfour, hinit, hrest, hdvd, hnone⟩
      · rintro ⟨hfour, hinit, hrest, hdvd, hnone⟩
        exact ⟨hfour, hrest, hdvd, hinit, hnone⟩

theorem sortItkPixV1_clean (buffer : List UInt32) :
    Accounted .ItkPixV1 buffer (sortItkPixV1 buffer []).output (sortItkPixV1 buffer []).buffer ↔
      Clean .ItkPixV1 buffer := by
  unfold Clean
  rcases sortItkPixV1_cases buffer with
    ⟨hbuilds, hfirst⟩ | ⟨w₁, w₂, w₃, w₄, rest, rfl, huserk, hsort⟩
  · have hrest : (buffer.drop (4 * (buffer.length / 4))).length ≤ maxRest .ItkPixV1 := by
      rw [List.length_drop]
      show _ ≤ 3
      omega
    rw [hbuilds.records_iff hrest]
    constructor
    · exact Or.inl
    · rintro (hdata | ⟨hall, _, _⟩)
      · exact hdata
      · by_cases hlen : 4 ≤ buffer.length
        · rcases first_of_all hlen fun word hword => hall word (List.mem_of_mem_take hword) with
            ⟨w₁, w₂, w₃, w₄, rest, hbuffer, huserk⟩
          rw [hfirst w₁ w₂ w₃ w₄ rest hbuffer] at huserk
          cases huserk
        · rw [show 4 * (buffer.length / 4) = 0 by omega]
          simp
  · have hpos : 0 < 4 * ((w₁ :: w₂ :: w₃ :: w₄ :: rest).length / 4) := by
      simp only [List.length_cons]
      omega
    have hnot := @not_data_of_first w₁ (w₂ :: w₃ :: w₄ :: rest) _ hpos huserk
    have ⟨hbuffer, hlen, hrecords, hdue⟩ := userkFrames_spec (w₁ :: w₂ :: w₃ :: w₄ :: rest)
    rw [hsort, hbuffer, accounted_cleared_iff hrecords]
    simp only [hnot, false_or]
    constructor
    · rintro ⟨hall, hdvd, heq⟩
      rw [heq] at hlen
      exact ⟨hall, hdvd, hlen⟩
    · rintro ⟨hall, hdvd, hone⟩
      exact ⟨hall, hdvd, hdue hone⟩

theorem sort_clean (chipType : ChipType) (buffer : List UInt32) :
    Accounted chipType buffer (sort chipType buffer []).output (sort chipType buffer []).buffer ↔
      Clean chipType buffer := by
  cases chipType with
  | RD53A => exact sortRD53A_clean buffer
  | ItkPixV1 => exact sortItkPixV1_clean buffer

end Yarr.Bdaq
