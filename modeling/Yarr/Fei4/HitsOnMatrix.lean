import Yarr.Fei4.Fei4DataProcessor

/-!
# Hits of the FE-I4 on the matrix

A data word holds the times over threshold of two pixels, one above the other.
The processor checks the row of the first one only.
-/

namespace Yarr.Fei4

open Batches Yarr.Pixel Yarr.Pixel.Fragments

variable (hitDiscCfg : Fin 3)

/-- The pixel is one of the matrix, and the time over threshold stands in the table. -/
structure OnMatrix (h : FrontEndHit) : Prop where
  col : 1 ≤ h.col ∧ h.col ≤ 80
  row : 1 ≤ h.row ∧ h.row ≤ 336
  tot : ∃ code, h.tot = totCode hitDiscCfg code

/-- A data word of the last row of which the second pixel has a hit. -/
def SpillsOver (value : UInt32) : Prop :=
  isData value = true ∧ isBad value = false ∧ (value &&& 0x01FF00) >>> 8 = 336 ∧
    value &&& 0xF ≠ 0xF

instance (value : UInt32) : Decidable (SpillsOver value) := inferInstanceAs (Decidable (_ ∧ _))

/-! ## The hits of a word -/

theorem code_lt (value : UInt32) :
    ((value &&& 0xF0) >>> 4).toNat < 16 ∧ (value &&& 0xF).toNat < 16 := by
  constructor
  · have hand : (value &&& 0xF0).toNat ≤ 0xF0 := by
      rw [UInt32.toNat_and]
      exact Nat.and_le_right
    have hshift : ((value &&& 0xF0) >>> 4).toNat = (value &&& 0xF0).toNat / 2 ^ 4 := by
      rw [UInt32.toNat_shiftRight, Nat.shiftRight_eq_div_pow]
      rfl
    omega
  · have hand : (value &&& 0xF).toNat ≤ 0xF := by
      rw [UInt32.toNat_and]
      exact Nat.and_le_right
    omega

theorem totCode_pos_iff (code : Fin 16) : 0 < totCode hitDiscCfg code ↔ code ≠ 15 := by
  revert hitDiscCfg code
  decide

theorem totCode_lt (code : Fin 16) : totCode hitDiscCfg code < 2 ^ 16 := by
  revert hitDiscCfg code
  decide

theorem decTot_pos_iff {tot : UInt32} (htot : tot.toNat < 16) :
    0 < decTot hitDiscCfg tot ↔ tot ≠ 0xF := by
  rw [decTot, totCode_pos_iff, not_iff_not]
  constructor
  · intro h
    have hval : tot.toNat % 16 = 15 := congrArg Fin.val h
    apply UInt32.toNat_inj.mp
    show tot.toNat = 15
    omega
  · intro h
    subst h
    rfl

theorem pixel_of_good {value : UInt32} (hdata : isData value = true) (hgood : isBad value = false) :
    (1 ≤ ((value &&& 0xFE0000) >>> 17).toNat ∧ ((value &&& 0xFE0000) >>> 17).toNat ≤ 80) ∧
      1 ≤ ((value &&& 0x01FF00) >>> 8).toNat ∧ ((value &&& 0x01FF00) >>> 8).toNat ≤ 336 := by
  have hnot : ¬((value &&& 0xFE0000) >>> 17 = 0 ∨ (value &&& 0x01FF00) >>> 8 = 0 ∨
      (value &&& 0xFE0000) >>> 17 > 80 ∨ (value &&& 0x01FF00) >>> 8 > 336) := by
    intro hor
    rw [isBad, hdata, decide_eq_false_iff_not] at hgood
    exact hgood ⟨rfl, hor⟩
  simp only [not_or, ← UInt32.toNat_inj, gt_iff_lt, UInt32.lt_iff_toNat_lt] at hnot
  obtain ⟨hcol, hrow, hcol', hrow'⟩ := hnot
  have hcol'' : ((value &&& 0xFE0000) >>> 17).toNat ≠ 0 := hcol
  have hrow'' : ((value &&& 0x01FF00) >>> 8).toNat ≠ 0 := hrow
  have hcolMax : ¬80 < ((value &&& 0xFE0000) >>> 17).toNat := hcol'
  have hrowMax : ¬336 < ((value &&& 0x01FF00) >>> 8).toNat := hrow'
  omega

theorem mem_hitOf {row col dec_tot : Nat} {h : FrontEndHit} :
    h ∈ hitOf row col dec_tot ↔
      0 < dec_tot ∧ h = ⟨col % 2 ^ 16, row % 2 ^ 16, dec_tot % 2 ^ 16⟩ := by
  unfold hitOf
  by_cases hpos : dec_tot > 0
  · rw [if_pos hpos, List.mem_singleton]
    exact ⟨fun hh => ⟨hpos, hh⟩, fun hh => hh.2⟩
  · rw [if_neg hpos]
    exact ⟨fun hh => absurd hh List.not_mem_nil, fun hh => absurd hh.1 hpos⟩

theorem exists_mem_hitOf (row col : Nat) {dec_tot : Nat} (h : 0 < dec_tot) :
    ∃ hit, hit ∈ hitOf row col dec_tot :=
  ⟨_, mem_hitOf.mpr ⟨h, rfl⟩⟩

theorem onMatrix_hitOf {row col : Nat} {tot : UInt32} (hcol : 1 ≤ col ∧ col ≤ 80)
    (hrow : row < 2 ^ 16) {h : FrontEndHit} (hh : h ∈ hitOf row col (decTot hitDiscCfg tot)) :
    OnMatrix hitDiscCfg h ↔ 1 ≤ row ∧ row ≤ 336 := by
  obtain ⟨-, rfl⟩ := mem_hitOf.mp hh
  have hcolMod : col % 2 ^ 16 = col := Nat.mod_eq_of_lt (by omega)
  have hrowMod : row % 2 ^ 16 = row := Nat.mod_eq_of_lt hrow
  constructor
  · intro hon
    have hrow' := hon.row
    dsimp only at hrow'
    rwa [hrowMod] at hrow'
  · intro hrow'
    exact
      { col := by
          dsimp only
          rwa [hcolMod]
        row := by
          dsimp only
          rwa [hrowMod]
        tot := ⟨_, Nat.mod_eq_of_lt (totCode_lt hitDiscCfg _)⟩ }

theorem hitsOf_onMatrix_iff {value : UInt32} (hdata : isData value = true) :
    (∀ h ∈ hitsOf hitDiscCfg value, OnMatrix hitDiscCfg h) ↔ ¬SpillsOver value := by
  by_cases hbad : isBad value = true
  · have hnone : hitsOf hitDiscCfg value = [] := by
      unfold hitsOf
      rw [if_pos hbad]
    have hnot : ¬SpillsOver value := fun hspill => by
      rw [hspill.2.1] at hbad
      cases hbad
    rw [hnone]
    exact ⟨fun _ => hnot, fun _ h hh => absurd hh List.not_mem_nil⟩
  · have hgood : isBad value = false := Bool.eq_false_iff.mpr hbad
    obtain ⟨hcol, hrow⟩ := pixel_of_good hdata hgood
    have hhits : hitsOf hitDiscCfg value =
        hitOf ((value &&& 0x01FF00) >>> 8).toNat ((value &&& 0xFE0000) >>> 17).toNat
            (decTot hitDiscCfg ((value &&& 0xF0) >>> 4)) ++
          hitOf (((value &&& 0x01FF00) >>> 8).toNat + 1) ((value &&& 0xFE0000) >>> 17).toNat
            (decTot hitDiscCfg (value &&& 0xF)) := by
      unfold hitsOf
      rw [if_neg hbad]
    rw [hhits]
    constructor
    · intro hall hspill
      obtain ⟨-, -, hlast, hvisible⟩ := hspill
      have hpos := (decTot_pos_iff hitDiscCfg (code_lt value).2).mpr hvisible
      obtain ⟨hit, hmem⟩ := exists_mem_hitOf (((value &&& 0x01FF00) >>> 8).toNat + 1)
        ((value &&& 0xFE0000) >>> 17).toNat hpos
      have hon := hall hit (List.mem_append_right _ hmem)
      have hrow' := (onMatrix_hitOf hitDiscCfg hcol (by omega) hmem).mp hon
      rw [hlast] at hrow'
      exact absurd hrow'.2 (by decide)
    · intro hnot h hh
      rcases List.mem_append.mp hh with hfirst | hsecond
      · exact (onMatrix_hitOf hitDiscCfg hcol (by omega) hfirst).mpr hrow
      · apply (onMatrix_hitOf hitDiscCfg hcol (by omega) hsecond).mpr
        have hvisible :=
          (decTot_pos_iff hitDiscCfg (code_lt value).2).mp (mem_hitOf.mp hsecond).1
        have hne : (value &&& 0x01FF00) >>> 8 ≠ 336 := fun hlast =>
          hnot ⟨hdata, hgood, hlast, hvisible⟩
        have hneNat : ((value &&& 0x01FF00) >>> 8).toNat ≠ 336 := fun hlast =>
          hne (UInt32.toNat_inj.mp hlast)
        omega

/-! ## The hits of a container -/

theorem itemOf_data {value : UInt32} {hits : List FrontEndHit}
    (h : itemOf hitDiscCfg value = some (.data hits)) :
    isData value = true ∧ hits = hitsOf hitDiscCfg value := by
  unfold itemOf at h
  by_cases htrigger : (value &&& 0x03000000) >>> 24 = 1
  · simp [htrigger] at h
  by_cases hzero : (value &&& 0x03000000) >>> 24 = 0
  · by_cases hheader : (value &&& 0x00FF0000) >>> 16 = 0xe9
    · simp [hzero, hheader] at h
    by_cases hservice : (value &&& 0x00FF0000) >>> 16 = 0xef
    · simp [hzero, hservice] at h
    · simp [hzero, hheader, hservice] at h
      exact ⟨by simp [isData, hzero, hheader, hservice], h.symm⟩
  · simp [htrigger, hzero] at h

theorem itemOf_of_isData {value : UInt32} (h : isData value = true) :
    itemOf hitDiscCfg value = some (.data (hitsOf hitDiscCfg value)) := by
  obtain ⟨hzero, hheader, hservice⟩ := of_decide_eq_true h
  simp [itemOf, hzero, hheader, hservice]

theorem mem_eventMarks {events : List FrontEndEvent} {h : FrontEndHit} :
    Mark.hit h ∈ eventMarks events ↔ ∃ e ∈ events, h ∈ e.hits := by
  unfold eventMarks
  rw [List.mem_flatMap]
  constructor
  · intro ⟨e, he, hmem⟩
    rcases List.mem_cons.mp hmem with heq | hmem
    · cases heq
    · obtain ⟨h', hh', heq⟩ := List.mem_map.mp hmem
      cases heq
      exact ⟨e, he, hh'⟩
  · intro ⟨e, he, hmem⟩
    exact ⟨e, he, List.mem_cons_of_mem _ (List.mem_map.mpr ⟨h, hmem, rfl⟩)⟩

theorem mem_marks {tag : UInt32} {items : List Item} {h : FrontEndHit} :
    Mark.hit h ∈ marks tag items ↔ ∃ hits, .data hits ∈ items ∧ h ∈ hits := by
  induction items generalizing tag with
  | nil => simp [marks]
  | cons i items ih =>
      cases i with
      | trigger t => simp [marks, ih]
      | header l1id bcid feedback => simp [marks, ih]
      | data hits => simp [marks, ih]
      | undefined => simp [marks, ih]

theorem not_mem_orphanMarks (k : Carried) (items : List Item) (h : FrontEndHit) :
    Mark.hit h ∉ orphanMarks orphanTag k items := by
  unfold orphanMarks
  split
  · simp
  · simp

/-- All hits of the events are on the matrix. -/
def AllOnMatrix (out : List FrontEndData) : Prop :=
  ∀ d ∈ out, ∀ e ∈ d.events, ∀ h ∈ e.hits, OnMatrix hitDiscCfg h

/-- A container has hits off the matrix exactly if a word that is read spills over. -/
theorem processContainer_onMatrix_iff {k k' : Kept} {c : WordContainer}
    {out : Out FrontEndData FeedbackProcessingInfo}
    (h : (process_core hitDiscCfg).take k c = some (k', out)) :
    k' = k.next hitDiscCfg c ∧ (AllOnMatrix hitDiscCfg out.main ↔
      ∀ value ∈ buffersRead k.badCnt c.data, ¬SpillsOver value) := by
  rw [process_core_eq] at h
  obtain ⟨s, hs, hout⟩ := Option.map_eq_some_iff.mp h
  obtain ⟨rfl, rfl⟩ := Prod.ext_iff.mp hout.symm
  refine ⟨rfl, ?_⟩
  have hmain : (if (reading hitDiscCfg).forwards c ∨ 0 < s.events then [s.curOut] else []) =
      [s.curOut] := if_pos (Or.inl rfl)
  have hevents : eventMarks s.curOut.events =
      orphanMarks orphanTag k.carried (itemsRead hitDiscCfg k c) ++
        marks k.carried.tag (itemsRead hitDiscCfg k c) := (decode_shows hs).events
  have hmem (hit : FrontEndHit) : (∃ e ∈ s.curOut.events, hit ∈ e.hits) ↔
      ∃ value ∈ buffersRead k.badCnt c.data,
        isData value = true ∧ hit ∈ hitsOf hitDiscCfg value := by
    rw [← mem_eventMarks, hevents, List.mem_append, mem_marks]
    constructor
    · rintro (horphan | ⟨hits, hdata, hhit⟩)
      · exact absurd horphan (not_mem_orphanMarks _ _ _)
      · obtain ⟨value, hvalue, hitem⟩ := List.mem_filterMap.mp hdata
        obtain ⟨hisData, rfl⟩ := itemOf_data hitDiscCfg hitem
        exact ⟨value, hvalue, hisData, hhit⟩
    · intro ⟨value, hvalue, hisData, hhit⟩
      exact Or.inr ⟨_, List.mem_filterMap.mpr ⟨value, hvalue, itemOf_of_isData hitDiscCfg hisData⟩,
        hhit⟩
  show AllOnMatrix hitDiscCfg (if (reading hitDiscCfg).forwards c ∨ 0 < s.events then [s.curOut]
    else []) ↔ _
  rw [hmain]
  constructor
  · intro hall value hvalue hspill
    have hvalue' := (hitsOf_onMatrix_iff hitDiscCfg hspill.1).mp fun hit hhit => by
      obtain ⟨e, he, hin⟩ := (hmem hit).mpr ⟨value, hvalue, hspill.1, hhit⟩
      exact hall s.curOut (List.mem_singleton.mpr rfl) e he hit hin
    exact hvalue' hspill
  · intro hnone d hd e he hit hhit
    cases List.mem_singleton.mp hd
    obtain ⟨value, hvalue, hisData, hin⟩ := (hmem hit).mp ⟨e, he, hhit⟩
    exact (hitsOf_onMatrix_iff hitDiscCfg hisData).mpr (hnone value hvalue) hit hin

/-! ## The hits of a run -/

/-- The words that are read behind `k`. -/
def wordsOfCall (k : Kept) : List WordContainer → List UInt32
  | [] => []
  | c :: call => buffersRead k.badCnt c.data ++ wordsOfCall (k.next hitDiscCfg c) call

theorem consume_onMatrix_iff {k k' : Kept} {call : List WordContainer}
    {out : Out FrontEndData FeedbackProcessingInfo}
    (h : consume (process_core hitDiscCfg) k call = some (k', out)) :
    AllOnMatrix hitDiscCfg out.main ↔
      ∀ value ∈ wordsOfCall hitDiscCfg k call, ¬SpillsOver value := by
  induction call generalizing k k' out with
  | nil =>
      cases h
      simp [AllOnMatrix, Out.empty, wordsOfCall]
  | cons c call ih =>
      obtain ⟨⟨k₁, out₁⟩, htake, hrest⟩ := Option.bind_eq_some_iff.mp h
      obtain ⟨⟨k₂, out₂⟩, hcall, hend⟩ := Option.map_eq_some_iff.mp hrest
      cases hend
      obtain ⟨rfl, hfirst⟩ := processContainer_onMatrix_iff hitDiscCfg htake
      have hlater := ih hcall
      unfold AllOnMatrix at hfirst hlater ⊢
      simp only [Out.append, List.forall_mem_append, wordsOfCall]
      rw [hfirst, hlater]

theorem consumeGroups_onMatrix_iff {calls : List (List WordContainer)}
    {out : Out FrontEndData FeedbackProcessingInfo}
    (h : consumeGroups (process_core hitDiscCfg) calls = some out) :
    AllOnMatrix hitDiscCfg out.main ↔
      ∀ value ∈ calls.flatMap (wordsOfCall hitDiscCfg .fresh), ¬SpillsOver value := by
  induction calls generalizing out with
  | nil =>
      cases h
      simp [AllOnMatrix, Out.empty]
  | cons call calls ih =>
      obtain ⟨⟨k₁, out₁⟩, hcall, hrest⟩ := Option.bind_eq_some_iff.mp h
      obtain ⟨out₂, hcalls, hend⟩ := Option.map_eq_some_iff.mp hrest
      cases hend
      have hfirst := consume_onMatrix_iff hitDiscCfg hcall
      have hlater := ih hcalls
      unfold AllOnMatrix at hfirst hlater ⊢
      simp only [Out.append, List.forall_mem_append, List.flatMap_cons]
      rw [← hlater]
      exact and_congr hfirst Iff.rfl

/-- Every run takes its containers in some calls. Its hits are on the matrix exactly if no word
that these calls read spills over. -/
theorem run_onMatrix_iff {items : List WordContainer}
    {w : World Kept WordContainer FrontEndData FeedbackProcessingInfo}
    (h : Run (process_core hitDiscCfg) (some (.start items)) (some w)) :
    ∃ calls : List (List WordContainer), calls.flatten ++ w.queue ++ w.pending = items ∧
      (AllOnMatrix hitDiscCfg w.out.main ↔
        ∀ value ∈ calls.flatMap (wordsOfCall hitDiscCfg .fresh), ¬SpillsOver value) := by
  obtain ⟨calls, out, hcalls, hrunning⟩ := run_accounted h
  cases hrun : w.running with
  | none =>
      rw [hrun] at hrunning
      obtain ⟨hitems, hout⟩ := hrunning
      rw [hout]
      exact ⟨calls, hitems, consumeGroups_onMatrix_iff hitDiscCfg hcalls⟩
  | some s =>
      rw [hrun] at hrunning
      obtain ⟨call, out', hcall, hitems, hout⟩ := hrunning
      refine ⟨calls ++ [call], ?_, ?_⟩
      · rw [← hitems, List.flatten_append, List.flatten_singleton]
      · have hlater : consumeGroups (process_core hitDiscCfg) (calls ++ [call]) =
            some (out.append out') := by
          rw [consumeGroups_append, hcalls]
          simp [consumeGroups, hcall]
        rw [hout]
        exact consumeGroups_onMatrix_iff hitDiscCfg hlater

end Yarr.Fei4
