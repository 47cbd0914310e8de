import Yarr.Star.ChannelFeedbackLaw

/-!
# Runs of the feedback loop

Every iteration gives each active front-end its feedback. The loop ends with
the first iteration, because no front-end has an entry that says it is not done.
-/

namespace Yarr.Star

open Attempts Scan

namespace StarChannelFeedback

open StarParamFeedback (nCol)

/-! ## One iteration -/

section Iteration

variable (s : StarChannelFeedback) (fb : Nat → Histo2d)

/-- Every active front-end follows the law, and the others are as they were. -/
structure Law (t : StarChannelFeedback) : Prop where
  active : ∀ id ∈ s.ids, s.Lawful (fb id) (s.fes id) (t.fes id)
  inactive : ∀ id, id ∉ s.ids → t.fes id = s.fes id
  m_cur : t.m_cur = s.m_cur + 1
  config : t.min = s.min ∧ t.max = s.max ∧ t.m_steps = s.m_steps ∧ t.getActive = s.getActive

/-- The histograms have the size of their front-ends. -/
def Sized : Prop := ∀ id ∈ s.ids, (fb id).size = nRow * nCol (s.fes id)

/-- After some of the front-ends. -/
def Received (done : List Nat) (t : StarChannelFeedback) : Prop :=
  ∃ fes, t = { s with fes := fes } ∧
    (∀ id ∈ done, s.SlotsDone (fb id) (s.fes id) (List.range (s.fes id).numABCs) (fes id)) ∧
    ∀ id, id ∉ done → fes id = s.fes id

variable {s fb}

theorem ids_nodup : s.ids.Nodup := List.nodup_range.filter _

theorem SlotsDone.of_fes {fes : Nat → StarCfg} {h : Histo2d} {fe fe' : StarCfg} {done : List Nat}
    (hdone : SlotsDone { s with fes := fes } h fe done fe') : s.SlotsDone h fe done fe' where
  hcc := hdone.hcc
  ids := hdone.ids
  updated := by
    intro k hk ic abc step hic hat hstep
    rcases hdone.updated k hk ic abc step hic hat hstep with ⟨abc', hat', hupdated⟩
    exact ⟨abc', hat', hupdated.id, hupdated.trims, hupdated.left, hupdated.others⟩
  left := hdone.left

theorem received_step {done : List Nat} {id : Nat} {t : StarChannelFeedback} (hid : id ∉ done)
    (hsize : (fb id).size = nRow * nCol (s.fes id)) (hbefore : s.Received fb done t)
    (hserved : ∀ k, k < (s.fes id).numABCs → s.Served (s.fes id) k) :
    ∃ t', t.feedback id (fb id) = .ok t' ∧ s.Received fb (done ++ [id]) t' := by
  rcases hbefore with ⟨fes, rfl, hdone, hleft⟩
  have hsame := hleft id hid
  rcases feedback_ok { s with fes := fes } id (fb id)
    (by show _ = nRow * nCol (fes id); rw [hsame, hsize])
    (by show ∀ k, k < (fes id).numABCs → s.Served (fes id) k; rw [hsame]; exact hserved) with
    ⟨fe', hok, hslots⟩
  refine ⟨_, hok, _, rfl, ?_, ?_⟩
  · intro id' hid'
    rcases List.mem_append.mp hid' with hd | hl
    · have hne : id' ≠ id := fun heq => hid (heq ▸ hd)
      dsimp only
      rw [Function.update_of_ne hne]
      exact hdone id' hd
    · obtain rfl := List.mem_singleton.mp hl
      dsimp only at hslots ⊢
      rw [Function.update_self]
      rw [hsame] at hslots
      exact hslots.of_fes
  · intro id' hid'
    rw [List.mem_append, not_or] at hid'
    dsimp only
    rw [Function.update_of_ne fun heq => hid'.2 (List.mem_singleton.mpr heq)]
    exact hleft id' hid'.1

theorem received_nil : s.Received fb [] s :=
  ⟨s.fes, rfl, fun _ h => absurd h List.not_mem_nil, fun _ _ => rfl⟩

theorem receive_ok (hsize : s.Sized fb)
    (hserved : ∀ id ∈ s.ids, ∀ k, k < (s.fes id).numABCs → s.Served (s.fes id) k) :
    ∃ t, s.receive fb = .ok t ∧ s.Received fb s.ids t := by
  apply foldlM_ok (R := fun done t => s.Received fb done t) _ received_nil
  intro done id t hprefix hbefore
  have hmem := hprefix.subset (List.mem_append_right done List.mem_cons_self)
  exact received_step (not_mem_of_concat ids_nodup hprefix) (hsize id hmem) hbefore
    (hserved id hmem)

theorem served_of_receive_ok (hsize : s.Sized fb) {t : StarChannelFeedback}
    (hok : s.receive fb = .ok t) :
    ∀ id ∈ s.ids, ∀ k, k < (s.fes id).numABCs → s.Served (s.fes id) k := by
  refine good_of_foldlM_ok (R := fun done t => s.Received fb done t) ?_ ?_ received_nil hok
  · intro done id t hprefix hbefore hserved
    have hmem := hprefix.subset (List.mem_append_right done List.mem_cons_self)
    exact received_step (not_mem_of_concat ids_nodup hprefix) (hsize id hmem) hbefore hserved
  · intro done id t t' hprefix hbefore hstep
    have hmem := hprefix.subset (List.mem_append_right done List.mem_cons_self)
    rcases hbefore with ⟨fes, rfl, _, hleft⟩
    have hsame := hleft id (not_mem_of_concat ids_nodup hprefix)
    have hserved := served_of_feedback_ok { s with fes := fes } id (fb id)
      (by show _ = nRow * nCol (fes id); rw [hsame, hsize id hmem]) hstep
    dsimp only at hserved
    rw [hsame] at hserved
    exact hserved

theorem execPart2_eq {t : StarChannelFeedback} (hok : s.receive fb = .ok t) :
    ∃ done, s.execPart2 fb = .ok { t with m_cur := t.m_cur + 1, m_done := done } ∧
      (t.isFeedbackDone = true → done = true) := by
  by_cases hlast : t.m_cur + 1 = t.m_steps.length
  · refine ⟨true, ?_, fun _ => rfl⟩
    unfold execPart2
    rw [hok, ok_bind]
    exact if_pos hlast
  · cases hdone : t.isFeedbackDone with
    | true =>
        refine ⟨true, ?_, fun _ => rfl⟩
        unfold execPart2
        rw [hok, ok_bind]
        exact (if_neg hlast).trans (if_pos hdone)
    | false =>
        refine ⟨t.m_done, ?_, fun h => absurd h Bool.false_ne_true⟩
        unfold execPart2
        rw [hok, ok_bind]
        exact (if_neg hlast).trans (if_neg (by rw [Bool.not_eq_true]; exact hdone))

theorem receive_of_execPart2 {t : StarChannelFeedback} (hok : s.execPart2 fb = .ok t) :
    ∃ t₀, s.receive fb = .ok t₀ := by
  unfold execPart2 at hok
  cases hreceive : s.receive fb with
  | ok t₀ => exact ⟨t₀, rfl⟩
  | error e =>
      rw [hreceive] at hok
      cases hok

theorem execPart2_iff (hle : s.min ≤ s.max) (hsize : s.Sized fb) :
    (∃ t, s.execPart2 fb = .ok t ∧ s.Law fb t) ↔ ∀ id ∈ s.ids, s.AllFit (fb id) (s.fes id) := by
  apply Iff.intro
  · rintro ⟨t, hok, hlaw⟩
    rcases receive_of_execPart2 hok with ⟨t₀, hreceive⟩
    have hserved := served_of_receive_ok hsize hreceive
    rcases receive_ok hsize hserved with ⟨t₁, ht₁, fes, hfes, hdone, _⟩
    rcases execPart2_eq ht₁ with ⟨done, ht, _⟩
    obtain rfl := Except.ok.inj (ht.symm.trans hok)
    intro id hid
    have hactive := hlaw.active id hid
    rw [hfes] at hactive
    exact (lawful_iff hle (hserved id hid) (hdone id hid)).mp hactive
  · intro hfit
    have hserved := fun id hid => (hfit id hid).served
    rcases receive_ok hsize hserved with ⟨t₁, ht₁, fes, rfl, hdone, hleft⟩
    rcases execPart2_eq ht₁ with ⟨done, ht, _⟩
    exact ⟨_, ht, {
      active := fun id hid => (lawful_iff hle (hserved id hid) (hdone id hid)).mpr (hfit id hid)
      inactive := hleft
      m_cur := rfl
      config := ⟨rfl, rfl, rfl, rfl⟩ }⟩

theorem m_done_execPart2 (hsize : s.Sized fb) {t : StarChannelFeedback}
    (hok : s.execPart2 fb = .ok t) :
    (s.isFeedbackDone = true → t.m_done = true) ∧ t.fbDoneMap = s.fbDoneMap := by
  rcases receive_of_execPart2 hok with ⟨t₀, hreceive⟩
  rcases receive_ok hsize (served_of_receive_ok hsize hreceive) with ⟨t₁, ht₁, fes, rfl, _, _⟩
  rcases execPart2_eq ht₁ with ⟨done, ht, hdone⟩
  obtain rfl := Except.ok.inj (ht.symm.trans hok)
  exact ⟨hdone, rfl⟩

theorem Law.sized {t : StarChannelFeedback} (hlaw : s.Law fb t) {fb' : Nat → Histo2d}
    (hsize : s.Sized fb') : t.Sized fb' := by
  intro id hid
  have hids : t.ids = s.ids := by
    unfold ids
    rw [hlaw.config.2.2.2]
  rw [hids] at hid
  have hnum : (t.fes id).numABCs = (s.fes id).numABCs :=
    StarCfg.numABCs_congr (hlaw.active id hid).ids
  unfold nCol
  rw [hnum]
  exact hsize id hid

end Iteration

/-! ## Runs -/

/-- Each feedback of a sequence follows the law. -/
def Follows : StarChannelFeedback → List (Nat → Histo2d) → Prop
  | _, [] => True
  | s, fb :: rest => ∃ t, s.execPart2 fb = .ok t ∧ s.Law fb t ∧ Follows t rest

/-- The loop gets to each feedback of a sequence, and it follows the law. -/
def LoopFollows : StarChannelFeedback → List (Nat → Histo2d) → Prop
  | _, [] => True
  | s, fb :: rest =>
      s.m_done = false ∧ ∃ t, s.execPart2 fb = .ok t ∧ s.Law fb t ∧ LoopFollows t rest

/-- Each feedback fits the state it finds. -/
def EachFits : StarChannelFeedback → List (Nat → Histo2d) → Prop
  | _, [] => True
  | s, fb :: rest => (∀ id ∈ s.ids, s.AllFit (fb id) (s.fes id)) ∧
      ∀ t, s.execPart2 fb = .ok t → EachFits t rest

theorem follows_iff {hs : List (Nat → Histo2d)} {s : StarChannelFeedback} (hle : s.min ≤ s.max)
    (hsize : ∀ fb ∈ hs, s.Sized fb) : Follows s hs ↔ EachFits s hs := by
  induction hs generalizing s with
  | nil => exact Iff.rfl
  | cons fb rest ih =>
      have hstep := execPart2_iff hle (hsize fb List.mem_cons_self)
      have hnext : ∀ t, s.Law fb t → (Follows t rest ↔ EachFits t rest) := by
        intro t hlaw
        have hconfig := hlaw.config
        exact ih (by rw [hconfig.1, hconfig.2.1]; exact hle)
          fun fb' hfb' => hlaw.sized (hsize fb' (List.mem_cons_of_mem fb hfb'))
      apply Iff.intro
      · rintro ⟨t, hok, hlaw, hrest⟩
        refine ⟨hstep.mp ⟨t, hok, hlaw⟩, ?_⟩
        intro t' hok'
        obtain rfl := Except.ok.inj (hok.symm.trans hok')
        exact (hnext t hlaw).mp hrest
      · rintro ⟨hfit, hrest⟩
        rcases hstep.mpr hfit with ⟨t, hok, hlaw⟩
        exact ⟨t, hok, hlaw, (hnext t hlaw).mpr (hrest t hok)⟩

theorem loopFollows_iff {hs : List (Nat → Histo2d)} {s : StarChannelFeedback}
    (hsize : ∀ fb ∈ hs, s.Sized fb) (hstart : s.m_done = false) (hdone : s.isFeedbackDone = true) :
    LoopFollows s hs ↔ Follows s hs ∧ hs.length ≤ 1 := by
  cases hs with
  | nil => exact iff_of_true trivial ⟨trivial, Nat.zero_le 1⟩
  | cons fb rest =>
      cases rest with
      | nil =>
          apply Iff.intro
          · rintro ⟨_, t, hok, hlaw, _⟩
            exact ⟨⟨t, hok, hlaw, trivial⟩, Nat.le_refl 1⟩
          · rintro ⟨⟨t, hok, hlaw, _⟩, _⟩
            exact ⟨hstart, t, hok, hlaw, trivial⟩
      | cons fb' rest =>
          apply iff_of_false
          · rintro ⟨_, t, hok, _, hnot, _⟩
            have hend := (m_done_execPart2 (hsize fb List.mem_cons_self) hok).1 hdone
            rw [hend] at hnot
            cases hnot
          · rintro ⟨_, hlength⟩
            exact absurd hlength (by simp)

/-- The feedbacks follow the law exactly if each of them fits. The loop gets to one of them only. -/
theorem tuning_iff (s : StarChannelFeedback) (hle : s.min ≤ s.max) (hs : List (Nat → Histo2d))
    (hsize : ∀ fb ∈ hs, s.Sized fb) :
    (Follows s hs ↔ EachFits s hs) ∧
    (s.m_done = false → s.isFeedbackDone = true →
      (LoopFollows s hs ↔ EachFits s hs ∧ hs.length ≤ 1)) := by
  have hfollows := follows_iff hle hsize
  refine ⟨hfollows, ?_⟩
  intro hstart hdone
  rw [loopFollows_iff hsize hstart hdone, hfollows]

/-- One front-end with one ABC, all trims at 15, and one large step. -/
def largeStep : StarChannelFeedback where
  min := -15
  max := 15
  m_steps := [16]
  m_resetTdac := false
  m_cur := 0
  m_done := false
  fbDoneMap := []
  getActive := [true]
  fes := fun _ => {
    hcc := (StarParamFeedback.oneChip.fes 0).hcc
    m_ABCchips := [(⟨0, MaxABCsPerHCC_pos⟩, {
      version_1 := true, m_abcID := 0, registers := ⟨fun addr => if addr < 96 then 0xffffffff else 0⟩ })]
    sorted := List.pairwise_singleton _ _ }

/-- All strips go down, or stay. -/
def allSigns (sign : ℚ) (_ : Nat) : Histo2d :=
  { Histo2d.new 128 (1 / 2) (257 / 2) 2 (1 / 2) (5 / 2) with
    data := List.replicate 256 sign
    m_isFilled := List.replicate 256 true
    length_data := List.length_replicate
    length_filled := List.length_replicate
    unfilled := by
      intro n hn
      rw [List.getD_eq_getElem?_getD, List.getElem?_replicate] at hn ⊢
      by_cases hlt : n < 256
      · rw [if_pos hlt] at hn
        cases hn
      · rw [if_neg hlt]
        rfl }

theorem allSigns_sized (sign : ℚ) : largeStep.Sized (allSigns sign) := by
  intro id _
  show 128 * 2 = RowsPerABC * (StripsPerABCRow * 1)
  decide

/-- A step below zero is refused, and the trim stays where it is. -/
theorem largeStep_refused : ¬Follows largeStep [allSigns (-1)] := by
  rintro ⟨t, hok, hlaw, _⟩
  have hfit := (execPart2_iff (by decide) (allSigns_sized (-1))).mp ⟨t, hok, hlaw⟩ 0 (by decide)
  rcases hfit 0 (by decide) with ⟨ic, abc, step, hic, hat, hstep, hstrips⟩
  have hchannel : (largeStep.fes 0).inputChannelForHistoChip 0 = some ⟨0, by decide⟩ := by
    decide +kernel
  obtain rfl := Option.some_inj.mp (hchannel.symm.trans hic)
  obtain rfl := Option.some_inj.mp (Eq.symm hat)
  obtain rfl := Option.some_inj.mp (Eq.symm hstep)
  have hlow := (hstrips (0, 1) (by decide)).low
  revert hlow
  decide +kernel

theorem tuning_iff_noStep :
    (Follows largeStep [allSigns 0] ↔ EachFits largeStep [allSigns 0]) ∧
    (largeStep.m_done = false → largeStep.isFeedbackDone = true →
      (LoopFollows largeStep [allSigns 0] ↔
        EachFits largeStep [allSigns 0] ∧ [allSigns 0].length ≤ 1)) :=
  tuning_iff largeStep (by decide) [allSigns 0]
    (fun _ h => List.mem_singleton.mp h ▸ allSigns_sized 0)

end StarChannelFeedback

end Yarr.Star
