import Yarr.Star.StarChannelFeedback

/-!
# The law of channel feedback

Which feedback moves each trim by its step, within the limits, and which the
loop gets to.
-/

namespace Yarr.Star

open Attempts Scan

namespace StarChannelFeedback

open StarParamFeedback (nCol)

/-! ## The slots of a histogram -/

section Slots

variable (s : StarChannelFeedback) (h : Histo2d)

/-- The slot has an ABC, and there is a step for it. -/
def Served (fe : StarCfg) (k : Nat) : Prop :=
  ∃ ic abc step, fe.inputChannelForHistoChip k = some ic ∧ fe.abcAt ic = some abc ∧
    s.m_steps[s.m_cur]? = some step

/-- After some of the slots. -/
structure SlotsDone (fe : StarCfg) (done : List Nat) (fe' : StarCfg) : Prop where
  hcc : fe'.hcc = fe.hcc
  ids : fe'.chipIDs = fe.chipIDs
  updated : ∀ k ∈ done, ∀ ic abc step, fe.inputChannelForHistoChip k = some ic →
    fe.abcAt ic = some abc → s.m_steps[s.m_cur]? = some step →
    ∃ abc', fe'.abcAt ic = some abc' ∧ s.Updated h k step abc abcStrips abc'
  left : ∀ ic, (∀ k ∈ done, fe.inputChannelForHistoChip k ≠ some ic) →
    fe'.abcAt ic = fe.abcAt ic

theorem inputChannel_congr {fe fe' : StarCfg} (hhcc : fe'.hcc = fe.hcc) (k : Nat) :
    fe'.inputChannelForHistoChip k = fe.inputChannelForHistoChip k := by
  unfold StarCfg.inputChannelForHistoChip StarCfg.chip_map
  rw [hhcc]

theorem inputChannel_inj {fe : StarCfg} {k k' : Nat} {ic : Fin MaxABCsPerHCC}
    (h : fe.inputChannelForHistoChip k = some ic) (h' : fe.inputChannelForHistoChip k' = some ic) :
    k = k' := by
  rw [← fe.chip_map_of_inputChannel h, fe.chip_map_of_inputChannel h']

theorem updateABC_ok {fe : StarCfg} {k : Nat} {ic : Fin MaxABCsPerHCC} {abc : AbcCfg}
    {step : UInt32} (hic : fe.inputChannelForHistoChip k = some ic) (hat : fe.abcAt ic = some abc)
    (hstep : s.m_steps[s.m_cur]? = some step) :
    ∃ abc', s.updateABC h fe k = .ok (fe.replaceABC ic abc') ∧
      s.Updated h k step abc abcStrips abc' := by
  rcases s.updateStrips_ok h k step hstep abc with ⟨abc', hloop, hupdated⟩
  refine ⟨abc', ?_, hupdated⟩
  unfold updateABC StarCfg.abcForHistoChip StarCfg.abcForInputChannel
  rw [hic]
  dsimp only
  rw [hat]
  show (abcStrips.foldlM (s.updateStrip h k) abc >>= _) = _
  rw [hloop]
  rfl

theorem served_of_updateABC_ok {fe fe' : StarCfg} {k : Nat} (hok : s.updateABC h fe k = .ok fe') :
    s.Served fe k := by
  unfold updateABC StarCfg.abcForHistoChip StarCfg.abcForInputChannel at hok
  cases hic : fe.inputChannelForHistoChip k with
  | none =>
      rw [hic] at hok
      cases hok
  | some ic =>
      rw [hic] at hok
      dsimp only at hok
      cases hat : fe.abcAt ic with
      | none =>
          rw [hat] at hok
          cases hok
      | some abc =>
          rw [hat] at hok
          cases hstep : s.m_steps[s.m_cur]? with
          | some step => exact ⟨ic, abc, step, hic, hat, hstep⟩
          | none =>
              have hfirst : abcStrips.foldlM (s.updateStrip h k) abc = .error .endIterator := by
                show (s.updateStrip h k abc (0, 1) >>= _) = _
                unfold updateStrip
                dsimp only
                rw [hstep]
                rfl
              have hfail : (abcStrips.foldlM (s.updateStrip h k) abc >>= fun abc =>
                  Except.ok (fe.replaceABC ic abc)) = .ok fe' := hok
              rw [hfirst] at hfail
              cases hfail

theorem slotsDone_step {fe fe₁ : StarCfg} {done : List Nat} {k : Nat} (hk : k ∉ done)
    (hbefore : s.SlotsDone h fe done fe₁) (hserved : s.Served fe k) :
    ∃ fe₂, s.updateABC h fe₁ k = .ok fe₂ ∧ s.SlotsDone h fe (done ++ [k]) fe₂ := by
  rcases hserved with ⟨ic, abc, step, hic, hat, hstep⟩
  have hnew : ∀ k' ∈ done, fe.inputChannelForHistoChip k' ≠ some ic := by
    intro k' hk' hic'
    exact hk (inputChannel_inj hic hic' ▸ hk')
  have hat₁ : fe₁.abcAt ic = some abc := (hbefore.left ic hnew).trans hat
  have hic₁ : fe₁.inputChannelForHistoChip k = some ic :=
    (inputChannel_congr hbefore.hcc k).trans hic
  rcases s.updateABC_ok h hic₁ hat₁ hstep with ⟨abc', hok, hupdated⟩
  refine ⟨_, hok, hbefore.hcc, ?_, ?_, ?_⟩
  · rw [fe₁.chipIDs_replaceABC hat₁ hupdated.id, hbefore.ids]
  · intro k' hk' jc abc₀ step₀ hjc hat₀ hstep₀
    rcases List.mem_append.mp hk' with hdone | hlast
    · have hne : jc ≠ ic := fun heq => hnew k' hdone (heq ▸ hjc)
      rw [fe₁.abcAt_replaceABC_ne hne]
      exact hbefore.updated k' hdone jc abc₀ step₀ hjc hat₀ hstep₀
    · obtain rfl := List.mem_singleton.mp hlast
      obtain rfl := Option.some_inj.mp (hic.symm.trans hjc)
      obtain rfl := Option.some_inj.mp (hat.symm.trans hat₀)
      obtain rfl := Option.some_inj.mp (hstep.symm.trans hstep₀)
      exact ⟨abc', fe₁.abcAt_replaceABC_self hat₁ abc', hupdated⟩
  · intro jc hnot
    have hne : jc ≠ ic := by
      rintro rfl
      exact hnot k (List.mem_append_right done List.mem_cons_self) hic
    rw [fe₁.abcAt_replaceABC_ne hne]
    exact hbefore.left jc fun k' hk' => hnot k' (List.mem_append_left _ hk')

theorem slotsDone_nil (fe : StarCfg) : s.SlotsDone h fe [] fe where
  hcc := rfl
  ids := rfl
  updated := fun _ hk => absurd hk List.not_mem_nil
  left := fun _ _ => rfl

end Slots

/-! ## One front-end -/

section FrontEnd

variable (s : StarChannelFeedback) (id : Nat) (h : Histo2d)

theorem nCol_div (fe : StarCfg) : nCol fe / StripsPerABCRow = fe.numABCs :=
  Nat.mul_div_cancel_left _ (by decide)

variable (hsize : h.size = nRow * nCol (s.fes id))

include hsize

theorem feedback_eq : s.feedback id h =
    ((List.range (s.fes id).numABCs).foldlM (s.updateABC h) (s.fes id)).map
      (fun fe => { s with fes := Function.update s.fes id fe }) := by
  unfold feedback
  dsimp only
  rw [if_neg (not_not.mpr hsize), nCol_div]
  cases (List.range (s.fes id).numABCs).foldlM (s.updateABC h) (s.fes id) <;> rfl

theorem feedback_ok (hserved : ∀ k, k < (s.fes id).numABCs → s.Served (s.fes id) k) :
    ∃ fe', s.feedback id h = .ok { s with fes := Function.update s.fes id fe' } ∧
      s.SlotsDone h (s.fes id) (List.range (s.fes id).numABCs) fe' := by
  have hloop : ∃ fe', (List.range (s.fes id).numABCs).foldlM (s.updateABC h) (s.fes id) = .ok fe' ∧
      s.SlotsDone h (s.fes id) (List.range (s.fes id).numABCs) fe' := by
    apply foldlM_ok (R := fun done fe' => s.SlotsDone h (s.fes id) done fe')
    · intro done k fe₁ hprefix hbefore
      have hk : k ∈ List.range (s.fes id).numABCs :=
        hprefix.subset (List.mem_append_right done List.mem_cons_self)
      exact s.slotsDone_step h (not_mem_of_concat List.nodup_range hprefix) hbefore
        (hserved k (List.mem_range.mp hk))
    · exact s.slotsDone_nil h _
  rcases hloop with ⟨fe', hfe', hdone⟩
  refine ⟨fe', ?_, hdone⟩
  rw [s.feedback_eq id h hsize, hfe']
  rfl

theorem served_of_feedback_ok {t : StarChannelFeedback} (hok : s.feedback id h = .ok t) :
    ∀ k, k < (s.fes id).numABCs → s.Served (s.fes id) k := by
  rw [s.feedback_eq id h hsize] at hok
  cases hloop : (List.range (s.fes id).numABCs).foldlM (s.updateABC h) (s.fes id) with
  | error e =>
      rw [hloop] at hok
      cases hok
  | ok fe' =>
      intro k hk
      refine good_of_foldlM_ok (R := fun done fe' => s.SlotsDone h (s.fes id) done fe') ?_ ?_
        (s.slotsDone_nil h _) hloop k (List.mem_range.mpr hk)
      · intro done k' fe₁ hprefix hbefore hserved
        exact s.slotsDone_step h (not_mem_of_concat List.nodup_range hprefix) hbefore hserved
      · intro done k' fe₁ fe₂ hprefix hbefore hstep
        rcases s.served_of_updateABC_ok h hstep with ⟨ic, abc, step, hic, hat, hcur⟩
        rw [inputChannel_congr hbefore.hcc] at hic
        have hnot : ∀ k ∈ done, (s.fes id).inputChannelForHistoChip k ≠ some ic := by
          intro k₀ hk₀ hic₀
          exact not_mem_of_concat List.nodup_range hprefix (inputChannel_inj hic hic₀ ▸ hk₀)
        rw [hbefore.left ic hnot] at hat
        exact ⟨ic, abc, step, hic, hat, hcur⟩

end FrontEnd

/-! ## The law -/

section Law

variable (s : StarChannelFeedback) (h : Histo2d)

/-- Each strip of an ABC has the trim that the law says, the value was not refused, and nothing
else has changed. -/
structure LawfulABC (k : Nat) (step : UInt32) (abc abc' : AbcCfg) : Prop where
  trims : ∀ strip ∈ abcStrips,
    (0 ≤ s.passedFor h k step abc strip ∧ s.passedFor h k step abc strip ≤ 31) ∧
    (abc'.getTrimDACRaw (trimOrder strip.1 strip.2) : Int) =
      lawful s.min s.max (abc.getTrimDACRaw (trimOrder strip.1 strip.2)) step
        (signOf h k strip.1 strip.2)
  others : ∀ addr, AbcCfg.NoTrim addr → abc'.registers.value addr = abc.registers.value addr
  id : abc'.m_abcID = abc.m_abcID

/-- Each ABC has one slot of the histogram and follows the law. -/
structure Lawful (fe fe' : StarCfg) : Prop where
  hcc : fe'.hcc = fe.hcc
  ids : fe'.chipIDs = fe.chipIDs
  abcs : ∀ ic abc, fe.abcAt ic = some abc → ∃ k abc' step, k < fe.numABCs ∧
    fe.inputChannelForHistoChip k = some ic ∧ fe'.abcAt ic = some abc' ∧
    s.m_steps[s.m_cur]? = some step ∧ s.LawfulABC h k step abc abc'

/-- Each slot has an ABC, there is a step, and it fits for each strip. -/
def AllFit (fe : StarCfg) : Prop :=
  ∀ k, k < fe.numABCs → ∃ ic abc step, fe.inputChannelForHistoChip k = some ic ∧
    fe.abcAt ic = some abc ∧ s.m_steps[s.m_cur]? = some step ∧
    ∀ strip ∈ abcStrips, Fits s.min s.max (abc.getTrimDACRaw (trimOrder strip.1 strip.2)) step
      (signOf h k strip.1 strip.2)

variable {s h}

theorem AllFit.served {fe : StarCfg} (hfit : s.AllFit h fe) (k : Nat) (hk : k < fe.numABCs) :
    s.Served fe k := by
  rcases hfit k hk with ⟨ic, abc, step, hic, hat, hstep, _⟩
  exact ⟨ic, abc, step, hic, hat, hstep⟩

/-- As many slots as ABCs: if each slot has an ABC, each ABC has a slot. -/
theorem slot_of_served {fe : StarCfg} (hserved : ∀ k, k < fe.numABCs → s.Served fe k)
    {ic : Fin MaxABCsPerHCC} {abc : AbcCfg} (hat : fe.abcAt ic = some abc) :
    ∃ k, k < fe.numABCs ∧ fe.inputChannelForHistoChip k = some ic := by
  have hslots : ∀ k ∈ List.range fe.numABCs, ∃ ic, fe.inputChannelForHistoChip k = some ic ∧
      ic ∈ fe.m_ABCchips.map Prod.fst := by
    intro k hk
    rcases hserved k (List.mem_range.mp hk) with ⟨ic, abc, _, hic, hat, _⟩
    exact ⟨ic, hic, List.mem_map_of_mem (fe.mem_of_abcAt hat)⟩
  let channel : Nat → Fin MaxABCsPerHCC := fun k =>
    (fe.inputChannelForHistoChip k).getD ⟨0, by decide⟩
  have hchannel : ∀ k ∈ List.range fe.numABCs, fe.inputChannelForHistoChip k = some (channel k) := by
    intro k hk
    rcases hslots k hk with ⟨ic, hic, _⟩
    show _ = some ((fe.inputChannelForHistoChip k).getD _)
    rw [hic, Option.getD_some]
  have hnodup : ((List.range fe.numABCs).map channel).Nodup := by
    apply List.Nodup.map_on _ List.nodup_range
    intro k hk k' hk' heq
    exact inputChannel_inj (hchannel k hk) (heq ▸ hchannel k' hk')
  have hsubset : (List.range fe.numABCs).map channel ⊆ fe.m_ABCchips.map Prod.fst := by
    intro jc hjc
    rcases List.mem_map.mp hjc with ⟨k, hk, rfl⟩
    rcases hslots k hk with ⟨ic, hic, hmem⟩
    rwa [← Option.some_inj.mp (hic.symm.trans (hchannel k hk))]
  have hperm : ((List.range fe.numABCs).map channel).Perm (fe.m_ABCchips.map Prod.fst) := by
    apply (List.subperm_of_subset hnodup hsubset).perm_of_length_le
    rw [List.length_map, List.length_map, List.length_range]
    exact Nat.le_refl _
  rcases List.mem_map.mp (hperm.mem_iff.mpr (List.mem_map_of_mem (fe.mem_of_abcAt hat))) with
    ⟨k, hk, hkc⟩
  exact ⟨k, List.mem_range.mp hk, (hchannel k hk).trans (congrArg some hkc)⟩

theorem lawfulABC_iff (hle : s.min ≤ s.max) {k : Nat} {step : UInt32} {abc abc' : AbcCfg}
    (hupdated : s.Updated h k step abc abcStrips abc') :
    s.LawfulABC h k step abc abc' ↔ ∀ strip ∈ abcStrips, Fits s.min s.max
      (abc.getTrimDACRaw (trimOrder strip.1 strip.2)) step (signOf h k strip.1 strip.2) := by
  apply Iff.intro
  · intro hlaw strip hstrip
    rcases hlaw.trims strip hstrip with ⟨haccepted, hvalue⟩
    have hpassed := hupdated.trims strip hstrip
    rw [if_pos haccepted] at hpassed
    exact (obeyed_iff hle _ _ _).mp ⟨haccepted, hpassed.symm.trans hvalue⟩
  · intro hfit
    exact {
      trims := by
        intro strip hstrip
        rcases (obeyed_iff hle _ _ _).mpr (hfit strip hstrip) with ⟨haccepted, hvalue⟩
        have hpassed := hupdated.trims strip hstrip
        rw [if_pos (by exact haccepted)] at hpassed
        exact ⟨haccepted, hpassed.trans hvalue⟩
      others := hupdated.others
      id := hupdated.id }

theorem lawful_iff (hle : s.min ≤ s.max) {fe fe' : StarCfg}
    (hserved : ∀ k, k < fe.numABCs → s.Served fe k)
    (hdone : s.SlotsDone h fe (List.range fe.numABCs) fe') : s.Lawful h fe fe' ↔ s.AllFit h fe := by
  apply Iff.intro
  · intro hlaw k hk
    rcases hserved k hk with ⟨ic, abc, step, hic, hat, hstep⟩
    rcases hlaw.abcs ic abc hat with ⟨k', abc', step', hk', hic', hat', hstep', habc⟩
    obtain rfl := inputChannel_inj hic hic'
    obtain rfl := Option.some_inj.mp (hstep.symm.trans hstep')
    rcases hdone.updated k (List.mem_range.mpr hk) ic abc step hic hat hstep with
      ⟨abc'', hat'', hupdated⟩
    obtain rfl := Option.some_inj.mp (hat'.symm.trans hat'')
    exact ⟨ic, abc, step, hic, hat, hstep, (lawfulABC_iff hle hupdated).mp habc⟩
  · intro hfit
    refine ⟨hdone.hcc, hdone.ids, ?_⟩
    intro ic abc hat
    rcases slot_of_served hserved hat with ⟨k, hk, hic⟩
    rcases hfit k hk with ⟨ic', abc', step, hic', hat', hstep, hstrips⟩
    obtain rfl := Option.some_inj.mp (hic.symm.trans hic')
    obtain rfl := Option.some_inj.mp (hat.symm.trans hat')
    rcases hdone.updated k (List.mem_range.mpr hk) ic abc step hic hat hstep with
      ⟨abc₁, hat₁, hupdated⟩
    exact ⟨k, abc₁, step, hk, hic, hat₁, hstep, (lawfulABC_iff hle hupdated).mpr hstrips⟩

end Law

end StarChannelFeedback

end Yarr.Star
