import Yarr.Core.Attempts
import Yarr.Star.ChipIDs
import Yarr.Star.StarTrimDacAnalysis

/-!
# The trims of a chip

For which thresholds the trims of a chip come from its own channels, are the
closest ones, and are counted as trimmed rightly.
-/

namespace Yarr.Star

open Attempts Closest

/-- The thresholds measured on a chip. -/
def ThresholdMap.ofChip (thresholds : ThresholdMap) (iChip : Nat) : ThresholdMap where
  channels := thresholds.channels.filter fun vals => vals.1 / StripsPerABC == iChip
  sorted := thresholds.sorted.sublist (List.filter_sublist.map Prod.fst)

namespace StarTrimDacAnalysis

/-! ## The channels that are returned -/

section Returned

variable (thresholds : ThresholdMap) (trimRange : Nat) (target : ℚ) (iChip : Nat)

/-- The points of a channel, in the order of the walk. -/
def pointsOf (vals : Nat × TrimScan) : List (Nat × ℚ) :=
  scanned trimRange vals.2.points.reverse

/-- The entry of a channel, if it gets one. -/
def entryOf (vals : Nat × TrimScan) : Option (Nat × Int) :=
  if bestOf target (pointsOf trimRange vals) = -999 then none
  else some (vals.1, bestOf target (pointsOf trimRange vals))

theorem foldl_entries (hchip : iChip < MaxABCsPerHCC) (l : List (Nat × TrimScan)) (mult : Nat)
    (mapOfTrims : List (Nat × Int)) :
    l.foldl (fun (mult, mapOfTrims) vals =>
      let channel := vals.1
      if MaxABCsPerHCC ≤ iChip ∧ channel / StripsPerABC ≠ iChip then (mult, mapOfTrims)
      else
        let best := bestTrimDacForChannel trimRange target vals.2
        if best ≠ -999 then
          (if 0 ≤ best then mult + 1 else mult, mapOfTrims ++ [(channel, best)])
        else (mult, mapOfTrims)) (mult, mapOfTrims) =
      (mult + ((l.filterMap (entryOf trimRange target)).filter fun e => decide (0 ≤ e.2)).length,
        mapOfTrims ++ l.filterMap (entryOf trimRange target)) := by
  induction l generalizing mult mapOfTrims with
  | nil => rw [List.filterMap_nil, List.append_nil]; rfl
  | cons vals l ih =>
      rw [List.foldl_cons]
      dsimp only
      rw [if_neg fun hskip => absurd hskip.1 (not_le.mpr hchip), bestTrimDacForChannel_eq]
      by_cases hnone : bestOf target (pointsOf trimRange vals) = -999
      · have hentry : entryOf trimRange target vals = none := if_pos hnone
        rw [if_neg (not_not.mpr (by exact hnone)), List.filterMap_cons_none hentry, ih]
      · have hentry : entryOf trimRange target vals =
            some (vals.1, bestOf target (pointsOf trimRange vals)) := if_neg hnone
        rw [if_pos (by exact hnone), List.filterMap_cons_some hentry, ih, List.filter_cons]
        show (_, _ ++ [(vals.1, bestOf target (pointsOf trimRange vals))] ++ _) = _
        rw [List.append_assoc]
        by_cases hpos : 0 ≤ bestOf target (pointsOf trimRange vals)
        · rw [if_pos (by exact hpos), if_pos (by simpa using hpos), List.length_cons]
          congr 1
          omega
        · rw [if_neg (by exact hpos), if_neg (by simpa using hpos)]
          rfl

theorem getChannelMult_eq (hchip : iChip < MaxABCsPerHCC) :
    getChannelMultReachingTarget thresholds trimRange target iChip =
      (((thresholds.channels.filterMap (entryOf trimRange target)).filter
        fun e => decide (0 ≤ e.2)).length,
        thresholds.channels.filterMap (entryOf trimRange target)) := by
  unfold getChannelMultReachingTarget
  rw [foldl_entries trimRange target iChip hchip, Nat.zero_add, List.nil_append]

/-- The channel has a point of the range; and if the closest one is not at a crossing, its DAC is
not the one that stands for none. -/
def Listed (l : List (Nat × ℚ)) : Prop :=
  ∃ b rest, l = b :: rest ∧
    ¬(NoCrossing target b rest ∧ (closest (distance target) b rest).1 = 999)

theorem listed_iff (l : List (Nat × ℚ)) : Listed target l ↔ bestOf target l ≠ -999 := by
  cases l with
  | nil =>
      apply iff_of_false
      · rintro ⟨b, rest, hcons, _⟩
        cases hcons
      · exact not_not.mpr rfl
  | cons b rest =>
      have hlisted : Listed target (b :: rest) ↔
          ¬(NoCrossing target b rest ∧ (closest (distance target) b rest).1 = 999) := by
        apply Iff.intro
        · rintro ⟨b', rest', hcons, hnot⟩
          rw [List.cons.injEq] at hcons
          rw [hcons.1, hcons.2]
          exact hnot
        · exact fun hnot => ⟨b, rest, rfl, hnot⟩
      rw [hlisted]
      show _ ↔ signed (settle target b rest) ≠ -999
      rcases settle_cases target b rest with ⟨hnone, hend⟩ | ⟨before, p, after, hfirst, hend⟩
      · rw [hend, and_iff_right hnone]
        show _ ↔ -((closest (distance target) b rest).1 : Int) ≠ -999
        omega
      · have hcross : ¬NoCrossing target b rest := fun hnone =>
          hnone before p after hfirst.split hfirst.crosses
        rw [hend]
        show _ ↔ ((closest (distance target) b (before ++ [p])).1 : Int) ≠ -999
        apply iff_of_true
        · exact fun hboth => hcross hboth.1
        · omega

theorem mem_entries {e : Nat × Int} :
    e ∈ thresholds.channels.filterMap (entryOf trimRange target) ↔
      ∃ vals ∈ thresholds.channels, Listed target (pointsOf trimRange vals) ∧
        e = (vals.1, bestOf target (pointsOf trimRange vals)) := by
  rw [List.mem_filterMap]
  apply exists_congr
  intro vals
  apply and_congr_right
  intro _
  rw [listed_iff]
  unfold entryOf
  by_cases hnone : bestOf target (pointsOf trimRange vals) = -999
  · rw [if_pos hnone]
    exact iff_of_false (Option.some_ne_none e).symm fun hboth => hboth.1 hnone
  · rw [if_neg hnone, Option.some_inj]
    exact ⟨fun heq => ⟨hnone, heq.symm⟩, fun hboth => hboth.2.symm⟩

end Returned

/-! ## Registers -/

section Registers

theorem trimOrder_lt_strips (channel : Nat) :
    (AbcCfg.trimRegOrderFromChannel (UInt8.ofNat (channel % 256))).toNat < StripsPerABC :=
  UInt8.toNat_lt _

theorem writeTrims_ok (abc : AbcCfg) (mapOfTrims : List (Nat × Int)) :
    ∃ abc', mapOfTrims.foldlM writeTrim abc = .ok abc' ∧ ∀ c, c < StripsPerABC →
      abc'.getTrimDACRaw c = abc.getTrimDACRaw c ∨
        ∃ e ∈ mapOfTrims, 0 ≤ e.2 ∧ (abc'.getTrimDACRaw c : Int) = e.2 := by
  refine foldlM_ok (R := fun (done : List (Nat × Int)) (abc' : AbcCfg) => ∀ c, c < StripsPerABC →
    abc'.getTrimDACRaw c = abc.getTrimDACRaw c ∨
      ∃ e ∈ done, 0 ≤ e.2 ∧ (abc'.getTrimDACRaw c : Int) = e.2) ?_ fun _ _ => Or.inl rfl
  intro done e abc₁ _ hbefore
  refine ⟨_, abc₁.setTrimDACRaw_ok (trimOrder_lt_strips e.1) e.2, ?_⟩
  intro c hc
  have hvalue := abc₁.getTrimDACRaw_storedTrim (trimOrder_lt_strips e.1) e.2 hc
  by_cases hset : c = (AbcCfg.trimRegOrderFromChannel (UInt8.ofNat (e.1 % 256))).toNat ∧
      0 ≤ e.2 ∧ e.2 ≤ 31
  · rw [if_pos hset] at hvalue
    exact Or.inr ⟨e, List.mem_append_right done List.mem_cons_self, hset.2.1, hvalue⟩
  · rw [if_neg hset] at hvalue
    rcases hbefore c hc with hold | ⟨e', he', hpos, hsame⟩
    · exact Or.inl (Int.ofNat_inj.mp (hvalue.trans (congrArg Int.ofNat hold)))
    · exact Or.inr ⟨e', List.mem_append_left _ he', hpos, hvalue.trans hsame⟩

theorem getTrimDACRaw_setRange (abc : AbcCfg) (value : UInt32) (c : Nat) :
    (abc.setSubRegister .BTRANGE value).state.getTrimDACRaw c = abc.getTrimDACRaw c := by
  have hall : ∀ v : Bool, ((abcSubRegDefs v).lookup .BTRANGE).any
      (fun info => info.m_regAddress < ABCStarRegister.TrimDAC0) = true := by decide +kernel
  rcases Option.any_eq_true _ _ |>.mp (hall abc.version_1) with ⟨info, hlookup, hlow⟩
  have hlow' : info.m_regAddress < ABCStarRegister.TrimDAC0 := of_decide_eq_true hlow
  have hlo : ABCStarRegister.TrimLo (c / 8) ≠ info.m_regAddress := by
    unfold ABCStarRegister.TrimLo
    omega
  have hhi : ABCStarRegister.TrimHi (c / 32) ≠ info.m_regAddress := by
    unfold ABCStarRegister.TrimHi
    unfold ABCStarRegister.TrimDAC0 at hlow'
    unfold ABCStarRegister.TrimDAC32
    omega
  rw [AbcCfg.getTrimDACRaw_eq, AbcCfg.getTrimDACRaw_eq, abc.value_setSubRegister hlookup value hlo,
    abc.value_setSubRegister hlookup value hhi]

/-- Each trim is the old one or one that was returned and is not negative. -/
def WritesReturned (iChip : Nat) (mapOfTrims : List (Nat × Int)) : Prop :=
  ∀ cfg cfg' range, writeTrimsToChipConfig cfg iChip range mapOfTrims = .ok cfg' →
    ∀ ic abc abc', cfg.inputChannelForHistoChip iChip = some ic → cfg.abcAt ic = some abc →
      cfg'.abcAt ic = some abc' → ∀ c, c < StripsPerABC →
        abc'.getTrimDACRaw c = abc.getTrimDACRaw c ∨
          ∃ e ∈ mapOfTrims, 0 ≤ e.2 ∧ (abc'.getTrimDACRaw c : Int) = e.2

theorem writesReturned (iChip : Nat) (mapOfTrims : List (Nat × Int)) :
    WritesReturned iChip mapOfTrims := by
  intro cfg cfg' range hok ic abc abc' hic hat hat' c hc
  unfold writeTrimsToChipConfig StarCfg.abcForHistoChip StarCfg.abcForInputChannel at hok
  rw [hic] at hok
  dsimp only at hok
  rw [hat] at hok
  dsimp only [Except.map] at hok
  cases hthrown : (abc.setSubRegister .BTRANGE (UInt32.ofInt range)).thrown with
  | some failure =>
      rw [hthrown] at hok
      cases hok
  | none =>
      rcases writeTrims_ok (abc.setSubRegister .BTRANGE (UInt32.ofInt range)).state mapOfTrims with
        ⟨abc₁, hloop, htrims⟩
      rw [hthrown] at hok
      dsimp only at hok
      rw [hloop] at hok
      obtain rfl := Except.ok.inj hok
      rw [cfg.abcAt_replaceABC_self hat] at hat'
      obtain rfl := Option.some_inj.mp hat'
      rw [← getTrimDACRaw_setRange abc (UInt32.ofInt range) c]
      exact htrims c hc

end Registers

/-! ## Own channels -/

section OwnChannels

variable (thresholds : ThresholdMap) (trimRange : Nat) (target : ℚ) (iChip : Nat)

/-- What is counted, returned and written for a chip comes from its own channels, and the DACs are
the right ones. -/
structure OwnTrims : Prop where
  own : ∀ e ∈ (getChannelMultReachingTarget thresholds trimRange target iChip).2,
    e.1 / StripsPerABC = iChip
  counted : (getChannelMultReachingTarget thresholds trimRange target iChip).1 =
    ((getChannelMultReachingTarget thresholds trimRange target iChip).2.filter
      fun e => decide (0 ≤ e.2)).length
  right : ∀ e ∈ (getChannelMultReachingTarget thresholds trimRange target iChip).2,
    ∃ scan, (e.1, scan) ∈ thresholds.channels ∧
      Right target (scanned trimRange scan.points.reverse) e.2
  written : ∀ cfg range, writeTrimsToChipConfig cfg iChip range
      (getChannelMultReachingTarget thresholds trimRange target iChip).2 =
    writeTrimsToChipConfig cfg iChip range
      (getChannelMultReachingTarget (thresholds.ofChip iChip) trimRange target iChip).2
  nonnegative : WritesReturned iChip
    (getChannelMultReachingTarget thresholds trimRange target iChip).2

/-- No other chip has a channel that is listed, and the walk of each listed channel ends with the
right point. -/
structure Alone : Prop where
  alone : ∀ vals ∈ thresholds.channels, Listed target (scanned trimRange vals.2.points.reverse) →
    vals.1 / StripsPerABC = iChip
  settles : ∀ vals ∈ thresholds.channels, Listed target (scanned trimRange vals.2.points.reverse) →
    ∀ b l, scanned trimRange vals.2.points.reverse = b :: l → Settles target b l

variable {thresholds trimRange target iChip}

theorem entries_ofChip (h : ∀ vals ∈ thresholds.channels,
    Listed target (scanned trimRange vals.2.points.reverse) → vals.1 / StripsPerABC = iChip) :
    (thresholds.ofChip iChip).channels.filterMap (entryOf trimRange target) =
      thresholds.channels.filterMap (entryOf trimRange target) := by
  unfold ThresholdMap.ofChip
  dsimp only
  rw [List.filterMap_filter]
  apply List.filterMap_congr
  intro vals hvals
  by_cases hown : vals.1 / StripsPerABC = iChip
  · rw [if_pos (beq_iff_eq.mpr hown)]
  · rw [if_neg (fun heq => hown (beq_iff_eq.mp heq))]
    have hnot : ¬Listed target (pointsOf trimRange vals) := fun hlisted => hown (h vals hvals hlisted)
    rw [listed_iff, not_not] at hnot
    exact (if_pos hnot).symm

theorem right_of_settles {vals : Nat × TrimScan} {b : Nat × ℚ} {l : List (Nat × ℚ)}
    (hpoints : pointsOf trimRange vals = b :: l) :
    Right target (pointsOf trimRange vals) (bestOf target (pointsOf trimRange vals)) ↔
      Settles target b l := by
  have hdesc : Descending (pointsOf trimRange vals) := descending_scanned trimRange vals.2
  rw [hpoints] at hdesc ⊢
  exact right_iff target hdesc

theorem scan_unique {channel : Nat} {scan scan' : TrimScan}
    (h : (channel, scan) ∈ thresholds.channels) (h' : (channel, scan') ∈ thresholds.channels) :
    scan = scan' := by
  have hnodup : (thresholds.channels.map Prod.fst).Nodup := thresholds.sorted.imp Nat.ne_of_lt
  exact congrArg Prod.snd (List.inj_on_of_nodup_map hnodup h h' rfl)

/-- The trims of a chip are its own and the right ones exactly if no other chip has thresholds of
the range, and each walk ends with the right point. -/
theorem ownTrims_iff (thresholds : ThresholdMap) (trimRange : Nat) (target : ℚ) {iChip : Nat}
    (hchip : iChip < MaxABCsPerHCC) :
    OwnTrims thresholds trimRange target iChip ↔ Alone thresholds trimRange target iChip := by
  have hentries := congrArg Prod.snd (getChannelMult_eq thresholds trimRange target iChip hchip)
  have hmem : ∀ e, e ∈ (getChannelMultReachingTarget thresholds trimRange target iChip).2 ↔
      ∃ vals ∈ thresholds.channels, Listed target (pointsOf trimRange vals) ∧
        e = (vals.1, bestOf target (pointsOf trimRange vals)) := by
    intro e
    rw [hentries]
    exact mem_entries thresholds trimRange target
  apply Iff.intro
  · intro hown
    refine ⟨?_, ?_⟩
    · intro vals hvals hlisted
      exact hown.own _ ((hmem _).mpr ⟨vals, hvals, hlisted, rfl⟩)
    · intro vals hvals hlisted b l hpoints
      rcases hown.right _ ((hmem _).mpr ⟨vals, hvals, hlisted, rfl⟩) with ⟨scan, hscan, hright⟩
      have hsame : scan = vals.2 := scan_unique hscan hvals
      rw [hsame] at hright
      exact (right_of_settles hpoints).mp hright
  · intro halone
    refine ⟨?_, ?_, ?_, ?_, writesReturned iChip _⟩
    · intro e he
      rcases (hmem e).mp he with ⟨vals, hvals, hlisted, rfl⟩
      exact halone.alone vals hvals hlisted
    · rw [getChannelMult_eq thresholds trimRange target iChip hchip]
    · intro e he
      rcases (hmem e).mp he with ⟨vals, hvals, hlisted, rfl⟩
      rcases hlisted with ⟨b, l, hpoints, hnot⟩
      exact ⟨vals.2, hvals, (right_of_settles hpoints).mpr
        (halone.settles vals hvals ⟨b, l, hpoints, hnot⟩ b l hpoints)⟩
    · intro cfg range
      have hown := congrArg Prod.snd
        (getChannelMult_eq (thresholds.ofChip iChip) trimRange target iChip hchip)
      rw [hentries, hown]
      exact congrArg _ (entries_ofChip halone.alone).symm

end OwnChannels

/-- The first channels of two chips. The target of 100 is crossed for both. -/
def twoChips : ThresholdMap where
  channels := [
    (0, ⟨[(⟨0, 4⟩, 92), (⟨0, 5⟩, 101)], by simp [TrimRangeTrimDac.lt]⟩),
    (256, ⟨[(⟨0, 4⟩, 99), (⟨0, 5⟩, 103)], by simp [TrimRangeTrimDac.lt]⟩)]
  sorted := by simp

/-- The first chip gets the DAC of the second one. -/
theorem twoChips_mixed :
    getChannelMultReachingTarget twoChips 0 100 0 = (2, [(0, 5), (256, 4)]) ∧
      ¬OwnTrims twoChips 0 100 0 := by
  have hresult : getChannelMultReachingTarget twoChips 0 100 0 = (2, [(0, 5), (256, 4)]) := by
    decide +kernel
  refine ⟨hresult, ?_⟩
  intro h
  have hown := h.own (256, 4) (by rw [hresult]; simp)
  cases hown

theorem ownTrims_secondChip :
    OwnTrims twoChips 0 100 1 ↔ Alone twoChips 0 100 1 :=
  ownTrims_iff twoChips 0 100 (by decide)

end StarTrimDacAnalysis

end Yarr.Star
