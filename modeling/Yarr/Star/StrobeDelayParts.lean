import Yarr.Star.StrobeDelayPulse

/-!
# What the fits of the edges get

The split is right when the plateau, nine tenths of the highest occupancy, is
reached between the first and the last point, and every occupancy stands in its
own bin of the pulse.
-/

namespace Yarr.Star

open LastMatch Scan

theorem slice_eq_some {α : Type} {xs ys : List α} {first last : Nat} :
    slice xs first last = some ys ↔
      first ≤ last ∧ last ≤ xs.length ∧ (xs.take last).drop first = ys := by
  unfold slice
  split
  · rename_i h
    simp [h]
  · rename_i h
    simp only [reduceCtorEq, false_iff]
    rintro ⟨hfirst, hlast, _⟩
    exact h ⟨hfirst, hlast⟩

theorem take_zip {α β : Type} (xs : List α) (ys : List β) (n : Nat) :
    (xs.zip ys).take n = (xs.take n).zip (ys.take n) := List.take_zipWith

theorem drop_zip {α β : Type} (xs : List α) (ys : List β) (n : Nat) :
    (xs.zip ys).drop n = (xs.drop n).zip (ys.drop n) := List.drop_zipWith

/-- The points of both fits. -/
def PulseParts.pairs (parts : PulseParts) : List (UInt32 × ℚ) :=
  parts.strobeDelayVecLeft.zip parts.occVecLeft ++ parts.strobeDelayVecRight.zip parts.occVecRight

namespace StrobeDelayLoop

variable (a : StrobeDelayLoop)

/-- An occupancy above a part of the highest one. -/
def Above (occ : Nat → ℚ) (fraction : ℚ) (k : Nat) : Prop :=
  threshold (maxVal ((List.range a.points).map occ)) fraction < occ k

/-- A fit reads as many occupancies as it has delays. Each delay comes with its occupancy, and no
point is left out. -/
structure Served (occ : Nat → ℚ) (parts : PulseParts) : Prop where
  left : parts.strobeDelayVecLeft.length ≤ parts.occVecLeft.length
  right : parts.strobeDelayVecRight.length ≤ parts.occVecRight.length
  paired : ∀ p ∈ parts.pairs, ∃ k < a.points, p = (a.delay k, occ k)
  complete : ∀ k < a.points, (a.delay k, occ k) ∈ parts.pairs

/-- A bin above the threshold is found from either side, whenever there is one. -/
def Finds (h_in : Histo1d) (fraction : ℚ) : Prop :=
  (∃ i < a.m_strobeDelayBins.toNat,
    threshold (maxVal h_in.data) fraction < h_in.getBin i) →
  ∀ goesAbove, a.findBinPassingThreshold h_in fraction goesAbove (!goesAbove) <
      a.m_strobeDelayBins.toNat ∧
    threshold (maxVal h_in.data) fraction <
      h_in.getBin (a.findBinPassingThreshold h_in fraction goesAbove (!goesAbove))

/-- The scan ends with the pulse, its split and what is looked for in it. -/
def WellSplit (occ : Nat → ℚ) : Prop :=
  ∃ fuel delays s h_in parts, a.m_strobeDelayVec fuel a.m_strobeDelayMin = some delays ∧
    a.collect occ a.points = some s ∧ s.fitted = [h_in] ∧
    a.splitStrobeDelayRange delays h_in = some parts ∧ a.Served occ parts ∧
    a.Finds h_in plateauFraction ∧ a.Finds h_in edgeFraction

/-! ## Without a wrap -/

variable {a}

theorem vec_unique {fuel fuel' : Nat} {i : UInt32} {vec vec' : List UInt32}
    (h : a.m_strobeDelayVec fuel i = some vec) (h' : a.m_strobeDelayVec fuel' i = some vec') :
    vec = vec' := by
  induction fuel generalizing fuel' i vec vec' with
  | zero => cases h
  | succ fuel ih =>
      cases fuel' with
      | zero => cases h'
      | succ fuel' =>
          unfold m_strobeDelayVec at h h'
          split at h
          · rename_i hle
            rw [if_pos hle] at h'
            rcases Option.map_eq_some_iff.mp h with ⟨tail, htail, rfl⟩
            rcases Option.map_eq_some_iff.mp h' with ⟨tail', htail', rfl⟩
            rw [ih htail htail']
          · rename_i hle
            rw [if_neg hle] at h'
            exact Option.some_inj.mp (h.symm.trans h')

/-- Every pulse has as many bins as the loop. -/
structure SameBins (a : StrobeDelayLoop) (s : PulseState) : Prop where
  histo : ∀ h ∈ s.histo, h.bins = a.m_strobeDelayBins.toNat
  fitted : ∀ h ∈ s.fitted, h.bins = a.m_strobeDelayBins.toNat

theorem SameBins.processHistogram {s s' : PulseState} (hs : a.SameBins s) {strobeDelay : UInt32}
    {thisBin : ℚ} (h : a.processHistogram s strobeDelay thisBin = some s') : a.SameBins s' := by
  unfold StrobeDelayLoop.processHistogram at h
  dsimp only at h
  split at h
  · cases h
  · rcases Option.bind_eq_some_iff.mp h with ⟨histo, hfill, h⟩
    have hbins : histo.bins = a.m_strobeDelayBins.toNat := by
      rw [Histo1d.bins_fill hfill]
      cases hhisto : s.histo with
      | none => rfl
      | some histo' => exact hs.histo histo' hhisto
    split at h
    · obtain rfl := Option.some_inj.mp h
      refine ⟨fun _ hmem => (Option.not_mem_none _ hmem).elim, fun h hmem => ?_⟩
      rcases List.mem_append.mp hmem with hmem | hmem
      · exact hs.fitted h hmem
      · rwa [List.mem_singleton.mp hmem]
    · obtain rfl := Option.some_inj.mp h
      refine ⟨fun h hmem => ?_, hs.fitted⟩
      obtain rfl := Option.some_inj.mp hmem
      exact hbins

theorem sameBins_collect (occ : Nat → ℚ) (n : Nat) {s : PulseState}
    (h : a.collect occ n = some s) : a.SameBins s := by
  induction n generalizing s with
  | zero =>
      obtain rfl := Option.some_inj.mp h
      exact ⟨fun _ hmem => (Option.not_mem_none _ hmem).elim,
        fun _ hmem => (List.not_mem_nil hmem).elim⟩
  | succ n ih =>
      unfold collect at h ih
      rw [List.range_succ, List.foldlM_append] at h
      rcases Option.bind_eq_some_iff.mp h with ⟨s', hs', hlast⟩
      rcases Option.bind_eq_some_iff.mp hlast with ⟨s'', hstep, hlast⟩
      obtain rfl := Option.some_inj.mp hlast
      exact (ih hs').processHistogram hstep

theorem split_eq_some {delays : List UInt32} {h_in : Histo1d} {parts : PulseParts} :
    a.splitStrobeDelayRange delays h_in = some parts ↔
      slice delays 0 (a.plateauCenterBin h_in + 2) = some parts.strobeDelayVecLeft ∧
      slice delays (a.plateauCenterBin h_in) delays.length = some parts.strobeDelayVecRight ∧
      slice h_in.data 0 (a.plateauCenterBin h_in + 2) = some parts.occVecLeft ∧
      slice h_in.data (a.plateauCenterBin h_in) h_in.bins = some parts.occVecRight := by
  unfold splitStrobeDelayRange
  apply Iff.intro
  · intro h
    rcases Option.bind_eq_some_iff.mp h with ⟨left, hleft, h⟩
    rcases Option.bind_eq_some_iff.mp h with ⟨right, hright, h⟩
    rcases Option.bind_eq_some_iff.mp h with ⟨occLeft, hoccLeft, h⟩
    rcases Option.bind_eq_some_iff.mp h with ⟨occRight, hoccRight, h⟩
    obtain rfl := Option.some_inj.mp h
    exact ⟨hleft, hright, hoccLeft, hoccRight⟩
  · rintro ⟨hleft, hright, hoccLeft, hoccRight⟩
    dsimp only
    rw [hleft, hright, hoccLeft, hoccRight]
    rfl

/-- A fit that reads no element behind the last one has seen no wrap. -/
theorem WellSplit.noWrap {occ : Nat → ℚ} (h : a.WellSplit occ) : a.NoWrap := by
  rcases h with ⟨fuel, delays, s, h_in, parts, hdelays, hcollect, hfitted, hsplit, hserved, _, _⟩
  obtain ⟨hleft, hright, hoccLeft, hoccRight⟩ := split_eq_some.mp hsplit
  obtain ⟨_, hleft, _⟩ := slice_eq_some.mp hleft
  obtain ⟨hcenter, _, hright⟩ := slice_eq_some.mp hright
  obtain ⟨hcenter', hbins', hoccRight⟩ := slice_eq_some.mp hoccRight
  have hbins : h_in.bins = a.m_strobeDelayBins.toNat :=
    (sameBins_collect occ _ hcollect).fitted h_in (by rw [hfitted]; exact List.mem_singleton_self _)
  have hlength : delays.length ≤ a.m_strobeDelayBins.toNat := by
    have hle := hserved.right
    rw [← hright, ← hoccRight, List.take_length, List.length_drop, List.length_drop,
      List.length_take] at hle
    omega
  apply noWrap_of_length hdelays ?_ hlength
  by_contra hmin
  cases fuel with
  | zero => cases hdelays
  | succ fuel =>
      unfold m_strobeDelayVec at hdelays
      rw [if_neg hmin] at hdelays
      obtain rfl := Option.some_inj.mp hdelays
      exact absurd hleft (Nat.not_succ_le_zero _)

/-! ## The pulse in its order -/

/-- A pulse with the bins of the loop, each with the occupancy of its own point. -/
structure InOrder (a : StrobeDelayLoop) (occ : Nat → ℚ) (h : Histo1d) : Prop where
  noWrap : a.NoWrap
  bins : h.bins = a.points
  data : h.data = (List.range a.points).map occ

namespace InOrder

variable {occ : Nat → ℚ} {h : Histo1d}

theorem getBin_eq (hin : a.InOrder occ h) {k : Nat} (hk : k < a.points) : h.getBin k = occ k := by
  unfold Histo1d.getBin
  rw [hin.bins, if_pos hk, hin.data]
  simp [hk]

theorem above_iff (hin : a.InOrder occ h) (fraction : ℚ) {k : Nat} (hk : k < a.points) :
    threshold (maxVal h.data) fraction < h.getBin k ↔ a.Above occ fraction k := by
  rw [hin.getBin_eq hk, hin.data]
  rfl

theorem goesBelow (hin : a.InOrder occ h) (fraction : ℚ) {k : Nat} (hk : k < a.points)
    (habove : a.Above occ fraction k) :
    a.findBinPassingThreshold h fraction false true < a.points ∧
      a.Above occ fraction (a.findBinPassingThreshold h fraction false true) ∧
      ∀ i < a.points, a.Above occ fraction i →
        i ≤ a.findBinPassingThreshold h fraction false true := by
  have hsome : ∃ i ∈ List.range a.m_strobeDelayBins.toNat,
      threshold (maxVal h.data) fraction < h.getBin i := by
    rw [hin.noWrap.bins_toNat]
    exact ⟨k, List.mem_range.mpr hk, (hin.above_iff fraction hk).mpr habove⟩
  obtain ⟨hmem, hpass, hlast⟩ := lastMatch_spec (R := fun i j => i ≤ j) le_refl
    (a.m_strobeDelayBins.toNat - 1) (List.pairwise_le_range) hsome
  have hlt : a.findBinPassingThreshold h fraction false true < a.points :=
    lt_of_lt_of_eq (List.mem_range.mp hmem) hin.noWrap.bins_toNat
  refine ⟨hlt, (hin.above_iff fraction hlt).mp hpass, ?_⟩
  intro i hi hiabove
  apply hlast i _ ((hin.above_iff fraction hi).mpr hiabove)
  rw [hin.noWrap.bins_toNat]
  exact List.mem_range.mpr hi

theorem goesBelow_none (hin : a.InOrder occ h) (fraction : ℚ)
    (hnone : ∀ k < a.points, ¬a.Above occ fraction k) :
    a.findBinPassingThreshold h fraction false true = a.points - 1 := by
  have hbins := hin.noWrap.bins_toNat
  have hlast : a.findBinPassingThreshold h fraction false true = a.m_strobeDelayBins.toNat - 1 := by
    apply lastMatch_of_none
    intro i hi hpass
    rw [hbins] at hi
    have hi' := List.mem_range.mp hi
    exact hnone i hi' ((hin.above_iff fraction hi').mp hpass)
  rw [hlast, hbins]

theorem mem_down (hin : a.InOrder occ h) {i : Nat} :
    i ∈ (List.range' 1 (a.m_strobeDelayBins.toNat - 1)).reverse ↔ 0 < i ∧ i < a.points := by
  rw [hin.noWrap.bins_toNat, List.mem_reverse, List.mem_range'_1]
  omega

/-- The first bin above the threshold, without the very first. -/
theorem goesAbove (hin : a.InOrder occ h) (fraction : ℚ) {k : Nat} (hpos : 0 < k)
    (hk : k < a.points) (habove : a.Above occ fraction k) :
    0 < a.findBinPassingThreshold h fraction true false ∧
      a.findBinPassingThreshold h fraction true false < a.points ∧
      a.Above occ fraction (a.findBinPassingThreshold h fraction true false) ∧
      ∀ i < a.points, 0 < i → a.Above occ fraction i →
        a.findBinPassingThreshold h fraction true false ≤ i := by
  have hsome : ∃ i ∈ (List.range' 1 (a.m_strobeDelayBins.toNat - 1)).reverse,
      threshold (maxVal h.data) fraction < h.getBin i :=
    ⟨k, hin.mem_down.mpr ⟨hpos, hk⟩, (hin.above_iff fraction hk).mpr habove⟩
  have hsorted : (List.range' 1 (a.m_strobeDelayBins.toNat - 1)).reverse.Pairwise
      fun i j => j ≤ i := by
    rw [List.pairwise_reverse]
    exact List.pairwise_le_range'
  obtain ⟨hmem, hpass, hlast⟩ :=
    lastMatch_spec (R := fun i j => j ≤ i) le_refl 1 hsorted hsome
  obtain ⟨hpos', hlt⟩ := hin.mem_down.mp hmem
  refine ⟨hpos', hlt, (hin.above_iff fraction hlt).mp hpass, ?_⟩
  intro i hi hipos hiabove
  exact hlast i (hin.mem_down.mpr ⟨hipos, hi⟩) ((hin.above_iff fraction hi).mpr hiabove)

theorem goesAbove_none (hin : a.InOrder occ h) (fraction : ℚ)
    (hnone : ∀ k < a.points, 0 < k → ¬a.Above occ fraction k) :
    a.findBinPassingThreshold h fraction true false = 1 := by
  apply lastMatch_of_none
  intro i hi hpass
  obtain ⟨hpos, hi'⟩ := hin.mem_down.mp hi
  exact hnone i hi' hpos ((hin.above_iff fraction hi').mp hpass)

theorem finds_iff (hin : a.InOrder occ h) (fraction : ℚ) :
    a.Finds h fraction ↔
      (∃ k < a.points, 0 < k ∧ a.Above occ fraction k) ∨ ¬a.Above occ fraction 0 := by
  unfold Finds
  rw [hin.noWrap.bins_toNat]
  apply Iff.intro
  · intro hfinds
    by_cases hsome : ∃ k < a.points, 0 < k ∧ a.Above occ fraction k
    · exact Or.inl hsome
    · right
      intro hzero
      obtain ⟨hlt, hpass⟩ :=
        hfinds ⟨0, points_pos, (hin.above_iff fraction points_pos).mpr hzero⟩ true
      have hone : a.findBinPassingThreshold h fraction true (!true) = 1 :=
        hin.goesAbove_none fraction fun k hk hpos habove => hsome ⟨k, hk, hpos, habove⟩
      rw [hone] at hlt hpass
      exact hsome ⟨1, hlt, Nat.one_pos, (hin.above_iff fraction hlt).mp hpass⟩
  · rintro hcond ⟨i, hi, hpass⟩ goesAbove
    have habove := (hin.above_iff fraction hi).mp hpass
    cases goesAbove with
    | false =>
        obtain ⟨hlt, hfound, _⟩ := hin.goesBelow fraction hi habove
        exact ⟨hlt, (hin.above_iff fraction hlt).mpr hfound⟩
    | true =>
        have hsome : ∃ k < a.points, 0 < k ∧ a.Above occ fraction k := by
          rcases hcond with hsome | hzero
          · exact hsome
          · refine ⟨i, hi, Nat.pos_of_ne_zero ?_, habove⟩
            rintro rfl
            exact hzero habove
        rcases hsome with ⟨k, hk, hpos, hkabove⟩
        obtain ⟨_, hlt, hfound, _⟩ := hin.goesAbove fraction hpos hk hkabove
        exact ⟨hlt, (hin.above_iff fraction hlt).mpr hfound⟩

theorem center_iff (hin : a.InOrder occ h) :
    (a.plateauCenterBin h + 2 ≤ a.points ∧ a.Finds h plateauFraction) ↔
      (∃ k, 0 < k ∧ k + 1 < a.points ∧ a.Above occ plateauFraction k) ∨
      (2 < a.points ∧ ∀ k < a.points, ¬a.Above occ plateauFraction k) := by
  rw [hin.finds_iff]
  unfold plateauCenterBin
  by_cases hsome : ∃ k < a.points, 0 < k ∧ a.Above occ plateauFraction k
  · rcases hsome with ⟨k, hk, hpos, habove⟩
    obtain ⟨hfirstPos, hfirst, hfirstAbove, hfirstLe⟩ :=
      hin.goesAbove plateauFraction hpos hk habove
    obtain ⟨hlast, hlastAbove, hlastLe⟩ := hin.goesBelow plateauFraction hk habove
    apply Iff.intro
    · rintro ⟨hcenter, _⟩
      left
      refine ⟨_, hfirstPos, ?_, hfirstAbove⟩
      -- the first bin is not the last one, or the middle would be the last one too
      have hle := hlastLe _ hfirst hfirstAbove
      omega
    · rintro (⟨i, hipos, hi, hiabove⟩ | ⟨_, hnone⟩)
      · have hle := hfirstLe i (by omega) hipos hiabove
        exact ⟨by omega, Or.inl ⟨k, hk, hpos, habove⟩⟩
      · exact absurd habove (hnone k hk)
  · have hnone : ∀ k < a.points, 0 < k → ¬a.Above occ plateauFraction k :=
      fun k hk hpos habove => hsome ⟨k, hk, hpos, habove⟩
    rw [hin.goesAbove_none plateauFraction hnone]
    apply Iff.intro
    · rintro ⟨hcenter, hfinds⟩
      have hzero := hfinds.resolve_left hsome
      have hall : ∀ k < a.points, ¬a.Above occ plateauFraction k := by
        intro k hk
        rcases Nat.eq_zero_or_pos k with rfl | hpos
        · exact hzero
        · exact hnone k hk hpos
      rw [hin.goesBelow_none plateauFraction hall] at hcenter
      exact Or.inr ⟨by omega, hall⟩
    · rintro (⟨i, hipos, hi, hiabove⟩ | ⟨hmore, hall⟩)
      · exact absurd hiabove (hnone i (by omega) hipos)
      · rw [hin.goesBelow_none plateauFraction hall]
        exact ⟨by omega, Or.inr (hall 0 points_pos)⟩

/-- The parts that a pulse in its order is split into. -/
def parts (a : StrobeDelayLoop) (occ : Nat → ℚ) (center : Nat) : PulseParts where
  strobeDelayVecLeft := ((List.range a.points).map a.delay).take (center + 2)
  strobeDelayVecRight := ((List.range a.points).map a.delay).drop center
  occVecLeft := ((List.range a.points).map occ).take (center + 2)
  occVecRight := ((List.range a.points).map occ).drop center

theorem split_iff_center (hin : a.InOrder occ h) {parts' : PulseParts} :
    a.splitStrobeDelayRange ((List.range a.points).map a.delay) h = some parts' ↔
      a.plateauCenterBin h + 2 ≤ a.points ∧ parts' = parts a occ (a.plateauCenterBin h) := by
  have htake : ∀ f : Nat → ℚ, ((List.range a.points).map f).take a.points =
      (List.range a.points).map f := fun f =>
    List.take_of_length_le (by rw [List.length_map, List.length_range])
  rw [split_eq_some, slice_eq_some, slice_eq_some, slice_eq_some, slice_eq_some, hin.data,
    hin.bins, htake, List.take_length]
  simp only [List.length_map, List.length_range, List.drop_zero, Nat.zero_le, true_and, le_refl]
  apply Iff.intro
  · rintro ⟨⟨hcenter, hleft⟩, ⟨_, hright⟩, ⟨_, hoccLeft⟩, _, hoccRight⟩
    refine ⟨hcenter, ?_⟩
    cases parts'
    unfold parts
    rw [hleft, hright, hoccLeft, hoccRight]
  · rintro ⟨hcenter, rfl⟩
    have hle : a.plateauCenterBin h ≤ a.points := by omega
    exact ⟨⟨hcenter, rfl⟩, ⟨hle, rfl⟩, ⟨hcenter, rfl⟩, hle, rfl⟩

theorem pairs_parts (a : StrobeDelayLoop) (occ : Nat → ℚ) (center : Nat) :
    (parts a occ center).pairs =
      ((List.range a.points).map fun k => (a.delay k, occ k)).take (center + 2) ++
        ((List.range a.points).map fun k => (a.delay k, occ k)).drop center := by
  have hzip : ((List.range a.points).map a.delay).zip ((List.range a.points).map occ) =
      (List.range a.points).map fun k => (a.delay k, occ k) :=
    List.zip_map'
  unfold PulseParts.pairs parts
  dsimp only
  rw [← take_zip, ← drop_zip, hzip]

theorem served_parts (a : StrobeDelayLoop) (occ : Nat → ℚ) (center : Nat) :
    a.Served occ (parts a occ center) := by
  refine ⟨?_, ?_, ?_, ?_⟩
  · simp [parts]
  · simp [parts]
  · intro p hp
    rw [pairs_parts] at hp
    have hmem : p ∈ (List.range a.points).map fun k => (a.delay k, occ k) := by
      rcases List.mem_append.mp hp with hp | hp
      · exact List.mem_of_mem_take hp
      · exact List.mem_of_mem_drop hp
    rcases List.mem_map.mp hmem with ⟨k, hk, rfl⟩
    exact ⟨k, List.mem_range.mp hk, rfl⟩
  · intro k hk
    have hmem : (a.delay k, occ k) ∈ (List.range a.points).map fun k => (a.delay k, occ k) :=
      List.mem_map.mpr ⟨k, List.mem_range.mpr hk, rfl⟩
    rw [pairs_parts]
    rw [← List.take_append_drop center ((List.range a.points).map _)] at hmem
    rcases List.mem_append.mp hmem with hmem | hmem
    · apply List.mem_append_left
      rw [← Nat.min_eq_left (Nat.le_add_right center 2), ← List.take_take] at hmem
      exact List.mem_of_mem_take hmem
    · exact List.mem_append_right _ hmem

end InOrder

/-! ## The pulse of the scan -/

theorem NoWrap.inOrder (hwrap : a.NoWrap) {occ : Nat → ℚ}
    (hown : ∀ k < a.points, a.OwnBin k ∨ occ k = 0) :
    a.InOrder occ (a.pulseAt occ a.points) :=
  ⟨hwrap, hwrap.bins_toNat, (data_eq_iff occ).mpr hown⟩

theorem Served.own {occ : Nat → ℚ} (hwrap : a.NoWrap) {center : Nat} {parts : PulseParts}
    {data : List ℚ} (hserved : a.Served occ parts)
    (hlength : data.length = a.points)
    (hleft : ((List.range a.points).map a.delay).take (center + 2) = parts.strobeDelayVecLeft)
    (hright : ((List.range a.points).map a.delay).drop center = parts.strobeDelayVecRight)
    (hoccLeft : data.take (center + 2) = parts.occVecLeft)
    (hoccRight : data.drop center = parts.occVecRight) : data = (List.range a.points).map occ := by
  have hpairs : parts.pairs = (((List.range a.points).map a.delay).zip data).take (center + 2) ++
      (((List.range a.points).map a.delay).zip data).drop center := by
    unfold PulseParts.pairs
    rw [← hleft, ← hright, ← hoccLeft, ← hoccRight, take_zip, drop_zip]
  apply List.ext_getElem
  · rw [hlength, List.length_map, List.length_range]
  · intro i hi hi'
    have hi : i < a.points := by rwa [hlength] at hi
    have hmem : (a.delay i, data[i]) ∈ ((List.range a.points).map a.delay).zip data := by
      apply List.mem_iff_getElem.mpr
      refine ⟨i, by simp [hlength, hi], by simp⟩
    have hin : (a.delay i, data[i]) ∈ parts.pairs := by
      rw [hpairs]
      rw [← List.take_append_drop center (List.zip _ data)] at hmem
      rcases List.mem_append.mp hmem with hmem | hmem
      · apply List.mem_append_left
        rw [← Nat.min_eq_left (Nat.le_add_right center 2), ← List.take_take] at hmem
        exact List.mem_of_mem_take hmem
      · exact List.mem_append_right _ hmem
    rcases hserved.paired _ hin with ⟨k, hk, heq⟩
    obtain ⟨hdelay, hocc⟩ := Prod.mk.inj heq
    obtain rfl := hwrap.delay_inj hi hk hdelay
    rw [hocc]
    simp

theorem WellSplit.pulse {occ : Nat → ℚ} (hwell : a.WellSplit occ) :
    a.InOrder occ (a.pulseAt occ a.points) ∧ (∀ k < a.points, a.OwnBin k ∨ occ k = 0) ∧
      a.plateauCenterBin (a.pulseAt occ a.points) + 2 ≤ a.points ∧
      a.Finds (a.pulseAt occ a.points) plateauFraction ∧
      a.Finds (a.pulseAt occ a.points) edgeFraction := by
  have hwrap := hwell.noWrap
  rcases hwell with
    ⟨fuel, delays, s, h_in, parts, hdelays, hcollect, hfitted, hsplit, hserved, hplateau, hedge⟩
  obtain rfl := vec_unique hdelays hwrap.vec_eq
  obtain rfl := Option.some_inj.mp (hcollect.symm.trans (hwrap.collect_points occ))
  obtain rfl : a.pulseAt occ a.points = h_in := List.singleton_inj.mp hfitted
  obtain ⟨hleft, hright, hoccLeft, hoccRight⟩ := split_eq_some.mp hsplit
  obtain ⟨_, _, hleft⟩ := slice_eq_some.mp hleft
  obtain ⟨_, _, hright⟩ := slice_eq_some.mp hright
  obtain ⟨_, _, hoccLeft⟩ := slice_eq_some.mp hoccLeft
  obtain ⟨_, _, hoccRight⟩ := slice_eq_some.mp hoccRight
  have hlength : (a.pulseAt occ a.points).data.length = a.points :=
    ShiftedBins.length_filled _ _ _ _
  have hbins : (a.pulseAt occ a.points).bins = a.points := hwrap.bins_toNat
  rw [List.drop_zero] at hleft hoccLeft
  rw [List.take_length] at hright
  rw [hbins, List.take_of_length_le hlength.le] at hoccRight
  have hdata := hserved.own hwrap hlength hleft hright hoccLeft hoccRight
  have hin : a.InOrder occ (a.pulseAt occ a.points) := ⟨hwrap, hbins, hdata⟩
  obtain ⟨hcenter, _⟩ := hin.split_iff_center.mp hsplit
  exact ⟨hin, (data_eq_iff occ).mp hdata, hcenter, hplateau, hedge⟩

/-- The split is right exactly when the loop does not wrap, every occupancy stands in its own bin,
the plateau is reached inside or nowhere, and half of it not only at the first point. -/
theorem wellSplit_iff (a : StrobeDelayLoop) (occ : Nat → ℚ) :
    a.WellSplit occ ↔ a.NoWrap ∧ (∀ k < a.points, a.OwnBin k ∨ occ k = 0) ∧
      ((∃ k, 0 < k ∧ k + 1 < a.points ∧ a.Above occ plateauFraction k) ∨
        (2 < a.points ∧ ∀ k < a.points, ¬a.Above occ plateauFraction k)) ∧
      ((∃ k < a.points, 0 < k ∧ a.Above occ edgeFraction k) ∨ ¬a.Above occ edgeFraction 0) := by
  apply Iff.intro
  · intro hwell
    obtain ⟨hin, hown, hcenter, hplateau, hedge⟩ := hwell.pulse
    exact ⟨hin.noWrap, hown, hin.center_iff.mp ⟨hcenter, hplateau⟩, (hin.finds_iff _).mp hedge⟩
  · rintro ⟨hwrap, hown, hplateau, hedge⟩
    have hin := hwrap.inOrder hown
    obtain ⟨hcenter, hfinds⟩ := hin.center_iff.mpr hplateau
    exact ⟨_, _, _, _, _, hwrap.vec_eq, hwrap.collect_points occ, rfl,
      hin.split_iff_center.mpr ⟨hcenter, rfl⟩, InOrder.served_parts a occ _, hfinds,
      (hin.finds_iff _).mpr hedge⟩

/-- The delays 0, 4, 8 and 12. The bins reach up to 17, so the third and the last of the
occupancies share one. -/
def upToFifteen : StrobeDelayLoop := ⟨0, 15, 4, by decide⟩

theorem upToFifteen_not_wellSplit :
    2 ≤ upToFifteen.points ∧ ¬upToFifteen.WellSplit fun _ => 50 := by
  refine ⟨by decide, fun hwell => ?_⟩
  obtain ⟨_, hown, _⟩ := hwell.pulse
  rcases hown 3 (by decide) with h | h
  · exact absurd h (by decide)
  · norm_num at h

end StrobeDelayLoop

end Yarr.Star
