import Yarr.Scan.PixelMasks

/-!
# Masks of the occupancy and of the noise analysis

The occupancy analysis enters one for the pixels inside the thresholds and has the
others masked. The noise analysis looks at the hits for each trigger first and at
the hits themselves after that, and enters a value for noisy pixels only.
-/

namespace Yarr.Scan

/-! ## Sums of maps -/

/-- The hits of a bin; maps of another size are not added. -/
def summedHits (nCol nRow : Nat) (hs : List Histo2d) (n : Nat) : ℚ :=
  ((hs.filter fun h => h.size = nCol * nRow).map fun h => h.getBin n).sum

theorem summedHits_concat (nCol nRow : Nat) (hs : List Histo2d) (h : Histo2d) (n : Nat) :
    summedHits nCol nRow (hs ++ [h]) n =
      summedHits nCol nRow hs n + if h.size = nCol * nRow then h.getBin n else 0 := by
  unfold summedHits
  rw [List.filter_append, List.map_append, List.sum_append]
  by_cases hsize : h.size = nCol * nRow
  · simp [hsize]
  · simp [hsize]

/-- A map with these hits. -/
structure Shows (nCol nRow : Nat) (hs : List Histo2d) (h : Histo2d) : Prop where
  onMatrix : OnMatrix nCol nRow h
  bins : ∀ n, h.getBin n = summedHits nCol nRow hs n

variable {nCol nRow : Nat}

theorem shows_emptyMap : Shows nCol nRow [] (emptyMap nCol nRow) :=
  ⟨onMatrix_emptyMap, fun _ => Histo2d.getBin_new ..⟩

theorem Shows.add {hs : List Histo2d} {h : Histo2d} (hshows : Shows nCol nRow hs h)
    (other : Histo2d) : Shows nCol nRow (hs ++ [other]) (h.add other) where
  onMatrix := hshows.onMatrix.add other
  bins n := by
    rw [summedHits_concat]
    by_cases hsize : other.size = nCol * nRow
    · rw [Histo2d.getBin_add h (hshows.onMatrix.size.trans hsize.symm), hshows.bins,
        if_pos hsize]
    · have hsame : h.add other = h :=
        if_neg fun heq => hsize (heq.symm.trans hshows.onMatrix.size)
      rw [hsame, hshows.bins, if_neg hsize, add_zero]

/-! ## Occupancy -/

namespace OccupancyAnalysis

variable {scan : OccupancyScan}

/-- The states of a run, with the maps of each identifier since the last that was put out. -/
inductive Fed (scan : OccupancyScan) : OccupancyAnalysis → (UInt32 → List Histo2d) → Prop where
  | start : Fed scan (start scan) fun _ => []
  | other {a : OccupancyAnalysis} {fed : UInt32 → List Histo2d} {name : String} (stat : LoopStatus)
      (h : Histo2d) : Fed scan a fed → name ≠ "OccupancyMap" →
      Fed scan (a.processHistogram name stat h) fed
  | map {a : OccupancyAnalysis} {fed : UInt32 → List Histo2d} (stat : LoopStatus) (h : Histo2d) :
      Fed scan a fed →
      Fed scan (a.processHistogram "OccupancyMap" stat h)
        (Function.update fed (a.ident stat)
          (if a.innerCnt (a.ident stat) + 1 = a.n_count then []
            else fed (a.ident stat) ++ [h]))

/-- The maps under construction have the hits of what came in. -/
structure Kept (scan : OccupancyScan) (a : OccupancyAnalysis) (fed : UInt32 → List Histo2d) :
    Prop where
  scan_eq : a.toOccupancyScan = scan
  none : ∀ k, a.occMaps k = .none → fed k = []
  some : ∀ k occ, a.occMaps k = .some occ → Shows scan.nCol scan.nRow (fed k) occ.histo

/-- The map that one more histogram leads to. -/
def grown (a : OccupancyAnalysis) (stat : LoopStatus) (h : Histo2d) : NamedHisto2d :=
  let occ := (a.occMaps (a.ident stat)).getD
    ⟨OccupancyScan.nameOf "OccupancyMap" (a.outerValues stat), emptyMap a.nCol a.nRow⟩
  { occ with histo := occ.histo.add h }

theorem scan_processHistogram (a : OccupancyAnalysis) (name : String) (stat : LoopStatus)
    (h : Histo2d) :
    (a.processHistogram name stat h).toOccupancyScan = a.toOccupancyScan := by
  unfold OccupancyAnalysis.processHistogram
  dsimp only
  split
  · rfl
  · split
    · rfl
    · rfl

theorem occMaps_processHistogram (a : OccupancyAnalysis) (stat : LoopStatus) (h : Histo2d) :
    (a.processHistogram "OccupancyMap" stat h).occMaps =
      Function.update a.occMaps (a.ident stat)
        (if a.innerCnt (a.ident stat) + 1 = a.n_count then none else some (grown a stat h)) := by
  unfold OccupancyAnalysis.processHistogram
  rw [if_neg (not_not_intro rfl)]
  dsimp only
  split
  · rfl
  · rfl

theorem Kept.grown {a : OccupancyAnalysis} {fed : UInt32 → List Histo2d} (hkept : Kept scan a fed)
    (stat : LoopStatus) (h : Histo2d) :
    Shows scan.nCol scan.nRow (fed (a.ident stat) ++ [h]) (grown a stat h).histo := by
  have hscan := hkept.scan_eq
  unfold OccupancyAnalysis.grown
  cases hocc : a.occMaps (a.ident stat) with
  | none =>
      rw [hkept.none _ hocc]
      have hempty : Shows scan.nCol scan.nRow [] (emptyMap a.nCol a.nRow) := by
        rw [hscan]
        exact shows_emptyMap
      exact hempty.add h
  | some occ => exact (hkept.some _ occ hocc).add h

theorem kept_of_fed {a : OccupancyAnalysis} {fed : UInt32 → List Histo2d} (hfed : Fed scan a fed) :
    Kept scan a fed := by
  induction hfed with
  | start => exact ⟨rfl, fun _ _ => rfl, fun _ _ hocc => by cases hocc⟩
  | other stat h _ hname ih =>
      rw [processHistogram_other _ hname]
      exact ih
  | @map a fed stat h _ ih =>
      have hmaps := occMaps_processHistogram a stat h
      refine ⟨(scan_processHistogram a _ stat h).trans ih.scan_eq, ?_, ?_⟩
      · intro k hk
        rw [hmaps] at hk
        by_cases heq : k = a.ident stat
        · subst heq
          rw [Function.update_self] at hk ⊢
          split at hk
          · rename_i hfull
            exact if_pos hfull
          · cases hk
        · rw [Function.update_of_ne heq] at hk ⊢
          exact ih.none k hk
      · intro k occ hk
        rw [hmaps] at hk
        by_cases heq : k = a.ident stat
        · subst heq
          rw [Function.update_self] at hk ⊢
          split at hk
          · cases hk
          · rename_i hmore
            cases hk
            rw [if_neg hmore]
            exact ih.grown stat h
        · rw [Function.update_of_ne heq] at hk ⊢
          exact ih.some k occ hk

/-- The hits are outside the thresholds. -/
def Fails (scan : OccupancyScan) (hs : List Histo2d) (p : Nat × Nat) : Prop :=
  ¬(scan.LowThr ≤ summedHits scan.nCol scan.nRow hs (matrixBin scan.nCol p) ∧
    summedHits scan.nCol scan.nRow hs (matrixBin scan.nCol p) ≤ scan.HighThr)

/-- What one more map brings about. -/
structure PublishesRight (scan : OccupancyScan) (a : OccupancyAnalysis) (hs : List Histo2d)
    (stat : LoopStatus) (h : Histo2d) : Prop where
  full : a.innerCnt (a.ident stat) + 1 = a.n_count → ∃ r calls,
    (a.processHistogram "OccupancyMap" stat h).output = a.output ++ [r] ∧
    (a.processHistogram "OccupancyMap" stat h).cfgCalls =
      a.cfgCalls ++ calls.map (fun q => .maskPixel q.1 q.2) ∧
    MaskRight scan.nCol scan.nRow (Fails scan (hs ++ [h])) r.mask.histo ∧
    (scan.make_mask && scan.createMask →
      CallsRight scan.nCol scan.nRow (Fails scan (hs ++ [h])) calls) ∧
    (¬(scan.make_mask && scan.createMask) → calls = [])
  notFull : a.innerCnt (a.ident stat) + 1 ≠ a.n_count →
    (a.processHistogram "OccupancyMap" stat h).output = a.output ∧
    (a.processHistogram "OccupancyMap" stat h).cfgCalls = a.cfgCalls

theorem enMask_eq (scan : OccupancyScan) (occ : Histo2d) :
    scan.enMask occ = paint scan.nCol scan.nRow fun p =>
      if scan.inThresholds (OccupancyScan.binAt occ p.1 p.2) then some 1 else none := by
  have hpixel : (fun (mask : Histo2d) (p : Nat × Nat) =>
      if scan.inThresholds (OccupancyScan.binAt occ p.1 p.2) then
        OccupancyScan.setAt mask p.1 p.2 1 else mask) = paintPixel fun p =>
      if scan.inThresholds (OccupancyScan.binAt occ p.1 p.2) then some 1 else none := by
    funext mask p
    by_cases hin : scan.inThresholds (OccupancyScan.binAt occ p.1 p.2) = true
    · simp [paintPixel, hin]
    · simp [paintPixel, hin]
  unfold OccupancyScan.enMask
  rw [hpixel]
  rfl

theorem pixelCalls_eq (scan : OccupancyScan) (occ : Histo2d) :
    scan.pixelCalls occ =
      (if scan.make_mask && scan.createMask then
        pickedPixels scan.nCol scan.nRow fun p =>
          !scan.inThresholds (OccupancyScan.binAt occ p.1 p.2)
      else []).map fun q => .maskPixel q.1 q.2 := by
  unfold OccupancyScan.pixelCalls
  split
  · unfold pickedPixels
    rw [List.map_map]
    rfl
  · rfl

theorem publishesRight (hcore : scan.coreColMask = false) {a : OccupancyAnalysis}
    {fed : UInt32 → List Histo2d} (hfed : Fed scan a fed) (stat : LoopStatus) (h : Histo2d) :
    PublishesRight scan a (fed (a.ident stat)) stat h := by
  have hkept := kept_of_fed hfed
  have hshows := hkept.grown stat h
  have hscan := hkept.scan_eq
  have hinside : ∀ p, InMatrix scan.nCol scan.nRow p →
      (scan.inThresholds (OccupancyScan.binAt (grown a stat h).histo p.1 p.2) = true ↔
        ¬Fails scan (fed (a.ident stat) ++ [h]) p) := by
    intro p hp
    rw [hshows.onMatrix.binAt hp, hshows.bins]
    unfold OccupancyScan.inThresholds Fails
    rw [decide_eq_true_iff, not_not]
  constructor
  · intro hfull
    refine ⟨⟨⟨OccupancyScan.nameOf "EnMask" (a.outerValues stat),
        scan.enMask (grown a stat h).histo⟩, grown a stat h⟩,
      if scan.make_mask && scan.createMask then
        pickedPixels scan.nCol scan.nRow fun p =>
          !scan.inThresholds (OccupancyScan.binAt (grown a stat h).histo p.1 p.2)
      else [], ?_, ?_, ?_, ?_, ?_⟩
    · rw [← hscan]
      unfold OccupancyAnalysis.processHistogram
      rw [if_neg (not_not_intro rfl)]
      dsimp only
      rw [if_pos hfull]
      rfl
    · have hcalls : (a.processHistogram "OccupancyMap" stat h).cfgCalls =
          a.cfgCalls ++ a.pixelCalls (grown a stat h).histo ++
            a.coreColCalls (grown a stat h).histo := by
        unfold OccupancyAnalysis.processHistogram
        rw [if_neg (not_not_intro rfl)]
        dsimp only
        rw [if_pos hfull]
        rfl
      have hnone : a.coreColCalls (grown a stat h).histo = [] := by
        unfold OccupancyScan.coreColCalls
        rw [hscan, hcore]
        rfl
      rw [hcalls, hnone, List.append_nil, hscan, pixelCalls_eq]
    · dsimp only
      rw [enMask_eq, maskRight_paint_iff]
      intro p hp
      constructor
      · intro hfails
        rw [if_neg fun hin => (hinside p hp).mp hin hfails]
        rfl
      · intro hpasses
        rw [if_pos ((hinside p hp).mpr hpasses)]
        rfl
    · intro hmake
      rw [if_pos hmake, callsRight_iff]
      intro p hp
      rw [Bool.not_eq_true', ← Bool.not_eq_true, hinside p hp, not_not]
    · intro hmake
      exact if_neg hmake
  · intro hnot
    unfold OccupancyAnalysis.processHistogram
    rw [if_neg (not_not_intro rfl)]
    dsimp only
    rw [if_neg hnot]
    exact ⟨rfl, rfl⟩

end OccupancyAnalysis

/-! ## Noise -/

/-- The configuration of the noise analysis and the size of the matrix. -/
structure NoiseSettings where
  nCol : Nat
  nRow : Nat
  make_mask : Bool
  createMask : Bool
  doAltMask : Bool
  noiseThr : ℚ
  minOcc : UInt32

/-- The maps of the time over threshold and of the tags, which are passed on, are left out. -/
structure NoiseAnalysis extends NoiseSettings where
  occ : Histo2d
  n_trigger : UInt32

/-- A histogram as the analysis receives it. -/
inductive NoiseInput where
  | OccupancyMap (h : Histo2d)
  | HitsPerEvent (entries : UInt32)
  | other

/-- A call of `maskPixel`. -/
structure MaskPixel where
  col : Nat
  row : Nat
  doAltMask : Bool
  deriving DecidableEq

/-- What `end` has put together after some pixels. -/
structure NoiseResult where
  mask : Histo2d
  calls : List MaskPixel
  failNoiseOcc : UInt32
  failBoth : UInt32
  failBefore : UInt32
  failNew : UInt32

namespace NoiseAnalysis

def init (settings : NoiseSettings) : NoiseAnalysis where
  toNoiseSettings := settings
  occ := emptyMap settings.nCol settings.nRow
  n_trigger := 0

def processHistogram (a : NoiseAnalysis) : NoiseInput → NoiseAnalysis
  | .OccupancyMap h => { a with occ := a.occ.add h }
  | .HitsPerEvent entries => { a with n_trigger := a.n_trigger + entries }
  | .other => a

def run (settings : NoiseSettings) (feed : List NoiseInput) : NoiseAnalysis :=
  feed.foldl processHistogram (init settings)

variable (a : NoiseAnalysis)

def noiseOcc : Histo2d :=
  ((emptyMap a.nCol a.nRow).add a.occ).scale (1 / a.n_trigger.toNat)

/-- The body of the loops of `end`. -/
def endPixel (curEn : Nat → Nat → Bool → UInt32) (e : NoiseResult) (p : Nat × Nat) :
    NoiseResult :=
  let curEn := curEn (p.1 - 1) (p.2 - 1) a.doAltMask
  let e := { e with failBefore := e.failBefore + if curEn = 0 then 1 else 0 }
  if OccupancyScan.binAt a.noiseOcc p.1 p.2 > a.noiseThr then
    let e := { e with failNoiseOcc := e.failNoiseOcc + 1 }
    if OccupancyScan.binAt a.occ p.1 p.2 ≥ a.minOcc.toNat then
      { e with
        failBoth := e.failBoth + 1
        mask := OccupancyScan.setAt e.mask p.1 p.2 0
        failNew := e.failNew + curEn
        calls :=
          if a.make_mask && a.createMask then
            e.calls ++ [⟨p.1 - 1, p.2 - 1, a.doAltMask⟩]
          else e.calls }
    else { e with mask := OccupancyScan.setAt e.mask p.1 p.2 1 }
  else e

/-- `none`: there was no trigger to divide by. -/
def fin (curEn : Nat → Nat → Bool → UInt32) : Option NoiseResult :=
  if a.n_trigger = 0 then none
  else
    some ((matrixPixels a.nCol a.nRow).foldl (a.endPixel curEn)
      ⟨emptyMap a.nCol a.nRow, [], 0, 0, 0, 0⟩)

/-! ## What the histograms say -/

/-- The maps of hits that came in. -/
def maps (feed : List NoiseInput) : List Histo2d :=
  feed.filterMap fun i =>
    match i with
    | .OccupancyMap h => some h
    | _ => none

/-- All triggers. -/
def triggers (feed : List NoiseInput) : Nat :=
  (feed.map fun i =>
    match i with
    | .HitsPerEvent entries => entries.toNat
    | _ => 0).sum

variable (settings : NoiseSettings) (feed : List NoiseInput)

/-- The hits of a pixel. -/
def hits (p : Nat × Nat) : ℚ :=
  summedHits settings.nCol settings.nRow (maps feed) (matrixBin settings.nCol p)

/-- Above the cut on the noise, and enough hits. -/
def Fails (p : Nat × Nat) : Prop :=
  settings.noiseThr < hits settings feed p / triggers feed ∧
    (settings.minOcc.toNat : ℚ) ≤ hits settings feed p

/-- What is to come of a feed. -/
structure MasksRight (e : NoiseResult) : Prop where
  mask : MaskRight settings.nCol settings.nRow (Fails settings feed) e.mask
  calls : settings.make_mask && settings.createMask → ∃ calls,
    e.calls = calls.map (fun q => ⟨q.1, q.2, settings.doAltMask⟩) ∧
    CallsRight settings.nCol settings.nRow (Fails settings feed) calls
  noCalls : ¬(settings.make_mask && settings.createMask) → e.calls = []

/-- Every pixel is noisy, and one with enough hits is so with all triggers too. -/
def AllNoisy : Prop :=
  ∀ p, InMatrix settings.nCol settings.nRow p →
    settings.noiseThr < hits settings feed p / (triggers feed % 2 ^ 32 : Nat) ∧
    ((settings.minOcc.toNat : ℚ) ≤ hits settings feed p →
      settings.noiseThr < hits settings feed p / triggers feed)

/-! ## The run -/

variable {settings feed}

/-- What the analysis has added up. -/
structure Added (settings : NoiseSettings) (feed : List NoiseInput) (a : NoiseAnalysis) : Prop where
  settings_eq : a.toNoiseSettings = settings
  occ : Shows settings.nCol settings.nRow (maps feed) a.occ
  n_trigger : a.n_trigger.toNat = triggers feed % 2 ^ 32

theorem Added.step {a : NoiseAnalysis} (hadded : Added settings feed a) (i : NoiseInput) :
    Added settings (feed ++ [i]) (a.processHistogram i) := by
  cases i with
  | OccupancyMap h =>
      refine ⟨hadded.settings_eq, ?_, ?_⟩
      · have hmaps : maps (feed ++ [.OccupancyMap h]) = maps feed ++ [h] := by simp [maps]
        rw [hmaps]
        exact hadded.occ.add h
      · have hsame : triggers (feed ++ [.OccupancyMap h]) = triggers feed := by simp [triggers]
        rw [hsame]
        exact hadded.n_trigger
  | HitsPerEvent entries =>
      refine ⟨hadded.settings_eq, ?_, ?_⟩
      · have hmaps : maps (feed ++ [.HitsPerEvent entries]) = maps feed := by simp [maps]
        rw [hmaps]
        exact hadded.occ
      · have hmore : triggers (feed ++ [.HitsPerEvent entries]) =
            triggers feed + entries.toNat := by simp [triggers]
        show (a.n_trigger + entries).toNat = _
        rw [hmore, UInt32.toNat_add, hadded.n_trigger, Nat.mod_add_mod]
  | other =>
      refine ⟨hadded.settings_eq, ?_, ?_⟩
      · have hmaps : maps (feed ++ [.other]) = maps feed := by simp [maps]
        rw [hmaps]
        exact hadded.occ
      · have hsame : triggers (feed ++ [.other]) = triggers feed := by simp [triggers]
        rw [hsame]
        exact hadded.n_trigger

theorem added_run (settings : NoiseSettings) (feed : List NoiseInput) :
    Added settings feed (run settings feed) := by
  induction feed using List.reverseRecOn with
  | nil => exact ⟨rfl, shows_emptyMap, rfl⟩
  | append_singleton feed i ih =>
      have hrun : run settings (feed ++ [i]) = (run settings feed).processHistogram i := by
        unfold run
        rw [List.foldl_append]
        rfl
      rw [hrun]
      exact ih.step i

theorem Added.noiseOcc {a : NoiseAnalysis} (hadded : Added settings feed a) {p : Nat × Nat}
    (hp : InMatrix settings.nCol settings.nRow p) :
    OccupancyScan.binAt a.noiseOcc p.1 p.2 =
      hits settings feed p / (triggers feed % 2 ^ 32 : Nat) := by
  have hempty : OnMatrix settings.nCol settings.nRow (emptyMap a.nCol a.nRow) := by
    rw [hadded.settings_eq]
    exact onMatrix_emptyMap
  have hon : OnMatrix settings.nCol settings.nRow a.noiseOcc :=
    (hempty.add a.occ).scale (1 / a.n_trigger.toNat)
  have hsize : (emptyMap a.nCol a.nRow).size = a.occ.size := by
    rw [hempty.size, hadded.occ.onMatrix.size]
  have hzero : ∀ n, (emptyMap a.nCol a.nRow).getBin n = 0 := fun _ => Histo2d.getBin_new ..
  rw [hon.binAt hp]
  unfold NoiseAnalysis.noiseOcc
  rw [Histo2d.getBin_scale, Histo2d.getBin_add _ hsize, hzero, zero_add, hadded.occ.bins,
    hadded.n_trigger, mul_one_div]
  rfl

theorem Added.occBin {a : NoiseAnalysis} (hadded : Added settings feed a) {p : Nat × Nat}
    (hp : InMatrix settings.nCol settings.nRow p) :
    OccupancyScan.binAt a.occ p.1 p.2 = hits settings feed p := by
  rw [hadded.occ.onMatrix.binAt hp, hadded.occ.bins]
  rfl

/-! ## What `end` puts together -/

variable (a : NoiseAnalysis) (curEn : Nat → Nat → Bool → UInt32)

/-- Both cuts, as they are tested. -/
def picked (p : Nat × Nat) : Bool :=
  decide (OccupancyScan.binAt a.noiseOcc p.1 p.2 > a.noiseThr) &&
    decide (OccupancyScan.binAt a.occ p.1 p.2 ≥ a.minOcc.toNat)

/-- The value that is entered, if one is. -/
def entered (p : Nat × Nat) : Option ℚ :=
  if OccupancyScan.binAt a.noiseOcc p.1 p.2 > a.noiseThr then
    some (if OccupancyScan.binAt a.occ p.1 p.2 ≥ a.minOcc.toNat then 0 else 1)
  else none

theorem endPixel_eq (e : NoiseResult) (p : Nat × Nat) :
    (a.endPixel curEn e p).mask = paintPixel a.entered e.mask p ∧
      (a.endPixel curEn e p).calls = e.calls ++
        if (a.make_mask && a.createMask) && a.picked p then
          [⟨p.1 - 1, p.2 - 1, a.doAltMask⟩] else [] := by
  unfold endPixel paintPixel entered picked
  dsimp only
  by_cases hnoisy : OccupancyScan.binAt a.noiseOcc p.1 p.2 > a.noiseThr
  · by_cases hhits : OccupancyScan.binAt a.occ p.1 p.2 ≥ a.minOcc.toNat
    · cases hmake : a.make_mask && a.createMask with
      | true => simp [hnoisy, hhits]
      | false => simp [hnoisy, hhits]
    · simp [hnoisy, hhits]
  · simp [hnoisy]

theorem foldl_endPixel (ps : List (Nat × Nat)) (e : NoiseResult) :
    (ps.foldl (a.endPixel curEn) e).mask = ps.foldl (paintPixel a.entered) e.mask ∧
      (ps.foldl (a.endPixel curEn) e).calls = e.calls ++
        if a.make_mask && a.createMask then
          (ps.filter a.picked).map fun p => ⟨p.1 - 1, p.2 - 1, a.doAltMask⟩ else [] := by
  induction ps generalizing e with
  | nil => exact ⟨rfl, by simp⟩
  | cons p ps ih =>
      obtain ⟨hmask, hcalls⟩ := endPixel_eq a curEn e p
      obtain ⟨hmasks, hall⟩ := ih (a.endPixel curEn e p)
      rw [List.foldl_cons, List.foldl_cons, hmasks, hall, hmask, hcalls]
      refine ⟨rfl, ?_⟩
      cases hmake : a.make_mask && a.createMask with
      | true =>
          cases hp : a.picked p with
          | true => simp [hp]
          | false => simp [hp]
      | false => simp

variable {a}

theorem Added.fin (hadded : Added settings feed a) (hsome : a.n_trigger ≠ 0) :
    ∃ e, a.fin curEn = some e ∧ e.mask = paint settings.nCol settings.nRow a.entered ∧
      e.calls = (if settings.make_mask && settings.createMask then
        pickedPixels settings.nCol settings.nRow a.picked else []).map
          fun q => ⟨q.1, q.2, settings.doAltMask⟩ := by
  have hsettings := hadded.settings_eq
  obtain ⟨hmask, hcalls⟩ := foldl_endPixel a curEn (matrixPixels a.nCol a.nRow)
    ⟨emptyMap a.nCol a.nRow, [], 0, 0, 0, 0⟩
  refine ⟨_, if_neg hsome, ?_, ?_⟩
  · rw [hmask, ← hsettings]
    rfl
  · rw [hcalls, ← hsettings, List.nil_append]
    unfold pickedPixels
    split
    · rw [List.map_map]
      rfl
    · rfl

/-- The masks are right if and only if all pixels are noisy. -/
theorem Added.masksRight_iff (hadded : Added settings feed a) (hsome : a.n_trigger ≠ 0) :
    ∃ e, a.fin curEn = some e ∧ (MasksRight settings feed e ↔ AllNoisy settings feed) := by
  obtain ⟨e, he, hmask, hcalls⟩ := hadded.fin curEn hsome
  refine ⟨e, he, ?_⟩
  have hsettings := hadded.settings_eq
  -- the two counts of the triggers
  have hpos : 0 < triggers feed % 2 ^ 32 := by
    rw [← hadded.n_trigger]
    exact Nat.pos_of_ne_zero fun hzero => hsome (UInt32.toNat_inj.mp hzero)
  have hle : triggers feed % 2 ^ 32 ≤ triggers feed := Nat.mod_le _ _
  generalize hcounted : triggers feed % 2 ^ 32 = counted at hpos hle
  have hentered : ∀ p, InMatrix settings.nCol settings.nRow p →
      a.entered p = if settings.noiseThr < hits settings feed p / (counted : Nat) then
        some (if (settings.minOcc.toNat : ℚ) ≤ hits settings feed p then 0 else 1) else none := by
    intro p hp
    unfold entered
    rw [hadded.noiseOcc hp, hadded.occBin hp, hsettings, hcounted]
  have hpicked : ∀ p, InMatrix settings.nCol settings.nRow p → (a.picked p = true ↔
      settings.noiseThr < hits settings feed p / (counted : Nat) ∧
        (settings.minOcc.toNat : ℚ) ≤ hits settings feed p) := by
    intro p hp
    unfold picked
    rw [hadded.noiseOcc hp, hadded.occBin hp, hsettings, hcounted, Bool.and_eq_true,
      decide_eq_true_iff, decide_eq_true_iff]
  unfold AllNoisy
  rw [hcounted]
  constructor
  · intro hright p hp
    have hvalue := (maskRight_paint_iff a.entered).mp (hmask ▸ hright.mask) p hp
    rw [hentered p hp] at hvalue
    by_cases hn : settings.noiseThr < hits settings feed p / (counted : Nat)
    · rw [if_pos hn] at hvalue
      refine ⟨hn, ?_⟩
      intro hmin
      rw [if_pos hmin] at hvalue
      by_cases hfails : Fails settings feed p
      · exact hfails.1
      · exact absurd (hvalue.2 hfails) zero_ne_one
    · -- a pixel without a value does not fail: more triggers only make it less noisy
      rw [if_neg hn] at hvalue
      by_cases hfails : Fails settings feed p
      · obtain ⟨hnoise, hmin⟩ := hfails
        have hnonneg : 0 ≤ hits settings feed p := le_trans (Nat.cast_nonneg _) hmin
        have hless : hits settings feed p / triggers feed ≤ hits settings feed p / counted :=
          div_le_div_of_nonneg_left hnonneg (by exact_mod_cast hpos) (by exact_mod_cast hle)
        exact absurd (lt_of_lt_of_le hnoise hless) hn
      · exact absurd (hvalue.2 hfails) zero_ne_one
  · intro hnoisy
    have hfails : ∀ p, InMatrix settings.nCol settings.nRow p →
        (Fails settings feed p ↔ (settings.minOcc.toNat : ℚ) ≤ hits settings feed p) := by
      intro p hp
      exact ⟨fun h => h.2, fun hmin => ⟨(hnoisy p hp).2 hmin, hmin⟩⟩
    constructor
    · rw [hmask, maskRight_paint_iff]
      intro p hp
      rw [hentered p hp, if_pos (hnoisy p hp).1, hfails p hp]
      constructor
      · intro hmin
        rw [if_pos hmin]
        rfl
      · intro hmin
        rw [if_neg hmin]
        rfl
    · intro hmake
      refine ⟨_, hcalls, ?_⟩
      rw [if_pos hmake, callsRight_iff]
      intro p hp
      rw [hpicked p hp, hfails p hp]
      exact and_iff_right (hnoisy p hp).1
    · intro hmake
      rw [hcalls, if_neg hmake]
      rfl

/-! ## Both analyses -/

/-- The occupancy analysis has its masks right with every map that comes in, the noise analysis
if and only if all pixels are noisy. -/
theorem pixel_masks_iff (scan : OccupancyScan) (settings : NoiseSettings) :
    (scan.coreColMask = false →
      ∀ (a : OccupancyAnalysis) (fed : UInt32 → List Histo2d), OccupancyAnalysis.Fed scan a fed →
      ∀ (stat : LoopStatus) (h : Histo2d),
      OccupancyAnalysis.PublishesRight scan a (fed (a.ident stat)) stat h) ∧
    (∀ (feed : List NoiseInput) (curEn : Nat → Nat → Bool → UInt32), (run settings feed).n_trigger ≠ 0 →
      ∃ e, (run settings feed).fin curEn = some e ∧
        (MasksRight settings feed e ↔ AllNoisy settings feed)) := by
  constructor
  · intro hcore a fed hfed stat h
    exact OccupancyAnalysis.publishesRight hcore hfed stat h
  · intro feed curEn hsome
    exact (added_run settings feed).masksRight_iff curEn hsome

/-- A matrix of one pixel with the default cuts. -/
def onePixel : NoiseSettings := ⟨1, 1, true, true, false, 1 / 1000000, 1⟩

def allEnabled : Nat → Nat → Bool → UInt32 := fun _ _ _ => 1

theorem inMatrix_one {p : Nat × Nat} (hp : InMatrix 1 1 p) : p = (1, 1) := by
  obtain ⟨⟨hcol, hcol'⟩, ⟨hrow, hrow'⟩⟩ := hp
  exact Prod.ext (by omega) (by omega)

/-- One hit in one trigger. -/
def noisyFeed : List NoiseInput := [.OccupancyMap OccupancyAnalysis.oneHit, .HitsPerEvent 1]

theorem hits_noisyFeed : hits onePixel noisyFeed (1, 1) = 1 := by
  decide +kernel

/-- A scan over the matrix of one pixel that expects one map. -/
def onePass : OccupancyScan where
  nCol := 1
  nRow := 1
  HighThr := 1
  LowThr := 1
  nCol_pos := Nat.one_pos
  nRow_pos := Nat.one_pos

/-- A pixel with one hit is masked by the noise analysis. -/
theorem noisy_pixel_masked :
    OccupancyAnalysis.PublishesRight onePass (OccupancyAnalysis.start onePass) [] .iterationEnd
      OccupancyAnalysis.oneHit ∧
    ∃ e, (run onePixel noisyFeed).fin allEnabled = some e ∧ MasksRight onePixel noisyFeed e := by
  constructor
  · exact (pixel_masks_iff onePass onePixel).1 rfl _ _ .start .iterationEnd OccupancyAnalysis.oneHit
  · have hsome : (run onePixel noisyFeed).n_trigger ≠ 0 := by decide +kernel
    obtain ⟨e, he, hiff⟩ := (pixel_masks_iff onePass onePixel).2 noisyFeed allEnabled hsome
    refine ⟨e, he, hiff.mpr ?_⟩
    intro p hp
    rw [inMatrix_one hp, hits_noisyFeed]
    have htriggers : triggers noisyFeed = 1 := rfl
    rw [htriggers]
    exact ⟨by norm_num [onePixel], fun _ => by norm_num [onePixel]⟩

/-- A pixel without a hit has the value of a masked one. -/
theorem quiet_pixel_zero :
    ∃ e, (run onePixel [.HitsPerEvent 1]).fin allEnabled = some e ∧
      ¬MasksRight onePixel [.HitsPerEvent 1] e := by
  have hsome : (run onePixel [.HitsPerEvent 1]).n_trigger ≠ 0 := by decide +kernel
  obtain ⟨e, he, hiff⟩ := (added_run onePixel [.HitsPerEvent 1]).masksRight_iff allEnabled hsome
  refine ⟨e, he, fun hright => ?_⟩
  have hpixel : InMatrix onePixel.nCol onePixel.nRow (1, 1) := ⟨⟨le_rfl, le_rfl⟩, ⟨le_rfl, le_rfl⟩⟩
  have hnoisy := (hiff.mp hright (1, 1) hpixel).1
  have hzero : hits onePixel [.HitsPerEvent 1] (1, 1) = 0 := rfl
  rw [hzero, zero_div] at hnoisy
  exact absurd hnoisy (by norm_num [onePixel])

end NoiseAnalysis

end Yarr.Scan
