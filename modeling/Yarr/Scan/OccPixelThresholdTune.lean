import Yarr.Core.Maps
import Yarr.Scan.OccupancyAnalysis

/-!
# Pixel threshold tuning

Each complete occupancy map is one iteration of the tuning: every pixel is
compared with a high and a low cut, and the feedback says in which direction
its threshold moves. Both cuts are read at one index, which advances from
iteration to iteration. Cuts and occupancies are numbers of a type `F`, which
only needs a comparison and the ratio of hits to injections.
-/

namespace Yarr.Scan

/-- What an iteration sends to the pixel feedback loop, and the index it read the cuts at. -/
structure TuningStep where
  cutIndex : Nat
  fbHisto : Histo2d

structure OccPixelThresholdTune (F : Type) extends OccupancyScan where
  m_occLowCut : List F
  m_occHighCut : List F
  m_cutIndex : Nat := 0
  occMaps : IdentMap (Option NamedHisto2d) := fun _ => none
  innerCnt : IdentMap UInt32 := fun _ => 0
  sent : List TuningStep := []
  output : List NamedHisto2d := []

namespace OccPixelThresholdTune

variable {F : Type}

/-! ## `loadConfig` -/

/-- A list of cuts in the configuration: not there, not an array, or its elements. -/
inductive CutEntry (F : Type) where
  | absent
  | notAnArray
  | cuts (values : List F)

/-- `none` where an element is not a number, for which the source throws. -/
def cutEntry (number : Json → Option F) (j : Json) (key : String) : Option (CutEntry F) :=
  match j.find key with
  | none => some .absent
  | some (.arr elems) => (elems.mapM number).map .cuts
  | some _ => some .notAnArray

/-- An entry that is not an array ends the loading. -/
def loadConfig (number : Json → Option F) (j : Json) (a : OccPixelThresholdTune F) :
    Option (OccPixelThresholdTune F) := do
  match ← cutEntry number j "occLowCut" with
  | .notAnArray => some a
  | low =>
      let a := match low with
        | .cuts values => { a with m_occLowCut := values }
        | _ => a
      match ← cutEntry number j "occHighCut" with
      | .cuts values => some { a with m_occHighCut := values }
      | _ => some a

/-- What `init` takes from the scan is what the occupancy analysis takes, without thresholds. -/
def init (settings : OccupancySettings) (s : List ScanLoop) (a : OccPixelThresholdTune F) :
    OccPixelThresholdTune F :=
  { a with toOccupancyScan := OccupancyScan.initLoops { settings with } 0 s }

/-! ## `processHistogram` -/

variable [LT F] [DecidableLT F] (ratio : ℚ → UInt32 → F) (a : OccPixelThresholdTune F)

/-- The direction for one pixel. The low cut is not looked at above the high one; `none` is
the exception of `at`. -/
def direction (occ : ℚ) : Option ℚ := do
  let high ← a.m_occHighCut[a.m_cutIndex]?
  if high < ratio occ a.injections then some (-1)
  else
    let low ← a.m_occLowCut[a.m_cutIndex]?
    if ratio occ a.injections < low then some 1 else some 0

def fbHisto (occ : Histo2d) : Option Histo2d :=
  (List.range (emptyMap a.nCol a.nRow).size).foldlM
    (fun fbHisto i => (a.direction ratio (occ.getBin i)).map (fbHisto.setBin i))
    (emptyMap a.nCol a.nRow)

/-- The index of the next iteration. -/
def nextCutIndex : Nat :=
  if a.m_cutIndex < min a.m_occLowCut.length (a.m_occHighCut.length - 1) then a.m_cutIndex + 1
  else a.m_cutIndex

/-- The end of an iteration, with the map that is complete. -/
def finish (ident : UInt32) (occ : NamedHisto2d) : Option (OccPixelThresholdTune F) :=
  (a.fbHisto ratio occ.histo).map fun fbHisto =>
    { a with
      occMaps := Function.update a.occMaps ident none
      innerCnt := Function.update a.innerCnt ident 0
      sent := a.sent ++ [⟨a.m_cutIndex, fbHisto⟩]
      output := a.output ++ [occ]
      m_cutIndex := a.nextCutIndex }

def processHistogram (i : OccupancyAnalysis.Input) : Option (OccPixelThresholdTune F) :=
  if i.name ≠ "OccupancyMap" then some a
  else
    let ident := a.ident i.stat
    let occ := (a.occMaps ident).getD
      ⟨OccupancyScan.nameOf "OccupancyMap" (a.outerValues i.stat), emptyMap a.nCol a.nRow⟩
    let occ : NamedHisto2d := { occ with histo := occ.histo.add i.histo }
    let cnt := a.innerCnt ident + 1
    if cnt = a.n_count then a.finish ratio ident occ
    else
      some { a with
        occMaps := Function.update a.occMaps ident (some occ)
        innerCnt := Function.update a.innerCnt ident cnt }

def run (feed : List OccupancyAnalysis.Input) : Option (OccPixelThresholdTune F) :=
  feed.foldlM (processHistogram ratio) a

/-! ## Iterations -/

/-- Whether a map completes an iteration, and the counters it leaves. -/
def tick (scan : OccupancyScan) (innerCnt : IdentMap UInt32) (i : OccupancyAnalysis.Input) :
    Bool × IdentMap UInt32 :=
  if i.name ≠ "OccupancyMap" then (false, innerCnt)
  else
    let ident := scan.ident i.stat
    let cnt := innerCnt ident + 1
    if cnt = scan.n_count then (true, Function.update innerCnt ident 0)
    else (false, Function.update innerCnt ident cnt)

/-- How many iterations the maps of a feed complete. -/
def iterations (scan : OccupancyScan) (innerCnt : IdentMap UInt32) :
    List OccupancyAnalysis.Input → Nat
  | [] => 0
  | i :: feed =>
      iterations scan (tick scan innerCnt i).2 feed + (tick scan innerCnt i).1.toNat

/-- The index of iteration `k`, counted from zero. -/
def cutAt (low high k : Nat) : Nat := min k (min low (high - 1))

/-- The index of an iteration is inside both lists, and is the number of the iteration
as long as a list has an entry there. -/
structure Follows (low high k cutIndex : Nat) : Prop where
  low_lt : cutIndex < low
  high_lt : cutIndex < high
  low_entry : k < low → cutIndex = k
  high_entry : k < high → cutIndex = k

/-- No exception ends the run, and every iteration reads the cuts where it should. -/
def CutsFollow (feed : List OccupancyAnalysis.Input) : Prop :=
  ∃ a', a.run ratio feed = some a' ∧ ∀ k step, a'.sent[k]? = some step →
    Follows a.m_occLowCut.length a.m_occHighCut.length k step.cutIndex

/-- A tuning that has made `k` iterations. -/
structure After (start : OccPixelThresholdTune F) (k : Nat) : Prop where
  scan : a.toOccupancyScan = start.toOccupancyScan
  low : a.m_occLowCut = start.m_occLowCut
  high : a.m_occHighCut = start.m_occHighCut
  index : a.m_cutIndex = cutAt start.m_occLowCut.length start.m_occHighCut.length k
  used : a.sent.map TuningStep.cutIndex
    = (List.range k).map (cutAt start.m_occLowCut.length start.m_occHighCut.length)

variable {a} {ratio}

variable (ratio) in
theorem fbHisto_isSome (hlow : a.m_cutIndex < a.m_occLowCut.length)
    (hhigh : a.m_cutIndex < a.m_occHighCut.length) (occ : Histo2d) :
    ∃ fb, a.fbHisto ratio occ = some fb := by
  have hpixel : ∀ v, ∃ d, a.direction ratio v = some d := by
    intro v
    simp only [direction, List.getElem?_eq_getElem hlow, List.getElem?_eq_getElem hhigh,
      Option.bind_eq_bind, Option.bind_some]
    split
    · exact ⟨-1, rfl⟩
    · split
      · exact ⟨1, rfl⟩
      · exact ⟨0, rfl⟩
  have hloop : ∀ (bins : List Nat) (fb : Histo2d), ∃ fb', bins.foldlM
      (fun fb i => (a.direction ratio (occ.getBin i)).map (fb.setBin i)) fb = some fb' := by
    intro bins
    induction bins with
    | nil => exact fun fb => ⟨fb, rfl⟩
    | cons i bins ih =>
        intro fb
        obtain ⟨d, hd⟩ := hpixel (occ.getBin i)
        obtain ⟨fb', hfb⟩ := ih (fb.setBin i d)
        exact ⟨fb', by simpa [hd] using hfb⟩
  exact hloop _ _

omit [LT F] [DecidableLT F] in
theorem nextCutIndex_cutAt {k : Nat} {start : OccPixelThresholdTune F} (h : After a start k) :
    a.nextCutIndex = cutAt start.m_occLowCut.length start.m_occHighCut.length (k + 1) := by
  unfold nextCutIndex
  rw [h.index, h.low, h.high]
  unfold cutAt
  split
  · omega
  · omega

theorem After.finish {k : Nat} {start a' : OccPixelThresholdTune F} (h : After a start k)
    {ident : UInt32} {occ : NamedHisto2d} (hf : a.finish ratio ident occ = some a') :
    After a' start (k + 1) ∧ a'.innerCnt = Function.update a.innerCnt ident 0 := by
  obtain ⟨fb, -, rfl⟩ := Option.map_eq_some_iff.mp hf
  refine ⟨⟨h.scan, h.low, h.high, nextCutIndex_cutAt h, ?_⟩, rfl⟩
  rw [List.map_append, h.used, List.range_succ, List.map_append]
  simp [h.index]

variable (ratio) in
/-- A map that completes nothing is taken in; one that completes an iteration is tuned with,
unless an exception ends it. -/
theorem After.step {k : Nat} {start : OccPixelThresholdTune F} (h : After a start k)
    (i : OccupancyAnalysis.Input) :
    ((tick start.toOccupancyScan a.innerCnt i).1 = false → ∃ b, a.processHistogram ratio i = some b ∧
      After b start k ∧ b.innerCnt = (tick start.toOccupancyScan a.innerCnt i).2) ∧
    ((tick start.toOccupancyScan a.innerCnt i).1 = true → ∃ ident occ,
      a.processHistogram ratio i = a.finish ratio ident occ ∧
      Function.update a.innerCnt ident 0 = (tick start.toOccupancyScan a.innerCnt i).2) := by
  unfold processHistogram tick
  by_cases hname : i.name ≠ "OccupancyMap"
  · simp only [if_pos hname]
    exact ⟨fun _ => ⟨a, rfl, h, rfl⟩, fun hc => absurd hc Bool.false_ne_true⟩
  · simp only [if_neg hname, h.scan]
    by_cases hcnt : a.innerCnt (start.ident i.stat) + 1 = start.n_count
    · simp only [if_pos hcnt]
      exact ⟨fun hc => absurd hc.symm Bool.false_ne_true, fun _ => ⟨_, _, rfl, rfl⟩⟩
    · simp only [if_neg hcnt]
      exact ⟨fun _ => ⟨_, rfl, ⟨rfl, h.low, h.high, h.index, h.used⟩, rfl⟩,
        fun hc => absurd hc Bool.false_ne_true⟩

theorem run_cons (i : OccupancyAnalysis.Input) (feed : List OccupancyAnalysis.Input) :
    a.run ratio (i :: feed) = (a.processHistogram ratio i).bind fun b => b.run ratio feed := by
  simp only [run, List.foldlM_cons, Option.bind_eq_bind]

theorem After.run {feed : List OccupancyAnalysis.Input} {k : Nat}
    {start a' : OccPixelThresholdTune F} (h : After a start k) (hrun : a.run ratio feed = some a') :
    After a' start (k + iterations start.toOccupancyScan a.innerCnt feed) := by
  induction feed generalizing a k with
  | nil =>
      simp only [OccPixelThresholdTune.run, List.foldlM_nil, Option.pure_def,
        Option.some.injEq] at hrun
      exact hrun ▸ h
  | cons i feed ih =>
      rw [run_cons] at hrun
      obtain ⟨b, hb, hrest⟩ := Option.bind_eq_some_iff.mp hrun
      have hstep := h.step ratio i
      cases ht : (tick start.toOccupancyScan a.innerCnt i).1 with
      | false =>
          obtain ⟨b', hb', hafter, hinner⟩ := hstep.1 ht
          rw [hb] at hb'
          cases hb'
          have hall := ih hafter hrest
          rw [hinner] at hall
          simpa [iterations, ht] using hall
      | true =>
          obtain ⟨ident, occ, hproc, hinner⟩ := hstep.2 ht
          obtain ⟨hafter, hcnt⟩ := h.finish (hproc.symm.trans hb)
          have hall := ih hafter hrest
          rw [hcnt, hinner] at hall
          have hsum : k + 1 + iterations start.toOccupancyScan
              (tick start.toOccupancyScan a.innerCnt i).2 feed
              = k + iterations start.toOccupancyScan a.innerCnt (i :: feed) := by
            rw [iterations, ht, Bool.toNat_true]
            omega
          exact hsum ▸ hall

variable (ratio) in
/-- With the indices of all iterations inside both lists nothing throws. -/
theorem run_isSome (feed : List OccupancyAnalysis.Input) {k : Nat}
    {start : OccPixelThresholdTune F} (h : After a start k)
    (hin : ∀ n, n < k + iterations start.toOccupancyScan a.innerCnt feed →
      cutAt start.m_occLowCut.length start.m_occHighCut.length n < start.m_occLowCut.length ∧
      cutAt start.m_occLowCut.length start.m_occHighCut.length n < start.m_occHighCut.length) :
    ∃ a', a.run ratio feed = some a' := by
  induction feed generalizing a k with
  | nil => exact ⟨a, rfl⟩
  | cons i feed ih =>
      have hstep := h.step ratio i
      rw [iterations] at hin
      rw [run_cons]
      cases ht : (tick start.toOccupancyScan a.innerCnt i).1 with
      | false =>
          obtain ⟨b, hb, hafter, hinner⟩ := hstep.1 ht
          rw [hb, Option.bind_some]
          apply ih hafter
          intro n hn
          rw [hinner] at hn
          exact hin n (by omega)
      | true =>
          obtain ⟨ident, occ, hproc, hinner⟩ := hstep.2 ht
          rw [ht, Bool.toNat_true] at hin
          have hidx := hin k (by omega)
          rw [← h.index] at hidx
          obtain ⟨fb, hfb⟩ := fbHisto_isSome ratio (h.low ▸ hidx.1)
            (h.high ▸ hidx.2) occ.histo
          obtain ⟨b, hb⟩ : ∃ b, a.finish ratio ident occ = some b := by
            simp only [OccPixelThresholdTune.finish, hfb, Option.map_some, Option.some.injEq,
              exists_eq']
          obtain ⟨hafter, hcnt⟩ := h.finish hb
          rw [hproc, hb, Option.bind_some]
          apply ih hafter
          intro n hn
          rw [hcnt, hinner] at hn
          exact hin n (by omega)

/-- The state in which a scan starts, with the lists that were configured. -/
def start (scan : OccupancyScan) (lows highs : List F) : OccPixelThresholdTune F :=
  { scan with m_occLowCut := lows, m_occHighCut := highs }

omit [LT F] [DecidableLT F] in
theorem after_start (scan : OccupancyScan) (lows highs : List F) :
    After (start scan lows highs) (start scan lows highs) 0 :=
  ⟨rfl, rfl, rfl, by simp [start, cutAt], rfl⟩

/-- The iterations read the cuts in step with both lists exactly if the lists are equally
long, or end behind the last iteration. -/
theorem cutsFollow_iff (scan : OccupancyScan) {lows highs : List F} (hlows : lows ≠ [])
    (hhighs : highs ≠ []) (feed : List OccupancyAnalysis.Input) :
    (start scan lows highs).CutsFollow ratio feed ↔
      lows.length = highs.length ∨
        iterations scan (fun _ => 0) feed ≤ min lows.length highs.length := by
  have hlow := List.length_pos_iff.mpr hlows
  have hhigh := List.length_pos_iff.mpr hhighs
  have hstart := after_start scan lows highs
  have hcount : (start scan lows highs).innerCnt = fun _ => 0 := rfl
  constructor
  · intro ⟨a', hrun, hfollow⟩
    have hafter := hstart.run hrun
    rw [hcount, Nat.zero_add] at hafter
    by_contra hno
    have hne : lows.length ≠ highs.length := fun h => hno (Or.inl h)
    have hmany : min lows.length highs.length < iterations scan (fun _ => 0) feed :=
      Nat.lt_of_not_le fun h => hno (Or.inr h)
    -- the first iteration behind the end of the shorter list
    have hused : (a'.sent.map TuningStep.cutIndex)[min lows.length highs.length]?
        = some (cutAt lows.length highs.length (min lows.length highs.length)) := by
      have hrange := List.getElem?_range hmany
      rw [hafter.used, List.getElem?_map]
      exact congrArg (Option.map (cutAt lows.length highs.length)) hrange
    rw [List.getElem?_map] at hused
    obtain ⟨step, hstep, hidx⟩ := Option.map_eq_some_iff.mp hused
    obtain ⟨h₁, h₂, h₃, h₄⟩ := hfollow _ step hstep
    rw [hidx] at h₁ h₂ h₃ h₄
    simp only [start, cutAt] at h₁ h₂ h₃ h₄
    omega
  · intro hcond
    have hfollows : ∀ n, n < iterations scan (fun _ => 0) feed →
        Follows lows.length highs.length n (cutAt lows.length highs.length n) := by
      intro n hn
      unfold cutAt
      refine ⟨?_, ?_, ?_, ?_⟩ <;> omega
    obtain ⟨a', hrun⟩ := run_isSome ratio feed hstart fun n hn =>
      have hf := hfollows n (by rwa [hcount, Nat.zero_add] at hn)
      ⟨hf.low_lt, hf.high_lt⟩
    refine ⟨a', hrun, ?_⟩
    intro k step hstep
    have hafter := hstart.run hrun
    rw [hcount, Nat.zero_add] at hafter
    have hused := congrArg (fun l => l[k]?) hafter.used
    simp only [List.getElem?_map, hstep, Option.map_some] at hused
    obtain ⟨n, hn, hidx⟩ := Option.map_eq_some_iff.mp hused.symm
    obtain ⟨hlt, hkn⟩ := List.getElem?_eq_some_iff.mp hn
    rw [List.getElem_range] at hkn
    rw [List.length_range] at hlt
    subst hkn
    rw [← hidx]
    exact hfollows k hlt

/-- Two cuts on either side, and as many iterations. -/
theorem cutsFollow_two_cuts :
    let scan : OccupancyScan := { nCol := 1, nRow := 1, nCol_pos := by decide, nRow_pos := by decide }
    let map : OccupancyAnalysis.Input :=
      ⟨"OccupancyMap", ⟨[], [], true, by decide, rfl⟩, emptyMap 1 1⟩
    let lows : List ℚ := [3 / 10, 4 / 10]
    let highs : List ℚ := [7 / 10, 6 / 10]
    (start scan lows highs).CutsFollow (fun occ injections => occ / injections.toNat)
      [map, map, map] := by
  intro scan map lows highs
  exact (cutsFollow_iff scan (List.cons_ne_nil _ _) (List.cons_ne_nil _ _) _).mpr (Or.inl rfl)

/-- The exception comes with the iteration behind the end of the list of low cuts. -/
theorem low_cut_throws :
    let scan : OccupancyScan := { nCol := 1, nRow := 1, nCol_pos := by decide, nRow_pos := by decide }
    let map : OccupancyAnalysis.Input :=
      ⟨"OccupancyMap", ⟨[], [], true, by decide, rfl⟩, emptyMap 1 1⟩
    let lows : List ℚ := [3 / 10]
    let highs : List ℚ := [7 / 10, 6 / 10]
    (start scan lows highs).run (fun occ injections => occ / injections.toNat) [map, map] = none ∧
      ¬ (start scan lows highs).CutsFollow (fun occ injections => occ / injections.toNat) [map, map] := by
  intro scan map lows highs
  have hnone : (start scan lows highs).run
      (fun occ injections => occ / injections.toNat) [map, map] = none := by
    decide +kernel
  refine ⟨hnone, ?_⟩
  intro ⟨a', hrun, _⟩
  rw [hnone] at hrun
  cases hrun

end OccPixelThresholdTune

end Yarr.Scan
