import Yarr.Scan.Histograms
import Yarr.Scan.Loops

/-!
# Histogrammers

Algorithms fill their histograms from the events of every container. The
processor makes new histograms with the first container of an iteration and
publishes them at the container that ends it.
-/

namespace Yarr.Scan

open EventFile

/-- An algorithm by what `create` starts from and what it does with one event. An algorithm
that only writes files has no histogram. -/
structure HistogramAlgorithm (X : Type) where
  σ : Type
  create : σ
  processEvent : σ → FrontEndEvent → σ
  histo : Option (σ → X)

/-- A histogram on its way to the analyses. -/
structure HistogramBase (X : Type) where
  lStat : LoopStatus
  contents : X

/-- An algorithm in the processor, with the histogram it works on. -/
structure Histogrammer (X : Type) where
  algorithm : HistogramAlgorithm X
  r : Option (LoopStatus × algorithm.σ)

namespace Histogrammer

variable {X : Type} (a : Histogrammer X)

def create (stat : LoopStatus) : Histogrammer X :=
  { a with r := some (stat, a.algorithm.create) }

def processEvent (data : FrontEndData) : Histogrammer X :=
  { a with
    r := a.r.map fun r => (r.1, data.events.foldl a.algorithm.processEvent r.2) }

/-- `getHisto`: the histogram, which the algorithm gives away. -/
def getHisto : Option (HistogramBase X) :=
  a.algorithm.histo.bind fun view => a.r.map fun r => ⟨r.1, view r.2⟩

end Histogrammer

structure HistogrammerProcessor (X : Type) where
  algorithms : List (Histogrammer X)
  is_new_iteration : Bool := true
  output : List (HistogramBase X) := []

namespace HistogrammerProcessor

variable {X : Type} (p : HistogrammerProcessor X)

def new (algorithms : List (HistogramAlgorithm X)) : HistogrammerProcessor X where
  algorithms := algorithms.map fun a => ⟨a, none⟩

def publish : HistogrammerProcessor X :=
  { p with
    algorithms := p.algorithms.map fun a => { a with r := none }
    output := p.output ++ p.algorithms.filterMap Histogrammer.getHisto }

/-- The body of the loop of `process_core`. -/
def processData (p : HistogrammerProcessor X) (data : FrontEndData) : HistogrammerProcessor X :=
  let p' : HistogrammerProcessor X :=
    { p with
      algorithms := p.algorithms.map fun a =>
        (if p.is_new_iteration then a.create data.lStat else a).processEvent data
      is_new_iteration := false }
  if data.lStat.is_end_of_iteration then { p'.publish with is_new_iteration := true } else p'

def process_core (input : List FrontEndData) : HistogrammerProcessor X :=
  input.foldl processData p

/-! ## One iteration -/

/-- The histograms of one batch: the events of an iteration filled into new histograms. -/
def batch (algorithms : List (HistogramAlgorithm X)) (stat : LoopStatus)
    (events : List FrontEndEvent) : List (HistogramBase X) :=
  algorithms.filterMap fun a => a.histo.map fun view =>
    ⟨stat, view (events.foldl a.processEvent a.create)⟩

/-- The processor in the middle of an iteration. -/
def filling (algorithms : List (HistogramAlgorithm X)) (output : List (HistogramBase X))
    (stat : LoopStatus) (events : List FrontEndEvent) : HistogrammerProcessor X where
  algorithms := algorithms.map fun a => ⟨a, some (stat, events.foldl a.processEvent a.create)⟩
  is_new_iteration := false
  output := output

/-- The processor between two iterations. -/
def waiting (algorithms : List (HistogramAlgorithm X)) (output : List (HistogramBase X)) :
    HistogrammerProcessor X :=
  { new algorithms with output := output }

variable (algorithms : List (HistogramAlgorithm X)) (output : List (HistogramBase X))

theorem publish_filling (stat : LoopStatus) (events : List FrontEndEvent) :
    { (filling algorithms output stat events).publish with is_new_iteration := true }
      = waiting algorithms (output ++ batch algorithms stat events) := by
  have hhisto : ∀ a : HistogramAlgorithm X,
      Histogrammer.getHisto ⟨a, some (stat, events.foldl a.processEvent a.create)⟩
        = a.histo.map fun view => ⟨stat, view (events.foldl a.processEvent a.create)⟩ := by
    intro a
    cases h : a.histo <;> simp [Histogrammer.getHisto, h]
  simp [publish, filling, waiting, new, batch, List.filterMap_map, Function.comp_def, hhisto]

theorem processData_filling (stat : LoopStatus) (events : List FrontEndEvent)
    {data : FrontEndData} (h : data.lStat.is_end_of_iteration = false) :
    processData (filling algorithms output stat events) data
      = filling algorithms output stat (events ++ data.events) := by
  simp [processData, filling, h, Histogrammer.processEvent, Function.comp_def]

theorem processData_filling_end (stat : LoopStatus) (events : List FrontEndEvent)
    {data : FrontEndData} (h : data.lStat.is_end_of_iteration = true) :
    processData (filling algorithms output stat events) data
      = waiting algorithms (output ++ batch algorithms stat (events ++ data.events)) := by
  rw [← publish_filling]
  simp [processData, filling, h, Histogrammer.processEvent, Function.comp_def, publish]

theorem processData_waiting {data : FrontEndData}
    (h : data.lStat.is_end_of_iteration = false) :
    processData (waiting algorithms output) data
      = filling algorithms output data.lStat data.events := by
  simp [processData, waiting, new, filling, h, Histogrammer.create, Histogrammer.processEvent,
    Function.comp_def]

theorem processData_waiting_end {data : FrontEndData}
    (h : data.lStat.is_end_of_iteration = true) :
    processData (waiting algorithms output) data
      = waiting algorithms (output ++ batch algorithms data.lStat data.events) := by
  rw [← publish_filling]
  simp [processData, waiting, new, filling, h, Histogrammer.create, Histogrammer.processEvent,
    Function.comp_def, publish]

theorem process_core_filling (stat : LoopStatus) (events : List FrontEndEvent)
    {input : List FrontEndData} (h : ∀ d ∈ input, d.lStat.is_end_of_iteration = false) :
    (filling algorithms output stat events).process_core input
      = filling algorithms output stat (events ++ input.flatMap FrontEndData.events) := by
  induction input generalizing events with
  | nil => simp [process_core]
  | cons data input ih =>
      have hstep := processData_filling algorithms output stat events (h data List.mem_cons_self)
      have hrest := ih (events ++ data.events) fun d hd => h d (List.mem_cons_of_mem _ hd)
      rw [process_core, List.foldl_cons, hstep]
      rw [process_core] at hrest
      rw [hrest, List.flatMap_cons, List.append_assoc]

/-! ## A scan -/

/-- What the data loop sends in one iteration: its containers with the position of the scan,
then an empty container with a status of its own. -/
structure Iteration where
  status : LoopStatus
  data : List (List FrontEndEvent)

def Iteration.dataContainers (it : Iteration) : List FrontEndData :=
  it.data.map fun events => ⟨it.status.setEnd false, events⟩

def Iteration.containers (it : Iteration) : List FrontEndData :=
  it.dataContainers ++ [⟨LoopStatus.iterationEnd, []⟩]

/-- The status that the histograms of an iteration carry. -/
def Iteration.taggedWith (it : Iteration) : LoopStatus :=
  if it.data = [] then LoopStatus.iterationEnd else it.status.setEnd false

private theorem dataContainers_open (it : Iteration) :
    ∀ d ∈ it.dataContainers, d.lStat.is_end_of_iteration = false := by
  intro d hd
  obtain ⟨events, -, rfl⟩ := List.mem_map.mp hd
  rfl

private theorem flatMap_dataContainers (status : LoopStatus) (data : List (List FrontEndEvent)) :
    (Iteration.dataContainers ⟨status, data⟩).flatMap FrontEndData.events = data.flatten := by
  simp [Iteration.dataContainers, List.flatMap_map]

theorem process_core_append (input rest : List FrontEndData) :
    p.process_core (input ++ rest) = (p.process_core input).process_core rest :=
  List.foldl_append

private theorem iterationEnd_isEnd :
    (⟨LoopStatus.iterationEnd, []⟩ : FrontEndData).lStat.is_end_of_iteration = true := rfl

theorem process_core_iteration (it : Iteration) :
    (waiting algorithms output).process_core it.containers
      = waiting algorithms (output ++ batch algorithms it.taggedWith it.data.flatten) := by
  obtain ⟨status, data⟩ := it
  cases data with
  | nil => exact processData_waiting_end algorithms output iterationEnd_isEnd
  | cons events rest =>
      have hfirst : processData (waiting algorithms output) ⟨status.setEnd false, events⟩
          = filling algorithms output (status.setEnd false) events :=
        processData_waiting algorithms output rfl
      have hrest := process_core_filling algorithms output (status.setEnd false) events
        (dataContainers_open ⟨status, rest⟩)
      have hlast := processData_filling_end algorithms output (status.setEnd false)
        (events ++ rest.flatten) iterationEnd_isEnd
      rw [flatMap_dataContainers] at hrest
      have hsplit : Iteration.containers ⟨status, events :: rest⟩
          = ⟨status.setEnd false, events⟩ :: (Iteration.dataContainers ⟨status, rest⟩
            ++ [⟨LoopStatus.iterationEnd, []⟩]) := rfl
      rw [hsplit, process_core, List.foldl_cons, hfirst, ← process_core, process_core_append,
        hrest]
      rw [List.append_nil] at hlast
      exact hlast

theorem process_core_iterations (iterations : List Iteration) :
    (waiting algorithms output).process_core (iterations.flatMap Iteration.containers)
      = waiting algorithms (output ++ iterations.flatMap fun it =>
          batch algorithms it.taggedWith it.data.flatten) := by
  induction iterations generalizing output with
  | nil => simp [process_core]
  | cons it iterations ih =>
      rw [List.flatMap_cons, process_core_append, process_core_iteration, ih, List.flatMap_cons,
        List.append_assoc]

theorem output_process_core_open {input : List FrontEndData}
    (h : ∀ d ∈ input, d.lStat.is_end_of_iteration = false) :
    ((waiting algorithms output).process_core input).output = output := by
  cases input with
  | nil => rfl
  | cons data input =>
      have hfirst := processData_waiting algorithms output (h data List.mem_cons_self)
      have hrest := process_core_filling algorithms output data.lStat data.events
        fun d hd => h d (List.mem_cons_of_mem _ hd)
      rw [process_core, List.foldl_cons, hfirst]
      rw [process_core] at hrest
      rw [hrest]
      rfl

/-- A histogram as the analyses file it: its loop parameter values and its contents. -/
def HistogramBase.filed (h : HistogramBase X) : List UInt32 × X := (h.lStat.statVec, h.contents)

/-- The `k`-th batch has the events of the `k`-th iteration and its loop parameter values; an
unfinished iteration at the end publishes nothing. -/
def PublishedPerIteration (iterations : List Iteration) (last : Iteration) : Prop :=
  (((new algorithms).process_core
      (iterations.flatMap Iteration.containers ++ last.dataContainers)).output.map
        HistogramBase.filed)
    = iterations.flatMap fun it =>
        (batch algorithms it.status it.data.flatten).map HistogramBase.filed

theorem map_filed_batch (stat : LoopStatus) (events : List FrontEndEvent) :
    (batch algorithms stat events).map HistogramBase.filed
      = algorithms.filterMap fun a => a.histo.map fun view =>
          (stat.statVec, view (events.foldl a.processEvent a.create)) := by
  simp [batch, List.map_filterMap, Function.comp_def, HistogramBase.filed]

theorem length_batch (stat : LoopStatus) (events : List FrontEndEvent) :
    (batch algorithms stat events).length
      = (algorithms.filter fun a => a.histo.isSome).length := by
  rw [batch, List.length_filterMap_eq_countP, List.countP_eq_length_filter]
  simp

theorem map_filed_batch_eq_iff (stat stat' : LoopStatus) (events : List FrontEndEvent) :
    (batch algorithms stat events).map HistogramBase.filed
        = (batch algorithms stat' events).map HistogramBase.filed
      ↔ (∀ a ∈ algorithms, a.histo = none) ∨ stat.statVec = stat'.statVec := by
  constructor
  · intro h
    by_cases hnone : ∀ a ∈ algorithms, a.histo = none
    · exact Or.inl hnone
    · push Not at hnone
      obtain ⟨a, ha, hhisto⟩ := hnone
      obtain ⟨view, hview⟩ := Option.ne_none_iff_exists'.mp hhisto
      have hmem : (stat.statVec, view (events.foldl a.processEvent a.create))
          ∈ (batch algorithms stat events).map HistogramBase.filed := by
        rw [map_filed_batch]
        exact List.mem_filterMap.mpr ⟨a, ha, by rw [hview]; rfl⟩
      rw [h, map_filed_batch] at hmem
      obtain ⟨b, -, hb⟩ := List.mem_filterMap.mp hmem
      obtain ⟨view', -, heq⟩ := Option.map_eq_some_iff.mp hb
      exact Or.inr (congrArg Prod.fst heq).symm
  · intro h
    rw [map_filed_batch, map_filed_batch]
    apply List.filterMap_congr
    intro a ha
    rcases h with hnone | hsame
    · rw [hnone a ha]
      rfl
    · rw [hsame]

theorem statVec_taggedWith_eq_iff (it : Iteration) :
    it.taggedWith.statVec = it.status.statVec ↔ it.data ≠ [] ∨ it.status.statVec = [0] := by
  unfold Iteration.taggedWith
  by_cases h : it.data = []
  · rw [if_pos h]
    constructor
    · exact fun heq => Or.inr heq.symm
    · rintro (hne | heq)
      · exact absurd h hne
      · exact heq.symm
  · rw [if_neg h]
    exact ⟨fun _ => Or.inl h, fun _ => rfl⟩

private theorem flatMap_inj_of_length {α β : Type*} {f g : α → List β} {l : List α}
    (hlen : ∀ a ∈ l, (f a).length = (g a).length) :
    l.flatMap f = l.flatMap g ↔ ∀ a ∈ l, f a = g a := by
  constructor
  · intro h
    induction l with
    | nil => simp
    | cons a l ih =>
        rw [List.flatMap_cons, List.flatMap_cons] at h
        obtain ⟨hhead, htail⟩ := List.append_inj h (hlen a List.mem_cons_self)
        rw [List.forall_mem_cons]
        exact ⟨hhead, ih (fun b hb => hlen b (List.mem_cons_of_mem _ hb)) htail⟩
  · exact List.flatMap_congr

theorem publishedPerIteration_iff (iterations : List Iteration) (last : Iteration) :
    PublishedPerIteration algorithms iterations last
      ↔ (∀ a ∈ algorithms, a.histo = none)
        ∨ ∀ it ∈ iterations, it.data ≠ [] ∨ it.status.statVec = [0] := by
  have hout : ((new algorithms).process_core
      (iterations.flatMap Iteration.containers ++ last.dataContainers)).output
        = iterations.flatMap fun it => batch algorithms it.taggedWith it.data.flatten := by
    have hiter := process_core_iterations algorithms [] iterations
    rw [List.nil_append] at hiter
    rw [process_core_append, show new algorithms = waiting algorithms [] from rfl, hiter]
    exact output_process_core_open algorithms _ (dataContainers_open last)
  unfold PublishedPerIteration
  rw [hout, List.map_flatMap, flatMap_inj_of_length]
  · simp only [map_filed_batch_eq_iff, statVec_taggedWith_eq_iff]
    constructor
    · intro h
      by_cases hnone : ∀ a ∈ algorithms, a.histo = none
      · exact Or.inl hnone
      · exact Or.inr fun it hit => (h it hit).resolve_left hnone
    · rintro (hnone | hdata) it hit
      · exact Or.inl hnone
      · exact Or.inr (hdata it hit)
  · intro it _
    rw [List.length_map, List.length_map, length_batch, length_batch]

end HistogrammerProcessor

end Yarr.Scan

/-!
## Histograms of hits

The maps over the matrix differ in the weight of a hit. Bins add up over the
events, so the bins of a batch are the sums over its containers.
-/

namespace Yarr.Scan

open EventFile

/-- `processEvent` of a map over the matrix: each hit with a non-zero ToT is filled with a
weight. -/
def fillHits (weight : FrontEndEvent → FrontEndHit → ℚ) (h : Histo2d)
    (curEvent : FrontEndEvent) : Histo2d :=
  if 0 < curEvent.nHits then
    curEvent.hits.foldl (fun h curHit =>
      if 0 < curHit.tot then
        h.fill curHit.col.toNat curHit.row.toNat (weight curEvent curHit)
      else h) h
  else h

/-- `create` of a map over the matrix. -/
def emptyMap (nCol nRow : Nat) : Histo2d :=
  Histo2d.new nCol (1 / 2) (nCol + 1 / 2) nRow (1 / 2) (nRow + 1 / 2)

def hitMap (weight : FrontEndEvent → FrontEndHit → ℚ) (nCol nRow : Nat) :
    HistogramAlgorithm Histo2d where
  σ := Histo2d
  create := emptyMap nCol nRow
  processEvent := fillHits weight
  histo := some id

def OccupancyMap : Nat → Nat → HistogramAlgorithm Histo2d := hitMap fun _ _ => 1

def TotMap : Nat → Nat → HistogramAlgorithm Histo2d :=
  hitMap fun _ curHit => (curHit.tot &&& 0x7ff).toNat

def Tot2Map : Nat → Nat → HistogramAlgorithm Histo2d :=
  hitMap fun _ curHit => (curHit.tot &&& 0x7ff).toNat * (curHit.tot &&& 0x7ff).toNat

def TagMap : Nat → Nat → HistogramAlgorithm Histo2d :=
  hitMap fun curEvent _ => curEvent.tag.toNat

/-- Writes the events to a file. -/
def DataArchiver : HistogramAlgorithm Histo2d where
  σ := List FrontEndEvent
  create := []
  processEvent events curEvent := events ++ [curEvent]
  histo := none

/-- A scan point without data: the occupancy map is filed under the values of the end mark. -/
theorem emptyIteration_misfiled :
    ¬ HistogrammerProcessor.PublishedPerIteration [OccupancyMap 80 336]
      [⟨⟨[3, 1], [.parameter, .data], true, by decide, rfl⟩, []⟩]
      ⟨LoopStatus.iterationEnd, []⟩ := by
  intro h
  have hfst := congrArg (List.map Prod.fst) h
  revert hfst
  decide

end Yarr.Scan
