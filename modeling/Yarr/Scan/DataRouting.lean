import Yarr.Scan.StdDataLoop

/-!
# Where the raw data arrive

At any time the chunks of a front-end that were pushed and those that are still
in the map are together the chunks read so far from its channel. At the end the
map is empty.
-/

namespace Yarr.Scan

open Script

section OnWay

variable {FrontEnd : Type} (keeper : Bookkeeper FrontEnd) (record : LoopStatus)

/-- Chunks that were read are in the clipboards or in the map, in their order. -/
structure OnWay (P : Option RawDataContainer → Prop) (chunks : List RawData) (rdcMap : RdcMap)
    (clips : Clips) : Prop where
  ready : AllReady keeper record rdcMap
  chunks : ∀ id, chunksOf (clips id) ++ pending rdcMap id = chunksFor keeper id chunks
  arrived : ∀ id, ∀ c ∈ clips id, P c

variable {keeper record} {P : Option RawDataContainer → Prop} {chunks : List RawData}
  {rdcMap : RdcMap} {clips : Clips}

theorem allReady_empty : AllReady keeper record ∅ := by
  intro id v hv
  rw [Std.TreeMap.getElem?_emptyc] at hv
  cases hv

theorem pending_empty (id : Nat) : pending ∅ id = [] := by
  rw [pending, Std.TreeMap.getElem?_emptyc]
  rfl

theorem onWay_start : OnWay keeper record P [] ∅ fun _ => [] where
  ready := allReady_empty
  chunks := pending_empty
  arrived := fun _ _ hc => absurd hc List.not_mem_nil

theorem OnWay.chunksOf_eq (h : OnWay keeper record P chunks ∅ clips) (id : Nat) :
    chunksOf (clips id) = chunksFor keeper id chunks := by
  have hchunks := h.chunks id
  rwa [pending_empty, List.append_nil] at hchunks

theorem OnWay.add (hroutes : keeper.Routes) (h : OnWay keeper record P chunks rdcMap clips)
    (newData : List RawData) :
    OnWay keeper record P (chunks ++ newData) (addData keeper record rdcMap newData) clips := by
  obtain ⟨hready, hpending⟩ := addData_spec hroutes h.ready newData
  constructor
  · exact hready
  · intro id
    rw [hpending, chunksFor_append, ← h.chunks, List.append_assoc]
  · exact h.arrived

theorem OnWay.flush (h : OnWay keeper record P chunks rdcMap clips)
    {out : RawDataContainer → List (Option RawDataContainer)}
    (hchunks : ∀ rdc, chunksOf (out rdc) = rdc.data)
    (hout : ∀ id rdc, Ready keeper record id rdc → ∀ c ∈ out rdc, P c) {clips' : Clips}
    (hclips : ∀ id, clips' id = clips id ++ sent out rdcMap id) :
    OnWay keeper record P chunks ∅ clips' := by
  constructor
  · exact allReady_empty
  · intro id
    rw [hclips, chunksOf_append, chunksOf_sent hchunks, h.chunks, pending_empty, List.append_nil]
  · intro id c hc
    rw [hclips] at hc
    rcases List.mem_append.mp hc with hold | hnew
    · exact h.arrived id c hold
    · exact forall_mem_sent hout h.ready id c hnew

end OnWay

variable {FrontEnd : Type} {keeper : Bookkeeper FrontEnd} {record : LoopStatus}

/-! ## The data loop -/

namespace StdDataLoop

def chunksRead (reads : List Read) : List RawData := reads.flatMap Read.newData

variable {chunks : List RawData}

theorem pushAll_spec {s : Reading} (h : OnWay keeper record (Data record) chunks s.rdcMap s.clips) :
    Ensures (pushAll keeper s) fun s' => OnWay keeper record (Data record) chunks ∅ s'.1 := by
  have hflush : Ensures (pushAll keeper s)
      fun s' => ∀ id, s'.1 id = s.clips id ++ sent alone s.rdcMap id := by
    apply flush_spec Prod.fst _ h.ready
    intro t id rdc hready
    rw [pushEntry, pushContainer_spec hready]
    exact pushData_apply t.1 id _
  exact hflush.mono fun s' hs' =>
    h.flush chunksOf_alone (fun id rdc hready => data_alone hready) hs'

variable (loop : StdDataLoop)

theorem readOnce_spec (hroutes : keeper.Routes) {s : Reading}
    (h : OnWay keeper record (Data record) chunks s.rdcMap s.clips) (newData : List RawData) :
    Ensures (readOnce keeper record loop s newData)
      fun s' => OnWay keeper record (Data record) (chunks ++ newData) s'.rdcMap s'.clips := by
  have hadd := h.add hroutes newData
  rw [readOnce]
  by_cases hdata : newData.length > 0
  · simp only [if_pos hdata]
    split
    · apply (pushAll_spec (s := { s with rdcMap := addData keeper record s.rdcMap newData })
        hadd).bind
      intro s' hs'
      exact hs'
    · exact hadd
  · have hnil : newData = [] := List.eq_nil_of_length_eq_zero (by omega)
    simp only [if_neg hdata]
    rw [hnil, List.append_nil]
    exact h

theorem readLoop_spec (hroutes : keeper.Routes) {s : Reading}
    (h : OnWay keeper record (Data record) chunks s.rdcMap s.clips) (reads : List Read) :
    Ensures (readLoop keeper record loop reads s) fun out => ∃ used, reads = used ++ out.2 ∧
      OnWay keeper record (Data record) (chunks ++ chunksRead used) out.1.rdcMap out.1.clips := by
  induction reads generalizing s chunks with
  | nil => exact ensures_waiting
  | cons r reads ih =>
      rw [readLoop]
      apply (readOnce_spec loop hroutes h r.newData).bind
      intro s' hs'
      split
      · apply (ih hs').mono
        intro out hout
        obtain ⟨used, hused, hway⟩ := hout
        apply Exists.intro (r :: used)
        rw [hused]
        apply And.intro rfl
        rw [List.append_assoc] at hway
        exact hway
      · apply ensures_pure
        apply Exists.intro [r]
        apply And.intro rfl
        rw [chunksRead, List.flatMap_singleton]
        exact hs'

theorem ensures_feedbackLoop (activeChannels : Finset Nat)
    (rounds : List (Nat → List FeedbackProcessingInfo)) (received : Nat → UInt32) :
    Ensures (feedbackLoop activeChannels rounds received) fun _ => True := by
  induction rounds generalizing received with
  | nil => exact ensures_waiting
  | cons round rounds ih =>
      rw [feedbackLoop]
      split
      · apply ih
      · exact ensures_pure trivial

theorem rxCycle_spec (hroutes : keeper.Routes) {s : State}
    (h : OnWay keeper record (Data record) chunks ∅ s.clips) (r : CycleResults)
    (reads : List Read) :
    Ensures (rxCycle keeper record loop r reads s) fun out => ∃ used, reads = used ++ out.2.2 ∧
      OnWay keeper record (Data record) (chunks ++ chunksRead used) ∅ out.1.clips := by
  rw [rxCycle]
  apply (readLoop_spec loop hroutes (s := ⟨0, ∅, s.clips, s.activeChannels⟩) h reads).bind
  intro reading hreading
  obtain ⟨used, hused, hway⟩ := hreading
  apply (pushAll_spec hway).bind
  intro pushed hpushed
  apply (ensures_feedbackLoop _ _ _).bind
  intro received _
  exact ensures_pure ⟨used, hused, hpushed⟩

theorem cycles_spec (hroutes : keeper.Routes) {s : State}
    (h : OnWay keeper record (Data record) chunks ∅ s.clips) (results : List CycleResults)
    (reads : List Read) :
    Ensures (cycles keeper record loop results reads s) fun out => ∃ used, reads = used ++ out.2 ∧
      OnWay keeper record (Data record) (chunks ++ chunksRead used) ∅ out.1 := by
  induction results generalizing s chunks reads with
  | nil => exact ensures_waiting
  | cons r results ih =>
      rw [cycles]
      apply (rxCycle_spec loop hroutes h r reads).bind
      intro ⟨s', receivingRxData, reads'⟩ hcycle
      obtain ⟨used, hused, hway⟩ := hcycle
      cases receivingRxData with
      | false => exact ensures_pure ⟨used, hused, hway⟩
      | true =>
        apply (ih hway reads').mono
        intro out hout
        obtain ⟨used', hused', hway'⟩ := hout
        apply Exists.intro (used ++ used')
        rw [List.append_assoc, ← hused']
        apply And.intro hused
        rw [chunksRead, List.flatMap_append, ← List.append_assoc]
        exact hway'

theorem execPart2_spec (hroutes : keeper.Routes) (results : List CycleResults)
    (reads : List Read) :
    Ensures (execPart2 keeper record loop results reads) fun out => ∃ used, reads = used ++ out.2 ∧
      ∀ id < keeper.getNumOfEntries, ∃ body, out.1 id = body ++ [some .iterEnd] ∧
        chunksOf body = chunksFor keeper id (chunksRead used) ∧ ∀ c ∈ body, Data record c := by
  rw [execPart2]
  apply (cycles_spec loop hroutes (s := ⟨fun _ => [], ∅, fun _ => 0⟩) onWay_start results reads).bind
  intro ⟨clips, reads'⟩ hcycles
  obtain ⟨used, hused, hway⟩ := hcycles
  apply ensures_pure
  apply Exists.intro used
  apply And.intro hused
  intro id hid
  exact ⟨clips id, pushMarkers_apply clips hid, hway.chunksOf_eq id, hway.arrived id⟩

end StdDataLoop

/-! ## The data gatherer -/

namespace StdDataGatherer

def chunksRead (results : List PassResults) : List RawData := results.flatMap PassResults.newData

/-- A container of data, or an end of iteration. -/
def DataOrEnd (record : LoopStatus) (c : Option RawDataContainer) : Prop :=
  Data record c ∨ c = some .iterEnd

/-- A container of the map goes out with an end of iteration. -/
def closed (rdc : RawDataContainer) : List (Option RawDataContainer) :=
  alone rdc ++ [some .iterEnd]

theorem chunksOf_closed (rdc : RawDataContainer) : chunksOf (closed rdc) = rdc.data := by
  rw [closed, chunksOf_append, chunksOf_alone]
  exact List.append_nil _

theorem dataOrEnd_closed {id : Nat} {rdc : RawDataContainer} (h : Ready keeper record id rdc) :
    ∀ c ∈ closed rdc, DataOrEnd record c := by
  intro c hc
  rcases List.mem_append.mp hc with hdata | hend
  · exact Or.inl (data_alone h c hdata)
  · exact Or.inr (List.mem_singleton.mp hend)

variable {chunks : List RawData} (gatherer : StdDataGatherer)

/-- What a pass leaves behind: nothing is left over in `newData`. -/
structure Between (keeper : Bookkeeper FrontEnd) (record : LoopStatus) (chunks : List RawData)
    (s : State) : Prop where
  onWay : OnWay keeper record (DataOrEnd record) chunks s.rdcMap s.clips
  newData : s.newData = []

theorem gather_spec (hroutes : keeper.Routes) {s : State} (h : Between keeper record chunks s)
    (newData : List RawData) :
    Between keeper record (chunks ++ newData) (gather keeper record s newData) := by
  rw [gather]
  by_cases hdata : newData.length > 0
  · rw [if_pos hdata]
    exact ⟨h.onWay.add hroutes newData, rfl⟩
  · have hnil : newData = [] := List.eq_nil_of_length_eq_zero (by omega)
    rw [if_neg hdata, hnil, List.append_nil]
    exact ⟨h.onWay, rfl⟩

theorem pushClosed_spec {clips : Clips} {id : Nat} {rdc : RawDataContainer}
    (h : Ready keeper record id rdc) :
    Ensures (pushClosed keeper clips (id, some rdc)) fun clips' =>
      ∀ k, clips' k = clips k ++ if id = k then closed rdc else [] := by
  have hlength : rdc.data.length > 0 := List.length_pos_of_ne_nil h.nonempty
  rw [pushClosed]
  simp only [if_pos hlength, pushContainer_spec h]
  apply ensures_pure
  intro k
  rw [pushData_apply, pushData_apply, List.append_assoc]
  by_cases hid : id = k
  · simp only [if_pos hid]
    rfl
  · simp only [if_neg hid]
    rfl

theorem pushNonEmpty_spec {clips : Clips} {id : Nat} {rdc : RawDataContainer}
    (h : Ready keeper record id rdc) :
    Ensures (pushNonEmpty keeper clips (id, some rdc)) fun clips' =>
      ∀ k, clips' k = clips k ++ if id = k then alone rdc else [] := by
  have hlength : rdc.data.length > 0 := List.length_pos_of_ne_nil h.nonempty
  rw [pushNonEmpty]
  simp only [if_pos hlength, pushContainer_spec h]
  exact pushData_apply clips id _

theorem pass_spec (hroutes : keeper.Routes) {s : State} (h : Between keeper record chunks s)
    (newData : List RawData) :
    Ensures (pass keeper record gatherer s newData)
      fun s' => Between keeper record (chunks ++ newData) s' := by
  have hgather := gather_spec hroutes
    (s := { s with nAllRxReadIterations := s.nAllRxReadIterations + 1 })
    ⟨h.onWay, h.newData⟩ newData
  rw [pass]
  split
  · apply (flush_spec id (fun clips id rdc hready => pushClosed_spec hready)
      hgather.onWay.ready _).bind
    intro clips' hclips'
    exact ensures_pure ⟨hgather.onWay.flush chunksOf_closed
      (fun id rdc hready => dataOrEnd_closed hready) hclips', hgather.newData⟩
  · exact ensures_pure hgather

theorem passes_spec (hroutes : keeper.Routes) {s : State} (h : Between keeper record chunks s)
    (results : List PassResults) :
    Ensures (passes keeper record gatherer results s) fun out => ∃ used, results = used ++ out.2 ∧
      Between keeper record (chunks ++ chunksRead used) out.1 := by
  induction results generalizing s chunks with
  | nil => exact ensures_waiting
  | cons r results ih =>
      rw [passes]
      apply (pass_spec gatherer hroutes h r.newData).bind
      intro s' hs'
      by_cases hdone : r.triggerIsDone = true
      · rw [if_pos hdone]
        apply ensures_pure
        apply Exists.intro [r]
        apply And.intro rfl
        rw [chunksRead, List.flatMap_singleton]
        exact hs'
      · rw [if_neg hdone]
        apply (ih hs').mono
        intro out hout
        obtain ⟨used, hused, hbetween⟩ := hout
        apply Exists.intro (r :: used)
        rw [hused]
        apply And.intro rfl
        rw [List.append_assoc] at hbetween
        exact hbetween

theorem execPart2_spec (hroutes : keeper.Routes) (results : List PassResults) :
    Ensures (execPart2 keeper record gatherer results) fun out => ∃ used, results = used ++ out.2 ∧
      ∀ id < keeper.getNumOfEntries, ∃ body, out.1 id = body ++ [some .iterEnd] ∧
        chunksOf body = chunksFor keeper id (chunksRead used) ∧
          ∀ c ∈ body, DataOrEnd record c := by
  rw [execPart2]
  apply (passes_spec gatherer hroutes (s := ⟨0, 0, [], ∅, fun _ => []⟩) ⟨onWay_start, rfl⟩
    results).bind
  intro ⟨s, results'⟩ hpasses
  obtain ⟨used, hused, hbetween⟩ := hpasses
  have hnothing : [] ++ chunksRead used ++ s.newData = chunksRead used := by
    rw [hbetween.newData, List.append_nil, List.nil_append]
  have hgather := gather_spec hroutes hbetween s.newData
  rw [hnothing] at hgather
  apply (flush_spec id (fun clips id rdc hready => pushNonEmpty_spec hready)
    hgather.onWay.ready _).bind
  intro clips hclips
  have hway := hgather.onWay.flush chunksOf_alone
    (fun id rdc hready c hc => Or.inl (data_alone hready c hc)) hclips
  apply ensures_pure
  apply Exists.intro used
  apply And.intro hused
  intro id hid
  exact ⟨clips id, pushMarkers_apply clips hid, hway.chunksOf_eq id, hway.arrived id⟩

/-! ### A gatherer that gets all results it asks for -/

theorem pushContainer_ne_waiting (clips : Clips) (id : Nat) (rdc : Option RawDataContainer) :
    pushContainer keeper clips id rdc ≠ .error .waiting := by
  unfold pushContainer
  split
  · exact fun h => by cases h
  · exact fun h => by cases h

theorem pushClosed_ne_waiting (clips : Clips) (e : Nat × Option RawDataContainer) :
    pushClosed keeper clips e ≠ .error .waiting := by
  unfold pushClosed
  split
  · exact fun h => by cases h
  · split
    · exact bind_ne_waiting (pushContainer_ne_waiting _ _ _) fun clips' h => by cases h
    · exact fun h => by cases h

theorem pushNonEmpty_ne_waiting (clips : Clips) (e : Nat × Option RawDataContainer) :
    pushNonEmpty keeper clips e ≠ .error .waiting := by
  unfold pushNonEmpty
  split
  · exact fun h => by cases h
  · split
    · exact pushContainer_ne_waiting _ _ _
    · exact fun h => by cases h

theorem pass_ne_waiting (s : State) (newData : List RawData) :
    pass keeper record gatherer s newData ≠ .error .waiting := by
  rw [pass]
  split
  · exact bind_ne_waiting (foldlM_ne_waiting pushClosed_ne_waiting _ _) fun clips h => by cases h
  · exact fun h => by cases h

theorem passes_whole (hroutes : keeper.Routes) {s : State} (h : Between keeper record chunks s)
    {results : List PassResults} {last : PassResults}
    (hgoing : ∀ r ∈ results, r.triggerIsDone = false) (hlast : last.triggerIsDone = true) :
    ∃ s', passes keeper record gatherer (results ++ [last]) s = .ok (s', []) ∧
      Between keeper record (chunks ++ chunksRead (results ++ [last])) s' := by
  induction results generalizing s chunks with
  | nil =>
      rcases (pass_spec gatherer hroutes h last.newData).returns
        (pass_ne_waiting gatherer s _) with ⟨s', hpass, hs'⟩
      refine ⟨s', ?_, ?_⟩
      · simp only [List.nil_append, passes, hpass, hlast, if_true]
        rfl
      · simpa [chunksRead] using hs'
  | cons r results ih =>
      rcases (pass_spec gatherer hroutes h r.newData).returns
        (pass_ne_waiting gatherer s _) with ⟨s', hpass, hs'⟩
      have hgo := hgoing r List.mem_cons_self
      rcases ih hs' fun q hq => hgoing q (List.mem_cons_of_mem _ hq) with ⟨s'', hpasses, hs''⟩
      refine ⟨s'', ?_, ?_⟩
      · simp only [List.cons_append, passes, hpass, hgo]
        exact hpasses
      · rw [List.append_assoc] at hs''
        exact hs''

/-- The call returns when the triggers are done, and all that it has read is pushed. -/
theorem execPart2_whole (hroutes : keeper.Routes) {results : List PassResults}
    {last : PassResults} (hgoing : ∀ r ∈ results, r.triggerIsDone = false)
    (hlast : last.triggerIsDone = true) :
    ∃ clips, execPart2 keeper record gatherer (results ++ [last]) = .ok (clips, []) ∧
      ∀ id < keeper.getNumOfEntries, ∃ body, clips id = body ++ [some .iterEnd] ∧
        chunksOf body = chunksFor keeper id (chunksRead (results ++ [last])) := by
  have hstart : Between keeper record [] ⟨0, 0, [], ∅, fun _ => []⟩ := ⟨onWay_start, rfl⟩
  rcases passes_whole gatherer hroutes hstart hgoing hlast with ⟨s, hpasses, -⟩
  have hcall : execPart2 keeper record gatherer (results ++ [last]) =
      (gather keeper record s s.newData).rdcMap.toList.foldlM (pushNonEmpty keeper)
        (gather keeper record s s.newData).clips >>= fun clips =>
          pure (pushMarkers keeper clips, []) := by
    rw [execPart2, hpasses]
    rfl
  have hnot : execPart2 keeper record gatherer (results ++ [last]) ≠ .error .waiting := by
    rw [hcall]
    exact bind_ne_waiting (foldlM_ne_waiting pushNonEmpty_ne_waiting _ _)
      fun clips h => by cases h
  rcases (execPart2_spec gatherer hroutes (results ++ [last])).returns hnot with
    ⟨⟨clips, rest⟩, hexec, used, hused, hpushed⟩
  have hrest : rest = [] := by
    rw [hcall] at hexec
    rcases bind_eq_ok hexec with ⟨clips', -, hpure⟩
    cases hpure
    rfl
  subst hrest
  rw [List.append_nil] at hused
  subst hused
  refine ⟨clips, hexec, fun id hid => ?_⟩
  rcases hpushed id hid with ⟨body, hclips, hchunks, -⟩
  exact ⟨body, hclips, hchunks⟩

end StdDataGatherer

/-! ## Both loops -/

section Both

variable [DecidableEq FrontEnd]

/-- Front-ends in the order in which they were added. -/
def Bookkeeper.ofFrontEnds (fes : List (FrontEnd × FrontEndConnectivity)) : Bookkeeper FrontEnd :=
  fes.foldl (fun s e => s.addFe e.1 e.2) .empty

theorem routes_ofFrontEnds (fes : List (FrontEnd × FrontEndConnectivity)) :
    (Bookkeeper.ofFrontEnds fes).Routes := by
  have hloop : ∀ s : Bookkeeper FrontEnd, s.Routes →
      (fes.foldl (fun s e => s.addFe e.1 e.2) s).Routes := by
    induction fes with
    | nil => exact fun s hs => hs
    | cons e fes ih => exact fun s hs => ih _ (Bookkeeper.getRxToId_addFe hs e.1 e.2)
  exact hloop _ fun _ => rfl

/-- Two front-ends on one channel both get the chunk that comes from it. -/
example :
    (StdDataLoop.execPart2 (.ofFrontEnds [(0, .ofChannels 3 3), (1, .ofChannels 3 3)])
      .iterationEnd ⟨2, 1⟩ [⟨[fun _ => []], false, true⟩] [⟨[⟨3, [7]⟩], 0⟩, ⟨[], 0⟩]).toOption.map
        (fun out => [out.1 0, out.1 1]) =
      some (List.replicate 2
        [some ⟨[⟨3, [7]⟩], LoopStatus.iterationEnd.setEnd false⟩, some .iterEnd]) := by
  decide +kernel

end Both

end Yarr.Scan
