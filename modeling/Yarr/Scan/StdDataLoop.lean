import Mathlib.Data.Finset.Insert
import Std.Data.TreeMap.Lemmas
import Yarr.Core.Transport
import Yarr.Scan.Bookkeeper
import Yarr.Scan.Loops

/-!
# Raw data on the way to the front-ends

The chunks that come from the receiver are collected in one container for each
front-end. The containers are pushed to the clipboards of the front-ends, where
the data processors take them.
-/

namespace Yarr.Scan

open Script

/-- A block of raw data, with the address of its rx channel. -/
structure RawData where
  adr : UInt32
  buf : List UInt32
  deriving DecidableEq

def RawData.getSize (d : RawData) : UInt32 := UInt32.ofNat d.buf.length

structure RawDataContainer where
  data : List RawData
  stat : LoopStatus
  deriving DecidableEq

namespace RawDataContainer

def new (s : LoopStatus) : RawDataContainer := ⟨[], s⟩

def add (c : RawDataContainer) (arg_data : RawData) : RawDataContainer :=
  { c with data := c.data ++ [arg_data] }

def setEnd (c : RawDataContainer) (isEnd : Bool) : RawDataContainer :=
  { c with stat := c.stat.setEnd isEnd }

/-- `cIterEnd`. The constructor copies the status that it is given. -/
def iterEnd : RawDataContainer := .new .iterationEnd

end RawDataContainer

/-- Containers by id; `none` in the map is the null pointer. -/
abbrev RdcMap := Std.TreeMap Nat (Option RawDataContainer)

/-- What `pushData` was called with, for each front-end; `none` is the null pointer. -/
abbrev Clips := Nat → List (Option RawDataContainer)

def pushData (clips : Clips) (id : Nat) (data : Option RawDataContainer) : Clips :=
  Function.update clips id (clips id ++ [data])

/-- A front-end without a container gets a new one, with the status `record`. -/
def addChunk (record : LoopStatus) (dataChunk : RawData) (rdcMap : RdcMap) (uid : Nat) : RdcMap :=
  let rdc := rdcMap[uid]?.join.getD (.new record)
  rdcMap.insert uid (some (rdc.add dataChunk))

variable {FrontEnd : Type} (keeper : Bookkeeper FrontEnd) (record : LoopStatus)

/-- The chunks of one read, each for all the front-ends on its channel. -/
def addData (rdcMap : RdcMap) (newData : List RawData) : RdcMap :=
  newData.foldl (fun rdcMap dataChunk =>
    (keeper.getRxToId dataChunk.adr).foldl (addChunk record dataChunk) rdcMap) rdcMap

/-- The pointers `rdc` and `fe` are followed. -/
def pushContainer (clips : Clips) (id : Nat) (rdc : Option RawDataContainer) :
    Except Stop Clips :=
  match rdc, keeper.getFe id with
  | some rdc, some _ => pure (pushData clips id (some (rdc.setEnd false)))
  | _, _ => .error .crash

/-- The end of iteration markers, one for each front-end. -/
def pushMarkers (clips : Clips) : Clips :=
  (List.range keeper.getNumOfEntries).foldl
    (fun clips id => pushData clips id (some .iterEnd)) clips

/-! ## What is on its way -/

/-- The chunks in some containers. -/
def chunksOf (pushed : List (Option RawDataContainer)) : List RawData :=
  pushed.flatMap fun c => (c.map RawDataContainer.data).getD []

/-- The chunks that are in the map for a front-end. -/
def pending (rdcMap : RdcMap) (id : Nat) : List RawData :=
  (rdcMap[id]?.join.map RawDataContainer.data).getD []

/-- Those of some chunks that come from the channel of a front-end. -/
def chunksFor (id : Nat) (chunks : List RawData) : List RawData :=
  chunks.filter fun c => id ∈ keeper.getRxToId c.adr

/-- A container of the map can be pushed: it has chunks, and its front-end is there. -/
structure Ready (id : Nat) (rdc : RawDataContainer) : Prop where
  stat : rdc.stat = record
  nonempty : rdc.data ≠ []
  present : id < keeper.getNumOfEntries

def AllReady (rdcMap : RdcMap) : Prop :=
  ∀ id v, rdcMap[id]? = some v → ∃ rdc, v = some rdc ∧ Ready keeper record id rdc

/-- A container of data as it should arrive. -/
def Data (c : Option RawDataContainer) : Prop :=
  ∃ rdc, c = some rdc ∧ rdc.stat = record.setEnd false

/-! ## Collecting -/

variable {keeper record}

theorem getElem?_addChunk (dataChunk : RawData) (rdcMap : RdcMap) (uid id : Nat) :
    (addChunk record dataChunk rdcMap uid)[id]? =
      if uid = id then some (some ((rdcMap[uid]?.join.getD (.new record)).add dataChunk))
      else rdcMap[id]? := by
  rw [addChunk, Std.TreeMap.getElem?_insert]
  simp only [Std.compare_eq_iff_eq]

theorem pending_addChunk (dataChunk : RawData) (rdcMap : RdcMap) (uid id : Nat) :
    pending (addChunk record dataChunk rdcMap uid) id =
      pending rdcMap id ++ if uid = id then [dataChunk] else [] := by
  rw [pending, pending, getElem?_addChunk]
  by_cases hid : uid = id
  · rw [if_pos hid, if_pos hid, hid]
    cases hrdc : rdcMap[id]?.join with
    | none => rfl
    | some rdc => rfl
  · rw [if_neg hid, if_neg hid, List.append_nil]

theorem allReady_addChunk {rdcMap : RdcMap} (h : AllReady keeper record rdcMap)
    (dataChunk : RawData) {uid : Nat} (huid : uid < keeper.getNumOfEntries) :
    AllReady keeper record (addChunk record dataChunk rdcMap uid) := by
  intro id v hv
  rw [getElem?_addChunk] at hv
  by_cases hid : uid = id
  · rw [if_pos hid] at hv
    apply Exists.intro _
    apply And.intro (Option.some.inj hv).symm
    have hstat : (rdcMap[uid]?.join.getD (.new record)).stat = record := by
      cases hrdc : rdcMap[uid]? with
      | none => rfl
      | some v =>
          obtain ⟨rdc, rfl, hready⟩ := h uid v hrdc
          exact hready.stat
    exact ⟨hstat, List.append_ne_nil_of_right_ne_nil _ (List.cons_ne_nil _ _), hid ▸ huid⟩
  · rw [if_neg hid] at hv
    exact h id v hv

theorem addChunks_spec {rdcMap : RdcMap} (h : AllReady keeper record rdcMap)
    (dataChunk : RawData) {uids : List Nat} (hnodup : uids.Nodup)
    (huids : ∀ uid ∈ uids, uid < keeper.getNumOfEntries) :
    AllReady keeper record (uids.foldl (addChunk record dataChunk) rdcMap) ∧
      ∀ id, pending (uids.foldl (addChunk record dataChunk) rdcMap) id =
        pending rdcMap id ++ if id ∈ uids then [dataChunk] else [] := by
  induction uids generalizing rdcMap with
  | nil => exact ⟨h, fun id => (List.append_nil _).symm⟩
  | cons uid uids ih =>
      obtain ⟨hfresh, hnodup'⟩ := List.nodup_cons.mp hnodup
      obtain ⟨hready, hpending⟩ :=
        ih (allReady_addChunk h dataChunk (huids uid List.mem_cons_self)) hnodup'
          (fun uid' hmem => huids uid' (List.mem_cons_of_mem uid hmem))
      rw [List.foldl_cons]
      apply And.intro hready
      intro id
      rw [hpending, pending_addChunk, List.append_assoc]
      by_cases hid : uid = id
      · rw [if_pos hid, ← hid, if_neg hfresh, if_pos List.mem_cons_self, List.append_nil]
      · have hmem : id ∈ uid :: uids ↔ id ∈ uids := by
          rw [List.mem_cons]
          exact or_iff_right (fun heq => hid heq.symm)
        rw [if_neg hid, List.nil_append]
        simp only [hmem]

theorem chunksFor_cons (id : Nat) (c : RawData) (chunks : List RawData) :
    chunksFor keeper id (c :: chunks) =
      (if id ∈ keeper.getRxToId c.adr then [c] else []) ++ chunksFor keeper id chunks := by
  rw [chunksFor, List.filter_cons]
  by_cases hid : id ∈ keeper.getRxToId c.adr
  · rw [if_pos (decide_eq_true hid), if_pos hid]
    rfl
  · rw [if_neg (fun heq => hid (of_decide_eq_true heq)), if_neg hid]
    rfl

theorem chunksFor_append (id : Nat) (chunks chunks' : List RawData) :
    chunksFor keeper id (chunks ++ chunks') =
      chunksFor keeper id chunks ++ chunksFor keeper id chunks' := List.filter_append _ _

/-- The maps of the keeper agree with its entries. -/
def Bookkeeper.Routes (keeper : Bookkeeper FrontEnd) : Prop :=
  ∀ rx, keeper.getRxToId rx = Bookkeeper.idsOf keeper.bookEntries rx

theorem addData_spec (hroutes : keeper.Routes) {rdcMap : RdcMap}
    (h : AllReady keeper record rdcMap) (newData : List RawData) :
    AllReady keeper record (addData keeper record rdcMap newData) ∧
      ∀ id, pending (addData keeper record rdcMap newData) id =
        pending rdcMap id ++ chunksFor keeper id newData := by
  induction newData generalizing rdcMap with
  | nil => exact ⟨h, fun id => (List.append_nil _).symm⟩
  | cons c newData ih =>
      have hnodup : (keeper.getRxToId c.adr).Nodup := by
        rw [hroutes]
        exact Bookkeeper.idsOf_nodup _ _
      have hvalid : ∀ uid ∈ keeper.getRxToId c.adr, uid < keeper.getNumOfEntries := by
        intro uid huid
        rw [hroutes] at huid
        exact Bookkeeper.lt_of_mem_idsOf huid
      obtain ⟨hready, hpending⟩ := addChunks_spec h c hnodup hvalid
      obtain ⟨hready', hpending'⟩ := ih hready
      apply And.intro hready'
      intro id
      have hfirst : addData keeper record rdcMap (c :: newData) =
          addData keeper record ((keeper.getRxToId c.adr).foldl (addChunk record c) rdcMap)
            newData := rfl
      rw [hfirst, hpending', hpending, chunksFor_cons, List.append_assoc]

/-! ## Pushing -/

theorem pushData_apply (clips : Clips) (k : Nat) (data : Option RawDataContainer) (id : Nat) :
    pushData clips k data id = clips id ++ if k = id then [data] else [] := by
  rw [pushData, Function.update_apply]
  by_cases hid : id = k
  · rw [if_pos hid, if_pos hid.symm, hid]
  · rw [if_neg hid, if_neg (fun heq => hid heq.symm), List.append_nil]

theorem pushMarkers_apply (clips : Clips) {id : Nat} (h : id < keeper.getNumOfEntries) :
    pushMarkers keeper clips id = clips id ++ [some .iterEnd] := by
  have hloop : ∀ n, (List.range n).foldl (fun clips id => pushData clips id (some .iterEnd))
      clips id = clips id ++ if id < n then [some .iterEnd] else [] := by
    intro n
    induction n with
    | zero => exact (List.append_nil _).symm
    | succ n ih =>
        rw [List.range_succ, List.foldl_append, List.foldl_cons, List.foldl_nil, pushData_apply, ih]
        rcases Nat.lt_trichotomy id n with hlt | heq | hgt
        · rw [if_pos hlt, if_neg (Nat.ne_of_gt hlt), if_pos (Nat.lt_succ_of_lt hlt),
            List.append_nil]
        · rw [if_neg (by omega), if_pos heq.symm, if_pos (by omega), List.append_nil]
        · rw [if_neg (by omega), if_neg (by omega), if_neg (by omega), List.append_nil]
  rw [pushMarkers, hloop, if_pos h]

/-- What goes to a front-end for its container of the map. -/
def sent (out : RawDataContainer → List (Option RawDataContainer)) (rdcMap : RdcMap) (id : Nat) :
    List (Option RawDataContainer) :=
  (rdcMap[id]?.join.map out).getD []

theorem chunksOf_append (l l' : List (Option RawDataContainer)) :
    chunksOf (l ++ l') = chunksOf l ++ chunksOf l' := List.flatMap_append

section Flush

variable {out : RawDataContainer → List (Option RawDataContainer)}

theorem chunksOf_sent (hout : ∀ rdc, chunksOf (out rdc) = rdc.data) (rdcMap : RdcMap) (id : Nat) :
    chunksOf (sent out rdcMap id) = pending rdcMap id := by
  rw [sent, pending]
  cases rdcMap[id]?.join with
  | none => rfl
  | some rdc => exact hout rdc

theorem forall_mem_sent {P : Option RawDataContainer → Prop}
    (hout : ∀ id rdc, Ready keeper record id rdc → ∀ c ∈ out rdc, P c) {rdcMap : RdcMap}
    (h : AllReady keeper record rdcMap) (id : Nat) : ∀ c ∈ sent out rdcMap id, P c := by
  intro c hc
  rw [sent] at hc
  cases hv : rdcMap[id]? with
  | none =>
      rw [hv] at hc
      exact absurd hc List.not_mem_nil
  | some v =>
      obtain ⟨rdc, rfl, hready⟩ := h id v hv
      rw [hv] at hc
      exact hout id rdc hready c hc

theorem filter_toList (rdcMap : RdcMap) (id : Nat) :
    rdcMap.toList.filter (fun e => decide (e.1 = id)) =
      (rdcMap[id]?.map fun v => [(id, v)]).getD [] := by
  have hdistinct := Std.TreeMap.distinct_keys_toList (t := rdcMap)
  have hmem : ∀ v, (id, v) ∈ rdcMap.toList ↔ rdcMap[id]? = some v := fun v =>
    Std.TreeMap.mem_toList_iff_getElem?_eq_some
  generalize rdcMap.toList = l at hdistinct hmem
  cases hv : rdcMap[id]? with
  | none =>
      apply List.filter_eq_nil_iff.mpr
      intro e he heq
      obtain rfl := of_decide_eq_true heq
      have hsome := (hmem e.2).mp he
      rw [hv] at hsome
      cases hsome
  | some v =>
      obtain ⟨l₁, l₂, hl⟩ := List.append_of_mem ((hmem v).mpr hv)
      rw [hl, List.pairwise_append, List.pairwise_cons] at hdistinct
      obtain ⟨-, ⟨hafter, -⟩, hbefore⟩ := hdistinct
      have hl₁ : l₁.filter (fun e => decide (e.1 = id)) = [] := by
        apply List.filter_eq_nil_iff.mpr
        intro e he heq
        apply hbefore e he (id, v) List.mem_cons_self
        exact Std.compare_eq_iff_eq.mpr (of_decide_eq_true heq)
      have hl₂ : l₂.filter (fun e => decide (e.1 = id)) = [] := by
        apply List.filter_eq_nil_iff.mpr
        intro e he heq
        apply hafter e he
        exact Std.compare_eq_iff_eq.mpr (of_decide_eq_true heq).symm
      rw [hl, List.filter_append, List.filter_cons, if_pos (decide_eq_true rfl), hl₁, hl₂]
      rfl

/-- What the containers of a list send to a front-end. -/
def sentBy (out : RawDataContainer → List (Option RawDataContainer))
    (l : List (Nat × Option RawDataContainer)) (id : Nat) : List (Option RawDataContainer) :=
  (l.filter fun e => decide (e.1 = id)).flatMap fun e => (e.2.map out).getD []

/-- A loop over the map that sends to the front-end of each container. -/
theorem flush_spec {σ : Type} (clips : σ → Clips)
    {push : σ → Nat × Option RawDataContainer → Except Stop σ}
    (hpush : ∀ s id rdc, Ready keeper record id rdc → Ensures (push s (id, some rdc))
      fun s' => ∀ k, clips s' k = clips s k ++ if id = k then out rdc else [])
    {rdcMap : RdcMap} (h : AllReady keeper record rdcMap) (s : σ) :
    Ensures (rdcMap.toList.foldlM push s)
      fun s' => ∀ id, clips s' id = clips s id ++ sent out rdcMap id := by
  have hloop : Ensures (rdcMap.toList.foldlM push s)
      fun s' => ∀ k, clips s' k = clips s k ++ sentBy out ([] ++ rdcMap.toList) k := by
    apply ensures_foldlM (I := fun done s' => ∀ k, clips s' k = clips s k ++ sentBy out done k)
    · intro done s' e he hs'
      obtain ⟨id, v⟩ := e
      have hv := Std.TreeMap.mem_toList_iff_getElem?_eq_some.mp he
      obtain ⟨rdc, rfl, hready⟩ := h id v hv
      apply (hpush s' id rdc hready).mono
      intro s'' hs'' k
      rw [hs'', hs', sentBy, sentBy, List.filter_append, List.flatMap_append, List.append_assoc]
      by_cases hid : id = k
      · rw [if_pos hid, List.filter_cons, if_pos (decide_eq_true hid)]
        simp
      · rw [if_neg hid, List.filter_cons, if_neg (fun heq => hid (of_decide_eq_true heq))]
        simp
    · intro k
      exact (List.append_nil _).symm
  apply hloop.mono
  intro s' hs' id
  rw [hs', List.nil_append, sentBy, filter_toList, sent]
  cases rdcMap[id]? with
  | none => rfl
  | some v =>
      cases v with
      | none => rfl
      | some rdc => exact congrArg _ (List.append_nil _)

end Flush

theorem pushContainer_spec {id : Nat} {rdc : RawDataContainer}
    (h : Ready keeper record id rdc) (clips : Clips) :
    pushContainer keeper clips id (some rdc) =
      pure (pushData clips id (some (rdc.setEnd false))) := by
  have hlt : id < keeper.bookEntries.length := h.present
  have hfe : keeper.getFe id = some keeper.bookEntries[id].fe := by
    rw [Bookkeeper.getFe, List.getElem?_eq_getElem hlt]
    rfl
  simp only [pushContainer, hfe]

/-- A container of the map goes out alone. -/
def alone (rdc : RawDataContainer) : List (Option RawDataContainer) := [some (rdc.setEnd false)]

theorem chunksOf_alone (rdc : RawDataContainer) : chunksOf (alone rdc) = rdc.data :=
  List.append_nil _

theorem data_alone {id : Nat} {rdc : RawDataContainer} (h : Ready keeper record id rdc) :
    ∀ c ∈ alone rdc, Data record c := by
  intro c hc
  have hstat : (rdc.setEnd false).stat = record.setEnd false := by
    rw [← h.stat]
    rfl
  exact ⟨rdc.setEnd false, List.mem_singleton.mp hc, hstat⟩

end Yarr.Scan

/-!
## The data gatherer

`StdDataGatherer::execPart2` reads once in every pass. It hands the chunks on
when it has many of them or has read often, and then closes an iteration for
each front-end that got data.
-/

namespace Yarr.Scan

open Script

/-- The results that one pass gets. An interrupt acts through `isTrigDone` only. -/
structure PassResults where
  triggerIsDone : Bool
  newData : List RawData

structure StdDataGatherer where
  m_maxConsecutiveRxReads : UInt32
  m_maxRxReadSize : UInt32

namespace StdDataGatherer

structure State where
  count : UInt32
  nAllRxReadIterations : UInt32
  newData : List RawData
  rdcMap : RdcMap
  clips : Clips

variable {FrontEnd : Type} (keeper : Bookkeeper FrontEnd) (record : LoopStatus)
  (gatherer : StdDataGatherer)

/-- A container is not pushed when it is empty. -/
def pushNonEmpty (clips : Clips) (e : Nat × Option RawDataContainer) : Except Stop Clips :=
  match e.2 with
  | none => .error .crash
  | some rdc => if rdc.data.length > 0 then pushContainer keeper clips e.1 e.2 else pure clips

/-- With an end of iteration behind it. -/
def pushClosed (clips : Clips) (e : Nat × Option RawDataContainer) : Except Stop Clips :=
  match e.2 with
  | none => .error .crash
  | some rdc =>
      if rdc.data.length > 0 then do
        let clips ← pushContainer keeper clips e.1 e.2
        pure (pushData clips e.1 (some .iterEnd))
      else pure clips

def gather (s : State) (newData : List RawData) : State :=
  if newData.length > 0 then
    { s with
      count := newData.foldl (fun count dataChunk => count + dataChunk.getSize) s.count
      rdcMap := addData keeper record s.rdcMap newData
      newData := [] }
  else { s with newData := newData }

def pass (s : State) (newData : List RawData) : Except Stop State := do
  let s := gather keeper record { s with nAllRxReadIterations := s.nAllRxReadIterations + 1 } newData
  if s.count > gatherer.m_maxRxReadSize ∨
      s.nAllRxReadIterations > gatherer.m_maxConsecutiveRxReads then
    let clips ← s.rdcMap.toList.foldlM (pushClosed keeper) s.clips
    pure { s with count := 0, nAllRxReadIterations := 0, rdcMap := ∅, clips := clips }
  else pure s

/-- The results that are left over come with the state. -/
def passes : List PassResults → State → Except Stop (State × List PassResults)
  | [], _ => .error .waiting
  | r :: results, s => do
      let s ← pass keeper record gatherer s r.newData
      if r.triggerIsDone then pure (s, results) else passes results s

/-- What the call has pushed, and the results that it has not asked for. -/
def execPart2 (results : List PassResults) : Except Stop (Clips × List PassResults) := do
  let (s, results) ← passes keeper record gatherer results ⟨0, 0, [], ∅, fun _ => []⟩
  -- leftover chunks
  let s := gather keeper record s s.newData
  let clips ← s.rdcMap.toList.foldlM (pushNonEmpty keeper) s.clips
  pure (pushMarkers keeper clips, results)

end StdDataGatherer

end Yarr.Scan

/-!
## The data loop

`StdDataLoop::execPart2` reads until the receiver has nothing more, hands the
chunks on and looks for the feedback of the data processors, over and over
until the trigger is done and all the events have come back or the time is up.
-/

namespace Yarr.Scan

open Script

structure FeedbackProcessingInfo where
  trigger_tag : Int

/-- One call of `readData`, and what `getCurCount` says after it. -/
structure Read where
  newData : List RawData
  curCount : UInt32

/-- The other results that one Rx cycle gets. A round has what the channels give until they
are silent. -/
structure CycleResults where
  rounds : List (Nat → List FeedbackProcessingInfo)
  thereIsStillTime : Bool
  triggerIsDone : Bool

structure StdDataLoop where
  m_maxConsecutiveRxReads : UInt32
  ntriggersToReceive : UInt32

namespace StdDataLoop

structure State where
  clips : Clips
  activeChannels : Finset Nat
  channelReceivedTriggersCnt : Nat → UInt32

/-- Inside one Rx cycle. -/
structure Reading where
  nReadsInCurrentRxCycle : UInt32
  rdcMap : RdcMap
  clips : Clips
  activeChannels : Finset Nat

variable {FrontEnd : Type} (keeper : Bookkeeper FrontEnd) (record : LoopStatus)
  (loop : StdDataLoop)

def pushEntry (s : Clips × Finset Nat) (e : Nat × Option RawDataContainer) :
    Except Stop (Clips × Finset Nat) := do
  let clips ← pushContainer keeper s.1 e.1 e.2
  pure (clips, insert e.1 s.2)

def pushAll (s : Reading) : Except Stop (Clips × Finset Nat) :=
  s.rdcMap.toList.foldlM (pushEntry keeper) (s.clips, s.activeChannels)

def readOnce (s : Reading) (newData : List RawData) : Except Stop Reading := do
  let nReads := s.nReadsInCurrentRxCycle + 1
  if newData.length > 0 then
    let s := { s with rdcMap := addData keeper record s.rdcMap newData }
    if nReads > loop.m_maxConsecutiveRxReads then
      let (clips, activeChannels) ← pushAll keeper s
      pure ⟨0, ∅, clips, activeChannels⟩
    else pure { s with nReadsInCurrentRxCycle := nReads }
  else pure { s with nReadsInCurrentRxCycle := nReads }

/-- The reads that are left over come with the state. -/
def readLoop : List Read → Reading → Except Stop (Reading × List Read)
  | [], _ => .error .waiting
  | r :: reads, s => do
      let s ← readOnce keeper record loop s r.newData
      if r.newData.length > 0 ∨ r.curCount ≠ 0 then readLoop reads s else pure (s, reads)

def countTriggers (n : UInt32) (params : FeedbackProcessingInfo) : UInt32 :=
  if params.trigger_tag ≥ 0 then n + 1 else n

/-- Round after round, until there is one in which all the active channels are silent. -/
def feedbackLoop (activeChannels : Finset Nat) :
    List (Nat → List FeedbackProcessingInfo) → (Nat → UInt32) → Except Stop (Nat → UInt32)
  | [], _ => .error .waiting
  | round :: rounds, received =>
      let received' := fun id =>
        if id ∈ activeChannels then (round id).foldl countTriggers (received id) else received id
      if ∃ id ∈ activeChannels, (round id).length > 0 then
        feedbackLoop activeChannels rounds received'
      else pure received'

/-- One Rx cycle, and whether there is another one. -/
def rxCycle (r : CycleResults) (reads : List Read) (s : State) :
    Except Stop (State × Bool × List Read) := do
  let (reading, reads) ← readLoop keeper record loop reads ⟨0, ∅, s.clips, s.activeChannels⟩
  let (clips, activeChannels) ← pushAll keeper reading
  let received ← feedbackLoop activeChannels r.rounds s.channelReceivedTriggersCnt
  let channelsWithAllTrigsN := (List.range keeper.getNumOfEntries).countP
    fun id => received id ≥ loop.ntriggersToReceive
  let receivedAllTriggers : Bool := channelsWithAllTrigsN ≥ keeper.getNumOfEntries
  let receivingRxData := !r.triggerIsDone || (r.thereIsStillTime && !receivedAllTriggers)
  pure (⟨clips, activeChannels, received⟩, receivingRxData, reads)

def cycles : List CycleResults → List Read → State → Except Stop (Clips × List Read)
  | [], _, _ => .error .waiting
  | r :: results, reads, s => do
      let (s, receivingRxData, reads) ← rxCycle keeper record loop r reads s
      if receivingRxData then cycles results reads s else pure (s.clips, reads)

/-- What the call has pushed, and the reads that it has not asked for. -/
def execPart2 (results : List CycleResults) (reads : List Read) :
    Except Stop (Clips × List Read) := do
  let (clips, reads) ← cycles keeper record loop results reads ⟨fun _ => [], ∅, fun _ => 0⟩
  pure (pushMarkers keeper clips, reads)

end StdDataLoop

end Yarr.Scan
