import Yarr.Core.Bits
import Yarr.Felix.FelixTools
import Yarr.Scan.DataRouting

/-!
# The receiver threads

A thread queues the messages of its enabled links and counts what goes into the
queue and what is read out. What is cleared is counted nowhere, so that a read
loop which waits for the counts to meet does not end.
-/

namespace Yarr.Felix

open Scan FelixTools

/-- The codes that come with a message. -/
structure FelixClientStatus where
  FELIX_STATUS_FW_MALF : UInt8
  FELIX_STATUS_SW_MALF : UInt8
  FELIX_STATUS_FW_CRC : UInt8
  FELIX_STATUS_FW_TRUNC : UInt8
  FELIX_STATUS_SW_TRUNC : UInt8

structure QueueStatistics where
  messages_received : UInt64
  bytes_received : UInt64
  error : UInt64
  crc : UInt64
  truncated : UInt64

structure FelixRxThread where
  m_maxMessageSize : Nat
  m_rawData : List RawData
  m_doFlushBuffer : Bool
  m_total_data_in : UInt64
  m_total_data_out : UInt64
  m_total_bytes_in : UInt64
  m_total_bytes_out : UInt64
  m_enables : FelixID → Bool
  m_fidStats : FelixID → Option QueueStatistics

namespace FelixRxThread

def new (fid_list : List FelixID) (maxMessageSize : Nat) : FelixRxThread :=
  ⟨maxMessageSize, [], false, 0, 0, 0, 0, fun _ => false,
    fun fid => if fid ∈ fid_list then some ⟨0, 0, 0, 0, 0⟩ else none⟩

/-- The words of a buffer into which the bytes are copied. -/
def copied (numWords : UInt32) (data : List UInt8) : List UInt32 :=
  (List.range numWords.toNat).map fun i =>
    UInt32.ofNat (Bytes.load ((data.drop (4 * i)).take 4))

def byteSize (rd : RawData) : UInt64 := rd.getSize.toUInt64 * 4

variable (codes : FelixClientStatus) (rx : FelixRxThread)

def count (stats : QueueStatistics) (size : Nat) (status : UInt8) : QueueStatistics where
  messages_received := stats.messages_received + 1
  bytes_received := stats.bytes_received + UInt64.ofNat size
  error :=
    if status = codes.FELIX_STATUS_FW_MALF ∨ status = codes.FELIX_STATUS_SW_MALF then
      stats.error + 1
    else stats.error
  crc := if status = codes.FELIX_STATUS_FW_CRC then stats.crc + 1 else stats.crc
  truncated :=
    if status = codes.FELIX_STATUS_FW_TRUNC ∨ status = codes.FELIX_STATUS_SW_TRUNC then
      stats.truncated + 1
    else stats.truncated

def on_data_received (fid : FelixID) (data : List UInt8) (status : UInt8) : FelixRxThread :=
  let size := data.length
  if !rx.m_enables fid then rx
  else if rx.m_maxMessageSize > 0 ∧ size > rx.m_maxMessageSize then rx
  else
    let stats := count codes ((rx.m_fidStats fid).getD ⟨0, 0, 0, 0, 0⟩) size status
    let rx := { rx with m_fidStats := Function.update rx.m_fidStats fid (some stats) }
    let numWords := UInt32.ofNat ((size + 3) / 4)
    if rx.m_doFlushBuffer then rx
    else if numWords = 0 then rx
    else
      { rx with
        m_total_data_in := rx.m_total_data_in + 1
        m_total_bytes_in := rx.m_total_bytes_in + numWords.toUInt64 * 4
        m_rawData := rx.m_rawData ++
          [⟨UInt32.ofNat ((fid >>> 16) &&& 0x000fffff), copied numWords data⟩] }

/-- The queue is emptied; no counter is touched. -/
def clearRawData : FelixRxThread := { rx with m_rawData := [] }

def readData : Option RawData × FelixRxThread :=
  match rx.m_rawData with
  | [] => (none, rx)
  | rdp :: rest =>
      (some rdp, { rx with
        m_rawData := rest
        m_total_data_out := rx.m_total_data_out + 1
        m_total_bytes_out := rx.m_total_bytes_out + byteSize rdp })

def flush (doflush : Bool) : FelixRxThread := { rx with m_doFlushBuffer := doflush }

def setChannel (fid : FelixID) (enable : Bool) : FelixRxThread :=
  { rx with m_enables := Function.update rx.m_enables fid enable }

/-- The overload without a link is for the links of the thread. -/
def setChannels (enable : Bool) : FelixRxThread :=
  { rx with m_enables := fun fid =>
      if (rx.m_fidStats fid).isSome then enable else rx.m_enables fid }

def getCurCount : UInt32 := (rx.m_total_data_in - rx.m_total_data_out).toUInt32

def getCurBytes : UInt32 := (rx.m_total_bytes_in - rx.m_total_bytes_out).toUInt32

inductive RxCall where
  | on_data_received (fid : FelixID) (data : List UInt8) (status : UInt8)
  | readData
  | clearRawData
  | flush (doflush : Bool)
  | enableChannel (fid : FelixID)
  | enableChannels
  | disableChannel (fid : FelixID)
  | disableChannels

def exec : RxCall → FelixRxThread
  | .on_data_received fid data status => rx.on_data_received codes fid data status
  | .readData => rx.readData.2
  | .clearRawData => rx.clearRawData
  | .flush doflush => rx.flush doflush
  | .enableChannel fid => rx.setChannel fid true
  | .enableChannels => rx.setChannels true
  | .disableChannel fid => rx.setChannel fid false
  | .disableChannels => rx.setChannels false

def run (calls : List RxCall) : FelixRxThread := calls.foldl (exec codes) rx

def thrownAway : RxCall → List RawData
  | .clearRawData => rx.m_rawData
  | _ => []

/-- The data that the calls of `clearRawData` have thrown away. -/
def cleared : FelixRxThread → List RxCall → List RawData
  | _, [] => []
  | rx, call :: calls => rx.thrownAway call ++ cleared (rx.exec codes call) calls

/-! ## What the counters say -/

def bytes (rds : List RawData) : Nat := (rds.map fun rd => 4 * rd.getSize.toNat).sum

/-- The counters agree with the queue and what was cleared so far. -/
structure Holds (lost : List RawData) : Prop where
  data : rx.m_total_data_in - rx.m_total_data_out =
    UInt64.ofNat (rx.m_rawData.length + lost.length)
  bytes : rx.m_total_bytes_in - rx.m_total_bytes_out =
    UInt64.ofNat (bytes rx.m_rawData + bytes lost)

variable {rx} {lost : List RawData}

theorem bytes_append (xs ys : List RawData) : bytes (xs ++ ys) = bytes xs + bytes ys := by
  simp [bytes]

theorem add_sub_ofNat {x y : UInt64} {n : Nat} (h : x - y = UInt64.ofNat n) (k : UInt64) :
    x + k - y = UInt64.ofNat (n + k.toNat) := by
  rw [UInt64.ofNat_add, UInt64.ofNat_toNat, ← h]
  grind

theorem sub_add_ofNat {x y : UInt64} {n m : Nat} (k : UInt64) (h : x - y = UInt64.ofNat n)
    (hm : n = m + k.toNat) : x - (y + k) = UInt64.ofNat m := by
  rw [hm, UInt64.ofNat_add, UInt64.ofNat_toNat] at h
  grind

theorem toNat_byteSize (rd : RawData) : (byteSize rd).toNat = bytes [rd] := by
  have hlt := rd.getSize.toNat_lt
  unfold byteSize bytes
  rw [UInt64.toNat_mul, UInt32.toNat_toUInt64]
  simp
  omega

theorem length_copied (numWords : UInt32) (data : List UInt8) :
    (copied numWords data).length = numWords.toNat := by
  simp [copied]

/-- The queue and its counters stay as they are. -/
structure Keeps (rx rx' : FelixRxThread) : Prop where
  queue : rx'.m_rawData = rx.m_rawData
  data : rx'.m_total_data_in - rx'.m_total_data_out = rx.m_total_data_in - rx.m_total_data_out
  bytes : rx'.m_total_bytes_in - rx'.m_total_bytes_out =
    rx.m_total_bytes_in - rx.m_total_bytes_out

/-- One message goes into the queue and is counted. -/
structure Pushes (rx rx' : FelixRxThread) (rd : RawData) : Prop where
  queue : rx'.m_rawData = rx.m_rawData ++ [rd]
  data : rx'.m_total_data_in - rx'.m_total_data_out =
    rx.m_total_data_in + 1 - rx.m_total_data_out
  bytes : rx'.m_total_bytes_in - rx'.m_total_bytes_out =
    rx.m_total_bytes_in + byteSize rd - rx.m_total_bytes_out

theorem on_data_received_cases (fid : FelixID) (data : List UInt8) (status : UInt8) :
    Keeps rx (rx.on_data_received codes fid data status) ∨
      ∃ rd, Pushes rx (rx.on_data_received codes fid data status) rd := by
  unfold FelixRxThread.on_data_received
  by_cases henabled : rx.m_enables fid
  · by_cases hsize : rx.m_maxMessageSize > 0 ∧ data.length > rx.m_maxMessageSize
    · simp only [henabled, Bool.not_true, Bool.false_eq_true, if_false, if_pos hsize]
      exact Or.inl ⟨rfl, rfl, rfl⟩
    · simp only [henabled, Bool.not_true, Bool.false_eq_true, if_false, if_neg hsize]
      by_cases hflush : rx.m_doFlushBuffer
      · rw [if_pos hflush]
        exact Or.inl ⟨rfl, rfl, rfl⟩
      · rw [if_neg hflush]
        by_cases hwords : UInt32.ofNat ((data.length + 3) / 4) = 0
        · rw [if_pos hwords]
          exact Or.inl ⟨rfl, rfl, rfl⟩
        · rw [if_neg hwords]
          apply Or.inr
          refine ⟨_, rfl, rfl, ?_⟩
          unfold byteSize RawData.getSize
          rw [length_copied, UInt32.ofNat_toNat]
  · simp only [henabled, Bool.not_false, if_true]
    exact Or.inl ⟨rfl, rfl, rfl⟩

theorem Holds.of_keeps {rx' : FelixRxThread} (h : Holds rx lost) (hkeeps : Keeps rx rx') :
    Holds rx' lost := by
  constructor
  · rw [hkeeps.data, hkeeps.queue, h.data]
  · rw [hkeeps.bytes, hkeeps.queue, h.bytes]

theorem Holds.of_pushes {rx' : FelixRxThread} {rd : RawData} (h : Holds rx lost)
    (hpushes : Pushes rx rx' rd) : Holds rx' lost := by
  constructor
  · rw [hpushes.data, add_sub_ofNat h.data, hpushes.queue, List.length_append]
    congr 1
    simp
    omega
  · rw [hpushes.bytes, add_sub_ofNat h.bytes, hpushes.queue, bytes_append, toNat_byteSize]
    congr 1
    omega

theorem Holds.clearRawData (h : Holds rx lost) :
    Holds rx.clearRawData (lost ++ rx.m_rawData) := by
  constructor
  · show rx.m_total_data_in - rx.m_total_data_out = _
    rw [h.data]
    congr 1
    simp [FelixRxThread.clearRawData]
    omega
  · show rx.m_total_bytes_in - rx.m_total_bytes_out = _
    rw [h.bytes, bytes_append]
    congr 1
    simp [FelixRxThread.clearRawData, FelixRxThread.bytes]
    omega

theorem Holds.readData (h : Holds rx lost) : Holds rx.readData.2 lost := by
  unfold FelixRxThread.readData
  cases hq : rx.m_rawData with
  | nil => exact h
  | cons rdp rest =>
      have hdata := h.data
      have hbytes := h.bytes
      rw [hq] at hdata hbytes
      constructor
      · apply sub_add_ofNat 1 hdata
        simp
        omega
      · apply sub_add_ofNat (byteSize rdp) hbytes
        rw [toNat_byteSize]
        simp [FelixRxThread.bytes]
        omega

theorem Holds.exec (h : Holds rx lost) (call : RxCall) :
    Holds (rx.exec codes call) (lost ++ rx.thrownAway call) := by
  have hkept {rx' : FelixRxThread} (hkeeps : Keeps rx rx') : Holds rx' (lost ++ []) := by
    rw [List.append_nil]
    exact h.of_keeps hkeeps
  cases call with
  | on_data_received fid data status =>
      rcases @on_data_received_cases codes rx fid data status with hkeeps | ⟨rd, hpushes⟩
      · exact hkept hkeeps
      · show Holds _ (lost ++ [])
        rw [List.append_nil]
        exact h.of_pushes hpushes
  | readData =>
      show Holds _ (lost ++ [])
      rw [List.append_nil]
      exact h.readData
  | clearRawData => exact h.clearRawData
  | flush doflush => exact hkept ⟨rfl, rfl, rfl⟩
  | enableChannel fid => exact hkept ⟨rfl, rfl, rfl⟩
  | enableChannels => exact hkept ⟨rfl, rfl, rfl⟩
  | disableChannel fid => exact hkept ⟨rfl, rfl, rfl⟩
  | disableChannels => exact hkept ⟨rfl, rfl, rfl⟩

theorem Holds.run (h : Holds rx lost) (calls : List RxCall) :
    Holds (rx.run codes calls) (lost ++ cleared codes rx calls) := by
  induction calls generalizing rx lost with
  | nil => simpa [FelixRxThread.run, cleared] using h
  | cons call calls ih =>
      have hrest := ih (h.exec codes call)
      rw [List.append_assoc] at hrest
      exact hrest

theorem holds_new (fid_list : List FelixID) (maxMessageSize : Nat) :
    Holds (new fid_list maxMessageSize) [] := by
  constructor <;> simp [new, FelixRxThread.bytes]

/-- The counts of a thread are those of its queue. -/
structure Accounted (rx : FelixRxThread) : Prop where
  count : rx.getCurCount.toNat = rx.m_rawData.length
  bytes : rx.getCurBytes.toNat = bytes rx.m_rawData
  silent : rx.readData.1 = none → rx.readData.2.getCurCount = 0

/-- Nothing was thrown away, and the queue fits the counts, up to multiples of their range. -/
structure Tidy (rx : FelixRxThread) (lost : List RawData) : Prop where
  countFits : rx.m_rawData.length < 2 ^ 32
  noneLost : lost.length % 2 ^ 32 = 0
  bytesFit : bytes rx.m_rawData < 2 ^ 32
  noBytesLost : bytes lost % 2 ^ 32 = 0

theorem readData_none (h : rx.readData.1 = none) : rx.readData.2 = rx ∧ rx.m_rawData = [] := by
  unfold FelixRxThread.readData at h ⊢
  cases hq : rx.m_rawData with
  | nil => simp
  | cons rdp rest => simp [hq] at h

theorem toNat_toUInt32_ofNat (n : Nat) : (UInt64.ofNat n).toUInt32.toNat = n % 2 ^ 32 := by
  simp

theorem Holds.tidy_iff (h : Holds rx lost) : Accounted rx ↔ Tidy rx lost := by
  have hcount : rx.getCurCount.toNat = (rx.m_rawData.length + lost.length) % 2 ^ 32 := by
    unfold getCurCount
    rw [h.data, toNat_toUInt32_ofNat]
  have hbytes : rx.getCurBytes.toNat =
      (FelixRxThread.bytes rx.m_rawData + FelixRxThread.bytes lost) % 2 ^ 32 := by
    unfold getCurBytes
    rw [h.bytes, toNat_toUInt32_ofNat]
  constructor
  · intro ha
    have ha₁ := ha.count
    have ha₂ := ha.bytes
    rw [hcount] at ha₁
    rw [hbytes] at ha₂
    constructor <;> omega
  · intro ht
    have ht₁ := ht.countFits
    have ht₂ := ht.noneLost
    have ht₃ := ht.bytesFit
    have ht₄ := ht.noBytesLost
    constructor
    · omega
    · omega
    · intro hnone
      rw [(readData_none hnone).1]
      apply UInt32.toNat_inj.mp
      rw [hcount, (readData_none hnone).2]
      simpa using ht₂

end FelixRxThread

/-! ## The read loop -/

namespace FelixRxCore

def readData (rxThreads : List FelixRxThread) : List RawData × List FelixRxThread :=
  (rxThreads.filterMap fun frt => frt.readData.1, rxThreads.map fun frt => frt.readData.2)

def getCurCount (rxThreads : List FelixRxThread) : UInt32 :=
  rxThreads.foldl (fun cur_cnt frt => cur_cnt + frt.getCurCount) 0

theorem getCurCount_eq_zero {rxThreads : List FelixRxThread}
    (h : ∀ frt ∈ rxThreads, frt.getCurCount = 0) : getCurCount rxThreads = 0 := by
  unfold getCurCount
  induction rxThreads with
  | nil => rfl
  | cons frt rest ih =>
      rw [List.foldl_cons, h frt List.mem_cons_self]
      exact ih fun frt' hfrt' => h frt' (List.mem_cons_of_mem frt hfrt')

/-- What the loop reads when no more data arrive. -/
def polls : Nat → List FelixRxThread → List Read
  | 0, _ => []
  | n + 1, rxThreads =>
      ⟨(readData rxThreads).1, getCurCount (readData rxThreads).2⟩ :: polls n (readData rxThreads).2

variable {FrontEnd : Type} (keeper : Bookkeeper FrontEnd) (record : LoopStatus) (loop : StdDataLoop)

/-- After some reads the loop of `StdDataLoop::execPart2` does not wait for another one. -/
def ReadLoopEnds (rxThreads : List FelixRxThread) : Prop :=
  ∀ s, ∃ n, StdDataLoop.readLoop keeper record loop (polls n rxThreads) s ≠ .error .waiting

variable {keeper record loop}

theorem readOnce_ne_waiting (s : StdDataLoop.Reading) (newData : List RawData) :
    StdDataLoop.readOnce keeper record loop s newData ≠ .error .waiting := by
  have hentry (s : Clips × Finset Nat) (e : Nat × Option RawDataContainer) :
      StdDataLoop.pushEntry keeper s e ≠ .error .waiting :=
    Script.bind_ne_waiting (StdDataGatherer.pushContainer_ne_waiting _ _ _) fun clips h => by cases h
  unfold StdDataLoop.readOnce
  by_cases hdata : newData.length > 0
  · simp only [if_pos hdata]
    split
    · exact Script.bind_ne_waiting (Script.foldlM_ne_waiting hentry _ _) fun _ h => by cases h
    · exact fun h => by cases h
  · simp only [if_neg hdata]
    exact fun h => by cases h

/-- The counters of all threads agree with their queues. -/
def Settled (rxThreads : List FelixRxThread) : Prop :=
  ∀ frt ∈ rxThreads, ∃ lost, frt.Holds lost ∧ lost.length % 2 ^ 32 = 0

theorem Settled.readData {rxThreads : List FelixRxThread} (h : Settled rxThreads) :
    Settled (readData rxThreads).2 := by
  intro frt hfrt
  rcases List.mem_map.mp hfrt with ⟨frt', hfrt', rfl⟩
  rcases h frt' hfrt' with ⟨lost, hholds, hlost⟩
  exact ⟨lost, hholds.readData, hlost⟩

theorem getCurCount_of_empty {frt : FelixRxThread} {lost : List RawData} (h : frt.Holds lost)
    (hlost : lost.length % 2 ^ 32 = 0) (hempty : frt.m_rawData = []) : frt.getCurCount = 0 := by
  apply UInt32.toNat_inj.mp
  unfold FelixRxThread.getCurCount
  rw [h.data, FelixRxThread.toNat_toUInt32_ofNat, hempty]
  simpa using hlost

theorem readData_empty {rxThreads : List FelixRxThread}
    (hempty : ∀ frt ∈ rxThreads, frt.m_rawData = []) : readData rxThreads = ([], rxThreads) := by
  have hread (frt : FelixRxThread) (hfrt : frt ∈ rxThreads) : frt.readData = (none, frt) := by
    unfold FelixRxThread.readData
    rw [hempty frt hfrt]
  unfold readData
  congr 1
  · rw [List.filterMap_eq_nil_iff]
    intro frt hfrt
    rw [hread frt hfrt]
  · rw [List.map_congr_left fun frt hfrt => congrArg Prod.snd (hread frt hfrt)]
    exact List.map_id rxThreads

theorem length_readData_le {rxThreads : List FelixRxThread} {n : Nat}
    (hn : ∀ frt ∈ rxThreads, frt.m_rawData.length ≤ n + 1) :
    ∀ frt ∈ (readData rxThreads).2, frt.m_rawData.length ≤ n := by
  intro frt hfrt
  rcases List.mem_map.mp hfrt with ⟨frt', hfrt', rfl⟩
  have hlen := hn frt' hfrt'
  unfold FelixRxThread.readData
  cases hq : frt'.m_rawData with
  | nil => simp [hq]
  | cons rdp rest =>
      rw [hq, List.length_cons] at hlen
      exact Nat.le_of_succ_le_succ hlen

theorem readLoop_ends (n : Nat) {rxThreads : List FelixRxThread} (h : Settled rxThreads)
    (hn : ∀ frt ∈ rxThreads, frt.m_rawData.length ≤ n) (s : StdDataLoop.Reading) :
    StdDataLoop.readLoop keeper record loop (polls (n + 1) rxThreads) s ≠ .error .waiting := by
  induction n generalizing rxThreads s with
  | zero =>
      have hempty : ∀ frt ∈ rxThreads, frt.m_rawData = [] := fun frt hfrt =>
        List.length_eq_zero_iff.mp (Nat.le_zero.mp (hn frt hfrt))
      have hcount : getCurCount rxThreads = 0 := by
        apply getCurCount_eq_zero
        intro frt hfrt
        rcases h frt hfrt with ⟨lost, hholds, hlost⟩
        exact getCurCount_of_empty hholds hlost (hempty frt hfrt)
      rw [polls, readData_empty hempty, StdDataLoop.readLoop]
      apply Script.bind_ne_waiting (readOnce_ne_waiting s _)
      intro s' hwaits
      simp [hcount] at hwaits
      cases hwaits
  | succ n ih =>
      rw [polls, StdDataLoop.readLoop]
      apply Script.bind_ne_waiting (readOnce_ne_waiting s _)
      intro s'
      split
      · exact ih h.readData (length_readData_le hn) s'
      · exact fun h => by cases h

/-! ## The accounting of a receiver -/

/-- A receiver thread and the calls that it has had. -/
structure RxRun where
  fid_list : List FelixID
  maxMessageSize : Nat
  calls : List FelixRxThread.RxCall

def RxRun.thread (codes : FelixClientStatus) (r : RxRun) : FelixRxThread :=
  (FelixRxThread.new r.fid_list r.maxMessageSize).run codes r.calls

def RxRun.lost (codes : FelixClientStatus) (r : RxRun) : List RawData :=
  FelixRxThread.cleared codes (.new r.fid_list r.maxMessageSize) r.calls

theorem RxRun.holds (codes : FelixClientStatus) (r : RxRun) :
    (r.thread codes).Holds (r.lost codes) := by
  have hrun := (FelixRxThread.holds_new r.fid_list r.maxMessageSize).run codes r.calls
  rwa [List.nil_append] at hrun

/-- The counts are right after the calls, and the read loop over the threads ends, exactly when
no data were thrown away and the queues fit the counts. -/
theorem rx_accounted_iff (codes : FelixClientStatus) (runs : List RxRun) :
    (∀ r ∈ runs, (r.thread codes).Accounted) ∧
        ReadLoopEnds keeper record loop (runs.map fun r => r.thread codes) ↔
      ∀ r ∈ runs, (r.thread codes).Tidy (r.lost codes) := by
  constructor
  · intro h r hr
    exact (r.holds codes).tidy_iff.mp (h.1 r hr)
  · intro htidy
    apply And.intro (fun r hr => (r.holds codes).tidy_iff.mpr (htidy r hr))
    intro s
    have hsettled : Settled (runs.map fun r => r.thread codes) := by
      intro frt hfrt
      rcases List.mem_map.mp hfrt with ⟨r, hr, rfl⟩
      exact ⟨r.lost codes, r.holds codes, (htidy r hr).noneLost⟩
    have hlen : ∀ frt ∈ runs.map fun r => r.thread codes, frt.m_rawData.length ≤ 2 ^ 32 := by
      intro frt hfrt
      rcases List.mem_map.mp hfrt with ⟨r, hr, rfl⟩
      exact Nat.le_of_lt (htidy r hr).countFits
    exact ⟨2 ^ 32 + 1, readLoop_ends (2 ^ 32) hsettled hlen s⟩

/-- One message arrives and is cleared. -/
def clearedRun : RxRun where
  fid_list := [0x10000]
  maxMessageSize := 0
  calls := [.enableChannels, .on_data_received 0x10000 [1, 2, 3] 0, .clearRawData]

def statusBits : FelixClientStatus := ⟨4, 16, 8, 1, 2⟩

theorem clearedRun_unaccounted : ¬(clearedRun.thread statusBits).Accounted := by
  intro h
  have hcount := h.count
  revert hcount
  decide

end FelixRxCore

end Yarr.Felix
