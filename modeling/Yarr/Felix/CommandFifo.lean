import Yarr.Felix.FelixTxCore

/-!
# Between two channel changes

For one link the transmitter is a queue that is flushed: the words written for
the link enter its buffer, and its messages carry them out. The emptiness test
looks at enabled links only, and the broadcast link is usually not one.
-/

namespace Yarr.Felix

open Std FelixTools

namespace FelixTxCore

variable (tx : FelixTxCore)

/-- The bytes of all messages for a link. -/
def sentTo (fid : FelixID) : List UInt8 :=
  (tx.messages.filter fun m => m.1 == fid).flatMap Prod.snd

def outbox (fid : FelixID) : Outbox UInt8 UInt8 := ⟨tx.sentTo fid, tx.buffer fid⟩

/-- One byte on its way to the client. -/
def wire (m_flip : Bool) (word : UInt8) : UInt8 := if m_flip then swapNibbles word else word

theorem prepareFifo_eq (m_flip : Bool) (fifo : List UInt8) :
    prepareFifo m_flip fifo = fifo.map (wire m_flip) := rfl

/-! ## Single calls -/

@[simp] theorem sentTo_setBuffer (fid f : FelixID) (fifo : List UInt8) :
    (tx.setBuffer fid fifo).sentTo f = tx.sentTo f := rfl

@[simp] theorem sentTo_createBuffer (fid f : FelixID) :
    (tx.createBuffer fid).sentTo f = tx.sentTo f := rfl

@[simp] theorem buffer_send_data (fid f : FelixID) (data : List UInt8) :
    (tx.send_data fid data).buffer f = tx.buffer f := rfl

theorem sentTo_send_data (fid f : FelixID) (data : List UInt8) :
    (tx.send_data fid data).sentTo f = tx.sentTo f ++ if fid = f then data else [] := by
  by_cases h : fid = f <;> simp [send_data, sentTo, h]

theorem buffer_setBuffer (fid f : FelixID) (fifo : List UInt8) :
    (tx.setBuffer fid fifo).buffer f = if fid = f then fifo else tx.buffer f := by
  simp [setBuffer, buffer, TreeMap.getD_insert]

@[simp] theorem buffer_createBuffer (fid f : FelixID) :
    (tx.createBuffer fid).buffer f = tx.buffer f := by
  simp only [createBuffer, buffer, TreeMap.getD_insertIfNew, Std.compare_eq_iff_eq]
  by_cases h : fid = f ∧ fid ∉ tx.m_fifo
  · have hnew : tx.m_fifo.getD f [] = [] := TreeMap.getD_eq_fallback (h.1 ▸ h.2)
    rw [if_pos h, hnew]
  · rw [if_neg h]

theorem mem_fifo_of_buffer {fid : FelixID} (h : tx.buffer fid ≠ []) : fid ∈ tx.m_fifo := by
  by_contra hnot
  exact h (TreeMap.getD_eq_fallback hnot)

theorem sendFifo_passes (fid f : FelixID) :
    Outbox.Passes (wire tx.m_flip) (tx.outbox f) ((tx.sendFifo fid).outbox f) [] := by
  by_cases h : fid = f
  · subst h
    have hsent : (tx.sendFifo fid).sentTo fid
        = tx.sentTo fid ++ (tx.buffer fid).map (wire tx.m_flip) := by
      rw [sendFifo, sentTo_setBuffer, sentTo_send_data, if_pos rfl, prepareFifo_eq]
    have hheld : (tx.sendFifo fid).buffer fid = [] := by
      rw [sendFifo, buffer_setBuffer, if_pos rfl]
    rw [outbox, outbox, hsent, hheld]
    exact Outbox.Passes.flush _ (tx.outbox fid)
  · have hsame : (tx.sendFifo fid).outbox f = tx.outbox f := by
      simp [outbox, sendFifo, sentTo_send_data, buffer_setBuffer, h]
    rw [hsame]
    exact Outbox.Passes.refl _ _

theorem releaseEntry_setup (fid : FelixID) :
    (tx.releaseEntry fid).toFelixTxSetup = tx.toFelixTxSetup := by
  unfold releaseEntry
  split <;> rfl

theorem releaseEntry_passes (fid f : FelixID) :
    Outbox.Passes (wire tx.m_flip) (tx.outbox f) ((tx.releaseEntry fid).outbox f) [] := by
  unfold releaseEntry
  split
  · exact sendFifo_passes tx fid f
  · exact Outbox.Passes.refl _ _

theorem emptyEntry_setup (s : FelixTxCore × Bool) (fid : FelixID) :
    (emptyEntry s fid).1.toFelixTxSetup = s.1.toFelixTxSetup := by
  unfold emptyEntry
  split <;> rfl

theorem emptyEntry_passes (s : FelixTxCore × Bool) (fid f : FelixID) :
    Outbox.Passes (wire s.1.m_flip) (s.1.outbox f) ((emptyEntry s fid).1.outbox f) [] := by
  unfold emptyEntry
  split
  · exact sendFifo_passes s.1 fid f
  · exact Outbox.Passes.refl _ _

/-! ## The calls -/

theorem writeFifo_setup (value : UInt32) :
    (tx.writeFifo value).toFelixTxSetup = tx.toFelixTxSetup := by
  unfold writeFifo
  split <;> rfl

theorem buffer_writeFifo (value : UInt32) (f : FelixID) :
    (tx.writeFifo value).buffer f
      = tx.buffer f ++ if tx.addressed f then wordBytes value else [] := by
  unfold writeFifo FelixTxSetup.addressed
  by_cases hb : tx.broadcasting
  · rw [if_pos hb, buffer_setBuffer, fillFifo_eq]
    by_cases hf : tx.broadcastFid = f
    · simp [hb, hf]
    · have hf' : f ≠ tx.broadcastFid := fun h => hf h.symm
      simp [hb, hf, hf']
  · rw [if_neg hb]
    simp only [buffer, TreeMap.getD_map, hb, Bool.false_eq_true, if_false]
    by_cases he : tx.enabled f
    · have hmem := tx.enabled_mem_fifo f he
      simp [he, fillFifo_eq, TreeMap.getD_eq_getD_getElem?,
        TreeMap.getElem?_eq_some_getElem hmem]
    · simp [he, TreeMap.getD_eq_getD_getElem?]

theorem writeFifo_passes (value : UInt32) (f : FelixID) :
    Outbox.Passes (wire tx.m_flip) (tx.outbox f) ((tx.writeFifo value).outbox f)
      (if tx.addressed f then wordBytes value else []) := by
  have hsent : (tx.writeFifo value).sentTo f = tx.sentTo f := by
    unfold writeFifo
    split <;> rfl
  have hafter : (tx.writeFifo value).outbox f
      = ⟨tx.sentTo f, tx.buffer f ++ if tx.addressed f then wordBytes value else []⟩ := by
    rw [outbox, hsent, buffer_writeFifo]
  rw [hafter]
  exact Outbox.Passes.put _ (tx.outbox f) _

theorem releaseFifo_setup : tx.releaseFifo.toFelixTxSetup = tx.toFelixTxSetup := by
  unfold releaseFifo
  split
  · dsimp only
    split <;> rfl
  · exact List.foldlRecOn tx.m_fifo.keys releaseEntry
      (motive := fun s => s.toFelixTxSetup = tx.toFelixTxSetup) rfl
      fun s hs fid _ => (releaseEntry_setup s fid).trans hs

theorem releaseFifo_passes (f : FelixID) :
    Outbox.Passes (wire tx.m_flip) (tx.outbox f) (tx.releaseFifo.outbox f) [] := by
  have hcreate : (tx.createBuffer tx.broadcastFid).outbox f = tx.outbox f := by
    rw [outbox, sentTo_createBuffer, buffer_createBuffer, outbox]
  unfold releaseFifo
  split
  · dsimp only
    split
    · have hsend := sendFifo_passes (tx.createBuffer tx.broadcastFid) tx.broadcastFid f
      rwa [hcreate] at hsend
    · rw [hcreate]
      exact Outbox.Passes.refl _ _
  · apply Outbox.passes_foldl (fun s : FelixTxCore => s.toFelixTxSetup = tx.toFelixTxSetup)
      (fun s => s.outbox f)
    · exact fun s fid hs => (releaseEntry_setup s fid).trans hs
    · intro s fid hs
      have hstep := releaseEntry_passes s fid f
      rwa [hs] at hstep
    · rfl

theorem isCmdEmpty_setup : tx.isCmdEmpty.1.toFelixTxSetup = tx.toFelixTxSetup :=
  List.foldlRecOn tx.m_fifo.keys emptyEntry
    (motive := fun s => s.1.toFelixTxSetup = tx.toFelixTxSetup) rfl
    fun s hs fid _ => (emptyEntry_setup s fid).trans hs

theorem isCmdEmpty_passes (f : FelixID) :
    Outbox.Passes (wire tx.m_flip) (tx.outbox f) (tx.isCmdEmpty.1.outbox f) [] := by
  apply Outbox.passes_foldl
    (fun s : FelixTxCore × Bool => s.1.toFelixTxSetup = tx.toFelixTxSetup)
    (fun s => s.1.outbox f)
  · exact fun s fid hs => (emptyEntry_setup s fid).trans hs
  · intro s fid hs
    have hstep := emptyEntry_passes s fid f
    rwa [hs] at hstep
  · rfl

theorem foldl_emptyEntry_true_iff (fids : List FelixID) (s : FelixTxCore × Bool) :
    (fids.foldl emptyEntry s).2 = true
      ↔ s.2 = true ∧ ∀ fid ∈ fids, s.1.enabled fid → s.1.buffer fid = [] := by
  induction fids generalizing s with
  | nil => simp
  | cons fid fids ih =>
      rw [List.foldl_cons, ih]
      by_cases hsend : s.1.enabled fid ∧ s.1.buffer fid ≠ []
      · have hfalse : (emptyEntry s fid).2 = false := by rw [emptyEntry, if_pos hsend]
        rw [hfalse]
        constructor
        · intro h
          exact absurd h.1 Bool.false_ne_true
        · intro h
          exact absurd (h.2 fid List.mem_cons_self hsend.1) hsend.2
      · have hkeep : emptyEntry s fid = s := by rw [emptyEntry, if_neg hsend]
        have hhere : s.1.enabled fid → s.1.buffer fid = [] := by
          intro he
          by_contra hne
          exact hsend ⟨he, hne⟩
        rw [hkeep, List.forall_mem_cons]
        exact ⟨fun h => ⟨h.1, hhere, h.2⟩, fun h => ⟨h.1, h.2.2⟩⟩

theorem foldl_emptyEntry_of_true {fids : List FelixID} {s : FelixTxCore × Bool}
    (h : (fids.foldl emptyEntry s).2 = true) : fids.foldl emptyEntry s = s := by
  induction fids generalizing s with
  | nil => rfl
  | cons fid fids ih =>
      have hnone := ((foldl_emptyEntry_true_iff (fid :: fids) s).mp h).2 fid List.mem_cons_self
      have hkeep : emptyEntry s fid = s := by
        rw [emptyEntry, if_neg fun hsend => hsend.2 (hnone hsend.1)]
      rw [List.foldl_cons, hkeep] at h ⊢
      exact ih h

theorem isCmdEmpty_true_iff :
    tx.isCmdEmpty.2 = true ↔ ∀ fid, tx.enabled fid → tx.buffer fid = [] := by
  rw [isCmdEmpty, foldl_emptyEntry_true_iff]
  constructor
  · intro h fid he
    by_contra hne
    exact hne (h.2 fid (TreeMap.mem_keys.mpr (mem_fifo_of_buffer tx hne)) he)
  · intro h
    exact ⟨rfl, fun fid _ he => h fid he⟩

theorem isCmdEmpty_of_true (h : tx.isCmdEmpty.2 = true) : tx.isCmdEmpty.1 = tx := by
  rw [isCmdEmpty] at h ⊢
  rw [foldl_emptyEntry_of_true h]

/-! ## Sequences of calls -/

inductive Call where
  | writeFifo (value : UInt32)
  | releaseFifo
  | isCmdEmpty
  | isTrigDone (m_trigEnabled : Bool)
  deriving DecidableEq

def exec (tx : FelixTxCore) : Call → FelixTxCore
  | .writeFifo value => tx.writeFifo value
  | .releaseFifo => tx.releaseFifo
  | .isCmdEmpty => tx.isCmdEmpty.1
  | .isTrigDone m_trigEnabled => (tx.isTrigDone m_trigEnabled).1

def run (calls : List Call) : FelixTxCore := calls.foldl exec tx

/-- The call makes the emptiness test. -/
def Call.tests : Call → Bool
  | .isCmdEmpty => true
  | .isTrigDone m_trigEnabled => !m_trigEnabled
  | _ => false

/-- The bytes that one call writes for a link. -/
def callBytes (setup : FelixTxSetup) (fid : FelixID) : Call → List UInt8
  | .writeFifo value => if setup.addressed fid then wordBytes value else []
  | _ => []

theorem exec_setup (call : Call) : (tx.exec call).toFelixTxSetup = tx.toFelixTxSetup := by
  cases call with
  | writeFifo value => exact writeFifo_setup tx value
  | releaseFifo => exact releaseFifo_setup tx
  | isCmdEmpty => exact isCmdEmpty_setup tx
  | isTrigDone m_trigEnabled =>
      cases m_trigEnabled with
      | false => exact isCmdEmpty_setup tx
      | true => rfl

theorem exec_passes (call : Call) (fid : FelixID) :
    Outbox.Passes (wire tx.m_flip) (tx.outbox fid) ((tx.exec call).outbox fid)
      (callBytes tx.toFelixTxSetup fid call) := by
  cases call with
  | writeFifo value => exact writeFifo_passes tx value fid
  | releaseFifo => exact releaseFifo_passes tx fid
  | isCmdEmpty => exact isCmdEmpty_passes tx fid
  | isTrigDone m_trigEnabled =>
      cases m_trigEnabled with
      | false => exact isCmdEmpty_passes tx fid
      | true => exact Outbox.Passes.refl _ _

theorem run_passes (calls : List Call) (fid : FelixID) :
    Outbox.Passes (wire tx.m_flip) (tx.outbox fid) ((tx.run calls).outbox fid)
      (calls.flatMap (callBytes tx.toFelixTxSetup fid)) := by
  induction calls generalizing tx with
  | nil => exact Outbox.Passes.refl _ _
  | cons call calls ih =>
      have hrest := ih (tx.exec call)
      rw [exec_setup] at hrest
      exact (exec_passes tx call fid).trans hrest

/-! ## What the emptiness test misses -/

/-- Nothing is buffered where the claim of an empty transmitter is about. -/
def AllSent : Prop := ∀ fid, tx.enabled fid ∨ fid = tx.broadcastFid → tx.buffer fid = []

/-- The broadcast buffer does not escape the test. -/
def BroadcastSeen : Prop :=
  tx.enabled tx.broadcastFid ∨ tx.buffer tx.broadcastFid = []
    ∨ ∃ fid, tx.enabled fid ∧ tx.buffer fid ≠ []

/-- A test that answers yes leaves nothing buffered. -/
def TestReliable : Prop := tx.isCmdEmpty.2 = true → tx.isCmdEmpty.1.AllSent

theorem testReliable_iff : tx.TestReliable ↔ tx.BroadcastSeen := by
  constructor
  · intro h
    by_cases hanswer : tx.isCmdEmpty.2 = true
    · have hall := h hanswer
      rw [isCmdEmpty_of_true tx hanswer] at hall
      exact Or.inr (Or.inl (hall _ (Or.inr rfl)))
    · rw [isCmdEmpty_true_iff] at hanswer
      push Not at hanswer
      exact Or.inr (Or.inr hanswer)
  · intro h hanswer
    rw [isCmdEmpty_of_true tx hanswer]
    have hnone := (isCmdEmpty_true_iff tx).mp hanswer
    intro fid hfid
    rcases hfid with he | rfl
    · exact hnone fid he
    · rcases h with he | hempty | ⟨fid, he, hne⟩
      · exact hnone _ he
      · exact hempty
      · exact absurd (hnone fid he) hne

/-- What the command buffers promise over a sequence of calls. -/
structure CommandsAccounted (calls : List Call) : Prop where
  conserved : ∀ fid, Outbox.Passes (wire tx.m_flip) (tx.outbox fid)
    ((tx.run calls).outbox fid) (calls.flatMap (callBytes tx.toFelixTxSetup fid))
  reliable : ∀ before call after, calls = before ++ call :: after → call.tests →
    (tx.run before).TestReliable

theorem commandsAccounted_iff (calls : List Call) :
    tx.CommandsAccounted calls ↔ ∀ before call after, calls = before ++ call :: after →
      call.tests → (tx.run before).BroadcastSeen := by
  constructor
  · intro h before call after hcalls htests
    exact (testReliable_iff _).mp (h.reliable before call after hcalls htests)
  · intro h
    constructor
    · exact run_passes tx calls
    · intro before call after hcalls htests
      exact (testReliable_iff _).mpr (h before call after hcalls htests)

/-- Two links, a buffer size of one word: the word stays in the broadcast buffer and the test
says that all is sent. -/
def heldBack : FelixTxCore :=
  (FelixTxCore.new { m_bufferSize := 4 }).setCmdEnable [0, 64]

theorem heldBack_not_accounted :
    ¬ heldBack.CommandsAccounted [.writeFifo 0xaabbccdd, .releaseFifo, .isCmdEmpty] := by
  intro h
  have hall := h.reliable [.writeFifo 0xaabbccdd, .releaseFifo] .isCmdEmpty [] rfl rfl
    (by decide +kernel) heldBack.broadcastFid (Or.inr (by decide +kernel))
  revert hall
  decide +kernel

end FelixTxCore

end Yarr.Felix
