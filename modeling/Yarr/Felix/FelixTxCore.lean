import Std.Data.TreeMap.AdditionalOperations
import Std.Data.TreeMap.Lemmas
import Yarr.Core.Bits
import Yarr.Core.Transport
import Yarr.Felix.FelixTools

/-!
# The command side of the FELIX transmitter

Every link has a buffer. Command words go into the buffers of the enabled
links, or of the broadcast link alone, and leave them as messages when a
buffer has grown past a size or when the caller asks whether all is sent.
-/

namespace Yarr.Felix

open Std FelixTools

/-- `BroadcastLink << 6 | BroadcastElink`. -/
def BroadcastChn : Nat := 0x1f <<< 6 ||| 0x3f

/-- Settings and enabled channels: what no call between two channel changes alters. -/
structure FelixTxSetup where
  m_did : Nat := 0
  m_cid : Nat := 0
  m_protocol : Nat := 0
  m_flip : Bool := false
  m_bufferSize : Nat := 0
  m_broadcast : Bool := true
  m_idleWords : List UInt8 := []
  m_numEnabledChns : Nat := 0
  m_enables : TreeMap FelixID Bool := ∅

namespace FelixTxSetup

variable (tx : FelixTxSetup)

def fid_from_channel (chn : Nat) : FelixID :=
  get_fid tx.m_did tx.m_cid false (link_from_chn chn) (elink_from_chn chn) true tx.m_protocol 0

def broadcastFid : FelixID := tx.fid_from_channel BroadcastChn

/-- `m_enables[fid]`, where a missing key reads as false. -/
def enabled (fid : FelixID) : Bool := tx.m_enables.getD fid false

/-- `m_broadcast and m_numEnabledChns > 1`. -/
def broadcasting : Bool := tx.m_broadcast && decide (tx.m_numEnabledChns > 1)

/-- Links whose buffer takes the words that are written. -/
def addressed (fid : FelixID) : Bool :=
  if tx.broadcasting then fid == tx.broadcastFid else tx.enabled fid

end FelixTxSetup

/-- The messages handed to `send_data` so far are recorded. An enabled link has a buffer. -/
structure FelixTxCore extends FelixTxSetup where
  m_fifo : TreeMap FelixID (List UInt8) := ∅
  messages : List (FelixID × List UInt8) := []
  enabled_mem_fifo : ∀ fid, toFelixTxSetup.enabled fid = true → fid ∈ m_fifo

/-- One byte of `prepareFifo`. -/
def swapNibbles (word : UInt8) : UInt8 := ((word &&& 0x0f) <<< 4) + ((word &&& 0xf0) >>> 4)

def fillFifo (fifo : List UInt8) (value : UInt32) : List UInt8 :=
  fifo ++ [((value >>> 24) &&& 0xff).toUInt8, ((value >>> 16) &&& 0xff).toUInt8,
    ((value >>> 8) &&& 0xff).toUInt8, (value &&& 0xff).toUInt8]

/-- The bytes of a word, most significant byte first. -/
def wordBytes (value : UInt32) : List UInt8 := (Bytes.store 4 value.toNat).reverse

private theorem byte_eq (value : UInt32) (k : Nat) (hk : k < 32) :
    ((value >>> UInt32.ofNat k) &&& 0xff).toUInt8 = UInt8.ofNat (value.toNat / 2 ^ k) := by
  apply UInt8.toNat_inj.mp
  have hmod : k % 4294967296 % 32 = k := by omega
  have hmask : ∀ n : Nat, n &&& 255 = n % 256 := fun n => Nat.and_two_pow_sub_one_eq_mod n 8
  simp [Nat.shiftRight_eq_div_pow, hmod, hmask]

theorem fillFifo_eq (fifo : List UInt8) (value : UInt32) :
    fillFifo fifo value = fifo ++ wordBytes value := by
  have h24 := byte_eq value 24 (by decide)
  have h16 := byte_eq value 16 (by decide)
  have h8 := byte_eq value 8 (by decide)
  have h0 := byte_eq value 0 (by decide)
  rw [show value >>> UInt32.ofNat 0 = value by simp] at h0
  rw [fillFifo, wordBytes]
  congr 1
  simp only [Bytes.store, List.reverse_cons, List.reverse_nil, List.nil_append,
    List.cons_append, Nat.div_div_eq_div_mul]
  rw [h0, show (24 : UInt32) = UInt32.ofNat 24 from rfl, h24,
    show (16 : UInt32) = UInt32.ofNat 16 from rfl, h16,
    show (8 : UInt32) = UInt32.ofNat 8 from rfl, h8]
  simp

/-- `prepareFifo`. -/
def prepareFifo (m_flip : Bool) (fifo : List UInt8) : List UInt8 :=
  fifo.map fun word => if m_flip then swapNibbles word else word

namespace FelixTxCore

variable (tx : FelixTxCore)

/-- `m_fifo[fid]`, as it reads. -/
def buffer (fid : FelixID) : List UInt8 := tx.m_fifo.getD fid []

/-- Before any channel is enabled. -/
def new (settings : FelixTxSetup) : FelixTxCore :=
  { settings with
    m_numEnabledChns := 0
    m_enables := ∅
    enabled_mem_fifo := by
      intro fid h
      simp [FelixTxSetup.enabled] at h }

/-! ## Buffers -/

/-- `m_fifo[fid];` makes an empty buffer where there is none. -/
def createBuffer (fid : FelixID) : FelixTxCore :=
  { tx with
    m_fifo := tx.m_fifo.insertIfNew fid []
    enabled_mem_fifo := by
      intro f hf
      exact TreeMap.mem_insertIfNew.mpr (Or.inr (tx.enabled_mem_fifo f hf)) }

/-- `m_fifo[fid] = fifo`. -/
def setBuffer (fid : FelixID) (fifo : List UInt8) : FelixTxCore :=
  { tx with
    m_fifo := tx.m_fifo.insert fid fifo
    enabled_mem_fifo := by
      intro f hf
      exact TreeMap.mem_insert.mpr (Or.inr (tx.enabled_mem_fifo f hf)) }

/-- `fclient->send_data`. -/
def send_data (fid : FelixID) (data : List UInt8) : FelixTxCore :=
  { tx with messages := tx.messages ++ [(fid, data)] }

def sendFifo (fid : FelixID) : FelixTxCore :=
  (tx.send_data fid (prepareFifo tx.m_flip (tx.buffer fid))).setBuffer fid []

def writeFifo (value : UInt32) : FelixTxCore :=
  if tx.broadcasting then
    tx.setBuffer tx.broadcastFid (fillFifo (tx.buffer tx.broadcastFid) value)
  else
    { tx with
      m_fifo := tx.m_fifo.map fun chn buffer =>
        if tx.enabled chn then fillFifo buffer value else buffer
      enabled_mem_fifo := by
        intro f hf
        exact TreeMap.mem_map.mpr (tx.enabled_mem_fifo f hf) }

/-- The body of the loop of `releaseFifo`. -/
def releaseEntry (tx : FelixTxCore) (chn : FelixID) : FelixTxCore :=
  if tx.enabled chn ∧ tx.m_bufferSize < (tx.buffer chn).length then tx.sendFifo chn else tx

def releaseFifo : FelixTxCore :=
  if tx.broadcasting then
    let tx' := tx.createBuffer tx.broadcastFid
    if tx'.m_bufferSize < (tx'.buffer tx.broadcastFid).length then
      tx'.sendFifo tx.broadcastFid
    else tx'
  else tx.m_fifo.keys.foldl releaseEntry tx

/-- The body of the loop of `isCmdEmpty`. -/
def emptyEntry (s : FelixTxCore × Bool) (chn : FelixID) : FelixTxCore × Bool :=
  if s.1.enabled chn ∧ s.1.buffer chn ≠ [] then (s.1.sendFifo chn, false) else s

def isCmdEmpty : FelixTxCore × Bool := tx.m_fifo.keys.foldl emptyEntry (tx, true)

/-- `m_trigEnabled` is written by the trigger thread. -/
def isTrigDone (m_trigEnabled : Bool) : FelixTxCore × Bool :=
  if m_trigEnabled then (tx, false) else tx.isCmdEmpty

/-! ## Channels -/

/-- The message that finds out whether the link is there; it is taken to be. -/
def checkChannel (fid : FelixID) : FelixTxCore := tx.send_data fid tx.m_idleWords

theorem mem_fifo_createBuffer (fid : FelixID) : fid ∈ (tx.createBuffer fid).m_fifo :=
  TreeMap.mem_insertIfNew_self

def enableChannel (fid : FelixID) : FelixTxCore :=
  if h : fid ∈ tx.m_fifo then
    { tx with
      m_enables := tx.m_enables.insert fid true
      enabled_mem_fifo := by
        intro f hf
        by_cases hfid : fid = f
        · exact hfid ▸ h
        · apply tx.enabled_mem_fifo f
          simpa [FelixTxSetup.enabled, TreeMap.getD_insert, hfid] using hf }
  else
    let tx' := (tx.checkChannel fid).createBuffer fid
    { tx' with
      m_enables := tx'.m_enables.insert fid true
      enabled_mem_fifo := by
        intro f hf
        by_cases hfid : fid = f
        · exact hfid ▸ mem_fifo_createBuffer _ fid
        · apply tx'.enabled_mem_fifo f
          simpa [FelixTxSetup.enabled, TreeMap.getD_insert, hfid] using hf }

def disableCmd : FelixTxCore :=
  { tx with
    m_enables := tx.m_enables.map fun _ _ => false
    m_numEnabledChns := 0
    enabled_mem_fifo := by
      intro f hf
      cases h : tx.m_enables[f]? <;>
        simp [FelixTxSetup.enabled, TreeMap.getD_map, h] at hf }

/-- The broadcast registers of the card are not part of the state. -/
def setupBroadcast : FelixTxCore := (tx.checkChannel tx.broadcastFid).createBuffer tx.broadcastFid

/-- Both overloads: a single channel is a list of one. -/
def setCmdEnable (chns : List Nat) : FelixTxCore :=
  let tx' := chns.foldl (fun tx c => tx.enableChannel (tx.fid_from_channel c)) tx.disableCmd
  let tx' : FelixTxCore :=
    { tx' with
      m_numEnabledChns := chns.length
      enabled_mem_fifo := tx'.enabled_mem_fifo }
  if tx'.broadcasting then tx'.setupBroadcast else tx'

end FelixTxCore

end Yarr.Felix
