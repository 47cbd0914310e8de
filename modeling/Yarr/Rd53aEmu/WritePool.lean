import Mathlib.Logic.Function.Basic
import Yarr.Core.Invariant
import Yarr.Rd53.GlobalCfg
import Yarr.Rd53.Rd53a

/-!
# Register writes in the RD53A emulator

A write to address 0 goes to the pair of pixels that `PixRegionCol` and
`PixRegionRow` select. The region registers stay as they are.
-/

namespace Yarr.Rd53aEmu

open Rd53 Rd53aGlobalCfg Rd53aPixelCfg

/-- `m_feCfg`, the registers of the emulated chip. -/
structure FeCfg where
  m_cfg : Words numRegs
  pixRegs : PixRegs

abbrev n_coreRows : Nat := 24
abbrev n_corePixelRows : Nat := 8

/--
`none`: the selected pair is outside the array. With `PixBroadcastEn` nothing is
done. An address without a register throws in `at`, which ends the task.
-/
def writeRegAsync (emu : FeCfg) (data : UInt16) (address : UInt32) : Option FeCfg :=
  if address = 0 then
    if PixBroadcastEn.read emu.m_cfg = 1 then some emu
    else
      let index := (PixRegionCol.read emu.m_cfg).toNat * n_coreRows * n_corePixelRows +
        (PixRegionRow.read emu.m_cfg).toNat
      if hindex : index < n_DC * n_Row then
        some { emu with pixRegs := Function.update emu.pixRegs ⟨index, hindex⟩ data }
      else none
  else if haddress : address.toNat < numRegs then
    some { emu with m_cfg := emu.m_cfg.set address.toNat data }
  else some emu

end Yarr.Rd53aEmu

/-!
## The order of commands in the RD53A emulator

The command loop gives the register writes to a pool with one worker, and goes
on. Some commands wait until the queue of the pool is empty; the last task may
be at work then. A register read waits for nothing.
-/

namespace Yarr.Rd53aEmu

open Rd53 Rd53aGlobalCfg Rd53aPixelCfg

inductive EmuCommand where
  | ecr
  | bcr
  | globalPulse
  | cal
  | sync
  | noop
  | zero
  | trigger
  | wrReg (address : UInt32) (data : UInt16)
  | rdReg (address : UInt32)

/-- The commands that wait for the pool. -/
def EmuCommand.waits : EmuCommand → Bool
  | ecr | bcr | globalPulse | cal | sync | trigger => true
  | noop | zero | wrReg _ _ | rdReg _ => false

/-- A task of the pool. -/
structure RegWrite where
  data : UInt16
  address : UInt32

def RegWrite.exec (emu : FeCfg) (w : RegWrite) : Option FeCfg :=
  writeRegAsync emu w.data w.address

/-- What a read returned, and the writes issued before it. `none`: the address is not there. -/
structure ReadBack where
  address : UInt32
  value : Option UInt16
  before : List RegWrite

/-- The pair that a word for the portal went to, and the writes issued before it. -/
structure PortalWrite where
  col : Nat
  row : Nat
  before : List RegWrite

/-- The command loop and the pool; the fields from `issued` on are a record of the run. -/
structure Run where
  commands : List EmuCommand
  pool : Pool FeCfg RegWrite
  alive : Bool
  issued : List RegWrite
  executed : List RegWrite
  reads : List ReadBack
  portals : List PortalWrite

/-- The command loop takes a command, or the worker takes or finishes a task. -/
inductive Action where
  | command
  | take
  | finish

namespace Run

def start (init : FeCfg) (commands : List EmuCommand) : Run :=
  ⟨commands, ⟨init, none, []⟩, true, [], [], [], []⟩

/-- `m_cfg.at` throws for an address without a register, and ends the loop. -/
def readReg (s : Run) (address : UInt32) : Run :=
  if haddress : address.toNat < numRegs then
    { s with reads := s.reads ++ [⟨address, some s.pool.state.m_cfg[address.toNat], s.issued⟩] }
  else
    { s with
      reads := s.reads ++ [⟨address, none, s.issued⟩]
      alive := false }

def command (s : Run) (c : EmuCommand) : Option Run :=
  match c with
  | .wrReg address data =>
      some { s with
        pool := s.pool.enqueue ⟨data, address⟩
        issued := s.issued ++ [⟨data, address⟩] }
  | .rdReg address => some (s.readReg address)
  | c => if c.waits ∧ s.pool.taskSize ≠ 0 then none else some s

/-- The pair of a task that goes through the portal. -/
def portalOf (emu : FeCfg) (executed : List RegWrite) (w : RegWrite) : List PortalWrite :=
  if w.address = 0 ∧ PixBroadcastEn.read emu.m_cfg ≠ 1 then
    [⟨(PixRegionCol.read emu.m_cfg).toNat, (PixRegionRow.read emu.m_cfg).toNat, executed⟩]
  else []

def finish (s : Run) : Option Run :=
  (s.pool.finish RegWrite.exec).map fun pool =>
    { s with
      pool := pool
      executed := s.executed ++ s.pool.running.toList
      portals := s.portals ++
        s.pool.running.toList.flatMap (portalOf s.pool.state s.executed) }

def step (s : Run) (a : Action) : Option Run :=
  if s.alive then
    match a, s.commands with
    | .command, [] => none
    | .command, c :: commands => { s with commands := commands }.command c
    | .take, _ => s.pool.take.map fun pool => { s with pool := pool }
    | .finish, _ => s.finish
  else none

end Run

/-! ## What the order of the commands asks for -/

/-- The latest write to an address. -/
def latest (address : UInt32) (writes : List RegWrite) : Option UInt16 :=
  (writes.reverse.find? fun w => w.address = address).map RegWrite.data

def EmuCommand.write : EmuCommand → Option RegWrite
  | wrReg address data => some ⟨data, address⟩
  | _ => none

section Right

variable (init : FeCfg)

/-- The word of a register after some writes, as if they took effect at once. -/
def wordAfter (k : Fin numRegs) (writes : List RegWrite) : UInt16 :=
  (latest (UInt32.ofNat k) writes).getD (getElem init.m_cfg k k.isLt)

def ReadBack.Right (r : ReadBack) : Prop :=
  ∃ k : Fin numRegs, r.address = UInt32.ofNat k ∧ r.value = some (wordAfter init k r.before)

def PortalWrite.Right (p : PortalWrite) : Prop :=
  p.col = (PixRegionCol.readWord (wordAfter init PixRegionCol.m_cfg p.before)).toNat ∧
    p.row = (PixRegionRow.readWord (wordAfter init PixRegionRow.m_cfg p.before)).toNat

/-- Reads give the latest writes, portal writes go where the latest writes say, and at the end
the registers are those after all the writes in their order. -/
structure Run.Right (commands : List EmuCommand) (s : Run) : Prop where
  reads : ∀ r ∈ s.reads, r.Right init
  portals : ∀ p ∈ s.portals, p.Right init
  final : s.commands = [] → s.pool.pending = [] →
    (commands.filterMap EmuCommand.write).foldlM RegWrite.exec init = some s.pool.state

end Right

/-- No write to the address is pending but for one that changes nothing. A word for the portal
never gets into the register of its address. -/
structure Settled (s : Run) (address : UInt32) : Prop where
  present : address.toNat < numRegs
  same : ∀ data,
    latest address (if address = 0 then s.issued else s.pool.pending) = some data →
      s.pool.state.m_cfg[address.toNat] = data

/-- The reads find their registers settled. -/
def Run.Meets (s : Run) : Action → Prop
  | .command => ∀ address commands, s.commands = .rdReg address :: commands → Settled s address
  | .take => True
  | .finish => True

end Yarr.Rd53aEmu
