import Yarr.Core.Attempts
import Yarr.Star.ChipIDs
import Yarr.Star.SubRegisters
import Yarr.StarEmu.StarChipsetEmu

/-!
# High-priority packets

With each frame the emulator updates the HPR registers and sends them when the
period is over, when a test is asked for, or before the periodic packets are
stopped for the first time.
-/

namespace Yarr.StarEmu

open Yarr.Star StarPackets

/-- A register, a field, an ABC or a flag is not there, or the period is zero. -/
inductive HPRFailure where
  | missing
  | divisionByZero
  deriving DecidableEq, Repr

structure HPREmu extends StarChipsetEmu where
  hpr_clkcnt : UInt32
  /-- One flag for the HCC and one for each ABC. -/
  hpr_sent : List Bool
  HPRPERIOD : UInt32

/-- The control bits of a chip. -/
structure HPRControl where
  testHPR : Bool
  stopHPR : Bool
  maskHPR : Bool

namespace HPRControl

variable (c : HPRControl)

def lcb_lock_changed : Bool := c.testHPR && !c.maskHPR

def hpr_periodic (hpr_clkcnt HPRPERIOD : UInt32) : Bool :=
  (hpr_clkcnt % HPRPERIOD == 0) && !c.stopHPR

def hpr_initial (hpr_sent : Bool) : Bool := !hpr_sent && c.stopHPR

/-- A packet is built and sent. -/
def sends (hpr_clkcnt HPRPERIOD : UInt32) (hpr_sent : Bool) : Bool :=
  c.lcb_lock_changed || c.hpr_periodic hpr_clkcnt HPRPERIOD || c.hpr_initial hpr_sent

end HPRControl

namespace HPREmu

def looked {E α : Type} (x : Except E α) : Except HPRFailure α :=
  x.mapError fun _ => HPRFailure.missing

/-! ## Fields -/

def getHCCSubRegisterValue (cfg : StarCfg) (subReg : HCCStarSubRegister) : Except HPRFailure Nat :=
  looked (cfg.hcc.getSubRegister subReg)

def setHCCSubRegisterValue (cfg : StarCfg) (subReg : HCCStarSubRegister) (value : UInt32) :
    Except HPRFailure StarCfg :=
  let out := cfg.hcc.setSubRegister subReg value
  match out.thrown with
  | some _ => .error .missing
  | none => .ok { cfg with hcc := out.state }

/-- Zero for a channel without an ABC. -/
def getABCSubRegisterValue (cfg : StarCfg) (input_channel : Fin MaxABCsPerHCC)
    (subReg : ABCStarSubRegister) : Except HPRFailure Nat :=
  match cfg.abcAt input_channel with
  | some abc => looked (abc.getSubRegister subReg)
  | none => .ok 0

def setABCSubRegisterValue (cfg : StarCfg) (input_channel : Fin MaxABCsPerHCC)
    (subReg : ABCStarSubRegister) (value : UInt32) : Except HPRFailure StarCfg :=
  match cfg.abcAt input_channel with
  | some abc =>
      let out := abc.setSubRegister subReg value
      match out.thrown with
      | some _ => .error .missing
      | none => .ok (cfg.replaceABC input_channel out.state)
  | none => .ok cfg

def hccControl (cfg : StarCfg) : Except HPRFailure HPRControl := do
  let testHPR ← getHCCSubRegisterValue cfg .TESTHPR
  let stopHPR ← getHCCSubRegisterValue cfg .STOPHPR
  let maskHPR ← getHCCSubRegisterValue cfg .MASKHPR
  return ⟨testHPR != 0, stopHPR != 0, maskHPR != 0⟩

def abcControl (cfg : StarCfg) (input_channel : Fin MaxABCsPerHCC) :
    Except HPRFailure HPRControl := do
  let testHPR ← getABCSubRegisterValue cfg input_channel .TESTHPR
  let stopHPR ← getABCSubRegisterValue cfg input_channel .STOPHPR
  let maskHPR ← getABCSubRegisterValue cfg input_channel .MASKHPR
  return ⟨testHPR != 0, stopHPR != 0, maskHPR != 0⟩

def clearHCC (cfg : StarCfg) (subReg : HCCStarSubRegister) (clear : Bool) :
    Except HPRFailure StarCfg :=
  if clear then setHCCSubRegisterValue cfg subReg 0 else .ok cfg

def clearABC (cfg : StarCfg) (input_channel : Fin MaxABCsPerHCC) (subReg : ABCStarSubRegister)
    (clear : Bool) : Except HPRFailure StarCfg :=
  if clear then setABCSubRegisterValue cfg input_channel subReg 0 else .ok cfg

/-! ## Packets -/

/-- Status bits are constants. -/
def hccHprWord (frame : LCB.Frame) : UInt32 := (UInt32.ofNat frame <<< 16) ||| 0x2b

def abcHprWord (frame : LCB.Frame) : UInt32 := (UInt32.ofNat frame <<< 16) ||| 0x5fff

def hccPacket (value : UInt32) : List Nat :=
  buildHCCRegisterPacket .HCCHPR ⟨HCCStarRegister.HPR, by decide⟩ (StarChipsetEmu.wordOf value)

theorem channel_lt (input_channel : Fin MaxABCsPerHCC) : input_channel.val < 256 :=
  Nat.lt_trans input_channel.isLt (by decide)

theorem status_lt (abcID : Nat) : ((abcID &&& 0xf) <<< 12) % 2 ^ 16 < 2 ^ 16 :=
  Nat.mod_lt _ (by decide)

def abcPacket (input_channel : Fin MaxABCsPerHCC) (value : UInt32) (abcID : Nat) : List Nat :=
  buildABCRegisterPacket .ABCHPR ⟨ABCStarRegister.HPR, by decide⟩ (StarChipsetEmu.wordOf value)
    ⟨input_channel.val, channel_lt input_channel⟩
    ⟨((abcID &&& 0xf) <<< 12) % 2 ^ 16, status_lt abcID⟩

variable (s : HPREmu)

/-- `sendPacket`, and the flag of the chip. -/
def announce (packet : List Nat) (i : Nat) : HPREmu :=
  { s with toStarChipsetEmu := s.toStarChipsetEmu.send packet, hpr_sent := s.hpr_sent.set i true }

/-- Whether a packet is sent, with a flag that is not checked to be there. -/
def sends (c : HPRControl) (i : Nat) : Except HPRFailure Bool :=
  match s.hpr_sent[i]? with
  | none => .error .missing
  | some flag =>
      if s.HPRPERIOD = 0 then .error .divisionByZero
      else .ok (c.sends s.hpr_clkcnt s.HPRPERIOD flag)

/-! ## Frames -/

def doHPR_HCC (frame : LCB.Frame) : Except HPRFailure HPREmu := do
  let cfg ← looked (s.m_starCfg.setHCCRegister HCCStarRegister.HPR (hccHprWord frame))
  let c ← hccControl cfg
  let send ← s.sends c 0
  let value ← looked (cfg.getHCCRegister HCCStarRegister.HPR)
  let s := if send then s.announce (hccPacket value) 0 else s
  let cfg ← clearHCC cfg .STOPHPR (c.stopHPR && c.lcb_lock_changed)
  let cfg ← clearHCC cfg .TESTHPR c.testHPR
  return { s with m_starCfg := cfg }

/-- `input_channel` is `ichip - 1`. -/
def doHPR_ABC (frame : LCB.Frame) (input_channel : Fin MaxABCsPerHCC) :
    Except HPRFailure HPREmu := do
  let ichip := input_channel.val + 1
  let abc ← looked (s.m_starCfg.abcForInputChannel input_channel)
  let abcID := abc.getABCchipID
  let cfg ← looked
    (s.m_starCfg.setABCRegisterByID ABCStarRegister.HPR (abcHprWord frame) abcID)
  let c ← abcControl cfg input_channel
  let send ← s.sends c ichip
  let value ← looked (cfg.getABCRegisterByID ABCStarRegister.HPR abcID)
  let s := if send then s.announce (abcPacket input_channel value abcID) ichip else s
  let cfg ← clearABC cfg input_channel .STOPHPR (c.stopHPR && c.lcb_lock_changed)
  let cfg ← clearABC cfg input_channel .TESTHPR c.testHPR
  return { s with m_starCfg := cfg }

/-- One turn of the loop. -/
def abcTurn (frame : LCB.Frame) (s : HPREmu) (input_channel : Fin MaxABCsPerHCC) :
    Except HPRFailure HPREmu :=
  if s.m_starCfg.isAbcForInputChannel input_channel then s.doHPR_ABC frame input_channel else .ok s

/-- The chips `1` to `numABCs()`. -/
def doHPR_ABCs (frame : LCB.Frame) : Except HPRFailure HPREmu :=
  ((List.finRange MaxABCsPerHCC).take s.m_starCfg.numABCs).foldlM (abcTurn frame) s

def doHPR (frame : LCB.Frame) : Except HPRFailure HPREmu := do
  let s ← s.doHPR_HCC frame
  let s ← s.doHPR_ABCs frame
  return { s with hpr_clkcnt := s.hpr_clkcnt + 4 }

end HPREmu

end Yarr.StarEmu

/-!
## Rounds of high-priority packets

The turn of a channel writes the HPR register of the first ABC with the ID of
its own ABC. All ABCs have their turn, and each one its own register, when they
are on the first channels and have different IDs.
-/

namespace Yarr.StarEmu

open Yarr.Star Attempts StarPackets

/-- The control bits as the fields of an ABC. -/
def HPRControl.ofABC (abc : AbcCfg) : HPRControl :=
  ⟨abc.fieldValue .TESTHPR != 0, abc.fieldValue .STOPHPR != 0, abc.fieldValue .MASKHPR != 0⟩

namespace HPREmu

/-! ## What the turns read and write -/

section Chips

def hprAt (cfg : StarCfg) (ic : Fin MaxABCsPerHCC) : Option UInt32 :=
  (cfg.abcAt ic).map fun abc => abc.registers.value ABCStarRegister.HPR

def controlAt (cfg : StarCfg) (ic : Fin MaxABCsPerHCC) : Option HPRControl :=
  (cfg.abcAt ic).map HPRControl.ofABC

theorem controlField (abc : AbcCfg) (subReg : ABCStarSubRegister)
    (h : subReg ∈ [ABCStarSubRegister.TESTHPR, .STOPHPR, .MASKHPR]) :
    ∃ info, (abcSubRegDefs abc.version_1).lookup subReg = some info ∧
      info.m_regAddress ≠ ABCStarRegister.HPR := by
  have hall : ∀ v : Bool, ∀ r ∈ [ABCStarSubRegister.TESTHPR, .STOPHPR, .MASKHPR],
      ((abcSubRegDefs v).lookup r).any
        (fun info => info.m_regAddress != ABCStarRegister.HPR) = true := by decide +kernel
  rcases Option.any_eq_true _ _ |>.mp (hall abc.version_1 subReg h) with ⟨info, hlookup, hne⟩
  exact ⟨info, hlookup, bne_iff_ne.mp hne⟩

variable {cfg : StarCfg} {ic : Fin MaxABCsPerHCC} {abc : AbcCfg}

theorem getABCSubRegisterValue_eq (hat : cfg.abcAt ic = some abc) (subReg : ABCStarSubRegister)
    (h : subReg ∈ [ABCStarSubRegister.TESTHPR, .STOPHPR, .MASKHPR]) :
    getABCSubRegisterValue cfg ic subReg = .ok (abc.fieldValue subReg) := by
  rcases controlField abc subReg h with ⟨info, hlookup, _⟩
  have hwidth : (abc.fieldWidth subReg).isSome := by
    unfold AbcCfg.fieldWidth
    rw [hlookup]
    rfl
  unfold getABCSubRegisterValue
  rw [hat]
  show looked (abc.getSubRegister subReg) = _
  rw [abc.getSubRegister_eq hwidth]
  rfl

theorem abcControl_eq (hat : cfg.abcAt ic = some abc) :
    abcControl cfg ic = .ok (HPRControl.ofABC abc) := by
  unfold abcControl
  rw [getABCSubRegisterValue_eq hat .TESTHPR (by simp),
    getABCSubRegisterValue_eq hat .STOPHPR (by simp),
    getABCSubRegisterValue_eq hat .MASKHPR (by simp)]
  rfl

theorem ofABC_written (abc : AbcCfg) (word : UInt32) :
    HPRControl.ofABC (abc.written ABCStarRegister.HPR word) = HPRControl.ofABC abc := by
  have hfield : ∀ subReg ∈ [ABCStarSubRegister.TESTHPR, .STOPHPR, .MASKHPR],
      (abc.written ABCStarRegister.HPR word).fieldValue subReg = abc.fieldValue subReg := by
    intro subReg h
    rcases controlField abc subReg h with ⟨info, hlookup, hne⟩
    have hlookup' : (abcSubRegDefs (abc.written ABCStarRegister.HPR word).version_1).lookup subReg =
        some info := hlookup
    rw [abc.fieldValue_of_lookup hlookup, AbcCfg.fieldValue_of_lookup _ hlookup']
    rw [abc.written_ne hne]
  unfold HPRControl.ofABC
  rw [hfield .TESTHPR (by simp), hfield .STOPHPR (by simp), hfield .MASKHPR (by simp)]

/-- Nothing but the control bits of one channel has changed. -/
structure KeptBut (ic : Fin MaxABCsPerHCC) (cfg cfg' : StarCfg) : Prop where
  ids : cfg'.chipIDs = cfg.chipIDs
  hpr : ∀ jc, hprAt cfg' jc = hprAt cfg jc
  control : ∀ jc, jc ≠ ic → controlAt cfg' jc = controlAt cfg jc

theorem KeptBut.refl (ic : Fin MaxABCsPerHCC) (cfg : StarCfg) : KeptBut ic cfg cfg :=
  ⟨rfl, fun _ => rfl, fun _ _ => rfl⟩

theorem KeptBut.trans {cfg' cfg'' : StarCfg} (h : KeptBut ic cfg cfg') (h' : KeptBut ic cfg' cfg'') :
    KeptBut ic cfg cfg'' where
  ids := h'.ids.trans h.ids
  hpr jc := (h'.hpr jc).trans (h.hpr jc)
  control jc hne := (h'.control jc hne).trans (h.control jc hne)

theorem clearABC_kept (hat : cfg.abcAt ic = some abc) (subReg : ABCStarSubRegister)
    (h : subReg ∈ [ABCStarSubRegister.TESTHPR, .STOPHPR, .MASKHPR]) (clear : Bool) :
    ∃ cfg', clearABC cfg ic subReg clear = .ok cfg' ∧ KeptBut ic cfg cfg' ∧
      (cfg'.abcAt ic).isSome := by
  cases clear with
  | false => exact ⟨cfg, rfl, KeptBut.refl ic cfg, Option.isSome_iff_exists.mpr ⟨abc, hat⟩⟩
  | true =>
      rcases controlField abc subReg h with ⟨info, hlookup, hne⟩
      have hthrown : (abc.setSubRegister subReg 0).thrown = none :=
        abc.thrown_setSubRegister hlookup (Nat.two_pow_pos info.m_width)
      have hclear : clearABC cfg ic subReg true =
          .ok (cfg.replaceABC ic (abc.setSubRegister subReg 0).state) := by
        show setABCSubRegisterValue cfg ic subReg 0 = _
        unfold setABCSubRegisterValue
        rw [hat]
        dsimp only
        rw [hthrown]
      have hself := cfg.abcAt_replaceABC_self hat (abc.setSubRegister subReg 0).state
      refine ⟨_, hclear, ⟨cfg.chipIDs_replaceABC hat rfl, ?_, ?_⟩, ?_⟩
      · intro jc
        unfold hprAt
        by_cases hjc : jc = ic
        · rw [hjc, hself, hat, Option.map_some, Option.map_some,
            abc.value_setSubRegister hlookup 0 hne.symm]
        · rw [cfg.abcAt_replaceABC_ne hjc]
      · intro jc hjc
        unfold controlAt
        rw [cfg.abcAt_replaceABC_ne hjc]
      · rw [hself]
        rfl

/-- The write by ID changes the HPR register of the first ABC with the ID. -/
theorem setABCRegisterByID_HPR (hat : cfg.abcAt ic = some abc) (word : UInt32) :
    ∃ cfg' jc, cfg.setABCRegisterByID ABCStarRegister.HPR word abc.m_abcID = .ok cfg' ∧
      cfg.channelOf abc.m_abcID = some jc ∧ cfg'.chipIDs = cfg.chipIDs ∧
      (∀ kc, hprAt cfg' kc = if kc = jc then some word else hprAt cfg kc) ∧
      (∀ kc, controlAt cfg' kc = controlAt cfg kc) ∧
      cfg'.getABCRegisterByID ABCStarRegister.HPR abc.m_abcID = .ok word := by
  rcases cfg.findABC_of_mem (cfg.mem_of_abcAt hat) with ⟨it, hfind⟩
  have haddr : ∀ v : Bool, ABCStarRegister.HPR ∈ abcAddresses v := by decide +kernel
  have hit := cfg.abcAt_of_findABC hfind
  have hset : cfg.setABCRegisterByID ABCStarRegister.HPR word abc.m_abcID =
      .ok (cfg.replaceABC it.1 (it.2.written ABCStarRegister.HPR word)) := by
    unfold StarCfg.setABCRegisterByID
    rw [show cfg.findABC abc.m_abcID = some it from hfind]
    dsimp only
    rw [it.2.setRegisterValue_eq (haddr _)]
    rfl
  have hvalue := it.2.written_self ABCStarRegister.HPR word
  have hself := cfg.abcAt_replaceABC_self hit (it.2.written ABCStarRegister.HPR word)
  refine ⟨_, it.1, hset, ?_, cfg.chipIDs_replaceABC hit rfl, ?_, ?_, ?_⟩
  · rw [cfg.channelOf_eq, show cfg.findABC abc.m_abcID = some it from hfind]
    rfl
  · intro kc
    unfold hprAt
    by_cases hkc : kc = it.1
    · rw [if_pos hkc, hkc, hself, Option.map_some, hvalue]
    · rw [if_neg hkc, cfg.abcAt_replaceABC_ne hkc]
  · intro kc
    unfold controlAt
    by_cases hkc : kc = it.1
    · rw [hkc, hself, hit, Option.map_some, Option.map_some]
      exact congrArg some (ofABC_written it.2 word)
    · rw [cfg.abcAt_replaceABC_ne hkc]
  · have hsearch := cfg.findABC_replaceABC hfind (it.2.written_id ABCStarRegister.HPR word) abc.m_abcID
    rw [if_pos rfl] at hsearch
    unfold StarCfg.getABCRegisterByID StarCfg.abcFromChipID
    rw [hsearch]
    show (it.2.written ABCStarRegister.HPR word).registers.get ABCStarRegister.HPR = .ok word
    unfold RegisterSet.get
    rw [if_pos (haddr _), hvalue]

end Chips

/-! ## Turns -/

/-- The channel with the register that is written in the turn of a channel. -/
def target (cfg : StarCfg) (ic : Fin MaxABCsPerHCC) : Option (Fin MaxABCsPerHCC) :=
  (cfg.idAt ic).bind cfg.channelOf

section Turns

variable (s : HPREmu) (frame : LCB.Frame)

/-- The turn of a channel comes with a packet: a test is asked for, the period is over, or the
periodic packets are stopped before the first one. -/
def due (ic : Fin MaxABCsPerHCC) : Bool :=
  match controlAt s.m_starCfg ic with
  | some c => c.sends s.hpr_clkcnt s.HPRPERIOD (s.hpr_sent.getD (ic.val + 1) false)
  | none => false

def turnPackets (ic : Fin MaxABCsPerHCC) : List (List Nat) :=
  match s.m_starCfg.idAt ic with
  | some id => if s.due ic then [sendPacket (abcPacket ic (abcHprWord frame) id)] else []
  | none => []

/-- After the turns of some channels. -/
structure Turns (s : HPREmu) (l : List (Fin MaxABCsPerHCC)) (t : HPREmu) : Prop where
  ids : t.m_starCfg.chipIDs = s.m_starCfg.chipIDs
  written : ∀ ic ∈ l, ∀ jc, target s.m_starCfg ic = some jc →
    hprAt t.m_starCfg jc = some (abcHprWord frame)
  kept : ∀ jc, (∀ ic ∈ l, target s.m_starCfg ic ≠ some jc) →
    hprAt t.m_starCfg jc = hprAt s.m_starCfg jc
  control : ∀ jc, jc ∉ l → controlAt t.m_starCfg jc = controlAt s.m_starCfg jc
  flags : ∀ jc : Fin MaxABCsPerHCC, jc ∉ l →
    t.hpr_sent.getD (jc.val + 1) false = s.hpr_sent.getD (jc.val + 1) false
  length : t.hpr_sent.length = s.hpr_sent.length
  packets : t.m_rxbuffer = s.m_rxbuffer ++ l.flatMap (s.turnPackets frame)
  clock : t.hpr_clkcnt = s.hpr_clkcnt
  period : t.HPRPERIOD = s.HPRPERIOD

theorem target_congr {cfg cfg' : StarCfg} (h : cfg'.chipIDs = cfg.chipIDs)
    (ic : Fin MaxABCsPerHCC) : target cfg' ic = target cfg ic := by
  unfold target
  rw [StarCfg.idAt_congr h]
  exact congrArg _ (funext (StarCfg.channelOf_congr h))

variable {s frame}

theorem Turns.nil : Turns frame s [] s where
  ids := rfl
  written := fun _ h => absurd h List.not_mem_nil
  kept := fun _ _ => rfl
  control := fun _ _ => rfl
  flags := fun _ _ => rfl
  length := rfl
  packets := (List.append_nil _).symm
  clock := rfl
  period := rfl

theorem Turns.turnPackets_eq {l : List (Fin MaxABCsPerHCC)} {t : HPREmu} (h : Turns frame s l t)
    {ic : Fin MaxABCsPerHCC} (hic : ic ∉ l) : t.turnPackets frame ic = s.turnPackets frame ic := by
  unfold turnPackets due
  rw [StarCfg.idAt_congr h.ids, h.control ic hic, h.flags ic hic, h.clock, h.period]

theorem Turns.append {l : List (Fin MaxABCsPerHCC)} {ic : Fin MaxABCsPerHCC} {t u : HPREmu}
    (h : Turns frame s l t) (h' : Turns frame t [ic] u) (hic : ic ∉ l) :
    Turns frame s (l ++ [ic]) u where
  ids := h'.ids.trans h.ids
  written := by
    intro jc hjc kc htarget
    by_cases hlast : target t.m_starCfg ic = some kc
    · exact h'.written ic List.mem_cons_self kc hlast
    · have hsame := h'.kept kc (fun jc hjc => by rwa [List.mem_singleton.mp hjc])
      rw [hsame]
      rcases List.mem_append.mp hjc with hbefore | hlast'
      · exact h.written jc hbefore kc htarget
      · rw [List.mem_singleton.mp hlast', ← target_congr h.ids] at htarget
        exact absurd htarget hlast
  kept := by
    intro jc hnot
    have hlast : ∀ kc ∈ [ic], target t.m_starCfg kc ≠ some jc := by
      intro kc hkc
      rw [target_congr h.ids]
      exact hnot kc (List.mem_append_right l hkc)
    rw [h'.kept jc hlast]
    exact h.kept jc fun kc hkc => hnot kc (List.mem_append_left _ hkc)
  control := by
    intro jc hjc
    rw [List.mem_append, not_or] at hjc
    rw [h'.control jc hjc.2, h.control jc hjc.1]
  flags := by
    intro jc hjc
    rw [List.mem_append, not_or] at hjc
    rw [h'.flags jc hjc.2, h.flags jc hjc.1]
  length := h'.length.trans h.length
  packets := by
    rw [h'.packets, h.packets, List.flatMap_append, List.append_assoc]
    show _ ++ (_ ++ (t.turnPackets frame ic ++ [])) = _ ++ (_ ++ (s.turnPackets frame ic ++ []))
    rw [h.turnPackets_eq hic]
  clock := h'.clock.trans h.clock
  period := h'.period.trans h.period

theorem getD_set_ne (l : List Bool) {i j : Nat} (hne : j ≠ i) :
    (l.set i true).getD j false = l.getD j false := by
  rw [List.getD_eq_getElem?_getD, List.getD_eq_getElem?_getD, List.getElem?_set_ne hne.symm]

/-- A packet has been sent if one is due. -/
def announced (s : HPREmu) (frame : LCB.Frame) (ic : Fin MaxABCsPerHCC) (id : Nat) : HPREmu :=
  if s.due ic then s.announce (abcPacket ic (abcHprWord frame) id) (ic.val + 1) else s

theorem doHPR_ABC_eq (frame : LCB.Frame) {ic : Fin MaxABCsPerHCC} {abc : AbcCfg}
    (hat : s.m_starCfg.abcAt ic = some abc) (hflag : ic.val + 1 < s.hpr_sent.length)
    (hperiod : s.HPRPERIOD ≠ 0) :
    ∃ cfg jc, s.doHPR_ABC frame ic =
        .ok { s.announced frame ic abc.m_abcID with m_starCfg := cfg } ∧
      s.m_starCfg.channelOf abc.m_abcID = some jc ∧ cfg.chipIDs = s.m_starCfg.chipIDs ∧
      (∀ kc, hprAt cfg kc = if kc = jc then some (abcHprWord frame) else hprAt s.m_starCfg kc) ∧
      (∀ kc, kc ≠ ic → controlAt cfg kc = controlAt s.m_starCfg kc) := by
  rcases setABCRegisterByID_HPR hat (abcHprWord frame) with
    ⟨cfg, jc, hset, hchannel, hids, hhpr, hcontrol, hget⟩
  have hat' : ∃ abc', cfg.abcAt ic = some abc' ∧ HPRControl.ofABC abc' = HPRControl.ofABC abc := by
    have hsame := hcontrol ic
    unfold controlAt at hsame
    rw [hat] at hsame
    exact Option.map_eq_some_iff.mp hsame
  rcases hat' with ⟨abc', hat', hbits⟩
  have hdue : s.sends (HPRControl.ofABC abc) (ic.val + 1) = .ok (s.due ic) := by
    unfold sends due controlAt
    rw [List.getElem?_eq_getElem hflag, hat]
    dsimp only [Option.map_some]
    rw [if_neg hperiod, List.getD_eq_getElem _ _ hflag]
  rcases clearABC_kept hat' .STOPHPR (by simp)
    ((HPRControl.ofABC abc).stopHPR && (HPRControl.ofABC abc).lcb_lock_changed) with
    ⟨cfg₁, hclear₁, hkept₁, hsome₁⟩
  rcases Option.isSome_iff_exists.mp hsome₁ with ⟨abc₁, hat₁⟩
  rcases clearABC_kept hat₁ .TESTHPR (by simp) (HPRControl.ofABC abc).testHPR with
    ⟨cfg₂, hclear₂, hkept₂, _⟩
  have hkept := hkept₁.trans hkept₂
  refine ⟨cfg₂, jc, ?_, hchannel, hkept.ids.trans hids, ?_, ?_⟩
  · have habc : looked (s.m_starCfg.abcForInputChannel ic) = .ok abc := by
      unfold StarCfg.abcForInputChannel
      rw [hat]
      rfl
    unfold doHPR_ABC
    rw [habc, ok_bind]
    dsimp only [AbcCfg.getABCchipID]
    rw [hset]
    show (abcControl cfg ic >>= _) = _
    rw [abcControl_eq hat', hbits, ok_bind, hdue, ok_bind, hget]
    show (clearABC cfg ic _ _ >>= _) = _
    rw [hclear₁, ok_bind, hclear₂]
    rfl
  · intro kc
    rw [hkept.hpr kc, hhpr kc]
  · intro kc hkc
    rw [hkept.control kc hkc, hcontrol kc]

theorem abcTurn_ok (frame : LCB.Frame) {ic : Fin MaxABCsPerHCC} (hflag : ic.val + 1 < s.hpr_sent.length)
    (hperiod : s.HPRPERIOD ≠ 0) : ∃ t, abcTurn frame s ic = .ok t ∧ Turns frame s [ic] t := by
  unfold abcTurn StarCfg.isAbcForInputChannel
  cases hat : s.m_starCfg.abcAt ic with
  | none =>
      have hid : s.m_starCfg.idAt ic = none := by rw [s.m_starCfg.idAt_eq, hat, Option.map_none]
      exact ⟨s, rfl, {
        ids := rfl
        written := by
          intro jc hjc kc htarget
          rw [List.mem_singleton.mp hjc, target, hid] at htarget
          cases htarget
        kept := fun _ _ => rfl
        control := fun _ _ => rfl
        flags := fun _ _ => rfl
        length := rfl
        packets := by
          show _ = _ ++ (s.turnPackets frame ic ++ [])
          unfold turnPackets
          rw [hid]
          exact (List.append_nil _).symm
        clock := rfl
        period := rfl }⟩
  | some abc =>
      have hid : s.m_starCfg.idAt ic = some abc.m_abcID := by
        rw [s.m_starCfg.idAt_eq, hat, Option.map_some]
      rcases doHPR_ABC_eq frame hat hflag hperiod with
        ⟨cfg, jc, hdo, hchannel, hids, hhpr, hcontrol⟩
      have htarget : target s.m_starCfg ic = some jc := by rw [target, hid, Option.bind_some, hchannel]
      have hpacket : (s.announced frame ic abc.m_abcID).m_rxbuffer =
          s.m_rxbuffer ++ s.turnPackets frame ic := by
        unfold announced turnPackets
        rw [hid]
        cases s.due ic with
        | false => exact (List.append_nil _).symm
        | true => rfl
      have hsent : (s.announced frame ic abc.m_abcID).hpr_sent =
          if s.due ic then s.hpr_sent.set (ic.val + 1) true else s.hpr_sent := by
        unfold announced
        split <;> rfl
      have hclock : (s.announced frame ic abc.m_abcID).hpr_clkcnt = s.hpr_clkcnt ∧
          (s.announced frame ic abc.m_abcID).HPRPERIOD = s.HPRPERIOD := by
        unfold announced
        split <;> exact ⟨rfl, rfl⟩
      refine ⟨_, (if_pos Option.isSome_some).trans hdo, {
        ids := hids
        written := ?_
        kept := ?_
        control := ?_
        flags := ?_
        length := ?_
        packets := ?_
        clock := hclock.1
        period := hclock.2 }⟩
      · intro kc hkc lc hlc
        rw [List.mem_singleton.mp hkc, htarget] at hlc
        rw [hhpr lc, if_pos (Option.some_inj.mp hlc).symm]
      · intro lc hnot
        rw [hhpr lc, if_neg]
        rintro rfl
        exact hnot ic List.mem_cons_self htarget
      · intro kc hkc
        exact hcontrol kc fun heq => hkc (List.mem_singleton.mpr heq)
      · intro kc hkc
        have hne : kc.val + 1 ≠ ic.val + 1 := fun heq =>
          hkc (List.mem_singleton.mpr (Fin.ext (Nat.add_right_cancel heq)))
        dsimp only
        rw [hsent]
        split
        · exact getD_set_ne _ hne
        · rfl
      · dsimp only
        rw [hsent]
        split
        · exact List.length_set
        · rfl
      · show (s.announced frame ic abc.m_abcID).m_rxbuffer = _ ++ (s.turnPackets frame ic ++ [])
        rw [hpacket, List.append_nil]

theorem mem_take_channels {n : Nat} {ic : Fin MaxABCsPerHCC} :
    ic ∈ (List.finRange MaxABCsPerHCC).take n ↔ ic.val < n := by
  rw [List.mem_take_iff_getElem]
  simp only [List.getElem_finRange, List.length_finRange]
  apply Iff.intro
  · rintro ⟨i, hi, rfl⟩
    exact (Nat.lt_min.mp hi).1
  · intro h
    exact ⟨ic.val, Nat.lt_min.mpr ⟨h, ic.isLt⟩, rfl⟩

theorem doHPR_ABCs_ok (frame : LCB.Frame) (hlength : s.hpr_sent.length = s.m_starCfg.numABCs + 1)
    (hperiod : s.HPRPERIOD ≠ 0) :
    ∃ t, s.doHPR_ABCs frame = .ok t ∧
      Turns frame s ((List.finRange MaxABCsPerHCC).take s.m_starCfg.numABCs) t := by
  apply foldlM_ok (R := fun done t => Turns frame s done t) _ Turns.nil
  intro done ic t hprefix hturns
  have hmem : ic ∈ (List.finRange MaxABCsPerHCC).take s.m_starCfg.numABCs :=
    hprefix.subset (List.mem_append_right done List.mem_cons_self)
  have hnot : ic ∉ done :=
    not_mem_of_concat ((List.nodup_finRange _).sublist (List.take_sublist _ _)) hprefix
  have hflag : ic.val + 1 < t.hpr_sent.length := by
    rw [hturns.length, hlength]
    exact Nat.add_lt_add_right (mem_take_channels.mp hmem) 1
  rcases abcTurn_ok frame hflag (hturns.period ▸ hperiod) with ⟨u, hu, hturn⟩
  exact ⟨u, hu, hturns.append hturn hnot⟩

end Turns

/-! ## The HCC -/

section HCC

variable {s : HPREmu} {frame : LCB.Frame}

/-- After the packet of the HCC. -/
structure AfterHCC (frame : LCB.Frame) (s t : HPREmu) : Prop where
  chips : t.m_starCfg.m_ABCchips = s.m_starCfg.m_ABCchips
  flags : ∀ i, t.hpr_sent.getD (i + 1) false = s.hpr_sent.getD (i + 1) false
  length : t.hpr_sent.length = s.hpr_sent.length
  packets : ∃ hcc, t.m_rxbuffer = s.m_rxbuffer ++ hcc ∧
    (hcc = [] ∨ hcc = [sendPacket (hccPacket (hccHprWord frame))])
  clock : t.hpr_clkcnt = s.hpr_clkcnt
  period : t.HPRPERIOD = s.HPRPERIOD

theorem hccControl_ok (cfg : StarCfg) : ∃ c, hccControl cfg = .ok c := by
  have hfield : ∀ subReg ∈ [HCCStarSubRegister.TESTHPR, .STOPHPR, .MASKHPR],
      ∃ n, getHCCSubRegisterValue cfg subReg = .ok n := by
    intro subReg h
    have hall : ∀ v : Bool, ∀ r ∈ [HCCStarSubRegister.TESTHPR, .STOPHPR, .MASKHPR],
        ((hccSubRegDefs v).lookup r).isSome := by decide +kernel
    rcases Option.isSome_iff_exists.mp (hall cfg.hcc.version_1 subReg h) with ⟨info, hlookup⟩
    have hget : cfg.hcc.getSubRegister subReg = _ :=
      cfg.hcc.registers.getNamed_of_lookup (hccSubRegDefs_disjoint cfg.hcc.version_1) hlookup
    refine ⟨info.getValue (cfg.hcc.registers.value info.m_regAddress).toNat, ?_⟩
    unfold getHCCSubRegisterValue
    rw [hget]
    rfl
  rcases hfield .TESTHPR (by simp) with ⟨testHPR, htest⟩
  rcases hfield .STOPHPR (by simp) with ⟨stopHPR, hstop⟩
  rcases hfield .MASKHPR (by simp) with ⟨maskHPR, hmask⟩
  refine ⟨⟨testHPR != 0, stopHPR != 0, maskHPR != 0⟩, ?_⟩
  unfold hccControl
  rw [htest, hstop, hmask]
  rfl

theorem clearHCC_ok (cfg : StarCfg) (subReg : HCCStarSubRegister)
    (h : subReg ∈ [HCCStarSubRegister.TESTHPR, .STOPHPR]) (clear : Bool) :
    ∃ cfg', clearHCC cfg subReg clear = .ok cfg' ∧ cfg'.m_ABCchips = cfg.m_ABCchips := by
  cases clear with
  | false => exact ⟨cfg, rfl, rfl⟩
  | true =>
      have hall : ∀ v : Bool, ∀ r ∈ [HCCStarSubRegister.TESTHPR, .STOPHPR],
          ((hccSubRegDefs v).lookup r).isSome := by decide +kernel
      rcases Option.isSome_iff_exists.mp (hall cfg.hcc.version_1 subReg h) with ⟨info, hlookup⟩
      have hthrown : (cfg.hcc.setSubRegister subReg 0).thrown = none := by
        rw [HccCfg.fieldSetter.accepted]
        exact ⟨info.m_width, by rw [HccCfg.fieldWidth, hlookup, Option.map_some],
          Nat.two_pow_pos _⟩
      refine ⟨{ cfg with hcc := (cfg.hcc.setSubRegister subReg 0).state }, ?_, rfl⟩
      show setHCCSubRegisterValue cfg subReg 0 = _
      unfold setHCCSubRegisterValue
      dsimp only
      rw [hthrown]

theorem doHPR_HCC_ok (frame : LCB.Frame) (hlength : 0 < s.hpr_sent.length) (hperiod : s.HPRPERIOD ≠ 0) :
    ∃ t, s.doHPR_HCC frame = .ok t ∧ AfterHCC frame s t := by
  have haddr : ∀ v : Bool, HCCStarRegister.HPR ∈ hccAddresses v := by decide +kernel
  let hcc : HccCfg := { s.m_starCfg.hcc with registers :=
    ⟨Function.update s.m_starCfg.hcc.registers.value HCCStarRegister.HPR (hccHprWord frame)⟩ }
  let cfg : StarCfg := { s.m_starCfg with hcc := hcc }
  have hset : s.m_starCfg.setHCCRegister HCCStarRegister.HPR (hccHprWord frame) = .ok cfg := by
    unfold StarCfg.setHCCRegister RegisterSet.set
    rw [if_pos (haddr _)]
    rfl
  have hget : cfg.getHCCRegister HCCStarRegister.HPR = .ok (hccHprWord frame) := by
    show RegisterSet.get hcc.registers HCCStarRegister.HPR = _
    unfold RegisterSet.get
    have hvalue : Function.update s.m_starCfg.hcc.registers.value HCCStarRegister.HPR
        (hccHprWord frame) HCCStarRegister.HPR = hccHprWord frame := Function.update_self _ _ _
    rw [if_pos (haddr _)]
    exact congrArg Except.ok hvalue
  rcases hccControl_ok cfg with ⟨c, hc⟩
  have hsend : ∃ send, s.sends c 0 = .ok send := by
    unfold sends
    rw [List.getElem?_eq_getElem hlength]
    dsimp only
    rw [if_neg hperiod]
    exact ⟨_, rfl⟩
  rcases hsend with ⟨send, hsend⟩
  rcases clearHCC_ok cfg .STOPHPR (by simp) (c.stopHPR && c.lcb_lock_changed) with
    ⟨cfg₁, hclear₁, hchips₁⟩
  rcases clearHCC_ok cfg₁ .TESTHPR (by simp) c.testHPR with ⟨cfg₂, hclear₂, hchips₂⟩
  let after := if send then s.announce (hccPacket (hccHprWord frame)) 0 else s
  refine ⟨{ after with m_starCfg := cfg₂ }, ?_, {
    chips := hchips₂.trans hchips₁
    flags := ?_
    length := ?_
    packets := ?_
    clock := ?_
    period := ?_ }⟩
  · unfold doHPR_HCC
    rw [hset]
    show (hccControl cfg >>= _) = _
    rw [hc, ok_bind, hsend, ok_bind, hget]
    show (clearHCC cfg _ _ >>= _) = _
    rw [hclear₁, ok_bind, hclear₂]
    rfl
  · intro i
    cases send with
    | false => rfl
    | true => exact getD_set_ne _ (Nat.succ_ne_zero i)
  · cases send with
    | false => rfl
    | true => exact List.length_set
  · cases send with
    | false => exact ⟨[], (List.append_nil _).symm, Or.inl rfl⟩
    | true => exact ⟨_, rfl, Or.inr rfl⟩
  · cases send <;> rfl
  · cases send <;> rfl

end HCC

end HPREmu

end Yarr.StarEmu
