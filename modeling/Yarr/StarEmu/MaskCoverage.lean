import Yarr.Star.StarMaskLoop
import Yarr.StarEmu.Broadcasts
import Yarr.StarEmu.StripRegisters

/-!
# Coverage of a mask loop

What the emulated chips make of the registers that each stage writes, and in
how many stages a strip is unmasked, or enabled for calibration.
-/

namespace Yarr.Star

open Yarr.StarEmu

namespace StarMaskLoop

variable (l : StarMaskLoop)

/-! ## Stages -/

/-- The commands of a stage. -/
def commandsAt (nActive cur : Nat) : List (List LCB.Frame) :=
  ({ l with m_cur := cur }.execPart1 nActive).2

/-- The rings of a stage. -/
def preparedAt (cur : Nat) : StarMaskLoop := ({ l with m_cur := cur } : StarMaskLoop).prepare.1

/-- How far the rings have turned. -/
def offsetAt (cur : Nat) : Nat := ({ l with m_cur := cur } : StarMaskLoop).prepare.2

/-- Loops with the same stages: their rings are the same, or set up for each stage. -/
structure Resembles (l' : StarMaskLoop) : Prop where
  config : l'.toMaskLoopConfig = l.toMaskLoopConfig
  rings : l.m_doNmask = true ∨ l'.m_maskedChannelsRing = l.m_maskedChannelsRing ∧
    l'.m_enabledChannelsRing = l.m_enabledChannelsRing

variable {l}

theorem Resembles.execPart1 {l' : StarMaskLoop} (h : l.Resembles l') (nActive : Nat) :
    (l'.execPart1 nActive).2 = l.commandsAt nActive l'.m_cur ∧
      l.Resembles (l'.execPart1 nActive).1 ∧ (l'.execPart1 nActive).1.m_cur = l'.m_cur ∧
      (l'.execPart1 nActive).1.m_done = l'.m_done := by
  rcases l with ⟨config, cur, done, masked, enabled⟩
  rcases l' with ⟨config', cur', done', masked', enabled'⟩
  rcases h with ⟨hconfig, hrings⟩
  change config' = config at hconfig
  subst hconfig
  change config'.m_doNmask = true ∨ masked' = masked ∧ enabled' = enabled at hrings
  unfold commandsAt StarMaskLoop.execPart1 prepare
  dsimp only
  rcases hrings with hNmask | ⟨rfl, rfl⟩
  · rw [if_pos hNmask, if_pos hNmask]
    exact ⟨rfl, ⟨rfl, Or.inl hNmask⟩, rfl, rfl⟩
  · by_cases hNmask : config'.m_doNmask = true
    · rw [if_pos hNmask, if_pos hNmask]
      exact ⟨rfl, ⟨rfl, Or.inl hNmask⟩, rfl, rfl⟩
    · rw [if_neg hNmask, if_neg hNmask]
      exact ⟨rfl, ⟨rfl, Or.inr ⟨rfl, rfl⟩⟩, rfl, rfl⟩

theorem run_eq (nActive : Nat) (hstep : l.step = 1) (fuel : Nat) {l' : StarMaskLoop}
    (h : l.Resembles l') (hdone : l'.m_done = decide (l.max ≤ l'.m_cur))
    (hfuel : l.max ≤ l'.m_cur + fuel) :
    run nActive fuel l' =
      (List.range' l'.m_cur (l.max - l'.m_cur)).map (l.commandsAt nActive) := by
  induction fuel generalizing l' with
  | zero =>
      have hnone : l.max - l'.m_cur = 0 := by omega
      rw [hnone]
      rfl
  | succ fuel ih =>
      unfold run
      by_cases hend : l.max ≤ l'.m_cur
      · have hnone : l.max - l'.m_cur = 0 := by omega
        rw [hdone, decide_eq_true hend, hnone]
        rfl
      · rcases h.execPart1 nActive with ⟨hcommands, hnext, hcur, hsame⟩
        have hmore : l.max - l'.m_cur = (l.max - (l'.m_cur + 1)) + 1 := by omega
        have hmax : (l'.execPart1 nActive).1.max = l.max :=
          congrArg MaskLoopConfig.max hnext.config
        have hplace : (l'.execPart1 nActive).1.execPart2.m_cur = l'.m_cur + 1 := by
          show (l'.execPart1 nActive).1.m_cur + (l'.execPart1 nActive).1.step = _
          have hone := congrArg MaskLoopConfig.step hnext.config
          rw [hcur]
          omega
        have hdone' : (l'.execPart1 nActive).1.execPart2.m_done =
            decide (l.max ≤ (l'.execPart1 nActive).1.execPart2.m_cur) := by
          show (if ¬(l'.execPart1 nActive).1.execPart2.m_cur < (l'.execPart1 nActive).1.max then true
            else (l'.execPart1 nActive).1.m_done) = _
          rw [hmax, hsame, hdone, decide_eq_false hend]
          by_cases hlast : l.max ≤ (l'.execPart1 nActive).1.execPart2.m_cur
          · rw [if_pos (not_lt.mpr hlast), decide_eq_true hlast]
          · rw [if_neg (not_not.mpr (not_le.mp hlast)), decide_eq_false hlast]
        have hresembles : l.Resembles (l'.execPart1 nActive).1.execPart2 :=
          ⟨hnext.config, hnext.rings⟩
        have hrest := ih hresembles hdone' (by omega)
        rw [hdone, decide_eq_false hend, hmore, List.range'_succ, List.map_cons, ← hcommands]
        rw [hplace] at hrest
        rw [← hrest]
        rfl

/-- The stages of a whole loop. -/
def stages (config : MaskLoopConfig) (nActive fuel : Nat) : List (List (List LCB.Frame)) :=
  run nActive fuel (ofConfig config).init

theorem stages_eq {config : MaskLoopConfig} (hmin : config.min = 0) (hstep : config.step = 1)
    (hpos : 0 < config.max) (nActive : Nat) {fuel : Nat} (hfuel : config.max ≤ fuel) :
    stages config nActive fuel =
      (List.range config.max).map ((ofConfig config).init.commandsAt nActive) := by
  have hinit : (ofConfig config).init.toMaskLoopConfig = config ∧ (ofConfig config).init.m_cur = 0 ∧
      (ofConfig config).init.m_done = false := by
    unfold init
    dsimp only
    split
    · exact ⟨rfl, hmin, rfl⟩
    · split
      · exact ⟨rfl, hmin, rfl⟩
      · exact ⟨rfl, hmin, rfl⟩
  have hmax : (ofConfig config).init.max = config.max := congrArg MaskLoopConfig.max hinit.1
  have hone : (ofConfig config).init.step = 1 :=
    (congrArg MaskLoopConfig.step hinit.1).trans hstep
  have hdone : (ofConfig config).init.m_done =
      decide ((ofConfig config).init.max ≤ (ofConfig config).init.m_cur) := by
    rw [hinit.2.2, hinit.2.1, hmax, decide_eq_false (not_le.mpr hpos)]
  have hrun := run_eq nActive hone fuel (l := (ofConfig config).init) ⟨rfl, Or.inr ⟨rfl, rfl⟩⟩
    hdone (by omega)
  rw [hinit.2.1, hmax, Nat.sub_zero, ← List.range_eq_range'] at hrun
  exact hrun

/-! ## The writes of a stage -/

/-- The registers that are written for one front end, and the values. -/
def registerWrites (onlyMask : Bool) (masks enables : MaskType) : List (Nat × UInt32) :=
  (List.range 8).map (fun index => (ABCStarRegister.MaskInput0 + index, masks index)) ++
    if onlyMask then []
    else (List.range 8).map fun index => (ABCStarRegister.CalREG0 + index, enables index)

theorem applyMask_eq (l : StarMaskLoop) (masks enables : MaskType) :
    l.applyMask masks enables = (registerWrites l.m_onlyMask masks enables).map
      StarChipsetEmu.broadcast := by
  unfold applyMask registerWrites
  rw [List.map_append, List.map_map]
  cases l.m_onlyMask with
  | true => rfl
  | false =>
      rw [if_neg (by decide), if_neg (by decide), List.map_map]
      rfl

/-- The registers that a stage writes. -/
def writesAt (l : StarMaskLoop) (nActive cur : Nat) : List (Nat × UInt32) :=
  (List.replicate nActive (registerWrites l.m_onlyMask
    ((l.preparedAt cur).m_maskedChannelsRing.readMask (l.offsetAt cur))
    ((l.preparedAt cur).m_enabledChannelsRing.readCalEnable (l.offsetAt cur)))).flatten

theorem commandsAt_eq (nActive cur : Nat) : l.commandsAt nActive cur =
    (l.writesAt nActive cur).map StarChipsetEmu.broadcast := by
  have honly : (l.preparedAt cur).m_onlyMask = l.m_onlyMask := by
    unfold preparedAt prepare
    split <;> rfl
  unfold writesAt
  rw [List.map_flatten, List.map_replicate, ← honly, ← applyMask_eq]
  rfl

theorem mem_writesAt {nActive cur : Nat} {w : Nat × UInt32} (hw : w ∈ l.writesAt nActive cur) :
    w ∈ registerWrites l.m_onlyMask
      ((l.preparedAt cur).m_maskedChannelsRing.readMask (l.offsetAt cur))
      ((l.preparedAt cur).m_enabledChannelsRing.readCalEnable (l.offsetAt cur)) := by
  rcases List.mem_flatten.mp hw with ⟨part, hpart, hmem⟩
  rwa [List.eq_of_mem_replicate hpart] at hmem

/-- A register has the same value wherever it is written. -/
def registerValue (masks enables : MaskType) (addr : Nat) : UInt32 :=
  if addr < ABCStarRegister.CalREG0 then masks (addr - ABCStarRegister.MaskInput0)
  else enables (addr - ABCStarRegister.CalREG0)

theorem registerWrites_value {onlyMask : Bool} {masks enables : MaskType} {w : Nat × UInt32}
    (hw : w ∈ registerWrites onlyMask masks enables) :
    w.2 = registerValue masks enables w.1 ∧ Writable w.1 := by
  have hwritable : ∀ k < 8, abcReadOnly (ABCStarRegister.MaskInput0 + k) = false ∧
      abcReadOnly (ABCStarRegister.CalREG0 + k) = false := by
    decide
  rcases List.mem_append.mp hw with hmask | hcal
  · rcases List.mem_map.mp hmask with ⟨index, hindex, rfl⟩
    have hlt := List.mem_range.mp hindex
    have hlow : ABCStarRegister.MaskInput0 + index < ABCStarRegister.CalREG0 := by
      show 16 + index < 104
      omega
    have hvalue : registerValue masks enables (ABCStarRegister.MaskInput0 + index) =
        masks index := by
      unfold registerValue
      rw [if_pos hlow, Nat.add_sub_cancel_left]
    exact ⟨hvalue.symm, by show 16 + index < 256; omega, (hwritable index hlt).1,
      fun v => maskInputs_mem v hlt⟩
  · cases onlyMask with
    | true => exact absurd hcal List.not_mem_nil
    | false =>
        rcases List.mem_map.mp hcal with ⟨index, hindex, rfl⟩
        have hlt := List.mem_range.mp hindex
        have hvalue : registerValue masks enables (ABCStarRegister.CalREG0 + index) =
            enables index := by
          unfold registerValue
          rw [if_neg (Nat.not_lt.mpr (Nat.le_add_right _ _)), Nat.add_sub_cancel_left]
        exact ⟨hvalue.symm, by show 104 + index < 256; omega, (hwritable index hlt).2,
          fun v => calRegs_mem v hlt⟩

theorem value_writesAt (nActive cur : Nat) (abc : AbcCfg) (addr : Nat) :
    (abc.writtenAll (l.writesAt nActive cur)).registers.value addr =
      if addr ∈ (l.writesAt nActive cur).map Prod.fst then
        registerValue ((l.preparedAt cur).m_maskedChannelsRing.readMask (l.offsetAt cur))
          ((l.preparedAt cur).m_enabledChannelsRing.readCalEnable (l.offsetAt cur)) addr
      else abc.registers.value addr :=
  abc.writtenAll_value _ (fun _ hw => (registerWrites_value (mem_writesAt hw)).1) addr

theorem mem_addresses {nActive cur : Nat} (hactive : 0 < nActive) (addr : Nat) :
    addr ∈ (l.writesAt nActive cur).map Prod.fst ↔
      (∃ k < 8, addr = ABCStarRegister.MaskInput0 + k) ∨
        l.m_onlyMask = false ∧ ∃ k < 8, addr = ABCStarRegister.CalREG0 + k := by
  have hparts : ∀ masks enables : MaskType, (registerWrites l.m_onlyMask masks enables).map
      Prod.fst = (List.range 8).map (fun k => ABCStarRegister.MaskInput0 + k) ++
        if l.m_onlyMask then [] else (List.range 8).map fun k => ABCStarRegister.CalREG0 + k := by
    intro masks enables
    unfold registerWrites
    rw [List.map_append, List.map_map]
    cases l.m_onlyMask with
    | true => rfl
    | false => rfl
  unfold writesAt
  rw [List.map_flatten, List.map_replicate, hparts, List.mem_flatten]
  have hone : ∀ part : List Nat, (∃ p ∈ List.replicate nActive part, addr ∈ p) ↔ addr ∈ part := by
    intro part
    constructor
    · rintro ⟨p, hp, haddr⟩
      rwa [List.eq_of_mem_replicate hp] at haddr
    · exact fun haddr => ⟨part, List.mem_replicate.mpr ⟨hactive.ne', rfl⟩, haddr⟩
  have hrange : ∀ first : Nat, addr ∈ (List.range 8).map (fun k => first + k) ↔
      ∃ k < 8, addr = first + k := by
    intro first
    simp only [List.mem_map, List.mem_range, eq_comm]
  rw [hone, List.mem_append, hrange]
  cases l.m_onlyMask with
  | true => simp
  | false =>
      rw [if_neg (by decide), hrange, and_iff_right rfl]

end StarMaskLoop

end Yarr.Star

namespace Yarr.StarEmu

open Yarr.Star

/-! ## What the chips make of a stage -/

/-- What an ABC has for its strips, if the commands before it were carried out. -/
def strips (read : AbcCfg → Except Failure StripData) (chips : Except Failure StarChipsetEmu)
    (chipID : Nat) : Except Failure StripData := do
  let s ← chips
  let abc ← s.m_starCfg.abcFromChipID chipID
  read abc

/-- A strip is read as set, or as clear. -/
def shows (value : Bool) (bits : Except Failure StripData) (ch : Nat) : Bool :=
  match bits with
  | .ok bits => bits.getLsbD ch == value
  | .error _ => false

section Stage

variable {l : StarMaskLoop} {nActive : Nat} {s : StarChipsetEmu} {chipID : Nat}
  {it : Fin MaxABCsPerHCC × AbcCfg}

theorem strips_found (hfind : s.m_starCfg.findABC chipID = some it)
    (read : AbcCfg → Except Failure StripData) : strips read (.ok s) chipID = read it.2 := by
  have hfound : s.m_starCfg.abcFromChipID chipID = .ok it.2 := by
    unfold StarCfg.abcFromChipID
    rw [hfind]
  unfold strips
  show (s.m_starCfg.abcFromChipID chipID >>= read) = _
  rw [hfound]
  rfl

theorem strips_after (cur : Nat) (hfind : s.m_starCfg.findABC chipID = some it)
    (read : AbcCfg → Except Failure StripData) :
    strips read ((l.commandsAt nActive cur).foldlM StarChipsetEmu.doFrames s) chipID =
      read (it.2.writtenAll (l.writesAt nActive cur)) := by
  have hwritable : ∀ w ∈ l.writesAt nActive cur, Writable w.1 := fun w hw =>
    (StarMaskLoop.registerWrites_value (StarMaskLoop.mem_writesAt hw)).2
  rcases StarChipsetEmu.doFrames_broadcasts (s := s) hwritable with ⟨t, ht, hafter⟩
  have hfound : t.m_starCfg.findABC chipID =
      some (it.1, it.2.writtenAll (l.writesAt nActive cur)) := by
    rw [hafter, hfind]
    rfl
  rw [StarMaskLoop.commandsAt_eq, ht]
  exact strips_found hfound read

theorem masks_after (hactive : 0 < nActive) (cur : Nat)
    (hfind : s.m_starCfg.findABC chipID = some it) :
    ∃ masks, strips getMasks ((l.commandsAt nActive cur).foldlM StarChipsetEmu.doFrames s) chipID =
      .ok masks ∧ ∀ ch, ch < 256 → masks.getLsbD ch =
        !(l.preparedAt cur).m_maskedChannelsRing.bits ((l.offsetAt cur + ch) % 256) := by
  rcases getMasks_eq (it.2.writtenAll (l.writesAt nActive cur)) with ⟨masks, hmasks, hbits⟩
  apply Exists.intro masks
  apply And.intro ((strips_after cur hfind getMasks).trans hmasks)
  intro ch hch
  have hmem : ABCStarRegister.MaskInput0 + ch % 128 / 16 ∈
      (l.writesAt nActive cur).map Prod.fst :=
    (StarMaskLoop.mem_addresses hactive _).mpr (Or.inl ⟨_, by omega, rfl⟩)
  have hlow : ABCStarRegister.MaskInput0 + ch % 128 / 16 < ABCStarRegister.CalREG0 := by
    show 16 + ch % 128 / 16 < 104
    omega
  have hchannel : ChannelRing.maskChannel (ch % 128 / 16) (maskBit ch) = ch := by
    have hhalf : (2 * (ch % 16) + ch / 128) / 2 = ch % 16 := by omega
    have hodd : (2 * (ch % 16) + ch / 128) % 2 = ch / 128 := by omega
    unfold ChannelRing.maskChannel maskBit
    rw [hhalf, hodd]
    omega
  have hplace : maskBit ch < 32 := by
    unfold maskBit
    omega
  rw [hbits ch hch, StarMaskLoop.value_writesAt, if_pos hmem, StarMaskLoop.registerValue,
    if_pos hlow, Nat.add_sub_cancel_left]
  have hring := (l.preparedAt cur).m_maskedChannelsRing.readMask_bit (l.offsetAt cur)
    (by omega : ch % 128 / 16 < 8) hplace
  rw [hchannel] at hring
  exact hring

theorem enables_after (hactive : 0 < nActive) (cur : Nat)
    (hfind : s.m_starCfg.findABC chipID = some it) (honly : l.m_onlyMask = false) :
    ∃ enables, strips getCalEnables
      ((l.commandsAt nActive cur).foldlM StarChipsetEmu.doFrames s) chipID = .ok enables ∧
        ∀ ch, ch < 256 → enables.getLsbD ch =
          (l.preparedAt cur).m_enabledChannelsRing.bits ((l.offsetAt cur + ch) % 256) := by
  rcases getCalEnables_eq (it.2.writtenAll (l.writesAt nActive cur)) with ⟨enables, henables, hbits⟩
  apply Exists.intro enables
  apply And.intro ((strips_after cur hfind getCalEnables).trans henables)
  intro ch hch
  have hmem : ABCStarRegister.CalREG0 + ch % 128 / 16 ∈
      (l.writesAt nActive cur).map Prod.fst :=
    (StarMaskLoop.mem_addresses hactive _).mpr (Or.inr ⟨honly, _, by omega, rfl⟩)
  have hchannel : ChannelRing.calChannel (ch % 128 / 16) (calBit ch) = ch := by
    unfold ChannelRing.calChannel calBit
    omega
  have hplace : calBit ch < 32 := by
    unfold calBit
    omega
  rw [hbits ch hch, StarMaskLoop.value_writesAt, if_pos hmem, StarMaskLoop.registerValue,
    if_neg (Nat.not_lt.mpr (Nat.le_add_right _ _)), Nat.add_sub_cancel_left]
  have hring := (l.preparedAt cur).m_enabledChannelsRing.readCalEnable_bit (l.offsetAt cur)
    (by omega : ch % 128 / 16 < 8) hplace
  rw [hchannel] at hring
  exact hring

theorem enables_kept (hactive : 0 < nActive) (cur : Nat)
    (hfind : s.m_starCfg.findABC chipID = some it) (honly : l.m_onlyMask = true) :
    strips getCalEnables ((l.commandsAt nActive cur).foldlM StarChipsetEmu.doFrames s) chipID =
      getCalEnables it.2 := by
  rw [strips_after cur hfind getCalEnables]
  apply getCalEnables_congr
  intro k hk
  have hnot : ABCStarRegister.CalREG0 + k ∉ (l.writesAt nActive cur).map Prod.fst := by
    rw [StarMaskLoop.mem_addresses hactive, honly]
    rintro (⟨k', hk', heq⟩ | ⟨hfalse, _⟩)
    · change 104 + k = 16 + k' at heq
      omega
    · cases hfalse
  rw [StarMaskLoop.value_writesAt, if_neg hnot]

end Stage

/-! ## The whole loop -/

section Loop

variable (config : MaskLoopConfig) (nActive fuel : Nat) (before : Nat → StarChipsetEmu)
  (chipID : Nat)

/-- The chips after the commands of a stage. Anything may have been before. -/
def afterStage (cur : Nat) : Except Failure StarChipsetEmu :=
  ((StarMaskLoop.stages config nActive fuel).getD cur []).foldlM StarChipsetEmu.doFrames
    (before cur)

/-- The number of stages in which a strip of an ABC is read as set, or as clear. -/
def stagesShowing (value : Bool) (read : AbcCfg → Except Failure StripData) (ch : Nat) : Nat :=
  Nat.count (fun cur =>
    shows value (strips read (afterStage config nActive fuel before cur) chipID) ch = true)
    (StarMaskLoop.stages config nActive fuel).length

def UnmasksEach : Prop := ∀ ch, ch < 256 →
  stagesShowing config nActive fuel before chipID false getMasks ch =
    config.m_nMaskedStripsPerGroup

def EnablesEach : Prop := ∀ ch, ch < 256 →
  stagesShowing config nActive fuel before chipID true getCalEnables ch =
    config.m_nEnabledStripsPerGroup

/-- What is read for each strip is what the rings have for its channel. -/
def ReadsBack : Prop := ∀ cur, cur < config.max →
  (∃ masks, strips getMasks (afterStage config nActive fuel before cur) chipID = .ok masks ∧
    ∀ ch, ch < 256 → masks.getLsbD ch =
      !(StarMaskLoop.ofConfig config).init.m_maskedChannelsRing.bits
        ((StarMaskLoop.offset cur + ch) % 256)) ∧
  (config.m_onlyMask = false →
    ∃ enables, strips getCalEnables (afterStage config nActive fuel before cur) chipID =
      .ok enables ∧ ∀ ch, ch < 256 → enables.getLsbD ch =
        (StarMaskLoop.ofConfig config).init.m_enabledChannelsRing.bits
          ((StarMaskLoop.offset cur + ch) % 256))

variable {config nActive fuel before chipID}

theorem init_config : (StarMaskLoop.ofConfig config).init.toMaskLoopConfig = config := by
  unfold StarMaskLoop.init
  dsimp only
  split
  · rfl
  · split <;> rfl

theorem afterStage_eq (hmin : config.min = 0) (hstep : config.step = 1)
    (hfuel : config.max ≤ fuel) {cur : Nat} (hcur : cur < config.max) :
    afterStage config nActive fuel before cur =
      ((StarMaskLoop.ofConfig config).init.commandsAt nActive cur).foldlM
        StarChipsetEmu.doFrames (before cur) := by
  unfold afterStage
  rw [StarMaskLoop.stages_eq hmin hstep (by omega) nActive hfuel, List.getD_eq_getElem?_getD,
    List.getElem?_map, List.getElem?_range hcur]
  rfl

theorem stagesShowing_eq (hmin : config.min = 0) (hstep : config.step = 1) (hpos : 0 < config.max)
    (hfuel : config.max ≤ fuel) {value : Bool} {read : AbcCfg → Except Failure StripData} {ch : Nat}
    {p : Nat → Prop} [DecidablePred p]
    (hshows : ∀ cur, cur < config.max → (shows value
      (strips read (afterStage config nActive fuel before cur) chipID) ch = true ↔ p cur)) :
    stagesShowing config nActive fuel before chipID value read ch = Nat.count p config.max := by
  have hlength : (StarMaskLoop.stages config nActive fuel).length = config.max := by
    rw [StarMaskLoop.stages_eq hmin hstep hpos nActive hfuel, List.length_map, List.length_range]
  unfold stagesShowing
  rw [hlength, Nat.count_eq_card_filter_range, Nat.count_eq_card_filter_range]
  exact congrArg Finset.card
    (Finset.filter_congr fun cur hcur => hshows cur (Finset.mem_range.mp hcur))

section Found

variable (hmin : config.min = 0) (hstep : config.step = 1) (hfuel : config.max ≤ fuel)
  (hactive : 0 < nActive)
  (hfound : ∀ cur, cur < config.max → ((before cur).m_starCfg.findABC chipID).isSome = true)

include hmin hstep hfuel hactive hfound

theorem masks_afterStage {cur : Nat} (hcur : cur < config.max) :
    ∃ masks, strips getMasks (afterStage config nActive fuel before cur) chipID = .ok masks ∧
      ∀ ch, ch < 256 → masks.getLsbD ch =
        !((StarMaskLoop.ofConfig config).init.preparedAt cur).m_maskedChannelsRing.bits
          (((StarMaskLoop.ofConfig config).init.offsetAt cur + ch) % 256) := by
  rcases Option.isSome_iff_exists.mp (hfound cur hcur) with ⟨it, hfind⟩
  rw [afterStage_eq hmin hstep hfuel hcur]
  exact masks_after hactive cur hfind

theorem enables_afterStage (honly : config.m_onlyMask = false) {cur : Nat}
    (hcur : cur < config.max) :
    ∃ enables, strips getCalEnables (afterStage config nActive fuel before cur) chipID =
      .ok enables ∧ ∀ ch, ch < 256 → enables.getLsbD ch =
        ((StarMaskLoop.ofConfig config).init.preparedAt cur).m_enabledChannelsRing.bits
          (((StarMaskLoop.ofConfig config).init.offsetAt cur + ch) % 256) := by
  rcases Option.isSome_iff_exists.mp (hfound cur hcur) with ⟨it, hfind⟩
  have honly' : (StarMaskLoop.ofConfig config).init.m_onlyMask = false :=
    (congrArg MaskLoopConfig.m_onlyMask init_config).trans honly
  rw [afterStage_eq hmin hstep hfuel hcur]
  exact enables_after hactive cur hfind honly'

theorem stagesShowing_masks (hpos : 0 < config.max) {ch : Nat} (hch : ch < 256) :
    stagesShowing config nActive fuel before chipID false getMasks ch =
      Nat.count (fun cur =>
        ((StarMaskLoop.ofConfig config).init.preparedAt cur).m_maskedChannelsRing.bits
          (((StarMaskLoop.ofConfig config).init.offsetAt cur + ch) % 256) = true) config.max := by
  apply stagesShowing_eq hmin hstep hpos hfuel
  intro cur hcur
  rcases masks_afterStage hmin hstep hfuel hactive hfound hcur with ⟨masks, hmasks, hbits⟩
  rw [hmasks]
  show (masks.getLsbD ch == false) = true ↔ _
  rw [hbits ch hch, beq_iff_eq, Bool.not_eq_false']

theorem stagesShowing_enables (honly : config.m_onlyMask = false) (hpos : 0 < config.max)
    {ch : Nat} (hch : ch < 256) :
    stagesShowing config nActive fuel before chipID true getCalEnables ch =
      Nat.count (fun cur =>
        ((StarMaskLoop.ofConfig config).init.preparedAt cur).m_enabledChannelsRing.bits
          (((StarMaskLoop.ofConfig config).init.offsetAt cur + ch) % 256) = true) config.max := by
  apply stagesShowing_eq hmin hstep hpos hfuel
  intro cur hcur
  rcases enables_afterStage hmin hstep hfuel hactive hfound honly hcur with
    ⟨enables, henables, hbits⟩
  rw [henables]
  show (enables.getLsbD ch == true) = true ↔ _
  rw [hbits ch hch, beq_iff_eq]

theorem stagesShowing_kept (honly : config.m_onlyMask = true) (hpos : 0 < config.max) (ch : Nat) :
    stagesShowing config nActive fuel before chipID true getCalEnables ch =
      Nat.count (fun cur => shows true (strips getCalEnables (.ok (before cur)) chipID) ch = true)
        config.max := by
  apply stagesShowing_eq hmin hstep hpos hfuel
  intro cur hcur
  rcases Option.isSome_iff_exists.mp (hfound cur hcur) with ⟨it, hfind⟩
  have honly' : (StarMaskLoop.ofConfig config).init.m_onlyMask = true :=
    (congrArg MaskLoopConfig.m_onlyMask init_config).trans honly
  rw [afterStage_eq hmin hstep hfuel hcur, enables_kept hactive cur hfind honly',
    strips_found hfind]

end Found

end Loop

end Yarr.StarEmu

/-!
## Strips in a mask loop

Each strip has its turn as often as the configuration says. The modes of the
loop that do something else are set apart.
-/

namespace Yarr.StarEmu

open Yarr.Star

section Standard

variable {config : MaskLoopConfig} {nActive fuel : Nat} {before : Nat → StarChipsetEmu}
  {chipID : Nat}

theorem preparedAt_standard (hNmask : config.m_doNmask = false) (cur : Nat) :
    ((StarMaskLoop.ofConfig config).init.preparedAt cur).m_maskedChannelsRing =
        (StarMaskLoop.ofConfig config).init.m_maskedChannelsRing ∧
      ((StarMaskLoop.ofConfig config).init.preparedAt cur).m_enabledChannelsRing =
        (StarMaskLoop.ofConfig config).init.m_enabledChannelsRing ∧
      (StarMaskLoop.ofConfig config).init.offsetAt cur = StarMaskLoop.offset cur := by
  have hoff : ¬(StarMaskLoop.ofConfig config).init.m_doNmask = true := by
    rw [congrArg MaskLoopConfig.m_doNmask init_config, hNmask]
    decide
  unfold StarMaskLoop.preparedAt StarMaskLoop.offsetAt StarMaskLoop.prepare
  rw [if_neg (by exact hoff)]
  exact ⟨rfl, rfl, rfl⟩

theorem init_rings (hNmask : config.m_doNmask = false) (hset : config.m_nEnabledStripsPerGroup ≠ 0) :
    (StarMaskLoop.ofConfig config).init.m_maskedChannelsRing =
        (ChannelRing.reset.fillMany 0 false).fillGroups config.max
          config.m_nMaskedStripsPerGroup 256 ∧
      (StarMaskLoop.ofConfig config).init.m_enabledChannelsRing =
        (ChannelRing.reset.fillMany config.m_EnabledMaskedShift false).fillGroups config.max
          config.m_nEnabledStripsPerGroup 256 := by
  have hoff : ¬config.m_doNmask = true := by
    rw [hNmask]
    decide
  unfold StarMaskLoop.init
  dsimp only
  rw [if_neg (by exact hoff), if_pos (by exact hset)]
  exact ⟨rfl, rfl⟩

theorem init_rings_unset (hNmask : config.m_doNmask = false)
    (hunset : config.m_nEnabledStripsPerGroup = 0) :
    (StarMaskLoop.ofConfig config).init.m_maskedChannelsRing = ChannelRing.reset ∧
      (StarMaskLoop.ofConfig config).init.m_enabledChannelsRing = ChannelRing.reset := by
  have hoff : ¬config.m_doNmask = true := by
    rw [hNmask]
    decide
  unfold StarMaskLoop.init
  dsimp only
  rw [if_neg (by exact hoff), if_neg (by exact not_not.mpr hunset)]
  exact ⟨rfl, rfl⟩

theorem count_reset {ch : Nat} (max : Nat) : Nat.count (fun cur =>
    ChannelRing.reset.bits ((StarMaskLoop.offset cur + ch) % 256) = true) max = 0 :=
  Nat.count_iff_forall_not.mpr fun _ _ => Bool.false_ne_true

/-- The numbers of stages, up to the modes of the loop. -/
theorem mask_loop_coverage (hmin : config.min = 0) (hstep : config.step = 1)
    (hdvd : config.max ∣ 256) (hNmask : config.m_doNmask = false)
    (hmasked : config.m_nMaskedStripsPerGroup ≤ config.max)
    (hshift : config.m_EnabledMaskedShift + config.m_nEnabledStripsPerGroup ≤ config.max)
    (hactive : 0 < nActive) (hfuel : config.max ≤ fuel)
    (hfound : ∀ cur, cur < config.max →
      ((before cur).m_starCfg.findABC chipID).isSome = true) :
    UnmasksEach config nActive fuel before chipID ∧
      (config.m_onlyMask = false → EnablesEach config nActive fuel before chipID) ∧
      ReadsBack config nActive fuel before chipID := by
  have hpos : 0 < config.max := Nat.pos_of_dvd_of_pos hdvd (by decide)
  have hprepared := preparedAt_standard hNmask
  have hunmasks : UnmasksEach config nActive fuel before chipID := by
    intro ch hch
    rw [stagesShowing_masks hmin hstep hfuel hactive hfound hpos hch]
    simp only [hprepared]
    by_cases hset : config.m_nEnabledStripsPerGroup = 0
    · rw [(init_rings_unset hNmask hset).1, count_reset, config.unset hset]
    · rw [(init_rings hNmask hset).1]
      exact StarMaskLoop.count_groups hdvd (by omega)
  have henables : config.m_onlyMask = false → EnablesEach config nActive fuel before chipID := by
    intro honly ch hch
    rw [stagesShowing_enables hmin hstep hfuel hactive hfound honly hpos hch]
    simp only [hprepared]
    by_cases hset : config.m_nEnabledStripsPerGroup = 0
    · rw [(init_rings_unset hNmask hset).2, count_reset, hset]
    · rw [(init_rings hNmask hset).2]
      exact StarMaskLoop.count_groups hdvd hshift
  apply And.intro hunmasks
  apply And.intro henables
  intro cur hcur
  have hmasks := masks_afterStage hmin hstep hfuel hactive hfound hcur
  have hcal := fun honly => enables_afterStage hmin hstep hfuel hactive hfound honly hcur
  simp only [hprepared] at hmasks hcal
  exact ⟨hmasks, hcal⟩

end Standard

/-! ## Loops on one chip -/

/-- Eight stages, with seven strips of each group unmasked and the second one enabled. -/
def crossTalk : MaskLoopConfig := .loadConfig {
  min := 0
  max := 8
  step := 1
  nMaskedStripsPerGroup := 7
  nEnabledStripsPerGroup := 1
  EnabledMaskedShift := 1
  maskOnly := false
  doNmask := false }

theorem oneABC_found {max : Nat} (cur : Nat) (_ : cur < max) :
    (((fun _ => oneABC) cur : StarChipsetEmu).m_starCfg.findABC 3).isSome = true := rfl

theorem mask_loop_coverage_crossTalk :
    UnmasksEach crossTalk 1 8 (fun _ => oneABC) 3 ∧
      (crossTalk.m_onlyMask = false → EnablesEach crossTalk 1 8 (fun _ => oneABC) 3) ∧
      ReadsBack crossTalk 1 8 (fun _ => oneABC) 3 :=
  mask_loop_coverage rfl rfl (by decide) rfl (by decide) (by decide) (by decide) (by decide)
    oneABC_found

/-- Four stages, with one strip of each group. -/
def groupsOfFour (nEnabled shift : Nat) (maskOnly doNmask : Bool) : MaskLoopConfig := .loadConfig {
  min := 0
  max := 4
  step := 1
  nMaskedStripsPerGroup := 1
  nEnabledStripsPerGroup := nEnabled
  EnabledMaskedShift := shift
  maskOnly := maskOnly
  doNmask := doNmask }

theorem nmask_not_unmasked :
    ¬UnmasksEach (groupsOfFour 1 0 false true) 1 4 (fun _ => oneABC) 3 := by
  intro h
  have hcount := h 200 (by decide)
  rw [stagesShowing_masks rfl rfl (by decide) (by decide) oneABC_found (by decide) (by decide)]
    at hcount
  revert hcount
  decide +kernel

theorem maskOnly_not_enabled :
    ¬EnablesEach (groupsOfFour 1 0 true false) 1 4 (fun _ => oneABC) 3 := by
  intro h
  have hcount := h 0 (by decide)
  rw [stagesShowing_kept rfl rfl (by decide) (by decide) oneABC_found rfl (by decide)] at hcount
  revert hcount
  decide +kernel

theorem shifted_not_enabled :
    ¬EnablesEach (groupsOfFour 2 3 false false) 1 4 (fun _ => oneABC) 3 := by
  intro h
  have hcount := h 3 (by decide)
  rw [stagesShowing_enables rfl rfl (by decide) (by decide) oneABC_found rfl (by decide)
    (by decide)] at hcount
  revert hcount
  decide +kernel

theorem modes_not_covering :
    ¬UnmasksEach (groupsOfFour 1 0 false true) 1 4 (fun _ => oneABC) 3 ∧
      ¬EnablesEach (groupsOfFour 1 0 true false) 1 4 (fun _ => oneABC) 3 ∧
      ¬EnablesEach (groupsOfFour 2 3 false false) 1 4 (fun _ => oneABC) 3 :=
  ⟨nmask_not_unmasked, maskOnly_not_enabled, shifted_not_enabled⟩

end Yarr.StarEmu
