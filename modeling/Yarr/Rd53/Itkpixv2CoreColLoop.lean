import Yarr.Rd53.Rd53aCoreColLoop

/-!
# The core column loop of ITKPIXV2

A step writes the registers of the core columns to all chips at once. If unused
core columns are to be off, each active chip then gets its own registers, from
a list of what they were before the loop. The list has an entry for each active
chip.
-/

namespace Yarr.Rd53

open Itkpixv2GlobalCfg

/-- The chips of a scan. No two of them on a channel have the same id. -/
structure Chips (n : Nat) where
  active : Fin n → Bool
  txChannel : Fin n → UInt32
  m_chipId : Fin n → Fin 16
  distinct : ∀ id id', txChannel id = txChannel id' → m_chipId id = m_chipId id' → id = id'

/-- `addFe` enters every front-end as active, and nothing changes the entry. -/
def Chips.getTxMask {n : Nat} (c : Chips n) : List UInt32 := (List.finRange n).map c.txChannel

/-- The registers of the global front-end, of the front-ends and of their chips. -/
structure Bench (n : Nat) where
  g_fe : Words numRegs
  m_cfg : Fin n → Words numRegs
  chip : Fin n → Words numRegs
  cmdEnable : List UInt32

namespace Bench

variable {n : Nat} (c : Chips n)

/-- A chip takes the writes on its channel that go to its id or, from 16 on, to all ids. -/
def sendWrReg (b : Bench n) (chipId : Nat) (address : Fin numRegs) (data : UInt16) : Bench n :=
  { b with
    chip := fun id =>
      if c.txChannel id ∈ b.cmdEnable ∧ (16 ≤ chipId ∨ chipId = (c.m_chipId id).val) then
        (b.chip id).set address data address.isLt
      else b.chip id }

/-- `g_fe->writeRegister` -/
def writeGlobal (b : Bench n) (ref : RegDefault numRegs) (value : UInt16) : Bench n :=
  let g_fe := ref.write b.g_fe value
  sendWrReg c { b with g_fe := g_fe } 16 ref.m_addr
    (getElem g_fe ref.m_addr ref.m_addr.isLt)

/-- `fe->writeNamedRegister` -/
def writeNamed (b : Bench n) (id : Fin n) (name : String) (value : UInt16) : Bench n :=
  match globalCfg.regMap.find name with
  | some ref =>
      let m_cfg := ref.write (b.m_cfg id) value
      sendWrReg c { b with m_cfg := Function.update b.m_cfg id m_cfg } (c.m_chipId id) ref.m_addr
        (getElem m_cfg ref.m_addr ref.m_addr.isLt)
  | none => b

def writeGlobals (b : Bench n) (regs : Nat → RegDefault numRegs) (values : Fin 4 → UInt16) :
    Bench n :=
  (List.finRange 4).foldl
    (fun (b : Bench n) (iReg : Fin 4) => b.writeGlobal c (regs iReg.val) (values iReg)) b

/-- The four registers of one chip, with only its channel enabled. -/
def writeChip (b : Bench n) (id : Fin n) (values : Fin 4 → UInt16) : Bench n :=
  (List.finRange 4).foldl
    (fun (b : Bench n) (iReg : Fin 4) =>
      b.writeNamed c id ("EnCoreCol" ++ toString iReg.val) (values iReg))
    { b with cmdEnable := [c.txChannel id] }

/-- A loop over the active chips with a counter. `none`: there is nothing for the counter. -/
def writeChips (b : Bench n) (values : Nat → Option (Fin 4 → UInt16)) : Option (Bench n) :=
  ((List.finRange n).foldlM
    (fun (s : Bench n × Nat) id =>
      if c.active id then (values s.2).map fun vals => (s.1.writeChip c id vals, s.2 + 1)
      else some s) (b, 0)).map Prod.fst

end Bench

/-- The settings of the loop, with steps of one. -/
structure Itkpixv2CoreColLoop where
  range : CoreRange
  m_usePToT : Bool
  m_disUnused : Bool
  m_ignoreDis : Bool
  m_skipDis : Bool

namespace Itkpixv2CoreColLoop

structure State (n : Nat) where
  bench : Bench n
  m_cur : Nat
  m_done : Bool
  m_coreCols : Fin 4 → UInt16
  m_initCoreColsAllChips : List (Fin 4 → UInt16)

variable {n : Nat} (l : Itkpixv2CoreColLoop) (c : Chips n)

/-- What is recorded of the active chips. -/
def savedRegisters (b : Bench n) : List (Fin 4 → UInt16) :=
  ((List.finRange n).filter c.active).map fun id iReg => (EnCoreCol iReg.val).read (b.m_cfg id)

/-- Then the record is read for each channel of the Tx mask. `none`: beyond its end. -/
def init (b : Bench n) : Option (State n) :=
  let saved := savedRegisters c b
  if (List.range c.getTxMask.length).all fun iChannel => saved[iChannel]?.isSome then
    some ⟨b, 0, false, fun _ => 0, saved⟩
  else none

/-- The registers of the core columns of a step. -/
def coreCols (m_cur : Nat) : Fin 4 → UInt16 :=
  (List.range' l.range.minCore (l.range.maxCore - l.range.minCore)).foldl
    (fun m_coreCols i =>
      if i % l.range.nSteps = m_cur then
        Function.update m_coreCols (Fin.ofNat 4 (i / 16))
          (m_coreCols (Fin.ofNat 4 (i / 16)) ||| (0x1 <<< UInt16.ofNat (i % 16)))
      else m_coreCols) fun _ => 0

/-- The part of `setCores` that switches core columns off. -/
def setEnabled (s : State n) : Option (Bench n) :=
  let b : Bench n := { s.bench with cmdEnable := c.getTxMask }
  let b := if l.m_disUnused then b.writeGlobals c EnCoreCol s.m_coreCols else b
  if l.m_disUnused ∧ (l.m_ignoreDis ∨ l.m_skipDis) then
    b.writeChips c fun iChannel => s.m_initCoreColsAllChips[iChannel]?.map fun initial iReg =>
      initial iReg &&& s.m_coreCols iReg
  else some b

/-- The part that switches the injection on. -/
def setInjection (m_coreCols : Fin 4 → UInt16) (b : Bench n) : Bench n :=
  let b : Bench n := { b with cmdEnable := c.getTxMask }
  let b := b.writeGlobals c EnCoreColCal m_coreCols
  let b := b.writeGlobals c HitOrMask fun iReg => ~~~m_coreCols iReg
  if l.m_usePToT then b.writeGlobals c PtotCoreColEn m_coreCols else b

def setCores (s : State n) : Option (State n) :=
  (l.setEnabled c s).map fun b => { s with bench := l.setInjection c s.m_coreCols b }

def execPart1 (s : State n) : Option (State n) :=
  l.setCores c { s with m_coreCols := l.coreCols s.m_cur }

def execPart2 (s : State n) : State n :=
  { s with
    m_cur := s.m_cur + 1
    m_done := if s.m_cur + 1 < l.range.nSteps then s.m_done else true }

def allOn : Fin 4 → UInt16
  | 3 => 63
  | _ => 65535

/-- `end()` -/
def finish (s : State n) : Option (Bench n) :=
  (s.bench.writeChips c fun iChannel =>
    if l.m_disUnused ∧ l.m_ignoreDis then some allOn
    else s.m_initCoreColsAllChips[iChannel]?).map fun b => { b with cmdEnable := c.getTxMask }

/-- The steps up to the end of the loop: the registers behind each `execPart1`. -/
def execSteps : Nat → State n → Option (List (Bench n) × State n)
  | 0, s => if s.m_done then some ([], s) else none
  | fuel + 1, s =>
      if s.m_done then some ([], s)
      else do
        let s ← l.execPart1 c s
        let (steps, last) ← execSteps fuel (l.execPart2 s)
        pure (s.bench :: steps, last)

def run (b : Bench n) : Option (List (Bench n) × Bench n) := do
  let s ← init c b
  let (steps, s) ← l.execSteps c l.range.nSteps s
  let b ← l.finish c s
  pure (steps, b)

/-! ## What the loop is to do -/

/-- The bit of a core column in four registers. -/
def colBit (regs : Nat → RegDefault numRegs) (cfg : Words numRegs) (cc : Nat) : Bool :=
  ((regs (cc / 16)).read cfg).toBitVec.getLsbD (cc % 16)

/-- The core column belongs to the step. -/
def OfStep (m_cur cc : Nat) : Prop := l.range.Has cc ∧ cc % l.range.nSteps = m_cur

instance (m_cur : Nat) : DecidablePred (l.OfStep m_cur) := fun _ =>
  inferInstanceAs (Decidable (_ ∧ _))

/-- The calibration injection of each core column of the range is on in one step, in the global
front-end and in every chip. -/
def InjectsOnce (b : Bench n) : Prop :=
  ∃ steps last, l.run c b = some (steps, last) ∧
    l.range.OnceEach (steps.map fun b => colBit EnCoreColCal b.g_fe) ∧
    ∀ id, l.range.OnceEach (steps.map fun b => colBit EnCoreColCal (b.chip id))

/-- The core columns of an active chip are those of before, as far as they belong to the step, and
behind the loop those of before. -/
structure Restricts (b : Bench n) (steps : List (Bench n)) (last : Bench n) : Prop where
  length : steps.length = l.range.nSteps
  step : ∀ id, c.active id = true → ∀ m_cur (h : m_cur < steps.length), ∀ cc < 64,
    colBit EnCoreCol (steps[m_cur].m_cfg id) cc =
        (colBit EnCoreCol (b.m_cfg id) cc && decide (l.OfStep m_cur cc)) ∧
      colBit EnCoreCol (steps[m_cur].chip id) cc =
        (colBit EnCoreCol (b.m_cfg id) cc && decide (l.OfStep m_cur cc))
  restored : ∀ id, c.active id = true → ∀ i < 4,
    (EnCoreCol i).read (last.m_cfg id) = (EnCoreCol i).read (b.m_cfg id) ∧
      (EnCoreCol i).read (last.chip id) = (EnCoreCol i).read (b.m_cfg id)

/-- The loop runs, without a read beyond the end of the record, and does so. -/
def RunRestricts (b : Bench n) : Prop :=
  ∃ steps last, l.run c b = some (steps, last) ∧ l.Restricts c b steps last

end Itkpixv2CoreColLoop

/-! ## Writes to four registers -/

/-- Four registers, each in a word of its own. -/
structure FourWords (regs : Nat → RegDefault numRegs) : Prop where
  m_addr : ∀ i < 4, (regs i).m_addr = (regs i).m_cfg
  apart : ∀ i < 4, ∀ j < 4, i ≠ j → (regs i).m_cfg ≠ (regs j).m_cfg

theorem fourWords_EnCoreCol : FourWords EnCoreCol := ⟨by decide, by decide⟩

theorem fourWords_EnCoreColCal : FourWords EnCoreColCal := ⟨by decide, by decide⟩

theorem fourWords_HitOrMask : FourWords HitOrMask := ⟨by decide, by decide⟩

theorem fourWords_PtotCoreColEn : FourWords PtotCoreColEn := ⟨by decide, by decide⟩

/-- The two families have no word in common. -/
def OtherWords (regs regs' : Nat → RegDefault numRegs) : Prop :=
  ∀ i < 4, ∀ j < 4, (regs i).m_cfg ≠ (regs' j).m_cfg

instance (regs regs' : Nat → RegDefault numRegs) : Decidable (OtherWords regs regs') :=
  inferInstanceAs (Decidable (∀ i < 4, ∀ j < 4, _))

theorem RegDefault.read_write_of_ne {r s : RegDefault numRegs} (h : s.m_cfg ≠ r.m_cfg)
    (cfg : Words numRegs) (value : UInt16) : s.read (r.write cfg value) = s.read cfg :=
  RegDefault.read_write_of_apart (fun _ _ hr hs => h (hs.1.symm.trans hr.1)) cfg value

theorem RegDefault.read_set_addr {r : RegDefault numRegs} (haddr : r.m_addr = r.m_cfg)
    (chip cfg : Words numRegs) : r.read (chip.set r.m_addr cfg[r.m_addr]) = r.read cfg := by
  rw [RegDefault.read, RegDefault.getElem_set, if_pos haddr.symm]
  exact congrArg (fun k : Fin numRegs => r.readWord cfg[k]) haddr

namespace Bench

variable {n : Nat} {c : Chips n}

/-- Every chip hears the commands. -/
def AllListen (c : Chips n) (b : Bench n) : Prop := ∀ id, c.txChannel id ∈ b.cmdEnable

theorem allListen_getTxMask (c : Chips n) (b : Bench n) :
    AllListen c { b with cmdEnable := c.getTxMask } := fun id =>
  List.mem_map.mpr ⟨id, List.mem_finRange id, rfl⟩

/-- What writes to registers of the global front-end do, for some of the four. -/
structure WroteGlobals (regs : Nat → RegDefault numRegs) (values : Fin 4 → UInt16)
    (is : List (Fin 4)) (b b' : Bench n) : Prop where
  m_cfg : b'.m_cfg = b.m_cfg
  cmdEnable : b'.cmdEnable = b.cmdEnable
  set : ∀ i ∈ is, ((regs i.val).read b'.g_fe).toNat = (values i).toNat % 2 ^ (regs i.val).m_bits ∧
    ∀ id, (regs i.val).read (b'.chip id) = (regs i.val).read b'.g_fe
  kept : ∀ r : RegDefault numRegs, (∀ i ∈ is, r.m_cfg ≠ (regs i.val).m_cfg) →
    r.read b'.g_fe = r.read b.g_fe ∧ ∀ id, r.read (b'.chip id) = r.read (b.chip id)

theorem chip_writeGlobal {b : Bench n} (hall : AllListen c b) (ref : RegDefault numRegs)
    (value : UInt16) (id : Fin n) :
    (b.writeGlobal c ref value).chip id =
      (b.chip id).set ref.m_addr (getElem (ref.write b.g_fe value) ref.m_addr ref.m_addr.isLt)
        ref.m_addr.isLt :=
  if_pos ⟨hall id, Or.inl (Nat.le_refl 16)⟩

theorem wroteGlobals_foldl {regs : Nat → RegDefault numRegs} (hregs : FourWords regs)
    (values : Fin 4 → UInt16) {is : List (Fin 4)} (hnodup : is.Nodup) {b : Bench n}
    (hall : AllListen c b) :
    WroteGlobals regs values is b (is.foldl
      (fun (b : Bench n) (iReg : Fin 4) => b.writeGlobal c (regs iReg.val) (values iReg)) b) := by
  induction is generalizing b with
  | nil =>
      exact ⟨rfl, rfl, fun i hi => absurd hi List.not_mem_nil, fun r _ => ⟨rfl, fun _ => rfl⟩⟩
  | cons i is ih =>
      obtain ⟨hnot, hrest⟩ := List.nodup_cons.mp hnodup
      have hlater := ih hrest (b := b.writeGlobal c (regs i.val) (values i)) hall
      have haddr := hregs.m_addr i.val i.isLt
      have hchip := chip_writeGlobal hall (regs i.val) (values i)
      constructor
      · exact hlater.m_cfg
      · exact hlater.cmdEnable
      · intro j hj
        rcases List.mem_cons.mp hj with rfl | hmem
        · have hapart : ∀ i ∈ is, (regs j.val).m_cfg ≠ (regs i.val).m_cfg := fun i hi =>
            hregs.apart j.val j.isLt i.val i.isLt fun heq => hnot (Fin.ext heq ▸ hi)
          obtain ⟨hglobal, hchips⟩ := hlater.kept (regs j.val) hapart
          refine ⟨?_, fun id => ?_⟩
          · rw [List.foldl_cons, hglobal]
            exact (regs j.val).read_write b.g_fe (values j)
          · rw [List.foldl_cons, hglobal, hchips id, hchip id]
            exact RegDefault.read_set_addr haddr _ _
        · exact hlater.set j hmem
      · intro r hr
        obtain ⟨hne, hothers⟩ := List.forall_mem_cons.mp hr
        obtain ⟨hglobal, hchips⟩ := hlater.kept r hothers
        refine ⟨?_, fun id => ?_⟩
        · rw [List.foldl_cons, hglobal]
          exact RegDefault.read_write_of_ne hne b.g_fe (values i)
        · rw [List.foldl_cons, hchips id, hchip id]
          exact RegDefault.read_set_of_ne r (fun heq => hne (heq.trans haddr)) _ _

theorem writeGlobals_spec {regs : Nat → RegDefault numRegs} (hregs : FourWords regs)
    (values : Fin 4 → UInt16) {b : Bench n} (hall : AllListen c b) :
    WroteGlobals regs values (List.finRange 4) b (b.writeGlobals c regs values) :=
  wroteGlobals_foldl hregs values (List.nodup_finRange 4) hall

theorem writeNamed_eq (b : Bench n) (id : Fin n) (name : String) (value : UInt16) :
    b.writeNamed c id name value =
      (globalCfg.regMap.find name).elim b fun ref =>
        sendWrReg c { b with m_cfg := Function.update b.m_cfg id (ref.write (b.m_cfg id) value) }
          (c.m_chipId id) ref.m_addr
          (getElem (ref.write (b.m_cfg id) value) ref.m_addr ref.m_addr.isLt) := by
  rw [show @writeNamed n = _ by delta writeNamed; rfl]
  cases globalCfg.regMap.find name with
  | none => rfl
  | some ref => rfl

attribute [irreducible] writeNamed

theorem chip_writeNamed {b : Bench n} {id : Fin n} (hcmd : b.cmdEnable = [c.txChannel id])
    {name : String} {ref : RegDefault numRegs} (hfind : globalCfg.regMap.find name = some ref)
    (value : UInt16) (id' : Fin n) :
    (b.writeNamed c id name value).chip id' =
      if id' = id then
        (b.chip id).set ref.m_addr
          (getElem (ref.write (b.m_cfg id) value) ref.m_addr ref.m_addr.isLt) ref.m_addr.isLt
      else b.chip id' := by
  rw [writeNamed_eq, hfind, Option.elim_some]
  unfold sendWrReg
  dsimp only
  by_cases hid : id' = id
  · subst hid
    rw [if_pos rfl, if_pos ⟨by rw [hcmd]; exact List.mem_singleton_self _, Or.inr rfl⟩]
  · rw [if_neg hid, if_neg]
    rintro ⟨hmem, hto⟩
    rw [hcmd, List.mem_singleton] at hmem
    have hlt := (c.m_chipId id).isLt
    rcases hto with hle | heq
    · omega
    · exact hid (c.distinct id' id hmem (Fin.ext heq.symm))

theorem m_cfg_writeNamed {b : Bench n} {name : String} {ref : RegDefault numRegs}
    (hfind : globalCfg.regMap.find name = some ref) (id : Fin n) (value : UInt16) :
    (b.writeNamed c id name value).m_cfg =
      Function.update b.m_cfg id (ref.write (b.m_cfg id) value) := by
  rw [writeNamed_eq, hfind]
  rfl

theorem cmdEnable_writeNamed (b : Bench n) (id : Fin n) (name : String) (value : UInt16) :
    (b.writeNamed c id name value).cmdEnable = b.cmdEnable ∧
      (b.writeNamed c id name value).g_fe = b.g_fe := by
  rw [writeNamed_eq]
  cases globalCfg.regMap.find name with
  | none => exact ⟨rfl, rfl⟩
  | some ref => exact ⟨rfl, rfl⟩

/-- What writes to registers of one front-end do, for some of the four. -/
structure WroteChip (id : Fin n) (values : Fin 4 → UInt16) (is : List (Fin 4)) (b b' : Bench n) :
    Prop where
  g_fe : b'.g_fe = b.g_fe
  others : ∀ id' ≠ id, b'.m_cfg id' = b.m_cfg id' ∧ b'.chip id' = b.chip id'
  set : ∀ i ∈ is,
    ((EnCoreCol i.val).read (b'.m_cfg id)).toNat =
        (values i).toNat % 2 ^ (EnCoreCol i.val).m_bits ∧
      (EnCoreCol i.val).read (b'.chip id) = (EnCoreCol i.val).read (b'.m_cfg id)
  kept : ∀ r : RegDefault numRegs, (∀ i ∈ is, r.m_cfg ≠ (EnCoreCol i.val).m_cfg) →
    r.read (b'.m_cfg id) = r.read (b.m_cfg id) ∧ r.read (b'.chip id) = r.read (b.chip id)

theorem wroteChip_foldl (id : Fin n) (values : Fin 4 → UInt16) {is : List (Fin 4)}
    (hnodup : is.Nodup) {b : Bench n} (hcmd : b.cmdEnable = [c.txChannel id]) :
    WroteChip id values is b (is.foldl
      (fun (b : Bench n) (iReg : Fin 4) =>
        b.writeNamed c id ("EnCoreCol" ++ toString iReg.val) (values iReg)) b) := by
  induction is generalizing b with
  | nil =>
      exact ⟨rfl, fun _ _ => ⟨rfl, rfl⟩, fun i hi => absurd hi List.not_mem_nil,
        fun r _ => ⟨rfl, rfl⟩⟩
  | cons i is ih =>
      obtain ⟨hnot, hrest⟩ := List.nodup_cons.mp hnodup
      have hfind := ChipCfg.hasCoreCols_itkpixv2.find i.val i.isLt
      have hsame := b.cmdEnable_writeNamed (c := c) id ("EnCoreCol" ++ toString i.val) (values i)
      have hchip := chip_writeNamed hcmd hfind (values i)
      have hcfg := @m_cfg_writeNamed n c b _ _ hfind id (values i)
      have haddr := fourWords_EnCoreCol.m_addr i.val i.isLt
      have hlater := @ih hrest (b.writeNamed c id ("EnCoreCol" ++ toString i.val) (values i))
        (hsame.1.trans hcmd)
      constructor
      · exact hlater.g_fe.trans hsame.2
      · intro id' hid
        obtain ⟨hcfg', hchip'⟩ := hlater.others id' hid
        rw [hcfg, Function.update_of_ne hid] at hcfg'
        rw [hchip id', if_neg hid] at hchip'
        exact ⟨hcfg', hchip'⟩
      · intro j hj
        rcases List.mem_cons.mp hj with rfl | hmem
        · have hapart : ∀ i ∈ is, (EnCoreCol j.val).m_cfg ≠ (EnCoreCol i.val).m_cfg := fun i hi =>
            fourWords_EnCoreCol.apart j.val j.isLt i.val i.isLt fun heq => hnot (Fin.ext heq ▸ hi)
          obtain ⟨hcfg', hchip'⟩ := hlater.kept (EnCoreCol j.val) hapart
          rw [hcfg, Function.update_self] at hcfg'
          rw [hchip id, if_pos rfl, RegDefault.read_set_addr haddr] at hchip'
          refine ⟨?_, hchip'.trans hcfg'.symm⟩
          rw [List.foldl_cons, hcfg']
          exact (EnCoreCol j.val).read_write (b.m_cfg id) (values j)
        · exact hlater.set j hmem
      · intro r hr
        obtain ⟨hne, hothers⟩ := List.forall_mem_cons.mp hr
        obtain ⟨hcfg', hchip'⟩ := hlater.kept r hothers
        rw [hcfg, Function.update_self, RegDefault.read_write_of_ne hne] at hcfg'
        rw [hchip id, if_pos rfl,
          RegDefault.read_set_of_ne r (fun heq => hne (heq.trans haddr))] at hchip'
        exact ⟨hcfg', hchip'⟩

theorem writeChip_spec (b : Bench n) (id : Fin n) (values : Fin 4 → UInt16) :
    WroteChip id values (List.finRange 4) b (b.writeChip c id values) := by
  have hwrote := @wroteChip_foldl n c id values (List.finRange 4) (List.nodup_finRange 4)
    { b with cmdEnable := [c.txChannel id] } rfl
  unfold writeChip
  exact ⟨hwrote.g_fe, hwrote.others, hwrote.set, hwrote.kept⟩

/-- The front-end and its chip have the values. -/
def HasCores (b : Bench n) (id : Fin n) (values : Fin 4 → UInt16) : Prop :=
  ∀ i : Fin 4,
    ((EnCoreCol i.val).read (b.m_cfg id)).toNat =
        (values i).toNat % 2 ^ (EnCoreCol i.val).m_bits ∧
      (EnCoreCol i.val).read (b.chip id) = (EnCoreCol i.val).read (b.m_cfg id)

/-- A loop over chips whose counter finds the values of each active one. -/
theorem writeChips_foldlM (vals : Fin n → Fin 4 → UInt16) (values : Nat → Option (Fin 4 → UInt16))
    {ids : List (Fin n)} (hnodup : ids.Nodup) {k : Nat}
    (hvalues : ∀ j v, ((ids.filter c.active).map vals)[j]? = some v → values (k + j) = some v)
    (b : Bench n) :
    ∃ b', ids.foldlM
        (fun (s : Bench n × Nat) id =>
          if c.active id then (values s.2).map fun vals => (s.1.writeChip c id vals, s.2 + 1)
          else some s) (b, k) = some (b', k + (ids.filter c.active).length) ∧
      b'.g_fe = b.g_fe ∧
      (∀ id ∈ ids, c.active id = true → b'.HasCores id (vals id)) ∧
      ∀ id, id ∉ ids → b'.m_cfg id = b.m_cfg id ∧ b'.chip id = b.chip id := by
  induction ids generalizing k b with
  | nil => exact ⟨b, rfl, rfl, fun id hid => absurd hid List.not_mem_nil, fun _ _ => ⟨rfl, rfl⟩⟩
  | cons id ids ih =>
      obtain ⟨hnot, hrest⟩ := List.nodup_cons.mp hnodup
      rw [List.foldlM_cons]
      by_cases hactive : c.active id = true
      · rw [List.filter_cons_of_pos hactive] at hvalues ⊢
        have hfirst : values k = some (vals id) := hvalues 0 (vals id) rfl
        have hlater : ∀ j v, ((ids.filter c.active).map vals)[j]? = some v →
            values (k + 1 + j) = some v := by
          intro j v hv
          have hnext := hvalues (j + 1) v hv
          rwa [show k + 1 + j = k + (j + 1) by omega]
        have hwrote := @writeChip_spec n c b id (vals id)
        obtain ⟨b', hfold, hglobal, hset, hkept⟩ := ih hrest hlater (b.writeChip c id (vals id))
        refine ⟨b', ?_, hglobal.trans hwrote.g_fe, ?_, ?_⟩
        · rw [if_pos hactive, hfirst]
          rw [List.length_cons, show k + ((ids.filter c.active).length + 1) =
            k + 1 + (ids.filter c.active).length by omega]
          exact hfold
        · intro id' hid' hactive'
          rcases List.mem_cons.mp hid' with rfl | hmem
          · obtain ⟨hcfg, hchip⟩ := hkept id' hnot
            intro i
            rw [hcfg, hchip]
            exact hwrote.set i (List.mem_finRange i)
          · exact hset id' hmem hactive'
        · intro id' hid'
          rw [List.mem_cons, not_or] at hid'
          obtain ⟨hne, hmem⟩ := hid'
          obtain ⟨hcfg, hchip⟩ := hkept id' hmem
          obtain ⟨hcfg', hchip'⟩ := hwrote.others id' hne
          exact ⟨hcfg.trans hcfg', hchip.trans hchip'⟩
      · rw [List.filter_cons_of_neg hactive] at hvalues ⊢
        obtain ⟨b', hfold, hglobal, hset, hkept⟩ := ih hrest hvalues b
        refine ⟨b', ?_, hglobal, ?_, ?_⟩
        · rw [if_neg hactive]
          exact hfold
        · intro id' hid' hactive'
          rcases List.mem_cons.mp hid' with rfl | hmem
          · exact absurd hactive' hactive
          · exact hset id' hmem hactive'
        · exact fun id' hid' => hkept id' fun hmem => hid' (List.mem_cons_of_mem id hmem)

theorem writeChips_spec {vals : Fin n → Fin 4 → UInt16} {values : Nat → Option (Fin 4 → UInt16)}
    (hvalues : ∀ j v, (((List.finRange n).filter c.active).map vals)[j]? = some v →
      values j = some v) (b : Bench n) :
    ∃ b', b.writeChips c values = some b' ∧ b'.g_fe = b.g_fe ∧
      ∀ id, c.active id = true → b'.HasCores id (vals id) := by
  obtain ⟨b', hfold, hglobal, hset, -⟩ := @writeChips_foldlM n c vals values _
    (List.nodup_finRange n) 0 (fun j v hv => (Nat.zero_add j).symm ▸ hvalues j v hv) b
  refine ⟨b', ?_, hglobal, fun id => hset id (List.mem_finRange id)⟩
  rw [writeChips, hfold]
  rfl

/-- The global front-end has the values, and every chip what the front-end has. -/
def HasCal (b : Bench n) (values : Fin 4 → UInt16) : Prop :=
  ∀ i : Fin 4,
    ((EnCoreColCal i.val).read b.g_fe).toNat =
        (values i).toNat % 2 ^ (EnCoreColCal i.val).m_bits ∧
      ∀ id, (EnCoreColCal i.val).read (b.chip id) = (EnCoreColCal i.val).read b.g_fe

theorem hasCal_writeGlobals {b : Bench n} (hall : AllListen c b) (values : Fin 4 → UInt16) :
    (b.writeGlobals c EnCoreColCal values).HasCal values := fun i =>
  (writeGlobals_spec fourWords_EnCoreColCal values hall).set i (List.mem_finRange i)

attribute [irreducible] writeGlobals

theorem AllListen.writeGlobals {regs : Nat → RegDefault numRegs} (hregs : FourWords regs)
    (values : Fin 4 → UInt16) {b : Bench n} (hall : AllListen c b) :
    AllListen c (b.writeGlobals c regs values) := fun id => by
  rw [(writeGlobals_spec hregs values hall).cmdEnable]
  exact hall id

theorem HasCal.writeGlobals {regs : Nat → RegDefault numRegs} (hregs : FourWords regs)
    (hother : OtherWords EnCoreColCal regs) (values : Fin 4 → UInt16) {cal : Fin 4 → UInt16}
    {b : Bench n} (hall : AllListen c b) (h : b.HasCal cal) :
    (b.writeGlobals c regs values).HasCal cal := by
  have hwrote := writeGlobals_spec hregs values hall
  intro i
  have hkept := hwrote.kept (EnCoreColCal i.val) fun j _ => hother i.val i.isLt j.val j.isLt
  rw [hkept.1]
  exact ⟨(h i).1, fun id => (hkept.2 id).trans ((h i).2 id)⟩

theorem HasCores.writeGlobals {regs : Nat → RegDefault numRegs} (hregs : FourWords regs)
    (hother : OtherWords EnCoreCol regs) (values : Fin 4 → UInt16) {cores : Fin 4 → UInt16}
    {b : Bench n} {id : Fin n} (hall : AllListen c b) (h : b.HasCores id cores) :
    (b.writeGlobals c regs values).HasCores id cores := by
  have hwrote := writeGlobals_spec hregs values hall
  intro i
  have hkept := hwrote.kept (EnCoreCol i.val) fun j _ => hother i.val i.isLt j.val j.isLt
  rw [hwrote.m_cfg, hkept.2 id]
  exact h i

end Bench

namespace Itkpixv2CoreColLoop

open Bench

variable {n : Nat} (l : Itkpixv2CoreColLoop) {c : Chips n}

/-! ## One step -/

/-- The loop over core columns sets the bits of those that belong to the step. -/
theorem getLsbD_coreCols_foldl (m_cur : Nat) {is : List Nat} (his : ∀ i ∈ is, i < 64)
    (regs : Fin 4 → UInt16) (iReg : Fin 4) {k : Nat} (hk : k < 16) :
    (is.foldl (fun m_coreCols i =>
      if i % l.range.nSteps = m_cur then
        Function.update m_coreCols (Fin.ofNat 4 (i / 16))
          (m_coreCols (Fin.ofNat 4 (i / 16)) ||| (0x1 <<< UInt16.ofNat (i % 16)))
      else m_coreCols) regs iReg).toBitVec.getLsbD k =
      ((regs iReg).toBitVec.getLsbD k ||
        decide (16 * iReg.val + k ∈ is ∧ (16 * iReg.val + k) % l.range.nSteps = m_cur)) := by
  induction is generalizing regs with
  | nil => simp
  | cons i is ih =>
      obtain ⟨hi, hrest⟩ := List.forall_mem_cons.mp his
      rw [List.foldl_cons, ih hrest]
      have hmem : 16 * iReg.val + k ∈ i :: is ↔
          (iReg.val = i / 16 ∧ k = i % 16) ∨ 16 * iReg.val + k ∈ is := by
        rw [List.mem_cons]
        apply or_congr_left
        omega
      by_cases hstep : i % l.range.nSteps = m_cur
      · rw [if_pos hstep, Function.update_apply]
        have hreg : iReg = Fin.ofNat 4 (i / 16) ↔ iReg.val = i / 16 := by
          rw [Fin.ext_iff]
          show iReg.val = i / 16 % 4 ↔ _
          omega
        by_cases hsame : iReg = Fin.ofNat 4 (i / 16)
        · rw [if_pos hsame, ← hsame, UInt16.toBitVec_or, BitVec.getLsbD_or,
            ChipCfg.one_shiftLeft (i % 16) (Nat.mod_lt _ (by decide)) k hk, Bool.or_assoc]
          congr 1
          have hnumber := hreg.mp hsame
          by_cases hbit : k = i % 16
          · have hcc : 16 * iReg.val + k = i := by omega
            have hmod : (16 * iReg.val + k) % l.range.nSteps = m_cur := hcc.symm ▸ hstep
            rw [decide_eq_true hbit,
              decide_eq_true (And.intro (hmem.mpr (Or.inl ⟨hnumber, hbit⟩)) hmod), Bool.true_or]
          · simp [hmem, hbit]
        · have hother : ¬iReg.val = i / 16 := fun h => hsame (hreg.mpr h)
          rw [if_neg hsame]
          simp [hmem, hother]
      · rw [if_neg hstep]
        congr 1
        apply decide_eq_decide.mpr
        rw [hmem]
        constructor
        · rintro ⟨h, hmod⟩
          exact ⟨Or.inr h, hmod⟩
        · rintro ⟨⟨hreg, hbit⟩ | h, hmod⟩
          · have hcc : 16 * iReg.val + k = i := by omega
            rw [hcc] at hmod
            exact absurd hmod hstep
          · exact ⟨h, hmod⟩

theorem getLsbD_coreCols (m_cur : Nat) (iReg : Fin 4) {k : Nat} (hk : k < 16) :
    (l.coreCols m_cur iReg).toBitVec.getLsbD k = decide (l.OfStep m_cur (16 * iReg.val + k)) := by
  have hinside := l.range.inside
  have hordered := l.range.ordered
  have hlt : ∀ i ∈ List.range' l.range.minCore (l.range.maxCore - l.range.minCore), i < 64 := by
    intro i hi
    rw [List.mem_range'_1] at hi
    omega
  have hzero : (0 : UInt16).toBitVec.getLsbD k = false := BitVec.getLsbD_zero
  rw [coreCols, l.getLsbD_coreCols_foldl m_cur hlt _ iReg hk, hzero, Bool.false_or]
  apply decide_eq_decide.mpr
  unfold OfStep CoreRange.Has
  rw [List.mem_range'_1]
  have hmax : l.range.minCore + (l.range.maxCore - l.range.minCore) = l.range.maxCore := by omega
  rw [hmax]

/-- The registers that a step has written. -/
structure Shows (initial : Fin n → Fin 4 → UInt16) (m_coreCols : Fin 4 → UInt16) (c : Chips n)
    (b : Bench n) : Prop where
  cal : b.HasCal m_coreCols
  cores : l.m_disUnused = true ∧ (l.m_ignoreDis = true ∨ l.m_skipDis = true) →
    ∀ id, c.active id = true → b.HasCores id fun iReg => initial id iReg &&& m_coreCols iReg

theorem setEnabled_some {initial : Fin n → Fin 4 → UInt16} {s : State n}
    (hsaved : s.m_initCoreColsAllChips = ((List.finRange n).filter c.active).map initial) :
    ∃ b, l.setEnabled c s = some b ∧
      (l.m_disUnused = true ∧ (l.m_ignoreDis = true ∨ l.m_skipDis = true) →
        ∀ id, c.active id = true →
          b.HasCores id fun iReg => initial id iReg &&& s.m_coreCols iReg) := by
  unfold setEnabled
  by_cases hown : l.m_disUnused = true ∧ (l.m_ignoreDis = true ∨ l.m_skipDis = true)
  · rw [if_pos hown]
    have hvalues : ∀ (j : Nat) (v : Fin 4 → UInt16), (((List.finRange n).filter c.active).map
        fun id iReg => initial id iReg &&& s.m_coreCols iReg)[j]? = some v →
        (s.m_initCoreColsAllChips[j]?.map fun (saved : Fin 4 → UInt16) iReg =>
          saved iReg &&& s.m_coreCols iReg) = some v := by
      intro j v hv
      rw [hsaved, ← List.getElem?_map, List.map_map]
      exact hv
    obtain ⟨b, hb, -, hcores⟩ := writeChips_spec hvalues _
    exact ⟨b, hb, fun _ => hcores⟩
  · rw [if_neg hown]
    exact ⟨_, rfl, fun h => absurd h hown⟩

theorem Shows.writeGlobals {regs : Nat → RegDefault numRegs} (hregs : FourWords regs)
    (hcal : OtherWords EnCoreColCal regs) (hcores : OtherWords EnCoreCol regs)
    (values : Fin 4 → UInt16) {initial : Fin n → Fin 4 → UInt16} {m_coreCols : Fin 4 → UInt16}
    {b : Bench n} (hall : AllListen c b) (h : l.Shows initial m_coreCols c b) :
    l.Shows initial m_coreCols c (b.writeGlobals c regs values) :=
  ⟨h.cal.writeGlobals hregs hcal values hall,
    fun hown id hactive => (h.cores hown id hactive).writeGlobals hregs hcores values hall⟩

theorem shows_setInjection {initial : Fin n → Fin 4 → UInt16} {m_coreCols : Fin 4 → UInt16}
    {b : Bench n} (hcores : l.m_disUnused = true ∧ (l.m_ignoreDis = true ∨ l.m_skipDis = true) →
      ∀ id, c.active id = true → b.HasCores id fun iReg => initial id iReg &&& m_coreCols iReg) :
    l.Shows initial m_coreCols c (l.setInjection c m_coreCols b) := by
  have hall := allListen_getTxMask c b
  have hcal : l.Shows initial m_coreCols c
      (({ b with cmdEnable := c.getTxMask } : Bench n).writeGlobals c EnCoreColCal m_coreCols) :=
    ⟨hasCal_writeGlobals hall m_coreCols, fun hown id hactive =>
      HasCores.writeGlobals fourWords_EnCoreColCal (by decide) m_coreCols hall
        (hcores hown id hactive)⟩
  have hallCal := hall.writeGlobals fourWords_EnCoreColCal m_coreCols
  have hhitOr := Shows.writeGlobals l fourWords_HitOrMask (by decide) (by decide)
    (fun iReg => ~~~m_coreCols iReg) hallCal hcal
  unfold setInjection
  by_cases hptot : l.m_usePToT = true
  · rw [if_pos hptot]
    exact Shows.writeGlobals l fourWords_PtotCoreColEn (by decide) (by decide) m_coreCols
      (hallCal.writeGlobals fourWords_HitOrMask _) hhitOr
  · rw [if_neg hptot]
    exact hhitOr

theorem execPart1_some {initial : Fin n → Fin 4 → UInt16} {s : State n}
    (hsaved : s.m_initCoreColsAllChips = ((List.finRange n).filter c.active).map initial) :
    ∃ b, l.execPart1 c s = some { s with bench := b, m_coreCols := l.coreCols s.m_cur } ∧
      l.Shows initial (l.coreCols s.m_cur) c b := by
  obtain ⟨b, hb, hcores⟩ :=
    @setEnabled_some n l c initial { s with m_coreCols := l.coreCols s.m_cur } hsaved
  refine ⟨_, ?_, l.shows_setInjection hcores⟩
  unfold execPart1 setCores
  rw [hb]
  rfl

/-! ## The run -/

/-- Each of the remaining steps shows its own core columns. -/
theorem execSteps_some {initial : Fin n → Fin 4 → UInt16} (fuel : Nat) {s : State n}
    (hfuel : s.m_cur + fuel = l.range.nSteps) (hdone : s.m_done = decide (fuel = 0))
    (hsaved : s.m_initCoreColsAllChips = ((List.finRange n).filter c.active).map initial) :
    ∃ steps last, l.execSteps c fuel s = some (steps, last) ∧ steps.length = fuel ∧
      last.m_initCoreColsAllChips = s.m_initCoreColsAllChips ∧
      ∀ i (hi : i < steps.length), l.Shows initial (l.coreCols (s.m_cur + i)) c steps[i] := by
  induction fuel generalizing s with
  | zero =>
      have hend : s.m_done = true := hdone
      refine ⟨[], s, ?_, rfl, rfl, fun i hi => absurd hi (Nat.not_lt_zero i)⟩
      rw [execSteps, if_pos hend]
  | succ fuel ih =>
      obtain ⟨b, hpart, hshows⟩ := l.execPart1_some hsaved
      have hend : (l.execPart2 { s with bench := b, m_coreCols := l.coreCols s.m_cur }).m_done =
          decide (fuel = 0) := by
        have hmore : s.m_cur + 1 < l.range.nSteps ↔ fuel ≠ 0 := by omega
        show (if s.m_cur + 1 < l.range.nSteps then s.m_done else true) = _
        by_cases hzero : fuel = 0
        · rw [if_neg (fun hlt => hmore.mp hlt hzero), decide_eq_true hzero]
        · rw [if_pos (hmore.mpr hzero), hdone, decide_eq_false hzero]
          exact decide_eq_false (Nat.succ_ne_zero fuel)
      obtain ⟨steps, last, hrest, hlength, hlast, hsteps⟩ :=
        @ih (l.execPart2 { s with bench := b, m_coreCols := l.coreCols s.m_cur }) (by
          show s.m_cur + 1 + fuel = _
          omega) hend hsaved
      refine ⟨b :: steps, last, ?_, by rw [List.length_cons, hlength], hlast, ?_⟩
      · have hnot : ¬s.m_done = true := by
          rw [hdone]
          simp
        rw [execSteps, if_neg hnot, hpart]
        show (l.execSteps c fuel (l.execPart2 _) >>= _) = _
        rw [hrest]
        rfl
      · intro i hi
        cases i with
        | zero => exact hshows
        | succ i =>
            have hlater := hsteps i (Nat.lt_of_succ_lt_succ hi)
            have hsum : s.m_cur + (i + 1) = s.m_cur + 1 + i := by omega
            rw [hsum]
            exact hlater

theorem finish_some {initial : Fin n → Fin 4 → UInt16} {s : State n}
    (hsaved : s.m_initCoreColsAllChips = ((List.finRange n).filter c.active).map initial) :
    ∃ b, l.finish c s = some b ∧ (¬(l.m_disUnused = true ∧ l.m_ignoreDis = true) →
      ∀ id, c.active id = true → b.HasCores id (initial id)) := by
  unfold finish
  by_cases hall : l.m_disUnused = true ∧ l.m_ignoreDis = true
  · simp only [if_pos hall]
    obtain ⟨b, hb, -, -⟩ := @writeChips_spec n c (fun _ => allOn) (fun _ => some allOn) (by
      intro j v hv
      rw [List.getElem?_map] at hv
      obtain ⟨-, -, rfl⟩ := Option.map_eq_some_iff.mp hv
      rfl) s.bench
    rw [hb]
    exact ⟨_, rfl, fun hnot => absurd hall hnot⟩
  · simp only [if_neg hall]
    obtain ⟨b, hb, -, hcores⟩ := @writeChips_spec n c initial
      (fun iChannel => s.m_initCoreColsAllChips[iChannel]?) (by
        intro j v hv
        rw [hsaved]
        exact hv) s.bench
    rw [hb]
    exact ⟨_, rfl, fun _ => hcores⟩

/-- The registers of a chip before the loop. -/
def initialCores (b : Bench n) (id : Fin n) (iReg : Fin 4) : UInt16 :=
  (EnCoreCol iReg.val).read (b.m_cfg id)

theorem init_eq (c : Chips n) (b : Bench n) :
    init c b = if ∀ id, c.active id = true then
      some ⟨b, 0, false, fun _ => 0, ((List.finRange n).filter c.active).map (initialCores b)⟩
    else none := by
  have hlength : (savedRegisters c b).length = ((List.finRange n).filter c.active).length :=
    List.length_map _
  have hmask : c.getTxMask.length = n := by
    rw [Chips.getTxMask, List.length_map, List.length_finRange]
  have hiff : (List.range c.getTxMask.length).all
      (fun iChannel => (savedRegisters c b)[iChannel]?.isSome) = true ↔
      ∀ id, c.active id = true := by
    rw [List.all_eq_true, hmask]
    constructor
    · intro hread id
      have hlast : n ≤ (savedRegisters c b).length := by
        by_contra hlt
        have hout := hread (savedRegisters c b).length (List.mem_range.mpr (Nat.not_le.mp hlt))
        rw [List.getElem?_eq_none (Nat.le_refl _)] at hout
        cases hout
      have hwhole : ((List.finRange n).filter c.active).length = (List.finRange n).length := by
        apply Nat.le_antisymm (List.length_filter_le _ _)
        rw [List.length_finRange, ← hlength]
        exact hlast
      exact List.length_filter_eq_length_iff.mp hwhole id (List.mem_finRange id)
    · intro hall i hi
      have hwhole : ((List.finRange n).filter c.active).length = n := by
        rw [List.length_filter_eq_length_iff.mpr fun id _ => hall id, List.length_finRange]
      rw [List.getElem?_eq_getElem (by
        rw [hlength, hwhole]
        exact List.mem_range.mp hi)]
      rfl
  unfold init
  dsimp only
  by_cases hall : ∀ id, c.active id = true
  · rw [if_pos hall, if_pos (hiff.mpr hall)]
    rfl
  · rw [if_neg hall, if_neg fun h => hall (hiff.mp h)]

theorem run_none {b : Bench n} (h : ¬∀ id, c.active id = true) : l.run c b = none := by
  unfold run
  rw [init_eq, if_neg h]
  rfl

theorem run_some (b : Bench n) (h : ∀ id, c.active id = true) :
    ∃ steps last, l.run c b = some (steps, last) ∧ steps.length = l.range.nSteps ∧
      (∀ i (hi : i < steps.length), l.Shows (initialCores b) (l.coreCols i) c steps[i]) ∧
      (¬(l.m_disUnused = true ∧ l.m_ignoreDis = true) →
        ∀ id, last.HasCores id (initialCores b id)) := by
  have hdone : false = decide (l.range.nSteps = 0) :=
    (decide_eq_false (Nat.ne_of_gt l.range.pos)).symm
  obtain ⟨steps, s, hsteps, hlength, hsaved, hshows⟩ := @execSteps_some n l c (initialCores b)
    l.range.nSteps ⟨b, 0, false, fun _ => 0, _⟩ (Nat.zero_add _) hdone rfl
  obtain ⟨last, hlast, hcores⟩ := l.finish_some hsaved
  refine ⟨steps, last, ?_, hlength, fun i hi => ?_, fun hnot id => hcores hnot id (h id)⟩
  · unfold run
    rw [init_eq, if_pos h]
    show (l.execSteps c l.range.nSteps _ >>= _) = _
    rw [hsteps]
    show (l.finish c s >>= _) = _
    rw [hlast]
    rfl
  · have hstep := hshows i hi
    rw [Nat.zero_add i] at hstep
    exact hstep

/-! ## What the steps show -/

theorem getLsbD_of_toNat_eq {x y : UInt16} {bits : Nat} (h : x.toNat = y.toNat % 2 ^ bits)
    (k : Nat) : x.toBitVec.getLsbD k = (decide (k < bits) && y.toBitVec.getLsbD k) := by
  show x.toNat.testBit k = (_ && y.toNat.testBit k)
  rw [h, Nat.testBit_mod_two_pow]

theorem bits_le {cc : Nat} (hcc : cc < n_CoreCol) : cc % 16 < (EnCoreColCal (cc / 16)).m_bits := by
  have hall : ∀ cc < 50, cc % 16 < (EnCoreColCal (cc / 16)).m_bits := by decide
  exact hall cc hcc

theorem colBit_cal {b : Bench n} {m_cur : Nat} (h : b.HasCal (l.coreCols m_cur)) {cc : Nat}
    (hcc : cc < n_CoreCol) :
    colBit EnCoreColCal b.g_fe cc = decide (l.OfStep m_cur cc) ∧
      ∀ id, colBit EnCoreColCal (b.chip id) cc = decide (l.OfStep m_cur cc) := by
  have hlt : cc / 16 < 4 := by
    have hcc' : cc < 50 := hcc
    omega
  obtain ⟨hglobal, hchips⟩ := h ⟨cc / 16, hlt⟩
  have hbit := getLsbD_of_toNat_eq hglobal (cc % 16)
  rw [decide_eq_true (bits_le hcc), Bool.true_and,
    l.getLsbD_coreCols m_cur ⟨cc / 16, hlt⟩ (Nat.mod_lt _ (by decide))] at hbit
  have hnumber : 16 * (cc / 16) + cc % 16 = cc := by omega
  simp only [hnumber] at hbit
  refine ⟨hbit, fun id => ?_⟩
  have hchip := hchips id
  unfold colBit
  rw [hchip]
  exact hbit

theorem injectsOnce_iff (b : Bench n) : l.InjectsOnce c b ↔ ∀ id, c.active id = true := by
  constructor
  · rintro ⟨steps, last, hrun, -, -⟩
    by_contra hnot
    rw [l.run_none hnot] at hrun
    cases hrun
  · intro hall
    obtain ⟨steps, last, hrun, hlength, hshows, -⟩ := l.run_some b hall
    refine ⟨steps, last, hrun, ?_, fun id => ?_⟩
    · apply l.range.onceEach_of_mod (by rw [List.length_map, hlength]) (fun cc => cc)
      intro i hi cc hcc
      rw [List.length_map] at hi
      rw [List.getElem_map]
      exact (l.colBit_cal (hshows i hi).cal hcc).1
    · apply l.range.onceEach_of_mod (by rw [List.length_map, hlength]) (fun cc => cc)
      intro i hi cc hcc
      rw [List.length_map] at hi
      rw [List.getElem_map]
      exact (l.colBit_cal (hshows i hi).cal hcc).2 id

theorem read_of_initial {b : Bench n} {id : Fin n} {iReg : Fin 4} {x y : UInt16}
    (h : x.toNat = (initialCores b id iReg &&& y).toNat % 2 ^ (EnCoreCol iReg.val).m_bits) :
    x = initialCores b id iReg &&& y := by
  apply UInt16.toNat_inj.mp
  rw [h, UInt16.toNat_and]
  have hlt : (initialCores b id iReg).toNat < 2 ^ (EnCoreCol iReg.val).m_bits :=
    ChipCfg.toNat_read_lt (EnCoreCol iReg.val) (b.m_cfg id)
  exact Nat.mod_eq_of_lt (Nat.lt_of_le_of_lt Nat.and_le_left hlt)

theorem colBit_cores {b step : Bench n} {id : Fin n} {m_cur : Nat}
    (h : step.HasCores id fun iReg => initialCores b id iReg &&& l.coreCols m_cur iReg) {cc : Nat}
    (hcc : cc < 64) :
    colBit EnCoreCol (step.m_cfg id) cc =
        (colBit EnCoreCol (b.m_cfg id) cc && decide (l.OfStep m_cur cc)) ∧
      colBit EnCoreCol (step.chip id) cc =
        (colBit EnCoreCol (b.m_cfg id) cc && decide (l.OfStep m_cur cc)) := by
  have hlt : cc / 16 < 4 := by omega
  obtain ⟨hcfg, hchip⟩ := h ⟨cc / 16, hlt⟩
  have hread := read_of_initial hcfg
  have hbit := congrArg (fun x : UInt16 => x.toBitVec.getLsbD (cc % 16)) hread
  simp only [UInt16.toBitVec_and, BitVec.getLsbD_and] at hbit
  rw [l.getLsbD_coreCols m_cur ⟨cc / 16, hlt⟩ (Nat.mod_lt _ (by decide))] at hbit
  have hnumber : 16 * (cc / 16) + cc % 16 = cc := by omega
  simp only [hnumber] at hbit
  refine ⟨hbit, ?_⟩
  unfold colBit
  rw [hchip]
  exact hbit

theorem runRestricts_iff (hdis : l.m_disUnused = true) (hskip : l.m_skipDis = true)
    (hignore : l.m_ignoreDis = false) (b : Bench n) :
    l.RunRestricts c b ↔ ∀ id, c.active id = true := by
  constructor
  · rintro ⟨steps, last, hrun, -⟩
    by_contra hnot
    rw [l.run_none hnot] at hrun
    cases hrun
  · intro hall
    obtain ⟨steps, last, hrun, hlength, hshows, hlast⟩ := l.run_some b hall
    refine ⟨steps, last, hrun, hlength, ?_, ?_⟩
    · intro id hactive i hi cc hcc
      exact l.colBit_cores ((hshows i hi).cores ⟨hdis, Or.inr hskip⟩ id hactive) hcc
    · intro id _ i hi
      have hnot : ¬(l.m_disUnused = true ∧ l.m_ignoreDis = true) := by
        rw [hignore]
        exact fun h => Bool.false_ne_true h.2
      obtain ⟨hcfg, hchip⟩ := hlast hnot id ⟨i, hi⟩
      have hread : (EnCoreCol i).read (last.m_cfg id) = (EnCoreCol i).read (b.m_cfg id) := by
        apply UInt16.toNat_inj.mp
        rw [hcfg]
        exact Nat.mod_eq_of_lt (ChipCfg.toNat_read_lt (EnCoreCol i) (b.m_cfg id))
      exact ⟨hread, hchip.trans hread⟩

/-! ## Both loops -/

/-- The loops over core columns keep to the steps exactly if no chip of ITKPIXV2 is inactive, and
the delays of RD53A are long enough. -/
theorem coreColLoops_iff (n : Nat) :
    (∀ (l : Itkpixv2CoreColLoop) (c : Chips n) (b : Bench n),
      l.InjectsOnce c b ↔ ∀ id, c.active id = true) ∧
    (∀ (l : Itkpixv2CoreColLoop) (c : Chips n) (b : Bench n),
      l.m_disUnused = true → l.m_skipDis = true → l.m_ignoreDis = false →
        (l.RunRestricts c b ↔ ∀ id, c.active id = true)) ∧
    ∀ (l : Rd53aCoreColLoop) (fe : Rd53a), l.InjectsOnce fe ↔ l.DelaysFit :=
  ⟨fun l _ b => l.injectsOnce_iff b,
    fun l _ b hdis hskip hignore => l.runRestricts_iff hdis hskip hignore b,
    fun l fe => l.injectsOnce_iff fe⟩

/-- All core columns, in 25 steps. -/
def skipLoop : Itkpixv2CoreColLoop :=
  ⟨⟨0, 50, 25, by decide, by decide, by decide⟩, false, true, false, true⟩

/-- Two chips on their own channels. -/
def twoChips (active : Fin 2 → Bool) : Chips 2 :=
  ⟨active, fun id => UInt32.ofNat id.val, fun _ => 0, by decide⟩

def defaultBench : Bench 2 := ⟨globalCfg.init, fun _ => globalCfg.init, fun _ => globalCfg.init, []⟩

theorem two_active_restricted : skipLoop.RunRestricts (twoChips fun _ => true) defaultBench :=
  ((coreColLoops_iff 2).2.1 skipLoop (twoChips fun _ => true) defaultBench rfl rfl rfl).mpr
    fun _ => rfl

/-- With the second chip inactive, the record is read beyond its end. -/
theorem inactive_read_beyond :
    ¬skipLoop.RunRestricts (twoChips fun id => id = 0) defaultBench := by
  rintro ⟨steps, last, hrun, -⟩
  rw [skipLoop.run_none fun hall => Bool.noConfusion (hall 1)] at hrun
  cases hrun

end Itkpixv2CoreColLoop

end Yarr.Rd53
