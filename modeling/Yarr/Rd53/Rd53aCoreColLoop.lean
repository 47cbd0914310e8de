import Yarr.Core.Periods
import Yarr.Rd53.CoreColumns
import Yarr.Rd53.Rd53a

/-!
# The core column loop of RD53A

A step switches off the calibration injection of the core columns of the step
before and switches on its own ones, four double columns for each. The double
columns are spread over fourteen registers.
-/

namespace Yarr.Rd53

/-! ## Steps over core columns -/

/-- Which core columns a loop goes over, and in how many steps. -/
structure CoreRange where
  minCore : Nat
  maxCore : Nat
  nSteps : Nat
  ordered : minCore ≤ maxCore
  inside : maxCore ≤ 50
  pos : 0 < nSteps

namespace CoreRange

variable (r : CoreRange)

/-- The core column is one of the range. -/
def Has (cc : Nat) : Prop := r.minCore ≤ cc ∧ cc < r.maxCore

instance (cc : Nat) : Decidable (r.Has cc) := inferInstanceAs (Decidable (_ ∧ _))

/-- Each core column of the range is on in one of the steps, and no other one in any of them. -/
def OnceEach (steps : List (Nat → Bool)) : Prop :=
  ∀ cc < n_CoreCol, steps.countP (fun on => on cc) = if r.Has cc then 1 else 0

/-- Steps that go by the remainder of the number of the core column. -/
theorem onceEach_of_mod {steps : List (Nat → Bool)} (hlength : steps.length = r.nSteps)
    (number : Nat → Nat)
    (hon : ∀ m_cur (h : m_cur < steps.length) cc, cc < n_CoreCol →
      steps[m_cur] cc = decide (r.Has cc ∧ number cc % r.nSteps = m_cur)) : r.OnceEach steps := by
  intro cc hcc
  have hsteps : steps.map (fun on => on cc) =
      (List.range r.nSteps).map fun m_cur => decide (r.Has cc ∧ number cc % r.nSteps = m_cur) := by
    apply List.ext_getElem
    · rw [List.length_map, List.length_map, List.length_range, hlength]
    · intro m_cur h h'
      rw [List.length_map] at h
      rw [List.getElem_map, List.getElem_map, List.getElem_range]
      exact hon m_cur h cc hcc
  have hcount : steps.countP (fun on => on cc) = (List.range r.nSteps).countP
      (fun m_cur => decide (r.Has cc ∧ number cc % r.nSteps = m_cur)) := by
    have hmap := congrArg (List.countP id) hsteps
    rw [List.countP_map, List.countP_map] at hmap
    exact hmap
  rw [hcount]
  by_cases hhas : r.Has cc
  · have hone := Stride.filter_range_eq (Nat.mod_lt (number cc) r.pos)
    have hfun : (fun m_cur => decide (r.Has cc ∧ number cc % r.nSteps = m_cur)) =
        fun m_cur => decide (m_cur = number cc % r.nSteps) := by
      funext m_cur
      simp [hhas, eq_comm]
    rw [if_pos hhas, hfun, List.countP_eq_length_filter, hone]
    rfl
  · rw [if_neg hhas, List.countP_eq_zero]
    intro m_cur _
    simp [hhas]

end CoreRange

/-! ## Registers of the calibration injection -/

namespace Rd53aGlobalCfg

/-- The register and the bit of a double column. `none`: it is out of range. -/
def calCol (col : Nat) : Option (RegDefault numRegs × Nat) :=
  if col < 16 then some (CalColprSync1, col)
  else if col < 32 then some (CalColprSync2, col - 16)
  else if col < 48 then some (CalColprSync3, col - 32)
  else if col < 64 then some (CalColprSync4, col - 48)
  else if col < 80 then some (CalColprLin1, col - 64)
  else if col < 96 then some (CalColprLin2, col - 80)
  else if col < 112 then some (CalColprLin3, col - 96)
  else if col < 128 then some (CalColprLin4, col - 112)
  else if col < 132 then some (CalColprLin5, col - 128)
  else if col < 148 then some (CalColprDiff1, col - 132)
  else if col < 164 then some (CalColprDiff2, col - 148)
  else if col < 180 then some (CalColprDiff3, col - 164)
  else if col < 196 then some (CalColprDiff4, col - 180)
  else if col < 200 then some (CalColprDiff5, col - 196)
  else none

/-- The calibration injection of a double column is on. -/
def calColOn (cfg : Words numRegs) (col : Nat) : Bool :=
  match calCol col with
  | some (reg, bit) => (reg.read cfg).toBitVec.getLsbD bit
  | none => false

/-- The first double column of a word. -/
def firstCol (k : Fin numRegs) : Nat :=
  if k.val < 55 then (k.val - 46) * 16 else 132 + (k.val - 55) * 16

def bitsOf (k : Fin numRegs) : Nat := if k = 54 ∨ k = 59 then 4 else 16

/-- What the table says about a double column. -/
structure CalColAt (col : Nat) (reg : RegDefault numRegs) (bit : Nat) : Prop where
  found : calCol col = some (reg, bit)
  m_addr : reg.m_addr = reg.m_cfg
  m_bOffset : reg.m_bOffset = 0
  m_bits : reg.m_bits = bitsOf reg.m_cfg
  other : reg.m_cfg ≠ InjDelay.m_cfg
  bit_lt : bit < reg.m_bits
  number : firstCol reg.m_cfg + bit = col

theorem exists_calColAt {col : Nat} (h : col < 200) : ∃ reg bit, CalColAt col reg bit := by
  have hall : ∀ col < 200, ∃ p ∈ calCol col,
      p.1.m_addr = p.1.m_cfg ∧ p.1.m_bOffset = 0 ∧ p.1.m_bits = bitsOf p.1.m_cfg ∧
        p.1.m_cfg ≠ InjDelay.m_cfg ∧ p.2 < p.1.m_bits ∧ firstCol p.1.m_cfg + p.2 = col := by
    decide +kernel
  obtain ⟨p, hp, haddr, hoffset, hbits, hother, hlt, hnumber⟩ := hall col h
  exact ⟨p.1, p.2, hp, haddr, hoffset, hbits, hother, hlt, hnumber⟩

theorem CalColAt.reg_eq {col col' bit bit' : Nat} {reg reg' : RegDefault numRegs}
    (h : CalColAt col reg bit) (h' : CalColAt col' reg' bit') (hword : reg.m_cfg = reg'.m_cfg) :
    reg = reg' := by
  have haddr : reg.m_addr = reg'.m_addr := by rw [h.m_addr, h'.m_addr, hword]
  have hoffset : reg.m_bOffset = reg'.m_bOffset := by rw [h.m_bOffset, h'.m_bOffset]
  have hbits : reg.m_bits = reg'.m_bits := by rw [h.m_bits, h'.m_bits, hword]
  cases reg
  cases reg'
  simp_all

end Rd53aGlobalCfg

theorem RegDefault.getLsbD_read_write {numRegs : Nat} (r : RegDefault numRegs)
    (cfg : Words numRegs) (value : UInt16) {k : Nat} (hk : k < r.m_bits) :
    (r.read (r.write cfg value)).toBitVec.getLsbD k = value.toBitVec.getLsbD k := by
  have hread := r.read_write cfg value
  show (r.read (r.write cfg value)).toNat.testBit k = value.toNat.testBit k
  rw [hread, Nat.testBit_mod_two_pow, decide_eq_true hk, Bool.true_and]

/-! ## The driver and its chips -/

namespace WrRegister

open Rd53aGlobalCfg

/-- A chip takes the word into the register at the address. -/
def apply (chip : Words numRegs) (cmd : WrRegister) : Words numRegs :=
  if h : cmd.address.toNat < numRegs then chip.set cmd.address.toNat cmd.value h else chip

end WrRegister

namespace Rd53a

open Rd53aGlobalCfg

/-- The words of a chip that listens to the driver and started with `chip`. -/
def chipAfter (fe : Rd53a) (chip : Words numRegs) : Words numRegs :=
  fe.sent.foldl WrRegister.apply chip

/-- `enableCalCol` and `disableCalCol`, which differ in the value that they write. -/
def writeCalCol (enable : Bool) (fe : Rd53a) (col : Nat) : Rd53a :=
  match calCol col with
  | some (reg, bit) =>
      let value := reg.read fe.m_cfg
      let mask : UInt16 := 0x1 <<< UInt16.ofNat bit
      fe.writeRegister reg (if enable then value ||| mask else value &&& ~~~mask)
  | none => fe

def enableCalCol : Rd53a → Nat → Rd53a := writeCalCol true

def disableCalCol : Rd53a → Nat → Rd53a := writeCalCol false

/-- A call for each double column of a core column. -/
def forQuad (call : Rd53a → Nat → Rd53a) (fe : Rd53a) (dc : Nat) : Rd53a :=
  call (call (call (call fe dc) (dc + 1)) (dc + 2)) (dc + 3)

/-- The chip has the word of the driver. -/
def Agrees (fe : Rd53a) (chip : Words numRegs) (k : Fin numRegs) : Prop :=
  getElem (fe.chipAfter chip) k k.isLt = getElem fe.m_cfg k k.isLt

theorem chipAfter_writeRegister (fe : Rd53a) (ref : RegDefault numRegs) (value : UInt16)
    (chip : Words numRegs) :
    (fe.writeRegister ref value).chipAfter chip =
      (fe.chipAfter chip).set ref.m_addr
        (getElem (ref.write fe.m_cfg value) ref.m_addr ref.m_addr.isLt) ref.m_addr.isLt := by
  have haddr : (UInt32.ofNat ref.m_addr).toNat = ref.m_addr := by
    have hlt : ref.m_addr.val < 138 := ref.m_addr.isLt
    show ref.m_addr.val % 2 ^ 32 = _
    omega
  unfold chipAfter writeRegister
  dsimp only
  rw [List.foldl_append]
  simp [WrRegister.apply, haddr]

theorem agrees_writeRegister {fe : Rd53a} {ref : RegDefault numRegs}
    (haddr : ref.m_addr = ref.m_cfg) {chip : Words numRegs} {k : Fin numRegs}
    (h : k = ref.m_cfg ∨ fe.Agrees chip k) (value : UInt16) : (fe.writeRegister ref value).Agrees chip k := by
  unfold Agrees
  rw [chipAfter_writeRegister, RegDefault.getElem_set]
  by_cases hk : k = ref.m_addr
  · subst hk
    rw [if_pos rfl]
    rfl
  · have hword : k ≠ ref.m_cfg := fun heq => hk (heq.trans haddr.symm)
    rw [if_neg hk]
    show _ = (ref.write fe.m_cfg value)[k]
    rw [RegDefault.getElem_write, if_neg hword]
    exact h.resolve_left hword

/-- A call changes the bit of its double column only. -/
theorem calColOn_writeCalCol (enable : Bool) (fe : Rd53a) {col d : Nat} (hcol : col < 200)
    (hd : d < 200) :
    calColOn (writeCalCol enable fe col).m_cfg d =
      if d = col then enable else calColOn fe.m_cfg d := by
  obtain ⟨reg, bit, h⟩ := exists_calColAt hcol
  obtain ⟨reg', bit', h'⟩ := exists_calColAt hd
  have hfits := reg.fits
  have hfits' := reg'.fits
  have hbit := h.bit_lt
  have hbit' := h'.bit_lt
  have hmask := ChipCfg.one_shiftLeft bit (by omega) bit' (by omega)
  unfold writeCalCol calColOn
  rw [h.found, h'.found]
  simp only [writeRegister]
  by_cases hword : reg.m_cfg = reg'.m_cfg
  · have hreg := h.reg_eq h' hword
    subst hreg
    have hsame : bit' = bit ↔ d = col := by
      have hnumber := h.number
      have hnumber' := h'.number
      omega
    rw [RegDefault.getLsbD_read_write _ _ _ hbit']
    cases enable with
    | true =>
        rw [if_pos rfl, UInt16.toBitVec_or, BitVec.getLsbD_or, hmask]
        by_cases hbits : bit' = bit
        · simp [hbits, hsame.mp hbits]
        · have hne : ¬d = col := fun heq => hbits (hsame.mpr heq)
          simp [hbits, hne]
    | false =>
        rw [if_neg Bool.false_ne_true, UInt16.toBitVec_and, UInt16.toBitVec_not, BitVec.getLsbD_and,
          BitVec.getLsbD_not, hmask, decide_eq_true (by omega : bit' < 16)]
        by_cases hbits : bit' = bit
        · simp [hbits, hsame.mp hbits]
        · have hne : ¬d = col := fun heq => hbits (hsame.mpr heq)
          simp [hbits, hne]
  · have hne : d ≠ col := by
      rintro rfl
      have hfound := h.found.symm.trans h'.found
      cases hfound
      exact hword rfl
    have hapart : reg.Apart reg' := fun k i hk hk' => hword (hk.1.symm.trans hk'.1)
    rw [if_neg hne, RegDefault.read_write_of_apart hapart]

/-! ## Lists of calls -/

/-- Calls of `enableCalCol` and `disableCalCol`, one after the other. -/
def calls (fe : Rd53a) (cs : List (Bool × Nat)) : Rd53a :=
  cs.foldl (fun fe c => writeCalCol c.1 fe c.2) fe

def quad (enable : Bool) (dc : Nat) : List (Bool × Nat) :=
  [(enable, dc), (enable, dc + 1), (enable, dc + 2), (enable, dc + 3)]

theorem calls_append (fe : Rd53a) (as bs : List (Bool × Nat)) :
    fe.calls (as ++ bs) = (fe.calls as).calls bs := List.foldl_append

theorem mem_quad {enable : Bool} {cc : Nat} {c : Bool × Nat} :
    c ∈ quad enable (cc * 4) ↔ c.1 = enable ∧ c.2 / 4 = cc := by
  obtain ⟨e, dc⟩ := c
  simp only [quad, List.mem_cons, Prod.mk.injEq, List.not_mem_nil, or_false]
  constructor
  · rintro (⟨rfl, rfl⟩ | ⟨rfl, rfl⟩ | ⟨rfl, rfl⟩ | ⟨rfl, rfl⟩)
    all_goals exact ⟨rfl, by omega⟩
  · rintro ⟨rfl, hcc⟩
    simp only [true_and]
    omega

theorem calColOn_calls_of_not_mem {cs : List (Bool × Nat)} (hcs : ∀ c ∈ cs, c.2 < 200) {d : Nat}
    (hd : d < 200) (hnone : ∀ c ∈ cs, c.2 ≠ d) (fe : Rd53a) :
    calColOn (fe.calls cs).m_cfg d = calColOn fe.m_cfg d := by
  induction cs generalizing fe with
  | nil => rfl
  | cons c cs ih =>
      obtain ⟨hc, hrest⟩ := List.forall_mem_cons.mp hcs
      obtain ⟨hne, hnone⟩ := List.forall_mem_cons.mp hnone
      have hlater := ih hrest hnone (writeCalCol c.1 fe c.2)
      rw [calColOn_writeCalCol c.1 fe hc hd, if_neg hne.symm] at hlater
      exact hlater

theorem calColOn_calls {cs : List (Bool × Nat)} (hcs : ∀ c ∈ cs, c.2 < 200) {d : Nat}
    (hd : d < 200) {enable : Bool} (hall : ∀ c ∈ cs, c.2 = d → c.1 = enable)
    (hsome : ∃ c ∈ cs, c.2 = d) (fe : Rd53a) :
    calColOn (fe.calls cs).m_cfg d = enable := by
  induction cs generalizing fe with
  | nil =>
      obtain ⟨c, hc, -⟩ := hsome
      exact absurd hc List.not_mem_nil
  | cons c cs ih =>
      obtain ⟨hc, hrest⟩ := List.forall_mem_cons.mp hcs
      obtain ⟨hfirst, hlater⟩ := List.forall_mem_cons.mp hall
      by_cases hlast : ∃ c' ∈ cs, c'.2 = d
      · exact ih hrest hlater hlast _
      · have hnone : ∀ c' ∈ cs, c'.2 ≠ d := fun c' hc' heq => hlast ⟨c', hc', heq⟩
        have hcol : c.2 = d := by
          obtain ⟨c', hc', heq⟩ := hsome
          rcases List.mem_cons.mp hc' with rfl | hmem
          · exact heq
          · exact absurd heq (hnone c' hmem)
        have hset : calColOn (writeCalCol c.1 fe c.2).m_cfg d = c.1 := by
          rw [calColOn_writeCalCol c.1 fe hc hd, if_pos hcol.symm]
        exact (calColOn_calls_of_not_mem hrest hd hnone (writeCalCol c.1 fe c.2)).trans
          (hset.trans (hfirst hcol))

/-- The words of all double columns are in the chip as in the driver. -/
def Synced (fe : Rd53a) (chip : Words numRegs) : Prop :=
  ∀ d reg bit, CalColAt d reg bit → fe.Agrees chip reg.m_cfg

theorem agrees_calls {cs : List (Bool × Nat)} (hcs : ∀ c ∈ cs, c.2 < 200) {d bit : Nat}
    {reg : RegDefault numRegs} (hd : CalColAt d reg bit) {fe : Rd53a} {chip : Words numRegs}
    (h : (∃ c ∈ cs, c.2 = d) ∨ fe.Agrees chip reg.m_cfg) :
    (fe.calls cs).Agrees chip reg.m_cfg := by
  induction cs generalizing fe with
  | nil =>
      rcases h with ⟨c, hc, -⟩ | h
      · exact absurd hc List.not_mem_nil
      · exact h
  | cons c cs ih =>
      obtain ⟨hc, hrest⟩ := List.forall_mem_cons.mp hcs
      apply ih hrest
      obtain ⟨reg', bit', h'⟩ := exists_calColAt hc
      have hwrite (hk : reg.m_cfg = reg'.m_cfg ∨ fe.Agrees chip reg.m_cfg) :
          (writeCalCol c.1 fe c.2).Agrees chip reg.m_cfg := by
        unfold writeCalCol
        rw [h'.found]
        exact agrees_writeRegister h'.m_addr hk _
      rcases h with ⟨c', hc', rfl⟩ | h
      · rcases List.mem_cons.mp hc' with rfl | hmem
        · have hfound := hd.found.symm.trans h'.found
          cases hfound
          exact Or.inr (hwrite (Or.inl rfl))
        · exact Or.inl ⟨c', hmem, rfl⟩
      · exact Or.inr (hwrite (Or.inr h))

end Rd53a

/-! ## The loop -/

open Rd53aGlobalCfg

/-- The settings of the loop, with steps of one. -/
structure Rd53aCoreColLoop where
  range : CoreRange
  m_delayArray : List UInt32

namespace Rd53aCoreColLoop

structure State where
  fe : Rd53a
  m_cur : Nat
  m_done : Bool

variable (l : Rd53aCoreColLoop)

/-- Everything is switched off to begin with, four of the 200 double columns at a time. -/
def init (fe : Rd53a) : State where
  fe := (List.range 50).foldl (fun fe i => Rd53a.forQuad Rd53a.disableCalCol fe (i * 4)) fe
  m_cur := 0
  m_done := false

/-- One turn of the loop over `dc`, which counts with `i` the core columns from `minCore`. -/
def moveCol (m_cur : Nat) (fe : Rd53a) (i : Nat) : Rd53a :=
  let dc := (l.range.minCore + i) * 4
  let fe := if 0 < m_cur ∧ i % l.range.nSteps = m_cur - 1 then
      Rd53a.forQuad Rd53a.disableCalCol fe dc
    else fe
  if i % l.range.nSteps = m_cur then Rd53a.forQuad Rd53a.enableCalCol fe dc else fe

/-- `none`: the delays are read beyond their end. -/
def execPart1 (s : State) : Option State :=
  let fe := (List.range (l.range.maxCore - l.range.minCore)).foldl (l.moveCol s.m_cur) s.fe
  if l.m_delayArray.length > 0 then
    (if l.m_delayArray.length = l.range.maxCore - l.range.minCore then l.m_delayArray[s.m_cur]?
      else l.m_delayArray[0]?).map fun delay =>
        { s with fe := fe.writeRegister InjDelay delay.toUInt16 }
  else some { s with fe := fe }

def execPart2 (s : State) : State :=
  { s with
    m_cur := s.m_cur + 1
    m_done := if s.m_cur + 1 < l.range.nSteps then s.m_done else true }

/-- The steps up to the end of the loop: the driver behind each `execPart1`. -/
def execSteps : Nat → State → Option (List Rd53a × State)
  | 0, s => if s.m_done then some ([], s) else none
  | fuel + 1, s =>
      if s.m_done then some ([], s)
      else do
        let s ← l.execPart1 s
        let (steps, last) ← execSteps fuel (l.execPart2 s)
        pure (s.fe :: steps, last)

def run (fe : Rd53a) : Option (List Rd53a × State) := l.execSteps l.range.nSteps (init fe)

/-- The double columns of a core column are on together, and each core column once. -/
structure QuadsOnce (range : CoreRange) (steps : List (Words numRegs)) : Prop where
  whole : ∀ cfg ∈ steps, ∀ dc < 200, calColOn cfg dc = calColOn cfg (dc / 4 * 4)
  once : range.OnceEach (steps.map fun cfg cc => calColOn cfg (cc * 4))

/-- So it is in the driver, and in any chip that listens to it. -/
def InjectsOnce (fe : Rd53a) : Prop :=
  ∃ steps last, l.run fe = some (steps, last) ∧ QuadsOnce l.range (steps.map Rd53a.m_cfg) ∧
    ∀ chip, QuadsOnce l.range (steps.map fun fe => fe.chipAfter chip)

/-- There is a delay for each step that reads its own one. -/
def DelaysFit : Prop :=
  l.m_delayArray = [] ∨ l.m_delayArray.length ≠ l.range.maxCore - l.range.minCore ∨
    l.range.nSteps ≤ l.m_delayArray.length

/-! ## One step -/

def initCalls : List (Bool × Nat) := (List.range 50).flatMap fun i => Rd53a.quad false (i * 4)

def stepCalls (m_cur : Nat) : List (Bool × Nat) :=
  (List.range (l.range.maxCore - l.range.minCore)).flatMap fun i =>
    (if 0 < m_cur ∧ i % l.range.nSteps = m_cur - 1 then
      Rd53a.quad false ((l.range.minCore + i) * 4) else []) ++
    if i % l.range.nSteps = m_cur then Rd53a.quad true ((l.range.minCore + i) * 4) else []

theorem init_fe (fe : Rd53a) : (init fe).fe = fe.calls initCalls := by
  have hloop (is : List Nat) (fe : Rd53a) :
      is.foldl (fun fe i => Rd53a.forQuad Rd53a.disableCalCol fe (i * 4)) fe =
        fe.calls (is.flatMap fun i => Rd53a.quad false (i * 4)) := by
    induction is generalizing fe with
    | nil => rfl
    | cons i is ih =>
        rw [List.foldl_cons, ih, List.flatMap_cons, Rd53a.calls_append]
        rfl
  exact hloop (List.range 50) fe

theorem moveCol_fe (m_cur : Nat) (fe : Rd53a) (is : List Nat) :
    is.foldl (l.moveCol m_cur) fe = fe.calls (is.flatMap fun i =>
      (if 0 < m_cur ∧ i % l.range.nSteps = m_cur - 1 then
        Rd53a.quad false ((l.range.minCore + i) * 4) else []) ++
      if i % l.range.nSteps = m_cur then Rd53a.quad true ((l.range.minCore + i) * 4) else []) := by
  induction is generalizing fe with
  | nil => rfl
  | cons i is ih =>
      rw [List.foldl_cons, ih, List.flatMap_cons, Rd53a.calls_append, Rd53a.calls_append]
      unfold moveCol
      dsimp only
      by_cases hoff : 0 < m_cur ∧ i % l.range.nSteps = m_cur - 1
      · rw [if_pos hoff, if_pos hoff]
        by_cases hon : i % l.range.nSteps = m_cur
        · rw [if_pos hon, if_pos hon]
          rfl
        · rw [if_neg hon, if_neg hon]
          rfl
      · rw [if_neg hoff, if_neg hoff]
        by_cases hon : i % l.range.nSteps = m_cur
        · rw [if_pos hon, if_pos hon]
          rfl
        · rw [if_neg hon, if_neg hon]
          rfl

theorem mem_initCalls {c : Bool × Nat} : c ∈ initCalls ↔ c.1 = false ∧ c.2 < 200 := by
  unfold initCalls
  simp only [List.mem_flatMap, List.mem_range, Rd53a.mem_quad]
  constructor
  · rintro ⟨i, hi, hfalse, hcc⟩
    exact ⟨hfalse, by omega⟩
  · rintro ⟨hfalse, hlt⟩
    exact ⟨c.2 / 4, by omega, hfalse, rfl⟩

/-- The calls of a step: those of the step before off, and those of this one on. -/
theorem mem_stepCalls {m_cur : Nat} {c : Bool × Nat} :
    c ∈ l.stepCalls m_cur ↔ l.range.Has (c.2 / 4) ∧
      (c.1 = false ∧ 0 < m_cur ∧ (c.2 / 4 - l.range.minCore) % l.range.nSteps = m_cur - 1 ∨
        c.1 = true ∧ (c.2 / 4 - l.range.minCore) % l.range.nSteps = m_cur) := by
  unfold stepCalls CoreRange.Has
  rw [List.mem_flatMap]
  constructor
  · rintro ⟨i, hi, hmem⟩
    have hlt := List.mem_range.mp hi
    rcases List.mem_append.mp hmem with hmem | hmem
    · by_cases hoff : 0 < m_cur ∧ i % l.range.nSteps = m_cur - 1
      · rw [if_pos hoff, Rd53a.mem_quad] at hmem
        rw [hmem.2, Nat.add_sub_cancel_left]
        exact ⟨by omega, Or.inl ⟨hmem.1, hoff⟩⟩
      · rw [if_neg hoff] at hmem
        exact absurd hmem List.not_mem_nil
    · by_cases hon : i % l.range.nSteps = m_cur
      · rw [if_pos hon, Rd53a.mem_quad] at hmem
        rw [hmem.2, Nat.add_sub_cancel_left]
        exact ⟨by omega, Or.inr ⟨hmem.1, hon⟩⟩
      · rw [if_neg hon] at hmem
        exact absurd hmem List.not_mem_nil
  · rintro ⟨hhas, hcall⟩
    have hback : l.range.minCore + (c.2 / 4 - l.range.minCore) = c.2 / 4 := by omega
    refine ⟨c.2 / 4 - l.range.minCore, List.mem_range.mpr (by omega), List.mem_append.mpr ?_⟩
    rcases hcall with ⟨hfalse, hoff⟩ | ⟨htrue, hon⟩
    · apply Or.inl
      rw [if_pos hoff, Rd53a.mem_quad, hback]
      exact ⟨hfalse, rfl⟩
    · apply Or.inr
      rw [if_pos hon, Rd53a.mem_quad, hback]
      exact ⟨htrue, rfl⟩

/-- The double columns of the step are on, in the driver and in every chip. -/
structure Shows (fe : Rd53a) (on : Nat → Prop) [DecidablePred on] : Prop where
  driver : ∀ d < 200, calColOn fe.m_cfg d = decide (on d)
  chips : ∀ chip, fe.Synced chip

/-- The double columns of a step. -/
def OfStep (m_cur d : Nat) : Prop :=
  l.range.Has (d / 4) ∧ (d / 4 - l.range.minCore) % l.range.nSteps = m_cur

instance (m_cur : Nat) : DecidablePred (l.OfStep m_cur) := fun _ =>
  inferInstanceAs (Decidable (_ ∧ _))

/-- What is on before a step. -/
def Before (m_cur d : Nat) : Prop := 0 < m_cur ∧ l.OfStep (m_cur - 1) d

instance (m_cur : Nat) : DecidablePred (l.Before m_cur) := fun _ =>
  inferInstanceAs (Decidable (_ ∧ _))

theorem shows_init (fe : Rd53a) : Shows (init fe).fe (l.Before 0) := by
  have hcs : ∀ c ∈ initCalls, c.2 < 200 := fun c hc => (mem_initCalls.mp hc).2
  rw [init_fe]
  constructor
  · intro d hd
    have hnot : ¬l.Before 0 d := fun h => Nat.lt_irrefl 0 h.1
    rw [decide_eq_false hnot]
    exact Rd53a.calColOn_calls hcs hd (fun c hc _ => (mem_initCalls.mp hc).1)
      ⟨(false, d), mem_initCalls.mpr ⟨rfl, hd⟩, rfl⟩ fe
  · intro chip d reg bit hd
    by_cases hlt : d < 200
    · exact Rd53a.agrees_calls hcs hd (Or.inl ⟨(false, d), mem_initCalls.mpr ⟨rfl, hlt⟩, rfl⟩)
    · have hnone : calCol d = none := by
        unfold calCol
        repeat rw [if_neg (by omega)]
      have hfound := hd.found
      rw [hnone] at hfound
      cases hfound

theorem stepCalls_lt {m_cur : Nat} : ∀ c ∈ l.stepCalls m_cur, c.2 < 200 := by
  intro c hc
  have hhas := ((l.mem_stepCalls).mp hc).1
  have hinside := l.range.inside
  have hlt := hhas.2
  omega

theorem shows_step {fe : Rd53a} {m_cur : Nat} (h : Shows fe (l.Before m_cur)) :
    Shows (fe.calls (l.stepCalls m_cur)) (l.OfStep m_cur) := by
  constructor
  · intro d hd
    by_cases hon : l.OfStep m_cur d
    · rw [decide_eq_true hon]
      apply Rd53a.calColOn_calls l.stepCalls_lt hd
      · intro c hc heq
        rcases ((l.mem_stepCalls).mp hc).2 with ⟨-, hpos, hprev⟩ | ⟨htrue, -⟩
        · have hrem := hon.2
          rw [heq, hrem] at hprev
          omega
        · exact htrue
      · exact ⟨(true, d), (l.mem_stepCalls).mpr ⟨hon.1, Or.inr ⟨rfl, hon.2⟩⟩, rfl⟩
    · rw [decide_eq_false hon]
      by_cases hoff : l.Before m_cur d
      · apply Rd53a.calColOn_calls l.stepCalls_lt hd
        · intro c hc heq
          obtain ⟨hhas, ⟨hfalse, -⟩ | ⟨-, hrem⟩⟩ := (l.mem_stepCalls).mp hc
          · exact hfalse
          · rw [heq] at hhas hrem
            exact absurd ⟨hhas, hrem⟩ hon
        · exact ⟨(false, d), (l.mem_stepCalls).mpr ⟨hoff.2.1, Or.inl ⟨rfl, hoff.1, hoff.2.2⟩⟩, rfl⟩
      · have hnone : ∀ c ∈ l.stepCalls m_cur, c.2 ≠ d := by
          rintro c hc rfl
          obtain ⟨hhas, ⟨-, hpos, hprev⟩ | ⟨-, hrem⟩⟩ := (l.mem_stepCalls).mp hc
          · exact hoff ⟨hpos, hhas, hprev⟩
          · exact hon ⟨hhas, hrem⟩
        rw [Rd53a.calColOn_calls_of_not_mem l.stepCalls_lt hd hnone, h.driver d hd]
        exact decide_eq_false hoff
  · intro chip d reg bit hd
    exact Rd53a.agrees_calls l.stepCalls_lt hd (Or.inr (h.chips chip d reg bit hd))

theorem Shows.writeDelay {fe : Rd53a} {on : Nat → Prop} [DecidablePred on] (h : Shows fe on)
    (value : UInt16) : Shows (fe.writeRegister InjDelay value) on := by
  constructor
  · intro d hd
    obtain ⟨reg, bit, hat⟩ := exists_calColAt hd
    have hapart : InjDelay.Apart reg := fun k i hk hk' => hat.other (hk'.1.symm.trans hk.1)
    have hread : calColOn (fe.writeRegister InjDelay value).m_cfg d = calColOn fe.m_cfg d := by
      unfold calColOn
      rw [hat.found]
      show (reg.read (InjDelay.write fe.m_cfg value)).toBitVec.getLsbD bit = _
      rw [RegDefault.read_write_of_apart hapart]
    rw [hread, h.driver d hd]
  · intro chip d reg bit hd
    exact Rd53a.agrees_writeRegister rfl (Or.inr (h.chips chip d reg bit hd)) value

/-- The step that begins with `m_cur` reads a delay that is there. -/
def DelayFits (m_cur : Nat) : Prop :=
  m_cur < l.m_delayArray.length ∨
    l.m_delayArray.length ≠ l.range.maxCore - l.range.minCore ∨ l.m_delayArray = []

theorem execPart1_some {s : State} (hdelay : l.DelayFits s.m_cur)
    (h : Shows s.fe (l.Before s.m_cur)) :
    ∃ fe, l.execPart1 s = some { s with fe := fe } ∧ Shows fe (l.OfStep s.m_cur) := by
  have hstep := l.shows_step h
  unfold execPart1
  rw [l.moveCol_fe]
  by_cases hany : l.m_delayArray.length > 0
  · rw [if_pos hany]
    by_cases hown : l.m_delayArray.length = l.range.maxCore - l.range.minCore
    · have hlt : s.m_cur < l.m_delayArray.length := by
        rcases hdelay with hlt | hne | hnil
        · exact hlt
        · exact absurd hown hne
        · rw [hnil] at hany
          exact absurd hany (Nat.lt_irrefl 0)
      rw [if_pos hown, List.getElem?_eq_getElem hlt]
      exact ⟨_, rfl, hstep.writeDelay _⟩
    · rw [if_neg hown, List.getElem?_eq_getElem hany]
      exact ⟨_, rfl, hstep.writeDelay _⟩
  · rw [if_neg hany]
    exact ⟨_, rfl, hstep⟩

theorem execPart1_kept {s s' : State} (h : l.execPart1 s = some s') :
    s'.m_cur = s.m_cur ∧ s'.m_done = s.m_done := by
  unfold execPart1 at h
  dsimp only at h
  by_cases hany : l.m_delayArray.length > 0
  · rw [if_pos hany] at h
    obtain ⟨delay, -, rfl⟩ := Option.map_eq_some_iff.mp h
    exact ⟨rfl, rfl⟩
  · rw [if_neg hany] at h
    cases h
    exact ⟨rfl, rfl⟩

theorem execPart1_none {s : State} (hdelay : ¬l.DelayFits s.m_cur) : l.execPart1 s = none := by
  unfold DelayFits at hdelay
  rw [not_or, not_or, not_not] at hdelay
  obtain ⟨hlt, hown, hne⟩ := hdelay
  have hany : l.m_delayArray.length > 0 := List.length_pos_of_ne_nil hne
  unfold execPart1
  rw [if_pos hany, if_pos hown, List.getElem?_eq_none (Nat.not_lt.mp hlt)]
  rfl

/-! ## The run -/

/-- Each of the remaining steps shows its own double columns. -/
theorem execSteps_some (fuel : Nat) {s : State} (hfuel : s.m_cur + fuel = l.range.nSteps)
    (hdone : s.m_done = decide (fuel = 0)) (hdelay : ∀ m_cur < l.range.nSteps, l.DelayFits m_cur)
    (h : Shows s.fe (l.Before s.m_cur)) :
    ∃ steps last, l.execSteps fuel s = some (steps, last) ∧ steps.length = fuel ∧
      ∀ i (hi : i < steps.length), Shows steps[i] (l.OfStep (s.m_cur + i)) := by
  induction fuel generalizing s with
  | zero =>
      refine ⟨[], s, ?_, rfl, fun i hi => absurd hi (Nat.not_lt_zero i)⟩
      have hend : s.m_done = true := hdone
      rw [execSteps, if_pos hend]
  | succ fuel ih =>
      obtain ⟨fe, hpart, hshows⟩ := l.execPart1_some (hdelay s.m_cur (by omega)) h
      have hnext : Shows fe (l.Before (s.m_cur + 1)) := by
        constructor
        · intro d hd
          rw [hshows.driver d hd]
          exact decide_eq_decide.mpr ⟨fun hon => ⟨Nat.succ_pos _, hon⟩, fun hon => hon.2⟩
        · exact hshows.chips
      have hend : (l.execPart2 { s with fe := fe }).m_done = decide (fuel = 0) := by
        have hmore : s.m_cur + 1 < l.range.nSteps ↔ fuel ≠ 0 := by omega
        show (if s.m_cur + 1 < l.range.nSteps then s.m_done else true) = _
        by_cases hzero : fuel = 0
        · rw [if_neg (fun hlt => hmore.mp hlt hzero), decide_eq_true hzero]
        · rw [if_pos (hmore.mpr hzero), hdone, decide_eq_false hzero]
          exact decide_eq_false (Nat.succ_ne_zero fuel)
      obtain ⟨steps, last, hrest, hlength, hsteps⟩ :=
        @ih (l.execPart2 { s with fe := fe }) (by
          show s.m_cur + 1 + fuel = _
          omega) hend hnext
      refine ⟨fe :: steps, last, ?_, by rw [List.length_cons, hlength], ?_⟩
      · have hnot : ¬s.m_done = true := by
          rw [hdone]
          simp
        rw [execSteps, if_neg hnot, hpart]
        show (l.execSteps fuel (l.execPart2 { s with fe := fe }) >>= _) = _
        rw [hrest]
        rfl
      · intro i hi
        cases i with
        | zero => exact hshows
        | succ i =>
            have hlater := hsteps i (Nat.lt_of_succ_lt_succ hi)
            have hsum : s.m_cur + (i + 1) = s.m_cur + 1 + i := by omega
            rw [hsum]
            exact hlater

theorem execSteps_none (fuel : Nat) {s : State} (hfuel : s.m_cur + fuel = l.range.nSteps)
    (hdone : s.m_done = decide (fuel = 0)) (hsome : ∃ m_cur, s.m_cur ≤ m_cur ∧
      m_cur < l.range.nSteps ∧ ¬l.DelayFits m_cur) : l.execSteps fuel s = none := by
  induction fuel generalizing s with
  | zero =>
      obtain ⟨m_cur, hle, hlt, -⟩ := hsome
      omega
  | succ fuel ih =>
      have hnot : ¬s.m_done = true := by
        rw [hdone]
        simp
      rw [execSteps, if_neg hnot]
      cases hpart : l.execPart1 s with
      | none => rfl
      | some s' =>
          obtain ⟨m_cur, hle, hlt, hdelay⟩ := hsome
          have hkept := l.execPart1_kept hpart
          have hne : m_cur ≠ s.m_cur := by
            rintro rfl
            rw [l.execPart1_none hdelay] at hpart
            cases hpart
          have hmore : s'.m_cur + 1 < l.range.nSteps := by omega
          have hrest : l.execSteps fuel (l.execPart2 s') = none := by
            apply ih
            · show s'.m_cur + 1 + fuel = _
              omega
            · show (if s'.m_cur + 1 < l.range.nSteps then s'.m_done else true) = _
              rw [if_pos hmore, hkept.2, hdone]
              simp
              omega
            · exact ⟨m_cur, by show s'.m_cur + 1 ≤ m_cur; omega, hlt, hdelay⟩
          show (l.execSteps fuel (l.execPart2 s') >>= _) = none
          rw [hrest]
          rfl

theorem quadsOnce {steps : List Rd53a} (hlength : steps.length = l.range.nSteps)
    (cfg : Rd53a → Words numRegs)
    (hsteps : ∀ i (hi : i < steps.length) d, d < 200 →
      calColOn (cfg steps[i]) d = decide (l.OfStep i d)) :
    QuadsOnce l.range (steps.map cfg) := by
  constructor
  · intro words hwords dc hdc
    obtain ⟨fe, hfe, rfl⟩ := List.mem_map.mp hwords
    obtain ⟨i, hi, rfl⟩ := List.getElem_of_mem hfe
    have hfirst : l.OfStep i dc ↔ l.OfStep i (dc / 4 * 4) := by
      unfold OfStep
      rw [Nat.mul_div_cancel _ (by decide : 0 < 4)]
    rw [hsteps i hi dc hdc, hsteps i hi (dc / 4 * 4) (by omega)]
    exact decide_eq_decide.mpr hfirst
  · rw [List.map_map]
    apply l.range.onceEach_of_mod (by rw [List.length_map, hlength])
      (fun cc => cc - l.range.minCore)
    intro i hi cc hcc
    rw [List.length_map] at hi
    have hlt : cc * 4 < 200 := by
      have hcc' : cc < 50 := hcc
      omega
    rw [List.getElem_map]
    show calColOn (cfg steps[i]) (cc * 4) = _
    rw [hsteps i hi (cc * 4) hlt]
    apply decide_eq_decide.mpr
    unfold OfStep
    rw [Nat.mul_div_cancel _ (by decide : 0 < 4)]

/-- The loop goes over the core columns as it should exactly if the delays are long enough. -/
theorem injectsOnce_iff (fe : Rd53a) : l.InjectsOnce fe ↔ l.DelaysFit := by
  have hdone : (init fe).m_done = decide (l.range.nSteps = 0) :=
    (decide_eq_false (Nat.ne_of_gt l.range.pos)).symm
  constructor
  · rintro ⟨steps, last, hrun, -, -⟩
    by_contra hfit
    unfold DelaysFit at hfit
    rw [not_or, not_or, not_not, Nat.not_le] at hfit
    obtain ⟨hne, hown, hlt⟩ := hfit
    have hnone : l.run fe = none := by
      apply l.execSteps_none l.range.nSteps (Nat.zero_add _) hdone
      refine ⟨l.m_delayArray.length, Nat.zero_le _, hlt, ?_⟩
      rintro (hself | hother | hnil)
      · exact Nat.lt_irrefl _ hself
      · exact hother hown
      · exact hne hnil
    rw [hnone] at hrun
    cases hrun
  · intro hfit
    have hdelay : ∀ m_cur < l.range.nSteps, l.DelayFits m_cur := by
      intro m_cur hlt
      rcases hfit with hnil | hne | hle
      · exact Or.inr (Or.inr hnil)
      · exact Or.inr (Or.inl hne)
      · exact Or.inl (Nat.lt_of_lt_of_le hlt hle)
    obtain ⟨steps, last, hrun, hlength, hsteps⟩ :=
      l.execSteps_some l.range.nSteps (Nat.zero_add _) hdone hdelay (shows_init l fe)
    have hdriver : ∀ i (hi : i < steps.length) d, d < 200 →
        calColOn steps[i].m_cfg d = decide (l.OfStep i d) := by
      intro i hi d hd
      have hshows := (hsteps i hi).driver d hd
      rw [hshows]
      exact decide_eq_decide.mpr (by rw [show (init fe).m_cur + i = i from Nat.zero_add i])
    refine ⟨steps, last, hrun, l.quadsOnce hlength _ hdriver, fun chip => ?_⟩
    apply l.quadsOnce hlength
    intro i hi d hd
    obtain ⟨reg, bit, hat⟩ := exists_calColAt hd
    have hagrees : (steps[i].chipAfter chip)[reg.m_cfg] = steps[i].m_cfg[reg.m_cfg] :=
      (hsteps i hi).chips chip d reg bit hat
    have hsame : calColOn (steps[i].chipAfter chip) d = calColOn steps[i].m_cfg d := by
      unfold calColOn
      rw [hat.found]
      dsimp only
      rw [RegDefault.read, RegDefault.read, hagrees]
    rw [hsame, hdriver i hi d hd]

end Rd53aCoreColLoop

end Yarr.Rd53
