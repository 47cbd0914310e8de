import Yarr.Core.Invariant
import Yarr.Rd53.Itkpixv2
import Yarr.Rd53.RegisterMap

/-!
# The chip's registers and their copy

A register write sends the word at the register's address. Where the words
that changed are not that word, chip and driver differ afterwards.
-/

namespace Yarr.Rd53

open Itkpixv2GlobalCfg

namespace Itkpixv2

variable (fe : Itkpixv2) (chip : Words numRegs)

/-- The chip has what the driver has. -/
def InSync : Prop := fe.chipAfter chip = fe.m_cfg

/-! ## One write -/

theorem chipAfter_writeRegister (ref : Reg numRegs) (value : UInt16) :
    (fe.writeRegister ref value).chipAfter chip
      = (fe.chipAfter chip).set ref.addr
        (getElem (ref.write fe.m_cfg value) ref.addr ref.addr.isLt) ref.addr.isLt := by
  simp [chipAfter, writeRegister, sendWrReg, WrReg.apply]

theorem words_ext {words words' : Words numRegs} (h : ∀ k : Fin numRegs, words[k] = words'[k]) :
    words = words' := by
  apply Vector.ext
  intro i hi
  exact h ⟨i, hi⟩

/-- Chip and driver agree after a write if no word but the one sent has changed. -/
theorem inSync_writeRegister_iff {fe : Itkpixv2} {chip : Words numRegs} (h : fe.InSync chip)
    (ref : Reg numRegs) (value : UInt16) :
    (fe.writeRegister ref value).InSync chip ↔
      ∀ k : Fin numRegs, k ≠ ref.addr → (ref.write fe.m_cfg value)[k] = fe.m_cfg[k] := by
  rw [InSync, chipAfter_writeRegister, h]
  show fe.m_cfg.set ref.addr (ref.write fe.m_cfg value)[ref.addr] = ref.write fe.m_cfg value ↔ _
  constructor
  · intro heq k hk
    have hat := congrArg (fun words : Words numRegs => words[k]) heq
    simp only [RegDefault.getElem_set, if_neg hk] at hat
    exact hat.symm
  · intro hother
    apply words_ext
    intro k
    rw [RegDefault.getElem_set]
    by_cases hk : k = ref.addr
    · rw [if_pos hk, hk]
    · rw [if_neg hk, hother k hk]

/-! ## The registers -/

def InjVcalDiff : Reg numRegs := .diff InjVcalMed InjVcalHigh true

def DiffTh1 : Reg numRegs := .multi [DiffTh1M, DiffTh1L, DiffTh1R]

/-- The write changes no word that is not sent: `TruncTimeoutConf` and two of the three
thresholds behind `DiffTh1` get the value that they have. -/
structure Kept (cfg : Words numRegs) (ref : Reg numRegs) (value : UInt16) : Prop where
  truncTimeoutConf : ref = .default TruncTimeoutConf →
    value.toNat % 2 ^ 12 = (TruncTimeoutConf.read cfg).toNat
  diffTh1 : ref = DiffTh1 → value.toNat % 2 ^ 10 = (DiffTh1L.read cfg).toNat ∧
    value.toNat % 2 ^ 10 = (DiffTh1R.read cfg).toNat

theorem line_word : ∀ line ∈ regs, line.reg = TruncTimeoutConf ∨
    line.reg.m_cfg = line.reg.m_addr := by
  decide +kernel

theorem findReg_cases {name : String} {ref : Reg numRegs}
    (h : globalCfg.findReg name = some ref) :
    (∃ r, ref = .default r ∧ (r = TruncTimeoutConf ∨ r.m_cfg = r.m_addr)) ∨
      ref = InjVcalDiff ∨ ref = DiffTh1 := by
  rw [GlobalCfg.findReg] at h
  cases hreg : globalCfg.regMap.find name with
  | some r =>
      rw [hreg] at h
      obtain ⟨line, hline, -, rfl⟩ := GlobalCfg.exists_line hreg
      exact Or.inl ⟨line.reg, (Option.some.inj h).symm, line_word line hline⟩
  | none =>
      rw [hreg] at h
      have hmem := NameMap.mem_of_mem_ofList (NameMap.mem_of_find h)
      rcases List.mem_cons.mp hmem with heq | hmem
      · exact Or.inr (Or.inl (Prod.mk.inj heq).2)
      · exact Or.inr (Or.inr (Prod.mk.inj (List.mem_singleton.mp hmem)).2)

theorem default_other {r : RegDefault numRegs} (h : r.m_cfg = r.m_addr) (cfg : Words numRegs)
    (value : UInt16) {k : Fin numRegs} (hk : k ≠ r.m_addr) : (r.write cfg value)[k] = cfg[k] := by
  rw [r.getElem_write, if_neg]
  rw [h]
  exact hk

theorem truncTimeoutConf_other_iff (cfg : Words numRegs) (value : UInt16) :
    (∀ k : Fin numRegs, k ≠ TruncTimeoutConf.m_addr →
      (TruncTimeoutConf.write cfg value)[k] = cfg[k]) ↔
        value.toNat % 2 ^ 12 = (TruncTimeoutConf.read cfg).toNat := by
  have hword := TruncTimeoutConf.writeWord_eq_self_iff cfg[TruncTimeoutConf.m_cfg] value
  constructor
  · intro h
    have hat := h TruncTimeoutConf.m_cfg (by decide)
    rw [TruncTimeoutConf.getElem_write, if_pos rfl] at hat
    exact hword.mp hat
  · intro h k _
    rw [TruncTimeoutConf.getElem_write]
    by_cases hk : k = TruncTimeoutConf.m_cfg
    · rw [if_pos hk, hk]
      exact hword.mpr h
    · rw [if_neg hk]

theorem injVcalDiff_other (cfg : Words numRegs) (value : UInt16) {k : Fin numRegs}
    (hk : k ≠ InjVcalDiff.addr) : (InjVcalDiff.write cfg value)[k] = cfg[k] := by
  show (if (InjVcalMed.read cfg).toNat + value.toNat < 2 ^ InjVcalHigh.m_bits then
    InjVcalHigh.write cfg (value + InjVcalMed.read cfg) else cfg)[k] = cfg[k]
  split
  · exact default_other rfl cfg _ hk
  · rfl

theorem getElem_diffTh1_write (cfg : Words numRegs) (value : UInt16) (k : Fin numRegs) :
    (DiffTh1.write cfg value)[k] =
      if k = DiffTh1R.m_cfg then DiffTh1R.writeWord cfg[k] value
      else if k = DiffTh1L.m_cfg then DiffTh1L.writeWord cfg[k] value
      else if k = DiffTh1M.m_cfg then DiffTh1M.writeWord cfg[k] value
      else cfg[k] := by
  show (DiffTh1R.write (DiffTh1L.write (DiffTh1M.write cfg value) value) value)[k] = _
  rw [RegDefault.getElem_write, RegDefault.getElem_write, RegDefault.getElem_write]
  have hRL : DiffTh1R.m_cfg ≠ DiffTh1L.m_cfg := by decide
  have hRM : DiffTh1R.m_cfg ≠ DiffTh1M.m_cfg := by decide
  have hLM : DiffTh1L.m_cfg ≠ DiffTh1M.m_cfg := by decide
  by_cases hR : k = DiffTh1R.m_cfg
  · simp only [hR, if_true, if_neg hRL, if_neg hRM]
  · by_cases hL : k = DiffTh1L.m_cfg
    · simp only [hL, if_true, if_neg hRL.symm, if_neg hLM]
    · simp only [if_neg hR, if_neg hL]

theorem diffTh1_other_iff (cfg : Words numRegs) (value : UInt16) :
    (∀ k : Fin numRegs, k ≠ DiffTh1.addr → (DiffTh1.write cfg value)[k] = cfg[k]) ↔
      value.toNat % 2 ^ 10 = (DiffTh1L.read cfg).toNat ∧
        value.toNat % 2 ^ 10 = (DiffTh1R.read cfg).toNat := by
  have hL := DiffTh1L.writeWord_eq_self_iff cfg[DiffTh1L.m_cfg] value
  have hR := DiffTh1R.writeWord_eq_self_iff cfg[DiffTh1R.m_cfg] value
  constructor
  · intro h
    have hatL := h DiffTh1L.m_cfg (by decide)
    have hatR := h DiffTh1R.m_cfg (by decide)
    rw [getElem_diffTh1_write, if_neg (by decide), if_pos rfl] at hatL
    rw [getElem_diffTh1_write, if_pos rfl] at hatR
    exact ⟨hL.mp hatL, hR.mp hatR⟩
  · intro ⟨hl, hr⟩ k hk
    rw [getElem_diffTh1_write]
    by_cases hkR : k = DiffTh1R.m_cfg
    · rw [if_pos hkR, hkR]
      exact hR.mpr hr
    · rw [if_neg hkR]
      by_cases hkL : k = DiffTh1L.m_cfg
      · rw [if_pos hkL, hkL]
        exact hL.mpr hl
      · rw [if_neg hkL, if_neg]
        exact hk

theorem kept_default {r : RegDefault numRegs} (hne : r ≠ TruncTimeoutConf) (cfg : Words numRegs)
    (value : UInt16) : Kept cfg (.default r) value := by
  constructor
  · intro heq
    exact absurd (Reg.default.inj heq) hne
  · intro heq
    cases heq

theorem kept_truncTimeoutConf_iff (cfg : Words numRegs) (value : UInt16) :
    Kept cfg (.default TruncTimeoutConf) value ↔
      value.toNat % 2 ^ 12 = (TruncTimeoutConf.read cfg).toNat := by
  constructor
  · intro h
    exact h.truncTimeoutConf rfl
  · intro h
    constructor
    · exact fun _ => h
    · intro heq
      cases heq

theorem kept_injVcalDiff (cfg : Words numRegs) (value : UInt16) : Kept cfg InjVcalDiff value := by
  constructor
  · intro heq
    cases heq
  · intro heq
    cases heq

theorem kept_diffTh1_iff (cfg : Words numRegs) (value : UInt16) :
    Kept cfg DiffTh1 value ↔ value.toNat % 2 ^ 10 = (DiffTh1L.read cfg).toNat ∧
      value.toNat % 2 ^ 10 = (DiffTh1R.read cfg).toNat := by
  constructor
  · intro h
    exact h.diffTh1 rfl
  · intro h
    constructor
    · intro heq
      cases heq
    · exact fun _ => h

theorem kept_iff {ref : Reg numRegs} (hnamed : ∃ name, globalCfg.findReg name = some ref)
    (cfg : Words numRegs) (value : UInt16) :
    (∀ k : Fin numRegs, k ≠ ref.addr → (ref.write cfg value)[k] = cfg[k]) ↔
      Kept cfg ref value := by
  obtain ⟨name, hname⟩ := hnamed
  rcases findReg_cases hname with ⟨r, rfl, rfl | hword⟩ | rfl | rfl
  · rw [kept_truncTimeoutConf_iff]
    exact truncTimeoutConf_other_iff cfg value
  · have hne : r ≠ TruncTimeoutConf := by
      rintro rfl
      exact absurd hword (by decide)
    constructor
    · exact fun _ => kept_default hne cfg value
    · intro _ k hk
      exact default_other hword cfg value hk
  · constructor
    · exact fun _ => kept_injVcalDiff cfg value
    · intro _ k hk
      exact injVcalDiff_other cfg value hk
  · rw [kept_diffTh1_iff]
    exact diffTh1_other_iff cfg value

/-! ## Sequences of calls -/

/-- The condition on the configuration before a call. A name that is not found sends nothing. -/
def Call.Keeps (cfg : Words numRegs) : Call → Prop
  | .writeRegister ref _ value => Kept cfg ref value
  | .writeNamedRegister name value =>
      ∀ ref, globalCfg.findReg name = some ref → Kept cfg ref value

theorem writeNamed_of_find {name : String} {ref : Reg numRegs}
    (h : globalCfg.findReg name = some ref) (value : UInt16) :
    fe.writeNamed name value = fe.writeRegister ref value := by
  rw [writeNamed, h, Option.elim_some]

theorem writeNamed_of_none {name : String} (h : globalCfg.findReg name = none)
    (value : UInt16) : fe.writeNamed name value = fe := by
  rw [writeNamed, h, Option.elim_none]

theorem keeps_named_iff (cfg : Words numRegs) (name : String) (value : UInt16) :
    (Call.writeNamedRegister name value).Keeps cfg ↔
      ∀ ref, globalCfg.findReg name = some ref → Kept cfg ref value := Iff.rfl

theorem call_named (name : String) (value : UInt16) :
    fe.call (.writeNamedRegister name value) = fe.writeNamed name value := rfl

theorem inSync_call_iff {fe : Itkpixv2} {chip : Words numRegs} (h : fe.InSync chip) (c : Call) :
    (fe.call c).InSync chip ↔ c.Keeps fe.m_cfg := by
  cases c with
  | writeRegister ref hnamed value =>
      exact (inSync_writeRegister_iff h ref value).trans (kept_iff hnamed fe.m_cfg value)
  | writeNamedRegister name value =>
      rw [call_named, keeps_named_iff]
      by_cases hfound : ∃ ref, globalCfg.findReg name = some ref
      · obtain ⟨ref, hname⟩ := hfound
        have hstep := (inSync_writeRegister_iff h ref value).trans
          (kept_iff ⟨name, hname⟩ fe.m_cfg value)
        rw [fe.writeNamed_of_find hname, hstep]
        constructor
        · intro hkept ref' href'
          rwa [← Option.some.inj (hname.symm.trans href')]
        · exact fun hkeeps => hkeeps ref hname
      · have hname := Option.eq_none_iff_forall_ne_some.mpr fun ref href => hfound ⟨ref, href⟩
        rw [fe.writeNamed_of_none hname]
        constructor
        · exact fun _ ref href => absurd ⟨ref, href⟩ hfound
        · exact fun _ => h

/-- From equal words on, chip and driver agree after every call of a sequence exactly if every
call changes only the word that it sends. -/
theorem inSync_calls_iff (fe : Itkpixv2) (chip : Words numRegs) (h : fe.InSync chip)
    (cs : List Call) :
    (∀ p, p <+: cs → (fe.calls p).InSync chip) ↔
      ∀ p c, p ++ [c] <+: cs → c.Keeps (fe.calls p).m_cfg :=
  @Invariant.throughout_iff _ _ (fun fe => fe.InSync chip) (fun fe c => c.Keeps fe.m_cfg) call
    (fun _ c hs => inSync_call_iff hs c) fe h cs

/-! ## Runs on fixed inputs -/

theorem calls_singleton (c : Call) : fe.calls [c] = fe.call c := rfl

/-- A driver in front of a chip whose words are those of the driver. -/
theorem inSync_nil (m_chipId : UInt8) (m_cfg : Words numRegs) :
    (Itkpixv2.mk m_chipId m_cfg []).InSync m_cfg := rfl

def fresh : Itkpixv2 := ⟨0, globalCfg.init, []⟩

theorem fresh_inSync : fresh.InSync globalCfg.init := inSync_nil 0 globalCfg.init

theorem findReg_virtual : ∀ e ∈ [("InjVcalDiff", InjVcalDiff), ("DiffTh1", DiffTh1)],
    globalCfg.findReg e.1 = some e.2 := by
  intro e he
  have hnone : ∀ e ∈ [("InjVcalDiff", InjVcalDiff), ("DiffTh1", DiffTh1)],
      globalCfg.regMap.find e.1 = none := by
    simp only [GlobalCfg.regMap, NameMap.find_ofList]
    decide +kernel
  have hvirt : globalCfg.virtRegMap.find e.1 = some e.2 := by
    show (NameMap.ofList _).find e.1 = some e.2
    rw [NameMap.find_ofList]
    rcases List.mem_cons.mp he with rfl | he
    · rfl
    · rw [List.mem_singleton.mp he]
      rfl
  rw [GlobalCfg.findReg, hnone e he, hvirt]

theorem read_DiffTh1L_fresh : DiffTh1L.read fresh.m_cfg = 350 := by decide +kernel

theorem not_keeps_diffTh1 {cfg : Words numRegs} (h : DiffTh1L.read cfg = 350) :
    ¬ (Call.writeNamedRegister "DiffTh1" 400).Keeps cfg := by
  intro hkeeps
  have hfind : globalCfg.findReg "DiffTh1" = some DiffTh1 :=
    findReg_virtual ("DiffTh1", DiffTh1) (List.mem_cons_of_mem _ List.mem_cons_self)
  have hdiff := ((hkeeps DiffTh1 hfind).diffTh1 rfl).1
  rw [h] at hdiff
  exact absurd hdiff (by decide)

/-- One write of all three thresholds leaves the chip with the old left and right ones. -/
theorem diffTh1_not_inSync :
    ¬ ∀ (fe : Itkpixv2) (chip : Words numRegs), fe.InSync chip →
      ∀ cs : List Call, (fe.calls cs).InSync chip := by
  intro h
  have hsync := h fresh globalCfg.init fresh_inSync [.writeNamedRegister "DiffTh1" 400]
  rw [calls_singleton] at hsync
  have hkeeps := (inSync_call_iff fresh_inSync (.writeNamedRegister "DiffTh1" 400)).mp hsync
  exact not_keeps_diffTh1 read_DiffTh1L_fresh hkeeps

theorem keeps_injVcalDiff (cfg : Words numRegs) (value : UInt16) :
    (Call.writeNamedRegister "InjVcalDiff" value).Keeps cfg := by
  intro ref href
  have hfind : globalCfg.findReg "InjVcalDiff" = some InjVcalDiff :=
    findReg_virtual ("InjVcalDiff", InjVcalDiff) List.mem_cons_self
  rw [← Option.some.inj (hfind.symm.trans href)]
  exact kept_injVcalDiff cfg value

/-- A difference changes the high level only, and that is sent. -/
theorem inSync_calls_injVcalDiff :
    (fresh.calls [Call.writeNamedRegister "InjVcalDiff" 100]).InSync globalCfg.init := by
  refine (inSync_calls_iff fresh globalCfg.init fresh_inSync _).mpr ?_ _ List.prefix_rfl
  intro p c hp
  rw [(Invariant.eq_of_concat_prefix_singleton hp).2]
  apply keeps_injVcalDiff

end Itkpixv2

end Yarr.Rd53
