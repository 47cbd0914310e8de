import Yarr.Rd53.ChipRegisters

/-!
# Configuration files

A file holds a number for every name of `regMap`. Loading it copies, register
by register, the bits of the configuration it was written from; bits that no
register covers stay as they were.
-/

namespace Yarr.Rd53

namespace GlobalCfg

variable {numRegs : Nat} (g : GlobalCfg numRegs)

/-- The section of the chip in a file. -/
def globalConfig (j : Json) : Option Json := (j.find g.chip).bind (Json.find · "GlobalConfig")

/-! ## Writing -/

theorem find_getD_null (j : Option Json) (key : String) :
    (j.getD .null).find key = j.bind (Json.find · key) := by
  cases j <;> rfl

theorem writeReg_globalConfig {cfg : Words numRegs} {j j' : Json}
    {reg : String × RegDefault numRegs} (h : g.writeReg cfg j reg = some j') (k : String) :
    (g.globalConfig j').bind (Json.find · k)
      = if k = reg.1 then some (.int (reg.2.read cfg).toNat)
        else (g.globalConfig j).bind (Json.find · k) := by
  obtain ⟨chip, hchip, hfind⟩ := Json.find_update h
  obtain ⟨config, hconfig, hfind'⟩ := Json.find_update hchip
  obtain ⟨value, hvalue, hfind''⟩ := Json.find_update hconfig
  have hnew : g.globalConfig j' = some config := by
    rw [globalConfig, hfind, if_pos rfl, Option.bind_some, hfind', if_pos rfl]
  rw [hnew, Option.bind_some, hfind'', ← Option.some.inj hvalue, find_getD_null, find_getD_null]
  rfl

/-- After the loop over `regMap` every name has its number. -/
theorem writeRegs_globalConfig {cfg : Words numRegs} {l : NameMap (RegDefault numRegs)}
    (hnodup : (l.map Prod.fst).Nodup) {j j' : Json}
    (h : l.foldlM (g.writeReg cfg) j = some j') :
    (∀ reg ∈ l, (g.globalConfig j').bind (Json.find · reg.1)
        = some (.int (reg.2.read cfg).toNat)) ∧
      ∀ k, k ∉ l.map Prod.fst → (g.globalConfig j').bind (Json.find · k)
        = (g.globalConfig j).bind (Json.find · k) := by
  induction l generalizing j with
  | nil =>
      obtain rfl := Option.some.inj h
      exact ⟨fun reg hreg => absurd hreg List.not_mem_nil, fun _ _ => rfl⟩
  | cons reg l ih =>
      obtain ⟨hnot, hrest⟩ := List.nodup_cons.mp hnodup
      rw [List.foldlM_cons] at h
      obtain ⟨j₁, hj₁, h⟩ := Option.bind_eq_some_iff.mp h
      obtain ⟨hmem, hother⟩ := ih hrest h
      have hstep := g.writeReg_globalConfig hj₁
      constructor
      · intro reg' hreg'
        rcases List.mem_cons.mp hreg' with rfl | hreg'
        · rw [hother _ hnot, hstep, if_pos rfl]
        · exact hmem reg' hreg'
      · intro k hk
        rw [List.map_cons, List.mem_cons, not_or] at hk
        rw [hother k hk.2, hstep, if_neg hk.1]

/-- The path to the section can be written through. -/
def Writable (j : Json) : Prop :=
  j.Open ∧ ((j.find g.chip).getD .null).Open ∧ ((g.globalConfig j).getD .null).Open

theorem writable_null : g.Writable .null := ⟨Or.inl rfl, Or.inl rfl, Or.inl rfl⟩

theorem writeReg_isSome {j : Json} (h : g.Writable j) (cfg : Words numRegs)
    (reg : String × RegDefault numRegs) : (g.writeReg cfg j reg).isSome := by
  obtain ⟨hj, hchip, hconfig⟩ := h
  apply hj.update
  apply hchip.update
  rw [find_getD_null]
  apply Json.Open.update hconfig
  rfl

theorem writeReg_writable {cfg : Words numRegs} {j j' : Json}
    {reg : String × RegDefault numRegs} (h : g.writeReg cfg j reg = some j') : g.Writable j' := by
  obtain ⟨chip, hchip, hfind⟩ := Json.find_update h
  obtain ⟨config, hconfig, hfind'⟩ := Json.find_update hchip
  have hchipNew : j'.find g.chip = some chip := by rw [hfind, if_pos rfl]
  have hconfigNew : g.globalConfig j' = some config := by
    rw [globalConfig, hchipNew, Option.bind_some, hfind', if_pos rfl]
  rw [Writable, hchipNew, hconfigNew]
  exact ⟨Json.open_of_update h, Json.open_of_update hchip, Json.open_of_update hconfig⟩

theorem writeConfig_isSome {j : Json} (h : g.Writable j) (cfg : Words numRegs) :
    (g.writeConfig cfg j).isSome := by
  rw [writeConfig]
  generalize g.regMap = l
  induction l generalizing j with
  | nil => rfl
  | cons reg l ih =>
      obtain ⟨j₁, hj₁⟩ := Option.isSome_iff_exists.mp (g.writeReg_isSome h cfg reg)
      rw [List.foldlM_cons, hj₁]
      exact ih (g.writeReg_writable hj₁)

/-! ## Loading -/

/-- Register by register, the bits of `source`. -/
def copyRegs (source : Words numRegs) (l : NameMap (RegDefault numRegs)) (cfg : Words numRegs) :
    Words numRegs :=
  l.foldl (fun cfg reg => reg.2.write cfg (reg.2.read source)) cfg

theorem loadRegs_eq {source : Words numRegs} {jconfig : Json} {l : NameMap (RegDefault numRegs)}
    (h : ∀ reg ∈ l, jconfig.find reg.1 = some (.int (reg.2.read source).toNat))
    (cfg : Words numRegs) : l.foldlM (loadReg jconfig) cfg = some (copyRegs source l cfg) := by
  induction l generalizing cfg with
  | nil => rfl
  | cons reg l ih =>
      have hreg : loadReg jconfig cfg reg = some (reg.2.write cfg (reg.2.read source)) := by
        rw [loadReg, h reg List.mem_cons_self]
        show Option.map _ (Json.int _).toUInt16 = _
        rw [Json.toUInt16_int]
        rfl
      rw [List.foldlM_cons, hreg, Option.bind_eq_bind, Option.bind_some,
        ih fun reg' hreg' => h reg' (List.mem_cons_of_mem _ hreg')]
      rfl

theorem bitAt_copyRegs {source : Words numRegs} {l : NameMap (RegDefault numRegs)}
    {cfg : Words numRegs} {k : Fin numRegs} {i : Nat}
    (h : RegDefault.bitAt cfg k i = RegDefault.bitAt source k i ∨ ∃ reg ∈ l, reg.2.Covers k i) :
    RegDefault.bitAt (copyRegs source l cfg) k i = RegDefault.bitAt source k i := by
  induction l generalizing cfg with
  | nil =>
      rcases h with h | ⟨reg, hreg, -⟩
      · exact h
      · exact absurd hreg List.not_mem_nil
  | cons reg l ih =>
      apply ih
      rcases reg.2.bitAt_write_read cfg source k i with ⟨-, hbit⟩ | ⟨hnot, hbit⟩
      · exact Or.inl hbit
      · rcases h with h | ⟨reg', hreg', hcov⟩
        · exact Or.inl (hbit.trans h)
        · rcases List.mem_cons.mp hreg' with rfl | hreg'
          · exact absurd hcov hnot
          · exact Or.inr ⟨reg', hreg', hcov⟩

theorem loadConfig_writeConfig {cfg : Words numRegs} {j j' : Json}
    (h : g.writeConfig cfg j = some j') (fresh : Words numRegs) :
    ∃ loaded, g.loadConfig fresh j' = some loaded ∧
      ∀ reg ∈ g.regMap, reg.2.read loaded = reg.2.read cfg := by
  have hordered : g.regMap.Ordered := NameMap.ordered_ofList _
  obtain ⟨hmem, -⟩ := g.writeRegs_globalConfig hordered.nodup h
  rw [loadConfig, ← globalConfig]
  cases hconfig : g.globalConfig j' with
  | none =>
      refine ⟨fresh, rfl, ?_⟩
      intro reg hreg
      have hfind := hmem reg hreg
      rw [hconfig] at hfind
      exact absurd hfind (Option.some_ne_none _).symm
  | some jconfig =>
      rw [hconfig] at hmem
      refine ⟨copyRegs cfg g.regMap fresh, loadRegs_eq hmem fresh, ?_⟩
      intro reg hreg
      apply RegDefault.read_congr
      intro k i hcov
      exact bitAt_copyRegs (Or.inr ⟨reg, hreg, hcov⟩)

end GlobalCfg

/-! ## Virtual registers -/

namespace Reg

variable {numRegs : Nat}

/-- The registers that a register is made of. -/
def parts : Reg numRegs → List (RegDefault numRegs)
  | default r => [r]
  | diff lowRef highRef _ => [lowRef, highRef]
  | multi regList => regList

theorem read_of_parts {cfg cfg' : Words numRegs} (r : Reg numRegs)
    (h : ∀ p ∈ r.parts, p.read cfg = p.read cfg') : r.read cfg = r.read cfg' := by
  cases r with
  | default r => exact h r List.mem_cons_self
  | diff lowRef highRef changeHigh =>
      have hlow := h lowRef List.mem_cons_self
      have hhigh := h highRef (List.mem_cons_of_mem _ List.mem_cons_self)
      rw [read, read, hlow, hhigh]
  | multi regList =>
      cases regList with
      | nil => rfl
      | cons r rs => exact h r List.mem_cons_self

end Reg

namespace GlobalCfg

variable {numRegs : Nat} (g : GlobalCfg numRegs)

/-- The parts of the virtual registers are registers of the table. -/
def VirtualOfNamed : Prop :=
  ∀ v ∈ g.virtRegMap, ∀ p ∈ v.2.parts, ∃ name, g.regMap.find name = some p

theorem getValue_eq_of_regs {g : GlobalCfg numRegs} (hvirt : g.VirtualOfNamed)
    {cfg cfg' : Words numRegs} (h : ∀ reg ∈ g.regMap, reg.2.read cfg = reg.2.read cfg')
    (name : String) : g.getValue cfg name = g.getValue cfg' name := by
  rw [getValue, getValue, findReg]
  cases hreg : g.regMap.find name with
  | some r => exact h (name, r) (NameMap.mem_of_find hreg)
  | none =>
      dsimp only
      cases hv : g.virtRegMap.find name with
      | none => rfl
      | some v =>
          apply Reg.read_of_parts
          intro p hp
          obtain ⟨pname, hpname⟩ := hvirt (name, v) (NameMap.mem_of_find hv) p hp
          exact h (pname, p) (NameMap.mem_of_find hpname)

end GlobalCfg

end Yarr.Rd53

/-!
## The register maps

No two registers of `RD53B` have a bit in common. In `ITKPIXV2` this is so but
for one pair: `init` points `TruncTimeoutConf` at the word of
`ReadTrigLatency`.
-/

namespace Yarr.Rd53

/-! ## Layout checks -/

namespace RegDefault

variable {numRegs : Nat}

/-- The bits of a register in the array of words. -/
def bitmap (r : RegDefault numRegs) : Nat :=
  (2 ^ r.m_bits - 1) <<< (16 * r.m_cfg + r.m_bOffset)

theorem testBit_bitmap {r : RegDefault numRegs} {k : Fin numRegs} {i : Nat} (h : r.Covers k i) :
    r.bitmap.testBit (16 * k + i) = true := by
  obtain ⟨rfl, hlow, hhigh⟩ := h
  have hlow' : r.m_bOffset ≤ i := hlow
  have hhigh' : i < r.m_bOffset + r.m_bits := hhigh
  exact testBit_run (by omega) (by omega)

theorem apart_of_bitmap {r s : RegDefault numRegs} (h : r.bitmap &&& s.bitmap = 0) :
    r.Apart s := by
  intro k i hr hs
  have hboth : (r.bitmap &&& s.bitmap).testBit (16 * k + i) = true := by
    rw [Nat.testBit_and, testBit_bitmap hr, testBit_bitmap hs]
    rfl
  rw [h, Nat.zero_testBit] at hboth
  exact Bool.false_ne_true hboth

theorem Apart.symm {r s : RegDefault numRegs} (h : r.Apart s) : s.Apart r :=
  fun k i hs hr => h k i hr hs

/-- Two registers with the same bits. -/
def SameBits (r s : RegDefault numRegs) : Prop :=
  r.m_cfg = s.m_cfg ∧ r.m_bOffset = s.m_bOffset ∧ r.m_bits = s.m_bits

theorem SameBits.read_eq {r s : RegDefault numRegs} (h : r.SameBits s) (cfg : Words numRegs) :
    r.read cfg = s.read cfg := by
  obtain ⟨addr, word, offset, bits, fits⟩ := r
  obtain ⟨addr', word', offset', bits', fits'⟩ := s
  obtain ⟨rfl, rfl, rfl⟩ := h
  rfl

theorem SameBits.apart {r s t : RegDefault numRegs} (h : r.SameBits s) (hst : s.Apart t) :
    r.Apart t := by
  obtain ⟨addr, word, offset, bits, fits⟩ := r
  obtain ⟨addr', word', offset', bits', fits'⟩ := s
  obtain ⟨rfl, rfl, rfl⟩ := h
  exact hst

end RegDefault

namespace GlobalCfg

variable {numRegs : Nat} (g : GlobalCfg numRegs)

/-- A register of the map stands on a line of `init`. -/
theorem exists_line {g : GlobalCfg numRegs} {name : String} {r : RegDefault numRegs}
    (h : g.regMap.find name = some r) : ∃ line ∈ g.regs, line.name = name ∧ line.reg = r := by
  rw [regMap, NameMap.find_ofList] at h
  obtain ⟨e, he, hr⟩ := Option.map_eq_some_iff.mp h
  have hname := List.find?_some he
  obtain ⟨line, hline, rfl⟩ := List.mem_map.mp (List.mem_reverse.mp (List.mem_of_find?_eq_some he))
  exact ⟨line, hline, beq_iff_eq.mp hname, hr⟩

theorem apart_of_disjointMaps {lines : List (RegInit numRegs)}
    (h : disjointMaps 0 (lines.map fun line => line.reg.bitmap) = true) {a b : RegInit numRegs}
    (ha : a ∈ lines) (hb : b ∈ lines) (hne : a.name ≠ b.name) : a.reg.Apart b.reg := by
  have hpairs := List.pairwise_map.mp (pairwise_of_disjointMaps h)
  have hall := hpairs.imp fun {x y : RegInit numRegs} hxy => RegDefault.apart_of_bitmap hxy
  have hsymm : Std.Symm fun x y : RegInit numRegs => x.reg.Apart y.reg :=
    ⟨fun x y hxy => hxy.symm⟩
  exact hall.forall ha hb fun heq => hne (congrArg RegInit.name heq)

theorem getValue_of_find {g : GlobalCfg numRegs} {name : String} {r : RegDefault numRegs}
    (h : g.regMap.find name = some r) (cfg : Words numRegs) :
    g.getValue cfg name = r.read cfg := by
  rw [getValue, findReg, h]
  rfl

theorem setValue_of_find {g : GlobalCfg numRegs} {name : String} {r : RegDefault numRegs}
    (h : g.regMap.find name = some r) (cfg : Words numRegs) (value : UInt16) :
    g.setValue cfg name value = r.write cfg value := by
  rw [setValue, findReg, h]
  rfl

theorem virtualOfNamed_of_members {g : GlobalCfg numRegs} {entries : List (String × Reg numRegs)}
    {members : List (String × RegDefault numRegs)} (hvirt : g.virtRegMap = NameMap.ofList entries)
    (hfind : ∀ e ∈ members, g.regMap.find e.1 = some e.2)
    (hparts : ∀ v ∈ entries, ∀ p ∈ v.2.parts, p ∈ members.map Prod.snd) : g.VirtualOfNamed := by
  intro v hv p hp
  rw [hvirt] at hv
  obtain ⟨e, he, rfl⟩ := List.mem_map.mp (hparts v (NameMap.mem_of_mem_ofList hv) p hp)
  exact ⟨e.1, hfind e he⟩

/-! ## What a map is to give -/

/-- A named register reads what was written, modulo two to its width. -/
def ReadsBack : Prop :=
  ∀ (cfg : Words numRegs) (name : String) (r : RegDefault numRegs) (value : UInt16),
    g.regMap.find name = some r →
      (g.getValue (g.setValue cfg name value) name).toNat = value.toNat % 2 ^ r.m_bits

/-- Writing the first register leaves what the second reads. -/
def Undisturbed (cfg : Words numRegs) (written : String) (value : UInt16) (other : String) : Prop :=
  g.getValue (g.setValue cfg written value) other = g.getValue cfg other

def Named (name : String) : Prop := (g.regMap.find name).isSome

/-- A file can be written from every state, and loading it anywhere brings all values back. -/
def Reloads : Prop :=
  ∀ cfg : Words numRegs, (g.writeConfig cfg .null).isSome ∧
    ∀ (j j' : Json) (fresh : Words numRegs), g.writeConfig cfg j = some j' →
      ∃ loaded, g.loadConfig fresh j' = some loaded ∧
        ∀ name, g.getValue loaded name = g.getValue cfg name

theorem readsBack : g.ReadsBack := by
  intro cfg name r value h
  rw [setValue_of_find h, getValue_of_find h]
  exact r.read_write cfg value

theorem undisturbed_of_apart {g : GlobalCfg numRegs} {a b : String} {r s : RegDefault numRegs}
    (ha : g.regMap.find a = some r) (hb : g.regMap.find b = some s) (h : r.Apart s)
    (cfg : Words numRegs) (value : UInt16) : g.Undisturbed cfg a value b := by
  rw [Undisturbed, setValue_of_find ha, getValue_of_find hb, getValue_of_find hb]
  exact RegDefault.read_write_of_apart h cfg value

theorem reloads {g : GlobalCfg numRegs} (hvirt : g.VirtualOfNamed) : g.Reloads := by
  intro cfg
  constructor
  · exact g.writeConfig_isSome g.writable_null cfg
  · intro j j' fresh h
    obtain ⟨loaded, hload, hregs⟩ := g.loadConfig_writeConfig h fresh
    exact ⟨loaded, hload, getValue_eq_of_regs hvirt hregs⟩

end GlobalCfg

/-! ## RD53B -/

namespace Rd53bGlobalCfg

theorem disjoint_regs : disjointMaps 0 (regs.map fun line => line.reg.bitmap) = true := by
  decide +kernel

theorem undisturbed (cfg : Words numRegs) {a b : String} (ha : globalCfg.Named a)
    (hb : globalCfg.Named b) (hne : b ≠ a) (value : UInt16) :
    globalCfg.Undisturbed cfg a value b := by
  obtain ⟨r, hr⟩ := Option.isSome_iff_exists.mp ha
  obtain ⟨s, hs⟩ := Option.isSome_iff_exists.mp hb
  obtain ⟨la, hla, rfl, rfl⟩ := GlobalCfg.exists_line hr
  obtain ⟨lb, hlb, rfl, rfl⟩ := GlobalCfg.exists_line hs
  exact GlobalCfg.undisturbed_of_apart hr hs
    (GlobalCfg.apart_of_disjointMaps disjoint_regs hla hlb hne.symm) cfg value

/-- The members that the virtual registers point to. -/
def members : List (String × RegDefault numRegs) := [
  ("InjVcalMed", InjVcalMed), ("InjVcalHigh", InjVcalHigh),
  ("DiffTh1M", DiffTh1M), ("DiffTh1L", DiffTh1L), ("DiffTh1R", DiffTh1R)]

theorem find_members : ∀ e ∈ members, globalCfg.regMap.find e.1 = some e.2 := by
  simp only [GlobalCfg.regMap, NameMap.find_ofList]
  decide +kernel

theorem virtualOfNamed : globalCfg.VirtualOfNamed :=
  GlobalCfg.virtualOfNamed_of_members rfl find_members (by decide)

end Rd53bGlobalCfg

/-! ## ITKPIXV2 -/

namespace Itkpixv2GlobalCfg

theorem disjoint_regs :
    disjointMaps 0 ((regs.filter fun line => decide (line.reg.m_addr ≠ 53)).map
      fun line => line.reg.bitmap) = true := by
  decide +kernel

theorem line_53 : ∀ line ∈ regs, line.reg.m_addr = 53 →
    line.name = "TruncTimeoutConf" ∧ line.reg = TruncTimeoutConf := by
  decide +kernel

/-- The members that are read and written through a pointer. -/
def members : List (String × RegDefault numRegs) := [
  ("InjVcalMed", InjVcalMed), ("InjVcalHigh", InjVcalHigh),
  ("DiffTh1M", DiffTh1M), ("DiffTh1L", DiffTh1L), ("DiffTh1R", DiffTh1R),
  ("ReadTrigLatency", ReadTrigLatency), ("TruncTimeoutConf", TruncTimeoutConf)]

theorem find_members : ∀ e ∈ members, globalCfg.regMap.find e.1 = some e.2 := by
  simp only [GlobalCfg.regMap, NameMap.find_ofList]
  decide +kernel

theorem virtualOfNamed : globalCfg.VirtualOfNamed :=
  GlobalCfg.virtualOfNamed_of_members rfl find_members (by decide)

theorem find_ReadTrigLatency : globalCfg.regMap.find "ReadTrigLatency" = some ReadTrigLatency :=
  find_members ("ReadTrigLatency", ReadTrigLatency) (by decide)

theorem find_TruncTimeoutConf :
    globalCfg.regMap.find "TruncTimeoutConf" = some TruncTimeoutConf :=
  find_members ("TruncTimeoutConf", TruncTimeoutConf) (by decide)

theorem sameBits : TruncTimeoutConf.SameBits ReadTrigLatency := ⟨rfl, rfl, rfl⟩

/-- The pair of names with the same bits behind them. -/
def Shared (a b : String) : Prop :=
  a = "ReadTrigLatency" ∧ b = "TruncTimeoutConf" ∨ a = "TruncTimeoutConf" ∧ b = "ReadTrigLatency"

/-- Two names have registers apart unless they are that pair. -/
theorem shared_or_apart {a b : String} {r s : RegDefault numRegs}
    (hr : globalCfg.regMap.find a = some r) (hs : globalCfg.regMap.find b = some s) (hne : b ≠ a) :
    Shared a b ∨ r.Apart s := by
  obtain ⟨la, hla, hna, hra⟩ := GlobalCfg.exists_line hr
  obtain ⟨lb, hlb, hnb, hrb⟩ := GlobalCfg.exists_line hs
  obtain ⟨lt, hlt, hnt, hrt⟩ := GlobalCfg.exists_line find_ReadTrigLatency
  have hapart : ∀ x ∈ regs, ∀ y ∈ regs, x.reg.m_addr ≠ 53 → y.reg.m_addr ≠ 53 →
      x.name ≠ y.name → x.reg.Apart y.reg := by
    intro x hx y hy hx53 hy53 hxy
    apply GlobalCfg.apart_of_disjointMaps disjoint_regs _ _ hxy
    · exact List.mem_filter.mpr ⟨hx, decide_eq_true hx53⟩
    · exact List.mem_filter.mpr ⟨hy, decide_eq_true hy53⟩
  have hlt53 : lt.reg.m_addr ≠ 53 := by
    rw [hrt]
    decide
  by_cases ha : la.reg.m_addr = 53
  · obtain ⟨hname, hreg⟩ := line_53 la hla ha
    by_cases hb : b = "ReadTrigLatency"
    · exact Or.inl (Or.inr ⟨hna.symm.trans hname, hb⟩)
    · have hb53 : lb.reg.m_addr ≠ 53 := by
        intro hb53
        have hnameb := (line_53 lb hlb hb53).1
        exact hne (hnb.symm.trans (hnameb.trans (hname.symm.trans hna)))
      have hne' : lt.name ≠ lb.name := by
        rw [hnt, hnb]
        exact Ne.symm hb
      have h := hapart lt hlt lb hlb hlt53 hb53 hne'
      rw [hrt, hrb] at h
      rw [← hra, hreg]
      exact Or.inr (sameBits.apart h)
  · by_cases hb : lb.reg.m_addr = 53
    · obtain ⟨hname, hreg⟩ := line_53 lb hlb hb
      by_cases ha' : a = "ReadTrigLatency"
      · exact Or.inl (Or.inl ⟨ha', hnb.symm.trans hname⟩)
      · have hne' : lt.name ≠ la.name := by
          rw [hnt, hna]
          exact Ne.symm ha'
        have h := hapart lt hlt la hla hlt53 ha hne'
        rw [hrt, hra] at h
        rw [← hrb, hreg]
        exact Or.inr (sameBits.apart h).symm
    · have hne' : la.name ≠ lb.name := by
        rw [hna, hnb]
        exact hne.symm
      have h := hapart la hla lb hlb ha hb hne'
      rw [hra, hrb] at h
      exact Or.inr h

theorem undisturbed_shared_iff {a b : String} (h : Shared a b) (cfg : Words numRegs)
    (value : UInt16) : globalCfg.Undisturbed cfg a value b ↔
      value.toNat % 2 ^ 12 = (globalCfg.getValue cfg b).toNat := by
  have hsame : ∀ c, ReadTrigLatency.read c = TruncTimeoutConf.read c :=
    fun c => (sameBits.read_eq c).symm
  rw [GlobalCfg.Undisturbed, ← UInt16.toNat_inj]
  rcases h with ⟨rfl, rfl⟩ | ⟨rfl, rfl⟩
  · have hread := ReadTrigLatency.read_write cfg value
    rw [hsame] at hread
    rw [GlobalCfg.setValue_of_find find_ReadTrigLatency,
      GlobalCfg.getValue_of_find find_TruncTimeoutConf, hread]
    rfl
  · have hread := TruncTimeoutConf.read_write cfg value
    rw [← hsame] at hread
    rw [GlobalCfg.setValue_of_find find_TruncTimeoutConf,
      GlobalCfg.getValue_of_find find_ReadTrigLatency, hread]
    rfl

theorem undisturbed_iff (cfg : Words numRegs) {a b : String} (ha : globalCfg.Named a)
    (hb : globalCfg.Named b) (hne : b ≠ a) (value : UInt16) :
    globalCfg.Undisturbed cfg a value b ↔
      ¬ Shared a b ∨ value.toNat % 2 ^ 12 = (globalCfg.getValue cfg b).toNat := by
  obtain ⟨r, hr⟩ := Option.isSome_iff_exists.mp ha
  obtain ⟨s, hs⟩ := Option.isSome_iff_exists.mp hb
  by_cases hshared : Shared a b
  · rw [undisturbed_shared_iff hshared]
    simp [hshared]
  · have hapart := (shared_or_apart hr hs hne).resolve_left hshared
    have hsame := GlobalCfg.undisturbed_of_apart hr hs hapart cfg value
    simp [hshared, hsame]

end Itkpixv2GlobalCfg

/-! ## Both chips -/

/-- Every register reads back what is written and no other changes, but for the one pair of
`ITKPIXV2`; configuration files bring everything back. -/
theorem registerMaps (a b : String) (value : UInt16) :
    (Itkpixv2GlobalCfg.globalCfg.ReadsBack ∧ Rd53bGlobalCfg.globalCfg.ReadsBack) ∧
      (∀ cfg, Itkpixv2GlobalCfg.globalCfg.Named a →
        Itkpixv2GlobalCfg.globalCfg.Named b → b ≠ a →
        (Itkpixv2GlobalCfg.globalCfg.Undisturbed cfg a value b ↔
          ¬ Itkpixv2GlobalCfg.Shared a b ∨
            value.toNat % 2 ^ 12 = (Itkpixv2GlobalCfg.globalCfg.getValue cfg b).toNat)) ∧
      (∀ cfg, Rd53bGlobalCfg.globalCfg.Named a → Rd53bGlobalCfg.globalCfg.Named b →
        b ≠ a → Rd53bGlobalCfg.globalCfg.Undisturbed cfg a value b) ∧
      Itkpixv2GlobalCfg.globalCfg.Reloads ∧ Rd53bGlobalCfg.globalCfg.Reloads := by
  refine ⟨⟨GlobalCfg.readsBack _, GlobalCfg.readsBack _⟩, ?_, ?_, ?_, ?_⟩
  · intro cfg ha hb hne
    exact Itkpixv2GlobalCfg.undisturbed_iff cfg ha hb hne value
  · intro cfg ha hb hne
    exact Rd53bGlobalCfg.undisturbed cfg ha hb hne value
  · exact GlobalCfg.reloads Itkpixv2GlobalCfg.virtualOfNamed
  · exact GlobalCfg.reloads Rd53bGlobalCfg.virtualOfNamed

/-- In a new configuration, writing 1 to `TruncTimeoutConf` changes `ReadTrigLatency`. -/
theorem truncTimeoutConf_disturbs :
    ¬ ∀ cfg a b value, Itkpixv2GlobalCfg.globalCfg.Named a →
      Itkpixv2GlobalCfg.globalCfg.Named b → b ≠ a →
        Itkpixv2GlobalCfg.globalCfg.Undisturbed cfg a value b := by
  intro h
  have hwritten := Itkpixv2GlobalCfg.find_TruncTimeoutConf
  have hother := Itkpixv2GlobalCfg.find_ReadTrigLatency
  have hsame := h Itkpixv2GlobalCfg.globalCfg.init "TruncTimeoutConf" "ReadTrigLatency" 1
    (by rw [GlobalCfg.Named, hwritten]; rfl) (by rw [GlobalCfg.Named, hother]; rfl) (by decide)
  rw [GlobalCfg.Undisturbed, GlobalCfg.setValue_of_find hwritten,
    GlobalCfg.getValue_of_find hother, GlobalCfg.getValue_of_find hother] at hsame
  revert hsame
  decide +kernel

/-- The line of `TruncTimeoutConf` overwrites the default of `ReadTrigLatency`. -/
example : Itkpixv2GlobalCfg.ReadTrigLatency.read Itkpixv2GlobalCfg.globalCfg.init = 0 := by
  decide +kernel

end Yarr.Rd53
