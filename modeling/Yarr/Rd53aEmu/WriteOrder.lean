import Yarr.Rd53aEmu.WritePool

/-!
# What a schedule can change

The writes take effect in their order, whatever the schedule is. A read returns
the latest write exactly if no write to its register is still to take effect.
-/

namespace Yarr.Rd53aEmu

open Rd53 Rd53aGlobalCfg Rd53aPixelCfg

/-! ## Latest writes -/

theorem latest_append (address : UInt32) (ws vs : List RegWrite) :
    latest address (ws ++ vs) = (latest address vs).or (latest address ws) := by
  unfold latest
  rw [List.reverse_append, List.find?_append, Option.map_or]

theorem latest_singleton (address : UInt32) (w : RegWrite) :
    latest address [w] = if w.address = address then some w.data else none := by
  by_cases h : w.address = address
  · simp [latest, h]
  · simp [latest, h]

theorem toNat_address_fin (k : Fin numRegs) : (UInt32.ofNat k).toNat = k := by
  have hk : (k : Nat) < 138 := k.isLt
  apply UInt32.toNat_ofNat_of_lt'
  show (k : Nat) < 4294967296
  omega

theorem address_eq_zero (k : Fin numRegs) : UInt32.ofNat k = 0 ↔ k = 0 := by
  constructor
  · intro h
    have hval := congrArg UInt32.toNat h
    rw [toNat_address_fin] at hval
    exact Fin.ext hval
  · intro h
    rw [h]
    rfl

theorem address_inj {k j : Fin numRegs} : UInt32.ofNat k = UInt32.ofNat j ↔ k = j := by
  constructor
  · intro h
    have hval := congrArg UInt32.toNat h
    rw [toNat_address_fin, toNat_address_fin] at hval
    exact Fin.ext hval
  · intro h
    rw [h]

/-! ## The words after some writes -/

/-- A write changes one word, and none if it goes to the portal. -/
theorem getElem_exec {emu emu' : FeCfg} {w : RegWrite} (h : w.exec emu = some emu')
    (k : Fin numRegs) :
    emu'.m_cfg[k] = if w.address = UInt32.ofNat k ∧ k ≠ 0 then w.data else emu.m_cfg[k] := by
  unfold RegWrite.exec writeRegAsync at h
  by_cases hportal : w.address = 0
  · have hkeep : emu'.m_cfg = emu.m_cfg := by
      rw [if_pos hportal] at h
      dsimp only at h
      split at h
      · rw [Option.some.inj h]
      · split at h
        · rw [← Option.some.inj h]
        · cases h
    have hnot : ¬ (w.address = UInt32.ofNat k ∧ k ≠ 0) := by
      intro hk
      rw [hportal] at hk
      exact hk.2 ((address_eq_zero k).mp hk.1.symm)
    rw [hkeep, if_neg hnot]
  · rw [if_neg hportal] at h
    by_cases hpresent : w.address.toNat < numRegs
    · rw [dif_pos hpresent] at h
      have hw : w.address = UInt32.ofNat (⟨w.address.toNat, hpresent⟩ : Fin numRegs) :=
        UInt32.toNat_inj.mp (toNat_address_fin ⟨w.address.toNat, hpresent⟩).symm
      have hset := RegDefault.getElem_set emu.m_cfg ⟨w.address.toNat, hpresent⟩ k w.data
      rw [← Option.some.inj h]
      refine hset.trans ?_
      by_cases hk : k = ⟨w.address.toNat, hpresent⟩
      · have hne : k ≠ 0 := by
          intro hzero
          rw [← hk, hzero] at hw
          exact hportal hw
        rw [if_pos hk, if_pos ⟨hk ▸ hw, hne⟩]
      · have hnot : ¬ (w.address = UInt32.ofNat k ∧ k ≠ 0) := by
          intro h'
          rw [hw] at h'
          exact hk (address_inj.mp h'.1).symm
        rw [if_neg hk, if_neg hnot]
    · rw [dif_neg hpresent] at h
      have hnot : ¬ (w.address = UInt32.ofNat k ∧ k ≠ 0) := by
        intro h'
        apply hpresent
        rw [h'.1, toNat_address_fin]
        exact k.isLt
      rw [← Option.some.inj h, if_neg hnot]

theorem wordAfter_concat (init : FeCfg) (k : Fin numRegs) (ws : List RegWrite) (w : RegWrite) :
    wordAfter init k (ws ++ [w]) =
      if w.address = UInt32.ofNat k then w.data else wordAfter init k ws := by
  unfold wordAfter
  rw [latest_append, latest_singleton]
  by_cases h : w.address = UInt32.ofNat k
  · simp [h]
  · simp [h]

theorem getElem_executed {init emu : FeCfg} {ws : List RegWrite}
    (h : ws.foldlM RegWrite.exec init = some emu) (k : Fin numRegs) :
    emu.m_cfg[k] = if k = 0 then init.m_cfg[k] else wordAfter init k ws := by
  induction ws using List.reverseRecOn generalizing emu with
  | nil =>
      rw [← Option.some.inj h]
      exact (ite_self _).symm
  | append_singleton ws w ih =>
      rcases Invariant.foldlM_concat.mp h with ⟨emu', hrun, hw⟩
      rw [getElem_exec hw, ih hrun, wordAfter_concat]
      by_cases hk : k = 0
      · simp [hk]
      · simp [hk]

/-! ## What every run keeps -/

/-- The part that no schedule can break. -/
structure Run.Kept (init : FeCfg) (commands : List EmuCommand) (s : Run) : Prop where
  served : Pool.Served RegWrite.exec init s.issued s.executed s.pool
  issued : s.issued ++ s.commands.filterMap EmuCommand.write =
    commands.filterMap EmuCommand.write
  portals : ∀ p ∈ s.portals, p.Right init

variable {init : FeCfg} {commands : List EmuCommand} {s s' : Run}

theorem Run.start_kept : (Run.start init commands).Kept init commands where
  served := Pool.served_start
  issued := rfl
  portals := fun _ hp => absurd hp List.not_mem_nil

theorem step_cases {a : Action} (h : s.step a = some s') :
    (∃ address data cs, a = .command ∧ s.commands = .wrReg address data :: cs ∧
      s' = { s with
        commands := cs
        pool := s.pool.enqueue ⟨data, address⟩
        issued := s.issued ++ [⟨data, address⟩] }) ∨
    (∃ address cs, a = .command ∧ s.commands = .rdReg address :: cs ∧
      s' = Run.readReg { s with commands := cs } address) ∨
    (∃ c cs, a = .command ∧ s.commands = c :: cs ∧ c.write = none ∧
      (∀ address, c ≠ .rdReg address) ∧ s' = { s with commands := cs }) ∨
    (a = .take ∧ ∃ pool, s.pool.take = some pool ∧ s' = { s with pool := pool }) ∨
    (a = .finish ∧ s.finish = some s') := by
  unfold Run.step at h
  by_cases halive : s.alive = true
  · rw [if_pos halive] at h
    cases a with
    | take =>
        rcases Option.map_eq_some_iff.mp h with ⟨pool, hpool, rfl⟩
        exact Or.inr (Or.inr (Or.inr (Or.inl ⟨rfl, pool, hpool, rfl⟩)))
    | finish => exact Or.inr (Or.inr (Or.inr (Or.inr ⟨rfl, h⟩)))
    | command =>
        cases hcommands : s.commands with
        | nil =>
            rw [hcommands] at h
            cases h
        | cons c cs =>
            rw [hcommands] at h
            have hwait : ∀ c, c.write = none → (∀ address, c ≠ .rdReg address) →
                (if c.waits = true ∧ s.pool.taskSize ≠ 0 then none
                  else some { s with commands := cs }) = some s' →
                (∃ c' cs', Action.command = .command ∧ c :: cs = c' :: cs' ∧ c'.write = none ∧
                  (∀ address, c' ≠ .rdReg address) ∧ s' = { s with commands := cs' }) := by
              intro c hnone hread hif
              split at hif
              · cases hif
              · exact ⟨c, cs, rfl, rfl, hnone, hread, (Option.some.inj hif).symm⟩
            cases c with
            | wrReg address data => exact Or.inl ⟨address, data, cs, rfl, rfl, (Option.some.inj h).symm⟩
            | rdReg address =>
                exact Or.inr (Or.inl ⟨address, cs, rfl, rfl, (Option.some.inj h).symm⟩)
            | _ =>
                exact Or.inr (Or.inr (Or.inl (hwait _ rfl (fun _ heq => nomatch heq) h)))
  · rw [if_neg halive] at h
    cases h

theorem readReg_keeps (s : Run) (address : UInt32) :
    (s.readReg address).pool = s.pool ∧ (s.readReg address).commands = s.commands ∧
      (s.readReg address).issued = s.issued ∧ (s.readReg address).executed = s.executed ∧
        (s.readReg address).portals = s.portals := by
  unfold Run.readReg
  split
  · exact ⟨rfl, rfl, rfl, rfl, rfl⟩
  · exact ⟨rfl, rfl, rfl, rfl, rfl⟩

theorem portalOf_right {emu : FeCfg} {executed : List RegWrite}
    (h : executed.foldlM RegWrite.exec init = some emu) (w : RegWrite) :
    ∀ p ∈ Run.portalOf emu executed w, p.Right init := by
  intro p hp
  unfold Run.portalOf at hp
  split at hp
  · have hp' := List.mem_singleton.mp hp
    have hcol := getElem_executed h PixRegionCol.m_cfg
    have hrow := getElem_executed h PixRegionRow.m_cfg
    rw [if_neg (by decide)] at hcol hrow
    rw [hp']
    unfold PortalWrite.Right RegDefault.read
    rw [hcol, hrow]
    exact ⟨rfl, rfl⟩
  · exact absurd hp List.not_mem_nil

theorem finish_spec (h : s.Kept init commands) (hs' : s.finish = some s') :
    s'.Kept init commands ∧ s'.reads = s.reads := by
  unfold Run.finish at hs'
  rcases Option.map_eq_some_iff.mp hs' with ⟨pool, hpool, rfl⟩
  rcases h.served.finish hpool with ⟨w, hw, -, hserved⟩
  constructor
  · constructor
    · simpa [hw] using hserved
    · exact h.issued
    · intro p hp
      rcases List.mem_append.mp hp with hold | hnew
      · exact h.portals p hold
      · rw [hw] at hnew
        simp only [Option.toList_some, List.flatMap_singleton] at hnew
        exact portalOf_right h.served.state_eq w p hnew
  · rfl

theorem step_kept {a : Action} (h : s.Kept init commands) (hstep : s.step a = some s') :
    s'.Kept init commands := by
  rcases step_cases hstep with ⟨address, data, cs, -, hcs, rfl⟩ | ⟨address, cs, -, hcs, rfl⟩ |
    ⟨c, cs, -, hcs, hnone, -, rfl⟩ | ⟨-, pool, hpool, rfl⟩ | ⟨-, hfinish⟩
  · constructor
    · exact h.served.enqueue _
    · have hissued := h.issued
      rw [hcs] at hissued
      simpa [EmuCommand.write, List.filterMap_cons] using hissued
    · exact h.portals
  · rcases readReg_keeps { s with commands := cs } address with ⟨hp, hc, hi, he, ho⟩
    constructor
    · rw [hp, hi, he]
      exact h.served
    · have hissued := h.issued
      rw [hcs] at hissued
      rw [hi, hc]
      simpa [EmuCommand.write, List.filterMap_cons] using hissued
    · rw [ho]
      exact h.portals
  · constructor
    · exact h.served
    · have hissued := h.issued
      rw [hcs] at hissued
      simpa [hnone, List.filterMap_cons] using hissued
    · exact h.portals
  · exact ⟨h.served.take hpool, h.issued, h.portals⟩
  · exact (finish_spec h hfinish).1

/-! ## The reads -/

/-- A read is right exactly if its register is settled. -/
theorem readReg_right_iff (h : Pool.Served RegWrite.exec init s.issued s.executed s.pool)
    (hreads : ∀ r ∈ s.reads, r.Right init) (address : UInt32) :
    (∀ r ∈ (s.readReg address).reads, r.Right init) ↔ Settled s address := by
  unfold Run.readReg
  by_cases hpresent : address.toNat < numRegs
  · rw [dif_pos hpresent]
    have haddress : address = UInt32.ofNat (⟨address.toNat, hpresent⟩ : Fin numRegs) :=
      UInt32.toNat_inj.mp (toNat_address_fin ⟨address.toNat, hpresent⟩).symm
    have hword := getElem_executed h.state_eq ⟨address.toNat, hpresent⟩
    have hzero : (⟨address.toNat, hpresent⟩ : Fin numRegs) = 0 ↔ address = 0 := by
      rw [← address_eq_zero, ← haddress]
    have hright : (ReadBack.mk address (some s.pool.state.m_cfg[address.toNat]) s.issued).Right init ↔
        s.pool.state.m_cfg[address.toNat] =
          wordAfter init ⟨address.toNat, hpresent⟩ s.issued := by
      constructor
      · rintro ⟨k, hk, hvalue⟩
        have hk' : k = ⟨address.toNat, hpresent⟩ := address_inj.mp (hk.symm.trans haddress)
        rw [hk'] at hvalue
        exact Option.some.inj hvalue
      · intro hvalue
        exact ⟨_, haddress, congrArg some hvalue⟩
    have hsettled : s.pool.state.m_cfg[address.toNat] =
          wordAfter init ⟨address.toNat, hpresent⟩ s.issued ↔ Settled s address := by
      unfold wordAfter
      rw [← haddress]
      by_cases hz : address = 0
      · rw [if_pos (hzero.mpr hz)] at hword
        constructor
        · intro heq
          refine ⟨hpresent, ?_⟩
          intro data hdata
          rw [if_pos hz] at hdata
          rw [hdata] at heq
          exact heq
        · intro hs
          cases hlatest : latest address s.issued with
          | none => exact hword
          | some data => exact hs.same data (by rw [if_pos hz, hlatest])
      · rw [if_neg (fun hk => hz (hzero.mp hk)), wordAfter, ← haddress] at hword
        rw [← h.issued_eq, latest_append]
        constructor
        · intro heq
          refine ⟨hpresent, ?_⟩
          intro data hdata
          rw [if_neg hz] at hdata
          rw [hdata] at heq
          exact heq
        · intro hs
          cases hlatest : latest address s.pool.pending with
          | none => exact hword
          | some data => exact hs.same data (by rw [if_neg hz, hlatest])
    rw [← hsettled, ← hright]
    constructor
    · intro hall
      exact hall _ (List.mem_append_right _ List.mem_cons_self)
    · intro hlast r hr
      rcases List.mem_append.mp hr with hold | hnew
      · exact hreads r hold
      · rw [List.mem_singleton.mp hnew]
        exact hlast
  · rw [dif_neg hpresent]
    constructor
    · intro hall
      rcases hall _ (List.mem_append_right _ List.mem_cons_self) with ⟨k, -, hvalue⟩
      cases hvalue
    · intro hs
      exact absurd hs.present hpresent

theorem step_reads_iff {a : Action} (h : s.Kept init commands)
    (hreads : ∀ r ∈ s.reads, r.Right init) (hstep : s.step a = some s') :
    (∀ r ∈ s'.reads, r.Right init) ↔ s.Meets a := by
  rcases step_cases hstep with ⟨address, data, cs, rfl, hcs, rfl⟩ | ⟨address, cs, rfl, hcs, rfl⟩ |
    ⟨c, cs, rfl, hcs, -, hread, rfl⟩ | ⟨rfl, pool, hpool, rfl⟩ | ⟨rfl, hfinish⟩
  · have hmeets : s.Meets .command := by
      intro address' cs' heq
      rw [hcs] at heq
      cases heq
    exact iff_of_true hreads hmeets
  · have hsettled : Settled { s with commands := cs } address ↔ Settled s address :=
      ⟨fun hs => ⟨hs.present, hs.same⟩, fun hs => ⟨hs.present, hs.same⟩⟩
    rw [readReg_right_iff (s := { s with commands := cs }) h.served hreads, hsettled]
    constructor
    · intro hs address' cs' heq
      rw [hcs] at heq
      cases heq
      exact hs
    · intro hmeets
      exact hmeets address cs hcs
  · have hmeets : s.Meets .command := by
      intro address' cs' heq
      rw [hcs] at heq
      cases heq
      exact absurd rfl (hread address')
    exact iff_of_true hreads hmeets
  · exact iff_of_true hreads trivial
  · rw [(finish_spec h hfinish).2]
    exact iff_of_true hreads trivial

/-! ## Runs -/

theorem right_iff_reads (h : s.Kept init commands) :
    s.Right init commands ↔ ∀ r ∈ s.reads, r.Right init := by
  constructor
  · exact fun hright => hright.reads
  · intro hreads
    refine ⟨hreads, h.portals, ?_⟩
    intro hdone hnothing
    have hissued := h.issued
    have hserved := h.served.issued_eq
    rw [hdone, List.filterMap_nil, List.append_nil] at hissued
    rw [hnothing, List.append_nil] at hserved
    rw [← hissued, ← hserved]
    exact h.served.state_eq

theorem run_kept {schedule : List Action} (h : schedule.foldlM Run.step (.start init commands) = some s) :
    s.Kept init commands := by
  induction schedule using List.reverseRecOn generalizing s with
  | nil =>
      rw [← Option.some.inj h]
      exact Run.start_kept
  | append_singleton schedule a ih =>
      rcases Invariant.foldlM_concat.mp h with ⟨s₁, hrun, hstep⟩
      exact step_kept (ih hrun) hstep

/--
In a run of any schedule everything is as the order of the commands asks for,
exactly if every read finds its register settled.
-/
theorem order_kept_iff (init : FeCfg) (commands : List EmuCommand) (schedule : List Action) :
    (∀ p s, p <+: schedule → p.foldlM Run.step (.start init commands) = some s →
      s.Right init commands) ↔
    ∀ p a s s', p ++ [a] <+: schedule → p.foldlM Run.step (.start init commands) = some s →
      s.step a = some s' → s.Meets a := by
  have hthroughout := @Invariant.throughout_iff_of_partial _ _
    (fun s : Run => s.Kept init commands ∧ ∀ r ∈ s.reads, r.Right init) Run.Meets Run.step
    (fun s a s' hs hstep => (and_iff_right (step_kept hs.1 hstep)).trans
      (step_reads_iff hs.1 hs.2 hstep))
    (.start init commands) ⟨Run.start_kept, fun _ hr => absurd hr List.not_mem_nil⟩ schedule
  rw [← hthroughout]
  constructor
  · intro h p s hp hrun
    exact ⟨run_kept hrun, (h p s hp hrun).reads⟩
  · intro h p s hp hrun
    exact (right_iff_reads (run_kept hrun)).mpr (h p s hp hrun).2

/-- The register is read before the worker has done anything. -/
theorem read_overtakes_write :
    ¬ ∀ (init : FeCfg) (commands : List EmuCommand) (schedule : List Action) (s : Run),
      schedule.foldlM Run.step (.start init commands) = some s → s.Right init commands := by
  intro h
  let init : FeCfg := ⟨Vector.replicate numRegs 0, fun _ => 0⟩
  have hright := (h init [.wrReg 37 64, .rdReg 37] [.command, .command] _ rfl).reads _
    List.mem_cons_self
  rcases hright with ⟨k, hk, hvalue⟩
  have hk' : k = 37 := address_inj.mp hk.symm
  rw [hk'] at hvalue
  exact absurd hvalue (by decide)

end Yarr.Rd53aEmu
