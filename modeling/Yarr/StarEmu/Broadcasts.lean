import Yarr.Core.Lockstep
import Yarr.Star.ChipIDs
import Yarr.Star.StarMaskLoop
import Yarr.StarEmu.StarChipsetEmu

/-!
# Writes to all ABCs

A write to all chips changes one register of each ABC that is found by its ID.
-/

namespace Yarr.StarEmu

open Yarr.Star

/-- A register that all ABCs have and that can be written. -/
def Writable (addr : Nat) : Prop :=
  addr < 256 ∧ abcReadOnly addr = false ∧ ∀ version_1, addr ∈ abcAddresses version_1

namespace StarChipsetEmu

variable (s : StarChipsetEmu)

theorem writeRegister_found {addr chipID : Nat} {it : Fin MaxABCsPerHCC × AbcCfg}
    (haddr : Writable addr) (hfind : s.m_starCfg.findABC chipID = some it) (data : UInt32) :
    s.writeRegister data addr true chipID = .ok { s with
      m_starCfg := s.m_starCfg.replaceABC it.1 (it.2.written addr data) } := by
  have hset : s.m_starCfg.setABCRegisterByID addr data chipID =
      .ok (s.m_starCfg.replaceABC it.1 (it.2.written addr data)) := by
    unfold StarCfg.setABCRegisterByID
    rw [hfind]
    show (it.2.setRegisterValue addr data).map _ = _
    rw [it.2.setRegisterValue_eq (haddr.2.2 _)]
    rfl
  unfold writeRegister
  rw [if_pos rfl, haddr.2.1, hset]
  rfl

/-- The chips of `t` are those of `s` with registers written. -/
def After (s t : StarChipsetEmu) (writes : List (Nat × UInt32)) : Prop :=
  ∀ chipID, t.m_starCfg.findABC chipID = (s.m_starCfg.findABC chipID).map fun it =>
    (it.1, it.2.writtenAll writes)

variable {s}

theorem foldlM_writeRegister {addr : Nat} (haddr : Writable addr) (data : UInt32) (ids : List Nat)
    (hids : ∀ chipID ∈ ids, (s.m_starCfg.findABC chipID).isSome = true) :
    ∃ t, ids.foldlM (fun s abcID => s.writeRegister data addr true abcID) s = .ok t ∧
      ∀ chipID, t.m_starCfg.findABC chipID = (s.m_starCfg.findABC chipID).map fun it =>
        if chipID ∈ ids then (it.1, it.2.written addr data) else it := by
  induction ids generalizing s with
  | nil => exact ⟨s, rfl, fun chipID => by simp⟩
  | cons chipID ids ih =>
      rcases Option.isSome_iff_exists.mp (hids chipID List.mem_cons_self) with ⟨it, hfind⟩
      have hrun := s.writeRegister_found haddr hfind data
      have hid : (it.2.written addr data).m_abcID = it.2.m_abcID := rfl
      have hreplaced := s.m_starCfg.findABC_replaceABC hfind hid
      have hids' : ∀ chipID' ∈ ids, ((s.m_starCfg.replaceABC it.1
          (it.2.written addr data)).findABC chipID').isSome = true := by
        intro chipID' hmem
        rw [hreplaced]
        split
        · rfl
        · exact hids chipID' (List.mem_cons_of_mem _ hmem)
      rcases ih (s := { s with
        m_starCfg := s.m_starCfg.replaceABC it.1 (it.2.written addr data) }) hids' with
        ⟨t, ht, hfound⟩
      have hboth : (chipID :: ids).foldlM (fun s abcID => s.writeRegister data addr true abcID) s =
          .ok t := by
        rw [List.foldlM_cons, hrun]
        exact ht
      apply Exists.intro t
      apply And.intro hboth
      intro chipID'
      rw [hfound, hreplaced]
      by_cases hhere : chipID' = chipID
      · subst hhere
        rw [if_pos rfl, hfind, Option.map_some, Option.map_some, if_pos List.mem_cons_self]
        split
        · have htwice : (it.2.written addr data).written addr data = it.2.written addr data := by
            unfold AbcCfg.written
            rw [Function.update_idem]
          rw [htwice]
        · rfl
      · have hmem : chipID' ∈ chipID :: ids ↔ chipID' ∈ ids := by
          rw [List.mem_cons, or_iff_right hhere]
        rw [if_neg hhere]
        simp only [hmem]

/-- A write to all ABCs of all HCCs. -/
def broadcast (w : Nat × UInt32) : List LCB.Frame := StarCmd.write_abc_register w.1 w.2 0xf 0xf

theorem doFrames_broadcast {w : Nat × UInt32} (hw : Writable w.1) :
    ∃ t, s.doFrames (broadcast w) = .ok t ∧ s.After t [w] := by
  have hanswers : s.answers {
      hccID := 15
      abcID := 15
      address := ⟨w.1, hw.1⟩
      hccNotAbc := false
      access := .write w.2 } = true := by
    unfold answers
    exact Bool.or_eq_true_iff.mpr (Or.inr rfl)
  have hids : ∀ chipID ∈ s.abcIDs, (s.m_starCfg.findABC chipID).isSome = true := by
    intro chipID hmem
    rcases List.mem_map.mp hmem with ⟨it, hit, hid⟩
    unfold StarCfg.findABC
    rw [List.find?_isSome]
    exact ⟨it, hit, beq_iff_eq.mpr hid⟩
  rcases foldlM_writeRegister (s := { s with
    m_ignoreCmd := false
    m_isForABC := true
    m_reg_cmd_buffer := [] }) hw w.2 s.abcIDs hids with ⟨t, ht, hfound⟩
  have hrun : s.doFrames (broadcast w) = .ok t := (doFrames_perform s _ hanswers).trans ht
  apply Exists.intro t
  apply And.intro hrun
  intro chipID
  rw [hfound]
  cases hfind : s.m_starCfg.findABC chipID with
  | none => rfl
  | some it =>
      have hmem : chipID ∈ s.abcIDs := List.mem_map.mpr
        ⟨it, List.mem_of_find?_eq_some hfind, s.m_starCfg.findABC_id hfind⟩
      rw [Option.map_some, Option.map_some, if_pos hmem]
      rfl

theorem doFrames_broadcasts {writes : List (Nat × UInt32)} (hw : ∀ w ∈ writes, Writable w.1) :
    ∃ t, (writes.map broadcast).foldlM doFrames s = .ok t ∧ s.After t writes := by
  induction writes generalizing s with
  | nil => exact ⟨s, rfl, fun chipID => Option.map_id'.symm⟩
  | cons w writes ih =>
      rcases doFrames_broadcast (s := s) (hw w List.mem_cons_self) with ⟨s', hs', hafter⟩
      rcases ih (s := s') fun w' hw' => hw w' (List.mem_cons_of_mem w hw') with ⟨t, ht, hrest⟩
      have hrun : ((w :: writes).map broadcast).foldlM doFrames s = .ok t := by
        rw [List.map_cons, List.foldlM_cons, hs']
        exact ht
      apply Exists.intro t
      apply And.intro hrun
      intro chipID
      rw [hrest, hafter, Option.map_map]
      rfl

end StarChipsetEmu

end Yarr.StarEmu

/-!
## Commands to absent chips

The HCCs on one line all hear the same frames. A command to an HCC that is not
there has no effect. An ABC that is not there is looked up all the same, except
where a write is turned down for its register.
-/

namespace Yarr.StarEmu

open Yarr.Star

variable (chipEmus : List StarChipsetEmu) (c : Command)

/-- `StarEmu::doRegReadWrite`, of the chipsets on one line. -/
def doRegReadWrite (frame : LCB.Frame) : Except Failure (List StarChipsetEmu) :=
  chipEmus.mapM fun emu => emu.doRegReadWrite frame

def doFrames (frames : List LCB.Frame) : Except Failure (List StarChipsetEmu) :=
  frames.foldlM doRegReadWrite chipEmus

theorem doFrames_ok_iff (frames : List LCB.Frame) (chipEmus' : List StarChipsetEmu) :
    doFrames chipEmus frames = .ok chipEmus' ↔
      List.Forall₂ (fun s t => s.doFrames frames = .ok t) chipEmus chipEmus' :=
  Lockstep.foldlM_mapM_ok_iff StarChipsetEmu.doRegReadWrite frames chipEmus chipEmus'

namespace StarChipsetEmu

variable (s : StarChipsetEmu) (c : Command)

/-- The chip of a command is not here, and the command is not one for all chips. -/
def Absent : Prop :=
  s.answers c = false ∨
    c.hccNotAbc = false ∧ c.abcID.val ≠ 0xf ∧ s.m_starCfg.findABC c.abcID.val = none

/-- Nothing that a command is for has changed. -/
def SameRegisters (t : StarChipsetEmu) : Prop :=
  t.m_starCfg = s.m_starCfg ∧ t.m_rxbuffer = s.m_rxbuffer

/-- No ABC is looked up. -/
def Spared : Prop :=
  s.answers c = false ∨ c.readNotWrite = false ∧ abcReadOnly c.address.val = true

variable {s c}

theorem readRegister_absent {abcID : Nat} (hnone : s.m_starCfg.findABC abcID = none)
    (address : Fin 256) : s.readRegister address true abcID = .error .endIterator := by
  have hchannel : s.m_starCfg.hccChannelForABCchipID abcID = .error .endIterator := by
    unfold StarCfg.hccChannelForABCchipID
    rw [hnone]
  unfold readRegister
  rw [if_pos rfl, hchannel]
  rfl

theorem writeRegister_absent {abcID : Nat} (hnone : s.m_starCfg.findABC abcID = none)
    (data : UInt32) (address : Nat) : s.writeRegister data address true abcID =
      if abcReadOnly address then .ok s else .error .endIterator := by
  have hset : s.m_starCfg.setABCRegisterByID address data abcID = .error .endIterator := by
    unfold StarCfg.setABCRegisterByID
    rw [hnone]
  unfold writeRegister
  rw [if_pos rfl, hset]
  rfl

theorem perform_absent (habc : s.m_isForABC = true) (hone : c.abcID.val ≠ 0xf)
    (hnone : s.m_starCfg.findABC c.abcID.val = none) :
    s.perform c =
      if c.readNotWrite = false ∧ abcReadOnly c.address.val = true then .ok s
      else .error .endIterator := by
  have hall : ¬(c.abcID.val = 0xf ∧ s.m_isForABC = true) := fun h => hone h.1
  unfold perform
  cases haccess : c.access with
  | readShort | read value =>
      have hread : c.readNotWrite = true := by
        simp only [Command.readNotWrite, haccess]
      dsimp only
      rw [if_neg hall, habc, readRegister_absent hnone, if_neg fun h => by simp [hread] at h]
  | write value =>
      have hwrite : c.readNotWrite = false := by
        simp only [Command.readNotWrite, haccess]
      dsimp only
      rw [if_neg hall, habc, writeRegister_absent hnone]
      simp only [hwrite, true_and]

theorem doFrames_absent (habsent : s.Absent c) :
    (∃ t, s.doFrames c.frames = .ok t ∧ s.SameRegisters t) ↔ s.Spared c := by
  cases hanswers : s.answers c with
  | false => exact ⟨fun _ => Or.inl hanswers, fun _ => ⟨_, s.doFrames_other c hanswers, rfl, rfl⟩⟩
  | true =>
      rcases habsent with hother | ⟨habc, hone, hnone⟩
      · rw [hanswers] at hother
        cases hother
      · have hspared : s.Spared c ↔ c.readNotWrite = false ∧ abcReadOnly c.address.val = true := by
          unfold Spared
          rw [hanswers]
          exact ⟨fun h => h.resolve_left (by decide), Or.inr⟩
        have hforABC : (!c.hccNotAbc) = true := by
          rw [habc]
          rfl
        have hrun := (doFrames_perform s c hanswers).trans
          (perform_absent (by exact hforABC) hone (by exact hnone))
        rw [hspared, hrun]
        split
        · rename_i hturned
          exact ⟨fun _ => hturned, fun _ => ⟨_, rfl, rfl, rfl⟩⟩
        · rename_i hlooked
          exact ⟨fun ⟨_, h, _⟩ => (nomatch h), fun h => absurd h hlooked⟩

end StarChipsetEmu

/-- A command that ends, with all registers as before and nothing sent. -/
def NoEffect : Prop :=
  ∃ chipEmus', doFrames chipEmus c.frames = .ok chipEmus' ∧
    List.Forall₂ StarChipsetEmu.SameRegisters chipEmus chipEmus'

theorem noEffect_iff : NoEffect chipEmus c ↔
    ∀ s ∈ chipEmus, ∃ t, s.doFrames c.frames = .ok t ∧ s.SameRegisters t := by
  rw [← Lockstep.exists_forall₂_iff]
  unfold NoEffect
  constructor
  · rintro ⟨chipEmus', hrun, hsame⟩
    exact ⟨chipEmus', Lockstep.forall₂_and.mpr ⟨(doFrames_ok_iff chipEmus _ _).mp hrun, hsame⟩⟩
  · rintro ⟨chipEmus', h⟩
    rcases Lockstep.forall₂_and.mp h with ⟨hrun, hsame⟩
    exact ⟨chipEmus', (doFrames_ok_iff chipEmus _ _).mpr hrun, hsame⟩

/-- A command to a chip that is not there has no effect if no ABC is looked up for it. -/
theorem absent_no_effect_iff (habsent : ∀ s ∈ chipEmus, s.Absent c) :
    NoEffect chipEmus c ↔ ∀ s ∈ chipEmus, s.Spared c := by
  rw [noEffect_iff]
  exact forall₂_congr fun s hs => StarChipsetEmu.doFrames_absent (habsent s hs)

/-- One HCC, with one ABC. -/
def oneABC : StarChipsetEmu where
  m_ignoreCmd := false
  m_isForABC := false
  m_reg_cmd_buffer := []
  m_startHitCount := false
  m_rxbuffer := []
  m_starCfg := {
    hcc := { version_1 := false, m_hccID := 2, registers := ⟨fun _ => 0⟩ }
    m_ABCchips := [(⟨0, MaxABCsPerHCC_pos⟩, { version_1 := false, m_abcID := 3, registers := ⟨fun _ => 0⟩ })]
    sorted := by simp }

/-- The configuration of an ABC that is not there is read. -/
def readAbsentABC : Command where
  hccID := 2
  abcID := 5
  address := 0x20
  hccNotAbc := false
  access := .readShort

theorem readAbsentABC_absent : ∀ s ∈ [oneABC], s.Absent readAbsentABC := by
  intro s hs
  cases List.mem_singleton.mp hs
  exact Or.inr ⟨rfl, by decide, rfl⟩

theorem absent_no_effect_iff_read :
    NoEffect [oneABC] readAbsentABC ↔ ∀ s ∈ [oneABC], s.Spared readAbsentABC :=
  absent_no_effect_iff [oneABC] readAbsentABC readAbsentABC_absent

theorem absent_looked_up : ¬∀ (chipEmus : List StarChipsetEmu) (c : Command),
    (∀ s ∈ chipEmus, s.Absent c) → NoEffect chipEmus c := by
  intro h
  rcases h [oneABC] readAbsentABC readAbsentABC_absent with ⟨chipEmus', hrun, _⟩
  have hfail : doFrames [oneABC] readAbsentABC.frames = .error .endIterator := rfl
  rw [hfail] at hrun
  cases hrun

end Yarr.StarEmu
