import Mathlib.Data.List.Sort
import Yarr.StarEmu.HighPriority

/-!
# Who is served with high-priority packets

Every frame serves every ABC exactly if the ABCs are on the first channels and
have different IDs.
-/

namespace Yarr.StarEmu

open Yarr.Star Attempts StarPackets

namespace HPREmu

/-! ## One frame -/

/-- What a frame does: the packet of the HCC, the turns, and the clock. -/
structure Round (frame : LCB.Frame) (s t : HPREmu) : Prop where
  ids : t.m_starCfg.chipIDs = s.m_starCfg.chipIDs
  written : ∀ ic jc : Fin MaxABCsPerHCC, ic.val < s.m_starCfg.numABCs →
    target s.m_starCfg ic = some jc → hprAt t.m_starCfg jc = some (abcHprWord frame)
  kept : ∀ jc, (∀ ic : Fin MaxABCsPerHCC, ic.val < s.m_starCfg.numABCs →
    target s.m_starCfg ic ≠ some jc) → hprAt t.m_starCfg jc = hprAt s.m_starCfg jc
  length : t.hpr_sent.length = s.hpr_sent.length
  packets : ∃ hcc, t.m_rxbuffer = s.m_rxbuffer ++ hcc ++
      ((List.finRange MaxABCsPerHCC).take s.m_starCfg.numABCs).flatMap (s.turnPackets frame) ∧
    (hcc = [] ∨ hcc = [sendPacket (hccPacket (hccHprWord frame))])
  clock : t.hpr_clkcnt = s.hpr_clkcnt + 4
  period : t.HPRPERIOD = s.HPRPERIOD

section Frame

variable {s : HPREmu} {frame : LCB.Frame}

theorem AfterHCC.turnPackets_eq {t : HPREmu} (h : AfterHCC frame s t) (ic : Fin MaxABCsPerHCC) :
    t.turnPackets frame ic = s.turnPackets frame ic := by
  unfold turnPackets due controlAt StarCfg.abcAt StarCfg.idAt StarCfg.chipIDs
  rw [h.chips, h.flags, h.clock, h.period]

theorem doHPR_ok (frame : LCB.Frame) (hlength : s.hpr_sent.length = s.m_starCfg.numABCs + 1)
    (hperiod : s.HPRPERIOD ≠ 0) : ∃ t, s.doHPR frame = .ok t ∧ Round frame s t := by
  rcases doHPR_HCC_ok frame (hlength ▸ Nat.succ_pos _) hperiod with ⟨m, hm, hhcc⟩
  have hids : m.m_starCfg.chipIDs = s.m_starCfg.chipIDs := by
    unfold StarCfg.chipIDs
    rw [hhcc.chips]
  have hnum := StarCfg.numABCs_congr hids
  have hlength' : m.hpr_sent.length = m.m_starCfg.numABCs + 1 := by
    rw [hhcc.length, hlength, hnum]
  rcases doHPR_ABCs_ok frame hlength' (hhcc.period ▸ hperiod) with ⟨t, ht, hturns⟩
  rcases hhcc.packets with ⟨hcc, hpackets, hcases⟩
  refine ⟨{ t with hpr_clkcnt := t.hpr_clkcnt + 4 }, ?_, {
    ids := hturns.ids.trans hids
    written := ?_
    kept := ?_
    length := hturns.length.trans hhcc.length
    packets := ⟨hcc, ?_, hcases⟩
    clock := congrArg (· + 4) (hturns.clock.trans hhcc.clock)
    period := hturns.period.trans hhcc.period }⟩
  · unfold doHPR
    rw [hm, ok_bind, ht]
    rfl
  · intro ic jc hic htarget
    rw [← hnum] at hic
    rw [← target_congr hids] at htarget
    exact hturns.written ic (mem_take_channels.mpr hic) jc htarget
  · intro jc hnot
    have hsame : hprAt t.m_starCfg jc = hprAt m.m_starCfg jc := by
      apply hturns.kept jc
      intro ic hic
      rw [target_congr hids]
      exact hnot ic (hnum ▸ mem_take_channels.mp hic)
    apply hsame.trans
    unfold hprAt StarCfg.abcAt
    rw [hhcc.chips]
  · show t.m_rxbuffer = _
    rw [hturns.packets, hpackets, hnum]
    exact congrArg _ (List.flatMap_congr fun ic _ => hhcc.turnPackets_eq ic)

end Frame

/-! ## Service -/

/-- Every ABC has the frame in its HPR register. An ABC whose periodic packets are not stopped is
due when the period is over, and each ABC that is due sends one packet, from its own channel and
with its own ID. -/
structure Served (frame : LCB.Frame) (s t : HPREmu) : Prop where
  updated : ∀ it ∈ t.m_starCfg.m_ABCchips,
    it.2.registers.value ABCStarRegister.HPR = abcHprWord frame
  periodic : ∀ it ∈ s.m_starCfg.m_ABCchips, it.2.fieldValue .STOPHPR = 0 →
    s.hpr_clkcnt % s.HPRPERIOD = 0 → s.due it.1 = true
  packets : ∃ hcc, t.m_rxbuffer = s.m_rxbuffer ++ hcc ++
      (s.m_starCfg.m_ABCchips.filter fun it => s.due it.1).map
        (fun it => sendPacket (abcPacket it.1 (abcHprWord frame) it.2.m_abcID)) ∧
    (hcc = [] ∨ hcc = [sendPacket (hccPacket (hccHprWord frame))])

/-- The ABCs are on the first channels, and have different IDs. -/
structure Serveable (cfg : StarCfg) : Prop where
  gapless : cfg.m_ABCchips.map (fun it => it.1.val) = List.range cfg.numABCs
  distinct : (cfg.m_ABCchips.map fun it => it.2.m_abcID).Nodup

theorem due_of_periodic (s : HPREmu) {it : Fin MaxABCsPerHCC × AbcCfg}
    (hit : it ∈ s.m_starCfg.m_ABCchips) (hstop : it.2.fieldValue .STOPHPR = 0)
    (hclock : s.hpr_clkcnt % s.HPRPERIOD = 0) : s.due it.1 = true := by
  unfold due controlAt
  rw [s.m_starCfg.abcAt_of_mem hit, Option.map_some]
  have hperiodic : (HPRControl.ofABC it.2).hpr_periodic s.hpr_clkcnt s.HPRPERIOD = true := by
    unfold HPRControl.hpr_periodic HPRControl.ofABC
    rw [hstop, hclock]
    rfl
  show HPRControl.sends _ _ _ _ = true
  unfold HPRControl.sends
  rw [hperiodic, Bool.or_true, Bool.true_or]

section Chips

variable {cfg : StarCfg}

theorem target_of_mem {it : Fin MaxABCsPerHCC × AbcCfg} (hit : it ∈ cfg.m_ABCchips) :
    target cfg it.1 = cfg.channelOf it.2.m_abcID := by
  unfold target
  rw [cfg.idAt_eq, cfg.abcAt_of_mem hit]
  rfl

theorem target_self (hdistinct : (cfg.m_ABCchips.map fun it => it.2.m_abcID).Nodup)
    {it : Fin MaxABCsPerHCC × AbcCfg} (hit : it ∈ cfg.m_ABCchips) :
    target cfg it.1 = some it.1 := by
  rcases cfg.findABC_of_mem hit with ⟨it', hfind⟩
  have hid := cfg.findABC_id hfind
  have hsame : it' = it :=
    List.inj_on_of_nodup_map hdistinct (List.mem_of_find?_eq_some hfind) hit hid
  rw [target_of_mem hit, cfg.channelOf_eq, hfind, hsame, Option.map_some]

theorem Serveable.channels (h : Serveable cfg) :
    (List.finRange MaxABCsPerHCC).take cfg.numABCs = cfg.m_ABCchips.map Prod.fst := by
  apply List.map_injective_iff.mpr Fin.val_injective
  rw [List.map_take, List.map_map]
  have hrange : (List.finRange MaxABCsPerHCC).map Fin.val = List.range MaxABCsPerHCC :=
    List.map_coe_finRange_eq_range
  rw [hrange, List.take_range, Nat.min_eq_left cfg.numABCs_le]
  exact h.gapless.symm

theorem Serveable.of_targets
    (h : ∀ it ∈ cfg.m_ABCchips, ∃ ic : Fin MaxABCsPerHCC, ic.val < cfg.numABCs ∧
      target cfg ic = some it.1) : Serveable cfg := by
  have hown : ∀ it ∈ cfg.m_ABCchips, cfg.channelOf it.2.m_abcID = some it.1 := by
    intro it hit
    rcases h it hit with ⟨ic, _, htarget⟩
    rcases Option.bind_eq_some_iff.mp htarget with ⟨id, _, hchannel⟩
    rcases Option.map_eq_some_iff.mp ((cfg.channelOf_eq id).symm.trans hchannel) with
      ⟨it', hfind, hfst⟩
    have hsame := cfg.eq_of_channel (List.mem_of_find?_eq_some hfind) hit hfst
    rw [← hsame, cfg.findABC_id hfind, hchannel, hsame]
  have hchips : cfg.m_ABCchips.Nodup := by
    apply List.Nodup.of_map Prod.fst
    exact List.Pairwise.imp (fun hlt => ne_of_lt hlt) cfg.sorted
  have hdistinct : (cfg.m_ABCchips.map fun it => it.2.m_abcID).Nodup := by
    apply List.Nodup.map_on _ hchips
    intro it hit it' hit' hid
    have hchannel : some it.1 = some it'.1 := by rw [← hown it hit, hid, hown it' hit']
    exact cfg.eq_of_channel hit hit' (Option.some_inj.mp hchannel)
  have hlow : ∀ it ∈ cfg.m_ABCchips, it.1.val < cfg.numABCs := by
    intro it hit
    rcases h it hit with ⟨ic, hic, htarget⟩
    rcases Option.bind_eq_some_iff.mp htarget with ⟨id, hid, _⟩
    rw [cfg.idAt_eq] at hid
    rcases Option.map_eq_some_iff.mp hid with ⟨abc, hat, _⟩
    have hself := target_self hdistinct (cfg.mem_of_abcAt hat)
    rw [← Option.some_inj.mp (hself.symm.trans htarget)]
    exact hic
  have hsorted : (cfg.m_ABCchips.map fun it => it.1.val).Pairwise (· < ·) := by
    have hpairs : cfg.m_ABCchips.Pairwise fun it it' => it.1 < it'.1 :=
      List.pairwise_map.mp cfg.sorted
    exact List.pairwise_map.mpr hpairs
  have hsubset : (cfg.m_ABCchips.map fun it => it.1.val) ⊆ List.range cfg.numABCs := by
    intro x hx
    rcases List.mem_map.mp hx with ⟨it, hit, rfl⟩
    exact List.mem_range.mpr (hlow it hit)
  have hperm : (cfg.m_ABCchips.map fun it => it.1.val).Perm (List.range cfg.numABCs) := by
    apply (List.subperm_of_subset (hsorted.imp Nat.ne_of_lt) hsubset).perm_of_length_le
    rw [List.length_range, List.length_map]
    exact Nat.le_refl _
  exact ⟨hperm.eq_of_pairwise (fun _ _ _ _ hlt hgt => absurd hlt (Nat.lt_asymm hgt)) hsorted
    List.pairwise_lt_range, hdistinct⟩

end Chips

theorem Serveable.congr {cfg' : StarCfg} (h : Serveable cfg) (hids : cfg'.chipIDs = cfg.chipIDs) :
    Serveable cfg' where
  gapless := by
    have hchannels := congrArg (List.map fun it => it.1.val) hids
    unfold StarCfg.chipIDs at hchannels
    rw [List.map_map, List.map_map] at hchannels
    exact hchannels.trans (h.gapless.trans (congrArg List.range (StarCfg.numABCs_congr hids).symm))
  distinct := by
    have hchips := congrArg (List.map Prod.snd) hids
    unfold StarCfg.chipIDs at hchips
    rw [List.map_map, List.map_map] at hchips
    exact hchips ▸ h.distinct

section Service

variable {s t : HPREmu} {frame : LCB.Frame}

theorem turnPackets_of_mem {it : Fin MaxABCsPerHCC × AbcCfg} (hit : it ∈ s.m_starCfg.m_ABCchips) :
    s.turnPackets frame it.1 = if s.due it.1 then
      [sendPacket (abcPacket it.1 (abcHprWord frame) it.2.m_abcID)] else [] := by
  unfold turnPackets
  rw [s.m_starCfg.idAt_eq, s.m_starCfg.abcAt_of_mem hit, Option.map_some]

theorem flatMap_turnPackets {l : List (Fin MaxABCsPerHCC × AbcCfg)}
    (hl : ∀ it ∈ l, it ∈ s.m_starCfg.m_ABCchips) :
    (l.map Prod.fst).flatMap (s.turnPackets frame) = (l.filter fun it => s.due it.1).map
      (fun it => sendPacket (abcPacket it.1 (abcHprWord frame) it.2.m_abcID)) := by
  induction l with
  | nil => rfl
  | cons it l ih =>
      have hrest := ih fun it' hit' => hl it' (List.mem_cons_of_mem it hit')
      rw [List.map_cons, List.flatMap_cons, turnPackets_of_mem (hl it List.mem_cons_self), hrest]
      by_cases hdue : s.due it.1 = true
      · rw [if_pos hdue, List.filter_cons_of_pos (by exact hdue)]
        rfl
      · rw [if_neg hdue, List.filter_cons_of_neg (by exact hdue)]
        rfl

theorem Round.served (h : Round frame s t) (hserve : Serveable s.m_starCfg) : Served frame s t where
  updated := by
    intro it hit
    have hchannel : it.1 ∈ s.m_starCfg.m_ABCchips.map Prod.fst := by
      rw [← StarCfg.channels_congr h.ids]
      exact List.mem_map_of_mem hit
    have hlow : it.1.val < s.m_starCfg.numABCs := by
      rw [← hserve.channels] at hchannel
      exact mem_take_channels.mp hchannel
    rcases List.mem_map.mp hchannel with ⟨old, hold, hfst⟩
    have htarget := target_self hserve.distinct hold
    rw [hfst] at htarget
    have hword := h.written it.1 it.1 hlow htarget
    unfold hprAt at hword
    rw [t.m_starCfg.abcAt_of_mem hit, Option.map_some] at hword
    exact Option.some_inj.mp hword
  periodic := fun _ hit hstop hclock => s.due_of_periodic hit hstop hclock
  packets := by
    rcases h.packets with ⟨hcc, hpackets, hcases⟩
    rw [hserve.channels, flatMap_turnPackets fun _ hit => hit] at hpackets
    exact ⟨hcc, hpackets, hcases⟩

theorem abcHprWord_ne : abcHprWord 0 ≠ abcHprWord 1 := by decide

/-- An ABC that is served with two frames is the target of a turn. -/
theorem Serveable.of_served (h : ∀ frame, ∃ t, s.doHPR frame = .ok t ∧ Served frame s t)
    (hlength : s.hpr_sent.length = s.m_starCfg.numABCs + 1) (hperiod : s.HPRPERIOD ≠ 0) :
    Serveable s.m_starCfg := by
  have hword : ∀ frame it, it ∈ s.m_starCfg.m_ABCchips →
      (∀ ic : Fin MaxABCsPerHCC, ic.val < s.m_starCfg.numABCs →
        target s.m_starCfg ic ≠ some it.1) →
      hprAt s.m_starCfg it.1 = some (abcHprWord frame) := by
    intro frame it hit hnot
    rcases doHPR_ok frame hlength hperiod with ⟨t, ht, hround⟩
    rcases h frame with ⟨t', ht', hserved⟩
    obtain rfl := Except.ok.inj (ht.symm.trans ht')
    have hchannel : it.1 ∈ t.m_starCfg.m_ABCchips.map Prod.fst := by
      rw [StarCfg.channels_congr hround.ids]
      exact List.mem_map_of_mem hit
    rcases List.mem_map.mp hchannel with ⟨new, hnew, hfst⟩
    rw [← hround.kept it.1 hnot]
    unfold hprAt
    rw [← hfst, t.m_starCfg.abcAt_of_mem hnew, Option.map_some, hserved.updated new hnew]
  apply Serveable.of_targets
  intro it hit
  by_contra hnone
  have hnot : ∀ ic : Fin MaxABCsPerHCC, ic.val < s.m_starCfg.numABCs →
      target s.m_starCfg ic ≠ some it.1 := fun ic hic htarget => hnone ⟨ic, hic, htarget⟩
  have h0 := hword 0 it hit hnot
  have h1 := hword 1 it hit hnot
  exact abcHprWord_ne (Option.some_inj.mp (h0.symm.trans h1))

end Service

theorem doHPR_zero_period {s : HPREmu} (hperiod : s.HPRPERIOD = 0) (frame : LCB.Frame)
    (t : HPREmu) : s.doHPR frame ≠ .ok t := by
  have hsends : ∀ c i, ∃ e, s.sends c i = .error e := by
    intro c i
    unfold sends
    cases s.hpr_sent[i]? with
    | none => exact ⟨_, rfl⟩
    | some flag => exact ⟨_, if_pos hperiod⟩
  intro h
  unfold doHPR doHPR_HCC at h
  cases hset : looked (s.m_starCfg.setHCCRegister HCCStarRegister.HPR (hccHprWord frame)) with
  | error e =>
      rw [hset] at h
      cases h
  | ok cfg =>
      rcases hccControl_ok cfg with ⟨c, hc⟩
      rcases hsends c 0 with ⟨e, he⟩
      rw [hset, ok_bind, hc, ok_bind, he] at h
      cases h

/-! ## Runs -/

/-- The constructor: half a period has passed, and nothing has been sent. -/
def start (emu : StarChipsetEmu) (hpr_period : UInt32) : HPREmu :=
  { emu with
    hpr_clkcnt := hpr_period / 2
    hpr_sent := List.replicate (emu.m_starCfg.numABCs + 1) false
    HPRPERIOD := hpr_period }

/-- Between two frames commands may change registers, the clock and the flags, but not the channels
and IDs of the ABCs. -/
inductive Reached (first : HPREmu) : HPREmu → Prop where
  | start : Reached first first
  | frame {s t : HPREmu} (frame : LCB.Frame) (before : Reached first s)
      (step : s.doHPR frame = .ok t) : Reached first t
  | command {s t : HPREmu} (before : Reached first s)
      (ids : t.m_starCfg.chipIDs = s.m_starCfg.chipIDs)
      (flags : t.hpr_sent.length = s.hpr_sent.length) (period : t.HPRPERIOD = s.HPRPERIOD) :
      Reached first t

/-- Every frame serves every ABC, in every state. -/
def AlwaysServed (first : HPREmu) : Prop :=
  ∀ s, Reached first s → ∀ frame, ∃ t, s.doHPR frame = .ok t ∧ Served frame s t

theorem Reached.kept {first s : HPREmu} (h : Reached first s)
    (hlength : first.hpr_sent.length = first.m_starCfg.numABCs + 1) (hperiod : first.HPRPERIOD ≠ 0) :
    s.m_starCfg.chipIDs = first.m_starCfg.chipIDs ∧
      s.hpr_sent.length = s.m_starCfg.numABCs + 1 ∧ s.HPRPERIOD = first.HPRPERIOD := by
  induction h with
  | start => exact ⟨rfl, hlength, rfl⟩
  | frame frame before step ih =>
      rcases doHPR_ok frame ih.2.1 (ih.2.2 ▸ hperiod) with ⟨t, ht, hround⟩
      obtain rfl := Except.ok.inj (ht.symm.trans step)
      exact ⟨hround.ids.trans ih.1,
        by rw [hround.length, ih.2.1, StarCfg.numABCs_congr hround.ids],
        hround.period.trans ih.2.2⟩
  | command before ids flags period ih =>
      exact ⟨ids.trans ih.1, by rw [flags, ih.2.1, StarCfg.numABCs_congr ids],
        period.trans ih.2.2⟩

/-- Every frame serves every ABC exactly if the period is not zero, and the ABCs are on the first
channels with different IDs. -/
theorem alwaysServed_iff (emu : StarChipsetEmu) (hpr_period : UInt32) :
    AlwaysServed (start emu hpr_period) ↔ hpr_period ≠ 0 ∧ Serveable emu.m_starCfg := by
  have hlength : (start emu hpr_period).hpr_sent.length =
      (start emu hpr_period).m_starCfg.numABCs + 1 := List.length_replicate
  apply Iff.intro
  · intro h
    have hfirst := h _ Reached.start
    have hperiod : hpr_period ≠ 0 := by
      rintro rfl
      rcases hfirst 0 with ⟨t, ht, _⟩
      exact doHPR_zero_period rfl 0 t ht
    exact ⟨hperiod, Serveable.of_served hfirst hlength hperiod⟩
  · rintro ⟨hperiod, hserve⟩ s hs frame
    rcases hs.kept hlength hperiod with ⟨hids, hlength', hperiod'⟩
    rcases doHPR_ok frame hlength' (hperiod' ▸ hperiod) with ⟨t, ht, hround⟩
    exact ⟨t, ht, hround.served (hserve.congr hids)⟩

/-- One ABC, which is on the second channel. -/
def onSecondChannel : StarChipsetEmu where
  m_ignoreCmd := false
  m_isForABC := false
  m_reg_cmd_buffer := []
  m_startHitCount := false
  m_rxbuffer := []
  m_starCfg := {
    hcc := { version_1 := true, m_hccID := 0, registers := ⟨fun _ => 0⟩ }
    m_ABCchips := [(⟨1, by decide⟩, { version_1 := true, m_abcID := 15, registers := ⟨fun _ => 0⟩ })]
    sorted := List.pairwise_singleton _ _ }

theorem onSecondChannel_unserved : ¬AlwaysServed (start onSecondChannel 40000) := by
  intro h
  have hserve := Serveable.of_served (h _ Reached.start) rfl (by decide)
  have hgap := hserve.gapless
  cases hgap

end HPREmu

end Yarr.StarEmu
