import Yarr.Star.TrickleBudget

/-!
# The trickle sequence in the memory

When the sequence has the triggers it is said to have, fits and is enough.
-/

namespace Yarr.Star

open Attempts LCB_FELIX

namespace StarFelixTriggerLoop

variable {D : Type} [Frequency D] (l : StarFelixTriggerLoop D)

/-- The sequence is made, without a division by zero or an underflow, and is right. -/
def Fills : Prop := ∃ l', l.makeTrickleSequence = .ok l' ∧ l.Sends l'

/-- The segments that fit. -/
def maxSegments (segBytes : Nat) : Nat :=
  (2 ^ l.m_seqMemAddrWidth - (l.fixedBytes + l.hitBytes)) / segBytes

/-- No segment fits, and there is no sequence, or the triggers asked for can be divided. -/
def Enough (p segBytes : Nat) (lastBytes : Nat → Nat) : Prop :=
  l.maxSegments segBytes = 0 ∨ l.Divides p (l.maxSegments segBytes) segBytes lastBytes

/-- There is a pulse before each trigger, where there are `n` idle frames between triggers. -/
def Pulsed (n : Nat) : Prop := l.m_noInject = false ∧ (l.afterFrames (n + 1)).Accepted

/-- A low frequency gives a number of idle frames, with room for the pulse. -/
def LowFits : Prop :=
  ∃ n : Nat, l.nFrames = some (n + 1 : Int) ∧ (n + 1) * 100 < 2147483648 ∧
    (l.Pulsed n → l.m_trigDelay < 4 * n ∧ l.Enough 1 (n + 4) Band.low.lastBytes) ∧
    (¬l.Pulsed n → l.Enough 1 (n + 3) Band.low.lastBytes)

/-- The condition on the frequency, the delay and the triggers asked for. -/
def SegmentFits : Prop :=
  match l.band with
  | .low => l.LowFits
  | .mhz13 => l.Enough 4 9 Band.mhz13.lastBytes
  | .mhz20 => l.Enough 2 3 Band.mhz20.lastBytes
  | .mhz40 => l.Enough 4 3 Band.mhz40.lastBytes

omit [Frequency D] in
theorem overhead_eq :
    l.fixedBytes + l.hitBytes = if l.m_useHitCount then 877 else 17 := by
  unfold fixedBytes hitBytes trickleSeq_pre hitcount_seg
  cases l.m_useHitCount with
  | false => rfl
  | true => decide +kernel

section Budgeted

variable {l} {seg seg' : List Nat} {p d : Nat} {x : D} {lastBytes : Nat → Nat}

/-- The loop where the sequence is to be made. -/
def cleared (l : StarFelixTriggerLoop D) (x : D) (d : Nat) : StarFelixTriggerLoop D :=
  { l with
    m_trickleSeq := []
    m_trigFreq := x
    m_trigDelay := d }

theorem fillMemory_eq {m : StarFelixTriggerLoop D} (hne : seg ≠ [])
    (hroom : m.fixedBytes + m.hitBytes ≤ 2 ^ m.m_seqMemAddrWidth) :
    m.fillMemory (2 ^ m.m_seqMemAddrWidth) seg p =
      if m.maxSegments seg.length = 0 then .ok m.reject
      else m.makeBurst (2 ^ m.m_seqMemAddrWidth) seg p (m.maxSegments seg.length) := by
  have hlength : seg.length ≠ 0 := fun h => hne (List.length_eq_zero_iff.mp h)
  unfold fillMemory
  show (subtract (2 ^ m.m_seqMemAddrWidth) (m.fixedBytes + m.hitBytes) >>= fun _ => _) = _
  rw [subtract_eq hroom, ok_bind, divide_eq hlength]
  rfl

theorem makeTrickleSequence_eq_ok {l' : StarFelixTriggerLoop D} :
    l.makeTrickleSequence = .ok l' ↔ l.m_seqMemAddrWidth < 32 ∧ ∃ seg p m,
      (l.cleared l.m_trigFreq l.m_trigDelay).getTriggerSegment minusOne = .ok (seg, p, m) ∧
      ∃ r, m.inject seg = .ok r ∧ r.2.fillMemory (2 ^ l.m_seqMemAddrWidth) r.1 p = .ok l' := by
  unfold makeTrickleSequence
  by_cases hwidth : l.m_seqMemAddrWidth < 32
  · have hsize : l.TRICKLE_MEM_SIZE = .ok (2 ^ l.m_seqMemAddrWidth) := if_pos hwidth
    rw [hsize, ok_bind]
    show ((l.cleared l.m_trigFreq l.m_trigDelay).getTriggerSegment minusOne >>= fun _ => _) = _ ↔ _
    cases hsegment : (l.cleared l.m_trigFreq l.m_trigDelay).getTriggerSegment minusOne with
    | error fault => exact iff_of_false (by rintro ⟨⟩) (by rintro ⟨_, _, _, _, ⟨⟩, _⟩)
    | ok result =>
        rcases result with ⟨seg, p, m⟩
        rw [ok_bind]
        show (m.inject seg >>= fun _ => _) = _ ↔ _
        cases hinject : m.inject seg with
        | error fault =>
            apply iff_of_false
            · rintro ⟨⟩
            · rintro ⟨_, _, _, _, heq, r, hr, _⟩
              cases heq
              rw [hinject] at hr
              cases hr
        | ok r =>
            constructor
            · exact fun h => ⟨hwidth, seg, p, m, rfl, r, hinject, h⟩
            · rintro ⟨_, _, _, _, heq, r', hr', h⟩
              cases heq
              rw [hinject] at hr'
              cases hr'
              exact h
  · have hsize : l.TRICKLE_MEM_SIZE = .error .shift := if_neg hwidth
    rw [hsize]
    exact iff_of_false (by rintro ⟨⟩) (fun h => hwidth h.1)

omit [Frequency D] in
theorem divides_cleared {nMaxSeg segBytes : Nat} :
    (l.cleared x d).Divides p nMaxSeg segBytes lastBytes ↔ l.Divides p nMaxSeg segBytes lastBytes :=
  ⟨fun h => ⟨h.asked, h.whole, h.need, h.pulses⟩, fun h => ⟨h.asked, h.whole, h.need, h.pulses⟩⟩

variable [LawfulFrequency D]

theorem fillMemory_iff {m : StarFelixTriggerLoop D} (hclear : m.m_trickleSeq = [])
    (hsegments : m.Segments seg p lastBytes) :
    (∃ l', m.fillMemory (2 ^ m.m_seqMemAddrWidth) seg p = .ok l' ∧ m.Sends l') ↔
      m.fixedBytes + m.hitBytes ≤ 2 ^ m.m_seqMemAddrWidth ∧ m.Enough p seg.length lastBytes := by
  by_cases hroom : m.fixedBytes + m.hitBytes ≤ 2 ^ m.m_seqMemAddrWidth
  · rw [fillMemory_eq hsegments.ne_nil hroom]
    by_cases hnone : m.maxSegments seg.length = 0
    · have hnothing : triggerCount 0 m.reject.m_trickleSeq = 0 := by
        show triggerCount 0 m.m_trickleSeq = 0
        rw [hclear]
        rfl
      have hshort : m.reject.m_trickleSeq.length ≤ 2 ^ m.m_seqMemAddrWidth := by
        show m.m_trickleSeq.length ≤ _
        rw [hclear]
        exact Nat.zero_le _
      rw [if_pos hnone]
      exact iff_of_true ⟨_, rfl, hnothing, hshort, Or.inl hclear⟩ ⟨hroom, Or.inl hnone⟩
    · rw [if_neg hnone]
      have hdiv := Nat.div_mul_le_self (2 ^ m.m_seqMemAddrWidth - (m.fixedBytes + m.hitBytes))
        seg.length
      have hfits : m.fixedBytes + m.hitBytes + m.maxSegments seg.length * seg.length ≤
          2 ^ m.m_seqMemAddrWidth := by
        unfold maxSegments
        omega
      have hiff := makeBurst_iff hsegments (Nat.pos_of_ne_zero hnone) hfits
      exact hiff.trans ⟨fun h => ⟨hroom, Or.inr h⟩, fun h => h.2.resolve_left hnone⟩
  · have hfault : subtract (2 ^ m.m_seqMemAddrWidth) (m.fixedBytes + m.hitBytes) =
        .error .underflow := if_neg hroom
    apply iff_of_false
    · rintro ⟨l', hl', _⟩
      unfold fillMemory at hl'
      change (subtract (2 ^ m.m_seqMemAddrWidth) (m.fixedBytes + m.hitBytes) >>= fun _ => _) = _
        at hl'
      rw [hfault] at hl'
      cases hl'
    · exact fun h => hroom h.1

theorem fills_iff (hwidth : l.m_seqMemAddrWidth < 32)
    (hsegment : (l.cleared l.m_trigFreq l.m_trigDelay).getTriggerSegment minusOne =
      .ok (seg, p, l.cleared x l.m_trigDelay))
    (hinject : (l.cleared x l.m_trigDelay).inject seg = .ok (seg', l.cleared x d))
    (hsegments : (l.cleared x d).Segments seg' p lastBytes) :
    l.Fills ↔ l.fixedBytes + l.hitBytes ≤ 2 ^ l.m_seqMemAddrWidth ∧
      l.Enough p seg'.length lastBytes := by
  have hfill := fillMemory_iff (m := l.cleared x d) rfl hsegments
  have hsame : (l.cleared x d).Enough p seg'.length lastBytes ↔
      l.Enough p seg'.length lastBytes :=
    or_congr Iff.rfl divides_cleared
  rw [hsame] at hfill
  apply Iff.trans _ hfill
  constructor
  · rintro ⟨l', hl', hsends⟩
    rcases makeTrickleSequence_eq_ok.mp hl' with ⟨_, seg₀, p₀, m, hm, r, hr, hmade⟩
    rw [hsegment] at hm
    cases hm
    rw [hinject] at hr
    cases hr
    exact ⟨l', hmade, hsends⟩
  · rintro ⟨l', hmade, hsends⟩
    exact ⟨l', makeTrickleSequence_eq_ok.mpr ⟨hwidth, seg, p, _, hsegment, _, hinject, hmade⟩,
      hsends⟩

/-! ## From 10 MHz -/

theorem segments_high {b : Band} (hlow : b ≠ .low) :
    (l.cleared (freq 1000000000 / freq b.period) d).Segments (b.segment minusOne).1 b.triggers
      b.lastBytes := by
  have hsegment := b.counts_segment hlow
  have hband : (l.cleared (freq 1000000000 / freq b.period) d).band = b :=
    (l.cleared l.m_trigFreq d).band_afterBand hlow
  have hne : (b.segment minusOne).1 ≠ [] := by
    intro hnil
    have hlength := hsegment.2.2
    rw [hnil] at hlength
    split at hlength <;> cases hlength
  exact {
    pos := b.triggers_pos
    le := by cases b <;> decide
    counts := hsegment.1
    ne_nil := hne
    zero := by cases b <;> rfl
    last := by
      intro r hpos hr
      have hlast := b.counts_last hlow hpos hr
      exact ⟨_, _, _, getTriggerSegment_band _ hband hlow hpos.ne', hlast⟩
    last_le := by
      intro r hpos hr
      rw [hsegment.2.2]
      cases b with
      | low => exact absurd rfl hlow
      | mhz13 =>
          change r < 4 at hr
          show 3 * r ≤ 9
          omega
      | mhz20 => exact (if_neg hpos.ne').le
      | mhz40 => exact (if_neg hpos.ne').le }

theorem fills_high {b : Band} (hwidth : l.m_seqMemAddrWidth < 32) (hband : l.band = b)
    (hlow : b ≠ .low) :
    l.Fills ↔ l.fixedBytes + l.hitBytes ≤ 2 ^ l.m_seqMemAddrWidth ∧
      l.Enough b.triggers (if b = .mhz13 then 9 else 3) b.lastBytes := by
  have hsegment := b.counts_segment hlow
  have hmade : (l.cleared l.m_trigFreq l.m_trigDelay).getTriggerSegment minusOne =
      .ok ((b.segment minusOne).1, b.triggers,
        l.cleared (freq 1000000000 / freq b.period) l.m_trigDelay) := by
    have hbanded := (l.cleared l.m_trigFreq l.m_trigDelay).getTriggerSegment_band hband hlow
      (k := minusOne) (by decide)
    rw [hbanded, hsegment.2.1]
    rfl
  have hinject : ∃ d, (l.cleared (freq 1000000000 / freq b.period) l.m_trigDelay).inject
      (b.segment minusOne).1 =
        .ok ((b.segment minusOne).1, l.cleared (freq 1000000000 / freq b.period) d) := by
    unfold inject
    by_cases hnone : l.m_noInject = true
    · exact ⟨_, if_pos hnone⟩
    · have hfast := (l.cleared l.m_trigFreq l.m_trigDelay).tooFast_afterBand hlow
      exact ⟨minusOne, (if_neg hnone).trans (if_pos hfast)⟩
  rcases hinject with ⟨d, hd⟩
  have hfills := fills_iff hwidth hmade hd (segments_high hlow)
  rwa [hsegment.2.2] at hfills

/-! ## Up to 10 MHz -/

omit [LawfulFrequency D] in
theorem segments_low {m : StarFelixTriggerLoop D} (hcounts : Counts seg 1) (hne : seg ≠ []) :
    m.Segments seg 1 Band.low.lastBytes :=
  { pos := by decide
    le := by decide
    counts := hcounts
    ne_nil := hne
    zero := rfl
    last := fun r hpos hr => absurd hr (by omega)
    last_le := fun r hpos hr => absurd hr (by omega) }

omit [LawfulFrequency D] in
theorem lowSegment_ne_nil (n : Nat) : lowSegment n ≠ [] := by
  intro hnil
  have hlength := length_lowSegment n
  rw [hnil] at hlength
  exact absurd hlength (by exact (Nat.succ_ne_zero _).symm)

omit [LawfulFrequency D] in
theorem inject_pulsed {m : StarFelixTriggerLoop D} (h : m.m_noInject = false) (seg : List Nat) :
    m.inject seg = m.addChargeInjection seg := by
  unfold inject
  rw [h]
  rfl

omit [LawfulFrequency D] in
theorem inject_unpulsed {m : StarFelixTriggerLoop D} (h : ¬(m.m_noInject = false ∧ m.Accepted))
    (seg : List Nat) : ∃ d, m.inject seg = .ok (seg, { m with m_trigDelay := d }) := by
  by_cases hnone : m.m_noInject = true
  · exact ⟨m.m_trigDelay, if_pos hnone⟩
  · have hfalse : m.m_noInject = false := Bool.eq_false_iff.mpr hnone
    rw [inject_pulsed hfalse]
    unfold addChargeInjection
    by_cases hfast : m.tooFast
    · exact ⟨minusOne, if_pos hfast⟩
    · have hlate : m.tooLate := by
        by_contra hnot
        exact h ⟨hfalse, hfast, hnot⟩
      exact ⟨minusOne, (if_neg hfast).trans (if_pos hlate)⟩

/-- The pulse command in the place of an idle frame. -/
def pulsedSegment (l : StarFelixTriggerLoop D) (n : Nat) : List Nat :=
  List.replicate (n - 1 - l.m_trigDelay / 4) IDLE ++
    fast_command (if l.m_digital then ABC_DIGITAL_PULSE else ABC_CAL_PULSE)
      (3 - l.m_trigDelay % 4) ++ lowSegment (l.m_trigDelay / 4)

omit [Frequency D] [LawfulFrequency D] in
theorem counts_pulsedSegment (n : Nat) : Counts (l.pulsedSegment n) 1 :=
  ((Counts.idle _).append (Counts.fast_command _ _)).append (Counts.lowSegment _)

omit [Frequency D] [LawfulFrequency D] in
theorem length_pulsedSegment {n : Nat} (hdelay : l.m_trigDelay / 4 < n) :
    (l.pulsedSegment n).length = n + 4 := by
  unfold pulsedSegment
  rw [List.length_append, List.length_append, List.length_replicate, length_lowSegment]
  show n - 1 - l.m_trigDelay / 4 + 2 + _ = _
  omega

theorem fills_low {n : Nat} (hwidth : l.m_seqMemAddrWidth < 32) (hband : l.band = .low)
    (hn : l.nFrames = some (n + 1 : Int)) (hsmall : (n + 1) * 100 < 2147483648) :
    l.Fills ↔ l.fixedBytes + l.hitBytes ≤ 2 ^ l.m_seqMemAddrWidth ∧
      (l.Pulsed n → l.m_trigDelay < 4 * n ∧ l.Enough 1 (n + 4) Band.low.lastBytes) ∧
      (¬l.Pulsed n → l.Enough 1 (n + 3) Band.low.lastBytes) := by
  have hmade : (l.cleared l.m_trigFreq l.m_trigDelay).getTriggerSegment minusOne =
      .ok (lowSegment n, 1,
        l.cleared (freq 1000000000 / freq ((n + 1 : Int) * 100)) l.m_trigDelay) := by
    have hlow := (l.cleared l.m_trigFreq l.m_trigDelay).getTriggerSegment_low hband
      (k := minusOne) (by decide) hn (by omega) (by omega)
    have hidle : ((n + 1 : Int) - 1).toNat = n := by omega
    rw [hidle] at hlow
    exact hlow
  by_cases hpulsed : l.Pulsed n
  · have haccepted : (l.cleared (freq 1000000000 / freq ((n + 1 : Int) * 100))
        l.m_trigDelay).Accepted := hpulsed.2
    by_cases hdelay : l.m_trigDelay / 4 < n
    · have hadd : (l.cleared (freq 1000000000 / freq ((n + 1 : Int) * 100)) l.m_trigDelay).inject
          (lowSegment n) = .ok (l.pulsedSegment n,
            l.cleared (freq 1000000000 / freq ((n + 1 : Int) * 100)) l.m_trigDelay) :=
        (inject_pulsed (by exact hpulsed.1) _).trans (addChargeInjection_eq _ haccepted hdelay)
      have hne : l.pulsedSegment n ≠ [] :=
        List.append_ne_nil_of_right_ne_nil _ (lowSegment_ne_nil _)
      have hfills := fills_iff hwidth hmade hadd (segments_low (counts_pulsedSegment n) hne)
      rw [length_pulsedSegment hdelay] at hfills
      exact hfills.trans (and_congr_right fun _ =>
        ⟨fun h => ⟨fun _ => ⟨by omega, h⟩, fun hnot => absurd hpulsed hnot⟩,
          fun h => (h.1 hpulsed).2⟩)
    · -- the place for the pulse is before the segment
      have hfault : (l.cleared (freq 1000000000 / freq ((n + 1 : Int) * 100)) l.m_trigDelay).inject
          (lowSegment n) = .error .outside :=
        (inject_pulsed (by exact hpulsed.1) _).trans
          (addChargeInjection_outside _ haccepted (not_lt.mp hdelay))
      apply iff_of_false
      · rintro ⟨l', hl', _⟩
        rcases makeTrickleSequence_eq_ok.mp hl' with ⟨_, seg₀, p₀, m, hm, r, hr, _⟩
        rw [hmade] at hm
        cases hm
        rw [hfault] at hr
        cases hr
      · intro h
        have hlt := (h.2.1 hpulsed).1
        omega
  · rcases inject_unpulsed (m := l.cleared (freq 1000000000 / freq ((n + 1 : Int) * 100))
      l.m_trigDelay) hpulsed (lowSegment n) with ⟨d, hd⟩
    have hfills := fills_iff hwidth hmade hd
      (segments_low (Counts.lowSegment n) (lowSegment_ne_nil n))
    rw [length_lowSegment] at hfills
    exact hfills.trans (and_congr_right fun _ =>
      ⟨fun h => ⟨fun hp => absurd hp hpulsed, fun _ => h⟩, fun h => h.2 hpulsed⟩)

end Budgeted

variable [LawfulFrequency D]

/-- The sequence is right where the memory, the frequency and the triggers asked for are. -/
theorem makeTrickleSequence_iff : l.Fills ↔ l.m_seqMemAddrWidth < 32 ∧
    (if l.m_useHitCount then 877 else 17) ≤ 2 ^ l.m_seqMemAddrWidth ∧ l.SegmentFits := by
  rw [← l.overhead_eq]
  by_cases hwidth : l.m_seqMemAddrWidth < 32
  · rw [and_iff_right hwidth]
    unfold SegmentFits
    cases hband : l.band with
    | low =>
        by_cases hframes : ∃ n : Nat, l.nFrames = some (n + 1 : Int) ∧ (n + 1) * 100 < 2147483648
        · rcases hframes with ⟨n, hn, hsmall⟩
          apply (fills_low hwidth hband hn hsmall).trans
          apply and_congr_right
          intro _
          constructor
          · exact fun h => ⟨n, hn, hsmall, h⟩
          · rintro ⟨n', hn', _, h⟩
            have heq : n' = n := by
              rw [hn] at hn'
              have hint := Option.some.inj hn'
              omega
            rw [heq] at h
            exact h
        · apply iff_of_false
          · rintro ⟨l', hl', _⟩
            rcases makeTrickleSequence_eq_ok.mp hl' with ⟨_, seg, p, m, hm, _⟩
            have hbad : ∀ n, l.nFrames = some n → ¬(1 ≤ n ∧ n * 100 < 2147483648) := by
              rintro n hn ⟨hpos, hsmall⟩
              have hnat : n = ((n - 1).toNat + 1 : Int) := by omega
              rw [hnat] at hn
              exact hframes ⟨_, hn, by omega⟩
            rcases (l.cleared l.m_trigFreq l.m_trigDelay).getTriggerSegment_low_fails hband
              (k := minusOne) (by decide) hbad with ⟨fault, hfault⟩
            rw [hfault] at hm
            cases hm
          · rintro ⟨_, n, hn, hsmall, _⟩
            exact hframes ⟨n, hn, hsmall⟩
    | mhz13 => exact fills_high hwidth hband (by decide)
    | mhz20 => exact fills_high hwidth hband (by decide)
    | mhz40 => exact fills_high hwidth hband (by decide)
  · apply iff_of_false
    · rintro ⟨l', hl', _⟩
      exact hwidth (makeTrickleSequence_eq_ok.mp hl').1
    · exact fun h => hwidth h.1

theorem oneMHz_maxSegments (m_trigCnt segBytes : Nat) :
    ({ oneMHz 35 with m_trigCnt := m_trigCnt } : StarFelixTriggerLoop ℚ).maxSegments segBytes =
      3219 / segBytes := by
  have hroom : 2 ^ (oneMHz 35).m_seqMemAddrWidth -
      ((oneMHz 35).fixedBytes + (oneMHz 35).hitBytes) = 3219 := by
    rw [overhead_eq]
    decide
  show (2 ^ (oneMHz 35).m_seqMemAddrWidth -
    ((oneMHz 35).fixedBytes + (oneMHz 35).hitBytes)) / segBytes = _
  rw [hroom]

theorem oneMHz_enough {segBytes : Nat} (h : segBytes = 12 ∨ segBytes = 13) :
    (oneMHz 35).Enough 1 segBytes Band.low.lastBytes := by
  have hfixed : (oneMHz 35).fixedBytes = 21 := by decide
  have hsize : (oneMHz 35).burstBytes 1 (3219 / segBytes) segBytes 0 = 50 * segBytes + 856 := by
    have hhit : (oneMHz 35).hitBytes = 856 := by
      have hoverhead := (oneMHz 35).overhead_eq
      rw [hfixed] at hoverhead
      exact Nat.add_left_cancel (hoverhead.trans rfl)
    rcases h with rfl | rfl <;> (unfold burstBytes; rw [hhit]; rfl)
  have hburst : (oneMHz 35).burstTriggers 1 (3219 / segBytes) = 50 := by
    rcases h with rfl | rfl <;> rfl
  apply Or.inr
  rw [show (oneMHz 35).maxSegments segBytes = 3219 / segBytes from oneMHz_maxSegments 50 segBytes]
  have hpos : 0 < 3219 / segBytes := by rcases h with rfl | rfl <;> decide
  have hwhole : 3219 / segBytes = 1 → 1 ≤ (oneMHz 35).m_trigCnt := fun _ => by decide
  apply divides_of_lt (by decide) hpos (by decide) hwhole (by decide)
  rw [hburst]
  show 0 < (oneMHz 35).bursts _ 50 ((oneMHz 35).burstBytes 1 (3219 / segBytes) segBytes 0)
  rw [hsize]
  have hfits : (oneMHz 35).fixedBytes + (50 * segBytes + 856) ≤
      2 ^ (oneMHz 35).m_seqMemAddrWidth := by
    rw [hfixed]
    rcases h with rfl | rfl <;> decide
  exact (oneMHz 35).bursts_pos (by decide) (by decide) (by omega) hfits

theorem oneMHz_band (m_trigCnt : Nat) :
    ({ oneMHz 35 with m_trigCnt := m_trigCnt } : StarFelixTriggerLoop ℚ).band = .low :=
  if_pos (show (1000000 : ℚ) ≤ ((10000000 : Int) : ℚ) by norm_num)

theorem oneMHz_nFrames (m_trigCnt : Nat) :
    ({ oneMHz 35 with m_trigCnt := m_trigCnt } : StarFelixTriggerLoop ℚ).nFrames =
      some (((9 : Nat) : Int) + 1) := by
  have hframes : ((1000000000 : Int) : ℚ) / 1000000 / ((100 : Int) : ℚ) = ((10 : Int) : ℚ) := by
    norm_num
  show Frequency.toInt (((1000000000 : Int) : ℚ) / 1000000 / ((100 : Int) : ℚ)) = _
  rw [hframes]
  rfl

theorem makeTrickleSequence_iff_oneMHz : (oneMHz 35).Fills := by
  apply (oneMHz 35).makeTrickleSequence_iff.mpr
  have hfits : (oneMHz 35).LowFits := ⟨9, oneMHz_nFrames 50, by decide,
    fun _ => ⟨by decide, oneMHz_enough (Or.inr rfl)⟩, fun _ => oneMHz_enough (Or.inl rfl)⟩
  unfold SegmentFits
  rw [show (oneMHz 35).band = .low from oneMHz_band 50]
  exact ⟨by decide, by decide, hfits⟩

/-- Where triggers are sent until a time has passed, there is no number of them. -/
theorem makeTrickleSequence_without_count :
    ¬∀ l : StarFelixTriggerLoop ℚ, l.Fills := by
  intro h
  have hfills := h { oneMHz 35 with m_trigCnt := 0 }
  rw [fills_low (by decide) (oneMHz_band 0) (oneMHz_nFrames 0) (by decide)] at hfills
  have hmax : ∀ segBytes, segBytes = 12 ∨ segBytes = 13 →
      ¬({ oneMHz 35 with m_trigCnt := 0 } : StarFelixTriggerLoop ℚ).Enough 1 segBytes
        Band.low.lastBytes := by
    intro segBytes hsize henough
    rcases henough with hnone | hdiv
    · rw [oneMHz_maxSegments] at hnone
      rcases hsize with rfl | rfl <;> exact absurd hnone (by decide)
    · exact absurd hdiv.asked (by decide)
  rcases hfills with ⟨_, hpulsed, hplain⟩
  by_cases hp : StarFelixTriggerLoop.Pulsed { oneMHz 35 with m_trigCnt := 0 } 9
  · exact hmax 13 (Or.inr rfl) (hpulsed hp).2
  · exact hmax 12 (Or.inl rfl) (hplain hp)

end StarFelixTriggerLoop

end Yarr.Star
