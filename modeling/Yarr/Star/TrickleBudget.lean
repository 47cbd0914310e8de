import Yarr.Core.Attempts
import Yarr.Star.TrickleSequence

/-!
# The budget of a trickle sequence

Segments go into a burst up to the number of triggers wanted or the size of the
memory, and bursts into the sequence in the same way.
-/

namespace Yarr.Star

open Attempts LCB_FELIX

namespace StarFelixTriggerLoop

/-- A count of floats, rounded up. -/
def quotient (a b : Nat) : Int := Single.ceilDiv (Single.ofNat a) (Single.ofNat b)

theorem quotient_pos {a b : Nat} (ha : 0 < a) (hb : 0 < b) : 0 < quotient a b := by
  have hfloat : ∀ n : Nat, 0 < n → 0 < Single.ofNat n := fun n hn =>
    Single.round_pos (by exact_mod_cast hn)
  exact Int.ceil_pos.mpr (Single.round_pos (div_pos (hfloat a ha) (hfloat b hb)))

theorem subtract_eq {a b : Nat} (h : b ≤ a) : subtract a b = .ok (a - b) := if_pos h

theorem divide_eq {a b : Nat} (h : b ≠ 0) : divide a b = .ok (a / b) := if_neg h

theorem ceilQuotient_eq {a b : Nat} (hb : b ≠ 0) (hlt : quotient a b < 4294967296) :
    ceilQuotient a b = .ok (quotient a b).toNat := by
  unfold ceilQuotient
  rw [if_neg hb]
  exact if_neg (not_le.mpr hlt)

theorem ceilQuotient_eq_ok {a b n : Nat} (h : ceilQuotient a b = .ok n) :
    b ≠ 0 ∧ quotient a b < 4294967296 ∧ n = (quotient a b).toNat := by
  unfold ceilQuotient at h
  by_cases hb : b = 0
  · rw [if_pos hb] at h
    cases h
  · rw [if_neg hb] at h
    by_cases hlarge : 4294967296 ≤ quotient a b
    · rw [if_pos (by exact hlarge)] at h
      cases h
    · rw [if_neg (by exact hlarge)] at h
      exact ⟨hb, not_le.mp hlarge, (Except.ok.inj h).symm⟩

section Budget

variable {D : Type} (l : StarFelixTriggerLoop D)

/-- The bytes before and behind the bursts. -/
def fixedBytes : Nat := l.trickleSeq_pre.length + stopCnt.length

def hitBytes : Nat := l.hitcount_seg.length

/-- The segments for the triggers of a burst, where each has `p`. -/
def wanted (p : Nat) : Nat := min 250 l.m_trigCnt / p

def burstSegments (p nMaxSeg : Nat) : Nat := if l.wanted p ≥ nMaxSeg then nMaxSeg else l.wanted p

def burstTriggers (p nMaxSeg : Nat) : Nat :=
  if l.wanted p ≥ nMaxSeg then nMaxSeg * p else min 250 l.m_trigCnt

def burstBytes (p nMaxSeg segBytes lastBytes : Nat) : Nat :=
  l.burstSegments p nMaxSeg * segBytes + lastBytes + l.hitBytes

theorem burstTriggers_eq (p nMaxSeg : Nat) : l.burstTriggers p nMaxSeg =
    p * l.burstSegments p nMaxSeg + l.burstTriggers p nMaxSeg % p := by
  unfold burstTriggers burstSegments
  split
  · rw [Nat.mul_mod_left, Nat.mul_comm]
    rfl
  · exact (Nat.div_add_mod _ p).symm

theorem burstTriggers_pos {p nMaxSeg : Nat} (hcnt : 0 < l.m_trigCnt) (hp : 0 < p)
    (hmax : 0 < nMaxSeg) : 0 < l.burstTriggers p nMaxSeg := by
  unfold burstTriggers
  split
  · exact Nat.mul_pos hmax hp
  · omega

theorem burstSegments_lt {p nMaxSeg : Nat} (h : l.burstTriggers p nMaxSeg % p ≠ 0) :
    l.burstSegments p nMaxSeg < nMaxSeg := by
  unfold burstTriggers at h
  unfold burstSegments
  split
  · rename_i hall
    rw [if_pos hall, Nat.mul_mod_left] at h
    exact absurd rfl h
  · omega

theorem burstSegments_le (p nMaxSeg : Nat) : l.burstSegments p nMaxSeg ≤ nMaxSeg := by
  unfold burstSegments
  split <;> omega

theorem burstBytes_le {p nMaxSeg segBytes : Nat} {lastBytes : Nat → Nat}
    (hzero : lastBytes 0 = 0)
    (hlast : ∀ r, 0 < r → r < p → lastBytes r ≤ segBytes) (hp : 0 < p) :
    l.burstBytes p nMaxSeg segBytes (lastBytes (l.burstTriggers p nMaxSeg % p)) ≤
      nMaxSeg * segBytes + l.hitBytes := by
  unfold burstBytes
  by_cases hr : l.burstTriggers p nMaxSeg % p = 0
  · have hle := Nat.mul_le_mul_right segBytes (l.burstSegments_le p nMaxSeg)
    rw [hr, hzero]
    omega
  · have hle := Nat.mul_le_mul_right segBytes (l.burstSegments_lt hr)
    have hbytes := hlast _ (Nat.pos_of_ne_zero hr) (Nat.mod_lt _ hp)
    rw [Nat.succ_mul] at hle
    omega

theorem burst_one {p : Nat} (hcnt : 0 < l.m_trigCnt) (hp : 0 < p) (hp' : p ≤ 250) :
    l.burstTriggers p 1 % p = 0 ↔ p ≤ l.m_trigCnt := by
  unfold burstTriggers wanted
  by_cases hle : p ≤ l.m_trigCnt
  · have hone : min 250 l.m_trigCnt / p ≥ 1 := (Nat.one_le_div_iff hp).mpr (by omega)
    rw [if_pos hone, Nat.one_mul, Nat.mod_self]
    exact iff_of_true rfl hle
  · have hzero : min 250 l.m_trigCnt / p = 0 := Nat.div_eq_of_lt (by omega)
    rw [hzero, if_neg (by decide), Nat.mod_eq_of_lt (by omega)]
    omega

/-- A burst with the segment for the triggers left over. -/
def burst (seg last : List Nat) (p nMaxSeg : Nat) : List Nat :=
  (List.replicate (l.burstSegments p nMaxSeg) seg).flatten ++ last ++ l.hitcount_seg

theorem length_burst (seg last : List Nat) (p nMaxSeg : Nat) :
    (l.burst seg last p nMaxSeg).length = l.burstBytes p nMaxSeg seg.length last.length := by
  unfold burst burstBytes hitBytes
  rw [List.length_append, List.length_append, List.length_flatten, List.map_replicate,
    List.sum_replicate_nat]

theorem counts_burst {seg last : List Nat} {p nMaxSeg : Nat} (hseg : Counts seg p)
    (hlast : Counts last (l.burstTriggers p nMaxSeg % p)) :
    Counts (l.burst seg last p nMaxSeg) (l.burstTriggers p nMaxSeg) := by
  have hparts := ((hseg.flatten_replicate (l.burstSegments p nMaxSeg)).append hlast).append
    l.counts_hitcount_seg
  rw [Nat.add_zero, ← l.burstTriggers_eq p nMaxSeg] at hparts
  exact hparts

/-! ## The property -/

/-- The triggers are as many as noted, the sequence fits, and where one has been made, its pulses
give the number of triggers asked for. -/
def Sends (l' : StarFelixTriggerLoop D) : Prop :=
  triggerCount 0 l'.m_trickleSeq = l'.m_nTrigsTrickle ∧
    l'.m_trickleSeq.length ≤ 2 ^ l.m_seqMemAddrWidth ∧
    (l'.m_trickleSeq = [] ∨ l.m_trigCnt ≤ l'.m_nPulse * l'.m_nTrigsTrickle)

/-- A quotient of floats that can be converted and is not below the exact one. -/
structure RoundsUp (a b : Nat) : Prop where
  lt : quotient a b < 4294967296
  le : ⌈(a : ℚ) / b⌉ ≤ quotient a b

theorem roundsUp_iff {a b : Nat} (ha : 0 < a) (hb : 0 < b) : RoundsUp a b ↔
    quotient a b < 4294967296 ∧ a ≤ (quotient a b).toNat * b := by
  have hbpos : (0 : ℚ) < b := by exact_mod_cast hb
  have hcast : (((quotient a b).toNat : Nat) : ℚ) = (quotient a b : ℚ) := by
    exact_mod_cast congrArg (Int.cast : Int → ℚ) (Int.toNat_of_nonneg (quotient_pos ha hb).le)
  have hle : ⌈(a : ℚ) / b⌉ ≤ quotient a b ↔ a ≤ (quotient a b).toNat * b := by
    rw [Int.ceil_le, div_le_iff₀ hbpos, ← hcast]
    exact_mod_cast Iff.rfl
  exact ⟨fun h => ⟨h.lt, hle.mp h.le⟩, fun h => ⟨h.1, hle.mpr h.2⟩⟩

/-! ## Bursts into the memory -/

/-- The bytes around a number of bursts. -/
def around (bytes : List Nat) (k : Nat) : List Nat :=
  l.trickleSeq_pre ++ (List.replicate k bytes).flatten ++ stopCnt

theorem triggerCount_around {bytes : List Nat} {ntrig : Nat} (h : Counts bytes ntrig) (k : Nat) :
    triggerCount 0 (l.around bytes k) = ntrig * k := by
  have hall := (l.counts_trickleSeq_pre.append (h.flatten_replicate k)).append
    (Counts.fast_command ABC_HIT_COUNT_STOP 0)
  have hnil := hall []
  rw [List.append_nil, Nat.zero_add] at hnil
  exact hnil

theorem length_around (bytes : List Nat) (k : Nat) :
    (l.around bytes k).length = l.fixedBytes + k * bytes.length := by
  unfold around fixedBytes
  rw [List.length_append, List.length_append, List.length_flatten, List.map_replicate,
    List.sum_replicate_nat]
  omega

theorem around_ne_nil (bytes : List Nat) (k : Nat) : l.around bytes k ≠ [] := by
  unfold around
  exact List.append_ne_nil_of_right_ne_nil _ (List.cons_ne_nil _ _)

/-- The bursts that are needed or fit. -/
def bursts (memSize ntrig burstSize : Nat) : Nat :=
  min (quotient l.m_trigCnt ntrig).toNat ((memSize - l.fixedBytes) / burstSize)

theorem bursts_pos {memSize ntrig burstSize : Nat} (hcnt : 0 < l.m_trigCnt) (hntrig : 0 < ntrig)
    (hsize : 0 < burstSize) (hfits : l.fixedBytes + burstSize ≤ memSize) :
    0 < l.bursts memSize ntrig burstSize := by
  have hneed := quotient_pos hcnt hntrig
  have hmax : 0 < (memSize - l.fixedBytes) / burstSize := Nat.div_pos (by omega) hsize
  unfold bursts
  omega

theorem bursts_mul_le (memSize ntrig burstSize : Nat) :
    l.bursts memSize ntrig burstSize * burstSize ≤ memSize - l.fixedBytes :=
  le_trans (Nat.mul_le_mul_right burstSize (Nat.min_le_right _ _)) (Nat.div_mul_le_self _ _)

theorem repeatBurst_eq {memSize ntrig : Nat} {bytes : List Nat} (hroom : l.fixedBytes ≤ memSize)
    (hne : bytes ≠ []) :
    l.repeatBurst memSize bytes ntrig = (do
      let _ ← ceilQuotient l.m_trigCnt ntrig
      let nPulse ← ceilQuotient l.m_trigCnt (ntrig * l.bursts memSize ntrig bytes.length)
      return { l with
        m_trickleSeq := l.around bytes (l.bursts memSize ntrig bytes.length)
        m_nTrigsTrickle := ntrig * l.bursts memSize ntrig bytes.length
        m_nPulse := nPulse
        m_trigCnt := nPulse * (ntrig * l.bursts memSize ntrig bytes.length) % 4294967296 }) := by
  have hlength : bytes.length ≠ 0 := fun h => hne (List.length_eq_zero_iff.mp h)
  unfold repeatBurst
  show (subtract memSize l.fixedBytes >>= fun _ => _) = _
  rw [subtract_eq hroom, ok_bind, divide_eq hlength, ok_bind]
  cases hneed : ceilQuotient l.m_trigCnt ntrig with
  | error fault => rfl
  | ok nBurstNeed =>
      rcases ceilQuotient_eq_ok hneed with ⟨_, _, rfl⟩
      rfl

theorem repeatBurst_iff {ntrig : Nat} {bytes : List Nat} (hcnt : 0 < l.m_trigCnt)
    (hne : bytes ≠ []) (hntrig : 0 < ntrig) (hcounts : Counts bytes ntrig)
    (hfits : l.fixedBytes + bytes.length ≤ 2 ^ l.m_seqMemAddrWidth) :
    (∃ l', l.repeatBurst (2 ^ l.m_seqMemAddrWidth) bytes ntrig = .ok l' ∧ l.Sends l') ↔
      quotient l.m_trigCnt ntrig < 4294967296 ∧ RoundsUp l.m_trigCnt
        (ntrig * l.bursts (2 ^ l.m_seqMemAddrWidth) ntrig bytes.length) := by
  have hseq : 0 < ntrig * l.bursts (2 ^ l.m_seqMemAddrWidth) ntrig bytes.length :=
    Nat.mul_pos hntrig (l.bursts_pos hcnt hntrig (List.length_pos_iff.mpr hne) hfits)
  rw [l.repeatBurst_eq (by omega) hne, roundsUp_iff hcnt hseq]
  constructor
  · rintro ⟨l', hl', hsends⟩
    cases hneed : ceilQuotient l.m_trigCnt ntrig with
    | error fault =>
        rw [hneed] at hl'
        cases hl'
    | ok nBurstNeed =>
        rw [hneed, ok_bind] at hl'
        cases hpulse : ceilQuotient l.m_trigCnt
            (ntrig * l.bursts (2 ^ l.m_seqMemAddrWidth) ntrig bytes.length) with
        | error fault =>
            rw [hpulse] at hl'
            cases hl'
        | ok nPulse =>
            rw [hpulse] at hl'
            cases hl'
            rcases ceilQuotient_eq_ok hpulse with ⟨_, hlt, rfl⟩
            rcases hsends.2.2 with hempty | henough
            · exact absurd hempty (l.around_ne_nil _ _)
            · exact ⟨(ceilQuotient_eq_ok hneed).2.1, hlt, henough⟩
  · rintro ⟨hneed, hlt, henough⟩
    rw [ceilQuotient_eq hntrig.ne' hneed, ok_bind, ceilQuotient_eq hseq.ne' hlt]
    have hbytes : (l.around bytes (l.bursts (2 ^ l.m_seqMemAddrWidth) ntrig bytes.length)).length ≤
        2 ^ l.m_seqMemAddrWidth := by
      have hmul := l.bursts_mul_le (2 ^ l.m_seqMemAddrWidth) ntrig bytes.length
      rw [length_around]
      omega
    exact ⟨_, rfl, l.triggerCount_around hcounts _, hbytes, Or.inr henough⟩

end Budget

/-! ## Small counts -/

theorem quotient_eq {a b : Nat} (ha : a < 16777216) (hb : 0 < b) (hb' : b < 16777216) :
    quotient a b = ⌈(a : ℚ) / b⌉ := Single.ceilDiv_ofNat ha hb hb'

theorem roundsUp_of_lt {a b : Nat} (ha : a < 16777216) (hb : 0 < b) (hb' : b < 16777216) :
    RoundsUp a b := by
  have hone : (1 : ℚ) ≤ b := by exact_mod_cast hb
  have hle : ⌈(a : ℚ) / b⌉ ≤ (a : Int) := by
    rw [Int.ceil_le]
    exact_mod_cast div_le_self (Nat.cast_nonneg a) hone
  have heq := quotient_eq ha hb hb'
  exact ⟨by omega, heq.ge⟩

theorem mul_quotient_lt {a b : Nat} (ha : a < 16777216) (hb : 0 < b) (hb' : b < 16777216) :
    b * (quotient a b).toNat < a + b := by
  have hbpos : (0 : ℚ) < b := by exact_mod_cast hb
  have hnonneg : 0 ≤ ⌈(a : ℚ) / b⌉ := Int.ceil_nonneg (div_nonneg (Nat.cast_nonneg a) hbpos.le)
  have hlt : ((⌈(a : ℚ) / b⌉ : Int) : ℚ) * b < a + b := by
    have hceil := mul_lt_mul_of_pos_right (Int.ceil_lt_add_one ((a : ℚ) / b)) hbpos
    rw [add_mul, div_mul_cancel₀ _ hbpos.ne', one_mul] at hceil
    exact hceil
  have hint : ⌈(a : ℚ) / b⌉ * (b : Int) < a + b := by exact_mod_cast hlt
  rw [quotient_eq ha hb hb', Nat.mul_comm]
  have hnat : (((⌈(a : ℚ) / b⌉).toNat : Nat) : Int) = ⌈(a : ℚ) / b⌉ := Int.toNat_of_nonneg hnonneg
  rw [← hnat] at hint
  exact_mod_cast hint

section Burst

variable {D : Type} [Frequency D] (l : StarFelixTriggerLoop D)

/-- What a burst does with the frequency where there is one segment only. -/
def burstLoop (nMaxSeg : Nat) : StarFelixTriggerLoop D :=
  if nMaxSeg < 2 then { l with m_trigFreq := freq (-1) } else l

theorem makeBurst_eq {memSize p nMaxSeg : Nat} {seg : List Nat} (hp : p ≠ 0) :
    l.makeBurst memSize seg p nMaxSeg = (do
      let r ← (l.burstLoop nMaxSeg).getTriggerSegment (l.burstTriggers p nMaxSeg % p)
      r.2.2.repeatBurst memSize
        ((List.replicate (l.burstSegments p nMaxSeg) seg).flatten ++ r.1 ++ r.2.2.hitcount_seg)
        (l.burstTriggers p nMaxSeg)) := by
  have hcnt : (l.burstLoop nMaxSeg).m_trigCnt = l.m_trigCnt := by
    unfold burstLoop
    split <;> rfl
  have hchoice : (if min 250 l.m_trigCnt / p ≥ nMaxSeg then (nMaxSeg, nMaxSeg * p)
      else (min 250 l.m_trigCnt / p, min 250 l.m_trigCnt)) =
      (l.burstSegments p nMaxSeg, l.burstTriggers p nMaxSeg) := by
    unfold burstSegments burstTriggers wanted
    split <;> rfl
  have hdef : l.makeBurst memSize seg p nMaxSeg = (do
      let nSeg_per_burst ← divide (min 250 (l.burstLoop nMaxSeg).m_trigCnt) p
      let choice :=
        if nSeg_per_burst ≥ nMaxSeg then (nMaxSeg, nMaxSeg * p)
        else (nSeg_per_burst, min 250 (l.burstLoop nMaxSeg).m_trigCnt)
      let r ← (l.burstLoop nMaxSeg).getTriggerSegment (choice.2 % p)
      r.2.2.repeatBurst memSize
        ((List.replicate choice.1 seg).flatten ++ r.1 ++ r.2.2.hitcount_seg) choice.2) := rfl
  rw [hdef, hcnt, divide_eq hp, ok_bind, hchoice]

/-- A whole segment, and segments for the triggers that are left over. -/
structure Segments (seg : List Nat) (p : Nat) (lastBytes : Nat → Nat) : Prop where
  pos : 0 < p
  le : p ≤ 250
  counts : Counts seg p
  ne_nil : seg ≠ []
  zero : lastBytes 0 = 0
  last : ∀ r, 0 < r → r < p → ∃ last k x,
    l.getTriggerSegment r = .ok (last, k, { l with m_trigFreq := x }) ∧ Counts last r ∧
      last.length = lastBytes r
  last_le : ∀ r, 0 < r → r < p → lastBytes r ≤ seg.length

/-- The condition on the triggers asked for, where `nMaxSeg` segments fit. -/
structure Divides (p nMaxSeg segBytes : Nat) (lastBytes : Nat → Nat) : Prop where
  asked : 0 < l.m_trigCnt
  whole : nMaxSeg = 1 → p ≤ l.m_trigCnt
  need : quotient l.m_trigCnt (l.burstTriggers p nMaxSeg) < 4294967296
  pulses : RoundsUp l.m_trigCnt (l.burstTriggers p nMaxSeg *
    l.bursts (2 ^ l.m_seqMemAddrWidth) (l.burstTriggers p nMaxSeg)
      (l.burstBytes p nMaxSeg segBytes (lastBytes (l.burstTriggers p nMaxSeg % p))))

variable {l} {seg : List Nat} {p : Nat} {lastBytes : Nat → Nat} {nMaxSeg : Nat}

/-- The bursts with a segment for the triggers left over. -/
theorem repeatBurst_burst_iff (h : l.Segments seg p lastBytes) (hmax : 0 < nMaxSeg)
    (hfits : l.fixedBytes + l.hitBytes + nMaxSeg * seg.length ≤ 2 ^ l.m_seqMemAddrWidth)
    (hcnt : 0 < l.m_trigCnt) (hwhole : nMaxSeg = 1 → p ≤ l.m_trigCnt) {last : List Nat}
    (hlast : Counts last (l.burstTriggers p nMaxSeg % p))
    (hbytes : last.length = lastBytes (l.burstTriggers p nMaxSeg % p)) (x : D) :
    (∃ l', ({ l with m_trigFreq := x } : StarFelixTriggerLoop D).repeatBurst
        (2 ^ l.m_seqMemAddrWidth) (l.burst seg last p nMaxSeg) (l.burstTriggers p nMaxSeg) =
          .ok l' ∧ l.Sends l') ↔
      l.Divides p nMaxSeg seg.length lastBytes := by
  have htriggers := l.burstTriggers_pos hcnt h.pos hmax
  have hcounts := l.counts_burst h.counts hlast
  have hne : l.burst seg last p nMaxSeg ≠ [] := by
    intro hempty
    have hnone := hcounts []
    rw [hempty] at hnone
    change 0 = _ + 0 at hnone
    omega
  have hlength := l.length_burst seg last p nMaxSeg
  have hle : l.burstBytes p nMaxSeg seg.length (lastBytes (l.burstTriggers p nMaxSeg % p)) ≤
      nMaxSeg * seg.length + l.hitBytes :=
    l.burstBytes_le h.zero h.last_le h.pos
  rw [hbytes] at hlength
  have hroom : l.fixedBytes + (l.burst seg last p nMaxSeg).length ≤ 2 ^ l.m_seqMemAddrWidth := by
    omega
  have hiff := ({ l with m_trigFreq := x } : StarFelixTriggerLoop D).repeatBurst_iff hcnt hne
    htriggers hcounts hroom
  rw [hlength] at hiff
  exact hiff.trans
    ⟨fun hboth => ⟨hcnt, hwhole, hboth.1, hboth.2⟩, fun hdiv => ⟨hdiv.need, hdiv.pulses⟩⟩

omit [Frequency D] in
theorem burstTriggers_zero (hcnt : l.m_trigCnt = 0) (hmax : 0 < nMaxSeg) :
    l.burstTriggers p nMaxSeg = 0 := by
  unfold burstTriggers wanted
  rw [hcnt, Nat.min_zero, Nat.zero_div, if_neg (by omega)]

theorem makeBurst_zero (hp : p ≠ 0) (hcnt : l.m_trigCnt = 0) (hmax : 0 < nMaxSeg)
    {memSize : Nat} (hroom : l.fixedBytes ≤ memSize) :
    l.makeBurst memSize seg p nMaxSeg = .error .divideByZero := by
  have hfree : ∀ (m : StarFelixTriggerLoop D) (bytes : List Nat), m.fixedBytes ≤ memSize →
      m.repeatBurst memSize bytes 0 = .error .divideByZero := by
    intro m bytes hm
    by_cases hne : bytes = []
    · subst hne
      unfold repeatBurst
      show (subtract memSize m.fixedBytes >>= fun _ => _) = _
      rw [subtract_eq hm]
      rfl
    · rw [m.repeatBurst_eq hm hne]
      rfl
  rw [l.makeBurst_eq hp, burstTriggers_zero hcnt hmax, Nat.zero_mod, getTriggerSegment_zero,
    ok_bind]
  apply hfree
  unfold burstLoop
  split <;> exact hroom

omit [Frequency D] in
theorem burstTriggers_le (p nMaxSeg : Nat) : l.burstTriggers p nMaxSeg ≤ min 250 l.m_trigCnt := by
  unfold burstTriggers wanted
  split
  · rename_i hall
    exact le_trans (Nat.mul_le_mul_right p hall) (Nat.div_mul_le_self _ _)
  · exact le_refl _

omit [Frequency D] in
theorem divides_of_lt (hp : 0 < p) (hmax : 0 < nMaxSeg) {segBytes : Nat}
    (hasked : 0 < l.m_trigCnt) (hwhole : nMaxSeg = 1 → p ≤ l.m_trigCnt)
    (hcnt : l.m_trigCnt + 250 ≤ 16777216)
    (hbursts : 0 < l.bursts (2 ^ l.m_seqMemAddrWidth) (l.burstTriggers p nMaxSeg)
      (l.burstBytes p nMaxSeg segBytes (lastBytes (l.burstTriggers p nMaxSeg % p)))) :
    l.Divides p nMaxSeg segBytes lastBytes := by
  have hpos := l.burstTriggers_pos hasked hp hmax
  have hle := burstTriggers_le (l := l) p nMaxSeg
  have hneed := (roundsUp_of_lt (by omega : l.m_trigCnt < 16777216) hpos (by omega)).lt
  have hlt := mul_quotient_lt (by omega : l.m_trigCnt < 16777216) hpos (by omega)
  have hsome : l.burstTriggers p nMaxSeg * l.bursts (2 ^ l.m_seqMemAddrWidth)
      (l.burstTriggers p nMaxSeg)
      (l.burstBytes p nMaxSeg segBytes (lastBytes (l.burstTriggers p nMaxSeg % p))) <
        16777216 := by
    have hmul := Nat.mul_le_mul_left (l.burstTriggers p nMaxSeg) (Nat.min_le_left
      (quotient l.m_trigCnt (l.burstTriggers p nMaxSeg)).toNat
      ((2 ^ l.m_seqMemAddrWidth - l.fixedBytes) /
        (l.burstBytes p nMaxSeg segBytes (lastBytes (l.burstTriggers p nMaxSeg % p)))))
    unfold bursts
    omega
  exact ⟨hasked, hwhole, hneed, roundsUp_of_lt (by omega) (Nat.mul_pos hpos hbursts) hsome⟩

variable [LawfulFrequency D]

theorem makeBurst_iff (h : l.Segments seg p lastBytes) (hmax : 0 < nMaxSeg)
    (hfits : l.fixedBytes + l.hitBytes + nMaxSeg * seg.length ≤ 2 ^ l.m_seqMemAddrWidth) :
    (∃ l', l.makeBurst (2 ^ l.m_seqMemAddrWidth) seg p nMaxSeg = .ok l' ∧ l.Sends l') ↔
      l.Divides p nMaxSeg seg.length lastBytes := by
  by_cases hcnt : l.m_trigCnt = 0
  · rw [makeBurst_zero h.pos.ne' hcnt hmax (by omega)]
    apply iff_of_false
    · rintro ⟨l', hl', _⟩
      cases hl'
    · exact fun hdiv => absurd hcnt hdiv.asked.ne'
  · have hpos : 0 < l.m_trigCnt := Nat.pos_of_ne_zero hcnt
    rw [l.makeBurst_eq h.pos.ne']
    by_cases hr : l.burstTriggers p nMaxSeg % p = 0
    · have hwhole : nMaxSeg = 1 → p ≤ l.m_trigCnt := by
        intro hone
        subst hone
        exact (l.burst_one hpos h.pos h.le).mp hr
      have hloop : ∃ x, l.burstLoop nMaxSeg = { l with m_trigFreq := x } := by
        unfold burstLoop
        split
        · exact ⟨_, rfl⟩
        · exact ⟨_, rfl⟩
      rcases hloop with ⟨x, hx⟩
      have hnil : Counts [] (l.burstTriggers p nMaxSeg % p) := by
        rw [hr]
        exact Counts.nil
      have hzero : ([] : List Nat).length = lastBytes (l.burstTriggers p nMaxSeg % p) := by
        rw [hr, h.zero]
        rfl
      have hiff := repeatBurst_burst_iff h hmax hfits hpos hwhole hnil hzero x
      rw [hr, getTriggerSegment_zero, ok_bind, hx]
      exact hiff
    · have hrpos := Nat.pos_of_ne_zero hr
      have hlt := Nat.mod_lt (l.burstTriggers p nMaxSeg) h.pos
      by_cases hone : nMaxSeg = 1
      · -- the frequency for a single segment leaves none for the triggers left over
        subst hone
        have hloop : l.burstLoop 1 = { l with m_trigFreq := freq (-1) } := rfl
        rw [hloop, l.getTriggerSegment_invalid hr]
        apply iff_of_false
        · rintro ⟨l', hl', _⟩
          cases hl'
        · exact fun hdiv => hr ((l.burst_one hpos h.pos h.le).mpr (hdiv.whole rfl))
      · have hloop : l.burstLoop nMaxSeg = l := if_neg (by omega)
        rcases h.last _ hrpos hlt with ⟨last, k, x, hsegment, hcounts, hbytes⟩
        rw [hloop, hsegment, ok_bind]
        exact repeatBurst_burst_iff h hmax hfits hpos (fun heq => absurd heq hone) hcounts hbytes x

end Burst

end StarFelixTriggerLoop

end Yarr.Star
