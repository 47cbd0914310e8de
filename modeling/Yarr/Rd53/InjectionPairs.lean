import Yarr.Rd53.DoubleInjection

/-!
# Both trains behind their injections

The checks of two commands, and for either scheme the words that are sent:
where the commands lie, where the trains begin, and that nothing else is
requested.
-/

namespace Yarr.Rd53

namespace Rd53a2TriggerLoop

variable {loop : Rd53a2TriggerLoop}

/-! ## The smallest delay -/

/-- Frames between a first command at the edge `n + 4` and the end of its train. -/
def framesUsed (loop : Rd53a2TriggerLoop) (n : Nat) : Int :=
  ((loop.m_trigDelay.toNat : Int) + n + loop.m_Ntrig1.toNat - 14) / 8

structure Near (loop : Rd53a2TriggerLoop) : Prop where
  delay : 8 ≤ loop.m_trigDelay.toNat ∧ loop.m_trigDelay.toNat ≤ 160
  triggers : 0 < loop.m_Ntrig1.toNat ∧ loop.m_Ntrig1.toNat ≤ 16

theorem smallestStep_frames (h : loop.Near) {k : Int8} {n : Nat} (hn : n < 8) :
    loop.smallestStep k n
      = if k.toInt < loop.framesUsed n then Int8.ofInt (loop.framesUsed n) else k := by
  have hdelay := h.delay
  have htriggers := h.triggers
  have h9 : (9 : UInt32).toNat = 9 := rfl
  have h8 : (8 : UInt32).toNat = 8 := rfl
  have h1 : (1 : UInt32).toNat = 1 := rfl
  have hempty : (loop.m_trigDelay + UInt32.ofNat (n + 4) - 9).toNat
      = loop.m_trigDelay.toNat + n - 5 := by
    rw [UInt32.toNat_sub, UInt32.toNat_add, UInt32.toNat_ofNat', h9]
    omega
  generalize hval : loop.m_trigDelay + UInt32.ofNat (n + 4) - 9 = empty at hempty
  have hframes : (empty / 8).toUInt8.toNat = empty.toNat / 8 := by
    rw [UInt32.toNat_toUInt8, UInt32.toNat_div, h8]
    omega
  have hfull : ((loop.m_Ntrig1 - (8 - empty % 8) - 1) / 8).toUInt8.toInt8.toInt
      = ((loop.m_Ntrig1.toNat : Int) + (empty.toNat % 8 : Nat) - 9) / 8 := by
    have hbyte : ∀ b : UInt8, b.toInt8.toInt
        = if 2 * b.toNat < 2 ^ 8 then (b.toNat : Int) else b.toNat - 2 ^ 8 :=
      fun b => BitVec.toInt_eq_toNat_cond b.toBitVec
    have hdiv : ((loop.m_Ntrig1 - (8 - empty % 8) - 1) / 8).toUInt8.toNat
        = (2 ^ 32 + loop.m_Ntrig1.toNat + empty.toNat % 8 - 9) % 2 ^ 32 / 8 % 2 ^ 8 := by
      rw [UInt32.toNat_toUInt8, UInt32.toNat_div, UInt32.toNat_sub, UInt32.toNat_sub,
        UInt32.toNat_sub, UInt32.toNat_mod, h8, h1]
      omega
    rw [hbyte, hdiv]
    split <;> omega
  have hsum : ((empty / 8).toUInt8.toNat : Int)
        + ((loop.m_Ntrig1 - (8 - empty % 8) - 1) / 8).toUInt8.toInt8.toInt
      = loop.framesUsed n := by
    rw [hframes, hfull, hempty, framesUsed]
    omega
  unfold smallestStep
  simp only [hval, hsum]

theorem smallestStep_run (h : loop.Near) (turns : List Nat) (hturns : ∀ n ∈ turns, n < 8)
    (k : Int8) (hk : k.toInt ≤ 21) :
    k.toInt ≤ (turns.foldl loop.smallestStep k).toInt ∧
      (turns.foldl loop.smallestStep k).toInt ≤ 21 ∧
      ∀ n ∈ turns, loop.framesUsed n ≤ (turns.foldl loop.smallestStep k).toInt := by
  have hdelay := h.delay
  have htriggers := h.triggers
  induction turns generalizing k with
  | nil => exact ⟨le_rfl, hk, fun n hn => absurd hn List.not_mem_nil⟩
  | cons n turns ih =>
      have hn := hturns n List.mem_cons_self
      have hbounds : -2 ≤ loop.framesUsed n ∧ loop.framesUsed n ≤ 21 := by
        unfold framesUsed
        omega
      have hstep : k.toInt ≤ (loop.smallestStep k n).toInt ∧
          (loop.smallestStep k n).toInt ≤ 21 ∧
          loop.framesUsed n ≤ (loop.smallestStep k n).toInt := by
        rw [smallestStep_frames h hn]
        by_cases hless : k.toInt < loop.framesUsed n
        · rw [if_pos hless, Int8.toInt_ofInt_of_le (by omega) (by omega)]
          exact ⟨hless.le, hbounds.2, le_rfl⟩
        · rw [if_neg hless]
          exact ⟨le_rfl, hk, not_lt.mp hless⟩
      have hrest := ih (fun m hm => hturns m (List.mem_cons_of_mem _ hm))
        (loop.smallestStep k n) hstep.2.1
      rw [List.foldl_cons]
      refine ⟨hstep.1.trans hrest.1, hrest.2.1, fun m hm => ?_⟩
      rcases List.mem_cons.mp hm with rfl | hm
      · exact hstep.2.2.trans hrest.1
      · exact hrest.2.2 m hm

theorem le_findSmallestDelay (h : loop.Near) :
    loop.m_trigDelay.toNat + loop.m_Ntrig1.toNat + 7 ≤ loop.findSmallestDelay.toNat := by
  have hdelay := h.delay
  have htriggers := h.triggers
  have hne : loop.m_Ntrig1 ≠ 0 := by
    intro hzero
    rw [hzero] at htriggers
    exact absurd htriggers.1 (by decide)
  have hlow : (-10 : Int8).toInt = -10 := rfl
  rcases smallestStep_run h (List.range 8) (fun n hn => List.mem_range.mp hn) (-10)
    (by rw [hlow]; decide) with ⟨_, hhigh, hall⟩
  have hlast := hall 7 (by decide)
  unfold findSmallestDelay
  rw [if_neg hne]
  generalize ((List.range 8).foldl loop.smallestStep (-10)).toInt = k at hhigh hlast
  unfold framesUsed at hlast
  rw [UInt8.ofInt, UInt8.toNat_ofNat']
  omega

/-! ## What the checks leave -/

/-- Two commands that the checks let through. -/
structure Checked (loop : Rd53a2TriggerLoop) (D : Nat) : Prop where
  floor : ⌊loop.m_doubleDelay⌋ = D
  delays : 8 ≤ loop.m_trigDelay.toNat ∧ 8 ≤ loop.m_trigDelay2.toNat ∧
    loop.m_trigDelay.toNat + loop.m_trigDelay2.toNat ≤ 168
  apart : 0 < loop.m_Ntrig1.toNat →
    loop.m_trigDelay.toNat + loop.m_Ntrig1.toNat + 7 ≤ D
  low : 16 ≤ D
  high : D + 8 * loop.shift + 8 * ((loop.m_trigDelay2.toNat + loop.m_Ntrig2.toNat) / 8) ≤ 219

theorem triggers_le (hok : loop.Accepted) :
    loop.m_Ntrig1.toNat ≤ 16 ∧ loop.m_Ntrig2.toNat ≤ 16 := by
  have hverify := hok.1
  unfold verifyParameters at hverify
  have hcond : loop.m_Ntrig2 ≤ 16 ∧ loop.m_Ntrig1 ≤ 16 := by
    by_contra hnot
    rw [if_neg hnot] at hverify
    omega
  exact ⟨UInt32.le_iff_toNat_le.mp hcond.2, UInt32.le_iff_toNat_le.mp hcond.1⟩

theorem checked_of_accepted (hok : loop.Accepted) (hrange : loop.InRange)
    (hdouble : 16 ≤ loop.m_doubleDelay) : ∃ D, loop.Checked D := by
  have htriggers := triggers_le hok
  have hverify := hok.1
  unfold verifyParameters at hverify
  rw [if_pos hdouble] at hverify
  have hdelays : 8 ≤ loop.m_trigDelay ∧ 8 ≤ loop.m_trigDelay2 ∧
      loop.m_trigDelay + loop.m_trigDelay2 ≤ 168 := by
    by_contra hnot
    rw [if_neg hnot] at hverify
    omega
  have hsmallest : ¬ (loop.findSmallestDelay.toNat : ℚ) > loop.m_doubleDelay := by
    intro hgt
    rw [if_pos hgt] at hverify
    omega
  have hgreatest : ¬ (loop.greatestDelay.toNat : ℚ) < loop.m_doubleDelay := by
    intro hlt
    rw [if_pos hlt] at hverify
    omega
  have h8 : (8 : UInt32).toNat = 8 := rfl
  have hlow1 : 8 ≤ loop.m_trigDelay.toNat := UInt32.le_iff_toNat_le.mp hdelays.1
  have hlow2 : 8 ≤ loop.m_trigDelay2.toNat := UInt32.le_iff_toNat_le.mp hdelays.2.1
  have hdelay := hrange.delay
  have hdelay2 := hrange.delay2
  have hsum : loop.m_trigDelay.toNat + loop.m_trigDelay2.toNat ≤ 168 := by
    have hle := UInt32.le_iff_toNat_le.mp hdelays.2.2
    have h168 : (168 : UInt32).toNat = 168 := rfl
    rw [UInt32.toNat_add, h168] at hle
    omega
  have hgreatestNat : loop.greatestDelay.toNat + 8 * loop.shift
      + 8 * ((loop.m_trigDelay2.toNat + loop.m_Ntrig2.toNat) / 8) = 219 := by
    have hsyn : loop.synWords.toNat = loop.shift := by
      unfold synWords shift
      split <;> rfl
    have hshift := shift_le loop
    have h32 : m_trigWordLength.toNat = 32 := rfl
    have h1 : (1 : UInt32).toNat = 1 := rfl
    have h5 : (5 : UInt32).toNat = 5 := rfl
    have h7 : (7 : UInt32).toNat = 7 := rfl
    have h9 : (9 : UInt32).toNat = 9 := rfl
    rw [greatestDelay, UInt32.toNat_toUInt8, UInt32.toNat_add, UInt32.toNat_add,
      UInt32.toNat_sub, UInt32.toNat_sub, UInt32.toNat_mul, UInt32.toNat_mul, UInt32.toNat_sub,
      UInt32.toNat_sub, UInt32.toNat_sub, UInt32.toNat_div, UInt32.toNat_add, hsyn, h32, h1, h5,
      h7, h8, h9]
    omega
  have hfloor : 16 ≤ ⌊loop.m_doubleDelay⌋ := Int.le_floor.mpr (by exact_mod_cast hdouble)
  have hnat : ((⌊loop.m_doubleDelay⌋.toNat : Nat) : Int) = ⌊loop.m_doubleDelay⌋ :=
    Int.toNat_of_nonneg (by omega)
  have hhigh : ⌊loop.m_doubleDelay⌋ ≤ loop.greatestDelay.toNat := by
    have hle : (⌊loop.m_doubleDelay⌋ : ℚ) ≤ ((loop.greatestDelay.toNat : Int) : ℚ) :=
      (Int.floor_le _).trans (not_lt.mp hgreatest)
    exact_mod_cast hle
  refine ⟨⌊loop.m_doubleDelay⌋.toNat, hnat.symm, ⟨hlow1, hlow2, hsum⟩, fun hpos => ?_,
    by omega, by omega⟩
  have hnear : loop.Near := ⟨⟨hlow1, by omega⟩, hpos, htriggers.1⟩
  have hsmall := le_findSmallestDelay hnear
  have hle : (loop.findSmallestDelay.toNat : Int) ≤ ⌊loop.m_doubleDelay⌋ :=
    Int.le_floor.mpr (not_lt.mp hsmallest)
  omega

/-! ## What is to be sent -/

/-- The command of the first injection. -/
def firstInject (loop : Rd53a2TriggerLoop) : Option UInt32 :=
  if loop.m_doubleDelay < 16 then loop.m_edgeDuration.map loop.singleCommand
  else (toInt loop.m_doubleDelay).map fun doubleDelay => firstCommand (m_edgeDelay doubleDelay)

/-- From the beginning of its word to the first injection. -/
def firstInjDelay (loop : Rd53a2TriggerLoop) : Nat :=
  if loop.m_doubleDelay < 16 then 8 else 11 - (⌊loop.m_doubleDelay⌋.toNat - 4) % 8

/-- Where the second train begins, after a first injection at `inject`. -/
def SecondTrain (loop : Rd53a2TriggerLoop) (words : TrigWords) (inject start : Nat) : Prop :=
  if loop.m_doubleDelay < 16 then
    start = inject + (loop.quarters + 2) / 4
      + if loop.m_noInject2 then 0 else loop.m_trigDelay2.toNat
  else if loop.m_noInject2 then start = inject + ⌊loop.m_doubleDelay⌋.toNat + 9
  else ∃ k, k + 1 < 32 ∧ wordAt words (k + 1) = header ∧ wordAt words k = secondCommand ∧
    8 * (31 - k) = inject + ⌊loop.m_doubleDelay⌋.toNat + 1 ∧
    start = 8 * (31 - k) + loop.m_trigDelay2.toNat

/-- The commands and both trains, with the first command in the word `i` and the second train
from `second` on. -/
structure Sent (loop : Rd53a2TriggerLoop) (words : TrigWords) (i second : Nat) : Prop where
  index : loop.shift + 2 ≤ i ∧ i + 1 < 32
  command : wordAt words (i + 1) = header ∧ loop.firstInject = some (wordAt words i)
  secondTrain : loop.SecondTrain words (8 * (31 - i) + loop.firstInjDelay) second
  rearm : wordAt words (loop.shift + 1) = header ∧ wordAt words loop.shift = arm
  pulse : loop.m_synPulse = true → wordAt words 0 = pulse
  inside : (0 < loop.m_Ntrig1.toNat →
      8 * (31 - i) + loop.firstInjDelay + loop.m_trigDelay.toNat + loop.m_Ntrig1.toNat
        ≤ 8 * (30 - loop.shift)) ∧
    second + loop.m_Ntrig2.toNat ≤ 8 * (30 - loop.shift)
  triggers : ∀ p < 8 * 32, requests .lsbFirst words 32 p = true ↔
    Train (8 * (31 - i) + loop.firstInjDelay + loop.m_trigDelay.toNat) loop.m_Ntrig1.toNat p ∨
      Train second loop.m_Ntrig2.toNat p

/-- Both trains as they are before the last words. -/
def Trains (T1 n1 T2 n2 : Nat) (p : Nat) : Prop := Train T1 n1 p ∨ Train T2 n2 p

theorem Trains.late {T1 n1 T2 n2 : Nat} (h1 : 0 < n1 → T1 + n1 ≤ 240) (h2 : T2 + n2 ≤ 240)
    {p : Nat} (hp : Trains T1 n1 T2 n2 p) : p < 240 := by
  rcases hp with ⟨_, hlt⟩ | ⟨_, hlt⟩ <;> omega

theorem asInt_triggers {n : UInt32} (h : n.toNat ≤ 16) : asInt n = n.toNat :=
  asInt_of_lt (by omega)

/-! ## One command -/

theorem singleCmdInject_spec (hrange : loop.InRange) (hsingle : loop.m_doubleDelay < 16)
    (hn1 : loop.m_Ntrig1.toNat ≤ 16) (hn2 : loop.m_Ntrig2.toNat ≤ 16) :
    ∃ s of second, loop.singleCmdInject empty = some s ∧ 3 ≤ of ∧ of + loop.shift < 32 ∧
      second = 8 * (33 - of) + (loop.quarters + 2) / 4
        + (if loop.m_noInject2 then 0 else loop.m_trigDelay2.toNat) ∧
      8 * (33 - of) + loop.m_trigDelay.toNat + loop.m_Ntrig1.toNat ≤ 240 ∧
      second + loop.m_Ntrig2.toNat ≤ 240 ∧
      Shows s [(of - 1, loop.singleCommand (UInt32.ofNat loop.quarters)), (of, header)]
        (Trains (8 * (33 - of) + loop.m_trigDelay.toNat) loop.m_Ntrig1.toNat
          second loop.m_Ntrig2.toNat) := by
  rcases singleOffset_spec hrange hsingle hn2 with ⟨of, hof, hlt, hfirst, hsecond⟩
  rcases edge_spec hrange hsingle with ⟨hedge, hinj⟩
  have hquarters := quarters_bounds hrange hsingle
  have hofNat : (UInt8.ofNat of).toNat = of := toNat_ofNat_uint8 (by omega)
  have hsilent : Silent (loop.singleCommand (UInt32.ofNat loop.quarters)) := by
    unfold singleCommand
    split <;> exact silent_genCal _ _
  rcases shows_empty.putWord (j := (of : Int)) rfl (by omega) (by decide : Silent header)
    (fun c hc => absurd hc List.not_mem_nil) (fun k _ => not_false) with ⟨s₁, hs₁, hshows₁⟩
  rcases hshows₁.putWord (j := (of : Int) - 1) (i := of - 1) (by omega) (by omega) hsilent
    (fun c hc heq => by
      rw [List.mem_singleton.mp hc] at heq
      omega) (fun k _ => not_false) with ⟨s₂, hs₂, hshows₂⟩
  have hfree : ∀ c ∈ [(of - 1, loop.singleCommand (UInt32.ofNat loop.quarters)), (of, header)],
      ¬ c.1 + 2 ≤ of := by
    intro c hc
    rcases List.mem_cons.mp hc with rfl | hc
    · omega
    · rw [List.mem_singleton.mp hc]
      omega
  -- without a second injection the train is at its place all the same
  have hdelay2 : ∃ d : Nat, (if loop.m_noInject2 then 0 else asInt loop.m_trigDelay2) = (d : Int) ∧
      d ≤ loop.m_trigDelay2.toNat ∧
      d = if loop.m_noInject2 then 0 else loop.m_trigDelay2.toNat := by
    cases loop.m_noInject2 with
    | true => exact ⟨0, rfl, Nat.zero_le _, rfl⟩
    | false => exact ⟨loop.m_trigDelay2.toNat, asInt_of_lt hrange.delay2, le_rfl, rfl⟩
  rcases hdelay2 with ⟨d, hd, hdle, hdval⟩
  rcases @Shows.train s₂ _ _ hshows₂ of ((loop.quarters + 2) / 4 + d) loop.m_Ntrig2.toNat
    (8 + (((loop.quarters + 2) / 4 : Nat) : Int)) d hn2 (by omega)
    (fun _ => by push_cast; omega) (fun _ => by omega)
    (fun _ c hc hle => absurd hle (hfree c hc)) with ⟨s₃, hs₃, hshows₃⟩
  rcases @Shows.train s₃ _ _ hshows₃ of loop.m_trigDelay.toNat loop.m_Ntrig1.toNat 8
    loop.m_trigDelay.toNat hn1 (by omega) (fun _ => by omega) (fun _ => by omega)
    (fun _ c hc hle => absurd hle (hfree c hc)) with ⟨s₄, hs₄, hshows₄⟩
  refine ⟨s₄, of, 8 * (33 - of) + (loop.quarters + 2) / 4 + d, ?_, by omega, hlt,
    by rw [hdval], by omega, by omega, ?_⟩
  · unfold singleCmdInject
    rw [hof, Option.bind_some, hofNat, hs₁, Option.bind_some, hedge, Option.bind_some, hs₂,
      Option.bind_some, hinj, Option.bind_some, asInt_triggers hn2, hd, hs₃, Option.bind_some,
      asInt_triggers hn1, asInt_of_lt hrange.delay]
    exact hs₄
  · have hsame : (fun p => ((False ∨ Train (8 * (33 - of) + ((loop.quarters + 2) / 4 + d))
          loop.m_Ntrig2.toNat p) ∨
          Train (8 * (33 - of) + loop.m_trigDelay.toNat) loop.m_Ntrig1.toNat p))
        = Trains (8 * (33 - of) + loop.m_trigDelay.toNat) loop.m_Ntrig1.toNat
          (8 * (33 - of) + (loop.quarters + 2) / 4 + d) loop.m_Ntrig2.toNat := by
      funext p
      rw [false_or, Nat.add_assoc (8 * (33 - of))]
      exact propext Or.comm
    rw [← hsame]
    exact hshows₄

/-! ## Two commands -/

theorem toUInt8_half {a n : Nat} (hlt : a + n < 256) :
    toUInt8 ((2 * a + 1 : Nat) / 2 + n) = some (UInt8.ofNat (a + n)) := by
  have hsum : ((2 * a + 1 : Nat) : ℚ) / 2 + n
      = ((2 * (a + n) + 1 : Nat) : ℚ) / ((2 : Nat) : ℚ) := by
    push_cast
    ring
  have hfloor : ⌊((2 * a + 1 : Nat) : ℚ) / 2 + n⌋ = ((a + n : Nat) : Int) := by
    rw [hsum, Rat.floor_natCast_div_natCast]
    omega
  have hnonneg : (0 : ℚ) ≤ ((2 * a + 1 : Nat) : ℚ) / 2 + n := by positivity
  have hless : ((2 * a + 1 : Nat) : ℚ) / 2 + n < 256 := by
    have hcast : ((a + n : Nat) : ℚ) + 1 ≤ 256 := by exact_mod_cast hlt
    push_cast at hcast ⊢
    linarith
  rw [toUInt8_of_nonneg hnonneg hless, hfloor, Int.toNat_natCast]

section Double

variable {D : Nat} (h : loop.Checked D)

include h

theorem Checked.toInt : toInt loop.m_doubleDelay = some (D : Int) := by
  have hlow := h.low
  have hhigh := h.high
  have hfloor := h.floor
  have hle : (16 : Int) ≤ ⌊loop.m_doubleDelay⌋ := by omega
  have hnonneg : (0 : ℚ) ≤ loop.m_doubleDelay := by
    have hcast : ((16 : Int) : ℚ) ≤ loop.m_doubleDelay := Int.le_floor.mp hle
    norm_num at hcast
    linarith
  have hlt : loop.m_doubleDelay < 2 ^ 31 := by
    have hgt := Int.lt_floor_add_one loop.m_doubleDelay
    have hcast : ((⌊loop.m_doubleDelay⌋ + 1 : Int) : ℚ) ≤ ((220 : Int) : ℚ) := by
      exact_mod_cast show ⌊loop.m_doubleDelay⌋ + 1 ≤ 220 by omega
    push_cast at hcast
    linarith
  rw [toInt_of_nonneg hnonneg hlt, hfloor]

theorem Checked.edge : m_edgeDelay D = UInt32.ofNat (7 - (D - 4) % 8) := by
  have hlow := h.low
  have hvalue : 7 - ((D : Int) - 4).tmod 8 = ((7 - (D - 4) % 8 : Nat) : Int) := by
    rw [Int.tmod_eq_emod_of_nonneg (by omega)]
    omega
  apply UInt32.toNat_inj.mp
  rw [m_edgeDelay, hvalue, Bits.toNat_ofInt (by omega) (by omega), UInt32.toNat_ofNat']
  omega

theorem Checked.secondOffset (hn2 : loop.m_Ntrig2.toNat ≤ 16) :
    loop.secondOffset
      = UInt8.ofNat ((loop.m_trigDelay2.toNat + loop.m_Ntrig2.toNat) / 8) := by
  have hdelays := h.delays
  have h8 : (8 : UInt32).toNat = 8 := rfl
  apply UInt8.toNat_inj.mp
  rw [Rd53a2TriggerLoop.secondOffset, UInt32.toNat_toUInt8, UInt32.toNat_div, UInt32.toNat_add,
    h8, UInt8.toNat_ofNat']
  omega

theorem Checked.firstOffset (hn2 : loop.m_Ntrig2.toNat ≤ 16) :
    loop.firstOffset D = UInt8.ofNat
      (5 + (D - 4) / 8 + (loop.m_trigDelay2.toNat + loop.m_Ntrig2.toNat) / 8) := by
  have hdelays := h.delays
  have hlow := h.low
  have hhigh := h.high
  have hof2 : (UInt8.ofNat ((loop.m_trigDelay2.toNat + loop.m_Ntrig2.toNat) / 8)).toNat
      = (loop.m_trigDelay2.toNat + loop.m_Ntrig2.toNat) / 8 := toNat_ofNat_uint8 (by omega)
  have hdiv : ((D : Int) - 4).tdiv 8 = (((D - 4) / 8 : Nat) : Int) := by
    rw [Int.tdiv_eq_ediv_of_nonneg (by omega)]
    omega
  apply UInt8.toNat_inj.mp
  rw [Rd53a2TriggerLoop.firstOffset, h.secondOffset hn2, hof2, hdiv, UInt8.ofInt,
    UInt8.toNat_ofNat', UInt8.toNat_ofNat']
  omega

/-- The second command with its train, or the train alone. -/
theorem Checked.injectSecond (hrange : loop.InRange) (hn2 : loop.m_Ntrig2.toNat ≤ 16) {of2 : Nat}
    (hof2 : of2 = (loop.m_trigDelay2.toNat + loop.m_Ntrig2.toNat) / 8) :
    ∃ s cmds second, loop.injectSecond empty = some s ∧
      Shows s cmds (Train second loop.m_Ntrig2.toNat) ∧ (∀ c ∈ cmds, 2 ≤ c.1 ∧ c.1 ≤ 3 + of2) ∧
      second + loop.m_Ntrig2.toNat ≤ 240 ∧
      if loop.m_noInject2 then second = 8 * (30 - of2)
      else (3 + of2, header) ∈ cmds ∧ (2 + of2, secondCommand) ∈ cmds ∧
        second = 8 * (29 - of2) + loop.m_trigDelay2.toNat := by
  have hdelays := h.delays
  have hof2Nat : (UInt8.ofNat of2).toNat = of2 := toNat_ofNat_uint8 (by omega)
  have hoffset := h.secondOffset hn2
  rw [← hof2] at hoffset
  unfold Rd53a2TriggerLoop.injectSecond
  dsimp only
  rw [hoffset, hof2Nat, asInt_triggers hn2, asInt_of_lt hrange.delay2]
  have hnone : ∀ second : Nat, (fun p => False ∨ Train second loop.m_Ntrig2.toNat p)
      = Train second loop.m_Ntrig2.toNat := by
    intro second
    funext p
    exact false_or _
  cases loop.m_noInject2 with
  | true =>
      have hhalf : (5 / 2 + (of2 : ℚ)) = ((2 * 2 + 1 : Nat) : ℚ) / 2 + of2 := by norm_num
      have h255 : UInt8.ofNat (65528 / 8) = 255 := rfl
      -- eight triggers before the frame, and 255 empty frames for them
      rcases @Shows.flexibleTrigger empty [] _ shows_empty (UInt8.ofNat (2 + of2)) 0 0
        loop.m_Ntrig2.toNat 65528 (1 + of2) hn2 rfl (fun _ => by omega) (fun _ => by omega)
        (fun _ k hk => by
          rw [h255, UInt8.toNat_sub, UInt8.toNat_sub, UInt8.toNat_sub,
            toNat_ofNat_uint8 (show 2 + of2 < 256 by omega),
            toNat_ofNat_uint8 (show k < 256 by omega)]
          have h2 : (2 : UInt8).toNat = 2 := rfl
          have h255' : (255 : UInt8).toNat = 255 := rfl
          rw [h2, h255']
          omega)
        (fun _ c hc => absurd hc List.not_mem_nil) with ⟨s, hs, hshows⟩
      have hstart : 8 * (31 - (1 + of2)) + 65528 % 8 = 8 * (30 - of2) := by omega
      rw [hstart] at hshows
      rw [if_pos rfl, hhalf, toUInt8_half (by omega), Option.bind_some]
      refine ⟨s, [], 8 * (30 - of2), hs, ?_, fun c hc => absurd hc List.not_mem_nil, by omega, ?_⟩
      · rw [← hnone]
        exact hshows
      · rw [if_pos rfl]
  | false =>
      have hhalf : (7 / 2 + (of2 : ℚ)) = ((2 * 3 + 1 : Nat) : ℚ) / 2 + of2 := by norm_num
      rcases shows_empty.putWord (j := 3 + (of2 : Int)) (i := 3 + of2) (by push_cast; rfl)
        (by omega) (by decide : Silent header) (fun c hc => absurd hc List.not_mem_nil)
        (fun k _ => not_false) with ⟨s₁, hs₁, hshows₁⟩
      have hsilent : Silent secondCommand := silent_genCal _ _
      rcases hshows₁.putWord (j := 2 + (of2 : Int)) (i := 2 + of2) (by push_cast; rfl)
        (by omega) hsilent
        (fun c hc heq => by
          rw [List.mem_singleton.mp hc] at heq
          omega) (fun k _ => not_false) with ⟨s₂, hs₂, hshows₂⟩
      have hcmds : ∀ c ∈ [(2 + of2, secondCommand), (3 + of2, header)],
          2 + of2 ≤ c.1 ∧ c.1 ≤ 3 + of2 := by
        intro c hc
        rcases List.mem_cons.mp hc with rfl | hc
        · exact ⟨le_rfl, by omega⟩
        · rw [List.mem_singleton.mp hc]
          exact ⟨by omega, le_rfl⟩
      rcases @Shows.train s₂ _ _ hshows₂ (3 + of2) (loop.m_trigDelay2.toNat - 8)
        loop.m_Ntrig2.toNat 0 loop.m_trigDelay2.toNat hn2 (by omega) (fun _ => by omega)
        (fun _ => by omega)
        (fun _ c hc hle => by
          have hbelow := (hcmds c hc).1
          omega) with ⟨s₃, hs₃, hshows₃⟩
      have hstart : 8 * (33 - (3 + of2)) + (loop.m_trigDelay2.toNat - 8)
          = 8 * (29 - of2) + loop.m_trigDelay2.toNat := by omega
      rw [hstart] at hshows₃
      rw [if_neg (by decide), hs₁, Option.bind_some, hs₂, Option.bind_some, hhalf,
        toUInt8_half (by omega), Option.bind_some]
      refine ⟨s₃, [(2 + of2, secondCommand), (3 + of2, header)],
        8 * (29 - of2) + loop.m_trigDelay2.toNat, hs₃, ?_, fun c hc => ?_, by omega, ?_⟩
      · rw [← hnone]
        exact hshows₃
      · have hbelow := hcmds c hc
        omega
      · rw [if_neg (by decide)]
        exact ⟨List.mem_cons_of_mem _ List.mem_cons_self, List.mem_cons_self, rfl⟩

theorem Checked.doubleCmdInject (hrange : loop.InRange) (hn1 : loop.m_Ntrig1.toNat ≤ 16)
    (hn2 : loop.m_Ntrig2.toNat ≤ 16) {of2 o1 T1 : Nat}
    (hof2 : of2 = (loop.m_trigDelay2.toNat + loop.m_Ntrig2.toNat) / 8)
    (ho1 : o1 = 5 + (D - 4) / 8 + of2)
    (hT1 : T1 = 231 - D - 8 * of2) :
    ∃ s cmds second, loop.doubleCmdInject empty = some s ∧
      Shows s ((o1 - 1, firstCommand (m_edgeDelay D)) :: (o1, header) :: cmds)
        (Trains (T1 + loop.m_trigDelay.toNat) loop.m_Ntrig1.toNat second loop.m_Ntrig2.toNat) ∧
      (∀ c ∈ cmds, 2 ≤ c.1 ∧ c.1 ≤ 3 + of2) ∧
      second + loop.m_Ntrig2.toNat ≤ 240 ∧
      if loop.m_noInject2 then second = 8 * (30 - of2)
      else (3 + of2, header) ∈ cmds ∧ (2 + of2, secondCommand) ∈ cmds ∧
        second = 8 * (29 - of2) + loop.m_trigDelay2.toNat := by
  have hdelays := h.delays
  have hlow := h.low
  have hhigh := h.high
  have hapart := h.apart
  rcases h.injectSecond hrange hn2 hof2 with ⟨s₁, cmds, second, hs₁, hshows₁, hcmds, hlate, hplace⟩
  have hoffset := h.firstOffset hn2
  rw [← hof2, ← ho1] at hoffset
  have ho1Nat : (UInt8.ofNat o1).toNat = o1 := toNat_ofNat_uint8 (by omega)
  have hinj : asInt (m_edgeDelay D + 5 - 1) = ((11 - (D - 4) % 8 : Nat) : Int) := by
    have h5 : (5 : UInt32).toNat = 5 := rfl
    have h1 : (1 : UInt32).toNat = 1 := rfl
    have hsum : (m_edgeDelay D + 5 - 1).toNat = 11 - (D - 4) % 8 := by
      rw [h.edge, UInt32.toNat_sub, UInt32.toNat_add, UInt32.toNat_ofNat', h5, h1]
      omega
    rw [asInt_of_lt (by omega), hsum]
  rcases @Shows.train s₁ _ _ hshows₁ o1 (loop.m_trigDelay.toNat + (11 - (D - 4) % 8) - 8)
    loop.m_Ntrig1.toNat ((11 - (D - 4) % 8 : Nat) : Int) loop.m_trigDelay.toNat hn1 (by omega)
    (fun _ => by omega)
    (fun hpos => by
      have hpos := hapart hpos
      omega)
    (fun hpos c hc _ => by
      have hpos := hapart hpos
      have hbelow := (hcmds c hc).2
      omega) with ⟨s₂, hs₂, hshows₂⟩
  have hstart : 8 * (33 - o1) + (loop.m_trigDelay.toNat + (11 - (D - 4) % 8) - 8)
      = T1 + loop.m_trigDelay.toNat := by omega
  rw [hstart] at hshows₂
  have hboth : (fun p => Train second loop.m_Ntrig2.toNat p ∨
      Train (T1 + loop.m_trigDelay.toNat) loop.m_Ntrig1.toNat p)
      = Trains (T1 + loop.m_trigDelay.toNat) loop.m_Ntrig1.toNat second loop.m_Ntrig2.toNat := by
    funext p
    exact propext Or.comm
  rw [hboth] at hshows₂
  -- the trains are behind the first command
  have hquiet : ∀ i, o1 ≤ i + 1 → ∀ k < 8,
      ¬ Trains (T1 + loop.m_trigDelay.toNat) loop.m_Ntrig1.toNat second loop.m_Ntrig2.toNat
        (8 * (31 - i) + k) := by
    intro i hi k hk hp
    have hafter : 8 * (29 - of2) ≤ second := by
      cases hcase : loop.m_noInject2 with
      | true =>
          rw [hcase, if_pos rfl] at hplace
          omega
      | false =>
          rw [hcase, if_neg (by decide)] at hplace
          omega
    rcases hp with ⟨hge, _⟩ | ⟨hge, _⟩ <;> omega
  rcases hshows₂.putWord (j := (o1 : Int)) rfl (by omega) (by decide : Silent header)
    (fun c hc heq => by
      have hbelow := (hcmds c hc).2
      omega) (hquiet o1 (by omega)) with ⟨s₃, hs₃, hshows₃⟩
  have hsilent : Silent (firstCommand (m_edgeDelay D)) := silent_genCal _ _
  rcases hshows₃.putWord (j := (o1 : Int) - 1) (i := o1 - 1) (by omega) (by omega) hsilent
    (fun c hc heq => by
      rcases List.mem_cons.mp hc with rfl | hc
      · omega
      · have hbelow := (hcmds c hc).2
        omega) (hquiet (o1 - 1) (by omega)) with ⟨s₄, hs₄, hshows₄⟩
  refine ⟨s₄, cmds, second, ?_, hshows₄, hcmds, hlate, hplace⟩
  unfold Rd53a2TriggerLoop.doubleCmdInject
  rw [hs₁, Option.bind_some, h.toInt, Option.bind_some]
  dsimp only
  rw [hoffset, hinj, asInt_triggers hn1, asInt_of_lt hrange.delay, hs₂, Option.bind_some,
    ho1Nat, hs₃, Option.bind_some]
  exact hs₄

end Double

/-! ## Both schemes -/

/-- The words are sent with the last ones, whichever scheme they are of. -/
theorem Shows.sent {s : Burst} {cmds : List (Nat × UInt32)} {cmd : UInt32} {i T1 second : Nat}
    (h : Shows s ((i, cmd) :: (i + 1, header) :: cmds)
      (Trains (T1 + loop.m_trigDelay.toNat) loop.m_Ntrig1.toNat second loop.m_Ntrig2.toNat))
    (hcmd : loop.firstInject = some cmd) (hi : 2 ≤ i ∧ i + 1 + loop.shift < 32)
    (hcmds : ∀ c ∈ cmds, 2 ≤ c.1 ∧ c.1 + loop.shift < 32)
    (hT1 : T1 = 8 * (31 - i) + loop.firstInjDelay) (hafter : 8 * loop.shift ≤ second)
    (hfirst : 0 < loop.m_Ntrig1.toNat →
      T1 + loop.m_trigDelay.toNat + loop.m_Ntrig1.toNat ≤ 240)
    (hlate : second + loop.m_Ntrig2.toNat ≤ 240)
    (hsecond : ∀ words, (∀ c ∈ cmds, wordAt words (c.1 + loop.shift) = c.2) →
      loop.SecondTrain words (T1 - 8 * loop.shift) (second - 8 * loop.shift)) :
    ∃ s', ((Rd53a2TriggerLoop.putWord s 1 header).bind fun s =>
        (Rd53a2TriggerLoop.putWord s 0 arm).map fun s =>
          if loop.m_synPulse then setAutozeroPulse s else s) = some s' ∧
      ∃ i second, loop.Sent s'.m_trigWord i second := by
  have hplaces : ∀ c ∈ (i, cmd) :: (i + 1, header) :: cmds, 2 ≤ c.1 ∧ c.1 + loop.shift < 32 := by
    intro c hc
    rcases List.mem_cons.mp hc with rfl | hc
    · exact ⟨hi.1, by dsimp only; omega⟩
    · rcases List.mem_cons.mp hc with rfl | hc
      · exact ⟨by dsimp only; omega, hi.2⟩
      · exact hcmds c hc
  rcases h.finish loop hplaces (fun p => Trains.late hfirst hlate) with
    ⟨s', hs', hwords, hrearm, hpulse, htriggers⟩
  have hinject := hwords (i, cmd) List.mem_cons_self
  have hheader := hwords (i + 1, header) (List.mem_cons_of_mem _ List.mem_cons_self)
  have hrest := fun c hc => hwords c (List.mem_cons_of_mem _ (List.mem_cons_of_mem _ hc))
  have hplace : 8 * (31 - (i + loop.shift)) + loop.firstInjDelay = T1 - 8 * loop.shift := by omega
  refine ⟨s', hs', i + loop.shift, second - 8 * loop.shift, ?_⟩
  constructor
  · omega
  · rw [Nat.add_right_comm]
    exact ⟨hheader, hcmd.trans (congrArg some hinject.symm)⟩
  · rw [hplace]
    exact hsecond s'.m_trigWord hrest
  · rw [Nat.add_comm]
    exact hrearm
  · exact hpulse
  · rw [hplace]
    omega
  · intro p hp
    rw [htriggers p hp, hplace]
    unfold Trains Train
    omega

theorem sent_single (hok : loop.Accepted) (hrange : loop.InRange)
    (hsingle : loop.m_doubleDelay < 16) :
    ∃ s, loop.fill = some s ∧ ∃ i second, loop.Sent s.m_trigWord i second := by
  have htriggers := triggers_le hok
  have hshift := shift_le loop
  rcases singleCmdInject_spec hrange hsingle htriggers.1 htriggers.2 with
    ⟨s, of, second, hs, hlow, hlt, hsecond, hfirst, hlate, hshows⟩
  have hdelay : loop.firstInjDelay = 8 := if_pos hsingle
  have hinject : loop.firstInject
      = some (loop.singleCommand (UInt32.ofNat loop.quarters)) := by
    rw [firstInject, if_pos hsingle, (edge_spec hrange hsingle).1, Option.map_some]
  have hof : of = of - 1 + 1 := by omega
  rw [fill, if_pos hsingle, hs, Option.bind_some]
  refine @Shows.sent loop s [] _ (of - 1) (8 * (33 - of)) second ?_ hinject (by omega)
    (fun c hc => absurd hc List.not_mem_nil) (by omega) (by omega) (fun _ => hfirst) hlate
    fun words _ => ?_
  · rw [← hof]
    exact hshows
  · rw [SecondTrain, if_pos hsingle, hsecond]
    omega

theorem sent_double (hok : loop.Accepted) (hrange : loop.InRange)
    (hdouble : ¬ loop.m_doubleDelay < 16) :
    ∃ s, loop.fill = some s ∧ ∃ i second, loop.Sent s.m_trigWord i second := by
  have htriggers := triggers_le hok
  have hshift := shift_le loop
  rcases checked_of_accepted hok hrange (not_lt.mp hdouble) with ⟨D, h⟩
  have hlow := h.low
  have hhigh := h.high
  have hdelays := h.delays
  have hfloor : ⌊loop.m_doubleDelay⌋.toNat = D := by
    rw [h.floor, Int.toNat_natCast]
  generalize hof2 : (loop.m_trigDelay2.toNat + loop.m_Ntrig2.toNat) / 8 = of2 at hhigh
  generalize ho1 : 5 + (D - 4) / 8 + of2 = o1
  rcases h.doubleCmdInject hrange htriggers.1 htriggers.2 hof2.symm ho1.symm
    (rfl : 231 - D - 8 * of2 = _) with ⟨s, cmds, second, hs, hshows, hcmds, hlate, hplace⟩
  have hdelay : loop.firstInjDelay = 11 - (D - 4) % 8 := by
    rw [firstInjDelay, if_neg hdouble, hfloor]
  have hinject : loop.firstInject = some (firstCommand (m_edgeDelay D)) := by
    rw [firstInject, if_neg hdouble, h.toInt, Option.map_some]
  have ho : o1 = o1 - 1 + 1 := by omega
  have hfirst : 0 < loop.m_Ntrig1.toNat →
      231 - D - 8 * of2 + loop.m_trigDelay.toNat + loop.m_Ntrig1.toNat ≤ 240 := by
    intro hpos
    have hapart := h.apart hpos
    omega
  have hafter : 8 * loop.shift ≤ second := by
    cases hcase : loop.m_noInject2 with
    | true =>
        rw [hcase, if_pos rfl] at hplace
        omega
    | false =>
        rw [hcase, if_neg (by decide)] at hplace
        omega
  rw [fill, if_neg hdouble, hs, Option.bind_some]
  refine @Shows.sent loop s cmds _ (o1 - 1) (231 - D - 8 * of2) second ?_ hinject (by omega)
    (fun c hc => ?_) (by omega) hafter hfirst hlate fun words hwords => ?_
  · rw [← ho]
    exact hshows
  · have hbelow := hcmds c hc
    omega
  · rw [SecondTrain, if_neg hdouble, hfloor]
    cases hcase : loop.m_noInject2 with
    | true =>
        rw [hcase, if_pos rfl] at hplace
        rw [if_pos rfl]
        omega
    | false =>
        rw [hcase, if_neg (by decide)] at hplace
        rw [if_neg (by decide)]
        have hheader := hwords _ hplace.1
        have hcommand := hwords _ hplace.2.1
        dsimp only at hheader hcommand
        refine ⟨2 + of2 + loop.shift, by omega, ?_, hcommand, by omega, by omega⟩
        rw [← hheader]
        congr 1
        omega

/-- The settings of the constructor. -/
def ofDefaults : Rd53a2TriggerLoop where
  m_trigDelay := 48
  m_trigDelay2 := 48
  m_doubleDelay := 80
  m_Ntrig1 := 16
  m_Ntrig2 := 16
  float_doubleDelay := ⟨80, 0, by norm_num, by norm_num⟩

/-- The delay puts the header behind the words, and no check is made. -/
def ofFarTrain : Rd53a2TriggerLoop where
  m_trigDelay := 500
  m_trigDelay2 := 16
  m_doubleDelay := 8
  m_Ntrig1 := 1
  m_Ntrig2 := 1
  float_doubleDelay := ⟨8, 0, by norm_num, by norm_num⟩

/-- Without a second injection, which would be eight bunch crossings after the first. -/
def ofNoInject2 : Rd53a2TriggerLoop where
  m_trigDelay := 16
  m_trigDelay2 := 20
  m_doubleDelay := 8
  m_Ntrig1 := 1
  m_Ntrig2 := 1
  m_noInject2 := true
  float_doubleDelay := ⟨8, 0, by norm_num, by norm_num⟩

end Rd53a2TriggerLoop

end Yarr.Rd53
