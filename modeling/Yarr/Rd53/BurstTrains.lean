import Yarr.Rd53.Rd53a2TriggerLoop
import Yarr.Rd53.TriggerWords

/-!
# Trains at any bunch crossing

A train is put into frames from its first one down, and the frames keep the
triggers they have. What the words hold is a list of commands and a set of
bunch crossings, and each write changes the one or the other.
-/

namespace Yarr.Rd53

namespace Rd53a2TriggerLoop

open Rd53aTriggerLoop (symbols_of_toNat pattern_genTrigger)
open Rd53aCmd

/-! ## Words -/

theorem readWord_triggerWord (trig_pattern : UInt8) {n : Nat} (hn : n < 15) {c : Nat}
    (hc : c < 8) :
    readWord .lsbFirst (triggerWord trig_pattern n) c = trig_pattern.toNat.testBit c := by
  have hlow : (trig_pattern &&& 0xF).toUInt32.toNat = trig_pattern.toNat % 2 ^ 4 := by
    rw [UInt8.toNat_toUInt32, UInt8.toNat_and]
    exact Nat.and_two_pow_sub_one_eq_mod _ 4
  have hhigh : (trig_pattern >>> 4).toUInt32.toNat = trig_pattern.toNat / 2 ^ 4 := by
    rw [UInt8.toNat_toUInt32, UInt8.toNat_shiftRight, ← Nat.shiftRight_eq_div_pow]
    rfl
  have hlt := trig_pattern.toNat_lt
  have hreads := @pattern_genTrigger (trig_pattern &&& 0xF).toUInt32
    (trig_pattern >>> 4).toUInt32 (by rw [hlow]; omega) (by rw [hhigh]; omega) (2 * n + 1)
    (2 * n + 2) (by omega) (by omega)
  unfold readWord triggerWord
  rw [hreads.1, hreads.2, hlow, hhigh]
  by_cases hfirst : c < 4
  · rw [if_pos hfirst]
    show (trig_pattern.toNat % 2 ^ 4).testBit c = _
    rw [Nat.testBit_mod_two_pow, decide_eq_true hfirst, Bool.true_and]
  · rw [if_neg hfirst]
    show (trig_pattern.toNat / 2 ^ 4).testBit (c - 4) = _
    rw [Nat.testBit_div_two_pow]
    congr 1
    omega

theorem pattern_symbol (val : UInt32) : pattern (symbol val) = 0 := by
  have hall : ∀ i : Fin 32, pattern enc5to8[i] = 0 := by decide +kernel
  exact hall (Fin.ofNat 32 val.toNat)

theorem toNat_symbols (a b c d : UInt32) :
    ((encode5to8 a <<< 24) + (encode5to8 b <<< 16) + (encode5to8 c <<< 8) + encode5to8 d).toNat
      = (symbol a).toNat * 16777216 + (symbol b).toNat * 65536
        + ((symbol c).toNat * 256 + (symbol d).toNat) := by
  have ha := (symbol a).toNat_lt
  have hb := (symbol b).toNat_lt
  have hc := (symbol c).toNat_lt
  have hd := (symbol d).toNat_lt
  simp [encode5to8, Nat.shiftLeft_eq]
  omega

theorem silent_genCal (chipId : UInt32) (f : CalFields) : Silent (genCal chipId f) := by
  rcases symbols_of_toNat (toNat_symbols _ _ _ _) with ⟨hfirst, hsecond⟩
  unfold Silent genCal
  rw [hfirst, hsecond]
  exact ⟨pattern_symbol _, pattern_symbol _⟩

/-! ## Patterns -/

/-- The frame `n` of a train of `triggers` that begins at `start` of its first frame. -/
theorem testBit_trigPattern {start triggers : Nat} (hstart : start < 8) (hpos : 0 < triggers)
    {n : Nat} (hn : n < (start + triggers - 1) / 8 + 1) {c : Nat} (hc : c < 8) :
    (trigPattern (UInt8.ofNat start) (UInt8.ofNat ((start + triggers - 1) % 8))
        (((start + triggers - 1) / 8 : Nat) - 1) n).toNat.testBit c
      = decide (start ≤ 8 * n + c ∧ 8 * n + c < start + triggers) := by
  have hfirst : ∀ a c : Fin 8,
      ((0xFF : UInt8) <<< UInt8.ofNat a.val).toNat.testBit c.val = decide (a.val ≤ c.val) := by
    decide +kernel
  have hlast : ∀ b c : Fin 8,
      ((0xFF : UInt8) >>> (7 - UInt8.ofNat b.val)).toNat.testBit c.val
        = decide (c.val ≤ b.val) := by decide +kernel
  have hall : ∀ c : Fin 8, (0xFF : UInt8).toNat.testBit c.val = true := by decide +kernel
  have hend : (start + triggers - 1) % 8 < 8 := Nat.mod_lt _ (by decide)
  have hfirst := hfirst ⟨start, hstart⟩ ⟨c, hc⟩
  have hlast := hlast ⟨(start + triggers - 1) % 8, hend⟩ ⟨c, hc⟩
  have hall := hall ⟨c, hc⟩
  dsimp only at hfirst hlast hall
  have hlastFrame : ((n : Int) = (((start + triggers - 1) / 8 : Nat) : Int) - 1 + 1) ↔
      n = (start + triggers - 1) / 8 := by omega
  unfold trigPattern
  simp only [hlastFrame]
  by_cases hzero : n = 0
  · subst hzero
    rw [if_pos rfl]
    by_cases hone : 0 = (start + triggers - 1) / 8
    · rw [if_pos hone, UInt8.toNat_and, Nat.testBit_and, hfirst, hlast, ← Bool.decide_and]
      apply decide_eq_decide.mpr
      omega
    · rw [if_neg hone, hfirst]
      apply decide_eq_decide.mpr
      omega
  · rw [if_neg hzero]
    by_cases hone : n = (start + triggers - 1) / 8
    · rw [if_pos hone, UInt8.toNat_and, Nat.testBit_and, hall, hlast, Bool.true_and]
      apply decide_eq_decide.mpr
      omega
    · rw [if_neg hone, hall]
      symm
      apply decide_eq_true
      omega

/-! ## What the words hold -/

def pulseAt (s : Burst) (j : Nat) : UInt8 := if h : j < 32 then s.m_trigPulses[j] else 0

/-- Commands at their indices and triggers in their bunch crossings, the first of which is at
the beginning of the last word. -/
structure Shows (s : Burst) (cmds : List (Nat × UInt32)) (triggers : Nat → Prop) : Prop where
  commands : ∀ c ∈ cmds, c.1 < 32 ∧ wordAt s.m_trigWord c.1 = c.2 ∧ Silent c.2
  frames : ∀ j < 32, (∀ c ∈ cmds, c.1 ≠ j) → ∀ c < 8,
    readWord .lsbFirst (wordAt s.m_trigWord j) c = (pulseAt s j).toNat.testBit c
  pulses : ∀ j < 32, ∀ c < 8,
    (pulseAt s j).toNat.testBit c = true ↔ triggers (8 * (31 - j) + c)
  apart : ∀ c ∈ cmds, ∀ k < 8, ¬ triggers (8 * (31 - c.1) + k)

theorem shows_empty : Shows empty [] fun _ => False := by
  have hidle : Silent idle := by decide
  have hword : ∀ j < 32, wordAt empty.m_trigWord j = idle := by
    intro j hj
    unfold wordAt empty
    rw [dif_pos hj, Vector.getElem_replicate]
  have hpulse : ∀ j < 32, pulseAt empty j = 0 := by
    intro j hj
    unfold pulseAt empty
    rw [dif_pos hj, Vector.getElem_replicate]
  constructor
  · intro c hc
    exact absurd hc List.not_mem_nil
  · intro j hj _ c _
    rw [hword j hj, hpulse j hj, readWord_of_silent hidle]
    exact (Nat.zero_testBit c).symm
  · intro j hj c _
    rw [hpulse j hj]
    show Nat.testBit 0 c = true ↔ False
    simp
  · intro c hc
    exact absurd hc List.not_mem_nil

theorem Shows.requests_iff {s : Burst} {cmds : List (Nat × UInt32)} {triggers : Nat → Prop}
    (h : Shows s cmds triggers) {p : Nat} (hp : p < 8 * 32) :
    requests .lsbFirst s.m_trigWord 32 p = true ↔ triggers p := by
  have hplace : 8 * (31 - (32 - 1 - p / 8)) + p % 8 = p := by omega
  have hlt : 32 - 1 - p / 8 < 32 := by omega
  have hmod : p % 8 < 8 := Nat.mod_lt _ (by decide)
  unfold requests
  by_cases hcmd : ∃ c ∈ cmds, c.1 = 32 - 1 - p / 8
  · rcases hcmd with ⟨c, hc, hindex⟩
    have hword := h.commands c hc
    have hnone := h.apart c hc (p % 8) hmod
    rw [hindex, hplace] at hnone
    rw [← hindex, hword.2.1, readWord_of_silent hword.2.2]
    exact ⟨fun hfalse => absurd hfalse (by decide), fun htrue => absurd htrue hnone⟩
  · have hframe := h.frames (32 - 1 - p / 8) hlt
      (fun c hc heq => hcmd ⟨c, hc, heq⟩) (p % 8) hmod
    have hpulse := h.pulses (32 - 1 - p / 8) hlt (p % 8) hmod
    rw [hplace] at hpulse
    rw [hframe, hpulse]

theorem Shows.putWord {s : Burst} {cmds : List (Nat × UInt32)} {triggers : Nat → Prop}
    (h : Shows s cmds triggers) {j : Int} {i : Nat} (hj : j = i) (hi : i < 32)
    {word : UInt32} (hword : Silent word) (hfree : ∀ c ∈ cmds, c.1 ≠ i)
    (hquiet : ∀ k < 8, ¬ triggers (8 * (31 - i) + k)) :
    ∃ s', putWord s j word = some s' ∧ Shows s' ((i, word) :: cmds) triggers := by
  subst hj
  refine ⟨{ s with m_trigWord := s.m_trigWord.set i word }, ?_, ?_⟩
  · unfold Rd53a2TriggerLoop.putWord
    rw [if_pos (Int.natCast_nonneg i), Int.toNat_natCast, setTrigWord, dif_pos hi]
    rfl
  have hat : ∀ j', wordAt (s.m_trigWord.set i word) j'
      = if j' = i then word else wordAt s.m_trigWord j' := wordAt_set s.m_trigWord word hi
  constructor
  · intro c hc
    rcases List.mem_cons.mp hc with rfl | hc
    · exact ⟨hi, (hat i).trans (if_pos rfl), hword⟩
    · have hold := h.commands c hc
      exact ⟨hold.1, (hat c.1).trans ((if_neg (hfree c hc)).trans hold.2.1), hold.2.2⟩
  · intro j hj hother k hk
    have hne : j ≠ i := fun heq => hother (i, word) List.mem_cons_self heq.symm
    have hsame := h.frames j hj (fun c hc => hother c (List.mem_cons_of_mem _ hc)) k hk
    dsimp only
    rw [hat, if_neg hne]
    exact hsame
  · exact h.pulses
  · intro c hc
    rcases List.mem_cons.mp hc with rfl | hc
    · exact hquiet
    · exact h.apart c hc

/-! ## Trains -/

theorem putFrame_spec {s : Burst} {framei trig_pattern : UInt8} {n : Nat}
    (hframe : framei.toNat < 32) :
    ∃ s', putFrame s framei trig_pattern n = some s' ∧
      (∀ j, wordAt s'.m_trigWord j = if j = framei.toNat then
        triggerWord (pulseAt s j ||| trig_pattern) n else wordAt s.m_trigWord j) ∧
      ∀ j, pulseAt s' j = if j = framei.toNat then pulseAt s j ||| trig_pattern
        else pulseAt s j := by
  have hpulse : pulseAt s framei.toNat = s.m_trigPulses[framei.toNat] := dif_pos hframe
  refine ⟨_, dif_pos hframe, ?_, ?_⟩
  · intro j
    dsimp only
    rw [wordAt_set]
    by_cases hj : j = framei.toNat
    · rw [if_pos hj, if_pos hj, hj, hpulse]
    · rw [if_neg hj, if_neg hj]
  · intro j
    by_cases hj : j = framei.toNat
    · subst hj
      rw [if_pos rfl, hpulse]
      unfold pulseAt
      rw [dif_pos hframe]
      exact Vector.getElem_set_self hframe
    · rw [if_neg hj]
      unfold pulseAt
      by_cases hlt : j < 32
      · rw [dif_pos hlt, dif_pos hlt]
        exact Vector.getElem_set_ne hframe hlt (Ne.symm hj)
      · rw [dif_neg hlt, dif_neg hlt]

/-- The first `k` frames of a train from the frame `top` down. -/
theorem frames_spec {frame : Nat → UInt8} {pat : Nat → UInt8} {top k : Nat} (htop : top < 32)
    (hroom : k ≤ top + 1) (hk : k ≤ 15) (hframe : ∀ n < k, (frame n).toNat = top - n)
    (s : Burst) :
    ∃ s', (List.range k).foldlM (fun s n => putFrame s (frame n) (pat n) n) s = some s' ∧
      (∀ j, (top < j + k ∧ j ≤ top → ∀ c < 8, readWord .lsbFirst (wordAt s'.m_trigWord j) c
          = (pulseAt s' j).toNat.testBit c) ∧
        (¬(top < j + k ∧ j ≤ top) → wordAt s'.m_trigWord j = wordAt s.m_trigWord j)) ∧
      ∀ j, pulseAt s' j = if top < j + k ∧ j ≤ top then pulseAt s j ||| pat (top - j)
        else pulseAt s j := by
  induction k with
  | zero =>
      refine ⟨s, rfl, fun j => ⟨fun hin => ?_, fun _ => rfl⟩, fun j => ?_⟩
      · omega
      · rw [if_neg (by omega)]
  | succ k ih =>
      rcases ih (by omega) (by omega) fun n hn => hframe n (by omega) with
        ⟨s₁, hs₁, hwords, hpulses⟩
      have hlast := hframe k (Nat.lt_succ_self k)
      rcases @putFrame_spec s₁ (frame k) (pat k) k (by omega) with ⟨s', hs', hword', hpulse'⟩
      rw [hlast] at hword' hpulse'
      refine ⟨s', ?_, fun j => ?_, fun j => ?_⟩
      · rw [List.range_succ, List.foldlM_append, hs₁]
        simpa using hs'
      · by_cases hj : j = top - k
        · refine ⟨fun _ c hc => ?_, fun hout => ?_⟩
          · rw [hword', hpulse', if_pos hj, if_pos hj]
            exact readWord_triggerWord _ (by omega) hc
          · omega
        · have hold := hwords j
          rw [hword', hpulse', if_neg hj, if_neg hj]
          exact ⟨fun hin => hold.1 (by omega), fun hout => hold.2 (by omega)⟩
      · rw [hpulse', hpulses]
        by_cases hj : j = top - k
        · have hsub : top - j = k := by omega
          rw [if_pos hj, if_neg (by omega), if_pos (by omega), hsub]
        · rw [if_neg hj]
          by_cases hin : top < j + k ∧ j ≤ top
          · rw [if_pos hin, if_pos (by omega)]
          · rw [if_neg hin, if_neg (by omega)]

theorem toFloat_intCast {n : Int} (h : |n| < 2 ^ 24) : toFloat n = n := by
  have hrep := FloatRounding.representable_div h 0
  rw [pow_zero, div_one] at hrep
  exact FloatRounding.round_of_representable hrep

theorem full_frames_eq {start triggers : Nat} (hstart : start < 8) (hpos : 0 < triggers)
    (hle : triggers ≤ 16) :
    ⌊toFloat (((triggers : Int) : ℚ) - (8 - (start : ℚ)) - 1) / 8⌋
      = (((start + triggers - 1) / 8 : Nat) : Int) - 1 := by
  have hcast : ((triggers : Int) : ℚ) - (8 - (start : ℚ)) - 1
      = (((triggers : Int) - (8 - (start : Int)) - 1 : Int) : ℚ) := by
    push_cast
    ring
  have habs : |(triggers : Int) - (8 - (start : Int)) - 1| < 2 ^ 24 := by
    rw [abs_lt]
    omega
  have hdiv : (((triggers : Int) - (8 - (start : Int)) - 1 : Int) : ℚ) / 8
      = (((triggers : Int) - (8 - (start : Int)) - 1 : Int) : ℚ) / ((8 : Nat) : ℚ) := by
    norm_num
  rw [hcast, toFloat_intCast habs, hdiv, Rat.floor_intCast_div_natCast]
  omega

/-- A train of triggers in frames that hold no commands. -/
theorem Shows.flexibleTrigger {s : Burst} {cmds : List (Nat × UInt32)} {triggers : Nat → Prop}
    (h : Shows s cmds triggers) {offset : UInt8} {injDelay delay : Int} {n empty_trigs top : Nat}
    (hn : n ≤ 16) (hempty : (UInt16.ofInt (delay + injDelay - 8)).toNat = empty_trigs)
    (htop : 0 < n → top < 32) (hroom : 0 < n → (empty_trigs % 8 + n - 1) / 8 ≤ top)
    (hframe : 0 < n → ∀ k ≤ (empty_trigs % 8 + n - 1) / 8,
      (offset - 2 - UInt8.ofNat (empty_trigs / 8) - UInt8.ofNat k).toNat = top - k)
    (hfree : 0 < n → ∀ c ∈ cmds, c.1 ≤ top → c.1 + (empty_trigs % 8 + n - 1) / 8 < top) :
    ∃ s', Rd53a2TriggerLoop.flexibleTrigger offset injDelay n delay s = some s' ∧
      Shows s' cmds fun p => triggers p ∨
        (8 * (31 - top) + empty_trigs % 8 ≤ p ∧ p < 8 * (31 - top) + empty_trigs % 8 + n) := by
  by_cases hzero : n = 0
  · subst hzero
    refine ⟨s, if_pos rfl, ?_⟩
    have hsame : (fun p => triggers p ∨ (8 * (31 - top) + empty_trigs % 8 ≤ p ∧
        p < 8 * (31 - top) + empty_trigs % 8 + 0)) = triggers := by
      funext p
      apply propext
      exact ⟨fun hp => hp.resolve_right (by omega), Or.inl⟩
    rw [hsame]
    exact h
  have hpos : 0 < n := Nat.pos_of_ne_zero hzero
  have htop := htop hpos
  have hroom := hroom hpos
  have hframe := hframe hpos
  have hfree := hfree hpos
  have hmod : empty_trigs % 8 < 8 := Nat.mod_lt _ (by decide)
  have hlt : empty_trigs < 2 ^ 16 := hempty ▸ UInt16.toNat_lt _
  have hframes : (UInt16.ofInt (delay + injDelay - 8) / 8).toUInt8
      = UInt8.ofNat (empty_trigs / 8) := by
    apply UInt8.toNat_inj.mp
    rw [UInt16.toNat_toUInt8, UInt16.toNat_div, hempty, UInt8.toNat_ofNat']
    rfl
  have hstart : (UInt16.ofInt (delay + injDelay - 8) % 8).toUInt8
      = UInt8.ofNat (empty_trigs % 8) := by
    apply UInt8.toNat_inj.mp
    rw [UInt16.toNat_toUInt8, UInt16.toNat_mod, hempty, UInt8.toNat_ofNat']
    rfl
  have hstartNat : (UInt8.ofNat (empty_trigs % 8)).toNat = empty_trigs % 8 := by
    rw [UInt8.toNat_ofNat']
    omega
  have hend : UInt8.ofInt (((empty_trigs : Int) + (n : Int) - 1).tmod 8)
      = UInt8.ofNat ((empty_trigs % 8 + n - 1) % 8) := by
    have hvalue : ((empty_trigs : Int) + (n : Int) - 1).tmod 8
        = (((empty_trigs % 8 + n - 1) % 8 : Nat) : Int) := by
      rw [Int.tmod_eq_emod_of_nonneg (by omega)]
      omega
    rw [hvalue]
    apply UInt8.toNat_inj.mp
    rw [UInt8.ofInt, UInt8.toNat_ofNat', UInt8.toNat_ofNat']
    omega
  rcases @frames_spec (fun k => offset - 2 - UInt8.ofNat (empty_trigs / 8) - UInt8.ofNat k)
    (trigPattern (UInt8.ofNat (empty_trigs % 8)) (UInt8.ofNat ((empty_trigs % 8 + n - 1) % 8))
      (((empty_trigs % 8 + n - 1) / 8 : Nat) - 1)) top ((empty_trigs % 8 + n - 1) / 8 + 1) htop
    (by omega) (by omega) (fun k hk => hframe k (by omega)) s with ⟨s', hs', hwords, hpulses⟩
  refine ⟨s', ?_, ?_⟩
  · have hcount : ((((empty_trigs % 8 + n - 1) / 8 : Nat) : Int) - 1 + 2).toNat
        = (empty_trigs % 8 + n - 1) / 8 + 1 := by omega
    unfold Rd53a2TriggerLoop.flexibleTrigger
    rw [if_neg (by omega)]
    simp only [hframes, hstart, hempty, hstartNat, hend, full_frames_eq hmod hpos hn, hcount]
    exact hs'
  constructor
  · intro c hc
    have hout := hfree c hc
    rw [(hwords c.1).2 (by omega)]
    exact h.commands c hc
  · intro j hj hother c hc
    by_cases hin : top < j + ((empty_trigs % 8 + n - 1) / 8 + 1) ∧ j ≤ top
    · exact (hwords j).1 hin c hc
    · rw [(hwords j).2 hin, hpulses, if_neg hin]
      exact h.frames j hj hother c hc
  · intro j hj c hc
    rw [hpulses]
    have hold := h.pulses j hj c hc
    by_cases hin : top < j + ((empty_trigs % 8 + n - 1) / 8 + 1) ∧ j ≤ top
    · have hbit := @testBit_trigPattern (empty_trigs % 8) n hmod hpos (top - j) (by omega) c hc
      rw [if_pos hin, UInt8.toNat_or, Nat.testBit_or, Bool.or_eq_true, hold, hbit,
        decide_eq_true_iff]
      apply or_congr Iff.rfl
      omega
    · rw [if_neg hin, hold]
      exact ⟨Or.inl, fun hp => hp.resolve_right (by omega)⟩
  · intro c hc k hk hp
    have hout := hfree c hc
    have hlt := (h.commands c hc).1
    exact h.apart c hc k hk (hp.resolve_right (by omega))

end Rd53a2TriggerLoop

end Yarr.Rd53
