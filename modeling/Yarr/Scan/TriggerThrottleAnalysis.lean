import Mathlib.Tactic.Common
import Yarr.Scan.OccupancyAnalysis

/-!
# Throttling the triggers

The injections for the next round are doubled while the occupancy is low and
halved where it is too high, and are cut to what is missing at the target. The
counts of the source are 32 bits wide, signed for the injections and unsigned
for their sum, so that each is brought into the range of its type here.
-/

namespace Yarr.Scan

/-- The verdict on a map: `1`, `0` and `-1` in the source. -/
inductive ThrottleSign where
  | more
  | enough
  | less
  deriving DecidableEq, Repr

/-- The counts of the search, and whether the last round ended it. -/
structure Throttle where
  target_inj : Nat
  start_inj : Int
  injections : Int
  current_inj : Nat
  done : Bool := false
  deriving DecidableEq

namespace Throttle

/-- A signed count in unsigned arithmetic. -/
def unsigned (n : Int) : Nat := (n % 2 ^ 32).toNat

/-- An unsigned count stored in a signed one. -/
def signed (n : Nat) : Int := if n % 2 ^ 32 < 2 ^ 31 then (n % 2 ^ 32 : Nat) else (n % 2 ^ 32 : Nat) - 2 ^ 32

/-- Doubling and halving; a product out of range is not defined. -/
def scale (injections : Int) : ThrottleSign → Option Int
  | .more => if -2 ^ 30 ≤ injections ∧ injections < 2 ^ 30 then some (injections * 2) else none
  | .enough => some injections
  | .less => some (injections.tdiv 2)

/-- One round, from the verdict on its map. -/
def round (s : Throttle) (sign : ThrottleSign) : Option Throttle :=
  let current_inj := (s.current_inj + unsigned s.injections) % 2 ^ 32
  let done := decide (s.target_inj ≤ current_inj)
  (scale s.injections sign).map fun injections =>
    if done then
      { s with current_inj := 0, injections := s.start_inj, done := done }
    else if s.target_inj < (unsigned injections + current_inj) % 2 ^ 32 then
      { s with
        current_inj := current_inj
        injections := signed (s.target_inj - current_inj)
        done := done }
    else
      { s with current_inj := current_inj, injections := injections, done := done }

end Throttle

/-! ## The analysis around it -/

/-- What is fed back after a round. -/
structure ThrottleFeedback where
  sign : ThrottleSign
  last : Bool
  injections : Int

structure TriggerThrottleAnalysis extends OccupancyScan where
  target_occ : ℚ := 128
  throttle : Throttle
  occMaps : IdentMap (Option NamedHisto2d) := fun _ => none
  outerOccMaps : IdentMap (Option NamedHisto2d) := fun _ => none
  innerCnt : IdentMap UInt32 := fun _ => 0
  sent : List ThrottleFeedback := []
  output : List NamedHisto2d := []

namespace TriggerThrottleAnalysis

/-- The loop over the bins, up to the first one that has far too many hits. -/
def signLoop (target_occ : ℚ) (sign : ThrottleSign) : List ℚ → ThrottleSign
  | [] => sign
  | bin :: bins =>
      if 3 / 2 < bin / target_occ then .less
      else
        signLoop target_occ
          (if sign = .more ∧ 1 / 2 < bin / target_occ then .enough else sign) bins

def signOf (target_occ : ℚ) (occ : Histo2d) : ThrottleSign :=
  signLoop target_occ .more ((List.range occ.size).map occ.getBin)

variable (a : TriggerThrottleAnalysis)

/-- Loop values and limits are added up here, not mixed as in the other analyses. -/
def identLoop (stat : LoopStatus) : List (Nat × UInt32) → UInt32 → UInt32 → UInt32
  | [], ident, _ => ident
  | (loop, max) :: rest, ident, offset =>
      identLoop stat rest (ident + (stat.get loop + offset)) (offset + max)

def ident (stat : LoopStatus) : UInt32 := identLoop stat (a.loops.zip a.loopMax) 0 0

/-- The map under an identifier, or a new one. -/
def mapAt (maps : IdentMap (Option NamedHisto2d)) (name : String) (stat : LoopStatus) :
    NamedHisto2d :=
  (maps (a.ident stat)).getD
    ⟨OccupancyScan.nameOf name (a.outerValues stat), emptyMap a.nCol a.nRow⟩

/-- The count starts again with a map that was not there. -/
def cntAt (stat : LoopStatus) : UInt32 :=
  match a.occMaps (a.ident stat) with
  | none => 0
  | some _ => a.innerCnt (a.ident stat)

def NamedHisto2d.plus (occ : NamedHisto2d) (h : Histo2d) : NamedHisto2d :=
  { occ with histo := occ.histo.add h }

/-- `none` where the arithmetic leaves the range of its type. -/
def processHistogram (i : OccupancyAnalysis.Input) : Option TriggerThrottleAnalysis :=
  if i.name ≠ "OccupancyMap" then some a
  else
    let ident := a.ident i.stat
    let occ := NamedHisto2d.plus (a.mapAt a.occMaps "OccupancyMap" i.stat) i.histo
    let outerOcc := NamedHisto2d.plus (a.mapAt a.outerOccMaps "OuterOccupancyMap" i.stat) i.histo
    let cnt := a.cntAt i.stat + 1
    if cnt = a.n_count then
      let sign := signOf a.target_occ occ.histo
      (a.throttle.round sign).map fun throttle =>
        { a with
          throttle := throttle
          occMaps := Function.update a.occMaps ident none
          outerOccMaps := Function.update a.outerOccMaps ident
            (if throttle.done then none else some outerOcc)
          innerCnt := Function.update a.innerCnt ident 0
          sent := a.sent ++ [⟨sign, throttle.done, throttle.injections⟩]
          output := if throttle.done then a.output ++ [outerOcc] else a.output }
    else
      some { a with
        occMaps := Function.update a.occMaps ident (some occ)
        outerOccMaps := Function.update a.outerOccMaps ident (some outerOcc)
        innerCnt := Function.update a.innerCnt ident cnt }

end TriggerThrottleAnalysis

/-! ## The search -/

namespace Throttle

/-- The counts after `n` rounds. -/
def after (s : Throttle) (signs : Nat → ThrottleSign) : Nat → Option Throttle
  | 0 => some s
  | n + 1 => (after s signs n).bind fun t => t.round (signs n)

/-- The start of a search: the configured target, and the count of the trigger loop. -/
def start (target_inj trigCnt : UInt32) : Throttle where
  target_inj := target_inj.toNat
  start_inj := signed trigCnt.toNat
  injections := signed trigCnt.toNat
  current_inj := 0

/-- What is fed back stays in range, and the search is done again and again. -/
def Converges (target_inj trigCnt : UInt32) (signs : Nat → ThrottleSign) : Prop :=
  (∀ n, ∃ s, (start target_inj trigCnt).after signs n = some s ∧
    1 ≤ s.injections ∧ s.injections ≤ target_inj.toNat) ∧
  ∀ n, ∃ m s, n < m ∧ (start target_inj trigCnt).after signs m = some s ∧ s.done = true

/-- A round that goes well: a single injection that does not complete the target is not
halved, and the arithmetic stays in the range of the counts. -/
structure Good (s : Throttle) (sign : ThrottleSign) : Prop where
  halves : sign = .less → s.injections = 1 → s.target_inj ≤ s.current_inj + 1
  doubles : sign = .more → s.injections < 2 ^ 30
  sums : ∀ next, scale s.injections sign = some next →
    s.current_inj + s.injections < s.target_inj → s.current_inj + s.injections + next < 2 ^ 32

/-- The search starts in range, and all its rounds go well. -/
def GoesWell (target_inj trigCnt : UInt32) (signs : Nat → ThrottleSign) : Prop :=
  (1 ≤ signed trigCnt.toNat ∧ signed trigCnt.toNat ≤ target_inj.toNat) ∧
  ∀ n s, (start target_inj trigCnt).after signs n = some s → s.Good (signs n)

/-- The counts between rounds that go well. -/
structure InRange (target_inj trigCnt : UInt32) (s : Throttle) : Prop where
  target : s.target_inj = target_inj.toNat
  start : s.start_inj = signed trigCnt.toNat
  pos : 1 ≤ s.injections
  lt : s.injections < 2 ^ 31
  le : s.current_inj + s.injections ≤ target_inj.toNat

theorem signed_lt (n : Nat) : signed n < 2 ^ 31 := by
  unfold signed
  split
  · omega
  · omega

theorem signed_of_lt {n : Nat} (h : n < 2 ^ 31) : signed n = n := by
  unfold signed
  rw [Nat.mod_eq_of_lt (Nat.lt_trans h (by decide)), if_pos h]

theorem unsigned_of_nonneg {n : Int} (h0 : 0 ≤ n) (h : n < 2 ^ 31) : (unsigned n : Int) = n := by
  unfold unsigned
  omega

theorem inRange_start {target_inj trigCnt : UInt32} (hpos : 1 ≤ signed trigCnt.toNat)
    (hle : signed trigCnt.toNat ≤ target_inj.toNat) :
    InRange target_inj trigCnt (start target_inj trigCnt) := by
  refine ⟨rfl, rfl, hpos, signed_lt _, ?_⟩
  simp only [Throttle.start]
  omega

theorem scale_good {s : Throttle} {sign : ThrottleSign} (hpos : 1 ≤ s.injections)
    (hlt : s.injections < 2 ^ 31) (hgood : s.Good sign) :
    ∃ next, scale s.injections sign = some next ∧ 0 ≤ next ∧ next < 2 ^ 31 ∧
      (s.current_inj + s.injections < s.target_inj → 1 ≤ next) := by
  cases sign with
  | more =>
      have hsmall := hgood.doubles rfl
      refine ⟨s.injections * 2, ?_, ?_, ?_, ?_⟩
      · exact if_pos ⟨by omega, hsmall⟩
      all_goals omega
  | enough => exact ⟨s.injections, rfl, by omega, hlt, fun _ => hpos⟩
  | less =>
      have hhalf : s.injections.tdiv 2 = s.injections / 2 :=
        Int.tdiv_eq_ediv_of_nonneg (by omega)
      refine ⟨s.injections / 2, ?_, ?_, ?_, ?_⟩
      · rw [scale, hhalf]
      · omega
      · omega
      · intro hbelow
        by_cases hone : s.injections = 1
        · have htarget := hgood.halves rfl hone
          omega
        · omega

/-- A round keeps the counts in range and ends the search or brings it forward. -/
theorem InRange.round {target_inj trigCnt : UInt32} {s : Throttle} {sign : ThrottleSign}
    (h : InRange target_inj trigCnt s) (hstart : 1 ≤ signed trigCnt.toNat)
    (hstart_le : signed trigCnt.toNat ≤ target_inj.toNat) (hgood : s.Good sign) :
    ∃ s', s.round sign = some s' ∧ InRange target_inj trigCnt s' ∧
      (s'.done = true ∨ s.current_inj < s'.current_inj) := by
  have htarget_lt := target_inj.toNat_lt
  have hpos := h.pos
  have hle := h.le
  obtain ⟨next, hscale, hnext0, hnext_lt, hnext⟩ := scale_good h.pos h.lt hgood
  have hinj := unsigned_of_nonneg (by omega : 0 ≤ s.injections) h.lt
  have hnext_unsigned := unsigned_of_nonneg hnext0 hnext_lt
  have hcurrent : (s.current_inj + unsigned s.injections) % 2 ^ 32
      = s.current_inj + unsigned s.injections := Nat.mod_eq_of_lt (by omega)
  simp only [Throttle.round, hscale, hcurrent, Option.map_some]
  by_cases hdone : s.target_inj ≤ s.current_inj + unsigned s.injections
  · refine ⟨_, rfl, ?_, Or.inl ?_⟩
    · simp only [hdone, decide_true, if_true]
      refine ⟨h.target, h.start, ?_, ?_, ?_⟩
      · exact h.start ▸ hstart
      · exact h.start ▸ signed_lt _
      · have hs := h.start
        simp only
        omega
    · simp [hdone]
  · have hbelow : s.current_inj + s.injections < s.target_inj := by omega
    have hsum := hgood.sums next hscale hbelow
    have hone := hnext hbelow
    have hmod : (unsigned next + (s.current_inj + unsigned s.injections)) % 2 ^ 32
        = unsigned next + (s.current_inj + unsigned s.injections) := Nat.mod_eq_of_lt (by omega)
    have ht := h.target
    refine ⟨_, rfl, ?_, Or.inr ?_⟩
    · simp only [hdone, decide_false, Bool.false_eq_true, if_false, hmod]
      by_cases hcut : s.target_inj < unsigned next + (s.current_inj + unsigned s.injections)
      · -- the next round is cut to what is missing
        have hmissing : signed (s.target_inj - (s.current_inj + unsigned s.injections))
            = (s.target_inj - (s.current_inj + unsigned s.injections) : Nat) :=
          signed_of_lt (by omega)
        rw [if_pos hcut, hmissing]
        refine ⟨h.target, h.start, ?_, ?_, ?_⟩
        · simp only
          omega
        · simp only
          omega
        · simp only
          omega
      · rw [if_neg hcut]
        refine ⟨h.target, h.start, hone, hnext_lt, ?_⟩
        simp only
        omega
    · simp only [hdone, decide_false, Bool.false_eq_true, if_false]
      split <;> (simp only; omega)

theorem after_inRange {target_inj trigCnt : UInt32} {signs : Nat → ThrottleSign}
    (hstart : 1 ≤ signed trigCnt.toNat) (hstart_le : signed trigCnt.toNat ≤ target_inj.toNat)
    (n : Nat) (hgood : ∀ k s, k < n → (start target_inj trigCnt).after signs k = some s →
      s.Good (signs k)) :
    ∃ s, (start target_inj trigCnt).after signs n = some s ∧ InRange target_inj trigCnt s := by
  induction n with
  | zero => exact ⟨_, rfl, inRange_start hstart hstart_le⟩
  | succ n ih =>
      obtain ⟨s, hs, hin⟩ := ih fun k s hk => hgood k s (Nat.lt_succ_of_lt hk)
      obtain ⟨s', hs', hin', -⟩ :=
        hin.round hstart hstart_le (hgood n s (Nat.lt_succ_self n) hs)
      exact ⟨s', by rw [after, hs, Option.bind_some, hs'], hin'⟩

theorem eventually_done {target_inj trigCnt : UInt32} {signs : Nat → ThrottleSign}
    (h : GoesWell target_inj trigCnt signs) (n : Nat) :
    ∃ m s, n < m ∧ (start target_inj trigCnt).after signs m = some s ∧ s.done = true := by
  obtain ⟨⟨hstart, hstart_le⟩, hgood⟩ := h
  obtain ⟨s, hs, hin⟩ := after_inRange hstart hstart_le n fun k s _ => hgood k s
  -- by induction on what is missing at the target
  induction hmissing : target_inj.toNat - s.current_inj using Nat.strongRecOn generalizing n s with
  | ind missing ih =>
      obtain ⟨s', hs', hin', hprogress⟩ := hin.round hstart hstart_le (hgood n s hs)
      have hafter : (start target_inj trigCnt).after signs (n + 1) = some s' := by
        rw [after, hs, Option.bind_some, hs']
      rcases hprogress with hdone | hforward
      · exact ⟨n + 1, s', Nat.lt_succ_self n, hafter, hdone⟩
      · have hless : target_inj.toNat - s'.current_inj < missing := by
          have hle' := hin'.le
          have hpos' := hin'.pos
          omega
        obtain ⟨m, t, hm, ht, hdone⟩ := ih _ hless (n + 1) s' hafter hin' rfl
        exact ⟨m, t, Nat.lt_of_succ_lt hm, ht, hdone⟩

theorem converges_of_goesWell {target_inj trigCnt : UInt32} {signs : Nat → ThrottleSign}
    (h : GoesWell target_inj trigCnt signs) : Converges target_inj trigCnt signs := by
  refine ⟨?_, eventually_done h⟩
  intro n
  obtain ⟨s, hs, hin⟩ := after_inRange h.1.1 h.1.2 n fun k s _ => h.2 k s
  have hle := hin.le
  exact ⟨s, hs, hin.pos, by omega⟩

/-- Below a target of `2 ^ 31` the sums of the source never leave 32 bits. -/
theorem good_of_next {target_inj trigCnt : UInt32} {s s' : Throttle} {sign : ThrottleSign}
    (hsmall : target_inj.toNat ≤ 2 ^ 31) (h : InRange target_inj trigCnt s)
    (hround : s.round sign = some s') (hpos : 1 ≤ s'.injections) : s.Good sign := by
  have hle := h.le
  have hinj_pos := h.pos
  have ht := h.target
  have hinj := unsigned_of_nonneg (Int.le_of_lt (Int.lt_of_lt_of_le Int.zero_lt_one h.pos)) h.lt
  obtain ⟨next, hscale, hs'⟩ := Option.map_eq_some_iff.mp hround
  refine ⟨?_, ?_, ?_⟩
  · intro hsign hone
    by_contra hbelow
    have hzero : next = 0 := by
      rw [hsign, hone] at hscale
      exact (Option.some.inj hscale).symm
    have hcurrent : (s.current_inj + unsigned s.injections) % 2 ^ 32
        = s.current_inj + unsigned s.injections := Nat.mod_eq_of_lt (by omega)
    have hdone : ¬ s.target_inj ≤ s.current_inj + unsigned s.injections := by omega
    have hcut : ¬ s.target_inj < (unsigned next
        + (s.current_inj + unsigned s.injections)) % 2 ^ 32 := by
      rw [hzero]
      simp only [unsigned] at hinj ⊢
      omega
    simp only [hcurrent, hdone, decide_false, Bool.false_eq_true, if_false, hcut] at hs'
    rw [← hs'] at hpos
    simp only at hpos
    omega
  · intro hsign
    rw [hsign] at hscale
    by_contra hbig
    have hnone : scale s.injections .more = none := if_neg fun hc => hbig hc.2
    rw [hnone] at hscale
    cases hscale
  · intro next' hnext hbelow
    rw [hscale] at hnext
    cases hnext
    have hlt := h.lt
    cases sign with
    | more =>
        have hrange : next = s.injections * 2 ∧ s.injections < 2 ^ 30 := by
          by_cases hc : -2 ^ 30 ≤ s.injections ∧ s.injections < 2 ^ 30
          · have hdouble : scale s.injections .more = some (s.injections * 2) := if_pos hc
            rw [hdouble] at hscale
            exact ⟨(Option.some.inj hscale).symm, hc.2⟩
          · have hnone : scale s.injections .more = none := if_neg hc
            rw [hnone] at hscale
            cases hscale
        omega
    | enough =>
        have hsame : next = s.injections := (Option.some.inj hscale).symm
        omega
    | less =>
        have hhalf : next = s.injections.tdiv 2 := (Option.some.inj hscale).symm
        have htdiv : s.injections.tdiv 2 = s.injections / 2 :=
          Int.tdiv_eq_ediv_of_nonneg (by omega)
        omega

theorem goesWell_of_converges {target_inj trigCnt : UInt32} {signs : Nat → ThrottleSign}
    (hsmall : target_inj.toNat ≤ 2 ^ 31) (h : Converges target_inj trigCnt signs) :
    GoesWell target_inj trigCnt signs := by
  obtain ⟨hrange, -⟩ := h
  have hstart : 1 ≤ signed trigCnt.toNat ∧ signed trigCnt.toNat ≤ target_inj.toNat := by
    obtain ⟨s, hs, hpos, hle⟩ := hrange 0
    rw [← Option.some.inj hs] at hpos hle
    exact ⟨hpos, hle⟩
  refine ⟨hstart, ?_⟩
  intro n
  induction n using Nat.strongRecOn with
  | ind n ih =>
      intro s hs
      obtain ⟨t, ht, hin⟩ := after_inRange hstart.1 hstart.2 n fun k s hk => ih k hk s
      rw [hs] at ht
      cases ht
      obtain ⟨s', hs', hpos, -⟩ := hrange (n + 1)
      rw [after, hs, Option.bind_some] at hs'
      exact good_of_next hsmall hin hs' hpos

/-- The verdicts on a sequence of maps. -/
def signsOf (target_occ : ℚ) (maps : Nat → Histo2d) (n : Nat) : ThrottleSign :=
  TriggerThrottleAnalysis.signOf target_occ (maps n)

/-- Whatever maps come in, the search keeps in range and ends if all rounds go well; for
targets up to `2 ^ 31` only then. -/
theorem converges_iff (target_inj trigCnt : UInt32) (target_occ : ℚ) (maps : Nat → Histo2d) :
    (GoesWell target_inj trigCnt (signsOf target_occ maps) →
      Converges target_inj trigCnt (signsOf target_occ maps)) ∧
    (target_inj.toNat ≤ 2 ^ 31 → Converges target_inj trigCnt (signsOf target_occ maps) →
      GoesWell target_inj trigCnt (signsOf target_occ maps)) :=
  ⟨converges_of_goesWell, goesWell_of_converges⟩

def oneBin (hits : ℚ) : Histo2d := (emptyMap 1 1).fill 1 1 hits

/-- The target in one round, over and over. -/
theorem converges_one_round : Converges 100 100 (signsOf 128 fun _ => oneBin 100) := by
  have hsign : ∀ n, signsOf 128 (fun _ => oneBin 100) n = .enough := by
    intro n
    change TriggerThrottleAnalysis.signOf 128 (oneBin 100) = .enough
    decide +kernel
  have hcounts : ∀ n s, (start 100 100).after (signsOf 128 fun _ => oneBin 100) n = some s →
      s.target_inj = 100 ∧ s.start_inj = 100 ∧ s.injections = 100 ∧ s.current_inj = 0 := by
    intro n
    induction n with
    | zero =>
        intro s hs
        rw [← Option.some.inj hs]
        decide
    | succ n ih =>
        intro s hs
        obtain ⟨t, ht, hround⟩ := Option.bind_eq_some_iff.mp hs
        obtain ⟨h₁, h₂, h₃, h₄⟩ := ih t ht
        rw [hsign] at hround
        simp [Throttle.round, scale, h₁, h₂, h₃, h₄, unsigned] at hround
        rw [← hround]
        exact ⟨rfl, rfl, rfl, rfl⟩
  refine (converges_iff 100 100 128 fun _ => oneBin 100).1 ⟨by decide, ?_⟩
  intro n s hs
  obtain ⟨h₁, -, h₃, h₄⟩ := hcounts n s hs
  refine ⟨?_, ?_, ?_⟩
  · intro h
    rw [hsign] at h
    cases h
  · intro h
    rw [hsign] at h
    cases h
  · intro next _ hbelow
    omega

/-- A single injection that gives too many hits is halved to none. -/
theorem no_injection_left :
    ¬ Converges 10000 1 (signsOf 128 fun _ => oneBin 200) := by
  intro ⟨hrange, _⟩
  have hsign : TriggerThrottleAnalysis.signOf 128 (oneBin 200) = .less := by decide +kernel
  obtain ⟨s, hs, hpos, -⟩ := hrange 1
  have hnone : (start 10000 1).after (signsOf 128 fun _ => oneBin 200) 1
      = some { start 10000 1 with injections := 0, current_inj := 1 } := by
    simp only [after, Option.bind_some, signsOf, hsign]
    decide
  rw [hnone] at hs
  rw [← Option.some.inj hs] at hpos
  exact absurd hpos (by decide)

end Throttle

end Yarr.Scan
