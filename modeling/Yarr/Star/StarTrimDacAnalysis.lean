import Mathlib.Algebra.Order.Field.Rat
import Mathlib.Algebra.Order.Group.Abs
import Mathlib.Tactic.Linarith
import Yarr.Core.Searches
import Yarr.Star.ChipIDs
import Yarr.Star.StripFields

/-!
# `StarTrimDacAnalysis`

The trim DAC of each channel that brings its threshold closest to a target,
looked for in the thresholds of a scan over ranges and DACs.
-/

namespace Yarr.Star

structure TrimRangeTrimDac where
  range : Nat
  dac : Nat
  deriving DecidableEq, Repr

def TrimRangeTrimDac.lt (a b : TrimRangeTrimDac) : Prop :=
  a.range < b.range ∨ (a.range = b.range ∧ a.dac < b.dac)

/-- `std::map<TrimRangeTrimDac, double>`. -/
structure TrimScan where
  points : List (TrimRangeTrimDac × ℚ)
  sorted : (points.map Prod.fst).Pairwise TrimRangeTrimDac.lt

/-- `mapThresholdVsTrimDacVsChannelNumber`. -/
structure ThresholdMap where
  channels : List (Nat × TrimScan)
  sorted : (channels.map Prod.fst).Pairwise (· < ·)

namespace StarTrimDacAnalysis

/-- The first loop over the points, which goes backwards: the first point of the range. -/
def firstOfRange (trimRange : Nat) :
    Int → ℚ → List (TrimRangeTrimDac × ℚ) → Int × ℚ × List (TrimRangeTrimDac × ℚ)
  | best, bestThr, [] => (best, bestThr, [])
  | best, bestThr, (key, curThr) :: rest =>
      if best < 0 then
        if key.range = trimRange then firstOfRange trimRange key.dac curThr rest
        else firstOfRange trimRange best bestThr rest
      else (best, bestThr, (key, curThr) :: rest)

/-- The second loop, over the points that follow. A negative DAC stands for a channel that is not
trimmed. -/
def bestOfRange (trimRange : Nat) (target : ℚ) :
    Int → ℚ → List (TrimRangeTrimDac × ℚ) → Int
  | best, _, [] => best
  | best, bestThr, (key, curThr) :: rest =>
      if 0 ≤ best then best
      else if key.range ≠ trimRange then bestOfRange trimRange target best bestThr rest
      else if target ≤ bestThr ∧ curThr < target ∧ |bestThr - target| < 5 then
        if bestThr - target < target - curThr then
          bestOfRange trimRange target |best| bestThr rest
        else bestOfRange trimRange target key.dac curThr rest
      else if |bestThr - target| < |target - curThr| then
        bestOfRange trimRange target (-1 * |best|) bestThr rest
      else bestOfRange trimRange target (-key.dac) curThr rest

/-- -999 if there is no point of the range. -/
def bestTrimDacForChannel (trimRange : Nat) (target : ℚ) (scan : TrimScan) : Int :=
  match firstOfRange trimRange (-999) 0 scan.points.reverse with
  | (best, bestThr, rest) => bestOfRange trimRange target (-1 * |best|) bestThr rest

/-- The multiplicity and `mapOfTrims`, which was empty. Channels come in ascending order, so that
each new entry is the last of the map. -/
def getChannelMultReachingTarget (thresholds : ThresholdMap) (trimRange : Nat) (target : ℚ)
    (iChip : Nat) : Nat × List (Nat × Int) :=
  thresholds.channels.foldl
    (fun (mult, mapOfTrims) vals =>
      let channel := vals.1
      if MaxABCsPerHCC ≤ iChip ∧ channel / StripsPerABC ≠ iChip then (mult, mapOfTrims)
      else
        let best := bestTrimDacForChannel trimRange target vals.2
        if best ≠ -999 then
          (if 0 ≤ best then mult + 1 else mult, mapOfTrims ++ [(channel, best)])
        else (mult, mapOfTrims))
    (0, [])

/-! ## Writing -/

/-- The failures of `writeTrimsToChipConfig`. -/
inductive TrimFailure where
  | lookup (failure : Failure)
  | subRegister (failure : SubRegisterFailure)
  deriving DecidableEq, Repr

def writeTrim (abc : AbcCfg) (trim : Nat × Int) : Except Failure AbcCfg :=
  abc.setTrimDACRaw (AbcCfg.trimRegOrderFromChannel (UInt8.ofNat (trim.1 % 256))).toNat trim.2

def writeTrimsToChipConfig (cfg : StarCfg) (chip : Nat) (range : Int) (mapOfTrims : List (Nat × Int)) :
    Except TrimFailure StarCfg :=
  match cfg.abcForHistoChip chip with
  | .error failure => .error (.lookup failure)
  | .ok (ic, abcCfg) =>
      let out := abcCfg.setSubRegister .BTRANGE (UInt32.ofInt range)
      match out.thrown with
      | some failure => .error (.subRegister failure)
      | none =>
          match mapOfTrims.foldlM writeTrim out.state with
          | .error failure => .error (.lookup failure)
          | .ok abcCfg => .ok (cfg.replaceABC ic abcCfg)

end StarTrimDacAnalysis

end Yarr.Star

/-!
## The search for a trim

The walk through the points of a channel goes by decreasing DACs, keeps the
closest point, and ends where the thresholds cross the target.
-/

namespace Yarr.Star

namespace StarTrimDacAnalysis

open Closest

/-! ## The points of a range -/

/-- The DACs of a range with their thresholds, in the order of the walk. -/
def scanned (trimRange : Nat) (l : List (TrimRangeTrimDac × ℚ)) : List (Nat × ℚ) :=
  (l.filter fun p => decide (p.1.range = trimRange)).map fun p => (p.1.dac, p.2)

theorem scanned_cons_of_eq {trimRange : Nat} {p : TrimRangeTrimDac × ℚ} (h : p.1.range = trimRange)
    (l : List (TrimRangeTrimDac × ℚ)) :
    scanned trimRange (p :: l) = (p.1.dac, p.2) :: scanned trimRange l := by
  unfold scanned
  rw [List.filter_cons, if_pos (by simpa using h), List.map_cons]

theorem scanned_cons_of_ne {trimRange : Nat} {p : TrimRangeTrimDac × ℚ} (h : p.1.range ≠ trimRange)
    (l : List (TrimRangeTrimDac × ℚ)) : scanned trimRange (p :: l) = scanned trimRange l := by
  unfold scanned
  rw [List.filter_cons, if_neg (by simpa using h)]

/-- DACs decrease. -/
def Descending (l : List (Nat × ℚ)) : Prop := l.Pairwise fun p q => q.1 < p.1

theorem descending_scanned (trimRange : Nat) (scan : TrimScan) :
    Descending (scanned trimRange scan.points.reverse) := by
  have hsorted := List.pairwise_map.mp scan.sorted
  have hreverse := List.pairwise_reverse.mpr hsorted
  have hrange := hreverse.filter fun p => decide (p.1.range = trimRange)
  unfold Descending scanned
  rw [List.pairwise_map, List.pairwise_iff_forall_sublist]
  intro p q hpq
  have hlt := List.pairwise_iff_forall_sublist.mp hrange hpq
  have hp : p.1.range = trimRange := of_decide_eq_true
    (List.mem_filter.mp (hpq.subset List.mem_cons_self)).2
  have hq : q.1.range = trimRange := of_decide_eq_true
    (List.mem_filter.mp (hpq.subset (List.mem_cons_of_mem p List.mem_cons_self))).2
  rcases hlt with hrange' | ⟨_, hdac⟩
  · omega
  · exact hdac

theorem firstOfRange_eq (trimRange : Nat) (bestThr : ℚ) (l : List (TrimRangeTrimDac × ℚ)) :
    (scanned trimRange l = [] ∧ firstOfRange trimRange (-999) bestThr l = (-999, bestThr, [])) ∨
    ∃ d t rest, scanned trimRange l = (d, t) :: scanned trimRange rest ∧
      firstOfRange trimRange (-999) bestThr l = ((d : Int), t, rest) := by
  induction l with
  | nil => exact Or.inl ⟨rfl, rfl⟩
  | cons p l ih =>
      rcases p with ⟨key, curThr⟩
      unfold firstOfRange
      rw [if_pos (by omega)]
      by_cases hrange : key.range = trimRange
      · rw [if_pos hrange]
        refine Or.inr ⟨key.dac, curThr, l, scanned_cons_of_eq hrange l, ?_⟩
        cases l with
        | nil => rfl
        | cons q l =>
            rcases q with ⟨key', curThr'⟩
            unfold firstOfRange
            rw [if_neg (by omega)]
      · rw [if_neg hrange, scanned_cons_of_ne hrange]
        exact ih

/-! ## The walk -/

variable (target : ℚ)

def distance (p : Nat × ℚ) : ℚ := |p.2 - target|

/-- The target is between the closest point so far and the next one, and within 5 of the first. -/
def Crosses (b p : Nat × ℚ) : Prop := target ≤ b.2 ∧ p.2 < target ∧ |b.2 - target| < 5

instance (b p : Nat × ℚ) : Decidable (Crosses target b p) :=
  inferInstanceAs (Decidable (_ ∧ _ ∧ _))

/-- Where the walk ends: at the first crossing, if there is one. -/
def settle (b : Nat × ℚ) : List (Nat × ℚ) → Bool × (Nat × ℚ)
  | [] => (false, b)
  | p :: rest =>
      if Crosses target b p then (true, pick (distance target) b p)
      else settle (pick (distance target) b p) rest

/-- The DAC with the sign that says whether the channel is trimmed. -/
def signed (out : Bool × (Nat × ℚ)) : Int := if out.1 then out.2.1 else -out.2.1

theorem bestOfRange_of_nonneg (trimRange : Nat) {best : Int} (h : 0 ≤ best) (bestThr : ℚ)
    (l : List (TrimRangeTrimDac × ℚ)) : bestOfRange trimRange target best bestThr l = best := by
  cases l with
  | nil => rfl
  | cons p l =>
      rcases p with ⟨key, curThr⟩
      unfold bestOfRange
      rw [if_pos h]

theorem bestOfRange_eq (trimRange : Nat) {b : Nat × ℚ} {l : List (TrimRangeTrimDac × ℚ)}
    (hdesc : Descending (b :: scanned trimRange l)) :
    bestOfRange trimRange target (-b.1) b.2 l = signed (settle target b (scanned trimRange l)) := by
  induction l generalizing b with
  | nil => rfl
  | cons p l ih =>
      rcases p with ⟨key, curThr⟩
      by_cases hzero : b.1 = 0
      · -- nothing comes below zero
        have hnone : scanned trimRange ((key, curThr) :: l) = [] := by
          apply List.eq_nil_iff_forall_not_mem.mpr
          intro q hq
          exact absurd ((List.pairwise_cons.mp hdesc).1 q hq) (by omega)
        rw [hnone, bestOfRange_of_nonneg target trimRange (by omega)]
        rfl
      · unfold bestOfRange
        rw [if_neg (by omega)]
        by_cases hrange : key.range = trimRange
        · have hcons : scanned trimRange ((key, curThr) :: l) =
              (key.dac, curThr) :: scanned trimRange l := scanned_cons_of_eq hrange l
          rw [hcons] at hdesc ⊢
          rw [if_neg (not_not.mpr hrange)]
          have hdist : |target - curThr| = distance target (key.dac, curThr) := abs_sub_comm _ _
          unfold settle
          by_cases hcross : Crosses target b (key.dac, curThr)
          · rw [if_pos hcross, if_pos (by exact hcross)]
            have hside : b.2 - target < target - curThr ↔
                distance target b < distance target (key.dac, curThr) := by
              rw [← hdist]
              unfold distance
              rw [abs_of_nonneg (by linarith [hcross.1]),
                abs_of_pos (by have h := hcross.2.1; dsimp only at h; linarith)]
            unfold pick
            by_cases hcloser : b.2 - target < target - curThr
            · rw [if_pos hcloser, if_pos (hside.mp hcloser),
                bestOfRange_of_nonneg target trimRange (abs_nonneg _), abs_neg, Nat.abs_cast]
              rfl
            · rw [if_neg hcloser, if_neg (fun h => hcloser (hside.mpr h)),
                bestOfRange_of_nonneg target trimRange (by omega)]
              rfl
          · rw [if_neg hcross, if_neg (by exact hcross), hdist]
            unfold pick
            by_cases hcloser : distance target b < distance target (key.dac, curThr)
            · rw [if_pos (by exact hcloser), if_pos hcloser, abs_neg, Nat.abs_cast, Int.neg_one_mul]
              apply ih
              exact hdesc.sublist ((List.sublist_cons_self _ _).cons_cons b)
            · rw [if_neg (by exact hcloser), if_neg hcloser]
              exact ih (hdesc.sublist (List.sublist_cons_self _ _))
        · have hcons : scanned trimRange ((key, curThr) :: l) = scanned trimRange l :=
            scanned_cons_of_ne hrange l
          rw [hcons] at hdesc ⊢
          rw [if_pos hrange]
          exact ih hdesc

/-- The result for a channel, from its points. -/
def bestOf : List (Nat × ℚ) → Int
  | [] => -999
  | b :: l => signed (settle target b l)

theorem bestTrimDacForChannel_eq (trimRange : Nat) (scan : TrimScan) :
    bestTrimDacForChannel trimRange target scan =
      bestOf target (scanned trimRange scan.points.reverse) := by
  have hdesc := descending_scanned trimRange scan
  unfold bestTrimDacForChannel
  rcases firstOfRange_eq trimRange 0 scan.points.reverse with ⟨hnone, hfirst⟩ | ⟨d, t, rest, hsome, hfirst⟩
  · rw [hfirst, hnone]
    rfl
  · rw [hsome] at hdesc
    rw [hfirst, hsome]
    show bestOfRange trimRange target (-1 * |(d : Int)|) t rest = _
    rw [Nat.abs_cast, Int.neg_one_mul]
    exact bestOfRange_eq target trimRange hdesc

/-! ## Crossings -/

/-- The walk comes to a point where the target is crossed. -/
def CrossesAt (b : Nat × ℚ) (before : List (Nat × ℚ)) (p : Nat × ℚ) : Prop :=
  Crosses target (closest (distance target) b before) p

/-- No point of a list is a crossing. -/
def NoCrossing (b : Nat × ℚ) (l : List (Nat × ℚ)) : Prop :=
  ∀ before p after, l = before ++ p :: after → ¬CrossesAt target b before p

/-- The first crossing of a list. -/
structure FirstCrossing (b : Nat × ℚ) (l before : List (Nat × ℚ)) (p : Nat × ℚ)
    (after : List (Nat × ℚ)) : Prop where
  split : l = before ++ p :: after
  crosses : CrossesAt target b before p
  none_before : NoCrossing target b before

theorem noCrossing_cons {b p : Nat × ℚ} {l : List (Nat × ℚ)} (hfirst : ¬Crosses target b p)
    (hrest : NoCrossing target (pick (distance target) b p) l) : NoCrossing target b (p :: l) := by
  intro before q after hsplit
  cases before with
  | nil =>
      rw [List.nil_append, List.cons.injEq] at hsplit
      rw [← hsplit.1]
      exact hfirst
  | cons r before =>
      rw [List.cons_append, List.cons.injEq] at hsplit
      rw [← hsplit.1]
      exact hrest before q after hsplit.2

theorem settle_cases (b : Nat × ℚ) (l : List (Nat × ℚ)) :
    (NoCrossing target b l ∧ settle target b l = (false, closest (distance target) b l)) ∨
    ∃ before p after, FirstCrossing target b l before p after ∧
      settle target b l = (true, closest (distance target) b (before ++ [p])) := by
  induction l generalizing b with
  | nil =>
      refine Or.inl ⟨?_, rfl⟩
      intro before p after hsplit
      exact absurd hsplit (by simp)
  | cons q l ih =>
      unfold settle
      by_cases hcross : Crosses target b q
      · rw [if_pos hcross]
        refine Or.inr ⟨[], q, l, ⟨rfl, hcross, ?_⟩, rfl⟩
        intro before p after hsplit
        exact absurd hsplit (by simp)
      · rw [if_neg hcross]
        rcases ih (pick (distance target) b q) with ⟨hnone, hend⟩ | ⟨before, p, after, hfirst, hend⟩
        · exact Or.inl ⟨noCrossing_cons target hcross hnone, hend⟩
        · refine Or.inr ⟨q :: before, p, after, ⟨?_, hfirst.crosses, ?_⟩, hend⟩
          · rw [hfirst.split, List.cons_append]
          · exact noCrossing_cons target hcross hfirst.none_before

/-- The target is between two points that follow each other. -/
def Bracketed (l : List (Nat × ℚ)) : Prop :=
  ∃ before q p after, l = before ++ q :: p :: after ∧
    ((p.2 ≤ target ∧ target ≤ q.2) ∨ (q.2 ≤ target ∧ target ≤ p.2))

theorem target_le_last {b : Nat × ℚ} {before : List (Nat × ℚ)} {q p : Nat × ℚ}
    (hcross : CrossesAt target b (before ++ [q]) p)
    (hnone : NoCrossing target b (before ++ [q])) : target ≤ q.2 := by
  by_contra hlow
  have hlow' : q.2 < target := not_le.mp hlow
  have hprev : ¬CrossesAt target b before q := hnone before q [] rfl
  unfold CrossesAt at hcross hprev
  rw [closest_concat] at hcross
  rcases pick_or (distance target) (closest (distance target) b before) q with hb | hq
  · rw [hb] at hcross
    exact hprev ⟨hcross.1, hlow', hcross.2.2⟩
  · rw [hq] at hcross
    exact hlow hcross.1

theorem FirstCrossing.bracketed {b : Nat × ℚ} {l before : List (Nat × ℚ)} {p : Nat × ℚ}
    {after : List (Nat × ℚ)} (h : FirstCrossing target b l before p after) :
    Bracketed target (b :: l) := by
  rw [h.split]
  have hlow : p.2 ≤ target := le_of_lt h.crosses.2.1
  rcases List.eq_nil_or_concat before with hnil | ⟨before', q, hconcat⟩
  · refine ⟨[], b, p, after, by rw [hnil]; rfl, Or.inl ⟨hlow, ?_⟩⟩
    have hcross := h.crosses
    rw [hnil] at hcross
    exact hcross.1
  · rw [List.concat_eq_append] at hconcat
    subst hconcat
    refine ⟨b :: before', q, p, after, ?_, Or.inl ⟨hlow, ?_⟩⟩
    · rw [List.append_assoc]
      rfl
    · exact target_le_last target h.crosses h.none_before

theorem FirstCrossing.unique {b : Nat × ℚ} {l before before' : List (Nat × ℚ)} {p p' : Nat × ℚ}
    {after after' : List (Nat × ℚ)} (h : FirstCrossing target b l before p after)
    (h' : FirstCrossing target b l before' p' after') :
    before = before' ∧ p = p' ∧ after = after' := by
  have hsplit := h.split.symm.trans h'.split
  rcases List.append_eq_append_iff.mp hsplit with ⟨mid, hbefore, hmid⟩ | ⟨mid, hbefore, hmid⟩
  · cases mid with
    | nil =>
        rw [List.nil_append, List.cons.injEq] at hmid
        rw [List.append_nil] at hbefore
        exact ⟨hbefore.symm, hmid⟩
    | cons r mid =>
        rw [List.cons_append, List.cons.injEq] at hmid
        rw [← hmid.1] at hbefore
        exact absurd h.crosses (h'.none_before before p mid hbefore)
  · cases mid with
    | nil =>
        rw [List.nil_append, List.cons.injEq] at hmid
        rw [List.append_nil] at hbefore
        exact ⟨hbefore, hmid.1.symm, hmid.2.symm⟩
    | cons r mid =>
        rw [List.cons_append, List.cons.injEq] at hmid
        rw [← hmid.1] at hbefore
        exact absurd h'.crosses (h.none_before before' p' mid hbefore)

/-! ## Channels -/

/-- The DAC is one that was scanned, with a threshold as close to the target as any other, and
counts as trimmed only with the target between two neighbours. -/
structure Right (l : List (Nat × ℚ)) (trim : Int) : Prop where
  minimal : ∃ thr, (trim.natAbs, thr) ∈ l ∧ ∀ q ∈ l, |thr - target| ≤ |q.2 - target|
  trimmed : 0 ≤ trim → Bracketed target l

/-- No point after the first crossing is closer than the closest one up to it; and without a
crossing the closest point has a DAC, which can carry the sign. -/
structure Settles (b : Nat × ℚ) (l : List (Nat × ℚ)) : Prop where
  beyond : ∀ before p after, FirstCrossing target b l before p after → ∀ q ∈ after,
    distance target (closest (distance target) b (before ++ [p])) ≤ distance target q
  zero : NoCrossing target b l → (closest (distance target) b l).1 = 0 → Bracketed target (b :: l)

theorem eq_of_dac {l : List (Nat × ℚ)} (hdesc : Descending l) {p q : Nat × ℚ} (hp : p ∈ l)
    (hq : q ∈ l) (hdac : p.1 = q.1) : p = q := by
  have hnodup : (l.map Prod.fst).Nodup := by
    apply List.pairwise_map.mpr
    exact List.Pairwise.imp (fun hlt => ne_of_gt hlt) hdesc
  exact List.inj_on_of_nodup_map hnodup hp hq hdac

theorem right_iff {b : Nat × ℚ} {l : List (Nat × ℚ)} (hdesc : Descending (b :: l)) :
    Right target (b :: l) (bestOf target (b :: l)) ↔ Settles target b l := by
  show Right target (b :: l) (signed (settle target b l)) ↔ _
  rcases settle_cases target b l with ⟨hnone, hend⟩ | ⟨before, p, after, hfirst, hend⟩
  · rw [hend]
    have hmem := closest_mem (distance target) b l
    have hle := cost_closest_le (distance target) b l
    have habs : (signed (false, closest (distance target) b l)).natAbs =
        (closest (distance target) b l).1 := Int.natAbs_neg _
    apply Iff.intro
    · intro hright
      refine ⟨fun before p after hfirst => absurd hfirst.crosses (hnone before p after hfirst.split), ?_⟩
      intro _ hzero
      apply hright.trimmed
      show (0 : Int) ≤ -((closest (distance target) b l).1 : Int)
      rw [hzero]
      exact le_refl _
    · intro hsettles
      refine ⟨⟨(closest (distance target) b l).2, ?_, hle⟩, ?_⟩
      · rw [habs]
        exact hmem
      · intro hnonneg
        have hnonneg' : (0 : Int) ≤ -((closest (distance target) b l).1 : Int) := hnonneg
        exact hsettles.zero hnone (by omega)
  · rw [hend]
    have hmem : closest (distance target) b (before ++ [p]) ∈ b :: l := by
      have hin := closest_mem (distance target) b (before ++ [p])
      have hsub : b :: (before ++ [p]) ⊆ b :: l := by
        rw [hfirst.split]
        intro q hq
        simp only [List.mem_cons, List.mem_append, List.not_mem_nil, or_false] at hq ⊢
        tauto
      exact hsub hin
    have habs : (signed (true, closest (distance target) b (before ++ [p]))).natAbs =
        (closest (distance target) b (before ++ [p])).1 := rfl
    apply Iff.intro
    · intro hright
      refine ⟨?_, fun hnone _ => absurd hfirst.crosses (hnone before p after hfirst.split)⟩
      intro before' p' after' hfirst' q hq
      rcases hfirst.unique target hfirst' with ⟨rfl, rfl, rfl⟩
      rcases hright.minimal with ⟨thr, hthr, hle⟩
      rw [habs] at hthr
      have hsame := eq_of_dac hdesc hthr hmem rfl
      have hclose := hle q (by
        rw [hfirst.split]
        exact List.mem_cons_of_mem b (List.mem_append_right before (List.mem_cons_of_mem p hq)))
      show |(closest (distance target) b (before ++ [p])).2 - target| ≤ _
      rw [← hsame]
      exact hclose
    · intro hsettles
      refine ⟨⟨(closest (distance target) b (before ++ [p])).2, ?_, ?_⟩, ?_⟩
      · rw [habs]
        exact hmem
      · intro q hq
        rw [hfirst.split] at hq
        have hq' : q ∈ b :: (before ++ [p]) ∨ q ∈ after := by
          simp only [List.mem_cons, List.mem_append, List.not_mem_nil, or_false] at hq ⊢
          tauto
        rcases hq' with hbefore | hafter
        · exact cost_closest_le (distance target) b (before ++ [p]) q hbefore
        · exact hsettles.beyond before p after hfirst q hafter
      · intro _
        exact hfirst.bracketed target

end StarTrimDacAnalysis

end Yarr.Star
