import Yarr.Scan.Histograms
import Yarr.Star.ChipIDs
import Yarr.Star.StripFields

/-!
# Feedback of strobe delays

The analysis finds one strobe delay for each chip and sends them in a
histogram. The feedback action of the scan writes them to the chips.
-/

namespace Yarr.Star

open Scan

def RowsPerABC : Nat := 2

/-- A double as an `int`: the fraction is cut off. What is out of range is not defined and gives
the smallest number here. -/
def toInt (x : ℚ) : Int :=
  let n := x.num.tdiv x.den
  if -2 ^ 31 ≤ n ∧ n < 2 ^ 31 then n else -2 ^ 31

/-! ## The analysis -/

namespace StarStrobeDelayAnalysis

/-- The edges of the pulses, by channel. -/
structure Edges where
  m_leftEdgeMap : Nat → ℚ
  m_rightEdgeMap : Nat → ℚ

/-- The channels of a chip in the maps, row by row. -/
def channels (nCol iChip : Nat) : List Nat :=
  (List.range RowsPerABC).flatMap fun row =>
    (List.range StripsPerABCRow).map fun iStrip => iStrip + row * nCol + StripsPerABCRow * iChip

def maxLeftEdgeForChip (edges : Edges) (nCol iChip : Nat) : ℚ :=
  (channels nCol iChip).foldl
    (fun best iChannel =>
      if best < edges.m_leftEdgeMap iChannel then edges.m_leftEdgeMap iChannel else best) 0

def minRightEdgeForChip (edges : Edges) (nCol iChip : Nat) : ℚ :=
  (channels nCol iChip).foldl
    (fun best iChannel =>
      if edges.m_rightEdgeMap iChannel < best ∧ 0 < edges.m_rightEdgeMap iChannel then
        edges.m_rightEdgeMap iChannel
      else best) 100

/-- The optimum of a chip, or -999 if its edges cross. -/
def strobeDelayOpt (edges : Edges) (m_sdFraction : ℚ) (nCol iChip : Nat) : Int :=
  let maxLeft := maxLeftEdgeForChip edges nCol iChip
  let minRight := minRightEdgeForChip edges nCol iChip
  if maxLeft < minRight then toInt (maxLeft + m_sdFraction * (minRight - maxLeft)) else -999

/-- What `pushData` feeds back. -/
def feedbackData (edges : Edges) (m_sdFraction : ℚ) (nCol : Nat) : Histo2d :=
  let nChips := nCol / StripsPerABCRow
  (List.range nChips).foldl
    (fun h iChip => h.fill (iChip : Nat) 0 (strobeDelayOpt edges m_sdFraction nCol iChip))
    (Histo2d.new nChips 0 nChips 1 0 1)

end StarStrobeDelayAnalysis

/-! ## The feedback action -/

/-- The exceptions of the feedback. -/
inductive FeedbackFailure where
  | lookup (failure : Failure)
  | subRegister (failure : SubRegisterFailure)
  deriving DecidableEq, Repr

structure StarParamFeedback where
  m_par : String
  fbDoneMap : Nat → Bool
  /-- `keeper->getFe`. -/
  fes : Nat → StarCfg

namespace StarParamFeedback

/-- `geo.nCol`. -/
def nCol (fe : StarCfg) : Nat := StripsPerABCRow * fe.numABCs

/-- The loop over the chips of the histogram, up to the first exception. -/
def feedChips (h : Histo2d) : List Nat → StarCfg → Outcome FeedbackFailure StarCfg
  | [], fe => ⟨none, fe⟩
  | histo_abc :: rest, fe =>
      let new_sd := toInt (h.getBin histo_abc)
      if fe.isAbcForHistoChip histo_abc then
        match fe.abcForHistoChip histo_abc with
        | .error failure => ⟨some (.lookup failure), fe⟩
        | .ok (ic, abc) =>
            let out := abc.setSubRegister .STR_DEL (UInt32.ofInt new_sd)
            let fe := fe.replaceABC ic out.state
            match out.thrown with
            | some failure => ⟨some (.subRegister failure), fe⟩
            | none => feedChips h rest fe
      else feedChips h rest fe

def feedback (s : StarParamFeedback) (id : Nat) (h : Histo2d) :
    Outcome FeedbackFailure StarParamFeedback :=
  if s.fbDoneMap id then ⟨none, s⟩
  else if s.m_par ≠ "STR_DEL" then ⟨none, s⟩
  else
    let nABCs := nCol (s.fes id) / StripsPerABCRow
    if h.xbins ≠ nABCs then ⟨none, s⟩
    else
      let out := feedChips h (List.range nABCs) (s.fes id)
      let s := { s with fes := Function.update s.fes id out.state }
      match out.thrown with
      | some failure => ⟨some failure, s⟩
      | none => ⟨none, { s with fbDoneMap := Function.update s.fbDoneMap id true }⟩

/-! ## One chip -/

/-- The value of a chip can be stored. -/
def Valid (new_sd : Int) : Prop := 0 ≤ new_sd ∧ new_sd < 64

instance (new_sd : Int) : Decidable (Valid new_sd) := inferInstanceAs (Decidable (_ ∧ _))

theorem fieldWidth_STR_DEL (abc : AbcCfg) : abc.fieldWidth .STR_DEL = some 6 := by
  have hall : ∀ v : Bool, ((abcSubRegDefs v).lookup .STR_DEL).map SubRegisterInfo.m_width =
      some 6 := by decide +kernel
  exact hall abc.version_1

theorem toInt_mem (x : ℚ) : -2 ^ 31 ≤ toInt x ∧ toInt x < 2 ^ 31 := by
  unfold toInt
  dsimp only
  split
  · assumption
  · omega

theorem toInt_intCast {n : Int} (h : -2 ^ 31 ≤ n ∧ n < 2 ^ 31) : toInt (n : ℚ) = n := by
  unfold toInt
  rw [Rat.num_intCast, Rat.den_intCast, Nat.cast_one, Int.tdiv_one]
  exact if_pos h

theorem toNat_ofInt {new_sd : Int} (h : -2 ^ 31 ≤ new_sd ∧ new_sd < 2 ^ 31) :
    (UInt32.ofInt new_sd).toNat = (if 0 ≤ new_sd then new_sd else new_sd + 2 ^ 32).toNat := by
  rw [UInt32.ofInt, UInt32.toNat_ofNat']
  split <;> omega

theorem setSubRegister_STR_DEL (abc : AbcCfg) (x : ℚ) :
    (abc.setSubRegister .STR_DEL (UInt32.ofInt (toInt x))).thrown = none ↔ Valid (toInt x) := by
  have hmem := toInt_mem x
  have hvalue := toNat_ofInt hmem
  rw [AbcCfg.fieldSetter.accepted, fieldWidth_STR_DEL, hvalue]
  unfold Valid
  constructor
  · rintro ⟨w, hw, hlt⟩
    rw [← Option.some_inj.mp hw] at hlt
    split at hlt <;> omega
  · intro hvalid
    rw [if_pos hvalid.1]
    exact ⟨6, rfl, by omega⟩

/-! ## The loop over the chips -/

/-- The chip of a histogram slot, if the slot has one, is there and gets a value that fits. -/
def Reached (fe : StarCfg) (new_sd : Nat → Int) (k : Nat) : Prop :=
  ∀ ic, fe.inputChannelForHistoChip k = some ic → (fe.abcAt ic).isSome ∧ Valid (new_sd k)

/-- An ABC with its new strobe delay. -/
def delayed (abc : AbcCfg) (new_sd : Int) : AbcCfg :=
  (abc.setSubRegister .STR_DEL (UInt32.ofInt new_sd)).state

theorem feedChips_cons (h : Histo2d) (k : Nat) (rest : List Nat) (fe : StarCfg) :
    feedChips h (k :: rest) fe =
      match fe.inputChannelForHistoChip k with
      | none => feedChips h rest fe
      | some ic =>
          match fe.abcAt ic with
          | none => ⟨some (.lookup .outOfRange), fe⟩
          | some abc =>
              let fe' := fe.replaceABC ic (delayed abc (toInt (h.getBin k)))
              match (abc.setSubRegister .STR_DEL (UInt32.ofInt (toInt (h.getBin k)))).thrown with
              | some failure => ⟨some (.subRegister failure), fe'⟩
              | none => feedChips h rest fe' := by
  rw [feedChips]
  unfold StarCfg.isAbcForHistoChip StarCfg.abcForHistoChip StarCfg.abcForInputChannel
  cases hchannel : fe.inputChannelForHistoChip k with
  | none => rfl
  | some ic =>
      dsimp only
      rw [if_pos Option.isSome_some]
      cases habc : fe.abcAt ic with
      | none => rfl
      | some abc => rfl

/-- The loop throws at the first chip that is not reached. -/
theorem feedChips_thrown_iff (h : Histo2d) (ks : List Nat) (fe : StarCfg) :
    (feedChips h ks fe).thrown = none ↔
      ∀ k ∈ ks, Reached fe (fun k => toInt (h.getBin k)) k := by
  induction ks generalizing fe with
  | nil => exact iff_of_true rfl fun k hk => absurd hk List.not_mem_nil
  | cons k rest ih =>
      rw [feedChips_cons, List.forall_mem_cons]
      cases hchannel : fe.inputChannelForHistoChip k with
      | none =>
          have hreached : Reached fe (fun k => toInt (h.getBin k)) k := by
            intro ic hic
            rw [hchannel] at hic
            cases hic
          dsimp only
          rw [ih fe, and_iff_right hreached]
      | some ic =>
          dsimp only
          cases habc : fe.abcAt ic with
          | none =>
              apply iff_of_false (Option.some_ne_none _)
              rintro ⟨hreached, _⟩
              have hsome := (hreached ic hchannel).1
              rw [habc] at hsome
              cases hsome
          | some abc =>
              have hhere : Reached fe (fun k => toInt (h.getBin k)) k ↔ Valid (toInt (h.getBin k)) := by
                constructor
                · exact fun hreached => (hreached ic hchannel).2
                · intro hvalid jc hjc
                  rw [hchannel] at hjc
                  rw [← Option.some_inj.mp hjc, habc]
                  exact ⟨rfl, hvalid⟩
              have hthrown := setSubRegister_STR_DEL abc (h.getBin k)
              rw [hhere]
              dsimp only
              cases hset : (abc.setSubRegister .STR_DEL (UInt32.ofInt (toInt (h.getBin k)))).thrown with
              | some failure =>
                  rw [hset] at hthrown
                  apply iff_of_false (Option.some_ne_none _)
                  exact fun hall => Option.some_ne_none _ (hthrown.mpr hall.1)
              | none =>
                  rw [hset] at hthrown
                  dsimp only
                  rw [ih, and_iff_right (hthrown.mp rfl)]
                  apply forall_congr'
                  intro k'
                  apply imp_congr_right
                  intro _
                  unfold Reached
                  apply forall_congr'
                  intro jc
                  rw [StarCfg.inputChannel_replaceABC, StarCfg.abcAt_replaceABC, Option.isSome_map]

/-- The channel has a slot, and the slot is one of those in the list. -/
def InSlot (fe : StarCfg) (ks : List Nat) (ic : Fin MaxABCsPerHCC) : Prop :=
  fe.chip_map ic ∈ ks ∧ fe.inputChannelForHistoChip (fe.chip_map ic) = some ic

instance (fe : StarCfg) (ks : List Nat) (ic : Fin MaxABCsPerHCC) : Decidable (InSlot fe ks ic) :=
  inferInstanceAs (Decidable (_ ∧ _))

theorem inSlot_cons_of_ne {fe : StarCfg} {k : Nat} {rest : List Nat} {ic : Fin MaxABCsPerHCC}
    (hne : fe.inputChannelForHistoChip k ≠ some ic) :
    InSlot fe (k :: rest) ic ↔ InSlot fe rest ic := by
  unfold InSlot
  constructor
  · rintro ⟨hmem, hchannel⟩
    rcases List.mem_cons.mp hmem with heq | hrest
    · rw [heq] at hchannel
      exact absurd hchannel hne
    · exact ⟨hrest, hchannel⟩
  · rintro ⟨hmem, hchannel⟩
    exact ⟨List.mem_cons_of_mem k hmem, hchannel⟩

/-- Without an exception, each chip of the slots has got its value, and no other chip. -/
theorem abcAt_feedChips (h : Histo2d) {ks : List Nat} (hnodup : ks.Nodup) {fe : StarCfg}
    (hreached : ∀ k ∈ ks, Reached fe (fun k => toInt (h.getBin k)) k) (ic : Fin MaxABCsPerHCC) :
    (feedChips h ks fe).state.abcAt ic = (fe.abcAt ic).map fun abc =>
      if InSlot fe ks ic then delayed abc (toInt (h.getBin (fe.chip_map ic))) else abc := by
  induction ks generalizing fe with
  | nil =>
      show fe.abcAt ic = _
      cases fe.abcAt ic with
      | none => rfl
      | some abc => rw [Option.map_some, if_neg (fun hin => absurd hin.1 List.not_mem_nil)]
  | cons k rest ih =>
      have hnew := (List.nodup_cons.mp hnodup).1
      have hrest : ∀ k' ∈ rest, Reached fe (fun k => toInt (h.getBin k)) k' := fun k' hk' =>
        hreached k' (List.mem_cons_of_mem k hk')
      rw [feedChips_cons]
      cases hchannel : fe.inputChannelForHistoChip k with
      | none =>
          have hslot : InSlot fe (k :: rest) ic ↔ InSlot fe rest ic :=
            inSlot_cons_of_ne (by rw [hchannel]; exact (Option.some_ne_none ic).symm)
          dsimp only
          rw [ih (List.nodup_cons.mp hnodup).2 hrest]
          simp only [hslot]
      | some jc =>
          rcases hreached k List.mem_cons_self jc hchannel with ⟨hsome, hvalid⟩
          rcases Option.isSome_iff_exists.mp hsome with ⟨abc, habc⟩
          have hthrown := (setSubRegister_STR_DEL abc (h.getBin k)).mpr hvalid
          have hrest' : ∀ k' ∈ rest,
              Reached (fe.replaceABC jc (delayed abc (toInt (h.getBin k))))
                (fun k => toInt (h.getBin k)) k' := by
            intro k' hk' ic' hic'
            rw [StarCfg.abcAt_replaceABC, Option.isSome_map]
            exact hrest k' hk' ic' hic'
          dsimp only
          rw [habc]
          dsimp only
          rw [hthrown]
          dsimp only
          rw [ih (List.nodup_cons.mp hnodup).2 hrest', StarCfg.abcAt_replaceABC]
          have hslot' : InSlot (fe.replaceABC jc (delayed abc (toInt (h.getBin k)))) rest ic ↔
              InSlot fe rest ic := Iff.rfl
          simp only [hslot', StarCfg.chip_map_replaceABC]
          by_cases hic : ic = jc
          · subst hic
            have hmap := fe.chip_map_of_inputChannel hchannel
            have hin : InSlot fe (k :: rest) ic :=
              ⟨by rw [hmap]; exact List.mem_cons_self, by rw [hmap]; exact hchannel⟩
            have hout : ¬ InSlot fe rest ic := fun hin => hnew (hmap ▸ hin.1)
            rw [habc]
            simp only [Option.map_some, if_true, if_pos hin, if_neg hout, hmap]
          · have hslot : InSlot fe (k :: rest) ic ↔ InSlot fe rest ic :=
              inSlot_cons_of_ne (by rw [hchannel]; exact fun heq => hic (Option.some_inj.mp heq).symm)
            simp only [hslot, if_neg hic, Option.map_id']

/-! ## The histogram of the analysis -/

theorem xbins_fill (h : Histo2d) (x y v : ℚ) : (h.fill x y v).xbins = h.xbins := by
  unfold Histo2d.fill
  split
  · rfl
  · split <;> rfl

theorem binNum_chips {n k : Nat} (hk : k < n) :
    (Histo2d.new n 0 n 1 0 1).binNum k 0 = some k := by
  have hne : (n : ℚ) ≠ 0 := Nat.cast_ne_zero.mpr (by omega)
  have hle : ¬ ((n : ℚ) < (k : ℚ)) := not_lt.mpr (Nat.cast_le.mpr (by omega))
  have hpos : ¬ ((k : ℚ) < 0) := not_lt.mpr (Nat.cast_nonneg k)
  have hone : ¬ ((1 : ℚ) < 0) := by norm_num
  have hindex : (Histo2d.new n 0 n 1 0 1).index k 0 = k := by
    have hwidth : (Histo2d.new n 0 n 1 0 1).xbinWidth = 1 := by
      show ((n : ℚ) - 0) / n = 1
      rw [sub_zero, div_self hne]
    unfold Histo2d.index
    rw [hwidth]
    show (((k : ℚ) - 0) / 1).floor.toNat + (((0 : ℚ) - 0) / _).floor.toNat * _ = k
    rw [sub_zero, div_one, sub_zero, zero_div]
    have hfloor : (k : ℚ).floor = (k : Int) := Rat.floor_intCast k
    have hzero : (0 : ℚ).floor = 0 := Rat.floor_intCast 0
    rw [hfloor, hzero, Int.toNat_natCast, Int.toNat_zero, Nat.zero_mul, Nat.add_zero]
  unfold Histo2d.binNum
  show (if (k : ℚ) < 0 ∨ (0 : ℚ) < 0 then none
    else if (n : ℚ) < (k : ℚ) ∨ (1 : ℚ) < 0 then none else some _) = some k
  rw [if_neg (by simp [hpos]), if_neg (by simp [hle, hone]), hindex]

theorem foldl_fill (n : Nat) (f : Nat → Int) {m : Nat} (hm : m ≤ n) :
    let h := (List.range m).foldl (fun (h : Histo2d) k => h.fill (k : Nat) 0 (f k))
      (Histo2d.new n 0 n 1 0 1)
    h.xbins = n ∧ h.size = n ∧ (∀ x y, h.binNum x y = (Histo2d.new n 0 n 1 0 1).binNum x y) ∧
      ∀ k, k < n → h.getBin k = if k < m then (f k : ℚ) else 0 := by
  induction m with
  | zero =>
      apply And.intro rfl
      apply And.intro (Nat.mul_one n)
      apply And.intro (fun _ _ => rfl)
      intro k _
      rw [if_neg (Nat.not_lt_zero k)]
      exact Histo2d.getBin_new ..
  | succ m ih =>
      rcases ih (by omega) with ⟨hxbins, hsize, hbin, hget⟩
      dsimp only
      rw [List.range_succ, List.foldl_append, List.foldl_cons, List.foldl_nil]
      apply And.intro ((xbins_fill _ _ _ _).trans hxbins)
      apply And.intro ((Histo2d.size_fill _ _ _ _).trans hsize)
      apply And.intro (fun x y => (Histo2d.binNum_fill _ _ _ _ _ _).trans (hbin x y))
      intro k hk
      rw [Histo2d.getBin_fill _ (by rw [hsize]; exact hk), hget k hk]
      unfold Histo2d.gain
      rw [hbin, binNum_chips (by omega : m < n)]
      by_cases heq : m = k
      · subst heq
        simp
      · by_cases hlt : k < m
        · simp [hlt, heq, Nat.lt_succ_of_lt hlt]
        · simp [hlt, heq, show ¬ k < m + 1 by omega]

open StarStrobeDelayAnalysis in
theorem getBin_feedbackData (edges : Edges) (m_sdFraction : ℚ) (nCol : Nat) {k : Nat}
    (hk : k < nCol / StripsPerABCRow) :
    toInt ((feedbackData edges m_sdFraction nCol).getBin k) =
      strobeDelayOpt edges m_sdFraction nCol k := by
  have hbins := (foldl_fill (nCol / StripsPerABCRow) (strobeDelayOpt edges m_sdFraction nCol)
    (Nat.le_refl _)).2.2.2 k hk
  have hrange : -2 ^ 31 ≤ strobeDelayOpt edges m_sdFraction nCol k ∧
      strobeDelayOpt edges m_sdFraction nCol k < 2 ^ 31 := by
    unfold strobeDelayOpt
    dsimp only
    split
    · exact toInt_mem _
    · omega
  rw [if_pos hk] at hbins
  unfold feedbackData
  dsimp only
  rw [hbins, toInt_intCast hrange]

/-! ## The feedback as a whole -/

/-- Chips with a value that fits have got it, all others are as they were, and the feedback is
done. -/
structure FedBack (s : StarParamFeedback) (id : Nat) (new_sd : Nat → Int)
    (out : Outcome FeedbackFailure StarParamFeedback) : Prop where
  thrown : out.thrown = none
  valid : ∀ ic abc, (s.fes id).abcAt ic = some abc →
    InSlot (s.fes id) (List.range (s.fes id).numABCs) ic →
    Valid (new_sd ((s.fes id).chip_map ic)) →
    ∃ abc', (out.state.fes id).abcAt ic = some abc' ∧
      abc'.getSubRegister .STR_DEL = .ok (new_sd ((s.fes id).chip_map ic)).toNat ∧
      ∀ other, other ≠ ABCStarSubRegister.STR_DEL →
        abc'.getSubRegister other = abc.getSubRegister other
  others : ∀ ic abc, (s.fes id).abcAt ic = some abc →
    ¬ (InSlot (s.fes id) (List.range (s.fes id).numABCs) ic ∧
      Valid (new_sd ((s.fes id).chip_map ic))) →
    (out.state.fes id).abcAt ic = some abc
  frame : ∀ id', id' ≠ id → out.state.fes id' = s.fes id'
  done : out.state.fbDoneMap id = true

theorem feedback_eq (s : StarParamFeedback) (id : Nat) {h : Histo2d} (hpar : s.m_par = "STR_DEL")
    (hdone : s.fbDoneMap id = false) (hbins : h.xbins = (s.fes id).numABCs) :
    s.feedback id h =
      let out := feedChips h (List.range (s.fes id).numABCs) (s.fes id)
      let s := { s with fes := Function.update s.fes id out.state }
      match out.thrown with
      | some failure => ⟨some failure, s⟩
      | none => ⟨none, { s with fbDoneMap := Function.update s.fbDoneMap id true }⟩ := by
  have hchips : nCol (s.fes id) / StripsPerABCRow = (s.fes id).numABCs :=
    Nat.mul_div_cancel_left _ (by decide)
  unfold feedback
  rw [if_neg (by rw [hdone]; exact Bool.false_ne_true), if_neg (not_not.mpr hpar)]
  dsimp only
  rw [hchips, if_neg (not_not.mpr hbins)]

theorem getSubRegister_delayed (abc : AbcCfg) {x : ℚ} (hvalid : Valid (toInt x)) :
    (delayed abc (toInt x)).getSubRegister .STR_DEL = .ok (toInt x).toNat := by
  have hstored := AbcCfg.fieldSetter.stored abc .STR_DEL (UInt32.ofInt (toInt x))
    ((setSubRegister_STR_DEL abc x).mpr hvalid)
  rw [toNat_ofInt (toInt_mem x), if_pos hvalid.1] at hstored
  exact hstored

/-- The feedback of any histogram with a bin for each chip. -/
theorem feedback_histogram_iff (s : StarParamFeedback) (id : Nat) {h : Histo2d}
    (hpar : s.m_par = "STR_DEL") (hdone : s.fbDoneMap id = false)
    (hbins : h.xbins = (s.fes id).numABCs) :
    FedBack s id (fun k => toInt (h.getBin k)) (s.feedback id h) ↔
      ∀ k ∈ List.range (s.fes id).numABCs,
        Reached (s.fes id) (fun k => toInt (h.getBin k)) k := by
  rw [feedback_eq s id hpar hdone hbins, ← feedChips_thrown_iff]
  dsimp only
  cases hthrown : (feedChips h (List.range (s.fes id).numABCs) (s.fes id)).thrown with
  | some failure =>
      apply iff_of_false _ (Option.some_ne_none _)
      intro hfed
      exact Option.some_ne_none _ hfed.thrown
  | none =>
      have hstate := abcAt_feedChips h List.nodup_range ((feedChips_thrown_iff _ _ _).mp hthrown)
      have hreached := (feedChips_thrown_iff _ _ _).mp hthrown
      apply iff_of_true _ rfl
      exact {
        thrown := rfl
        valid := by
          intro ic abc habc hin hvalid
          dsimp only
          rw [Function.update_self, hstate ic, habc, Option.map_some, if_pos hin]
          exact ⟨_, rfl, getSubRegister_delayed abc hvalid, fun other hother =>
            AbcCfg.fieldSetter.others abc .STR_DEL _ other
              ((setSubRegister_STR_DEL abc _).mpr hvalid) hother⟩
        others := by
          intro ic abc habc hnot
          dsimp only
          rw [Function.update_self, hstate ic, habc, Option.map_some]
          have hout : ¬ InSlot (s.fes id) (List.range (s.fes id).numABCs) ic := fun hin =>
            hnot ⟨hin, (hreached _ hin.1 ic hin.2).2⟩
          rw [if_neg hout]
        frame := fun id' hne => Function.update_of_ne hne _ _
        done := Function.update_self _ _ _ }

theorem FedBack.congr {s : StarParamFeedback} {id : Nat} {f g : Nat → Int}
    {out : Outcome FeedbackFailure StarParamFeedback}
    (heq : ∀ k, k < (s.fes id).numABCs → f k = g k) (h : FedBack s id f out) :
    FedBack s id g out where
  thrown := h.thrown
  valid := by
    intro ic abc habc hin hvalid
    have hsame := heq _ (List.mem_range.mp hin.1)
    rw [← hsame] at hvalid ⊢
    exact h.valid ic abc habc hin hvalid
  others := by
    intro ic abc habc hnot
    apply h.others ic abc habc
    rintro ⟨hin, hvalid⟩
    rw [heq _ (List.mem_range.mp hin.1)] at hvalid
    exact hnot ⟨hin, hvalid⟩
  frame := h.frame
  done := h.done

open StarStrobeDelayAnalysis in
/-- The feedback works if and only if each slot with a channel has an ABC there and gets an optimum
that fits. -/
theorem feedback_iff (s : StarParamFeedback) (id : Nat) (edges : Edges) (m_sdFraction : ℚ)
    (hpar : s.m_par = "STR_DEL") (hdone : s.fbDoneMap id = false) :
    FedBack s id (strobeDelayOpt edges m_sdFraction (nCol (s.fes id)))
        (s.feedback id (feedbackData edges m_sdFraction (nCol (s.fes id)))) ↔
      ∀ k, k < (s.fes id).numABCs →
        Reached (s.fes id) (strobeDelayOpt edges m_sdFraction (nCol (s.fes id))) k := by
  have hchips : nCol (s.fes id) / StripsPerABCRow = (s.fes id).numABCs :=
    Nat.mul_div_cancel_left _ (by decide)
  have hbins : (feedbackData edges m_sdFraction (nCol (s.fes id))).xbins = (s.fes id).numABCs := by
    have hfill := (foldl_fill (nCol (s.fes id) / StripsPerABCRow)
      (strobeDelayOpt edges m_sdFraction (nCol (s.fes id))) (Nat.le_refl _)).1
    exact hfill.trans hchips
  have hopt : ∀ k, k < (s.fes id).numABCs →
      toInt ((feedbackData edges m_sdFraction (nCol (s.fes id))).getBin k) =
        strobeDelayOpt edges m_sdFraction (nCol (s.fes id)) k := fun k hk =>
    getBin_feedbackData edges m_sdFraction _ (by rw [hchips]; exact hk)
  have hhistogram := feedback_histogram_iff s id hpar hdone hbins
  constructor
  · intro hfed k hk
    have hreached := hhistogram.mp (hfed.congr fun k hk => (hopt k hk).symm) k
      (List.mem_range.mpr hk)
    unfold Reached at hreached ⊢
    dsimp only at hreached
    rwa [hopt k hk] at hreached
  · intro hreached
    apply FedBack.congr hopt
    apply hhistogram.mpr
    intro k hk
    have hk' := List.mem_range.mp hk
    have hthis := hreached k hk'
    unfold Reached at hthis ⊢
    dsimp only
    rwa [hopt k hk']

/-- One front-end with one ABC on channel 0, to be fed back. -/
def oneChip : StarParamFeedback where
  m_par := "STR_DEL"
  fbDoneMap := fun _ => false
  fes := fun _ => {
    hcc := ⟨true, 0, ⟨fun addr => if addr = ICENABLE.m_regAddress then 1 else 0⟩⟩
    m_ABCchips := [(⟨0, MaxABCsPerHCC_pos⟩, ⟨true, 0, ⟨fun _ => 0⟩⟩)]
    sorted := List.pairwise_singleton _ _ }

/-- All left edges at one delay, all right edges at another. -/
def edgesAt (left right : ℚ) : StarStrobeDelayAnalysis.Edges := ⟨fun _ => left, fun _ => right⟩

open StarStrobeDelayAnalysis in
theorem feedback_oneChip :
    FedBack oneChip 0 (strobeDelayOpt (edgesAt 10 30) (57 / 100) (nCol (oneChip.fes 0)))
        (oneChip.feedback 0 (feedbackData (edgesAt 10 30) (57 / 100) (nCol (oneChip.fes 0)))) ↔
      ∀ k, k < (oneChip.fes 0).numABCs →
        Reached (oneChip.fes 0)
          (strobeDelayOpt (edgesAt 10 30) (57 / 100) (nCol (oneChip.fes 0))) k :=
  feedback_iff oneChip 0 (edgesAt 10 30) (57 / 100) rfl rfl

open StarStrobeDelayAnalysis in
/-- Edges that cross: the feedback throws and is not marked as done. -/
theorem feedback_crossing :
    strobeDelayOpt (edgesAt 30 20) (57 / 100) (nCol (oneChip.fes 0)) 0 = -999 ∧
    (oneChip.feedback 0 (feedbackData (edgesAt 30 20) (57 / 100) (nCol (oneChip.fes 0)))).thrown =
      some (.subRegister .invalidBits) ∧
    (oneChip.feedback 0 (feedbackData (edgesAt 30 20) (57 / 100)
      (nCol (oneChip.fes 0)))).state.fbDoneMap 0 = false := by
  decide +kernel

end StarParamFeedback

end Yarr.Star
