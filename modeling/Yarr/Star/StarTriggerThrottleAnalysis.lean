import Mathlib.Data.List.Induction
import Mathlib.Tactic.Common
import Yarr.Core.Maps
import Yarr.Scan.OccupancyAnalysis

/-!
# `StarTriggerThrottleAnalysis`

The occupancy maps of several bunches of triggers are added up for each point
of the scan, and each bunch is answered with whether the next one should be
larger. A counter of a strip ends at 255.
-/

namespace Yarr.Star

open Scan

/-- What `init` asks a loop for. -/
structure ThrottleLoop where
  isPOILoop : Bool
  getMax : UInt32

/-- The occupancies of one bunch of triggers. -/
structure Bunch where
  curr_occ : Histo2d
  nbTriggersInBunch : UInt32

/-- What comes in, with its position: an `OccupancyMap`, with the triggers that the trigger loop
gave out for it, or `TriggerComplete`. -/
inductive ThrottleInput where
  | occupancyMap (stat : LoopStatus) (bunch : Bunch)
  | triggerComplete (stat : LoopStatus)

/-- What the three maps hold under one identifier. -/
structure ThrottleSlot where
  occMapAllBunches : Option Histo2d := none
  occMapSaturatedChannels : Option Histo2d := none
  totNbTriggersSoFar : Option Nat := none

structure StarTriggerThrottleAnalysis where
  nCol : Nat
  nRow : Nat
  m_target_occ : UInt32 := 128
  ident_loops : List Nat := []
  loopMax : List UInt32 := []
  m_occMapAllBunches : IdentMap (Option Histo2d) := fun _ => none
  m_occMapSaturatedChannels : IdentMap (Option Histo2d) := fun _ => none
  m_totNbTriggersSoFar : KeyMap Nat Nat := []
  m_feedback : List Int := []
  output : List Histo2d := []

/-! ## One identifier -/

namespace ThrottleSlot

/-- A channel at the end of its counter counts with its estimate, if it has one. -/
def Saturated (curr_occ saturated : Histo2d) (i : Nat) : Prop :=
  curr_occ.getBin i = 255 ∧ saturated.getBin i ≠ 0

instance (curr_occ saturated : Histo2d) : DecidablePred (Saturated curr_occ saturated) :=
  fun i => inferInstanceAs (Decidable (curr_occ.getBin i = 255 ∧ saturated.getBin i ≠ 0))

/-- Per trigger, over all channels. -/
def aveOccupancy (b : Bunch) (saturated : Histo2d) : ℚ :=
  ((List.range b.curr_occ.size).map fun i =>
    if Saturated b.curr_occ saturated i then saturated.getBin i * b.nbTriggersInBunch.toNat
    else b.curr_occ.getBin i).sum / b.curr_occ.size / b.nbTriggersInBunch.toNat

def sign (m_target_occ : UInt32) (totAveOcc aveOccupancy : ℚ) (nbTriggersInBunch : UInt32) : Int :=
  if (m_target_occ.toNat : ℚ) <
      totAveOcc + 9 / 10 * aveOccupancy * nbTriggersInBunch.toNat / 2 then -1
  else if aveOccupancy * nbTriggersInBunch.toNat + totAveOcc < m_target_occ.toNat then 1
  else 0

/-- One bunch, for maps of `nCol` columns and `nRow` rows. -/
def addBunch (m_target_occ : UInt32) (nCol nRow : Nat) (s : ThrottleSlot) (b : Bunch) :
    ThrottleSlot × Int :=
  let tot := (if s.occMapAllBunches.isSome then s.totNbTriggersSoFar.getD 0 else 0) +
    b.nbTriggersInBunch.toNat
  let saturated := s.occMapSaturatedChannels.getD (emptyMap nCol nRow)
  let occ := ((s.occMapAllBunches.getD (emptyMap nCol nRow)).add b.curr_occ).setWhere
    (Saturated b.curr_occ saturated) (fun i => saturated.getBin i * tot) b.curr_occ.size
  let sign := sign m_target_occ occ.getMean (aveOccupancy b saturated) b.nbTriggersInBunch
  let saturated :=
    if sign = 1 then
      saturated.setWhere (fun i => 127 < b.curr_occ.getBin i) (fun i => occ.getBin i / tot)
        b.curr_occ.size
    else saturated
  (⟨some occ, some saturated, some tot⟩, sign)

/-- The sum over the triggers. -/
def average (s : ThrottleSlot) : Option Histo2d :=
  s.occMapAllBunches.map fun occ => occ.scale (1 / s.totNbTriggersSoFar.getD 0)

def endBin (s : ThrottleSlot) : ThrottleSlot := { s with occMapAllBunches := none }

end ThrottleSlot

/-! ## The analysis -/

namespace StarTriggerThrottleAnalysis

def initLoop (a : StarTriggerThrottleAnalysis) (n : Nat) (l : ThrottleLoop) :
    StarTriggerThrottleAnalysis :=
  if l.isPOILoop then
    { a with ident_loops := a.ident_loops ++ [n], loopMax := a.loopMax ++ [l.getMax] }
  else a

def initLoops (a : StarTriggerThrottleAnalysis) (n : Nat) :
    List ThrottleLoop → StarTriggerThrottleAnalysis
  | [] => a
  | l :: s => initLoops (a.initLoop n l) (n + 1) s

def init (nCol nRow : Nat) (m_target_occ : UInt32) (s : List ThrottleLoop) :
    StarTriggerThrottleAnalysis :=
  initLoops { nCol, nRow, m_target_occ } 0 s

variable (a : StarTriggerThrottleAnalysis)

/-- The loop over the values of the loops of interest and their upper limits. -/
def identLoop (ident offset : UInt32) : List (UInt32 × UInt32) → UInt32
  | [] => ident
  | (loop_val, max) :: rest => identLoop (ident + loop_val * offset) (offset * max) rest

/-- The values of the loops of interest. -/
def point (ls : LoopStatus) : List UInt32 := a.ident_loops.map ls.get

def identOf (values : List UInt32) : UInt32 := identLoop 0 1 (values.zip a.loopMax)

def buildIdent (ls : LoopStatus) : UInt32 := a.identOf (a.point ls)

def slotAt (ident : UInt32) : ThrottleSlot where
  occMapAllBunches := a.m_occMapAllBunches ident
  occMapSaturatedChannels := a.m_occMapSaturatedChannels ident
  totNbTriggersSoFar := a.m_totNbTriggersSoFar.find ident.toNat

def store (ident : UInt32) (s : ThrottleSlot) : StarTriggerThrottleAnalysis :=
  { a with
    m_occMapAllBunches := Function.update a.m_occMapAllBunches ident s.occMapAllBunches
    m_occMapSaturatedChannels :=
      Function.update a.m_occMapSaturatedChannels ident s.occMapSaturatedChannels
    m_totNbTriggersSoFar :=
      match s.totNbTriggersSoFar with
      | some tot => KeyMap.insert ident.toNat tot a.m_totNbTriggersSoFar
      | none => a.m_totNbTriggersSoFar }

/-- Without data at the end of a bin there is a warning only. -/
def processHistogram : ThrottleInput → StarTriggerThrottleAnalysis
  | .occupancyMap stat bunch =>
      let ident := a.buildIdent stat
      let (slot, sign) := (a.slotAt ident).addBunch a.m_target_occ a.nCol a.nRow bunch
      { a.store ident slot with m_feedback := a.m_feedback ++ [sign] }
  | .triggerComplete stat =>
      let ident := a.buildIdent stat
      match (a.slotAt ident).average with
      | some occ => { a.store ident (a.slotAt ident).endBin with output := a.output ++ [occ] }
      | none => a

def run (inputs : List ThrottleInput) : StarTriggerThrottleAnalysis :=
  inputs.foldl processHistogram a

/-- The bins of `NumTriggers`, which `end` puts out. -/
def numTriggers : List Nat := a.m_totNbTriggersSoFar.map Prod.snd

end StarTriggerThrottleAnalysis

end Yarr.Star

/-!
## The identifier of a scan point

A number with the upper limits of the loops as its radices.
-/

namespace Yarr.Star.StarTriggerThrottleAnalysis

open Scan

/-- The identifier without the cut to 32 bits. -/
def mixed : List UInt32 → List UInt32 → Nat
  | v :: vs, max :: maxs => v.toNat + max.toNat * mixed vs maxs
  | _, _ => 0

/-- Every value stands below the limit of its loop, but for that of the last loop. -/
def BelowMax : List UInt32 → List UInt32 → Prop
  | v :: w :: vs, max :: maxs => v < max ∧ BelowMax (w :: vs) maxs
  | _, _ => True

theorem identLoop_zip (ident offset : UInt32) (values maxs : List UInt32) :
    identLoop ident offset (values.zip maxs) =
      ident + offset * UInt32.ofNat (mixed values maxs) := by
  induction values generalizing ident offset maxs with
  | nil =>
      show ident = ident + offset * UInt32.ofNat 0
      grind
  | cons v vs ih =>
      cases maxs with
      | nil =>
          show ident = ident + offset * UInt32.ofNat 0
          grind
      | cons max maxs =>
          have hmixed : UInt32.ofNat (mixed (v :: vs) (max :: maxs)) =
              v + max * UInt32.ofNat (mixed vs maxs) := by
            rw [mixed, UInt32.ofNat_add, UInt32.ofNat_mul, UInt32.ofNat_toNat, UInt32.ofNat_toNat]
          rw [hmixed, List.zip_cons_cons, identLoop, ih]
          grind

variable {a : StarTriggerThrottleAnalysis}

theorem identOf_eq (values : List UInt32) :
    a.identOf values = UInt32.ofNat (mixed values a.loopMax) := by
  unfold identOf
  rw [identLoop_zip]
  grind

theorem identOf_toNat {values : List UInt32} (hfits : mixed values a.loopMax < 2 ^ 32) :
    (a.identOf values).toNat = mixed values a.loopMax := by
  rw [identOf_eq, UInt32.toNat_ofNat']
  exact Nat.mod_eq_of_lt hfits

/-- Below the limits, the digits can be read off the number. -/
theorem mixed_inj {p q maxs : List UInt32} (hp : p.length = maxs.length)
    (hq : q.length = maxs.length) (hpBelow : BelowMax p maxs) (hqBelow : BelowMax q maxs)
    (h : mixed p maxs = mixed q maxs) : p = q := by
  induction maxs generalizing p q with
  | nil =>
      rw [List.length_nil] at hp hq
      rw [List.eq_nil_of_length_eq_zero hp, List.eq_nil_of_length_eq_zero hq]
  | cons max maxs ih =>
      obtain ⟨v, vs, rfl⟩ := List.exists_cons_of_length_eq_add_one hp
      obtain ⟨w, ws, rfl⟩ := List.exists_cons_of_length_eq_add_one hq
      have hvs : vs.length = maxs.length := Nat.succ_injective hp
      have hws : ws.length = maxs.length := Nat.succ_injective hq
      rw [mixed, mixed] at h
      cases vs with
      | nil =>
          have hws' : ws = [] := List.eq_nil_of_length_eq_zero (hws.trans hvs.symm)
          subst hws'
          have hvw : v.toNat = w.toNat := by simpa [mixed] using h
          rw [UInt32.toNat_inj.mp hvw]
      | cons v' vs =>
          obtain ⟨w', ws, rfl⟩ := List.exists_cons_of_length_eq_add_one (hws.trans hvs.symm)
          obtain ⟨hv, hvsBelow⟩ := hpBelow
          obtain ⟨hw, hwsBelow⟩ := hqBelow
          have hv' := UInt32.lt_iff_toNat_lt.mp hv
          have hw' := UInt32.lt_iff_toNat_lt.mp hw
          have hmod := congrArg (· % max.toNat) h
          simp only [Nat.add_mul_mod_self_left, Nat.mod_eq_of_lt hv', Nat.mod_eq_of_lt hw'] at hmod
          rw [hmod] at h
          have hpos : 0 < max.toNat := by omega
          have hrest := Nat.eq_of_mul_eq_mul_left hpos (Nat.add_left_cancel h)
          rw [UInt32.toNat_inj.mp hmod, ih hvs hws hvsBelow hwsBelow hrest]

theorem identOf_inj {p q : List UInt32} (hp : p.length = a.loopMax.length)
    (hq : q.length = a.loopMax.length) (hpBelow : BelowMax p a.loopMax)
    (hqBelow : BelowMax q a.loopMax) (hpFits : mixed p a.loopMax < 2 ^ 32)
    (hqFits : mixed q a.loopMax < 2 ^ 32) (h : a.identOf p = a.identOf q) : p = q := by
  have hnat := congrArg UInt32.toNat h
  rw [identOf_toNat hpFits, identOf_toNat hqFits] at hnat
  exact mixed_inj hp hq hpBelow hqBelow hnat

end Yarr.Star.StarTriggerThrottleAnalysis

/-!
## The sum of a channel over its bunches

Readings are added up, until a reading of 255 meets an estimate. An estimate
is kept from a reading above half of the counter, when more triggers were asked
for.
-/

namespace Yarr.Star

open Scan

/-- A channel under an identifier: what is added up, the triggers for it, and the estimate per
trigger, which is zero when there is none. -/
structure ChannelSum where
  occ : ℚ := 0
  tot : Nat := 0
  estimate : ℚ := 0

namespace ChannelSum

def add (c : ChannelSum) (reading : ℚ) (nbTriggers : Nat) (sign : Int) : ChannelSum :=
  let tot := c.tot + nbTriggers
  let occ := if reading = 255 ∧ c.estimate ≠ 0 then c.estimate * tot else c.occ + reading
  { occ, tot, estimate := if sign = 1 ∧ 127 < reading then occ / tot else c.estimate }

/-- The bunches with their answers. -/
def addAll (i : Nat) (bunches : List (Bunch × Int)) : ChannelSum :=
  bunches.foldl
    (fun c b => c.add (b.1.curr_occ.getBin i) b.1.nbTriggersInBunch.toNat b.2) {}

theorem addAll_concat (i : Nat) (bunches : List (Bunch × Int)) (b : Bunch) (sign : Int) :
    addAll i (bunches ++ [(b, sign)]) =
      (addAll i bunches).add (b.curr_occ.getBin i) b.nbTriggersInBunch.toNat sign := by
  unfold addAll
  rw [List.foldl_append]
  rfl

/-- No reading of 255 behind a reading that left an estimate. -/
def Unsaturated (i : Nat) (bunches : List (Bunch × Int)) : Prop :=
  bunches.Pairwise fun b b' =>
    ¬(127 < b.1.curr_occ.getBin i ∧ b.2 = 1 ∧ b'.1.curr_occ.getBin i = 255)

theorem occ_addAll {i : Nat} {bunches : List (Bunch × Int)} (h : Unsaturated i bunches) :
    (addAll i bunches).occ = (bunches.map fun b => b.1.curr_occ.getBin i).sum ∧
      ((addAll i bunches).estimate ≠ 0 →
        ∃ b ∈ bunches, 127 < b.1.curr_occ.getBin i ∧ b.2 = 1) := by
  induction bunches using List.reverseRecOn with
  | nil => exact ⟨rfl, fun hne => absurd rfl hne⟩
  | append_singleton bunches b ih =>
      obtain ⟨b, sign⟩ := b
      obtain ⟨hbefore, _, hlast⟩ := List.pairwise_append.mp h
      obtain ⟨hocc, hestimate⟩ := ih hbefore
      have hnot : ¬(b.curr_occ.getBin i = 255 ∧ (addAll i bunches).estimate ≠ 0) := by
        rintro ⟨hfull, hne⟩
        rcases hestimate hne with ⟨b', hb', hhigh, hmore⟩
        exact hlast b' hb' _ (List.mem_singleton_self _) ⟨hhigh, hmore, hfull⟩
      rw [addAll_concat]
      unfold add
      dsimp only
      rw [if_neg hnot]
      refine ⟨?_, ?_⟩
      · rw [hocc, List.map_append, List.sum_append]
        simp
      · split
        · rename_i hkeep
          intro _
          exact ⟨(b, sign), by simp, hkeep.2, hkeep.1⟩
        · intro hne
          rcases hestimate hne with ⟨b', hb', hkept⟩
          exact ⟨b', List.mem_append_left _ hb', hkept⟩

end ChannelSum

namespace ThrottleSlot

variable (m_target_occ : UInt32) (nCol nRow : Nat)

/-- The bunches of a point, with the answers to them. -/
def addBunches (bunches : List Bunch) : ThrottleSlot × List (Bunch × Int) :=
  bunches.foldl
    (fun s b =>
      ((s.1.addBunch m_target_occ nCol nRow b).1,
        s.2 ++ [(b, (s.1.addBunch m_target_occ nCol nRow b).2)])) ({}, [])

theorem addBunches_concat (bunches : List Bunch) (b : Bunch) :
    addBunches m_target_occ nCol nRow (bunches ++ [b]) =
      (((addBunches m_target_occ nCol nRow bunches).1.addBunch m_target_occ nCol nRow b).1,
        (addBunches m_target_occ nCol nRow bunches).2 ++
          [(b, ((addBunches m_target_occ nCol nRow bunches).1.addBunch m_target_occ nCol nRow
            b).2)]) := by
  unfold addBunches
  rw [List.foldl_append]
  rfl

theorem map_addBunches (bunches : List Bunch) :
    (addBunches m_target_occ nCol nRow bunches).2.map Prod.fst = bunches := by
  induction bunches using List.reverseRecOn with
  | nil => rfl
  | append_singleton bunches b ih =>
      rw [addBunches_concat, List.map_append, ih]
      rfl

/-- The maps of a slot, with one channel in each bin. -/
structure Holds (s : ThrottleSlot) (triggers : Nat) (c : Nat → ChannelSum) : Prop where
  size_occ : (s.occMapAllBunches.getD (emptyMap nCol nRow)).size = nCol * nRow
  size_saturated : (s.occMapSaturatedChannels.getD (emptyMap nCol nRow)).size = nCol * nRow
  occ : ∀ i < nCol * nRow,
    (s.occMapAllBunches.getD (emptyMap nCol nRow)).getBin i = (c i).occ
  estimate : ∀ i < nCol * nRow,
    (s.occMapSaturatedChannels.getD (emptyMap nCol nRow)).getBin i = (c i).estimate
  tot : (if s.occMapAllBunches.isSome then s.totNbTriggersSoFar.getD 0 else 0) = triggers
  tot_channel : ∀ i, (c i).tot = triggers

variable {m_target_occ nCol nRow}

theorem holds_empty : Holds nCol nRow {} 0 fun _ => {} where
  size_occ := rfl
  size_saturated := rfl
  occ i _ := Histo2d.getBin_new _ _ _ _ _ _ i
  estimate i _ := Histo2d.getBin_new _ _ _ _ _ _ i
  tot := rfl
  tot_channel _ := rfl

theorem Holds.addBunch {s : ThrottleSlot} {tot : Nat} {c : Nat → ChannelSum}
    (h : Holds nCol nRow s tot c) {b : Bunch} (hsize : b.curr_occ.size = nCol * nRow) :
    Holds nCol nRow (s.addBunch m_target_occ nCol nRow b).1 (tot + b.nbTriggersInBunch.toNat)
      fun i => (c i).add (b.curr_occ.getBin i) b.nbTriggersInBunch.toNat
        (s.addBunch m_target_occ nCol nRow b).2 := by
  have hadd : ((s.occMapAllBunches.getD (emptyMap nCol nRow)).add b.curr_occ).size =
      nCol * nRow := by
    rw [Histo2d.size_add, h.size_occ]
  have hocc : ∀ i < nCol * nRow,
      (((s.occMapAllBunches.getD (emptyMap nCol nRow)).add b.curr_occ).setWhere
        (Saturated b.curr_occ (s.occMapSaturatedChannels.getD (emptyMap nCol nRow)))
        (fun i => (s.occMapSaturatedChannels.getD (emptyMap nCol nRow)).getBin i *
          ((tot + b.nbTriggersInBunch.toNat : Nat) : ℚ)) b.curr_occ.size).getBin i =
      if b.curr_occ.getBin i = 255 ∧ (c i).estimate ≠ 0 then
        (c i).estimate * ((tot + b.nbTriggersInBunch.toNat : Nat) : ℚ)
      else (c i).occ + b.curr_occ.getBin i := by
    intro i hi
    have hle : b.curr_occ.size ≤
        ((s.occMapAllBunches.getD (emptyMap nCol nRow)).add b.curr_occ).size := by
      rw [hadd, hsize]
    have hi' : i < b.curr_occ.size := by rwa [hsize]
    rw [Histo2d.getBin_setWhere _ _ _ hle, h.estimate i hi,
      Histo2d.getBin_add _ (h.size_occ.trans hsize.symm), h.occ i hi]
    have hiff : (i < b.curr_occ.size ∧
        Saturated b.curr_occ (s.occMapSaturatedChannels.getD (emptyMap nCol nRow)) i) ↔
        b.curr_occ.getBin i = 255 ∧ (c i).estimate ≠ 0 := by
      unfold Saturated
      rw [h.estimate i hi]
      exact and_iff_right hi'
    simp only [hiff]
  unfold ThrottleSlot.addBunch ChannelSum.add
  dsimp only
  rw [h.tot]
  refine ⟨?_, ?_, ?_, ?_, ?_, ?_⟩
  · exact (Histo2d.size_setWhere _ _ _ _).trans hadd
  · dsimp only [Option.getD_some]
    split
    · exact (Histo2d.size_setWhere _ _ _ _).trans h.size_saturated
    · exact h.size_saturated
  · intro i hi
    rw [h.tot_channel]
    exact hocc i hi
  · intro i hi
    rw [h.tot_channel, ← hocc i hi]
    dsimp only [Option.getD_some]
    split
    · rename_i hsign
      have hi' : i < b.curr_occ.size := by rwa [hsize]
      have hle : b.curr_occ.size ≤
          (s.occMapSaturatedChannels.getD (emptyMap nCol nRow)).size := by
        rw [h.size_saturated, hsize]
      rw [Histo2d.getBin_setWhere _ _ _ hle, h.estimate i hi]
      simp only [hi', hsign, true_and]
    · rename_i hsign
      simp only [hsign, false_and, if_false]
      exact h.estimate i hi
  · rfl
  · intro i
    rw [h.tot_channel]

theorem holds_addBunches {bunches : List Bunch}
    (hsize : ∀ b ∈ bunches, b.curr_occ.size = nCol * nRow) :
    Holds nCol nRow (addBunches m_target_occ nCol nRow bunches).1
      (bunches.map fun b => b.nbTriggersInBunch.toNat).sum
      fun i => ChannelSum.addAll i (addBunches m_target_occ nCol nRow bunches).2 := by
  induction bunches using List.reverseRecOn with
  | nil => exact holds_empty
  | append_singleton bunches b ih =>
      have hbefore := ih fun b' hb' => hsize b' (List.mem_append_left _ hb')
      have hnext := @Holds.addBunch m_target_occ _ _ _ _ _ hbefore _
        (hsize b (List.mem_append_right _ (List.mem_singleton_self b)))
      rw [addBunches_concat, List.map_append, List.sum_append]
      simp only [ChannelSum.addAll_concat, List.map_cons, List.map_nil, List.sum_singleton]
      exact hnext

end ThrottleSlot

end Yarr.Star
