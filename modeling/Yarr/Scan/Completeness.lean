import Yarr.Scan.OccupancyLaws

/-!
# When the analysis is complete

The analysis takes the floor of range over step for the number of passes of a
loop, and the upper limits of the outer loops for the radices of its key. The
loops themselves make as many passes as the ceiling, and a parameter loop
takes its upper limit too.
-/

namespace Yarr.Scan

open OccupancyScan

/-! ## Passes of a mask loop -/

theorem toInt_toInt32 (m : UInt32) :
    m.toInt32.toInt = if 2 * m.toNat < 2 ^ 32 then (m.toNat : Int) else m.toNat - 2 ^ 32 :=
  BitVec.toInt_eq_toNat_cond m.toBitVec

theorem toInt_step {m_cur step : UInt32} (h : m_cur.toInt32.toInt + step.toNat < 2 ^ 31) :
    (m_cur + step).toInt32.toInt = m_cur.toInt32.toInt + step.toNat := by
  have hcur := m_cur.toNat_lt
  have hstep := step.toNat_lt
  rw [toInt_toInt32] at h ⊢
  rw [toInt_toInt32, UInt32.toNat_add]
  split_ifs at h ⊢ <;> omega

/-! ## Completeness -/

namespace OccupancyAnalysis

/-- If the count of the inner positions is right and the keys are distinct, a scan gives one map
for every outer position; and only then, unless the inner positions are exactly as many as the
counter has values. -/
theorem completeness_wellCounted (nest : Nest) :
    (WellCounted nest → Complete nest) ∧
      (Complete nest → WellCounted nest ∨ innerCount nest.loops = 2 ^ 32) := by
  constructor
  · exact complete_of_wellCounted nest
  · intro hcomplete
    by_cases hN : innerCount nest.loops = 2 ^ 32
    · exact Or.inr hN
    · exact Or.inl (wellCounted_of_complete nest hcomplete hN)

/-- A parameter loop over 0 and 1. -/
def zeroToOne : RunLoop where
  loop := .parameter ⟨0, 1, 1, by decide, by decide⟩
  visited := [0, 1]
  visits := .next rfl (.last rfl)

def onePass : RunLoop where
  loop := .mask ⟨0, 1, 1, by decide, by decide⟩
  visited := [0]
  visits := .last rfl

def twoParameters : Nest := ⟨[zeroToOne, zeroToOne, onePass], by decide⟩

def oneParameter : Nest := ⟨[zeroToOne, onePass], by decide⟩

theorem oneParameter_complete : Complete oneParameter := by
  apply (completeness_wellCounted oneParameter).1
  constructor
  · decide +kernel
  · decide +kernel
  · unfold Nat.ModEq
    decide +kernel

/-- The outer positions (0, 1) and (1, 0) have the same key. -/
theorem twoParameters_not_complete : ¬ Complete twoParameters := by
  intro h
  have hperm := h onePixel (fun _ => oneHit) (fun _ => size_oneHit)
    (feedOf (scanMaps twoParameters fun _ => oneHit)) (feedOf_filter _)
  have hlength := hperm.length_eq
  rw [List.length_map, List.length_map] at hlength
  have hout : ((start (ofNest onePixel twoParameters)).run
      (feedOf (scanMaps twoParameters fun _ => oneHit))).output.length = 3 := by decide +kernel
  have hpos : (outerPositions twoParameters).length = 4 := by decide +kernel
  rw [hout, hpos] at hlength
  exact absurd hlength (by decide)

end OccupancyAnalysis

end Yarr.Scan
