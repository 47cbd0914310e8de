import Yarr.Core.Bits
import Yarr.Scan.Histograms

/-!
# `StarRRvParamAnalysis`

Registers that were read over a nest of parameter loops. What was read at a
point of the nest is kept under one index, and the end puts it into
histograms of bits over indices.
-/

namespace Yarr.Star

open Scan

/-- A loop of interest, as the analysis keeps it. -/
structure RRLoop where
  min : Int
  max : Int
  step : Int
  min_le_max : min ≤ max
  step_pos : 0 < step
  min_ge : -2 ^ 31 ≤ min
  max_lt : max < 2 ^ 31
  step_lt : step < 2 ^ 31

/-- A histogram with the values of the loops of interest in its position. -/
inductive RRDist where
  | starHCCRRDist (values : List Int) (histo : Histo1d)
  | starABCRRDist (values : List Int) (histo : Histo2d)

/-- `RRvParamMap`, with what was pushed back under each index. -/
abbrev RRvParamMap := List (List Int)

/-- `HCC_map` and `HCC_info_map`, or the same for one ABC. -/
structure RRvParamMaps where
  map : RRvParamMap
  info_map : RRvParamMap

def RRMaxABCsPerHCC : Nat := 11

structure StarRRvParamAnalysis where
  loops : List RRLoop
  hcc : RRvParamMaps
  abc : Nat → RRvParamMaps
  filledHCCMap : Bool := false
  filledABCMaps : Bool := false

namespace RRLoop

variable (l : RRLoop)

/-- `(int)log2(max) + 1`. There is no logarithm of zero, and a negative limit is a large one without
its sign, which no shift allows for. -/
def maxBits : Option Nat := if 1 ≤ l.max then some (Nat.log2 l.max.toNat + 1) else none

def nBins : Int := (l.max - l.min) / l.step + 1

/-- The values that the loop takes. -/
def Takes (v : Int) : Prop := ∃ k : Nat, v = l.min + k * l.step ∧ v ≤ l.max

end RRLoop

namespace RRvParamMaps

/-- One histogram, by its readings: 32 bits of the register, 8 bits of the address and the flag
between them, under an index that is there. -/
def add (m : RRvParamMaps) (param_val : Int) (reading : Nat → Int) : Option RRvParamMaps :=
  if 0 ≤ param_val ∧ param_val < m.map.length ∧ param_val < m.info_map.length then
    some {
      map := m.map.modify param_val.toNat (· ++ (List.range 32).map reading)
      info_map := m.info_map.modify param_val.toNat
        (· ++ ((List.range 8).map (fun ra_bit => reading (ra_bit + 33)) ++ [reading 32])) }
  else none

/-- A bin that is not there is minus one, and behind all bins without the sign. -/
def setBit (h : Histo2d) (bit : Nat) (param_val : Int) (hits : Int) : Histo2d :=
  match h.binNum bit param_val with
  | some binNum => h.setBin binNum hits
  | none => h

/-- The bits of one index. -/
def fillRow (row : List Int) (nBits : Nat) (h : Histo2d) (param_val : Int) : Option Histo2d :=
  (List.range nBits).foldlM (fun h bit => row[bit]?.map (setBit h bit param_val)) h

/-- The loop over the indices. Those with nothing in the map are left out. -/
def fillHistogram (map rows : RRvParamMap) (nBits : Nat) (paramMin paramMax : Int) (h : Histo2d) :
    Option Histo2d :=
  ((List.range (paramMax + 1 - paramMin).toNat).map fun (i : Nat) => paramMin + i).foldlM
    (fun h param_val =>
      if 0 ≤ param_val then do
        let row ← map[param_val.toNat]?
        if row.length ≠ 0 then fillRow (← rows[param_val.toNat]?) nBits h param_val else return h
      else none) h

end RRvParamMaps

namespace StarRRvParamAnalysis

/-- The size of the maps. The greatest number has no successor. -/
def max_size (loops : List RRLoop) : Option Nat :=
  if ∀ l ∈ loops, l.max + 1 < 2 ^ 31 then
    some ((loops.map fun (l : RRLoop) => l.max + 1).prod % 2 ^ 32).toNat
  else none

/-- The maps after `resize`. -/
def resized (loops : List RRLoop) (size : Nat) : StarRRvParamAnalysis where
  loops := loops
  hcc := ⟨List.replicate size [], List.replicate size []⟩
  abc := fun _ => ⟨List.replicate size [], List.replicate size []⟩

/-- For a scan with loops of interest, so that `readOnly` is false. -/
def init (loops : List RRLoop) : Option StarRRvParamAnalysis :=
  (max_size loops).map (resized loops)

/-- `(param_val << param_max_bit_size) | cur_param_val`. -/
def shiftOr (param_val : BitVec 32) (l : RRLoop) (cur_param_val : Int) : Option (BitVec 32) :=
  l.maxBits.map fun bits => (param_val <<< bits) ||| BitVec.ofInt 32 cur_param_val

def paramVal (loops : List RRLoop) (values : List Int) : Option Int :=
  if loops.length = 1 then values.head?
  else
    ((loops.zip values).foldlM (fun param_val f => shiftOr param_val f.1 f.2) 0#32).map BitVec.toInt

/-- `getBin(binNum(x))`, in an `int`. -/
def readHCC (histo : Histo1d) (x : Nat) : Int :=
  match histo.binNum x with
  | some binNum => (histo.getBin binNum).num.tdiv (histo.getBin binNum).den
  | none => 0

def readABC (histo : Histo2d) (abc_ch x : Nat) : Int :=
  match histo.binNum x abc_ch with
  | some binNum => (histo.getBin binNum).num.tdiv (histo.getBin binNum).den
  | none => 0

variable (a : StarRRvParamAnalysis)

def processHistogram : RRDist → Option StarRRvParamAnalysis
  | .starHCCRRDist values histo => do
      let param_val ← paramVal a.loops values
      let hcc ← a.hcc.add param_val (readHCC histo)
      return { a with hcc, filledHCCMap := true }
  | .starABCRRDist values histo => do
      let param_val ← paramVal a.loops values
      let abc ← (List.range RRMaxABCsPerHCC).mapM fun abc_ch =>
        (a.abc abc_ch).add param_val (readABC histo abc_ch)
      return { a with abc := fun abc_ch => abc.getD abc_ch ⟨[], []⟩, filledABCMaps := true }

def run (inputs : List RRDist) : Option StarRRvParamAnalysis :=
  inputs.foldlM processHistogram a

/-- The indices with something in the map. -/
def filledIndices (map : RRvParamMap) : List Nat :=
  (List.range map.length).filter fun i => (map.getD i []).length ≠ 0

/-- `paramMin`, `paramMax` and `paramNBin`. -/
def getHistogramSettings (loops : List RRLoop) (map : RRvParamMap) : Int × Int × Int :=
  match loops with
  | [l] => (l.min, l.max, l.nBins)
  | _ =>
      let filled := filledIndices map
      (filled.headD 0, filled.getLastD 0, filled.length)

/-- The two histograms of the HCC or of an ABC, with the bits that are read of the map of infos. -/
def histograms (m : RRvParamMaps) (infoBits : Nat) (settings : Int × Int × Int) :
    Option (Histo2d × Histo2d) := do
  let (paramMin, paramMax, paramNBin) := settings
  let hh ← RRvParamMaps.fillHistogram m.map m.map 32 paramMin paramMax
    (.new 32 (-1 / 2) (32 - 1 / 2) paramNBin.toNat (paramMin - 1 / 2) (paramMax + 1 / 2))
  let hhinfo ← RRvParamMaps.fillHistogram m.map m.info_map infoBits paramMin paramMax
    (.new 9 (-1 / 2) (9 - 1 / 2) paramNBin.toNat (paramMin - 1 / 2) (paramMax + 1 / 2))
  return (hh, hhinfo)

/-- The output for the HCC. -/
def endHCC : Option (List (Histo2d × Histo2d)) :=
  if a.filledHCCMap then
    (histograms a.hcc 9 (getHistogramSettings a.loops a.hcc.map)).map ([·])
  else some []

/-- The outputs for the ABCs, with the settings of the first. -/
def endABC : Option (List (Histo2d × Histo2d)) :=
  if a.filledABCMaps then
    (List.range RRMaxABCsPerHCC).mapM fun abc_ch =>
      histograms (a.abc abc_ch) 33 (getHistogramSettings a.loops (a.abc 0).map)
  else some []

end StarRRvParamAnalysis

end Yarr.Star

/-!
## The index of a point of the nest

The values of several loops are packed into one number, each as wide as the
upper limit of its loop. The maps have room for the product of the ranges.
-/

namespace Yarr.Star

open Packing

namespace RRLoop

/-- The last value that the loop takes. -/
def last (l : RRLoop) : Int := l.min + (l.max - l.min) / l.step * l.step

theorem takes_min (l : RRLoop) : l.Takes l.min := ⟨0, by simp, l.min_le_max⟩

theorem takes_last (l : RRLoop) : l.Takes l.last := by
  have hnonneg : 0 ≤ (l.max - l.min) / l.step :=
    Int.ediv_nonneg (by have := l.min_le_max; omega) l.step_pos.le
  refine ⟨((l.max - l.min) / l.step).toNat, ?_, ?_⟩
  · rw [Int.toNat_of_nonneg hnonneg]
    rfl
  · have hle := Int.ediv_mul_le (l.max - l.min) l.step_pos.ne'
    unfold last
    omega

theorem Takes.le_last {l : RRLoop} {v : Int} (h : l.Takes v) : l.min ≤ v ∧ v ≤ l.last := by
  obtain ⟨k, rfl, hle⟩ := h
  have hstep := l.step_pos
  refine ⟨?_, ?_⟩
  · have hnonneg : 0 ≤ (k : Int) * l.step := mul_nonneg (by omega) hstep.le
    omega
  · have hdiv : (k : Int) ≤ (l.max - l.min) / l.step := by
      rw [Int.le_ediv_iff_mul_le hstep]
      omega
    have hmul := mul_le_mul_of_nonneg_right hdiv hstep.le
    unfold last
    omega

end RRLoop

namespace StarRRvParamAnalysis

/-- A point of the nest. -/
def OnGrid (loops : List RRLoop) (values : List Int) : Prop :=
  List.Forall₂ RRLoop.Takes loops values

/-- Every point has an index inside the maps, and no other point has it. -/
def Indexed (loops : List RRLoop) : Prop :=
  ∃ size, max_size loops = some size ∧
    (∀ values, OnGrid loops values →
      ∃ param_val, paramVal loops values = some param_val ∧ 0 ≤ param_val ∧ param_val < size) ∧
    ∀ values values', OnGrid loops values → OnGrid loops values' →
      paramVal loops values = paramVal loops values' → values = values'

/-- The fields of the index: the bits of the limit, and the value. -/
def fields (loops : List RRLoop) (values : List Int) : List (Nat × Nat) :=
  (loops.zip values).map fun f => (Nat.log2 f.1.max.toNat + 1, f.2.toNat)

/-- The last point of the nest packs into an `int`, and no value is negative. -/
structure Unsigned (loops : List RRLoop) : Prop where
  nonneg : ∀ l ∈ loops, 0 ≤ l.min
  pack_lt : loops.length = 1 ∨ pack (fields loops (loops.map RRLoop.last)) < 2 ^ 31

/-- The last point of the nest has room. -/
structure Roomy (loops : List RRLoop) : Prop where
  max_lt : ∀ l ∈ loops, l.max + 1 < 2 ^ 31
  room : loops.length = 1 ∨ (∀ l ∈ loops, 1 ≤ l.max) ∧
    (pack (fields loops (loops.map RRLoop.last)) : Int) <
      (loops.map fun (l : RRLoop) => l.max + 1).prod % 2 ^ 32

theorem onGrid_mins (loops : List RRLoop) : OnGrid loops (loops.map RRLoop.min) := by
  unfold OnGrid
  rw [List.forall₂_map_right_iff]
  exact List.forall₂_same.mpr fun l _ => l.takes_min

theorem onGrid_lasts (loops : List RRLoop) : OnGrid loops (loops.map RRLoop.last) := by
  unfold OnGrid
  rw [List.forall₂_map_right_iff]
  exact List.forall₂_same.mpr fun l _ => l.takes_last

theorem lt_bits {l : RRLoop} {v : Int} (hv : v ≤ l.max) :
    v.toNat < 2 ^ (Nat.log2 l.max.toNat + 1) :=
  lt_of_le_of_lt (Int.toNat_le_toNat hv) Nat.lt_log2_self

theorem foldlM_shiftOr {fs : List (RRLoop × Int)} (hmax : ∀ f ∈ fs, 1 ≤ f.1.max)
    (hvalue : ∀ f ∈ fs, 0 ≤ f.2 ∧ f.2 ≤ f.1.max)
    (hlt : pack (fs.map fun f => (Nat.log2 f.1.max.toNat + 1, f.2.toNat)) < 2 ^ 31) :
    ∃ b : BitVec 32, fs.foldlM (fun param_val f => shiftOr param_val f.1 f.2) 0#32 = some b ∧
      b.toNat = pack (fs.map fun f => (Nat.log2 f.1.max.toNat + 1, f.2.toNat)) := by
  induction fs using List.reverseRecOn with
  | nil => exact ⟨0#32, rfl, rfl⟩
  | append_singleton fs f ih =>
      obtain ⟨l, v⟩ := f
      rw [List.map_append, List.map_singleton] at hlt ⊢
      have hpre := lt_of_le_of_lt (pack_le_concat _ _) hlt
      rcases ih (fun f hf => hmax f (List.mem_append_left _ hf))
        (fun f hf => hvalue f (List.mem_append_left _ hf)) hpre with ⟨b, hb, hpack⟩
      have hmax' : 1 ≤ l.max := hmax (l, v) (by simp)
      obtain ⟨hv, hvmax⟩ : 0 ≤ v ∧ v ≤ l.max := hvalue (l, v) (by simp)
      have hbits : l.maxBits = some (Nat.log2 l.max.toNat + 1) := if_pos hmax'
      rw [pack_concat] at hlt ⊢
      rw [List.foldlM_append, hb]
      refine ⟨(b <<< (Nat.log2 l.max.toNat + 1)) ||| BitVec.ofInt 32 v, ?_, ?_⟩
      · show (shiftOr b l v >>= pure) = _
        rw [shiftOr, hbits]
        rfl
      · have hvNat : (BitVec.ofInt 32 v).toNat = v.toNat := by
          have hvlt := l.max_lt
          rw [BitVec.toNat_ofInt]
          omega
        have hshift : b.toNat * 2 ^ (Nat.log2 l.max.toNat + 1) < 2 ^ 32 := by
          dsimp only at hlt
          rw [hpack]
          omega
        rw [BitVec.toNat_or, BitVec.toNat_shiftLeft, hvNat, Nat.shiftLeft_eq,
          Nat.mod_eq_of_lt hshift, ← Nat.shiftLeft_eq,
          ← Nat.shiftLeft_add_eq_or_of_lt (lt_bits hvmax), Nat.shiftLeft_eq, hpack]

theorem of_mem_zip {loops : List RRLoop} {values : List Int} (h : OnGrid loops values)
    {f : RRLoop × Int} (hf : f ∈ loops.zip values) : f.1 ∈ loops ∧ f.1.Takes f.2 :=
  ⟨(List.of_mem_zip hf).1, List.forall₂_zip h hf⟩

theorem pack_le_lasts {loops : List RRLoop} {values : List Int} (h : OnGrid loops values) :
    pack (fields loops values) ≤ pack (fields loops (loops.map RRLoop.last)) := by
  apply pack_mono
  unfold fields
  induction h with
  | nil => exact .nil
  | cons htakes _ ih =>
      exact .cons ⟨rfl, Int.toNat_le_toNat htakes.le_last.2⟩ ih

theorem paramVal_eq {loops : List RRLoop} (hunsigned : Unsigned loops)
    (hmax : ∀ l ∈ loops, 1 ≤ l.max) (hlength : loops.length ≠ 1) {values : List Int}
    (h : OnGrid loops values) : paramVal loops values = some (pack (fields loops values) : Int) := by
  have hlt : pack (fields loops values) < 2 ^ 31 :=
    lt_of_le_of_lt (pack_le_lasts h) (hunsigned.pack_lt.resolve_left hlength)
  have hvalue : ∀ f ∈ loops.zip values, 0 ≤ f.2 ∧ f.2 ≤ f.1.max := by
    intro f hf
    obtain ⟨hmem, htakes⟩ := of_mem_zip h hf
    have hnonneg := hunsigned.nonneg f.1 hmem
    have hlow := htakes.le_last.1
    obtain ⟨k, _, hle⟩ := htakes
    exact ⟨by omega, hle⟩
  rcases foldlM_shiftOr (fun f hf => hmax f.1 (of_mem_zip h hf).1) hvalue hlt with ⟨b, hb, hpack⟩
  have hpack' : b.toNat = pack (fields loops values) := hpack
  unfold paramVal
  rw [if_neg hlength, hb, Option.map_some, BitVec.toInt_eq_toNat_of_lt (by omega), hpack']

theorem fields_inj {loops : List RRLoop} (hnonneg : ∀ l ∈ loops, 0 ≤ l.min)
    {values values' : List Int} (h : OnGrid loops values) (h' : OnGrid loops values')
    (heq : fields loops values = fields loops values') : values = values' := by
  induction h generalizing values' with
  | nil =>
      cases h'
      rfl
  | cons htakes hrest ih =>
      cases h' with
      | cons htakes' hrest' =>
          rename_i l v ls vs v' vs'
          obtain ⟨hfirst, htail⟩ := List.cons.inj heq
          have hmin := hnonneg l List.mem_cons_self
          have hv := htakes.le_last.1
          have hv' := htakes'.le_last.1
          have hnat : v.toNat = v'.toNat := congrArg Prod.snd hfirst
          rw [show v = v' by omega,
            ih (fun l hl => hnonneg l (List.mem_cons_of_mem _ hl)) hrest' htail]

theorem fits_fields {loops : List RRLoop} {values : List Int} (h : OnGrid loops values) :
    Fits (fields loops values) := by
  intro f hf
  rcases List.mem_map.mp hf with ⟨g, hg, rfl⟩
  obtain ⟨_, k, _, hle⟩ := of_mem_zip h hg
  exact lt_bits hle

theorem map_fst_fields {loops : List RRLoop} {values : List Int} (h : OnGrid loops values) :
    (fields loops values).map Prod.fst = loops.map fun l => Nat.log2 l.max.toNat + 1 := by
  induction h with
  | nil => rfl
  | cons _ _ ih => exact congrArg (_ :: ·) ih

theorem paramVal_single {l : RRLoop} {values : List Int} (h : OnGrid [l] values) :
    ∃ v, values = [v] ∧ l.Takes v ∧ paramVal [l] values = some v := by
  cases h with
  | cons htakes hrest =>
      cases hrest
      exact ⟨_, rfl, htakes, rfl⟩

theorem max_size_single {l : RRLoop} (hlow : 0 ≤ l.max) (hmax : l.max + 1 < 2 ^ 31) :
    max_size [l] = some (l.max + 1).toNat := by
  have hall : ∀ l' ∈ [l], l'.max + 1 < 2 ^ 31 := by
    intro l' hl'
    rwa [List.mem_singleton.mp hl']
  unfold max_size
  rw [if_pos hall, List.map_singleton, List.prod_singleton, Int.emod_eq_of_lt (by omega) (by omega)]

/-- Without an overflow, every point has an index of its own exactly when the last one has room. -/
theorem indexed_of_roomy {loops : List RRLoop} (hunsigned : Unsigned loops) (hroomy : Roomy loops) :
    Indexed loops := by
  by_cases hlength : loops.length = 1
  · rcases List.length_eq_one_iff.mp hlength with ⟨l, rfl⟩
    have hmin := hunsigned.nonneg l (List.mem_singleton_self l)
    have hmax := hroomy.max_lt l (List.mem_singleton_self l)
    have hle := l.min_le_max
    refine ⟨_, max_size_single (by omega) hmax, ?_, ?_⟩
    · intro values hvalues
      rcases paramVal_single hvalues with ⟨v, rfl, htakes, hv⟩
      have hlow := htakes.le_last.1
      obtain ⟨k, _, hvmax⟩ := htakes
      exact ⟨v, hv, by omega, by omega⟩
    · intro values values' hvalues hvalues' heq
      rcases paramVal_single hvalues with ⟨v, rfl, _, hv⟩
      rcases paramVal_single hvalues' with ⟨v', rfl, _, hv'⟩
      rw [hv, hv'] at heq
      rw [Option.some_inj.mp heq]
  · obtain ⟨hmax, hroom⟩ := hroomy.room.resolve_left hlength
    have hnonneg : 0 ≤ (loops.map fun (l : RRLoop) => l.max + 1).prod % 2 ^ 32 :=
      Int.emod_nonneg _ (by norm_num)
    refine ⟨_, if_pos hroomy.max_lt, ?_, ?_⟩
    · intro values hvalues
      have hle := pack_le_lasts hvalues
      exact ⟨_, paramVal_eq hunsigned hmax hlength hvalues, by omega, by omega⟩
    · intro values values' hvalues hvalues' heq
      rw [paramVal_eq hunsigned hmax hlength hvalues,
        paramVal_eq hunsigned hmax hlength hvalues'] at heq
      have hpack : pack (fields loops values) = pack (fields loops values') := by
        exact_mod_cast Option.some_inj.mp heq
      apply fields_inj hunsigned.nonneg hvalues hvalues'
      apply pack_inj (fits_fields hvalues) (fits_fields hvalues') ?_ hpack
      rw [map_fst_fields hvalues, map_fst_fields hvalues']

theorem max_of_foldlM {fs : List (RRLoop × Int)} {b p : BitVec 32}
    (h : fs.foldlM (fun param_val f => shiftOr param_val f.1 f.2) p = some b) :
    ∀ f ∈ fs, 1 ≤ f.1.max := by
  induction fs generalizing p with
  | nil => exact fun f hf => absurd hf List.not_mem_nil
  | cons f fs ih =>
      rw [List.foldlM_cons] at h
      rcases Option.bind_eq_some_iff.mp h with ⟨p', hp', hrest⟩
      intro g hg
      rcases List.mem_cons.mp hg with rfl | hg
      · unfold shiftOr RRLoop.maxBits at hp'
        by_contra hmax
        rw [if_neg hmax] at hp'
        cases hp'
      · exact ih hrest g hg

theorem roomy_of_indexed {loops : List RRLoop} (hunsigned : loops.length ≠ 1 → Unsigned loops)
    (h : Indexed loops) : Unsigned loops ∧ Roomy loops := by
  rcases h with ⟨size, hsize, hinside, _⟩
  have hmax_lt : ∀ l ∈ loops, l.max + 1 < 2 ^ 31 := by
    by_contra hnot
    unfold max_size at hsize
    rw [if_neg hnot] at hsize
    cases hsize
  by_cases hlength : loops.length = 1
  · rcases List.length_eq_one_iff.mp hlength with ⟨l, rfl⟩
    rcases hinside _ (onGrid_mins [l]) with ⟨v, hv, hnonneg, _⟩
    have hv' : l.min = v := Option.some_inj.mp hv
    refine ⟨⟨?_, Or.inl rfl⟩, ⟨hmax_lt, Or.inl rfl⟩⟩
    intro l' hl'
    rw [List.mem_singleton.mp hl', hv']
    exact hnonneg
  · have hun := hunsigned hlength
    rcases hinside _ (onGrid_lasts loops) with ⟨v, hv, _, hlt⟩
    have hmax : ∀ l ∈ loops, 1 ≤ l.max := by
      unfold paramVal at hv
      rw [if_neg hlength] at hv
      rcases Option.map_eq_some_iff.mp hv with ⟨b, hb, _⟩
      intro l hl
      have hmem : (l, l.last) ∈ loops.zip (loops.map RRLoop.last) := by
        rw [← List.map_prod_left_eq_zip]
        exact List.mem_map.mpr ⟨l, hl, rfl⟩
      exact max_of_foldlM hb _ hmem
    refine ⟨hun, ⟨hmax_lt, Or.inr ⟨hmax, ?_⟩⟩⟩
    rw [paramVal_eq hun hmax hlength (onGrid_lasts loops)] at hv
    obtain rfl := Option.some_inj.mp hv
    have hsize' : ((loops.map fun (l : RRLoop) => l.max + 1).prod % 2 ^ 32).toNat = size := by
      unfold max_size at hsize
      rw [if_pos hmax_lt] at hsize
      exact Option.some_inj.mp hsize
    omega

end StarRRvParamAnalysis

end Yarr.Star
