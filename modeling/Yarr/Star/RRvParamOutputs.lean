import Yarr.Star.RRvParamMaps

/-!
# What the end of the analysis leaves

Each index that has been collected shows the readings of its first histogram,
in bins that no other one shares.
-/

namespace Yarr.Star

open Scan

namespace RRvParamMaps

/-- The readings that an index shows. -/
def shown (readings : List RRReading) (i : Nat) : Nat → Int :=
  ((readings.find? fun r => r.1 = i).map Prod.snd).getD fun _ => 0

/-- Every bit of every index in a bin of its own, and nothing in any other bin. -/
structure Placed (h : Histo2d) (nBits : Nat) (part : (Nat → Int) → List Int)
    (readings : List RRReading) : Prop where
  own : ∀ i, Collected readings i → ∀ bit < nBits, ∃ n < h.size, h.binNum bit i = some n ∧
    h.getBin n = ((part (shown readings i)).getD bit 0 : Int)
  apart : ∀ i j, Collected readings i → Collected readings j → ∀ bit < nBits, ∀ bit' < nBits,
    h.binNum bit i = h.binNum bit' j → i = j ∧ bit = bit'
  rest : ∀ n, (∀ i, Collected readings i → ∀ bit < nBits, h.binNum bit i ≠ some n) →
    h.getBin n = 0

def OutputPlaced (readings : List RRReading) (output : Histo2d × Histo2d) : Prop :=
  Placed output.1 32 bits readings ∧ Placed output.2 9 infos readings

/-- The outputs of chips with one list of readings each. -/
structure Outputs (chips : Nat) (readings : Nat → List RRReading)
    (out : List (Histo2d × Histo2d)) : Prop where
  length : out.length = if readings 0 = [] then 0 else chips
  placed : ∀ ch output, out[ch]? = some output → OutputPlaced (readings ch) output

/-- The range of a histogram has the indices. -/
structure Covers (readings : List RRReading) (size : Nat) (lo hi : Int) (N : Nat) : Prop where
  pos : 0 < N
  low : 0 ≤ lo
  high : hi < size
  collected : ∀ i, Collected readings i → lo ≤ i ∧ (i : Int) ≤ hi

def RowsApart (readings : List RRReading) (lo hi : Int) (N : Nat) : Prop :=
  ∀ i j, Collected readings i → Collected readings j →
    paramRow lo hi N i = paramRow lo hi N j → i = j

theorem rowOf_getD {part : (Nat → Int) → List Int} {readings : List RRReading} {i X : Nat}
    (hpart : ∀ f, (part f).length = X) (h : Collected readings i) {bit : Nat} (hbit : bit < X) :
    (rowOf part readings i).getD bit 0 = (part (shown readings i)).getD bit 0 := by
  rcases @rowOf_eq_cons part readings i h with ⟨r, rest, hfind, hrow⟩
  have hshown : shown readings i = r.2 := by
    unfold shown
    rw [hfind]
    rfl
  rw [hrow, hshown, List.getD_eq_getElem?_getD, List.getD_eq_getElem?_getD,
    List.getElem?_append_left (by rw [hpart]; exact hbit)]

section Histogram

variable {map rows : RRvParamMap} {size : Nat} {readings : List RRReading}
  {part : (Nat → Int) → List Int} {nBits : Nat} {X N : Nat} {lo hi : Int}

/-- The indices of the loop. -/
def paramsOf (paramMin paramMax : Int) : List Int :=
  (List.range (paramMax + 1 - paramMin).toNat).map fun (i : Nat) => paramMin + i

theorem mem_paramsOf {v : Int} : v ∈ paramsOf lo hi ↔ lo ≤ v ∧ v ≤ hi := by
  unfold paramsOf
  rw [List.mem_map]
  constructor
  · rintro ⟨i, hi', rfl⟩
    have hlt := List.mem_range.mp hi'
    omega
  · rintro ⟨hlo, hhi⟩
    exact ⟨(v - lo).toNat, List.mem_range.mpr (by omega), by omega⟩

theorem fillHistogram_eq (h : Histo2d) : fillHistogram map rows nBits lo hi h
    = (paramsOf lo hi).foldlM (fillStep map rows nBits) h := rfl

theorem Covers.params (hcover : Covers readings size lo hi N) {v : Int}
    (hv : v ∈ paramsOf lo hi) : 0 ≤ v ∧ v < size ∧ lo ≤ v ∧ v ≤ hi := by
  have hbounds := mem_paramsOf.mp hv
  have hlow := hcover.low
  have hhigh := hcover.high
  omega

variable (hmap : map = (List.range size).map (rowOf bits readings))
  (hrows : rows = (List.range size).map (rowOf part readings))
  (hpart : ∀ f, (part f).length = X) (hcover : Covers readings size lo hi N)

include hmap hrows hpart hcover

theorem fillHistogram_isSome_iff :
    (∃ h', fillHistogram map rows nBits lo hi (outputFrame X lo hi N) = some h') ↔
      ∀ i, Collected readings i → nBits ≤ countOf readings i * X := by
  rw [fillHistogram_eq]
  have hlength : ∀ i, (rowOf part readings i).length = countOf readings i * X :=
    length_rowOf part hpart readings
  constructor
  · rintro ⟨h', hfill⟩ i hi'
    have hneed := (Framed.of_fillSteps hmap hrows
      (fun v hv => ⟨(hcover.params hv).1, (hcover.params hv).2.1⟩)
      (framed_outputFrame X lo hi N) hfill).1
    have hbits := hneed i (mem_paramsOf.mpr (hcover.collected i hi')) hi'
    rwa [Int.toNat_natCast, hlength] at hbits
  · intro hneed
    rcases Framed.fillSteps hmap hrows hcover.pos (fun v hv => hcover.params hv)
      (fun v _ hv => by rw [hlength]; exact hneed _ hv) (framed_outputFrame X lo hi N) with
      ⟨h', hfill, _⟩
    exact ⟨h', hfill⟩

/-- What was filled is in its place when no row is shared. -/
theorem fillHistogram_placed_iff (hX : 0 < X) (hnBits : X ≤ nBits) {h' : Histo2d}
    (hfill : fillHistogram map rows nBits lo hi (outputFrame X lo hi N) = some h') :
    Placed h' X part readings ↔ RowsApart readings lo hi N := by
  rw [fillHistogram_eq] at hfill
  have hframe := Framed.of_fillSteps hmap hrows
    (fun v hv => ⟨(hcover.params hv).1, (hcover.params hv).2.1⟩)
    (framed_outputFrame X lo hi N) hfill
  have hbin : ∀ i, Collected readings i → ∀ bit < X,
      h'.binNum bit i = some (bit + paramRow lo hi N i * X) := by
    intro i hi' bit hbit
    have hinside := hcover.collected i hi'
    have hframed := hframe.2.binNum bit ((i : Int) : ℚ)
    rw [binNum_outputFrame hinside.1 hinside.2, if_pos hbit, Int.cast_natCast] at hframed
    exact hframed
  constructor
  · intro hplaced i j hi' hj hrow
    have hsame : h'.binNum (0 : Nat) i = h'.binNum (0 : Nat) j := by
      rw [hbin i hi' 0 hX, hbin j hj 0 hX, hrow]
    exact (hplaced.apart i j hi' hj 0 hX 0 hX hsame).1
  · intro hapart
    rcases Framed.fillSteps hmap hrows hcover.pos (fun v hv => hcover.params hv) hframe.1
      (framed_outputFrame X lo hi N) with ⟨h'', hfill', hbins⟩
    rw [hfill] at hfill'
    cases hfill'
    have hbins := hbins fun v hv w hw hvc hwc hrow => by
      have hv' := hcover.params hv
      have hw' := hcover.params hw
      have hrow' : paramRow lo hi N (v.toNat : Int) = paramRow lo hi N (w.toNat : Int) := by
        rw [Int.toNat_of_nonneg hv'.1, Int.toNat_of_nonneg hw'.1]
        exact hrow
      have hnat := hapart _ _ hvc hwc hrow'
      omega
    have hcell : ∀ i, Collected readings i → ∀ bit < X,
        bit + paramRow lo hi N i * X < X * N ∧ (bit + paramRow lo hi N i * X) % X = bit ∧
          (bit + paramRow lo hi N i * X) / X = paramRow lo hi N i := by
      intro i hi' bit hbit
      have hinside := hcover.collected i hi'
      have hrow := paramRow_lt hcover.pos hinside.1 hinside.2
      have hle := Nat.mul_le_mul_right X (Nat.succ_le_of_lt hrow)
      rw [Nat.succ_mul, Nat.mul_comm N X] at hle
      rw [Nat.add_mul_mod_self_right, Nat.mod_eq_of_lt hbit, Nat.add_mul_div_right _ _ hX,
        Nat.div_eq_of_lt hbit, Nat.zero_add]
      exact ⟨by omega, rfl, rfl⟩
    constructor
    · intro i hi' bit hbit
      rcases hcell i hi' bit hbit with ⟨hlt, hcol, hrow⟩
      refine ⟨bit + paramRow lo hi N i * X, ?_, hbin i hi' bit hbit, ?_⟩
      · rw [hframe.2.size]
        exact hlt
      · have hvalue := (hbins _ hlt).1 i (mem_paramsOf.mpr (hcover.collected i hi')) hi'
          (by rw [hcol]; omega) hrow
        rw [hvalue, hcol, Int.toNat_natCast, rowOf_getD hpart hi' hbit]
    · intro i j hi' hj bit hbit bit' hbit' hsame
      rw [hbin i hi' bit hbit, hbin j hj bit' hbit'] at hsame
      have hsum := Option.some_inj.mp hsame
      rcases hcell i hi' bit hbit with ⟨_, hcol, hrow⟩
      rcases hcell j hj bit' hbit' with ⟨_, hcol', hrow'⟩
      refine ⟨hapart i j hi' hj ?_, ?_⟩
      · rw [← hrow, ← hrow', hsum]
      · rw [← hcol, ← hcol', hsum]
    · intro n hnone
      by_cases hn : n < X * N
      · rw [(hbins n hn).2 fun v hv hvc _ hrow => by
          have hv' := hcover.params hv
          apply hnone _ hvc (n % X) (Nat.mod_lt n hX)
          rw [hbin _ hvc _ (Nat.mod_lt n hX), Int.toNat_of_nonneg hv'.1, ← hrow, Nat.mul_comm,
            Nat.mod_add_div]]
        exact Histo2d.getBin_new X _ _ N _ _ n
      · exact Histo2d.getBin_of_le _ (by rw [hframe.2.size]; omega)

end Histogram

theorem histograms_iff {m : RRvParamMaps} {size : Nat} {readings : List RRReading}
    (hholds : m.Holds size readings) {infoBits : Nat} (hinfo : 9 ≤ infoBits)
    {settings : Int × Int × Int}
    (hcover : Covers readings size settings.1 settings.2.1 settings.2.2.toNat) :
    (∃ output, StarRRvParamAnalysis.histograms m infoBits settings = some output ∧
        OutputPlaced readings output) ↔
      (∀ i, Collected readings i → infoBits ≤ countOf readings i * 9) ∧
        RowsApart readings settings.1 settings.2.1 settings.2.2.toNat := by
  have hbitsSome := @fillHistogram_isSome_iff _ _ _ _ _ 32 _ _ _ _ hholds.map hholds.map
    length_bits hcover
  have hinfoSome := @fillHistogram_isSome_iff _ _ _ _ _ infoBits _ _ _ _ hholds.map
    hholds.info_map length_infos hcover
  have hframes : StarRRvParamAnalysis.histograms m infoBits settings
      = (fillHistogram m.map m.map 32 settings.1 settings.2.1
          (outputFrame 32 settings.1 settings.2.1 settings.2.2.toNat)).bind fun hh =>
        (fillHistogram m.map m.info_map infoBits settings.1 settings.2.1
          (outputFrame 9 settings.1 settings.2.1 settings.2.2.toNat)).map fun hhinfo =>
          (hh, hhinfo) := by
    unfold StarRRvParamAnalysis.histograms outputFrame
    push_cast
    cases fillHistogram m.map m.map 32 settings.1 settings.2.1 _ with
    | none => rfl
    | some hh =>
        show (fillHistogram m.map m.info_map infoBits settings.1 settings.2.1 _ >>= _) = _
        cases fillHistogram m.map m.info_map infoBits settings.1 settings.2.1 _ with
        | none => rfl
        | some hhinfo => rfl
  rw [hframes]
  constructor
  · rintro ⟨output, houtput, hplaced⟩
    rcases Option.bind_eq_some_iff.mp houtput with ⟨hh, hfill, hrest⟩
    rcases Option.map_eq_some_iff.mp hrest with ⟨hhinfo, hfillInfo, rfl⟩
    refine ⟨hinfoSome.mp ⟨hhinfo, hfillInfo⟩, ?_⟩
    exact (fillHistogram_placed_iff hholds.map hholds.map length_bits hcover (by decide) le_rfl
      hfill).mp hplaced.1
  · rintro ⟨hoften, hapart⟩
    have hregister : ∀ i, Collected readings i → 32 ≤ countOf readings i * 32 := by
      intro i hi
      have hne := collected_iff.mp hi
      omega
    rcases hbitsSome.mpr hregister with ⟨hh, hfill⟩
    rcases hinfoSome.mpr hoften with ⟨hhinfo, hfillInfo⟩
    refine ⟨(hh, hhinfo), ?_, ?_, ?_⟩
    · rw [hfill, Option.bind_some, hfillInfo, Option.map_some]
    · exact (fillHistogram_placed_iff hholds.map hholds.map length_bits hcover (by decide) le_rfl
        hfill).mpr hapart
    · exact (fillHistogram_placed_iff hholds.map hholds.info_map length_infos hcover (by decide)
        hinfo hfillInfo).mpr hapart

theorem mapM_range_succ {β : Type} (f : Nat → Option β) (n : Nat) :
    (List.range (n + 1)).mapM f = ((List.range n).mapM f).bind fun out =>
      (f n).map fun b => out ++ [b] := by
  rw [List.range_succ, List.mapM_append]
  cases (List.range n).mapM f with
  | none => rfl
  | some out =>
      cases hlast : f n with
      | none => simp [hlast]
      | some b => simp [hlast]

theorem length_mapM_range {β : Type} {f : Nat → Option β} {n : Nat} {out : List β}
    (h : (List.range n).mapM f = some out) : out.length = n := by
  induction n generalizing out with
  | zero =>
      cases h
      rfl
  | succ n ih =>
      rw [mapM_range_succ] at h
      rcases Option.bind_eq_some_iff.mp h with ⟨pre, hpre, hlast⟩
      rcases Option.map_eq_some_iff.mp hlast with ⟨b, _, rfl⟩
      rw [List.length_append, ih hpre]
      rfl

theorem mapM_range_iff {β : Type} {f : Nat → Option β} {P : Nat → β → Prop} {n : Nat} :
    (∃ out, (List.range n).mapM f = some out ∧ ∀ i b, out[i]? = some b → P i b) ↔
      ∀ i < n, ∃ b, f i = some b ∧ P i b := by
  induction n with
  | zero =>
      constructor
      · rintro _ i hi
        exact absurd hi (Nat.not_lt_zero i)
      · intro _
        exact ⟨[], rfl, fun i b hb => by simp at hb⟩
  | succ n ih =>
      rw [mapM_range_succ]
      constructor
      · rintro ⟨out, hout, hall⟩
        rcases Option.bind_eq_some_iff.mp hout with ⟨pre, hpre, hlast⟩
        rcases Option.map_eq_some_iff.mp hlast with ⟨b, hb, rfl⟩
        have hlength := length_mapM_range hpre
        intro i hi
        by_cases hin : i = n
        · subst hin
          exact ⟨b, hb, hall i b (by rw [List.getElem?_append_right (by omega), hlength]; simp)⟩
        · refine ih.mp ⟨pre, hpre, fun j c hc => hall j c ?_⟩ i (by omega)
          rw [List.getElem?_append_left (List.getElem?_eq_some_iff.mp hc).1, hc]
      · intro hall
        rcases ih.mpr fun i hi => hall i (by omega) with ⟨pre, hpre, hplaced⟩
        rcases hall n (Nat.lt_succ_self n) with ⟨b, hb, hlast⟩
        have hlength := length_mapM_range hpre
        refine ⟨pre ++ [b], ?_, fun i c hc => ?_⟩
        · rw [hpre, Option.bind_some, hb, Option.map_some]
        · by_cases hin : i < n
          · rw [List.getElem?_append_left (by omega)] at hc
            exact hplaced i c hc
          · rw [List.getElem?_append_right (by omega), hlength] at hc
            have heq : i = n := by
              have hlt := (List.getElem?_eq_some_iff.mp hc).1
              rw [List.length_singleton] at hlt
              omega
            subst heq
            rw [Nat.sub_self] at hc
            cases hc
            exact hlast

end RRvParamMaps

namespace StarRRvParamAnalysis

open RRvParamMaps

/-! ## The range of a nest -/

/-- In a single loop each value has a row of its own. -/
theorem paramRow_takes (l : RRLoop) {k : Nat} (hk : l.min + k * l.step ≤ l.max) :
    paramRow l.min l.max l.nBins.toNat (l.min + k * l.step) = k := by
  have hstep := l.step_pos
  have hle := l.min_le_max
  have hquot : 0 ≤ (l.max - l.min) / l.step := Int.ediv_nonneg (by omega) hstep.le
  have hnBins : (l.nBins.toNat : Int) = (l.max - l.min) / l.step + 1 := by
    unfold RRLoop.nBins
    exact Int.toNat_of_nonneg (by omega)
  have hkle : (k : Int) ≤ (l.max - l.min) / l.step := by
    rw [Int.le_ediv_iff_mul_le hstep]
    omega
  have hdecomp := Int.mul_ediv_add_emod (l.max - l.min) l.step
  have hrem := Int.emod_nonneg (l.max - l.min) hstep.ne'
  have hremlt := Int.emod_lt_of_pos (l.max - l.min) hstep
  have hdist : 2 * (l.min + k * l.step - l.min) + 1 = 2 * (k * l.step) + 1 := by ring
  have hdiv : (2 * (l.min + k * l.step - l.min) + 1) * (l.nBins.toNat : Int)
      / (2 * (l.max - l.min + 1)) = k := by
    rw [hnBins, hdist]
    generalize (l.max - l.min) / l.step = q at hkle hdecomp
    generalize (l.max - l.min) % l.step = r at hdecomp hrem hremlt
    generalize l.step = s at hdecomp hremlt hstep
    rw [← hdecomp]
    have hk0 : (0 : Int) ≤ k := Int.natCast_nonneg k
    have hks : (k : Int) * (r + 1) ≤ k * s := mul_le_mul_of_nonneg_left (by omega) hk0
    have hqs : (q - k) ≤ (q - k) * s := le_mul_of_one_le_right (by omega) (by omega)
    have hkr : (k : Int) ≤ k * (r + 1) := le_mul_of_one_le_right hk0 (by omega)
    apply le_antisymm
    · apply Int.lt_add_one_iff.mp
      apply Int.ediv_lt_of_lt_mul (by nlinarith)
      nlinarith
    · apply Int.le_ediv_of_mul_le (by nlinarith)
      nlinarith
  unfold paramRow
  rw [hdiv, Int.toNat_natCast]

/-- The indices that have been collected, in order. -/
def filledOf (nest : List RRLoop) (readings : List RRReading) : List Nat :=
  (List.range ((max_size nest).getD 0)).filter fun i => countOf readings i ≠ 0

/-- Of several loops, no two of the collected indices fall into the same of as many equal rows as
there are of them. -/
def RowsFree (nest : List RRLoop) (readings : List RRReading) : Prop :=
  nest.length = 1 ∨
    let filled := filledOf nest readings
    ∀ i ∈ filled, ∀ j ∈ filled,
      paramRow (filled.headD 0) (filled.getLastD 0) filled.length i
        = paramRow (filled.headD 0) (filled.getLastD 0) filled.length j → i = j

instance (nest : List RRLoop) (readings : List RRReading) : Decidable (RowsFree nest readings) :=
  inferInstanceAs (Decidable (_ ∨ _))

theorem filledIndices_eq {m : RRvParamMaps} {size : Nat} {readings : List RRReading}
    (hholds : m.Holds size readings) :
    filledIndices m.map = (List.range size).filter fun i => countOf readings i ≠ 0 := by
  have hlength : m.map.length = size := by
    rw [hholds.map, List.length_map, List.length_range]
  unfold filledIndices
  rw [hlength]
  apply List.filter_congr
  intro i hi
  have hrow : m.map.getD i [] = rowOf bits readings i := by
    rw [hholds.map, List.getD_eq_getElem?_getD, List.getElem?_map,
      List.getElem?_range (List.mem_range.mp hi)]
    rfl
  rw [hrow, length_rowOf bits length_bits]
  apply decide_eq_decide.mpr
  omega

theorem headD_le_getLastD {l : List Nat} (h : l.Pairwise (· < ·)) :
    ∀ i ∈ l, l.headD 0 ≤ i ∧ i ≤ l.getLastD 0 := by
  induction l with
  | nil => exact fun i hi => absurd hi List.not_mem_nil
  | cons a l ih =>
      rcases List.pairwise_cons.mp h with ⟨hfirst, htail⟩
      intro i hi
      cases l with
      | nil =>
          rw [List.mem_singleton.mp hi]
          exact ⟨le_rfl, le_rfl⟩
      | cons b l =>
          have hlast : b ≤ (b :: l).getLastD 0 := (ih htail b List.mem_cons_self).2
          rcases List.mem_cons.mp hi with rfl | hi
          · exact ⟨le_rfl, (hfirst b List.mem_cons_self).le.trans hlast⟩
          · exact ⟨(hfirst i hi).le, (ih htail i hi).2⟩

/-- The indices of a nest are in the range of the histograms, and the rows are their own in the
cases that the condition names. -/
theorem settings_spec {nest : List RRLoop} (hnest : nest ≠ []) (hunsigned : Unsigned nest)
    {size : Nat} (hsize : max_size nest = some size) {m : RRvParamMaps}
    {readings : List RRReading} (hholds : m.Holds size readings) (hne : readings ≠ [])
    (hlt : ∀ i, Collected readings i → i < size)
    (htakes : ∀ l, nest = [l] → ∀ i, Collected readings i → l.Takes i)
    {settings : Int × Int × Int} (hsettings : getHistogramSettings nest m.map = settings) :
    Covers readings size settings.1 settings.2.1 settings.2.2.toNat ∧
      (RowsApart readings settings.1 settings.2.1 settings.2.2.toNat ↔ RowsFree nest readings) := by
  by_cases hlength : nest.length = 1
  · rcases List.length_eq_one_iff.mp hlength with ⟨l, rfl⟩
    have hvalue : settings = (l.min, l.max, l.nBins) := hsettings.symm
    subst hvalue
    have hmin := hunsigned.nonneg l (List.mem_singleton_self l)
    have hle := l.min_le_max
    have hquot : 0 ≤ (l.max - l.min) / l.step := Int.ediv_nonneg (by omega) l.step_pos.le
    have hmaxlt : l.max + 1 < 2 ^ 31 := by
      by_contra hnot
      unfold max_size at hsize
      rw [if_neg fun hall => hnot (hall l (List.mem_singleton_self l))] at hsize
      cases hsize
    have hsizeEq : (l.max + 1).toNat = size := by
      rw [max_size_single (by omega) hmaxlt] at hsize
      exact Option.some_inj.mp hsize
    have hbins : 0 < l.nBins.toNat := by
      unfold RRLoop.nBins
      omega
    refine ⟨⟨hbins, hmin, by dsimp only; omega, fun i hi => ?_⟩, ?_⟩
    · have hgrid := htakes l rfl i hi
      have hlow := hgrid.le_last.1
      rcases hgrid with ⟨k, _, hmax⟩
      exact ⟨hlow, hmax⟩
    · refine ⟨fun _ => Or.inl rfl, fun _ i j hi hj hrow => ?_⟩
      rcases htakes l rfl i hi with ⟨k, hk, hkmax⟩
      rcases htakes l rfl j hj with ⟨k', hk', hkmax'⟩
      dsimp only at hrow
      rw [hk, hk', paramRow_takes l (hk ▸ hkmax), paramRow_takes l (hk' ▸ hkmax')] at hrow
      rw [hrow, ← hk'] at hk
      exact_mod_cast hk
  · have hfilled : filledIndices m.map = filledOf nest readings := by
      rw [filledIndices_eq hholds, filledOf, hsize]
      rfl
    have hvalue : settings = (((filledOf nest readings).headD 0 : Int),
        ((filledOf nest readings).getLastD 0 : Int), ((filledOf nest readings).length : Int)) := by
      rw [← hsettings, ← hfilled]
      unfold getHistogramSettings
      split
      · exact absurd rfl hlength
      · rfl
    subst hvalue
    have hmem : ∀ i, i ∈ filledOf nest readings ↔ Collected readings i := by
      intro i
      unfold filledOf
      rw [hsize, List.mem_filter, collected_iff]
      have hdec : (decide (countOf readings i ≠ 0) = true) ↔ countOf readings i ≠ 0 :=
        decide_eq_true_iff
      rw [hdec]
      refine ⟨fun hboth => hboth.2, fun hcount => ⟨?_, hcount⟩⟩
      exact List.mem_range.mpr (hlt i (collected_iff.mpr hcount))
    have hsorted : (filledOf nest readings).Pairwise (· < ·) :=
      List.pairwise_lt_range.filter _
    rcases List.exists_mem_of_ne_nil readings hne with ⟨r, hr⟩
    have hsome := (hmem r.1).mpr ⟨r, hr, rfl⟩
    have hlast : (filledOf nest readings).getLastD 0 ∈ filledOf nest readings := by
      have hne' : filledOf nest readings ≠ [] := List.ne_nil_of_mem hsome
      rw [List.getLastD_eq_getLast?, List.getLast?_eq_some_getLast hne', Option.getD_some]
      exact List.getLast_mem hne'
    have hlastlt := hlt _ ((hmem _).mp hlast)
    refine ⟨⟨?_, by dsimp only; omega, by dsimp only; omega, fun i hi => ?_⟩, ?_⟩
    · exact List.length_pos_of_mem hsome
    · have hbounds := headD_le_getLastD hsorted i ((hmem i).mpr hi)
      dsimp only
      omega
    · constructor
      · intro hapart
        exact Or.inr fun i hi j hj hrow => hapart i j ((hmem i).mp hi) ((hmem j).mp hj) hrow
      · intro hfree i j hi hj hrow
        rcases hfree with hone | hfree
        · exact absurd hone hlength
        · exact hfree i ((hmem i).mpr hi) j ((hmem j).mpr hj) hrow

/-! ## The outputs of all chips -/

theorem countOf_eq (readings : List RRReading) (i : Nat) :
    countOf readings i = (readings.map Prod.fst).count i := by
  unfold countOf
  rw [List.count, List.countP_map, List.countP_eq_length_filter]
  congr 1

theorem countOf_congr {readings readings' : List RRReading}
    (h : readings.map Prod.fst = readings'.map Prod.fst) (i : Nat) :
    countOf readings i = countOf readings' i := by
  rw [countOf_eq, countOf_eq, h]

theorem collected_congr {readings readings' : List RRReading}
    (h : readings.map Prod.fst = readings'.map Prod.fst) (i : Nat) :
    Collected readings i ↔ Collected readings' i := by
  rw [collected_iff, collected_iff, countOf_congr h]

/-- How the end makes the outputs of one kind of chips. -/
def outputsOf (filled : Bool) (chips infoBits : Nat) (nest : List RRLoop)
    (m : Nat → RRvParamMaps) : Option (List (Histo2d × Histo2d)) :=
  if filled then
    (List.range chips).mapM fun ch =>
      histograms (m ch) infoBits (getHistogramSettings nest (m 0).map)
  else some []

theorem outputs_iff {nest : List RRLoop} (hnest : nest ≠ []) (hunsigned : Unsigned nest)
    {size : Nat} (hsize : max_size nest = some size) {chips : Nat} (hchips : 0 < chips)
    {m : Nat → RRvParamMaps} {readings : Nat → List RRReading}
    (hkeys : ∀ ch, (readings ch).map Prod.fst = (readings 0).map Prod.fst)
    (hholds : ∀ ch < chips, (m ch).Holds size (readings ch)) {filled : Bool}
    (hfilled : filled = true ↔ readings 0 ≠ []) (hlt : ∀ i, Collected (readings 0) i → i < size)
    (htakes : ∀ l, nest = [l] → ∀ i, Collected (readings 0) i → l.Takes i)
    {infoBits : Nat} (hinfo : 9 ≤ infoBits) :
    (∃ out, outputsOf filled chips infoBits nest m = some out ∧ Outputs chips readings out) ↔
      (∀ i, Collected (readings 0) i → infoBits ≤ countOf (readings 0) i * 9) ∧
        RowsFree nest (readings 0) := by
  unfold outputsOf
  by_cases hempty : readings 0 = []
  · have hnot : ¬filled = true := fun htrue => hfilled.mp htrue hempty
    have hnone : ∀ i, ¬Collected (readings 0) i := by
      rintro i ⟨r, hr, _⟩
      rw [hempty] at hr
      exact List.not_mem_nil hr
    rw [if_neg hnot]
    refine ⟨fun _ => ⟨fun i hi => absurd hi (hnone i), Or.inr fun i hi => ?_⟩, fun _ => ?_⟩
    · have hcount := (List.mem_filter.mp hi).2
      exact absurd (collected_iff.mpr (of_decide_eq_true hcount)) (hnone i)
    · exact ⟨[], rfl, by rw [if_pos hempty]; rfl, fun ch output hout => by simp at hout⟩
  · rw [if_pos (hfilled.mpr hempty)]
    rcases settings_spec hnest hunsigned hsize (hholds 0 hchips) hempty hlt htakes rfl with
      ⟨hcover, hfree⟩
    have hsome : (∃ out, ((List.range chips).mapM fun ch =>
          histograms (m ch) infoBits (getHistogramSettings nest (m 0).map)) = some out ∧
          Outputs chips readings out) ↔
        ∃ out, ((List.range chips).mapM fun ch =>
          histograms (m ch) infoBits (getHistogramSettings nest (m 0).map)) = some out ∧
          ∀ ch output, out[ch]? = some output → OutputPlaced (readings ch) output := by
      constructor
      · rintro ⟨out, hout, houtputs⟩
        exact ⟨out, hout, houtputs.placed⟩
      · rintro ⟨out, hout, hplaced⟩
        refine ⟨out, hout, ?_, hplaced⟩
        rw [if_neg hempty]
        exact length_mapM_range hout
    rw [hsome, mapM_range_iff, ← hfree]
    have hone : ∀ ch < chips, (∃ output,
          histograms (m ch) infoBits (getHistogramSettings nest (m 0).map) = some output ∧
          OutputPlaced (readings ch) output) ↔
        (∀ i, Collected (readings 0) i → infoBits ≤ countOf (readings 0) i * 9) ∧
          RowsApart (readings 0) (getHistogramSettings nest (m 0).map).1
            (getHistogramSettings nest (m 0).map).2.1
            (getHistogramSettings nest (m 0).map).2.2.toNat := by
      intro ch hch
      have hcover' : Covers (readings ch) size (getHistogramSettings nest (m 0).map).1
          (getHistogramSettings nest (m 0).map).2.1
          (getHistogramSettings nest (m 0).map).2.2.toNat :=
        ⟨hcover.pos, hcover.low, hcover.high,
          fun i hi => hcover.collected i ((collected_congr (hkeys ch) i).mp hi)⟩
      rw [histograms_iff (hholds ch hch) hinfo hcover']
      unfold RowsApart
      simp only [collected_congr (hkeys ch), countOf_congr (hkeys ch)]
    exact ⟨fun hall => (hone 0 hchips).mp (hall 0 hchips),
      fun hboth ch hch => (hone ch hch).mpr hboth⟩

/-! ## The whole analysis -/

/-- Every point of the nest has its index, and the end shows every bit of every index. -/
structure Works (nest : List RRLoop) (inputs : List RRDist) : Prop where
  indexed : Indexed nest
  outputs : ∃ a a', init nest = some a ∧ a.run inputs = some a' ∧
    (∃ out, a'.endHCC = some out ∧ Outputs 1 (fun _ => readingsHCC nest inputs) out) ∧
    ∃ out, a'.endABC = some out ∧
      Outputs RRMaxABCsPerHCC (fun ch => readingsABC nest ch inputs) out

/-- The conditions on the nest and on the histograms. -/
structure Favourable (nest : List RRLoop) (inputs : List RRDist) : Prop where
  unsigned : Unsigned nest
  roomy : Roomy nest
  hcc : RowsFree nest (readingsHCC nest inputs)
  abc : RowsFree nest (readingsABC nest 0 inputs)
  often : ∀ i, Collected (readingsABC nest 0 inputs) i →
    4 ≤ countOf (readingsABC nest 0 inputs) i

theorem keys_readingsABC (nest : List RRLoop) (inputs : List RRDist) (ch : Nat) :
    (readingsABC nest ch inputs).map Prod.fst = (readingsABC nest 0 inputs).map Prod.fst := by
  unfold readingsABC
  rw [List.map_filterMap, List.map_filterMap]
  congr 1
  funext input
  cases input <;> rfl

theorem mem_of_collected {nest : List RRLoop} {inputs : List RRDist} {i : Nat}
    (h : Collected (readingsHCC nest inputs) i ∨ Collected (readingsABC nest 0 inputs) i) :
    ∃ input ∈ inputs, indexOf nest (valuesOf input) = i := by
  rcases h with ⟨r, hr, rfl⟩ | ⟨r, hr, rfl⟩
  · rcases List.mem_filterMap.mp hr with ⟨input, hmem, hinput⟩
    cases input with
    | starHCCRRDist values histo =>
        cases hinput
        exact ⟨_, hmem, rfl⟩
    | starABCRRDist values histo => cases hinput
  · rcases List.mem_filterMap.mp hr with ⟨input, hmem, hinput⟩
    cases input with
    | starHCCRRDist values histo => cases hinput
    | starABCRRDist values histo =>
        cases hinput
        exact ⟨_, hmem, rfl⟩

/-- With an index for every point, the end works in the cases that the condition names. -/
theorem ends_iff {nest : List RRLoop} (hnest : nest ≠ []) (hunsigned : Unsigned nest)
    (hindexed : Indexed nest) {inputs : List RRDist}
    (hgrid : ∀ input ∈ inputs, OnGrid nest (valuesOf input)) :
    (∃ a a', init nest = some a ∧ a.run inputs = some a' ∧
        (∃ out, a'.endHCC = some out ∧ Outputs 1 (fun _ => readingsHCC nest inputs) out) ∧
        ∃ out, a'.endABC = some out ∧
          Outputs RRMaxABCsPerHCC (fun ch => readingsABC nest ch inputs) out) ↔
      RowsFree nest (readingsHCC nest inputs) ∧ RowsFree nest (readingsABC nest 0 inputs) ∧
        ∀ i, Collected (readingsABC nest 0 inputs) i →
          4 ≤ countOf (readingsABC nest 0 inputs) i := by
  rcases hindexed with ⟨size, hsize, hinside, _⟩
  rcases after_run hsize hinside hgrid with ⟨a, a', hinit, hrun, hafter⟩
  have hindex : ∀ i, (Collected (readingsHCC nest inputs) i ∨
      Collected (readingsABC nest 0 inputs) i) → i < size := by
    intro i hi
    rcases mem_of_collected hi with ⟨input, hmem, rfl⟩
    rcases hinside _ (hgrid input hmem) with ⟨v, hv, hnonneg, hlt⟩
    unfold indexOf
    rw [hv]
    show v.toNat < size
    omega
  have htakes : ∀ l, nest = [l] → ∀ i, (Collected (readingsHCC nest inputs) i ∨
      Collected (readingsABC nest 0 inputs) i) → l.Takes i := by
    rintro l rfl i hi
    rcases mem_of_collected hi with ⟨input, hmem, rfl⟩
    rcases paramVal_single (hgrid input hmem) with ⟨v, hvalues, hv, hparam⟩
    have hnonneg := hunsigned.nonneg l (List.mem_singleton_self l)
    have hlow := hv.le_last.1
    unfold indexOf
    rw [hparam, Option.getD_some, Int.toNat_of_nonneg (by omega)]
    exact hv
  have hHCC : a'.endHCC = outputsOf a'.filledHCCMap 1 9 nest fun _ => a'.hcc := by
    unfold endHCC outputsOf
    rw [hafter.loops]
    cases a'.filledHCCMap with
    | false => rfl
    | true =>
        rw [if_pos rfl, if_pos rfl]
        show _ = ((List.range' 0 1).mapM _ : Option _)
        cases hone : histograms a'.hcc 9 (getHistogramSettings nest a'.hcc.map) with
        | none => simp [hone]
        | some o => simp [hone]
  have hABC : a'.endABC = outputsOf a'.filledABCMaps RRMaxABCsPerHCC 33 nest a'.abc := by
    unfold endABC outputsOf
    rw [hafter.loops]
  have hHCCiff := @outputs_iff nest hnest hunsigned size hsize 1 (by decide)
    (fun _ => a'.hcc) (fun _ => readingsHCC nest inputs) (fun _ => rfl)
    (fun _ _ => hafter.hcc) _ hafter.filledHCCMap (fun i hi => hindex i (Or.inl hi))
    (fun l hl i hi => htakes l hl i (Or.inl hi)) 9 (le_refl 9)
  have hABCiff := @outputs_iff nest hnest hunsigned size hsize RRMaxABCsPerHCC (by decide)
    a'.abc (fun ch => readingsABC nest ch inputs)
    (fun ch => keys_readingsABC nest inputs ch) hafter.abc _ hafter.filledABCMaps
    (fun i hi => hindex i (Or.inr hi)) (fun l hl i hi => htakes l hl i (Or.inr hi)) 33 (by decide)
  rw [← hHCC] at hHCCiff
  rw [← hABC] at hABCiff
  have hninth : ∀ i, Collected (readingsHCC nest inputs) i →
      9 ≤ countOf (readingsHCC nest inputs) i * 9 := by
    intro i hi
    have hne := collected_iff.mp hi
    omega
  constructor
  · rintro ⟨b, b', hb, hb', hout, hout'⟩
    rw [hinit] at hb
    cases hb
    rw [hrun] at hb'
    cases hb'
    have habc := hABCiff.mp hout'
    refine ⟨(hHCCiff.mp hout).2, habc.2, fun i hi => ?_⟩
    have hbits := habc.1 i hi
    omega
  · rintro ⟨hhcc, habc, hoften⟩
    refine ⟨a, a', hinit, hrun, hHCCiff.mpr ⟨hninth, hhcc⟩, hABCiff.mpr ⟨fun i hi => ?_, habc⟩⟩
    have hfour := hoften i hi
    omega

/-- The analysis works under the conditions, and of the nests whose index does not overflow only
under them. -/
theorem every_bit_in_own_bin {nest : List RRLoop} (hnest : nest ≠ []) {inputs : List RRDist}
    (hgrid : ∀ input ∈ inputs, OnGrid nest (valuesOf input)) :
    (Favourable nest inputs → Works nest inputs) ∧
      (nest.length = 1 ∨ Unsigned nest → Works nest inputs → Favourable nest inputs) := by
  constructor
  · intro h
    have hindexed := indexed_of_roomy h.unsigned h.roomy
    exact ⟨hindexed, (ends_iff hnest h.unsigned hindexed hgrid).mpr ⟨h.hcc, h.abc, h.often⟩⟩
  · intro hcase h
    rcases roomy_of_indexed (fun hlength => hcase.resolve_left hlength) h.indexed with
      ⟨hunsigned, hroomy⟩
    rcases (ends_iff hnest hunsigned h.indexed hgrid).mp h.outputs with ⟨hhcc, habc, hoften⟩
    exact ⟨hunsigned, hroomy, hhcc, habc, hoften⟩

/-- From zero to two. -/
def toTwo : RRLoop where
  min := 0
  max := 2
  step := 1
  min_le_max := by decide
  step_pos := by decide
  min_ge := by decide
  max_lt := by decide
  step_lt := by decide

theorem toTwo_takes : toTwo.Takes 1 := ⟨1, rfl, by decide⟩

def blankHCC : RRDist := .starHCCRRDist [1] (.new 41 (-1 / 2) (41 - 1 / 2))

def blankABC : RRDist := .starABCRRDist [1] (.new 41 (-1 / 2) (41 - 1 / 2) 11 (-1 / 2) (11 - 1 / 2))

theorem onGrid_toTwo : OnGrid [toTwo] [1] := .cons toTwo_takes .nil

theorem unsigned_toTwo : Unsigned [toTwo] := by
  refine ⟨fun l hl => ?_, Or.inl rfl⟩
  rw [List.mem_singleton.mp hl]
  decide

/-- One loop, and a histogram of the HCC. -/
theorem toTwo_works : Favourable [toTwo] [blankHCC] ∧ Works [toTwo] [blankHCC] := by
  have hroomy : Roomy [toTwo] := by
    refine ⟨fun l hl => ?_, Or.inl rfl⟩
    rw [List.mem_singleton.mp hl]
    decide
  have hfavourable : Favourable [toTwo] [blankHCC] :=
    ⟨unsigned_toTwo, hroomy, Or.inl rfl, Or.inl rfl, fun i hi => by
      rcases hi with ⟨r, hr, _⟩
      exact absurd hr List.not_mem_nil⟩
  refine ⟨hfavourable, (every_bit_in_own_bin (List.cons_ne_nil _ _) ?_).1 hfavourable⟩
  intro input hinput
  rw [List.mem_singleton.mp hinput]
  exact onGrid_toTwo

/-- Two loops of three values each have an index behind the maps, and after one histogram of the
ABCs the end reads bits that are not there. -/
theorem nested_index_outside :
    ¬Works [toTwo, toTwo] [] ∧ ¬Works [toTwo] [blankABC] := by
  constructor
  · intro h
    have hunsigned : Unsigned [toTwo, toTwo] := by
      refine ⟨fun l hl => ?_, Or.inr (by decide +kernel)⟩
      rcases List.mem_cons.mp hl with rfl | hl
      · decide
      · rw [List.mem_singleton.mp hl]
        decide
    have hroom := (roomy_of_indexed (fun _ => hunsigned) h.indexed).2.room
    have hlarge : ¬((Packing.pack (fields [toTwo, toTwo] ([toTwo, toTwo].map RRLoop.last)) : Int) <
        ([toTwo, toTwo].map fun (l : RRLoop) => l.max + 1).prod % 2 ^ 32) := by decide +kernel
    rcases hroom with hone | hroom
    · exact absurd hone (by decide)
    · exact hlarge hroom.2
  · intro h
    have hgrid : ∀ input ∈ [blankABC], OnGrid [toTwo] (valuesOf input) := by
      intro input hinput
      rw [List.mem_singleton.mp hinput]
      exact onGrid_toTwo
    have hoften := ((ends_iff (List.cons_ne_nil _ _) unsigned_toTwo h.indexed hgrid).mp
      h.outputs).2.2
    have hfour := hoften 1 ⟨_, List.mem_cons_self, rfl⟩
    exact absurd hfour (by decide +kernel)

end StarRRvParamAnalysis

end Yarr.Star
