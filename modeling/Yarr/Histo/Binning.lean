import Yarr.Core.EqualBins
import Yarr.Histo.Rebuild

/-!
# Where an entry of a histogram goes

One rule for the three classes: an entry lies below the bounds, above them, or
in one bin. `fill` and `binNum` test the upper bound in their own ways, and
only the one-dimensional `fill` tests it as the rule does.
-/

namespace Yarr.Histo

open EqualBins

/-! ## The rule -/

/-- The class of an entry, with the number of its bin. -/
inductive Class where
  | underflow
  | overflow
  | bin (n : Nat)

/-- The axes that can be filled. -/
structure Axis.Cut (axis : Axis ℝ) : Prop where
  bins_pos : 0 < axis.bins
  low_lt_high : axis.low < axis.high
  eq_of : axis = .of axis.bins axis.low axis.high

/-- A coordinate, and the axis it belongs to. -/
abbrev Coordinate := Axis ℝ × ℝ

def Coordinate.InBin (c : Coordinate) (i : Nat) : Prop :=
  i < c.1.bins ∧ Holds c.1.low c.1.binWidth i c.2

/-- The class of a point. `number` makes one number of the places along the axes. -/
def Falls (number : List Nat → Nat) (point : List Coordinate) : Class → Prop
  | .underflow => ∃ c ∈ point, c.2 < c.1.low
  | .overflow => (∀ c ∈ point, c.1.low ≤ c.2) ∧ ∃ c ∈ point, c.1.high ≤ c.2
  | .bin n => ∃ places, List.Forall₂ Coordinate.InBin point places ∧ n = number places

/-- What an entry changes. -/
structure Contents (U B : Type) where
  underflow : U
  overflow : U
  data : List B

/-- The entry is counted once. -/
def Contents.enter {U B : Type} [Add U] (k : Contents U B) (v : U) (put : B → B) :
    Class → Contents U B
  | .underflow => { k with underflow := k.underflow + v }
  | .overflow => { k with overflow := k.overflow + v }
  | .bin n => { k with data := k.data.modify n put }

/-- What `binNum` is to return. -/
def Class.number : Class → Int
  | .bin n => n
  | _ => -1

def Class.Below (size : Nat) : Class → Prop
  | .bin n => n < size
  | _ => True

namespace Axis.Cut

variable {axis : Axis ℝ}

theorem binWidth_eq (hcut : axis.Cut) : axis.binWidth = (axis.high - axis.low) / axis.bins := by
  rw [hcut.eq_of]
  rfl

theorem width_pos (hcut : axis.Cut) : 0 < axis.binWidth := by
  rw [hcut.binWidth_eq]
  exact width_of_cut hcut.bins_pos hcut.low_lt_high

theorem end_eq (hcut : axis.Cut) : axis.low + axis.bins * axis.binWidth = axis.high := by
  rw [hcut.binWidth_eq]
  exact end_of_cut hcut.bins_pos

theorem inBin_place (hcut : axis.Cut) {x : ℝ} (hlow : axis.low ≤ x) (hhigh : x < axis.high) :
    Coordinate.InBin (axis, x) (place axis.low axis.binWidth x) := by
  constructor
  · show place axis.low axis.binWidth x < axis.bins
    rw [place_lt_iff hcut.width_pos hlow, hcut.end_eq]
    exact hhigh
  · exact holds_place hcut.width_pos hlow

end Axis.Cut

theorem Coordinate.InBin.between {c : Coordinate} {i : Nat} (hin : c.InBin i) (hcut : c.1.Cut) :
    c.1.low ≤ c.2 ∧ c.2 < c.1.high := by
  have hwidth := hcut.width_pos
  obtain ⟨hi, hle, hlt⟩ := hin
  have hfirst : (0 : ℝ) ≤ i * c.1.binWidth := by positivity
  have hlast : ((i : ℝ) + 1) * c.1.binWidth ≤ c.1.bins * c.1.binWidth := by
    have hcast : (i : ℝ) + 1 ≤ c.1.bins := by exact_mod_cast hi
    exact mul_le_mul_of_nonneg_right hcast hwidth.le
  have hend := hcut.end_eq
  exact ⟨by linarith, by linarith⟩

theorem Coordinate.InBin.eq_place {c : Coordinate} {i : Nat} (hin : c.InBin i) (hcut : c.1.Cut) :
    place c.1.low c.1.binWidth c.2 = i :=
  (holds_iff_place hcut.width_pos (hin.between hcut).1 i).mp hin.2

section Rule

variable {number : List Nat → Nat} {point : List Coordinate}

theorem places_between {places : List Nat} (hcut : ∀ c ∈ point, c.1.Cut)
    (hplaces : List.Forall₂ Coordinate.InBin point places) :
    ∀ c ∈ point, c.1.low ≤ c.2 ∧ c.2 < c.1.high := by
  induction hplaces with
  | nil =>
      intro c hc
      cases hc
  | cons hin _ ih =>
      intro c hc
      rcases List.mem_cons.mp hc with rfl | hc
      · exact hin.between (hcut _ List.mem_cons_self)
      · exact ih (fun c hc => hcut c (List.mem_cons_of_mem _ hc)) c hc

theorem places_unique {places : List Nat} (hcut : ∀ c ∈ point, c.1.Cut)
    (hplaces : List.Forall₂ Coordinate.InBin point places) :
    places = point.map fun c => place c.1.low c.1.binWidth c.2 := by
  induction hplaces with
  | nil => rfl
  | cons hin _ ih =>
      rw [List.map_cons, ← ih fun c hc => hcut c (List.mem_cons_of_mem _ hc),
        hin.eq_place (hcut _ List.mem_cons_self)]

theorem falls_bin (hcut : ∀ c ∈ point, c.1.Cut)
    (hbetween : ∀ c ∈ point, c.1.low ≤ c.2 ∧ c.2 < c.1.high) :
    Falls number point (.bin (number (point.map fun c => place c.1.low c.1.binWidth c.2))) := by
  refine ⟨_, ?_, rfl⟩
  rw [List.forall₂_map_right_iff, List.forall₂_same]
  intro c hc
  exact (hcut c hc).inBin_place (hbetween c hc).1 (hbetween c hc).2

theorem Falls.unique (hcut : ∀ c ∈ point, c.1.Cut) {c c' : Class}
    (hc : Falls number point c) (hc' : Falls number point c') : c = c' := by
  have hout {places : List Nat} (hplaces : List.Forall₂ Coordinate.InBin point places) :
      ¬(∃ c ∈ point, c.2 < c.1.low) ∧ ¬∃ c ∈ point, c.1.high ≤ c.2 := by
    have hbetween := places_between hcut hplaces
    constructor
    · rintro ⟨c, hmem, hlt⟩
      exact absurd (hbetween c hmem).1 (not_le.mpr hlt)
    · rintro ⟨c, hmem, hle⟩
      exact absurd (hbetween c hmem).2 (not_lt.mpr hle)
  have happart (hunder : ∃ c ∈ point, c.2 < c.1.low) : ¬∀ c ∈ point, c.1.low ≤ c.2 := by
    obtain ⟨c, hmem, hlt⟩ := hunder
    intro hall
    exact absurd (hall c hmem) (not_le.mpr hlt)
  cases c with
  | underflow =>
      cases c' with
      | underflow => rfl
      | overflow => exact absurd hc'.1 (happart hc)
      | bin n' =>
          obtain ⟨places, hplaces, -⟩ := hc'
          exact absurd hc (hout hplaces).1
  | overflow =>
      cases c' with
      | underflow => exact absurd hc.1 (happart hc')
      | overflow => rfl
      | bin n' =>
          obtain ⟨places, hplaces, -⟩ := hc'
          exact absurd hc.2 (hout hplaces).2
  | bin n =>
      obtain ⟨places, hplaces, rfl⟩ := hc
      cases c' with
      | underflow => exact absurd hc' (hout hplaces).1
      | overflow => exact absurd hc'.2 (hout hplaces).2
      | bin n' =>
          obtain ⟨places', hplaces', rfl⟩ := hc'
          rw [places_unique hcut hplaces, places_unique hcut hplaces']

/-- An entry that is counted by the rule. Its bin is there, and is the one that is told. -/
def Counted {U B : Type} [Add U] (number : List Nat → Nat) (point : List Coordinate) (size : Nat)
    (v : U) (put : B → B) (before : Contents U B) (after : Option (Contents U B))
    (binNum : Int) : Prop :=
  ∃ c, Falls number point c ∧ c.Below size ∧ after = some (before.enter v put c) ∧
    binNum = c.number

/-- No coordinate is out of the bounds, and one is the upper one. -/
def OnUpperEdge (point : List Coordinate) : Prop :=
  (∀ c ∈ point, c.1.low ≤ c.2 ∧ c.2 ≤ c.1.high) ∧ ∃ c ∈ point, c.2 = c.1.high

/-- The tests that all the functions make leave out one border. -/
theorem counted_iff {U B : Type} [Add U] {size : Nat} {v : U} {put : B → B}
    {before : Contents U B} {after : Option (Contents U B)} {binNum : Int}
    (hcut : ∀ c ∈ point, c.1.Cut)
    (hbelow : (∃ c ∈ point, c.2 < c.1.low) →
      after = some (before.enter v put .underflow) ∧ binNum = -1)
    (habove : (∀ c ∈ point, c.1.low ≤ c.2) → (∃ c ∈ point, c.1.high < c.2) →
      after = some (before.enter v put .overflow) ∧ binNum = -1)
    (hinside : (∀ c ∈ point, c.1.low ≤ c.2 ∧ c.2 < c.1.high) → ∀ n,
      n = number (point.map fun c => place c.1.low c.1.binWidth c.2) →
      n < size ∧ after = some (before.enter v put (.bin n)) ∧ binNum = n)
    (hedge : OnUpperEdge point → 0 ≤ binNum) :
    Counted number point size v put before after binNum ↔ ¬OnUpperEdge point := by
  constructor
  · rintro ⟨c, hfalls, -, -, hnum⟩ hon
    have hover : Falls number point .overflow := by
      obtain ⟨hall, c, hmem, heq⟩ := hon
      exact ⟨fun c hc => (hall c hc).1, c, hmem, heq.ge⟩
    have hclass := hfalls.unique hcut hover
    subst hclass
    have hnonneg := hedge hon
    rw [hnum] at hnonneg
    exact absurd hnonneg (by decide)
  · intro hoff
    by_cases hlow : ∃ c ∈ point, c.2 < c.1.low
    · exact ⟨.underflow, hlow, trivial, hbelow hlow⟩
    · have hlows : ∀ c ∈ point, c.1.low ≤ c.2 := by
        intro c hc
        exact not_lt.mp fun hlt => hlow ⟨c, hc, hlt⟩
      by_cases hhigh : ∃ c ∈ point, c.1.high < c.2
      · obtain ⟨c, hc, hlt⟩ := hhigh
        exact ⟨.overflow, ⟨hlows, c, hc, hlt.le⟩, trivial, habove hlows ⟨c, hc, hlt⟩⟩
      · have hbetween : ∀ c ∈ point, c.1.low ≤ c.2 ∧ c.2 < c.1.high := by
          intro c hc
          refine ⟨hlows c hc, ?_⟩
          have hle : c.2 ≤ c.1.high := not_lt.mp fun hlt => hhigh ⟨c, hc, hlt⟩
          refine lt_of_le_of_ne hle fun heq => hoff ⟨?_, c, hc, heq⟩
          intro c' hc'
          exact ⟨hlows c' hc', not_lt.mp fun hlt => hhigh ⟨c', hc', hlt⟩⟩
        obtain ⟨hn, hafter, hnum⟩ := hinside hbetween _ rfl
        exact ⟨_, falls_bin hcut hbetween, hn, hafter, hnum⟩

end Rule

/-! ## The classes -/

theorem row_lt {i j m n : Nat} (hi : i < m) (hj : j < n) : i + j * m < m * n := by
  calc i + j * m < m + j * m := Nat.add_lt_add_right hi _
    _ = (j + 1) * m := by rw [Nat.succ_mul, Nat.add_comm]
    _ ≤ n * m := Nat.mul_le_mul_right m hj
    _ = m * n := Nat.mul_comm n m

theorem cell_lt {i j k l m n : Nat} (hi : i < l) (hj : j < m) (hk : k < n) :
    (j + i * m) * n + k < l * m * n := by
  have hrow : j + i * m < l * m := (row_lt hj hi).trans_eq (Nat.mul_comm m l)
  calc (j + i * m) * n + k = k + (j + i * m) * n := Nat.add_comm _ k
    _ < n * (l * m) := row_lt hk hrow
    _ = l * m * n := Nat.mul_comm n (l * m)

namespace Histo1d

variable {D : Type} [Double D] (h : Histo1d D)

def binNum (x : D) : Int :=
  if x < h.x.low then -1
  else if h.x.high < x then -1
  else
    let xbin := Double.toUnsigned ((x - h.x.low) / h.x.binWidth)
    xbin

def counts : Contents D D := ⟨h.underflow, h.overflow, h.data⟩

def position : List Nat → Nat
  | [i] => i
  | _ => 0

variable {h : Histo1d ℝ}

/-- The entry is counted by the rule. -/
def Binned (h : Histo1d ℝ) (x v : ℝ) : Prop :=
  Counted position [(h.x, x)] h.x.bins v (· + v) h.counts ((h.fill x v).map counts) (h.binNum x)

theorem binned_iff (hwf : h.Wellformed) (hcut : h.x.Cut) (x v : ℝ) :
    h.Binned x v ↔ ¬OnUpperEdge [(h.x, x)] := by
  apply counted_iff
  · simpa using hcut
  · intro hbelow
    have hlt : x < h.x.low := by simpa using hbelow
    simp [fill, binNum, hlt, counts, Contents.enter]
  · intro hlow habove
    have hnot : ¬x < h.x.low := by simpa using hlow
    have hlt : h.x.high < x := by simpa using habove
    simp [fill, binNum, hnot, hlt, hlt.le, counts, Contents.enter]
  · rintro hbetween n rfl
    obtain ⟨hlow, hhigh⟩ : h.x.low ≤ x ∧ x < h.x.high := by simpa using hbetween
    have hbin : place h.x.low h.x.binWidth x < h.x.bins := (hcut.inBin_place hlow hhigh).1
    have hfill := fill_inside v (not_lt.mpr hlow) (not_le.mpr hhigh) rfl
      (hbin.trans_eq hwf.length_data.symm)
    refine ⟨hbin, by rw [hfill]; rfl, ?_⟩
    unfold binNum
    rw [if_neg (not_lt.mpr hlow), if_neg (not_lt.mpr hhigh.le)]
    rfl
  · rintro ⟨hall, -⟩
    obtain ⟨hlow, hhigh⟩ : h.x.low ≤ x ∧ x ≤ h.x.high := by simpa using hall
    unfold binNum
    rw [if_neg (not_lt.mpr hlow), if_neg (not_lt.mpr hhigh)]
    exact Int.natCast_nonneg _

end Histo1d

namespace Histo2d

variable {D S : Type} [Double D] [Element D S] (h : Histo2d D S)

def binNum (x y : D) : Int :=
  if x < h.x.low ∨ y < h.y.low then -1
  else if h.x.high < x ∨ h.y.high < y then -1
  else
    let xbin := Double.toUnsigned ((x - h.x.low) / h.x.binWidth)
    let ybin := Double.toUnsigned ((y - h.y.low) / h.y.binWidth)
    (xbin + ybin * h.x.bins : Nat)

def counts : Contents D S := ⟨h.underflow, h.overflow, h.data⟩

/-- Bins in rows along the first axis. -/
def position (xbins : Nat) : List Nat → Nat
  | [i, j] => i + j * xbins
  | _ => 0

/-- The entry is counted by the rule. -/
def Binned {S : Type} [Element ℝ S] (h : Histo2d ℝ S) (x y v : ℝ) : Prop :=
  Counted (position h.x.bins) [(h.x, x), (h.y, y)] h.size v
    (fun d => Element.ofDouble (Element.toDouble d + v)) h.counts ((h.fill x y v).map counts)
    (h.binNum x y)

theorem binned_iff {S : Type} [Element ℝ S] {h : Histo2d ℝ S} (hwf : h.Wellformed)
    (hxcut : h.x.Cut) (hycut : h.y.Cut) (x y v : ℝ) :
    h.Binned x y v ↔ ¬OnUpperEdge [(h.x, x), (h.y, y)] := by
  apply counted_iff
  · simpa using ⟨hxcut, hycut⟩
  · intro hbelow
    have hlt : x < h.x.low ∨ y < h.y.low := by simpa using hbelow
    simp [fill, binNum, hlt, counts, Contents.enter]
  · intro hlow habove
    have hnot : ¬(x < h.x.low ∨ y < h.y.low) := by simpa using hlow
    have hlt : h.x.high < x ∨ h.y.high < y := by simpa using habove
    simp [fill, binNum, hnot, hlt, counts, Contents.enter]
  · rintro hbetween n rfl
    obtain ⟨⟨hxlow, hxhigh⟩, hylow, hyhigh⟩ :
        (h.x.low ≤ x ∧ x < h.x.high) ∧ h.y.low ≤ y ∧ y < h.y.high := by simpa using hbetween
    have hxbin : place h.x.low h.x.binWidth x < h.x.bins := (hxcut.inBin_place hxlow hxhigh).1
    have hybin : place h.y.low h.y.binWidth y < h.y.bins := (hycut.inBin_place hylow hyhigh).1
    have hindex := row_lt hxbin hybin
    have hnotlow : ¬(x < h.x.low ∨ y < h.y.low) := by simpa using ⟨hxlow, hylow⟩
    have hnothigh : ¬(h.x.high < x ∨ h.y.high < y) := by simpa using ⟨hxhigh.le, hyhigh.le⟩
    refine ⟨hindex, ?_, ?_⟩
    · unfold fill
      rw [if_neg hnotlow, if_neg hnothigh]
      exact congrArg (Option.map counts) (if_pos (hindex.trans_eq hwf.length_data.symm))
    · unfold binNum
      rw [if_neg hnotlow, if_neg hnothigh]
      rfl
  · rintro ⟨hall, -⟩
    obtain ⟨⟨hxlow, hxhigh⟩, hylow, hyhigh⟩ :
        (h.x.low ≤ x ∧ x ≤ h.x.high) ∧ h.y.low ≤ y ∧ y ≤ h.y.high := by simpa using hall
    have hnotlow : ¬(x < h.x.low ∨ y < h.y.low) := by simpa using ⟨hxlow, hylow⟩
    have hnothigh : ¬(h.x.high < x ∨ h.y.high < y) := by simpa using ⟨hxhigh, hyhigh⟩
    unfold binNum
    rw [if_neg hnotlow, if_neg hnothigh]
    exact Int.natCast_nonneg _

end Histo2d

namespace Histo3dT

variable {D T : Type} [Double D] [Element D T] (h : Histo3dT D T)

def binNum (x y z : D) : Int :=
  if x < h.x.low ∨ y < h.y.low ∨ z < h.z.low then -1
  else if h.x.high < x ∨ h.y.high < y ∨ h.z.high < z then -1
  else
    let xbin := Double.toUnsigned ((x - h.x.low) / h.x.binWidth)
    let ybin := Double.toUnsigned ((y - h.y.low) / h.y.binWidth)
    let zbin := Double.toUnsigned ((z - h.z.low) / h.z.binWidth)
    ((ybin + xbin * h.y.bins) * h.z.bins + zbin : Nat)

def counts : Contents T T := ⟨h.underflow, h.overflow, h.data⟩

/-- Bins in rows along the last axis. -/
def position (ybins zbins : Nat) : List Nat → Nat
  | [i, j, k] => (j + i * ybins) * zbins + k
  | _ => 0

/-- The entry is counted by the rule. -/
def Binned {T : Type} [Element ℝ T] (h : Histo3dT ℝ T) (x y z : ℝ) (v : T) : Prop :=
  Counted (position h.y.bins h.z.bins) [(h.x, x), (h.y, y), (h.z, z)] h.size v (· + v) h.counts
    ((h.fill x y z v).map counts) (h.binNum x y z)

theorem binned_iff {T : Type} [Element ℝ T] {h : Histo3dT ℝ T} (hwf : h.Wellformed)
    (hxcut : h.x.Cut) (hycut : h.y.Cut) (hzcut : h.z.Cut) (x y z : ℝ) (v : T) :
    h.Binned x y z v ↔ ¬OnUpperEdge [(h.x, x), (h.y, y), (h.z, z)] := by
  apply counted_iff
  · simpa using ⟨hxcut, hycut, hzcut⟩
  · intro hbelow
    have hlt : x < h.x.low ∨ y < h.y.low ∨ z < h.z.low := by simpa using hbelow
    simp [fill, binNum, hlt, counts, Contents.enter]
  · intro hlow habove
    have hnot : ¬(x < h.x.low ∨ y < h.y.low ∨ z < h.z.low) := by simpa using hlow
    have hlt : h.x.high < x ∨ h.y.high < y ∨ h.z.high < z := by simpa using habove
    simp [fill, binNum, hnot, hlt, counts, Contents.enter]
  · rintro hbetween n rfl
    obtain ⟨⟨hxlow, hxhigh⟩, ⟨hylow, hyhigh⟩, hzlow, hzhigh⟩ :
        (h.x.low ≤ x ∧ x < h.x.high) ∧ (h.y.low ≤ y ∧ y < h.y.high) ∧
          h.z.low ≤ z ∧ z < h.z.high := by simpa using hbetween
    have hxbin : place h.x.low h.x.binWidth x < h.x.bins := (hxcut.inBin_place hxlow hxhigh).1
    have hybin : place h.y.low h.y.binWidth y < h.y.bins := (hycut.inBin_place hylow hyhigh).1
    have hzbin : place h.z.low h.z.binWidth z < h.z.bins := (hzcut.inBin_place hzlow hzhigh).1
    have hindex := cell_lt hxbin hybin hzbin
    have hnotlow : ¬(x < h.x.low ∨ y < h.y.low ∨ z < h.z.low) := by
      simpa using ⟨hxlow, hylow, hzlow⟩
    have hnothigh : ¬(h.x.high < x ∨ h.y.high < y ∨ h.z.high < z) := by
      simpa using ⟨hxhigh.le, hyhigh.le, hzhigh.le⟩
    refine ⟨hindex, ?_, ?_⟩
    · unfold fill
      rw [if_neg hnotlow, if_neg hnothigh]
      exact congrArg (Option.map counts) (if_pos
        ⟨hindex.trans_eq hwf.length_data.symm, hindex.trans_eq hwf.length_filled.symm⟩)
    · unfold binNum
      rw [if_neg hnotlow, if_neg hnothigh]
      rfl
  · rintro ⟨hall, -⟩
    obtain ⟨⟨hxlow, hxhigh⟩, ⟨hylow, hyhigh⟩, hzlow, hzhigh⟩ :
        (h.x.low ≤ x ∧ x ≤ h.x.high) ∧ (h.y.low ≤ y ∧ y ≤ h.y.high) ∧
          h.z.low ≤ z ∧ z ≤ h.z.high := by simpa using hall
    have hnotlow : ¬(x < h.x.low ∨ y < h.y.low ∨ z < h.z.low) := by
      simpa using ⟨hxlow, hylow, hzlow⟩
    have hnothigh : ¬(h.x.high < x ∨ h.y.high < y ∨ h.z.high < z) := by
      simpa using ⟨hxhigh, hyhigh, hzhigh⟩
    unfold binNum
    rw [if_neg hnotlow, if_neg hnothigh]
    exact Int.natCast_nonneg _

end Histo3dT

/-! ## All three classes -/

/-- An axis with a bin and with room between its bounds. -/
def Axis.Proper (axis : Axis ℝ) : Prop := 0 < axis.bins ∧ axis.low < axis.high

theorem Axis.Proper.cut {axis : Axis ℝ} (hproper : axis.Proper)
    (haxis : axis = .of axis.bins axis.low axis.high) : axis.Cut :=
  ⟨hproper.1, hproper.2, haxis⟩

/-- An entry goes where the rule has it, unless the only way out of the bins is an upper bound that
is met exactly. -/
theorem histo_binned_iff (x : ℝ) :
    (∀ h : Histo1d ℝ, h.Wellformed → h.x.Proper → ∀ v,
      h.Binned x v ↔ ¬OnUpperEdge [(h.x, x)]) ∧
    (∀ (S : Type) [Element ℝ S] (h : Histo2d ℝ S), h.Wellformed → h.x.Proper → h.y.Proper →
      ∀ y v, h.Binned x y v ↔ ¬OnUpperEdge [(h.x, x), (h.y, y)]) ∧
    (∀ (T : Type) [Element ℝ T] (h : Histo3dT ℝ T), h.Wellformed → h.x.Proper → h.y.Proper →
      h.z.Proper → ∀ y z v,
      h.Binned x y z v ↔ ¬OnUpperEdge [(h.x, x), (h.y, y), (h.z, z)]) := by
  refine ⟨?_, ?_, ?_⟩
  · intro h hwf hx
    exact Histo1d.binned_iff hwf (hx.cut hwf.axis) x
  · intro S _ h hwf hx hy
    exact Histo2d.binned_iff hwf (hx.cut hwf.xAxis) (hy.cut hwf.yAxis) x
  · intro T _ h hwf hx hy hz
    exact Histo3dT.binned_iff hwf (hx.cut hwf.xAxis) (hy.cut hwf.yAxis) (hz.cut hwf.zAxis) x

/-- Two bins in each direction, and the middle of the area. -/
theorem middle_binned :
    (Histo2d.new "h" 2 0 1 2 0 1 .iterationEnd : Histo2d ℝ ℝ).Binned (1 / 2) (1 / 2) 1 := by
  have hproper : (Axis.of 2 (0 : ℝ) 1).Proper := ⟨by decide, zero_lt_one⟩
  apply ((histo_binned_iff _).2.1 ℝ _
    (Histo2d.Reachable.new "h" 2 0 1 2 0 1 .iterationEnd).wellformed hproper hproper _ _).mpr
  rintro ⟨-, c, hc, heq⟩
  have hpoint : c = (Axis.of 2 0 1, 1 / 2) := by simpa [Histo2d.new] using hc
  subst hpoint
  norm_num [Axis.of] at heq

/-- The right end of the axis: one class has it as overflow but tells a bin for it, the other two
put it into a bin. -/
theorem upper_bound_misplaced :
    ¬(Histo1d.new "h" 2 (0 : ℝ) 1 .iterationEnd).Binned 1 1 ∧
    ¬(Histo2d.new "h" 2 0 1 2 0 1 .iterationEnd : Histo2d ℝ ℝ).Binned 1 0 1 ∧
    ¬(Histo3dT.new "h" 2 0 1 2 0 1 2 0 1 .iterationEnd : Histo3dT ℝ ℝ).Binned 1 0 0 1 := by
  have hproper : (Axis.of 2 (0 : ℝ) 1).Proper := ⟨by decide, zero_lt_one⟩
  have hcut : (Axis.of 2 (0 : ℝ) 1).Cut := hproper.cut rfl
  refine ⟨?_, ?_, ?_⟩
  · rw [Histo1d.binned_iff (Histo1d.Reachable.new "h" 2 0 1 .iterationEnd).wellformed hcut, not_not]
    simp [OnUpperEdge, Histo1d.new, Axis.of]
  · rw [Histo2d.binned_iff (Histo2d.Reachable.new "h" 2 0 1 2 0 1 .iterationEnd).wellformed hcut
      hcut, not_not]
    simp [OnUpperEdge, Histo2d.new, Axis.of]
  · rw [Histo3dT.binned_iff
      (Histo3dT.Reachable.new "h" 2 0 1 2 0 1 2 0 1 .iterationEnd).wellformed hcut hcut hcut,
      not_not]
    simp [OnUpperEdge, Histo3dT.new, Axis.of]

end Yarr.Histo
