import Mathlib.Data.Fin.VecNotation
import Yarr.Core.Indices
import Yarr.Pixel.Readings

/-!
# The data processor of the FE-I4

`process_core` takes containers until the clipboard is empty. Its tag, counters
and count of bad words start at zero with each call. After more than ten bad
words every buffer is left after its first word.
-/

namespace Yarr.Fei4

open Batches Yarr.Pixel Yarr.Pixel.Fragments

/-- Time over threshold by the configuration of the hit discriminator and the code in the data. -/
def totCode : Fin 3 → Fin 16 → Nat :=
  ![![1, 2, 3, 4, 5, 6, 7, 8, 9, 10, 11, 12, 13, 14, 14, 0],
    ![2, 3, 4, 5, 6, 7, 8, 9, 10, 11, 12, 13, 14, 15, 1, 0],
    ![3, 4, 5, 6, 7, 8, 9, 10, 11, 12, 13, 14, 15, 16, 1, 0]]

variable (hitDiscCfg : Fin 3)

def decTot (tot : UInt32) : Nat := totCode hitDiscCfg (Fin.ofNat 16 tot.toNat)

/-- `curOut->curEvent->addHit`, if the time over threshold is positive. -/
def addHit (curOut : FrontEndData) (row col : Nat) (dec_tot : Nat) : Option FrontEndData :=
  if dec_tot > 0 then curOut.addHit ⟨col % 2 ^ 16, row % 2 ^ 16, dec_tot % 2 ^ 16⟩ else some curOut

/-- The body of the loop over the words of a buffer, without the break at its end. -/
def processWord (s : State) (badCnt value : UInt32) : Option (State × UInt32) :=
  let header := (value &&& 0x00FF0000) >>> 16
  let type := (value &&& 0x03000000) >>> 24
  if type = 0x1 then
    some ({ s with carried := { s.carried with tag := value &&& 0x00FFFFFF } }, badCnt)
  else if type = 0x3 then some (s, badCnt)
  else if type = 0x0 then
    if value = 0xDEADBEEF then some (s, badCnt)
    else if header = 0xe9 then
      let tag := s.carried.tag
      let l1id := (value &&& 0x7c00) >>> 10
      let bcid := value &&& 0x03FF
      some ({ carried := ⟨tag, l1id, bcid⟩
              events := s.events + 1
              curOut := s.curOut.newEvent tag.toNat l1id.toNat bcid.toNat
              feedback := s.feedback ++ [⟨l1id.toNat, bcid.toNat⟩] }, badCnt)
    -- an element of `serviceRecords` is written; the vector never gets any elements
    else if header = 0xef then none
    else
      let col := (value &&& 0xFE0000) >>> 17
      let row := (value &&& 0x01FF00) >>> 8
      let tot1 := (value &&& 0xF0) >>> 4
      let tot2 := value &&& 0xF
      let s := if s.events = 0 then
          { s with
            curOut := s.curOut.newEvent 0xDEADBEEF s.carried.l1id.toNat s.carried.bcid.toNat
            events := s.events + 1 }
        else s
      if col = 0 ∨ row = 0 ∨ col > 80 ∨ row > 336 then some (s, badCnt + 1)
      else
        let dec_tot1 := decTot hitDiscCfg tot1
        let dec_tot2 := decTot hitDiscCfg tot2
        (addHit s.curOut row.toNat col.toNat dec_tot1).bind fun curOut =>
          (addHit curOut (row.toNat + 1) col.toNat dec_tot2).map fun curOut =>
            ({ s with curOut := curOut }, badCnt)
  else some (s, badCnt)

/-- The loop over the words of a buffer. -/
def processWords (s : State) (badCnt : UInt32) : List UInt32 → Option (State × UInt32)
  | [] => some (s, badCnt)
  | value :: values =>
      (processWord hitDiscCfg s badCnt value).bind fun r =>
        if r.2 > 10 then some r else processWords r.1 r.2 values

/-- The loop over the buffers of a container. -/
def processBuffers (s : State) (badCnt : UInt32) : List (List UInt32) → Option (State × UInt32)
  | [] => some (s, badCnt)
  | buffer :: buffers =>
      (processWords hitDiscCfg s badCnt buffer).bind fun r => processBuffers r.1 r.2 buffers

/-- The variables of `process_core` that go from one container to the next. -/
@[ext]
structure Kept where
  carried : Carried
  badCnt : UInt32
  deriving DecidableEq

def Kept.fresh : Kept := ⟨⟨0, 0, 0⟩, 0⟩

/-- One turn of the loop of `process_core`. -/
def processContainer (k : Kept) (c : WordContainer) :
    Option (Kept × Out FrontEndData FeedbackProcessingInfo) :=
  if c.size = 0 ∧ c.stat.is_end_of_iteration then some (k, ⟨[.ofStatus c.stat], []⟩)
  else
    (processBuffers hitDiscCfg (.start k.carried c.stat) k.badCnt c.data).map fun r =>
      (⟨r.1.carried, r.2⟩, ⟨[r.1.curOut], r.1.feedback⟩)

def process_core : Consumer Kept WordContainer FrontEndData FeedbackProcessingInfo where
  fresh := .fresh
  take := processContainer hitDiscCfg

/-! ## What the words stand for -/

def isData (value : UInt32) : Bool :=
  (value &&& 0x03000000) >>> 24 = 0 ∧ (value &&& 0x00FF0000) >>> 16 ≠ 0xe9 ∧
    (value &&& 0x00FF0000) >>> 16 ≠ 0xef

/-- A data word with a pixel that does not exist. -/
def isBad (value : UInt32) : Bool :=
  isData value ∧ ((value &&& 0xFE0000) >>> 17 = 0 ∨ (value &&& 0x01FF00) >>> 8 = 0 ∨
    (value &&& 0xFE0000) >>> 17 > 80 ∨ (value &&& 0x01FF00) >>> 8 > 336)

def hitOf (row col dec_tot : Nat) : List FrontEndHit :=
  if dec_tot > 0 then [⟨col % 2 ^ 16, row % 2 ^ 16, dec_tot % 2 ^ 16⟩] else []

/-- The hits of a data word. -/
def hitsOf (value : UInt32) : List FrontEndHit :=
  if isBad value then []
  else
    let col := ((value &&& 0xFE0000) >>> 17).toNat
    let row := ((value &&& 0x01FF00) >>> 8).toNat
    hitOf row col (decTot hitDiscCfg ((value &&& 0xF0) >>> 4)) ++
      hitOf (row + 1) col (decTot hitDiscCfg (value &&& 0xF))

def itemOf (value : UInt32) : Option Item :=
  let header := (value &&& 0x00FF0000) >>> 16
  let type := (value &&& 0x03000000) >>> 24
  if type = 0x1 then some (.trigger (value &&& 0x00FFFFFF))
  else if type = 0x0 then
    if header = 0xe9 then
      let l1id := (value &&& 0x7c00) >>> 10
      let bcid := value &&& 0x03FF
      some (.header l1id bcid ⟨l1id.toNat, bcid.toNat⟩)
    else if header = 0xef then some .undefined
    else some (.data (hitsOf hitDiscCfg value))
  else none

/-- The words of a buffer that are read before the break. -/
def wordsRead (badCnt : UInt32) : List UInt32 → List UInt32
  | [] => []
  | value :: values =>
      let badCnt := if isBad value then badCnt + 1 else badCnt
      if badCnt > 10 then [value] else value :: wordsRead badCnt values

def countBad (badCnt : UInt32) (values : List UInt32) : UInt32 :=
  values.foldl (fun badCnt value => if isBad value then badCnt + 1 else badCnt) badCnt

/-- The words of a container that are read. -/
def buffersRead (badCnt : UInt32) : List (List UInt32) → List UInt32
  | [] => []
  | buffer :: buffers =>
      let words := wordsRead badCnt buffer
      words ++ buffersRead (countBad badCnt words) buffers

def itemsRead (k : Kept) (c : WordContainer) : List Item :=
  (buffersRead k.badCnt c.data).filterMap (itemOf hitDiscCfg)

def Kept.next (k : Kept) (c : WordContainer) : Kept :=
  ⟨(itemsRead hitDiscCfg k c).foldl Carried.next k.carried,
    countBad k.badCnt (buffersRead k.badCnt c.data)⟩

def orphanTag : UInt32 := 0xDEADBEEF

theorem addHit_eq (curOut : FrontEndData) (row col dec_tot : Nat) :
    addHit curOut row col dec_tot =
      (hitOf row col dec_tot).foldlM FrontEndData.addHit curOut := by
  unfold addHit hitOf
  split
  · rw [List.foldlM_cons]
    cases FrontEndData.addHit curOut _ with
    | none => rfl
    | some curOut' => rfl
  · rfl

theorem type_deadbeef {value : UInt32} (h : (value &&& 0x03000000) >>> 24 = 0) :
    value ≠ 0xDEADBEEF := by
  intro hvalue
  rw [hvalue] at h
  exact absurd h (by decide)

theorem processWord_data (s : State) (badCnt : UInt32) {value : UInt32}
    (hzero : (value &&& 0x03000000) >>> 24 = 0) (hheader : (value &&& 0x00FF0000) >>> 16 ≠ 0xe9)
    (hservice : (value &&& 0x00FF0000) >>> 16 ≠ 0xef) :
    processWord hitDiscCfg s badCnt value =
      (decode orphanTag s (itemOf hitDiscCfg value).toList).map fun s' =>
        (s', if isBad value then badCnt + 1 else badCnt) := by
  have herror := type_deadbeef hzero
  have hitem : itemOf hitDiscCfg value = some (.data (hitsOf hitDiscCfg value)) := by
    simp [itemOf, hzero, hheader, hservice]
  have hdata : isData value = true := by
    simp [isData, hzero, hheader, hservice]
  have horphan : (if s.events = 0 then
      { s with
        curOut := s.curOut.newEvent 0xDEADBEEF s.carried.l1id.toNat s.carried.bcid.toNat
        events := s.events + 1 }
      else s) = s.orphan orphanTag := rfl
  rw [hitem, Option.toList_some, decode_data]
  unfold processWord
  simp only [horphan, hzero, herror, hheader, hservice, if_true, if_false]
  by_cases hbad : isBad value = true
  · have hcond := hbad
    simp only [isBad, hdata, true_and, decide_eq_true_eq] at hcond
    simp [hcond, hitsOf, hbad]
  · have hcond := hbad
    simp only [isBad, hdata, true_and, decide_eq_true_eq] at hcond
    simp only [if_neg hcond, hitsOf, if_neg hbad, addHit_eq, List.foldlM_append]
    cases (hitOf _ _ _).foldlM FrontEndData.addHit (s.orphan orphanTag).curOut with
    | none => rfl
    | some curOut =>
        simp only [Option.bind_eq_bind, Option.bind_some, Option.map_map]
        rfl

theorem processWord_eq (s : State) (badCnt value : UInt32) :
    processWord hitDiscCfg s badCnt value =
      (decode orphanTag s (itemOf hitDiscCfg value).toList).map fun s' =>
        (s', if isBad value then badCnt + 1 else badCnt) := by
  have hnotData : ∀ h : ¬isData value = true, isBad value = false := by
    intro h
    simp [isBad, h]
  by_cases htrigger : (value &&& 0x03000000) >>> 24 = 1
  · have hbad := hnotData (by simp [isData, htrigger])
    simp [processWord, itemOf, htrigger, hbad, decode, step, Carried.next]
  by_cases hzero : (value &&& 0x03000000) >>> 24 = 0
  · have herror := type_deadbeef hzero
    by_cases hheader : (value &&& 0x00FF0000) >>> 16 = 0xe9
    · have hbad := hnotData (by simp [isData, hheader])
      simp [processWord, itemOf, hzero, herror, hheader, hbad, decode, step, State.headed,
        Carried.next]
    by_cases hservice : (value &&& 0x00FF0000) >>> 16 = 0xef
    · have hbad := hnotData (by simp [isData, hservice])
      simp [processWord, itemOf, hzero, herror, hservice, hbad, decode, step]
    · exact processWord_data hitDiscCfg s badCnt hzero hheader hservice
  · have hbad := hnotData (by simp [isData, hzero])
    simp [processWord, itemOf, htrigger, hzero, hbad, decode]

theorem processWords_eq (s : State) (badCnt : UInt32) (values : List UInt32) :
    processWords hitDiscCfg s badCnt values =
      (decode orphanTag s ((wordsRead badCnt values).filterMap (itemOf hitDiscCfg))).map fun s' =>
        (s', countBad badCnt (wordsRead badCnt values)) := by
  induction values generalizing s badCnt with
  | nil => rfl
  | cons value values ih =>
      have hitems : ∀ rest : List UInt32, (value :: rest).filterMap (itemOf hitDiscCfg) =
          (itemOf hitDiscCfg value).toList ++ rest.filterMap (itemOf hitDiscCfg) := by
        intro rest
        cases hitem : itemOf hitDiscCfg value with
        | none => simp [hitem]
        | some item => simp [hitem]
      rw [processWords, processWord_eq, wordsRead]
      by_cases hbreak : (if isBad value then badCnt + 1 else badCnt) > 10
      · simp only [if_pos hbreak, hitems, decode_append]
        cases decode orphanTag s (itemOf hitDiscCfg value).toList with
        | none => rfl
        | some s' =>
            simp only [Option.map_some, Option.bind_some, if_pos hbreak]
            rfl
      · simp only [if_neg hbreak, hitems, decode_append]
        cases decode orphanTag s (itemOf hitDiscCfg value).toList with
        | none => rfl
        | some s' =>
            simp only [Option.map_some, Option.bind_some, if_neg hbreak, ih]
            rfl

theorem countBad_append (badCnt : UInt32) (a b : List UInt32) :
    countBad badCnt (a ++ b) = countBad (countBad badCnt a) b := List.foldl_append

theorem processBuffers_eq (s : State) (badCnt : UInt32) (buffers : List (List UInt32)) :
    processBuffers hitDiscCfg s badCnt buffers =
      (decode orphanTag s ((buffersRead badCnt buffers).filterMap (itemOf hitDiscCfg))).map
        fun s' => (s', countBad badCnt (buffersRead badCnt buffers)) := by
  induction buffers generalizing s badCnt with
  | nil => rfl
  | cons buffer buffers ih =>
      rw [processBuffers, processWords_eq, buffersRead, List.filterMap_append, decode_append]
      cases decode orphanTag s ((wordsRead badCnt buffer).filterMap (itemOf hitDiscCfg)) with
      | none => rfl
      | some s' =>
          simp only [Option.map_some, Option.bind_some, ih, countBad_append]

/-! ## The processor as a reading -/

theorem header_narrow (value : UInt32) :
    ((value &&& 0x7c00) >>> 10).toNat < 2 ^ 16 ∧ (value &&& 0x03FF).toNat < 2 ^ 16 := by
  constructor
  · have hand : (value &&& 0x7c00).toNat ≤ 0x7c00 := by
      rw [UInt32.toNat_and]
      exact Nat.and_le_right
    have hshift : ((value &&& 0x7c00) >>> 10).toNat = (value &&& 0x7c00).toNat / 2 ^ 10 := by
      rw [UInt32.toNat_shiftRight, Nat.shiftRight_eq_div_pow]
      rfl
    omega
  · have hand : (value &&& 0x03FF).toNat ≤ 0x03FF := by
      rw [UInt32.toNat_and]
      exact Nat.and_le_right
    omega

theorem tag_narrow (value : UInt32) : value &&& 0x00FFFFFF ≠ orphanTag := by
  intro h
  have hand : (value &&& 0x00FFFFFF).toNat ≤ 0x00FFFFFF := by
    rw [UInt32.toNat_and]
    exact Nat.and_le_right
  rw [h] at hand
  exact absurd hand (by decide)

theorem item_narrow {value : UInt32} {item : Item} (h : itemOf hitDiscCfg value = some item) :
    (∀ l1id bcid feedback, item = .header l1id bcid feedback →
      l1id.toNat < 2 ^ 16 ∧ bcid.toNat < 2 ^ 16) ∧ ∀ t, item = .trigger t → t ≠ orphanTag := by
  simp only [itemOf] at h
  split at h
  · cases h
    constructor
    · intro l1id bcid feedback hitem
      cases hitem
    · intro t hitem
      cases hitem
      exact tag_narrow value
  · split at h
    · split at h
      · cases h
        constructor
        · intro l1id bcid feedback hitem
          cases hitem
          exact header_narrow value
        · intro t hitem
          cases hitem
      · split at h
        · cases h
          simp
        · cases h
          simp
    · cases h

def reading : Reading Kept WordContainer where
  orphanTag := orphanTag
  fresh := .fresh
  carried := Kept.carried
  stat := WordContainer.stat
  items := itemsRead hitDiscCfg
  next := Kept.next hitDiscCfg
  forwards _ := true
  carried_next _ _ := rfl
  narrow_fresh := by decide
  narrow k c l1id bcid feedback h := by
    obtain ⟨value, _, hvalue⟩ := List.mem_filterMap.mp h
    exact (item_narrow hitDiscCfg hvalue).1 l1id bcid feedback rfl
  tags k c t h := by
    obtain ⟨value, _, hvalue⟩ := List.mem_filterMap.mp h
    exact (item_narrow hitDiscCfg hvalue).2 t rfl
  fresh_tag _ _ _ := by decide

theorem process_core_eq : process_core hitDiscCfg = (reading hitDiscCfg).consumer := by
  have htake : processContainer hitDiscCfg = (reading hitDiscCfg).consumer.take := by
    funext k c
    have hreading : (reading hitDiscCfg).consumer.take k c =
        (decode orphanTag (.start k.carried c.stat) (itemsRead hitDiscCfg k c)).map fun s =>
          (k.next hitDiscCfg c, ⟨[s.curOut], s.feedback⟩) := by
      simp only [Reading.consumer, reading, true_or, if_true]
    rw [hreading, processContainer]
    by_cases hempty : c.size = 0 ∧ c.stat.is_end_of_iteration
    · have hdata : c.data = [] := List.eq_nil_of_length_eq_zero hempty.1
      rw [if_pos hempty]
      simp only [itemsRead, Kept.next, hdata]
      rfl
    · rw [if_neg hempty, processBuffers_eq, Option.map_map, itemsRead]
      cases hs : decode orphanTag (.start k.carried c.stat)
          ((buffersRead k.badCnt c.data).filterMap (itemOf hitDiscCfg)) with
      | none => rfl
      | some s =>
          simp only [Option.map_some, Function.comp_apply, Kept.next, itemsRead, carried_decode hs]
          rfl
  rw [process_core, htake]
  rfl

end Yarr.Fei4
