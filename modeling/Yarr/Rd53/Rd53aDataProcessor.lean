import Yarr.Core.Indices
import Yarr.Pixel.Readings

/-!
# The data processor of the RD53A

`process_core` takes containers until the clipboard is empty. Its tag and
counters start at 666 with each call.
-/

namespace Yarr.Rd53.Rd53aDataProcessor

open Batches Pixel Pixel.Fragments

def n_Col : UInt32 := 400
def n_Row : UInt32 := 192

/-- `curOut->curEvent->addHit`, unless the code says that there is no hit. -/
def addHit (curOut : FrontEndData) (pix_row pix_col tot : UInt32) : Option FrontEndData :=
  if tot ≠ 0xF then
    curOut.addHit ⟨pix_col.toNat % 2 ^ 16, pix_row.toNat % 2 ^ 16, (tot + 1).toNat % 2 ^ 16⟩
  else some curOut

/-- The body of the loop over the words of a buffer. -/
def processWord (s : State) (data : UInt32) : Option State :=
  if data &&& 0xFFFF0000 ≠ 0xFFFF0000 then
    if (data >>> 25) &&& 0x1 ≠ 0 then
      let l1id : UInt32 := (data >>> 20) &&& 0x1F
      let tag : UInt32 := (data >>> 15) &&& 0x1F
      let bcid : UInt32 := data &&& 0x7FFF
      some
        { carried := ⟨tag, l1id, bcid⟩
          events := s.events + 1
          curOut := s.curOut.newEvent tag.toNat l1id.toNat bcid.toNat
          feedback := s.feedback ++ [⟨tag.toNat, bcid.toNat⟩] }
    else
      let core_col : UInt32 := (data >>> 26) &&& 0x3F
      let core_row : UInt32 := (data >>> 20) &&& 0x3F
      let region : UInt32 := (data >>> 16) &&& 0xF
      let tot0 : UInt32 := (data >>> 0) &&& 0xF
      let tot1 : UInt32 := (data >>> 4) &&& 0xF
      let tot2 : UInt32 := (data >>> 8) &&& 0xF
      let tot3 : UInt32 := (data >>> 12) &&& 0xF
      let pix_col : UInt32 := core_col * 8 + (region &&& 0x1) * 4
      let pix_row : UInt32 := core_row * 8 + ((region >>> (1 : UInt32)) &&& (0x7 : UInt32))
      if pix_col < n_Col ∧ pix_row < n_Row then
        let s := if s.events = 0 then
            { s with
              curOut := s.curOut.newEvent 666 s.carried.l1id.toNat s.carried.bcid.toNat
              events := s.events + 1 }
          else s
        let pix_row : UInt32 := pix_row + 1
        let pix_col : UInt32 := pix_col + 1
        (((addHit s.curOut pix_row pix_col tot0).bind fun curOut =>
          addHit curOut pix_row (pix_col + 1) tot1).bind fun curOut =>
          addHit curOut pix_row (pix_col + 2) tot2).bind fun curOut =>
          (addHit curOut pix_row (pix_col + 3) tot3).map fun curOut => { s with curOut := curOut }
      else some s
  else some s

/-- One turn of the loop of `process_core`. -/
def processContainer (k : Carried) (c : WordContainer) :
    Option (Carried × Out FrontEndData FeedbackProcessingInfo) :=
  if c.size = 0 ∧ c.stat.is_end_of_iteration then some (k, ⟨[.ofStatus c.stat], []⟩)
  else
    (c.data.foldlM (fun s (curIn : List UInt32) => curIn.foldlM processWord s) (State.start k c.stat)).map fun s =>
      (s.carried, ⟨if s.events > 0 then [s.curOut] else [], s.feedback⟩)

def fresh : Carried := ⟨666, 666, 666⟩

def process_core : Consumer Carried WordContainer FrontEndData FeedbackProcessingInfo where
  fresh := fresh
  take := processContainer

/-! ## What the words stand for -/

/-- A header, with the tag that it carries. -/
def isHeader (data : UInt32) : Bool :=
  data &&& 0xFFFF0000 ≠ 0xFFFF0000 ∧ (data >>> 25) &&& 0x1 ≠ 0

def pixCol (data : UInt32) : UInt32 :=
  let core_col : UInt32 := (data >>> 26) &&& 0x3F
  let region : UInt32 := (data >>> 16) &&& 0xF
  core_col * 8 + (region &&& 0x1) * 4

def pixRow (data : UInt32) : UInt32 :=
  let core_row : UInt32 := (data >>> 20) &&& 0x3F
  let region : UInt32 := (data >>> 16) &&& 0xF
  core_row * 8 + ((region >>> (1 : UInt32)) &&& (0x7 : UInt32))

/-- Data of four pixels that exist. -/
def isHit (data : UInt32) : Bool :=
  data &&& 0xFFFF0000 ≠ 0xFFFF0000 ∧ (data >>> 25) &&& 0x1 = 0 ∧ pixCol data < n_Col ∧
    pixRow data < n_Row

def hitOf (pix_row pix_col tot : UInt32) : List FrontEndHit :=
  if tot ≠ 0xF then
    [⟨pix_col.toNat % 2 ^ 16, pix_row.toNat % 2 ^ 16, (tot + 1).toNat % 2 ^ 16⟩]
  else []

def hitsOf (data : UInt32) : List FrontEndHit :=
  hitOf (pixRow data + 1) (pixCol data + 1) ((data >>> 0) &&& 0xF) ++
    hitOf (pixRow data + 1) (pixCol data + 1 + 1) ((data >>> 4) &&& 0xF) ++
    hitOf (pixRow data + 1) (pixCol data + 1 + 2) ((data >>> 8) &&& 0xF) ++
    hitOf (pixRow data + 1) (pixCol data + 1 + 3) ((data >>> 12) &&& 0xF)

/-- The tag of a header comes with the header itself. -/
def itemsOf (data : UInt32) : List Item :=
  if isHeader data then
    let l1id : UInt32 := (data >>> 20) &&& 0x1F
    let tag : UInt32 := (data >>> 15) &&& 0x1F
    let bcid : UInt32 := data &&& 0x7FFF
    [.trigger tag, .header l1id bcid ⟨tag.toNat, bcid.toNat⟩]
  else if isHit data then [.data (hitsOf data)]
  else []

def itemsRead (c : WordContainer) : List Item := c.data.flatten.flatMap itemsOf

def orphanTag : UInt32 := 666

theorem addHit_eq (curOut : FrontEndData) (pix_row pix_col tot : UInt32) :
    addHit curOut pix_row pix_col tot =
      (hitOf pix_row pix_col tot).foldlM FrontEndData.addHit curOut := by
  unfold addHit hitOf
  split
  · rw [List.foldlM_cons]
    cases FrontEndData.addHit curOut _ with
    | none => rfl
    | some curOut' => rfl
  · rfl

theorem processWord_eq (s : State) (data : UInt32) :
    processWord s data = decode orphanTag s (itemsOf data) := by
  by_cases hidle : data &&& 0xFFFF0000 = 0xFFFF0000
  · simp [processWord, itemsOf, isHeader, isHit, hidle, decode]
  by_cases hheader : (data >>> 25) &&& 0x1 = 0
  · have horphan : (if s.events = 0 then
        { s with
          curOut := s.curOut.newEvent 666 s.carried.l1id.toNat s.carried.bcid.toNat
          events := s.events + 1 }
        else s) = s.orphan orphanTag := rfl
    have hnotHeader : isHeader data = false := by simp [isHeader, hheader]
    by_cases hpixel : pixCol data < n_Col ∧ pixRow data < n_Row
    · have hhit : isHit data = true := by simp [isHit, hidle, hheader, hpixel]
      rw [itemsOf, if_neg (by simp [hnotHeader]), if_pos hhit, decode_data, hitsOf]
      have hcond := hpixel
      unfold pixCol pixRow at hcond
      unfold processWord
      simp only [horphan]
      rw [if_pos hidle, if_neg (not_not.mpr hheader), if_pos hcond]
      simp only [List.foldlM_append, ← addHit_eq, Option.bind_eq_bind, Option.map_bind]
      rfl
    · have hhit : isHit data = false := by simp [isHit, hpixel]
      rw [itemsOf, if_neg (by simp [hnotHeader]), if_neg (by simp [hhit])]
      unfold pixCol pixRow at hpixel
      unfold processWord
      rw [if_pos hidle, if_neg (not_not.mpr hheader)]
      simp only [if_neg hpixel]
      rfl
  · have hisHeader : isHeader data = true := by simp [isHeader, hidle, hheader]
    simp [processWord, itemsOf, hisHeader, hidle, hheader, decode, step, State.headed, Carried.next]

theorem processBuffers_eq (s : State) (data : List (List UInt32)) :
    data.foldlM (fun s (curIn : List UInt32) => curIn.foldlM processWord s) s =
      decode orphanTag s (data.flatten.flatMap itemsOf) := by
  have hword : processWord = fun s value => decode orphanTag s (itemsOf value) :=
    funext fun s => funext fun value => processWord_eq s value
  have hbuffer : ∀ (values : List UInt32) s, values.foldlM processWord s =
      decode orphanTag s (values.flatMap itemsOf) := by
    intro values
    induction values with
    | nil => exact fun _ => rfl
    | cons value values ih =>
        intro s
        rw [List.foldlM_cons, List.flatMap_cons, decode_append, processWord_eq]
        exact congrArg _ (funext ih)
  induction data generalizing s with
  | nil => rfl
  | cons values data ih =>
      rw [List.foldlM_cons, List.flatten_cons, List.flatMap_append, decode_append, hbuffer]
      exact congrArg _ (funext ih)

/-! ## The processor as a reading -/

theorem header_narrow (data : UInt32) :
    ((data >>> 20) &&& 0x1F).toNat < 2 ^ 16 ∧ (data &&& 0x7FFF).toNat < 2 ^ 16 := by
  constructor
  · have hand : ((data >>> 20) &&& 0x1F).toNat ≤ 0x1F := by
      rw [UInt32.toNat_and]
      exact Nat.and_le_right
    omega
  · have hand : (data &&& 0x7FFF).toNat ≤ 0x7FFF := by
      rw [UInt32.toNat_and]
      exact Nat.and_le_right
    omega

theorem tag_narrow (data : UInt32) : (data >>> 15) &&& 0x1F ≠ orphanTag := by
  intro h
  have hand : ((data >>> 15) &&& 0x1F).toNat ≤ 0x1F := by
    rw [UInt32.toNat_and]
    exact Nat.and_le_right
  rw [h] at hand
  exact absurd hand (by decide)

theorem mem_itemsOf {data : UInt32} {item : Item} (h : item ∈ itemsOf data) :
    (isHeader data = true ∧ (item = .trigger ((data >>> 15) &&& 0x1F) ∨
      item = .header ((data >>> 20) &&& 0x1F) (data &&& 0x7FFF)
        ⟨((data >>> 15) &&& 0x1F).toNat, (data &&& 0x7FFF).toNat⟩)) ∨
    (isHeader data = false ∧ isHit data = true ∧ item = .data (hitsOf data)) := by
  unfold itemsOf at h
  by_cases hheader : isHeader data = true
  · rw [if_pos hheader] at h
    exact Or.inl ⟨hheader, by simpa using h⟩
  · rw [if_neg hheader] at h
    by_cases hhit : isHit data = true
    · rw [if_pos hhit] at h
      exact Or.inr ⟨by simpa using hheader, hhit, by simpa using h⟩
    · rw [if_neg hhit] at h
      cases h

theorem item_narrow {data : UInt32} {item : Item} (h : item ∈ itemsOf data) :
    (∀ l1id bcid feedback, item = .header l1id bcid feedback →
      l1id.toNat < 2 ^ 16 ∧ bcid.toNat < 2 ^ 16) ∧
      (∀ t, item = .trigger t → t ≠ orphanTag) ∧ item ≠ .undefined := by
  rcases mem_itemsOf h with ⟨_, htrigger | hheader⟩ | ⟨_, _, hdata⟩
  · subst htrigger
    simp [tag_narrow]
  · subst hheader
    simpa using header_narrow data
  · subst hdata
    simp

theorem untagged_itemsOf (data : List UInt32) : untagged (data.flatMap itemsOf) = false := by
  induction data with
  | nil => rfl
  | cons value data ih =>
      rw [List.flatMap_cons, itemsOf]
      split
      · rfl
      · split
        · exact ih
        · exact ih

def reading : Reading Carried WordContainer where
  orphanTag := orphanTag
  fresh := fresh
  carried k := k
  stat := WordContainer.stat
  items _ c := itemsRead c
  next k c := (itemsRead c).foldl Carried.next k
  forwards c := c.size = 0 ∧ c.stat.is_end_of_iteration
  carried_next _ _ := rfl
  narrow_fresh := by decide
  narrow _ c l1id bcid feedback h := by
    obtain ⟨value, _, hvalue⟩ := List.mem_flatMap.mp h
    exact (item_narrow hvalue).1 l1id bcid feedback rfl
  tags _ c t h := by
    obtain ⟨value, _, hvalue⟩ := List.mem_flatMap.mp h
    exact (item_narrow hvalue).2.1 t rfl
  fresh_tag _ c h := by
    have huntagged : untagged (itemsRead c) = false := untagged_itemsOf c.data.flatten
    rw [huntagged] at h
    cases h

theorem process_core_eq : process_core = reading.consumer := by
  have htake : processContainer = reading.consumer.take := by
    funext k c
    rw [processContainer]
    by_cases hempty : c.size = 0 ∧ c.stat.is_end_of_iteration
    · have hdata : c.data = [] := List.eq_nil_of_length_eq_zero hempty.1
      rw [if_pos hempty]
      simp [Reading.consumer, reading, itemsRead, hdata, hempty, decode, State.start]
    · rw [if_neg hempty, processBuffers_eq]
      simp only [Reading.consumer, reading, itemsRead, hempty, decide_false, Bool.false_eq_true,
        false_or]
      cases hs : decode orphanTag (.start k c.stat) (c.data.flatten.flatMap itemsOf) with
      | none => rfl
      | some s =>
          simp only [Option.map_some, carried_decode hs]
          rfl
  rw [process_core, htake]
  rfl

end Yarr.Rd53.Rd53aDataProcessor
