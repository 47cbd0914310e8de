import Yarr.Core.Run
import Yarr.Pixel.Cursor
import Yarr.Pixel.TreeCode

/-!
# The common part of the pixel decoders

`Itkpixv2DataProcessor` and `Rd53bDataProcessor` are one state machine with the
same fields, the same labels from `ILIN` to `TOT` and the same `rollBack`; they
differ in `retrieve`, in the headers of a stream and in one guard. A label of
the source's `switch` is one function here. It is entered with `_status` equal
to its own name, and leaves the name of the label behind it where the source
falls through. A `return` inside a label is a `ret`, and the next call resumes
at the stored label.
-/

namespace Yarr.Pixel

open Run

inductive Status where
  | init | bcidl1 | ccol | ccc | ilin | qrow | hmap1 | hmap2 | tot
  deriving DecidableEq, Repr

/-- The counters that `getLog` reports. -/
structure Counters where
  chipTagBitFlipCnt : Nat
  chipTagErrorCnt : Nat
  unfinishedStreamErrorCnt : Nat
  unfinishedStreamEOSErrorCnt : Nat
  corruptStreamErrorCnt : Nat
  expectNewStreamErrorCnt : Nat
  splitEventsCnt : Nat
  deriving DecidableEq, Repr

/-- The members of a processor. `statusFb` is `none` where no feedback clipboard is
connected; `qrow` has one entry for each core column. -/
structure Decoder (ρ : Type) where
  reader : ρ
  output : Output
  statusFb : Option (List FeedbackProcessingInfo)
  status : Status
  tag : Nat
  l1id : Nat
  bcid : Nat
  bitIdx : Nat
  ccol : Nat
  qrow : Nat → Nat
  islast_isneighbor : Nat
  hitmap : Nat
  ToT : Nat
  maskLoopIndex : Nat
  checkMaskLoopIndex : Bool
  counters : Counters

/-- What one call of `retrieve` does: its result, its reference argument and the state. -/
structure Retrieved (ρ : Type) where
  ok : Bool
  value : Nat
  state : Decoder ρ

/-- `retrieve(variable, length, checkEOS, skipNSCheck)`. -/
abbrev Retrieve (ρ : Type) := Nat → Nat → Bool → Bool → Decoder ρ → Except Fault (Retrieved ρ)

/-! ## Bits of a block -/

namespace Block

def word (b : Block) (i : Nat) : Nat := if i = 0 then b.word0 else b.word1

/-- A field that lies in one block. -/
def field (b : Block) (bitIdx length : Nat) : Nat :=
  if bitIdx + length ≤ 32 ∨ bitIdx ≥ 32 then
    (b.word (bitIdx / 32) &&& (0xFFFFFFFF >>> (bitIdx - ((bitIdx >>> 5) <<< 5)))) >>>
      ((((bitIdx >>> 5) + 1) <<< 5) - length - bitIdx)
  else
    ((b.word0 &&& (0xFFFFFFFF >>> bitIdx)) <<< (length + bitIdx - 32)) |||
      (b.word1 >>> (64 - length - bitIdx))

/-- The bits of a block from `bitIdx` on. -/
def rest (b : Block) (bitIdx : Nat) : Nat :=
  if bitIdx < 32 then
    ((b.word0 &&& (0xFFFFFFFF >>> bitIdx)) <<< 32) ||| b.word1
  else
    b.word1 &&& (0xFFFFFFFF >>> (bitIdx - 32))

/-- The part of a field that overflows into this block. The shift counts are unsigned, so
that a negative one is far beyond the width of a word. -/
def overflow (cfg : DecoderConfig) (b : Block) (bitIdx length : Nat) : Except Fault Nat :=
  if bitIdx + length < 96 then
    if bitIdx + length + cfg.chipIdShift ≤ 95 then
      .ok ((b.word0 &&& cfg.streamMask) >>> (95 - (bitIdx + length) - cfg.chipIdShift))
    else .error .shiftWidth
  else if 95 + cfg.chipIdShift ≤ bitIdx + length ∧ bitIdx + length + cfg.chipIdShift ≤ 127 then
    .ok (((b.word0 &&& cfg.streamMask) <<< (bitIdx + length - 95 - cfg.chipIdShift)) |||
      (b.word1 >>> (127 - (length + bitIdx) - cfg.chipIdShift)))
  else .error .shiftWidth

/-- The eight tag bits of a header block. -/
def tagBits (cfg : DecoderConfig) (b : Block) : Nat := (b.word0 >>> (23 - cfg.chipIdShift)) &&& 0xFF

end Block

namespace Decoder

variable {ρ : Type} [BlockReader ρ]

/-- A freshly constructed and initialised processor around its reader. -/
def initial (reader : ρ) (statusFb : Option (List FeedbackProcessingInfo)) : Decoder ρ where
  reader := reader
  output := { pushed := [], curOut := none, events := 0 }
  statusFb := statusFb
  status := .init
  tag := 666
  l1id := 666
  bcid := 666
  bitIdx := 0
  ccol := 0
  qrow := fun _ => 0
  islast_isneighbor := 0
  hitmap := 0
  ToT := 0
  maskLoopIndex := 0
  checkMaskLoopIndex := true
  counters := ⟨0, 0, 0, 0, 0, 0, 0⟩

/-! ## Moving through the stream -/

/-- `getNextDataBlock()` on the members of the processor. -/
def nextBlock (s : Decoder ρ) : Bool × Decoder ρ :=
  let found := BlockReader.getNextDataBlock s.reader s.output
  (found.1, { s with reader := found.2.1, output := found.2.2 })

def previousBlock (s : Decoder ρ) : Decoder ρ :=
  { s with reader := BlockReader.getPreviousDataBlock s.reader }

/-- `rollBack(length)`. `63 - length - _chipIdShift` is unsigned: where it wraps around, adding
it to the index wraps back. -/
def rollBack (cfg : DecoderConfig) (length : Nat) (s : Decoder ρ) : Decoder ρ :=
  if length = 0 then s
  else if s.bitIdx ≥ length + 1 + cfg.chipIdShift then
    { s with bitIdx := s.bitIdx - length }
  else
    { s with bitIdx := s.bitIdx + 63 - length - cfg.chipIdShift }.previousBlock

/-- A label that cannot go on before `retrieve` succeeds. -/
def withField (found : Except Fault (Retrieved ρ)) (store : Nat → Decoder ρ → Decoder ρ)
    (next : Nat → Decoder ρ → Outcome Fault (Decoder ρ)) : Outcome Fault (Decoder ρ) :=
  match found with
  | .error f => .fault f
  | .ok r =>
      if r.ok then next r.value (store r.value r.state)
      else .ret (store r.value r.state)

/-! ## Events -/

/-- `if (!_curOut) …; _curOut->newEvent(_tag, _l1id, _bcid); _events++`. -/
def startEvent (s : Decoder ρ) : Except Fault (Decoder ρ) :=
  let withContainer (d : FrontEndData) : Decoder ρ :=
    { s with output := { s.output with
        curOut := some (d.newEvent s.tag s.l1id s.bcid), events := s.output.events + 1 } }
  match s.output.curOut with
  | some d => .ok (withContainer d)
  | none =>
      match BlockReader.stat s.reader with
      | some stat => .ok (withContainer (.ofStatus stat))
      | none => .error .nullPointer

def sendFeedback (s : Decoder ρ) : Decoder ρ :=
  { s with statusFb := s.statusFb.map fun fb => fb ++ [⟨s.tag, s.bcid⟩] }

/-- The event of a header, and the feedback about it. -/
def header (s : Decoder ρ) (next : Status) : Outcome Fault (Decoder ρ) :=
  match s.startEvent with
  | .error f => .fault f
  | .ok s => .cont { s.sendFeedback with status := next }

/-- An event that continues in a new output container is split there. -/
def splitEvent (s : Decoder ρ) : Except Fault (Decoder ρ) :=
  if s.output.events = 0 then
    s.startEvent.map fun s =>
      { s with counters := { s.counters with splitEventsCnt := s.counters.splitEventsCnt + 1 } }
  else .ok s

/-- `_curOut->curEvent->addHit(hit)`. -/
def addHit (s : Decoder ρ) (hit : FrontEndHit) : Except Fault (Decoder ρ) :=
  match s.output.curOut with
  | none => .error .nullPointer
  | some d =>
      match d.addHit hit with
      | none => .error .uninitialised
      | some d => .ok { s with output := { s.output with curOut := some d } }

/-- The read of `_curOut->curEvent->hits` before the hits of a quarter core are added. With
`guarded` it only happens after `_events > 0` was seen. -/
def touchCurEvent (guarded : Bool) (s : Decoder ρ) : Except Fault (Decoder ρ) :=
  if (guarded && s.output.events == 0) || TreeCode.plainHMapToColRowArrSize s.hitmap == 0 then
    .ok s
  else
    match s.output.curOut with
    | none => .error .nullPointer
    | some d => if d.events.isEmpty then .error .uninitialised else .ok s

/-! ## Hits of a quarter core -/

/-- Column, row and ToT of hit number `ihit` of the map, all truncated to 16 bits. -/
def pixelHit (s : Decoder ρ) (colRow : Nat × Nat) (ihit : Nat) : FrontEndHit where
  col := ((s.ccol - 1) * 8 + colRow.1 + 1) % 2 ^ 16
  row := (s.qrow s.ccol * 2 + colRow.2 + 1) % 2 ^ 16
  tot := ((s.ToT >>> (ihit <<< 2)) &&& 0xF) + 1

def pixelHits (s : Decoder ρ) : List FrontEndHit :=
  (TreeCode.plainHMapToColRow s.hitmap).zipIdx.map fun (colRow, ihit) => s.pixelHit colRow ihit

def addPixelHits (s : Decoder ρ) : Except Fault (Decoder ρ) :=
  s.pixelHits.foldlM (fun s hit => s.splitEvent.bind fun s => s.addHit hit) s

/-- `PToT_maskStaging`. -/
def ptotMaskStaging : List (List Nat) := [[0, 1, 2, 3], [4, 5, 6, 7], [2, 3, 0, 1], [6, 7, 4, 5]]

/-- The 16 bits of one precision-ToT bus: nibbles that were not sent read `0b1111`. The
second component is the running index `idx` of the nibbles used. -/
def ptotWord (ToT size hitsub idx : Nat) : Nat × Nat :=
  (List.range 4).foldl (fun (buf, idx) iread =>
    if (hitsub >>> iread) &&& 1 = 1 then
      let nibble := (ToT >>> ((size - (idx + 1)) <<< 2)) &&& 0xF
      (buf &&& (0xFFFF ^^^ ((0xF ^^^ nibble) <<< (iread <<< 2))), idx + 1)
    else (buf, idx)) (0xFFFF, idx)

/-- The search for the mask loop, done once. -/
def findMaskLoop (s : Decoder ρ) : Decoder ρ :=
  if s.checkMaskLoopIndex then
    match s.output.curOut with
    | none => s
    | some d =>
        match (List.range d.lStat.size).find? fun loop => d.lStat.getStyle loop == .mask with
        | some loop => { s with maskLoopIndex := loop, checkMaskLoopIndex := false }
        | none => s
  else s

/-- The hit of one bus: its address comes from the mask stage, its 16 bits from `word`. -/
def ptotHit (s : Decoder ρ) (word ibus : Nat) : FrontEndHit :=
  let step := (s.output.curOut.map fun d => d.lStat.get s.maskLoopIndex).getD 0
  { col := ((s.ccol - 1) * 8 + (ptotMaskStaging.getD (step % 4) []).getD ibus 0 + 1) % 2 ^ 16
    row := (step / 2 + 1) % 2 ^ 16
    tot := (word &&& 0x7FF) ||| ((word >>> 11) <<< 11) }

/-- One bus of a precision-ToT quarter core, with the running index of the nibbles. -/
def addPToTBus (p : Decoder ρ × Nat) (ibus : Nat) : Except Fault (Decoder ρ × Nat) :=
  let s := p.1
  let hitsub := (s.hitmap >>> (ibus <<< 2)) &&& 0xF
  if hitsub = 0 then .ok p
  else
    let word := ptotWord s.ToT (TreeCode.plainHMapToColRowArrSize s.hitmap) hitsub p.2
    s.splitEvent.bind fun s =>
      (s.findMaskLoop.addHit (s.findMaskLoop.ptotHit word.1 ibus)).map fun s => (s, word.2)

def addPToTHits (s : Decoder ρ) : Except Fault (Decoder ρ) :=
  ((List.range 4).foldlM addPToTBus (s, 0)).map Prod.fst

/-! ## Labels -/

/-- `ILIN`. -/
def ilin (retrieve : Retrieve ρ) (s : Decoder ρ) : Outcome Fault (Decoder ρ) :=
  withField (retrieve s.islast_isneighbor 2 false false s)
    (fun v s => { s with islast_isneighbor := v })
    fun _ s => .cont { s with status := .qrow }

/-- `QROW`: a neighbour is the next quarter row, anything else brings its address. -/
def qrowLabel (retrieve : Retrieve ρ) (s : Decoder ρ) : Outcome Fault (Decoder ρ) :=
  if s.islast_isneighbor &&& 1 = 1 then
    .cont { s with qrow := Function.update s.qrow s.ccol ((s.qrow s.ccol + 1) % 2 ^ 16),
                   status := .hmap1 }
  else
    withField (retrieve 0 8 false false s) (fun _ s => s)
      fun v s => .cont { s with qrow := Function.update s.qrow s.ccol (v % 2 ^ 16),
                                status := .hmap1 }

/-- `HMAP1`. -/
def hmap1 (retrieve : Retrieve ρ) (s : Decoder ρ) : Outcome Fault (Decoder ρ) :=
  withField (retrieve s.hitmap 16 false true s) (fun v s => { s with hitmap := v })
    fun _ s => .cont { s with status := .hmap2 }

/-- `HMAP2`: the table translates `_hitmap` in place, before the bits of a second row that
did not fit are asked for. -/
def hmap2 (cfg : DecoderConfig) (retrieve : Retrieve ρ) (s : Decoder ρ) :
    Outcome Fault (Decoder ρ) :=
  if cfg.isCompressedHitmap then
    let entry := TreeCode.lutBinaryTreeHitMap (s.hitmap % 2 ^ 16)
    let s := { s with hitmap := entry.map }
    if entry.rollBackRow > 0 then
      let s := if entry.rollBackRow ≠ 0xff then s.rollBack cfg entry.rollBackRow else s
      withField (retrieve 0 14 false true s) (fun _ s => s) fun rowMap s =>
        let row := TreeCode.lutBinaryTreeRowHMap rowMap
        let s := { s with hitmap := s.hitmap ||| (row.map <<< 8) }
        .cont { s.rollBack cfg row.rollBack with status := .tot }
    else
      .cont { s.rollBack cfg entry.rollBack with status := .tot }
  else
    .cont { s with status := .tot }

/-- The end of a quarter core: the next one, or the next core column after the last. -/
def endQuarterCore (found : Except Fault (Decoder ρ)) : Outcome Fault (Decoder ρ) :=
  match found with
  | .error f => .fault f
  | .ok s => .cont { s with status := if s.islast_isneighbor &&& 2 = 0 then .ilin else .ccol }

/-- Quarter row 196 marks precision ToT, unless it was reached through a neighbour. -/
def isPToT (s : Decoder ρ) : Bool := s.qrow s.ccol == 196 && s.islast_isneighbor &&& 1 == 0

/-- `TOT`. -/
def totLabel (cfg : DecoderConfig) (retrieve : Retrieve ρ) (guarded : Bool) (s : Decoder ρ) :
    Outcome Fault (Decoder ρ) :=
  let length := TreeCode.plainHMapToColRowArrSize s.hitmap <<< 2
  if s.isPToT then
    withField (retrieve s.ToT length false false s) (fun v s => { s with ToT := v })
      fun _ s => endQuarterCore ((s.touchCurEvent guarded).bind addPToTHits)
  else if cfg.dropToT then
    endQuarterCore ((s.touchCurEvent guarded).bind addPixelHits)
  else
    withField (retrieve s.ToT length false false s) (fun v s => { s with ToT := v })
      fun _ s => endQuarterCore ((s.touchCurEvent guarded).bind addPixelHits)

end Decoder

end Yarr.Pixel
