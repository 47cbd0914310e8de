import Mathlib.Algebra.Ring.Int.Defs
import Mathlib.Algebra.Ring.Nat

/-!
# Raw data and event containers

The values that pass through the clipboards of a pixel data processor: raw
64-bit blocks in containers on the input side, decoded events on the output
side. A block is two 32-bit words, as the processors read it through
`_data[0]` and `_data[1]`. Buffers hold whole blocks and at least one of them;
bookkeeping that no decoder reads (channel address, `nHits`, service records)
is left out.
-/

namespace Yarr.Pixel

/-- One 64-bit block: `_data[0]` and `_data[1]`. -/
structure Block where
  word0 : Nat
  word1 : Nat
  word0_lt : word0 < 2 ^ 32
  word1_lt : word1 < 2 ^ 32
  deriving DecidableEq

namespace Block

/-- A block from the two halves a sender puts on the link. -/
def ofWords (word0 word1 : Nat) : Block where
  word0 := word0 % 2 ^ 32
  word1 := word1 % 2 ^ 32
  word0_lt := Nat.mod_lt _ (Nat.two_pow_pos 32)
  word1_lt := Nat.mod_lt _ (Nat.two_pow_pos 32)

instance : Inhabited Block := ⟨ofWords 0 0⟩

/-- The top bit of a block: end of stream on ITkPixV2, new stream on RD53B. -/
def topBit (b : Block) : Bool := (b.word0 >>> 31) &&& 1 == 1

/-- The two chip-ID bits behind the top bit. -/
def chipIdBits (b : Block) : Nat := (b.word0 >>> 29) &&& 3

/-- The padding block a front-end sends when it has nothing to say. -/
def isFiller (b : Block) : Bool := b.word0 == 0xFFFFDEAD && b.word1 == 0xFFFFDEAD

end Block

/-! ## Input side -/

inductive LoopStyle where
  | data | trigger | mask | parameter | pixelFeedback | globalFeedback | triggerFeedback | nop
  deriving DecidableEq, Repr

/-- Position of a scan loop nest. `statVec` and `styleVec` hold the entries in use. -/
structure LoopStatus where
  statVec : List Nat
  styleVec : List LoopStyle
  is_end_of_iteration : Bool
  same_size : statVec.length = styleVec.length
  deriving DecidableEq

namespace LoopStatus

theorem same_size_nil : ([] : List Nat).length = ([] : List LoopStyle).length := rfl

def size (l : LoopStatus) : Nat := l.statVec.length

def get (l : LoopStatus) (i : Nat) : Nat := l.statVec.getD i 0

def getStyle (l : LoopStatus) (i : Nat) : LoopStyle := l.styleVec.getD i .nop

end LoopStatus

/-- One buffer of raw data in whole blocks. -/
structure RawData where
  blocks : List Block
  nonempty : blocks ≠ []
  deriving DecidableEq

namespace RawData

/-- Size in 32-bit words. -/
def getSize (d : RawData) : Nat := 2 * d.blocks.length

/-- The block that starts at 32-bit word `wordIdx`. -/
def get (d : RawData) (wordIdx : Int) : Block := d.blocks.getD (wordIdx.toNat / 2) default

end RawData

/-- Buffers that were read out together, under one loop status. -/
structure RawDataContainer where
  data : List RawData
  stat : LoopStatus
  deriving DecidableEq

namespace RawDataContainer

def size (c : RawDataContainer) : Nat := c.data.length

/-- Size in words of the buffer at `rawDataIdx`. -/
def sizeAt (c : RawDataContainer) (rawDataIdx : Int) : Int :=
  match c.data[rawDataIdx.toNat]? with
  | some d => d.getSize
  | none => 0

def blockAt (c : RawDataContainer) (rawDataIdx wordIdx : Int) : Block :=
  match c.data[rawDataIdx.toNat]? with
  | some d => d.get wordIdx
  | none => default

/-- All blocks of a container, buffer after buffer. -/
def blocks (c : RawDataContainer) : List Block := c.data.flatMap RawData.blocks

end RawDataContainer

/-! ## Output side -/

/-- A decoded pixel hit; all three fields are 16 bits wide. -/
structure FrontEndHit where
  col : Nat
  row : Nat
  tot : Nat
  deriving DecidableEq, Repr

structure FrontEndEvent where
  tag : Nat
  l1id : Nat
  bcid : Nat
  hits : List FrontEndHit
  deriving DecidableEq, Repr

def FrontEndEvent.addHit (e : FrontEndEvent) (h : FrontEndHit) : FrontEndEvent :=
  { e with hits := e.hits ++ [h] }

/-- A container of events. The source's `curEvent` points to the last event and is not
initialised before the first one. -/
structure FrontEndData where
  lStat : LoopStatus
  events : List FrontEndEvent
  deriving DecidableEq

namespace FrontEndData

/-- `FrontEndData(const LoopStatus& l)`. -/
def ofStatus (l : LoopStatus) : FrontEndData := ⟨l, []⟩

/-- `tag` is kept in 32 bits, the two counters in 16 bits. -/
def newEvent (d : FrontEndData) (tag l1id bcid : Nat) : FrontEndData :=
  { d with events := d.events ++ [⟨tag % 2 ^ 32, l1id % 2 ^ 16, bcid % 2 ^ 16, []⟩] }

def curEvent (d : FrontEndData) : Option FrontEndEvent := d.events.getLast?

/-- `curEvent->addHit(hit)`, undefined while there is no event. -/
def addHit (d : FrontEndData) (hit : FrontEndHit) : Option FrontEndData :=
  d.curEvent.map fun e => { d with events := d.events.dropLast ++ [e.addHit hit] }

end FrontEndData

/-- What a processor tells the feedback clipboard about each event header. -/
structure FeedbackProcessingInfo where
  trigger_tag : Nat
  bcid : Nat
  deriving DecidableEq, Repr

/-- Reading memory through a pointer that does not point anywhere, or shifting a machine
word by its width or more: the source defines no result. -/
inductive Fault where
  | nullPointer
  | uninitialised
  | shiftWidth
  deriving DecidableEq, Repr

end Yarr.Pixel

/-!
## Walking through the raw data blocks

`getNextDataBlock`, `getNextDataBlockImpl` and `getPreviousDataBlock` are the
same text in the ITkPixV2 and the RD53B data processor and appear here once.
The position is the pair `_rawDataIdx`, `_wordIdx`; it is negative after a step
back into the previous container, whose last block survives in `_data_pre` only.
Moving forward over the end of a container also pushes the events decoded from
it, so the output side travels along. A reader carries the proof that its
position lies inside the container it points into.
-/

namespace Yarr.Pixel

/-- The decoder settings that `init` derives from the chip configuration. -/
structure DecoderConfig where
  isCompressedHitmap : Bool
  dropToT : Bool
  enChipId : Bool
  chipId : Nat
  enBcid : Bool
  enL1id : Bool
  deriving DecidableEq, Repr

namespace DecoderConfig

/-- `init()`: the register values `DataEnRaw`, `DataEnBinaryRo`, `EnChipId`, the chip ID and,
on ITkPixV2 only, `DataEnBcid` and `DataEnL1id`. -/
def init (dataEnRaw dataEnBinaryRo enChipId chipId dataEnBcid dataEnL1id : Nat) :
    DecoderConfig where
  isCompressedHitmap := dataEnRaw == 0
  dropToT := dataEnBinaryRo == 1
  enChipId := enChipId == 1
  chipId := chipId &&& 3
  enBcid := dataEnBcid == 1
  enL1id := dataEnL1id == 1

def chipIdShift (cfg : DecoderConfig) : Nat := if cfg.enChipId then 2 else 0

def streamMask (cfg : DecoderConfig) : Nat := if cfg.enChipId then 0x1FFFFFFF else 0x7FFFFFFF

def readBcL1 (cfg : DecoderConfig) : Bool := cfg.enBcid || cfg.enL1id

/-- Blocks both search loops pass over: fillers and blocks of another chip. -/
def skips (cfg : DecoderConfig) (b : Block) : Bool :=
  b.isFiller || (b.chipIdBits != cfg.chipId && cfg.enChipId)

end DecoderConfig

/-- The output clipboard `m_out`, the container under construction and its event count. -/
structure Output where
  pushed : List FrontEndData
  curOut : Option FrontEndData
  events : Nat
  deriving DecidableEq

namespace Output

/-- `m_out->pushData(std::move(_curOut))`; the clipboard ignores a null pointer. -/
def pushCurOut (o : Output) : Output :=
  { o with pushed := o.pushed ++ o.curOut.toList, curOut := none }

/-- The end of a container that held data. -/
def finishContainer (o : Output) (stat : LoopStatus) : Output :=
  if o.events > 0 then
    { o.pushCurOut with events := 0, curOut := some (.ofStatus stat) }
  else
    { o with curOut := none }

/-- An empty container that carries the end-of-iteration marker. -/
def endOfIteration (o : Output) (stat : LoopStatus) : Output :=
  let o := o.pushCurOut
  { o with curOut := some (.ofStatus stat) }.pushCurOut

/-- The start of a container that holds data. -/
def startContainer (o : Output) (stat : LoopStatus) : Output :=
  match o.curOut with
  | some _ => o
  | none => { o with curOut := some (.ofStatus stat), events := 0 }

end Output

/-! ## The position, as the source keeps it -/

structure RawReader where
  input : List RawDataContainer
  curInV : Option RawDataContainer
  rawDataIdx : Int
  wordIdx : Int
  data : Option Block
  dataPre : Block
  deriving DecidableEq

namespace RawReader

/-- The block that stands in for `_data` while it is null. -/
def fakeErrorFrame : Block := Block.ofWords 0xFF800000 0x00000000

/-- The index step at the head of `getNextDataBlockImpl`, with its range guard. -/
def moveForward (r : RawReader) (c : RawDataContainer) : RawReader :=
  let wordIdx := r.wordIdx + 2
  let rawDataIdx := if r.rawDataIdx ≥ c.size then (c.size : Int) else r.rawDataIdx
  if rawDataIdx < c.size ∧ wordIdx ≥ c.sizeAt rawDataIdx then
    { r with rawDataIdx := rawDataIdx + 1, wordIdx := 0 }
  else
    { r with rawDataIdx := rawDataIdx, wordIdx := wordIdx }

/-- `m_input->popData()` and what follows from its result. -/
def popContainer (r : RawReader) (o : Output) : Option Block × RawReader × Output :=
  match r.input with
  | [] => (none, { r with curInV := none, rawDataIdx := 0, wordIdx := 0 }, o)
  | c :: rest =>
      let r := { r with input := rest, curInV := some c, rawDataIdx := 0, wordIdx := 0 }
      if c.size = 0 then
        (none, r, if c.stat.is_end_of_iteration then o.endOfIteration c.stat else o)
      else
        (some (c.blockAt 0 0), r, o.startContainer c.stat)

/-- The returned block is `_data_t`; there is none when the method returns false. -/
def getNextDataBlockImpl (r : RawReader) (o : Output) : Option Block × RawReader × Output :=
  match r.curInV with
  | none => r.popContainer o
  | some c =>
      if c.size = 0 then
        r.popContainer o
      else if r.rawDataIdx < 0 then
        (some (c.blockAt 0 0), { r with rawDataIdx := 0, wordIdx := 0 }, o)
      else
        let r := r.moveForward c
        if r.rawDataIdx ≥ c.size then
          r.popContainer (o.finishContainer c.stat)
        else
          (some (c.blockAt r.rawDataIdx r.wordIdx), r, o)

/-- Blocks the reader can still meet, an upper bound for both search loops. -/
def blockCount (r : RawReader) : Nat :=
  ((r.curInV.toList ++ r.input).map fun c => c.blocks.length).sum

/-- The search loop of `getNextDataBlock`. -/
def skipForward (cfg : DecoderConfig) :
    Nat → Option Block × RawReader × Output → Option Block × RawReader × Output
  | fuel + 1, (some b, r, o) =>
      if cfg.skips b then skipForward cfg fuel (r.getNextDataBlockImpl o) else (some b, r, o)
  | _, found => found

def getNextDataBlock (cfg : DecoderConfig) (r : RawReader) (o : Output) :
    Bool × RawReader × Output :=
  let r := { r with dataPre := r.data.getD fakeErrorFrame }
  match skipForward cfg r.blockCount (r.getNextDataBlockImpl o) with
  | (some b, r, o) => (true, { r with data := some b }, o)
  | (none, r, o) => (false, r, o)

/-- The search loop of `getPreviousDataBlock`. -/
def skipBackward (cfg : DecoderConfig) : Nat → RawReader → RawReader
  | 0, r => r
  | fuel + 1, r =>
      let wordIdx := r.wordIdx - 2
      let rawDataIdx := if wordIdx < 0 then r.rawDataIdx - 1 else r.rawDataIdx
      if wordIdx < 0 ∧ rawDataIdx < 0 then
        { r with rawDataIdx := rawDataIdx, wordIdx := wordIdx, data := some r.dataPre }
      else
        match r.curInV with
        | none => r -- never: without a container both indices are at most zero
        | some c =>
            let wordIdx := if wordIdx < 0 then c.sizeAt rawDataIdx - 2 else wordIdx
            let b := c.blockAt rawDataIdx wordIdx
            let r := { r with rawDataIdx := rawDataIdx, wordIdx := wordIdx, data := some b }
            if cfg.skips b then skipBackward cfg fuel r else r

def getPreviousDataBlock (cfg : DecoderConfig) (r : RawReader) : RawReader :=
  skipBackward cfg (r.blockCount + 1) r

end RawReader

end Yarr.Pixel
