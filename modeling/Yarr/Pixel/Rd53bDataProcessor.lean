import Yarr.Pixel.Decoder

/-!
# `Rd53bDataProcessor`

The RD53B stream marks its first block with the top bit (NS), so that the end
of a stream is only seen in the block behind it. There is no BCID and no L1 ID
in the data.
-/

namespace Yarr.Pixel.Rd53bDataProcessor

open Run Decoder

variable {ρ : Type} [BlockReader ρ]

/-- A field that ends at the end of its block or beyond it. -/
def readOn (cfg : DecoderConfig) (value length : Nat) (checkEOS skipNSCheck : Bool)
    (s : Decoder ρ) : Except Fault (Retrieved ρ) :=
  let found := s.nextBlock
  if found.1 then
    let s := found.2
    let past := s.bitIdx + length + cfg.chipIdShift - 63
    match BlockReader.data s.reader with
    | none => .error .nullPointer
    | some d =>
        if d.topBit && checkEOS then
          .ok { ok := true, value := 0, state := { s.previousBlock with bitIdx := 64 } }
        else if d.topBit && (skipNSCheck || s.bitIdx + length == 64) then
          .ok { ok := true, value := value, state := { s with bitIdx := past } }
        else if d.topBit then
          let c := s.counters
          .ok { ok := false
                value := value
                state := { s.previousBlock with
                  status := .init
                  counters := { c with unfinishedStreamErrorCnt := c.unfinishedStreamErrorCnt + 1 } } }
        else
          (d.overflow cfg s.bitIdx length).map fun bits =>
            { ok := true, value := value ||| bits, state := { s with bitIdx := past } }
  else
    .ok { ok := false, value := value, state := found.2.previousBlock }

def retrieve (cfg : DecoderConfig) : Retrieve ρ := fun value length checkEOS skipNSCheck s =>
  if length = 0 then .ok { ok := true, value := value, state := s }
  else
    match BlockReader.data s.reader with
    | none => .error .nullPointer
    | some d =>
        if checkEOS && d.topBit && s.bitIdx == 1 then
          .ok { ok := true, value := 0, state := { s.previousBlock with bitIdx := 64 } }
        else if s.bitIdx + length < 64 then
          .ok { ok := true
                value := d.field s.bitIdx length
                state := { s with bitIdx := s.bitIdx + length } }
        else if length + s.bitIdx - 64 ≥ 64 then .error .shiftWidth
        else readOn cfg (d.rest s.bitIdx <<< (length + s.bitIdx - 64)) length checkEOS skipNSCheck s

def ccolLabel (cfg : DecoderConfig) (s : Decoder ρ) : Outcome Fault (Decoder ρ) :=
  withField (retrieve cfg s.ccol 6 true false s) (fun v s => { s with ccol := v })
    fun _ s => .cont { s with status := .ccc }

/-- The header block of a stream: the tag, the position behind it and the event. -/
def newStream (cfg : DecoderConfig) (d : Block) (s : Decoder ρ) : Outcome Fault (Decoder ρ) :=
  header { s with tag := d.tagBits cfg, bitIdx := 9 + cfg.chipIdShift } .ccol

def expectNewStream (s : Decoder ρ) : Decoder ρ :=
  { s with counters := { s.counters with
      expectNewStreamErrorCnt := s.counters.expectNewStreamErrorCnt + 1 } }

/-- The end of a stream, found as core column zero. -/
def endOfStream (cfg : DecoderConfig) (s : Decoder ρ) : Outcome Fault (Decoder ρ) :=
  let found := s.nextBlock
  if found.1 then
    match BlockReader.data found.2.reader with
    | none => .fault .nullPointer
    | some d =>
        if d.topBit then newStream cfg d found.2 else .cont (expectNewStream found.2)
  else .ret found.2

/-- `CCC`: the end of the stream, an internal tag or a core column. -/
def ccc (cfg : DecoderConfig) (s : Decoder ρ) : Outcome Fault (Decoder ρ) :=
  if s.ccol = 0 then endOfStream cfg s
  else if s.ccol ≥ 55 then
    withField (retrieve cfg 0 5 false false s) (fun _ s => s) fun temp s =>
      header { s with tag := (s.ccol <<< 5) ||| temp } .ccol
  else .cont { s with status := .ilin }

/-- The head of `process_core`; the first event of a stream is made here. -/
def enter (cfg : DecoderConfig) (s : Decoder ρ) : Outcome Fault (Decoder ρ) :=
  if BlockReader.inputEmpty s.reader then .ret s
  else if s.status = .init then
    let found := s.nextBlock
    if found.1 then
      match BlockReader.data found.2.reader with
      | none => .fault .nullPointer
      | some d =>
          if d.topBit then newStream cfg d found.2 else .ret (expectNewStream found.2)
    else .ret found.2
  else .cont s

/-- One label of the loop in `process_core`. This processor has no `BCIDL1`. -/
def step (cfg : DecoderConfig) (s : Decoder ρ) : Outcome Fault (Decoder ρ) :=
  match s.status with
  | .init | .bcidl1 => ccolLabel cfg { s with status := .ccol }
  | .ccol => ccolLabel cfg s
  | .ccc => ccc cfg s
  | .ilin => ilin (retrieve cfg) s
  | .qrow => qrowLabel (retrieve cfg) s
  | .hmap1 => hmap1 (retrieve cfg) s
  | .hmap2 => hmap2 cfg (retrieve cfg) s
  | .tot => totLabel cfg (retrieve cfg) false s

def processCore (cfg : DecoderConfig) : Coroutine Fault (Decoder ρ) where
  enter := enter cfg
  step := step cfg

end Yarr.Pixel.Rd53bDataProcessor
