import Yarr.Pixel.Decoder

/-!
# `Itkpixv2DataProcessor`

The ITkPixV2 stream marks its last block with the top bit (ES). `retrieve`
refuses to read over the end of a stream, unless the caller announced an
overdraft or looks for the end itself.
-/

namespace Yarr.Pixel.Itkpixv2DataProcessor

open Run Decoder

variable {ρ : Type} [BlockReader ρ]

/-- The rest of a field lies in the next block, if there is one. -/
def readOn (cfg : DecoderConfig) (value length : Nat) (s : Decoder ρ) :
    Except Fault (Retrieved ρ) :=
  let found := s.nextBlock
  if found.1 then
    match BlockReader.data found.2.reader with
    | none => .error .nullPointer
    | some d =>
        (d.overflow cfg found.2.bitIdx length).map fun bits =>
          { ok := true
            value := value ||| bits
            state := { found.2 with bitIdx := found.2.bitIdx + length + cfg.chipIdShift - 63 } }
  else
    .ok { ok := false, value := value, state := found.2.previousBlock }

def retrieve (cfg : DecoderConfig) : Retrieve ρ := fun value length checkEOS skipNSCheck s =>
  if length = 0 then .ok { ok := true, value := value, state := s }
  else
    match BlockReader.data s.reader with
    | none => .error .nullPointer
    | some d =>
        if s.bitIdx + length ≤ 64 then
          .ok { ok := true
                value := d.field s.bitIdx length
                state := { s with bitIdx := s.bitIdx + length } }
        else if length + s.bitIdx - 64 ≥ 64 then .error .shiftWidth
        else
          let value := d.rest s.bitIdx <<< (length + s.bitIdx - 64)
          if d.topBit && checkEOS then
            let c := s.counters
            .ok { ok := true
                  value := 0
                  state := { s with
                    bitIdx := 64
                    counters := if value = 0 then c else
                      { c with unfinishedStreamEOSErrorCnt := c.unfinishedStreamEOSErrorCnt + 1 } } }
          else if d.topBit && !skipNSCheck then
            let c := s.counters
            .ok { ok := false
                  value := value
                  state := { s with
                    status := .init
                    counters :=
                      { c with unfinishedStreamErrorCnt := c.unfinishedStreamErrorCnt + 1 } } }
          else readOn cfg value length s

/-- `BCIDL1`. -/
def bcidl1 (cfg : DecoderConfig) (s : Decoder ρ) : Outcome Fault (Decoder ρ) :=
  if cfg.readBcL1 then
    withField (retrieve cfg 0 16 true false s) (fun _ s => s) fun temp s =>
      if cfg.enBcid && cfg.enL1id then
        header { s with bcid := temp >>> 8, l1id := temp &&& 0xFF } .ccol
      else if cfg.enBcid then header { s with bcid := temp } .ccol
      else header { s with l1id := temp } .ccol
  else header s .ccol

/-- `CCOL`. -/
def ccolLabel (cfg : DecoderConfig) (s : Decoder ρ) : Outcome Fault (Decoder ρ) :=
  withField (retrieve cfg s.ccol 6 true false s) (fun v s => { s with ccol := v })
    fun _ s => .cont { s with status := .ccc }

/-- Tags 216 to 223 report errors of the trigger symbol. -/
def countTagError (s : Decoder ρ) : Decoder ρ :=
  if s.tag >>> 3 = 27 then
    if s.tag >>> 2 = 54 then
      { s with counters := { s.counters with
          chipTagBitFlipCnt := s.counters.chipTagBitFlipCnt + 1 } }
    else
      { s with counters := { s.counters with
          chipTagErrorCnt := s.counters.chipTagErrorCnt + 1 } }
  else s

/-- The header block of a stream: the tag, and the position behind it. -/
def readTag (cfg : DecoderConfig) (d : Block) (s : Decoder ρ) : Decoder ρ :=
  { s with tag := d.tagBits cfg, bitIdx := 9 + cfg.chipIdShift }

/-- Core column zero in a block without the end-of-stream bit. -/
def countCorrupt (d : Block) (s : Decoder ρ) : Decoder ρ :=
  if d.topBit then s
  else
    { s with counters := { s.counters with
        corruptStreamErrorCnt := s.counters.corruptStreamErrorCnt + 1 } }

/-- The end of a stream, found as core column zero. -/
def endOfStream (cfg : DecoderConfig) (s : Decoder ρ) : Outcome Fault (Decoder ρ) :=
  match BlockReader.data s.reader with
  | none => .fault .nullPointer
  | some d =>
      let found := (countCorrupt d s).nextBlock
      if found.1 then
        match BlockReader.data found.2.reader with
        | none => .fault .nullPointer
        | some d => .cont { countTagError (readTag cfg d found.2) with status := .bcidl1 }
      else .ret found.2.previousBlock

/-- `CCC`: the end of the stream, an internal tag or a core column. -/
def ccc (cfg : DecoderConfig) (s : Decoder ρ) : Outcome Fault (Decoder ρ) :=
  if s.ccol = 0 then endOfStream cfg s
  else if s.ccol ≥ 55 then
    withField (retrieve cfg 0 5 true false s) (fun _ s => s) fun temp s =>
      .cont { s with tag := (s.ccol <<< 5) ||| temp, status := .bcidl1 }
  else .cont { s with status := .ilin }

/-- The head of `process_core`. -/
def enter (cfg : DecoderConfig) (s : Decoder ρ) : Outcome Fault (Decoder ρ) :=
  if BlockReader.inputEmpty s.reader then .ret s
  else if s.status = .init then
    let found := s.nextBlock
    if found.1 then
      match BlockReader.data found.2.reader with
      | none => .fault .nullPointer
      | some d => .cont (readTag cfg d found.2)
    else .ret found.2
  else .cont s

/-- One label of the loop in `process_core`. -/
def step (cfg : DecoderConfig) (s : Decoder ρ) : Outcome Fault (Decoder ρ) :=
  match s.status with
  | .init => bcidl1 cfg { s with status := .bcidl1 }
  | .bcidl1 => bcidl1 cfg s
  | .ccol => ccolLabel cfg s
  | .ccc => ccc cfg s
  | .ilin => ilin (retrieve cfg) s
  | .qrow => qrowLabel (retrieve cfg) s
  | .hmap1 => hmap1 (retrieve cfg) s
  | .hmap2 => hmap2 cfg (retrieve cfg) s
  | .tot => totLabel cfg (retrieve cfg) true s

def processCore (cfg : DecoderConfig) : Coroutine Fault (Decoder ρ) where
  enter := enter cfg
  step := step cfg

end Yarr.Pixel.Itkpixv2DataProcessor
