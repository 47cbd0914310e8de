import Mathlib.Logic.Function.Basic

/-!
# Readout of the FIFO

The words of the FIFO are sorted by channel into buffers that survive between the
calls. Whether a buffer holds a user-K frame or data is decided by its first word
and the number of its words.
-/

namespace Yarr.Bdaq

/-- What is pushed to the output: fillers, register records, and pairs of payloads. -/
inductive Item where
  | filler
  | record (Address Data : UInt16)
  | data (dataWord : UInt32)
deriving DecidableEq

/-- The words of an item in the output. -/
def Item.words : Item → List UInt32
  | .filler => [0xFFFF0000]
  | .record Address Data =>
      [0x55000000, (Address.toUInt32 &&& 0x3FF) <<< 16 ||| (Data.toUInt32 &&& 0xFFFF)]
  | .data dataWord => [dataWord]

structure Chunk where
  adr : UInt32
  items : List Item
deriving DecidableEq

/-- The buffer of the `RawData`. -/
def Chunk.buf (chunk : Chunk) : List UInt32 := chunk.items.flatMap Item.words

inductive ChipType where
  | RD53A
  | ItkPixV1
deriving DecidableEq

/-- The program ends at words of a TLU or a TDC. -/
inductive Exit where
  | unsupported

/-! ## Words -/

def TLU (word : UInt32) : Bool := word &&& 0xF0000000 == 0x80000000

def checkTDC (word : UInt32) : Bool :=
  word &&& 0xF0000000 == 0x10000000 || word &&& 0xF0000000 == 0x20000000 ||
    word &&& 0xF0000000 == 0x30000000 || word &&& 0xF0000000 == 0x40000000

def userK (word : UInt32) : Bool := word &&& 0x0F000000 == 0x01000000

/-- The Aurora channel of a word. -/
def rxIdentifier (word : UInt32) : UInt32 := (word >>> 20) &&& 0xF

def payload (word : UInt32) : UInt32 := word &&& 0xFFFF

/-! ## User-K frames -/

structure UserkData where
  ChipID : UInt8
  AuroraKWord : UInt8
  Status : UInt8
  Data1 : UInt16
  Data1_AddrFlag : UInt16
  Data1_Addr : UInt16
  Data1_Data : UInt16
  Data0 : UInt16
  Data0_AddrFlag : UInt16
  Data0_Addr : UInt16
  Data0_Data : UInt16

def interpretUserkFrame_RD53A (userkWordA userkWordB : UInt64) : UserkData :=
  let userkWordA := (userkWordB &&& 0x3) <<< 32 ||| userkWordA
  let userkBlock := userkWordB >>> 2
  let Data1 := userkBlock &&& 0x7FFFFFF
  let Data0 := (userkWordA >>> 8) &&& 0x7FFFFFF
  { ChipID := 0
    AuroraKWord := (userkWordA &&& 0xFF).toUInt8
    Status := ((userkBlock >>> 30) &&& 0xF).toUInt8
    Data1 := Data1.toUInt16
    Data1_AddrFlag := ((Data1 >>> 25) &&& 0x1).toUInt16
    Data1_Addr := ((Data1 >>> 16) &&& 0x1FF).toUInt16
    Data1_Data := (Data1 &&& 0xFFFF).toUInt16
    Data0 := Data0.toUInt16
    Data0_AddrFlag := ((Data0 >>> 25) &&& 0x1).toUInt16
    Data0_Addr := ((Data0 >>> 16) &&& 0x1FF).toUInt16
    Data0_Data := (Data0 &&& 0xFFFF).toUInt16 }

def interpretUserkFrame_RD53B (userkWordA userkWordB : UInt64) : UserkData :=
  let Data1 := (userkWordB >>> 34) &&& 0x7FFFFFF
  let Data0 := (userkWordB >>> 8) &&& 0x7FFFFFF
  { ChipID := ((userkWordA >>> 14) &&& 0x3).toUInt8
    AuroraKWord := (userkWordB &&& 0xFF).toUInt8
    Status := ((userkWordA >>> 12) &&& 0x3).toUInt8
    Data1 := Data1.toUInt16
    Data1_AddrFlag := ((Data1 >>> 25) &&& 0x1).toUInt16
    Data1_Addr := ((Data1 >>> 16) &&& 0x1FF).toUInt16
    Data1_Data := (Data1 &&& 0xFFFF).toUInt16
    Data0 := Data0.toUInt16
    Data0_AddrFlag := ((Data0 >>> 25) &&& 0x1).toUInt16
    Data0_Addr := ((Data0 >>> 16) &&& 0x1FF).toUInt16
    Data0_Data := (Data0 &&& 0xFFFF).toUInt16 }

structure RegData where
  Address : UInt16
  Data : UInt16
deriving DecidableEq

/-- The registers of a frame; the functions for the two chips are the same. -/
def getRegData (u : UserkData) : List RegData :=
  if u.AuroraKWord = 0 then [⟨u.Data1_Addr, u.Data1⟩, ⟨u.Data0_Addr, u.Data0⟩]
  else if u.AuroraKWord = 1 then [⟨u.Data1_Addr, u.Data1⟩]
  else if u.AuroraKWord = 2 then [⟨u.Data0_Addr, u.Data0⟩]
  else []

/-- The registers of the frame that four words make up. -/
def frameRegData (chipType : ChipType) (w₁ w₂ w₃ w₄ : UInt32) : List RegData :=
  match chipType with
  | .RD53A =>
      getRegData (interpretUserkFrame_RD53A (payload w₁ <<< 16 ||| payload w₂).toUInt64
        (payload w₃ <<< 16 ||| payload w₄).toUInt64)
  | .ItkPixV1 =>
      let userk_word := (w₁ &&& 0x0FFF).toUInt64
      let userk_word := userk_word <<< 16 ||| (payload w₂).toUInt64
      let userk_word := userk_word <<< 16 ||| (payload w₃).toUInt64
      let userk_word := userk_word <<< 16 ||| (payload w₄).toUInt64
      getRegData (interpretUserkFrame_RD53B w₁.toUInt64 userk_word)

def RegData.item (reg : RegData) : Item := .record reg.Address reg.Data

/-! ## Sorting -/

/-- A buffer and the output made from it. -/
structure Sorted where
  buffer : List UInt32
  output : List Item
deriving DecidableEq

/-- Each register clears the output and the buffer. -/
def pushRegData (regData : List RegData) (s : Sorted) : Sorted :=
  regData.foldl (fun _ reg => ⟨[], [reg.item]⟩) s

/-- Two payloads after the other, while there are two words. -/
def buildPairs : List UInt32 → List Item → Sorted
  | hi :: lo :: rest, output =>
      buildPairs rest (output ++ [.data (payload hi <<< 16 ||| payload lo)])
  | rest, output => ⟨rest, output⟩

def sortRD53A : List UInt32 → List Item → Sorted
  | [], _ => ⟨[], [.filler]⟩
  | [word], _ => ⟨[word], [.filler]⟩
  | w₁ :: w₂ :: w₃ :: w₄ :: rest, output =>
      if userK w₁ then pushRegData (frameRegData .RD53A w₁ w₂ w₃ w₄) ⟨rest, output⟩
      else buildPairs (w₁ :: w₂ :: w₃ :: w₄ :: rest) []
  | buffer, _ => buildPairs buffer []

/-- Four words at a time, while there are any. A frame with registers clears the buffer. -/
def userkFrames : List UInt32 → List Item → Sorted
  | w₁ :: w₂ :: w₃ :: w₄ :: rest, output =>
      match frameRegData .ItkPixV1 w₁ w₂ w₃ w₄ with
      | [] => userkFrames rest output
      | reg :: regData => pushRegData (reg :: regData) ⟨rest, output⟩
  | _, output => ⟨[], output⟩

/-- Four payloads at a time. -/
def buildQuads : List UInt32 → List Item → Sorted
  | HiOne :: LoOne :: HiTwo :: LoTwo :: rest, output =>
      buildQuads rest (output ++ [.data (payload HiOne <<< 16 ||| payload LoOne),
        .data (payload HiTwo <<< 16 ||| payload LoTwo)])
  | rest, output => ⟨rest, output⟩

def sortItkPixV1 : List UInt32 → List Item → Sorted
  | w₁ :: w₂ :: w₃ :: w₄ :: rest, output =>
      if userK w₁ then userkFrames (w₁ :: w₂ :: w₃ :: w₄ :: rest) output
      else buildQuads (w₁ :: w₂ :: w₃ :: w₄ :: rest) output
  | buffer, output => ⟨buffer, output⟩

def sort : ChipType → List UInt32 → List Item → Sorted
  | .RD53A => sortRD53A
  | .ItkPixV1 => sortItkPixV1

/-! ## The core -/

structure BdaqRxCore where
  chipType : ChipType
  activeChannels : List UInt32
  dataMap : UInt32 → Option (List UInt32)
  dataMap_copy : UInt32 → List Item

namespace BdaqRxCore

def new (chipType : ChipType) (activeChannels : List UInt32) : BdaqRxCore :=
  ⟨chipType, activeChannels, fun _ => none, fun _ => []⟩

variable (rx : BdaqRxCore)

/-- A word goes to every active channel with its identifier. -/
def pushWord (word : UInt32) : BdaqRxCore :=
  { rx with dataMap := rx.activeChannels.foldl (fun dataMap channelId =>
      if rxIdentifier word = channelId then
        Function.update dataMap channelId (some ((dataMap channelId).getD [] ++ [word]))
      else dataMap) rx.dataMap }

def pushWords : List UInt32 → BdaqRxCore → Except Exit BdaqRxCore
  | [], rx => .ok rx
  | word :: inBuf, rx =>
      if TLU word || checkTDC word then .error .unsupported else pushWords inBuf (rx.pushWord word)

/-- The loop over the buffers; each concerns its own channel only. -/
def sortAll : BdaqRxCore :=
  { rx with
    dataMap := fun channel =>
      (rx.dataMap channel).map fun buffer =>
        (sort rx.chipType buffer (rx.dataMap_copy channel)).buffer
    dataMap_copy := fun channel =>
      match rx.dataMap channel with
      | some buffer => (sort rx.chipType buffer (rx.dataMap_copy channel)).output
      | none => rx.dataMap_copy channel }

/-- The outputs of the active channels; for the second chip type only where there is one. -/
def collect (chipType : ChipType) : List UInt32 → (UInt32 → List Item) → List Chunk
  | [], _ => []
  | channelId :: channels, copy =>
      let rest := collect chipType channels (Function.update copy channelId [])
      if chipType = .ItkPixV1 ∧ copy channelId = [] then rest
      else ⟨channelId, copy channelId⟩ :: rest

/-- What is left of the outputs. -/
def leftOutputs : BdaqRxCore :=
  { rx with dataMap_copy := fun channel =>
      match rx.chipType with
      | .RD53A => if channel ∈ rx.activeChannels then [] else rx.dataMap_copy channel
      | .ItkPixV1 => [] }

def readData (inBuf : List UInt32) : Except Exit (List Chunk × BdaqRxCore) :=
  match inBuf with
  | [] => .ok ([], rx)
  | _ => (pushWords inBuf rx).map fun rx =>
      let rx := rx.sortAll
      (collect rx.chipType rx.activeChannels rx.dataMap_copy, rx.leftOutputs)

/-- What the calls have delivered, and the core after them. -/
structure Readout where
  delivered : List Chunk
  rx : BdaqRxCore

def call (r : Readout) (inBuf : List UInt32) : Except Exit Readout :=
  (r.rx.readData inBuf).map fun result => ⟨r.delivered ++ result.1, result.2⟩

def run (fifos : List (List UInt32)) : Except Exit Readout := fifos.foldlM call ⟨[], rx⟩

end BdaqRxCore

end Yarr.Bdaq
