import Yarr.Pixel.Containers
import Yarr.Star.StarChipPacket

/-!
# `StarProcessPacket`

The parser that hands every piece of a packet to a processor as soon as it has
read it. Nothing flows back from the processor, so that a run is the list of
the calls it makes.
-/

namespace Yarr.Star

inductive StarPacketType where
  | pr
  | lp
  | abc_rr
  | abc_transp
  | hcc_rr
  | abc_full
  | abc_hpr
  | hcc_hpr
  deriving DecidableEq, Repr

namespace StarPacketType

/-- The enumerator of a number below eight. -/
def ofCode (code : Nat) : StarPacketType :=
  [.pr, .lp, .abc_rr, .abc_transp, .hcc_rr, .abc_full, .abc_hpr, .hcc_hpr].getD code .pr

/-- `type_codes`: the header with its parity bit. -/
def header : StarPacketType → Nat
  | .pr => 1
  | .lp => 2
  | .abc_rr => 4
  | .abc_transp => 7
  | .hcc_rr => 8
  | .abc_full => 11
  | .abc_hpr => 13
  | .hcc_hpr => 14

end StarPacketType

/-- The calls that a processor receives. -/
inductive ProcCall where
  | begin
  | parse_error (message : String)
  | packet_type (type : StarPacketType)
  | begin_error_block
  | error_info (c m : Nat)
  | end_error_block
  | data_header (pr_not_lp : Bool) (bcid parity l0id flag : Nat)
  | data_no_cluster (ic : Nat)
  | data_raw_cluster (ic raw_cluster : Nat)
  | data_cluster (ic address next : Nat)
  | data_end
  | abc_read (hpr_not_rr : Bool) (ic address value status : Nat)
  | hcc_read (hpr_not_rr : Bool) (address value : Nat)
  | transparent_word (ic bits : Nat)
  | unexpected_type (type : StarPacketType)
  | end_
  deriving DecidableEq, Repr

/-- The calls made for a packet, or for a part of one, and the result: false after an error. -/
structure Processed where
  calls : List ProcCall
  result : Bool
  deriving DecidableEq, Repr

/-- Calls made before. -/
def Processed.prepend (calls : List ProcCall) (p : Processed) : Processed :=
  { p with calls := calls ++ p.calls }

def Processed.error (message : String) : Processed := ⟨[.parse_error message], false⟩

/-- The calls for an ordinary word of a physics packet. -/
def clusterCalls (word : Nat) : List ProcCall :=
  let raw_cluster := word &&& 0x7ff
  let input_channel := (word >>> 11) &&& 0xf
  if word &&& 0x8000 ≠ 0 then [.parse_error "Bad cluster, bit 15 set"]
  else [.data_raw_cluster input_channel raw_cluster,
    .data_cluster input_channel ((raw_cluster >>> 3) &&& 0xff) (raw_cluster &&& 0x7)]

/-- The calls for an error block whose six words follow its marker at `iW`. -/
def errorBlockCalls (b : List Nat) (iW : Nat) : Except Fault (List ProcCall) := do
  let error_word ← (List.range 6).foldlM (fun error_word i => do
    let w ← readAt b (iW + 1 + i)
    return error_word ||| (w <<< (8 * (5 - i)))) 0
  return [.error_info 0 ((error_word >>> 36) &&& 0x7ff), .error_info 1 ((error_word >>> 24) &&& 0x7ff),
    .error_info 2 ((error_word >>> 12) &&& 0x7ff), .error_info 3 ((error_word >>> 0) &&& 0x7ff),
    .end_error_block]

/-- The loop over the words of a physics packet; `iW` is the second byte of the next one. -/
def clusterLoop (b : List Nat) (iW : Nat) : Except Fault Processed :=
  if iW + 1 > b.length then .ok (.error "Reached end of words without the end pattern!")
  else
    match readAt b (iW - 1), readAt b iW with
    | .ok w0, .ok w1 =>
        let word := ((w0 <<< 8) ||| w1) % 2 ^ 16
        if word = 0x77f4 then
          if b.length < iW + 8 then
            .ok ⟨[.begin_error_block, .parse_error
              "Expect eight 8-bit error block words (including 0x77f4 marker)"], false⟩
          else
            match errorBlockCalls b iW with
            | .error f => .error f
            | .ok calls => (clusterLoop b (iW + 8)).map (.prepend (.begin_error_block :: calls))
        else if word = 0x6fed then .ok ⟨[.data_end, .end_], true⟩
        else if word &&& 0x7ff = 0x3fe then
          (clusterLoop b (iW + 2)).map (.prepend [.data_no_cluster ((word >>> 11) &&& 0xf)])
        else (clusterLoop b (iW + 2)).map (.prepend (clusterCalls word))
    | _, _ => .error .outOfBounds
termination_by b.length - iW

/-- An HCC register packet; the length must be exact. -/
def processHccRead (b : List Nat) (type : StarPacketType) : Except Fault Processed :=
  if b.length ≠ 6 then .ok (.error "Expect size 6 for HCC read packet")
  else do
    let b0 ← readAt b 0
    let b1 ← readAt b 1
    let b2 ← readAt b 2
    let b3 ← readAt b 3
    let b4 ← readAt b 4
    let b5 ← readAt b 5
    let address := ((b0 &&& 0xf) <<< 4) ||| ((b1 >>> 4) &&& 0xf)
    let value := ((b1 &&& 0xf) <<< 28) ||| ((b2 &&& 0xff) <<< 20) ||| ((b3 &&& 0xff) <<< 12) |||
      ((b4 &&& 0xff) <<< 4) ||| ((b5 >>> 4) &&& 0xf)
    return ⟨[.hcc_read (type == .hcc_hpr) address value, .end_], true⟩

/-- An ABC register packet; the length must be exact. -/
def processAbcRead (b : List Nat) (type : StarPacketType) : Except Fault Processed :=
  if b.length ≠ 9 then .ok (.error "Expect size 9 for ABC read packet")
  else do
    let b0 ← readAt b 0
    let b1 ← readAt b 1
    let b2 ← readAt b 2
    let b3 ← readAt b 3
    let b4 ← readAt b 4
    let b5 ← readAt b 5
    let b6 ← readAt b 6
    let b7 ← readAt b 7
    let b8 ← readAt b 8
    let value := ((b2 &&& 0xf) <<< 28) ||| ((b3 &&& 0xff) <<< 20) ||| ((b4 &&& 0xff) <<< 12) |||
      ((b5 &&& 0xff) <<< 4) ||| ((b6 &&& 0xf0) >>> 4)
    let abc_status := ((b6 &&& 0xf) <<< 12) ||| ((b7 &&& 0xff) <<< 4) ||| ((b8 &&& 0xf0) >>> 4)
    return ⟨[.abc_read (type == .abc_hpr) (b0 &&& 0xf) (b1 &&& 0xff) value abc_status, .end_], true⟩

/-- A physics packet: the header, then the loop. -/
def processPhysics (b : List Nat) (type : StarPacketType) : Except Fault Processed := do
  let b0 ← readAt b 0
  let b1 ← readAt b 1
  let flag := (b0 >>> 3) &&& 1
  let l0id := ((b0 &&& 0b111) <<< 4) ||| ((b1 >>> 4) &&& 0xf)
  let bcid := (b1 >>> 1) &&& 0x7
  let processed ← clusterLoop b 3
  return processed.prepend [.data_header (type == .pr) bcid (b1 &&& 0x1) l0id flag]

/-- One wrapped ABC packet. The nine bytes are read without a look at the length. -/
def processTransparent (b : List Nat) : Except Fault Processed := do
  let b0 ← readAt b 0
  let bits ← (List.range 8).foldlM (fun bits i => do
    let w ← readAt b (1 + i)
    return ((bits <<< 8) % 2 ^ 64) ||| w) 0
  return ⟨[.transparent_word (b0 &&& 0xf) bits, .end_], true⟩

/-- The switch over the packet types. -/
def processTyped (b : List Nat) (type : StarPacketType) : Except Fault Processed :=
  match type with
  | .hcc_rr | .hcc_hpr => processHccRead b type
  | .abc_rr | .abc_hpr => processAbcRead b type
  | .lp | .pr => processPhysics b type
  | .abc_transp => processTransparent b
  | .abc_full => .ok ⟨[.unexpected_type type, .end_], true⟩

def StarProcessPacket (b : List Nat) : Except Fault Processed :=
  if b.length < 4 then .ok (.prepend [.begin] (.error "Not enough words"))
  else do
    let b0 ← readAt b 0
    let raw_type := (b0 >>> 4) &&& 0xf
    let type := StarPacketType.ofCode ((raw_type &&& 0xe) >>> 1)
    if type.header ≠ raw_type then return .prepend [.begin] (.error "Bad packet type")
    else
      let processed ← processTyped b type
      return processed.prepend [.begin, .packet_type type]

end Yarr.Star

/-!
## `StarDataProcessor`

The two ways from a raw packet to events and feedback. `process_data` goes
through `StarChipPacket`, `process_data_template` gives the calls of
`StarProcessPacket` to `MyProc`.
-/

namespace Yarr.Star

open Pixel (FrontEndHit FrontEndData)

/-- What the processor reports about one packet. -/
structure FeedbackProcessingInfo where
  packet_size : Nat
  trigger_tag : Int
  bcid : Int
  n_clusters : Nat
  deriving DecidableEq, Repr

/-- `FeedbackProcessingInfo{.trigger_tag = PROCESSING_FEEDBACK_TRIGGER_TAG_ERROR}`. -/
def FeedbackProcessingInfo.initial : FeedbackProcessingInfo := ⟨0, -10, -1, 0⟩

def PROCESSING_FEEDBACK_TRIGGER_TAG_RR : Int := -2

def PROCESSING_FEEDBACK_TRIGGER_TAG_Control : Int := -3

/-- The histogram slot of each input channel; `HCC_INPUT_CHANNEL_BAD_SLOT` for none. -/
abbrev ChipMap := Fin MaxABCsPerHCC → Nat

def HCC_INPUT_CHANNEL_BAD_SLOT : Nat := 15

/-- Events of a container and the report on the packet at hand. -/
structure Decoded where
  curOut : FrontEndData
  curStatus : FeedbackProcessingInfo
  deriving DecidableEq

/-- `curOut.curEvent->addHit(row, col, tot)`, with the coordinates cut to 16 bits. -/
def addHit (d : FrontEndData) (row col tot : Nat) : Except Fault FrontEndData :=
  match d.addHit ⟨col % 2 ^ 16, row % 2 ^ 16, tot % 2 ^ 16⟩ with
  | some d => .ok d
  | none => .error .uninitialised

/-- The bytes of a buffer of 32-bit words, as they lie in memory. -/
def bytesOf (words : List Nat) : List Nat :=
  words.flatMap fun w => (List.range 4).map fun i => (w >>> (i * 8)) &&& 0xFF

/-- The hits of a cluster: its strip and those of the next three that its pattern names. -/
def addClusterHits (BASE : Nat) (chip_map : ChipMap) (input_channel address next : Nat)
    (d : FrontEndData) : Except Fault FrontEndData :=
  if h : input_channel < MaxABCsPerHCC then
    let histo_chip := chip_map ⟨input_channel, h⟩
    if histo_chip = HCC_INPUT_CHANNEL_BAD_SLOT then .ok d
    else do
      let row := ((address >>> 7) &&& 1) + BASE
      let histo_base := histo_chip * StripsPerABCRow
      let d ← addHit d row (histo_base + ((address &&& 0x7f) + BASE)) 1
      (List.range 3).foldlM (fun d i =>
        if next.testBit i then
          addHit d row (histo_base + (((address + (3 - i)) &&& 0x7f) + BASE)) 1
        else .ok d) d
  else .ok d

/-- The hits of one hit-counter register: four strips with up to 255 hits each. -/
def addCounterHits (BASE : Nat) (ic address value : Nat) (d : FrontEndData) :
    Except Fault FrontEndData :=
  (List.range 4).foldlM (fun d i =>
    let channel := (address - 0x80) * 4 + i
    let hits := (value >>> (8 * i)) &&& 0xff
    (List.range hits).foldlM (fun d _ => addHit d ((channel &&& 1) + 1)
      (ic * StripsPerABCRow + (((channel >>> 1) &&& 0x7f) + BASE)) 1) d) d

/-! ## `MyProc` -/

namespace MyProc

/-- One call of the processor. Calls that it inherits from `EmptyProc` do nothing. -/
def handle (BASE : Nat) (chip_map : ChipMap) (s : Decoded) : ProcCall → Except Fault Decoded
  | .data_header _ bcid _ l0id _ =>
      .ok { curOut := s.curOut.newEvent l0id l0id bcid
            curStatus := { s.curStatus with trigger_tag := l0id, bcid := bcid } }
  | .data_cluster ic address next =>
      let curStatus := { s.curStatus with n_clusters := s.curStatus.n_clusters + 1 }
      (addClusterHits BASE chip_map ic address next s.curOut).map fun curOut =>
        ⟨curOut, curStatus⟩
  | .hcc_read hpr_not_rr _ _ =>
      .ok { s with curStatus := { s.curStatus with
        trigger_tag := if hpr_not_rr then PROCESSING_FEEDBACK_TRIGGER_TAG_Control
          else PROCESSING_FEEDBACK_TRIGGER_TAG_RR } }
  | .abc_read hpr_not_rr ic address value _ =>
      let curStatus := { s.curStatus with
        trigger_tag := if hpr_not_rr then PROCESSING_FEEDBACK_TRIGGER_TAG_Control
          else PROCESSING_FEEDBACK_TRIGGER_TAG_RR }
      if address ≥ 0x80 ∧ address ≤ 0xbf then
        if value = 0 then .ok { s with curStatus := curStatus }
        else
          (addCounterHits BASE ic address value (s.curOut.newEvent 0 0 0)).map fun curOut =>
            ⟨curOut, curStatus⟩
      else .ok { s with curStatus := curStatus }
  | _ => .ok s

end MyProc

/-- The decoder that is chosen with `use_template`; `BASE` is zero with `zero_base`. -/
def process_data_template (BASE : Nat) (curIn : List Nat) (curOut : FrontEndData)
    (curStatus : FeedbackProcessingInfo) (chip_map : ChipMap) : Except Fault Decoded := do
  let processed ← StarProcessPacket (bytesOf curIn)
  processed.calls.foldlM (MyProc.handle BASE chip_map)
    ⟨curOut, { curStatus with packet_size := curIn.length }⟩

/-! ## `process_data` -/

/-- The events of a physics packet. -/
def physicsEvent (packet : StarChipPacket) (s : Decoded) (chip_map : ChipMap) :
    Except Fault Decoded :=
  let curStatus := { s.curStatus with
    trigger_tag := packet.l0id, n_clusters := packet.n_clusters, bcid := packet.bcid }
  if packet.n_clusters = 0 then .ok { s with curStatus := curStatus }
  else
    (packet.clusters.foldlM (fun d cluster =>
      addClusterHits 1 chip_map cluster.input_channel cluster.address cluster.next d)
      (s.curOut.newEvent packet.l0id packet.l0id packet.bcid)).map fun curOut => ⟨curOut, curStatus⟩

/-- The events of a register read: the counted hits, or the value split into a hit. -/
def registerEvent (packet : StarChipPacket) (s : Decoded) : Except Fault Decoded :=
  let curStatus := { s.curStatus with trigger_tag := PROCESSING_FEEDBACK_TRIGGER_TAG_RR }
  if packet.address ≥ 0x80 ∧ packet.address ≤ 0xbf then
    if packet.value = 0 then .ok { s with curStatus := curStatus }
    else
      (addCounterHits 1 packet.channel_abc packet.address packet.value
        (s.curOut.newEvent 0 0 0)).map fun curOut => ⟨curOut, curStatus⟩
  else
    let tot := 0x8000 ||| ((packet.type.code &&& 0x7) <<< 12) |||
      ((packet.address &&& 0xff) <<< 4) ||| (packet.channel_abc <<< 0)
    (addHit (s.curOut.newEvent 0xffffffff 0xffffffff 0xffffffff)
      ((packet.value >>> 16) &&& 0xffff) (packet.value &&& 0xffff) tot).map fun curOut =>
        ⟨curOut, curStatus⟩

/-- The packet with its words, between the two symbols that make the parser happy. -/
def packetOf (curIn : List Nat) : StarChipPacket :=
  let packet := StarChipPacket.empty.add_word 0x13C
  let packet := (bytesOf curIn).foldl StarChipPacket.add_word packet
  packet.add_word 0x1DC

def process_data (curIn : List Nat) (curOut : FrontEndData)
    (curStatus : FeedbackProcessingInfo) (chip_map : ChipMap) : Except Fault Decoded := do
  let s : Decoded := ⟨curOut, { curStatus with packet_size := curIn.length }⟩
  -- a packet that does not parse is decoded as far as it was read
  let (_, packet) ← (packetOf curIn).parse
  match packet.type with
  | .lp | .pr => physicsEvent packet s chip_map
  | .abc_rr | .hcc_rr => registerEvent packet s
  | .abc_hpr | .hcc_hpr =>
      return { s with curStatus := { s.curStatus with
        trigger_tag := PROCESSING_FEEDBACK_TRIGGER_TAG_Control } }
  | _ => return s

/-! ## Containers -/

/-- The decoders that a configuration can choose between. -/
abbrev ProcData :=
  List Nat → FrontEndData → FeedbackProcessingInfo → ChipMap → Except Fault Decoded

/-- `process_event_core`: the packets of a container, with a report on each. -/
def process_event_core (proc_data : ProcData) (chip_map : ChipMap) (curIn : List (List Nat))
    (stat : Pixel.LoopStatus) : Except Fault (FrontEndData × List FeedbackProcessingInfo) :=
  curIn.foldlM (fun (output, fbs) r => do
    let decoded ← proc_data r output .initial chip_map
    return (decoded.curOut, fbs ++ [decoded.curStatus])) (.ofStatus stat, [])

end Yarr.Star
