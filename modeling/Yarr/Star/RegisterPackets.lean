import Yarr.Star.PhysicsDecoding
import Yarr.Star.StarPackets

/-!
# Decoding register packets

The packets of register reads and of high-priority reads have nine or six
bytes, so that they never fill their last word. `process_data` reads every
field of them; `process_data_template` asks for the exact length.
-/

namespace Yarr.Star

open Pixel (FrontEndHit FrontEndData)

/-- The report on a packet whose kind alone was understood. -/
def readInfo (size : Nat) (hpr : Bool) : FeedbackProcessingInfo :=
  { FeedbackProcessingInfo.initial with
    packet_size := size
    trigger_tag := if hpr then PROCESSING_FEEDBACK_TRIGGER_TAG_Control
      else PROCESSING_FEEDBACK_TRIGGER_TAG_RR }

theorem low_nibble (high : Nat) {low : Nat} (h : low < 16) : (high * 16 + low) &&& 0xF = low := by
  rw [Bits.and_mask 0xF 4 rfl]
  omega

theorem high_nibble {high low : Nat} (hh : high < 16) (h : low < 16) :
    ((high * 16 + low) &&& 0xF0) >>> 4 = high := by
  rw [Bits.mask_shiftRight 0xF0 4 4 rfl]
  omega

theorem shifted_nibble {high low : Nat} (hh : high < 16) (h : low < 16) :
    ((high * 16 + low) >>> 4) &&& 0xF = high := by
  rw [Bits.shiftRight_mask 0xF 4 rfl]
  omega

theorem whole_byte {n : Nat} (h : n < 256) : n &&& 0xFF = n := by
  rw [Bits.and_mask 0xFF 8 rfl]
  omega

theorem cut_byte (n : Nat) : (n % 256) &&& 0xFF = n % 256 :=
  whole_byte (Nat.mod_lt n (by decide))

/-! ## `process_data` -/

namespace StarChipPacket

theorem parse_data_ABC_read_words {p : StarChipPacket} {w : Fin 9 → Nat}
    (hlen : (p.raw_words.length - 2) / 4 = 3) (hw : ∀ i : Fin 9, p.word (i.val + 1) = .ok (w i)) :
    p.parse_data_ABC_read = .ok (0, { p with
      channel_abc := w 0 &&& 0xF
      address := w 1 &&& 0xFF
      value := ((w 2 &&& 0xF) <<< 28) ||| ((w 3 &&& 0xFF) <<< 20) ||| ((w 4 &&& 0xFF) <<< 12) |||
        ((w 5 &&& 0xFF) <<< 4) ||| ((w 6 &&& 0xF0) >>> 4)
      abc_status := ((w 6 &&& 0xF) <<< 12) ||| ((w 7 &&& 0xFF) <<< 4) |||
        ((w 8 &&& 0xF0) >>> 4) }) := by
  have hgood : ¬ (p.raw_words.length ≠ 11 ∧ (p.raw_words.length - 2) / 4 ≠ 3) :=
    fun hbad => hbad.2 hlen
  have h0 : p.word 1 = .ok (w 0) := hw 0
  have h1 : p.word 2 = .ok (w 1) := hw 1
  have h2 : p.word 3 = .ok (w 2) := hw 2
  have h3 : p.word 4 = .ok (w 3) := hw 3
  have h4 : p.word 5 = .ok (w 4) := hw 4
  have h5 : p.word 6 = .ok (w 5) := hw 5
  have h6 : p.word 7 = .ok (w 6) := hw 6
  have h7 : p.word 8 = .ok (w 7) := hw 7
  have h8 : p.word 9 = .ok (w 8) := hw 8
  unfold parse_data_ABC_read
  rw [if_neg hgood, h0, h1, h2, h3, h4, h5, h6, h7, h8]
  rfl

theorem parse_data_HCC_read_words {p : StarChipPacket} {w : Fin 6 → Nat}
    (hlen : (p.raw_words.length - 2) / 4 = 2) (hw : ∀ i : Fin 6, p.word (i.val + 1) = .ok (w i)) :
    p.parse_data_HCC_read = .ok (0, { p with
      address := ((w 0 &&& 0xF) <<< 4) ||| ((w 1 >>> 4) &&& 0xF)
      value := ((w 1 &&& 0xF) <<< 28) ||| ((w 2 &&& 0xFF) <<< 20) ||| ((w 3 &&& 0xFF) <<< 12) |||
        ((w 4 &&& 0xFF) <<< 4) ||| ((w 5 >>> 4) &&& 0xF) }) := by
  have hgood : ¬ (p.raw_words.length ≠ 8 ∧ (p.raw_words.length - 2) / 4 ≠ 2) :=
    fun hbad => hbad.2 hlen
  have h0 : p.word 1 = .ok (w 0) := hw 0
  have h1 : p.word 2 = .ok (w 1) := hw 1
  have h2 : p.word 3 = .ok (w 2) := hw 2
  have h3 : p.word 4 = .ok (w 3) := hw 3
  have h4 : p.word 5 = .ok (w 4) := hw 4
  have h5 : p.word 6 = .ok (w 5) := hw 5
  unfold parse_data_HCC_read
  rw [if_neg hgood, h0, h1, h2, h3, h4, h5]
  rfl

end StarChipPacket

/-- The header of a register packet, and the type it stands for. -/
def abcCode (hpr : Bool) : Nat := if hpr then 13 else 4

def abcType (hpr : Bool) : PacketType := if hpr then .abc_hpr else .abc_rr

def hccCode (hpr : Bool) : Nat := if hpr then 14 else 8

def hccType (hpr : Bool) : PacketType := if hpr then .hcc_hpr else .hcc_rr

theorem abcCode_lt (hpr : Bool) : abcCode hpr < 16 := by
  cases hpr <;> decide

theorem hccCode_lt (hpr : Bool) : hccCode hpr < 16 := by
  cases hpr <;> decide

/-- The words of an ABC register packet. -/
def abcWords (hpr : Bool) (channel tbd : Fin 16) (address : Fin 256) (value : Fin (2 ^ 32))
    (status : Fin (2 ^ 16)) : List Nat :=
  [abcCode hpr * 16 + channel.val, address.val, tbd.val * 16 + value.val / 2 ^ 28,
    value.val / 2 ^ 20 % 256, value.val / 2 ^ 12 % 256, value.val / 2 ^ 4 % 256,
    value.val % 16 * 16 + status.val / 2 ^ 12, status.val / 2 ^ 4 % 256,
    status.val % 16 * 16 + 0]

theorem bytes_abcRead (hpr : Bool) (channel tbd : Fin 16) (address : Fin 256)
    (value : Fin (2 ^ 32)) (status : Fin (2 ^ 16)) :
    (Packet.abcRead hpr channel tbd address value status).bytes =
      abcWords hpr channel tbd address value status := by
  cases hpr <;> rfl

theorem parse_abcRead {curIn : List Nat} {hpr : Bool} {channel tbd : Fin 16} {address : Fin 256}
    {value : Fin (2 ^ 32)} {status : Fin (2 ^ 16)}
    (hd : Delivers curIn (.abcRead hpr channel tbd address value status)) :
    (packetOf curIn).parse = .ok (0, { StarChipPacket.typed (bytesOf curIn) (abcType hpr) with
      channel_abc := channel.val
      address := address.val
      value := value.val
      abc_status := status.val }) := by
  obtain ⟨pad, hbytes, hpad, hlen⟩ := hd.eq_append
  rw [bytes_abcRead] at hbytes hlen
  have hnine : (abcWords hpr channel tbd address value status).length = 9 := rfl
  have hraw : (bytesOf curIn).length = 12 := by
    rw [hbytes, List.length_append]
    omega
  have htype : packet_type_headers (((abcCode hpr * 16 + channel.val) >>> 4) &&& 0xF) =
      some (abcType hpr) := by
    rw [shifted_nibble (abcCode_lt hpr) channel.isLt]
    cases hpr <;> rfl
  have hread := @StarChipPacket.parse_data_ABC_read_words
    (StarChipPacket.typed (bytesOf curIn) (abcType hpr))
    (fun i => (abcWords hpr channel tbd address value status)[i])
    (by simp [StarChipPacket.typed, hraw])
    (by
      intro i
      refine StarChipPacket.word_typed _ ?_
      rw [hbytes, List.getElem?_append_left (by omega)]
      exact List.getElem?_eq_getElem _)
  have hfields : (packetOf curIn).parse =
      (StarChipPacket.typed (bytesOf curIn) (abcType hpr)).parse_data_ABC_read := by
    rw [StarChipPacket.parse_packetOf hbytes rfl (by rw [List.length_append]; omega) htype,
      ← hbytes]
    cases hpr <;> rfl
  have hchannel := low_nibble (abcCode hpr) channel.isLt
  have haddress := whole_byte address.isLt
  have hstatus : status.val / 2 ^ 12 < 16 := by omega
  have hnibble : value.val % 16 < 16 := by omega
  have hvalue : ((abcWords hpr channel tbd address value status)[2] &&& 0xF) <<< 28 |||
      ((abcWords hpr channel tbd address value status)[3] &&& 0xFF) <<< 20 |||
      ((abcWords hpr channel tbd address value status)[4] &&& 0xFF) <<< 12 |||
      ((abcWords hpr channel tbd address value status)[5] &&& 0xFF) <<< 4 |||
      ((abcWords hpr channel tbd address value status)[6] &&& 0xF0) >>> 4 = value.val := by
    have hread := read_value value.val
    simp only [abcWords, List.getElem_cons_succ, List.getElem_cons_zero, cut_byte]
    rw [low_nibble _ (by omega), high_nibble hnibble hstatus]
    exact hread
  have hstat : ((abcWords hpr channel tbd address value status)[6] &&& 0xF) <<< 12 |||
      ((abcWords hpr channel tbd address value status)[7] &&& 0xFF) <<< 4 |||
      ((abcWords hpr channel tbd address value status)[8] &&& 0xF0) >>> 4 = status.val := by
    have hread := read_status status.val
    simp only [abcWords, List.getElem_cons_succ, List.getElem_cons_zero, cut_byte]
    rw [low_nibble _ hstatus, high_nibble (Nat.mod_lt _ (by decide)) (by decide)]
    exact hread
  rw [hfields, hread]
  congr 3

/-- The words of an HCC register packet. -/
def hccWords (hpr : Bool) (address : Fin 256) (value : Fin (2 ^ 32)) : List Nat :=
  [hccCode hpr * 16 + address.val / 16, address.val % 16 * 16 + value.val / 2 ^ 28,
    value.val / 2 ^ 20 % 256, value.val / 2 ^ 12 % 256, value.val / 2 ^ 4 % 256,
    value.val % 16 * 16 + 0]

theorem bytes_hccRead (hpr : Bool) (address : Fin 256) (value : Fin (2 ^ 32)) :
    (Packet.hccRead hpr address value).bytes = hccWords hpr address value := by
  cases hpr <;> rfl

theorem parse_hccRead {curIn : List Nat} {hpr : Bool} {address : Fin 256} {value : Fin (2 ^ 32)}
    (hd : Delivers curIn (.hccRead hpr address value)) :
    (packetOf curIn).parse = .ok (0, { StarChipPacket.typed (bytesOf curIn) (hccType hpr) with
      address := address.val
      value := value.val }) := by
  obtain ⟨pad, hbytes, hpad, hlen⟩ := hd.eq_append
  rw [bytes_hccRead] at hbytes hlen
  have hsix : (hccWords hpr address value).length = 6 := rfl
  have hraw : (bytesOf curIn).length = 8 := by
    rw [hbytes, List.length_append]
    omega
  have haddress : address.val / 16 < 16 := by omega
  have hnibble : value.val % 16 < 16 := by omega
  have htop : value.val / 2 ^ 28 < 16 := by omega
  have htype : packet_type_headers (((hccCode hpr * 16 + address.val / 16) >>> 4) &&& 0xF) =
      some (hccType hpr) := by
    rw [shifted_nibble (hccCode_lt hpr) haddress]
    cases hpr <;> rfl
  have hread := @StarChipPacket.parse_data_HCC_read_words
    (StarChipPacket.typed (bytesOf curIn) (hccType hpr))
    (fun i => (hccWords hpr address value)[i])
    (by simp [StarChipPacket.typed, hraw])
    (by
      intro i
      refine StarChipPacket.word_typed _ ?_
      rw [hbytes, List.getElem?_append_left (by omega)]
      exact List.getElem?_eq_getElem _)
  have hfields : (packetOf curIn).parse =
      (StarChipPacket.typed (bytesOf curIn) (hccType hpr)).parse_data_HCC_read := by
    rw [StarChipPacket.parse_packetOf hbytes rfl (by rw [List.length_append]; omega) htype,
      ← hbytes]
    cases hpr <;> rfl
  have haddr : ((hccWords hpr address value)[0] &&& 0xF) <<< 4 |||
      ((hccWords hpr address value)[1] >>> 4) &&& 0xF = address.val := by
    simp only [hccWords, List.getElem_cons_succ, List.getElem_cons_zero]
    have hlow : address.val % 16 < 2 ^ 4 := Nat.mod_lt _ (by decide)
    rw [low_nibble _ haddress, shifted_nibble hlow htop, Bits.shiftLeft_or _ hlow]
    omega
  have hvalue : ((hccWords hpr address value)[1] &&& 0xF) <<< 28 |||
      ((hccWords hpr address value)[2] &&& 0xFF) <<< 20 |||
      ((hccWords hpr address value)[3] &&& 0xFF) <<< 12 |||
      ((hccWords hpr address value)[4] &&& 0xFF) <<< 4 |||
      ((hccWords hpr address value)[5] >>> 4) &&& 0xF = value.val := by
    have hread := read_value value.val
    simp only [hccWords, List.getElem_cons_succ, List.getElem_cons_zero, cut_byte]
    rw [low_nibble _ htop, shifted_nibble hnibble (by decide)]
    exact hread
  rw [hfields, hread]
  congr 3

theorem registerEvent_isOk (q : StarChipPacket) (s : Decoded) :
    ∃ curOut, registerEvent q s = .ok ⟨curOut,
      { s.curStatus with trigger_tag := PROCESSING_FEEDBACK_TRIGGER_TAG_RR }⟩ := by
  unfold registerEvent
  split
  · split
    · exact ⟨s.curOut, rfl⟩
    · rw [addCounterHits_eq _ _ _ _ _ (newEvent_events_ne_nil _ _ _ _)]
      exact ⟨_, rfl⟩
  · simp only [addHit_eq (newEvent_events_ne_nil _ _ _ _)]
    exact ⟨_, rfl⟩

/-- `process_data` understands the kind of a register packet. -/
theorem process_data_abcRead {curIn : List Nat} {hpr : Bool} {channel tbd : Fin 16}
    {address : Fin 256} {value : Fin (2 ^ 32)} {status : Fin (2 ^ 16)}
    (hd : Delivers curIn (.abcRead hpr channel tbd address value status))
    (curOut : FrontEndData) (chip_map : ChipMap) :
    ∃ d, process_data curIn curOut .initial chip_map = .ok ⟨d, readInfo curIn.length hpr⟩ := by
  unfold process_data
  rw [parse_abcRead hd]
  cases hpr with
  | false => exact registerEvent_isOk _ _
  | true => exact ⟨curOut, rfl⟩

theorem process_data_hccRead {curIn : List Nat} {hpr : Bool} {address : Fin 256}
    {value : Fin (2 ^ 32)} (hd : Delivers curIn (.hccRead hpr address value))
    (curOut : FrontEndData) (chip_map : ChipMap) :
    ∃ d, process_data curIn curOut .initial chip_map = .ok ⟨d, readInfo curIn.length hpr⟩ := by
  unfold process_data
  rw [parse_hccRead hd]
  cases hpr with
  | false => exact registerEvent_isOk _ _
  | true => exact ⟨curOut, rfl⟩

/-! ## `process_data_template` -/

theorem template_unread {curIn : List Nat} {type : StarPacketType} {message : String}
    (hpacket : StarProcessPacket (bytesOf curIn) =
      .ok ((Processed.error message).prepend [.begin, .packet_type type]))
    (BASE : Nat) (curOut : FrontEndData) (chip_map : ChipMap) :
    process_data_template BASE curIn curOut .initial chip_map =
      .ok ⟨curOut, { FeedbackProcessingInfo.initial with packet_size := curIn.length }⟩ := by
  unfold process_data_template
  rw [hpacket]
  rfl

theorem template_abcRead {curIn : List Nat} {hpr : Bool} {channel tbd : Fin 16}
    {address : Fin 256} {value : Fin (2 ^ 32)} {status : Fin (2 ^ 16)}
    (hd : Delivers curIn (.abcRead hpr channel tbd address value status))
    (BASE : Nat) (curOut : FrontEndData) (chip_map : ChipMap) :
    process_data_template BASE curIn curOut .initial chip_map =
      .ok ⟨curOut, { FeedbackProcessingInfo.initial with packet_size := curIn.length }⟩ := by
  obtain ⟨pad, hbytes, hpad, hlen⟩ := hd.eq_append
  rw [bytes_abcRead] at hbytes hlen
  have hnine : (abcWords hpr channel tbd address value status).length = 9 := rfl
  have hraw := length_bytesOf curIn
  have hread : readAt (bytesOf curIn) 0 = .ok (abcCode hpr * 16 + channel.val) := by
    rw [hbytes]
    rfl
  have hshift := shifted_nibble (abcCode_lt hpr) channel.isLt
  have herror : processTyped (bytesOf curIn) (if hpr then .abc_hpr else .abc_rr) =
      .ok (.error "Expect size 9 for ABC read packet") := by
    have hbad : (bytesOf curIn).length ≠ 9 := by omega
    cases hpr <;> exact if_pos hbad
  refine template_unread (StarProcessPacket_of_header hread (by omega) ?_ ?_ herror) _ _ _
  · rw [hshift]
    cases hpr <;> decide
  · rw [hshift]
    cases hpr <;> rfl

theorem template_hccRead {curIn : List Nat} {hpr : Bool} {address : Fin 256}
    {value : Fin (2 ^ 32)} (hd : Delivers curIn (.hccRead hpr address value))
    (BASE : Nat) (curOut : FrontEndData) (chip_map : ChipMap) :
    process_data_template BASE curIn curOut .initial chip_map =
      .ok ⟨curOut, { FeedbackProcessingInfo.initial with packet_size := curIn.length }⟩ := by
  obtain ⟨pad, hbytes, hpad, hlen⟩ := hd.eq_append
  rw [bytes_hccRead] at hbytes hlen
  have hsix : (hccWords hpr address value).length = 6 := rfl
  have hraw := length_bytesOf curIn
  have hread : readAt (bytesOf curIn) 0 = .ok (hccCode hpr * 16 + address.val / 16) := by
    rw [hbytes]
    rfl
  have haddress : address.val / 16 < 16 := by omega
  have hshift := shifted_nibble (hccCode_lt hpr) haddress
  have herror : processTyped (bytesOf curIn) (if hpr then .hcc_hpr else .hcc_rr) =
      .ok (.error "Expect size 6 for HCC read packet") := by
    have hbad : (bytesOf curIn).length ≠ 6 := by omega
    cases hpr <;> exact if_pos hbad
  refine template_unread (StarProcessPacket_of_header hread (by omega) ?_ ?_ herror) _ _ _
  · rw [hshift]
    cases hpr <;> decide
  · rw [hshift]
    cases hpr <;> rfl

end Yarr.Star

/-!
## The two decoders side by side

Both read the same physics packets. They part where a packet has no cluster,
since one of them makes an event and the other none, and at every register
packet, since one of them asks for a length that a packet in whole words never
has.
-/

namespace Yarr.Star

open Pixel (FrontEndData)

/-- The packets that both decoders treat alike. -/
def Packet.HasCluster (p : Packet) : Prop := p.clusters ≠ []

instance (p : Packet) : Decidable p.HasCluster := inferInstanceAs (Decidable (_ ≠ _))

theorem event_ne_curOut (h : Header) (curOut : FrontEndData) (hits : List Pixel.FrontEndHit) :
    h.event curOut hits ≠ curOut := by
  intro heq
  have hlen := congrArg (fun d => d.events.length) heq
  simp [Header.event, addHits_newEvent] at hlen

theorem readInfo_ne_initial (size : Nat) (hpr : Bool) :
    readInfo size hpr ≠ { FeedbackProcessingInfo.initial with packet_size := size } := by
  intro heq
  have htag : (if hpr then (-3 : Int) else -2) = -10 :=
    congrArg FeedbackProcessingInfo.trigger_tag heq
  cases hpr <;> simp at htag

/-- Both decoders come to an end on every packet, and they agree on exactly those that carry
a cluster. -/
theorem decoders_agree_iff {curIn : List Nat} {p : Packet} (hd : Delivers curIn p)
    (curOut : FrontEndData) (chip_map : ChipMap) :
    ∃ collected templated,
      process_data curIn curOut .initial chip_map = .ok collected ∧
      process_data_template 1 curIn curOut .initial chip_map = .ok templated ∧
      (templated = collected ↔ p.HasCluster) := by
  cases p with
  | physics lp h items =>
      refine ⟨_, _, process_data_physics hd curOut chip_map,
        template_physics hd 1 curOut chip_map, ?_⟩
      unfold collectedEvent Packet.HasCluster
      by_cases hnone : (Packet.physics lp h items).clusters = []
      · simp [hnone, event_ne_curOut]
      · simp [hnone]
  | abcRead hpr channel tbd address value status =>
      obtain ⟨d, hcollected⟩ := process_data_abcRead hd curOut chip_map
      refine ⟨_, _, hcollected, template_abcRead hd 1 curOut chip_map, ?_⟩
      constructor
      · intro heq
        exact absurd (congrArg Decoded.curStatus heq).symm (readInfo_ne_initial _ _)
      · intro hcluster
        exact absurd rfl hcluster
  | hccRead hpr address value =>
      obtain ⟨d, hcollected⟩ := process_data_hccRead hd curOut chip_map
      refine ⟨_, _, hcollected, template_hccRead hd 1 curOut chip_map, ?_⟩
      constructor
      · intro heq
        exact absurd (congrArg Decoded.curStatus heq).symm (readInfo_ne_initial _ _)
      · intro hcluster
        exact absurd rfl hcluster

/-- A physics packet with two clusters, delivered without a byte to spare. -/
theorem decoders_agree_iff_cluster :
    ∃ collected templated,
      process_data [0xFF020010, 0xED6F0800] (.ofStatus ⟨[], [], false, rfl⟩) .initial
        (fun _ => 0) = .ok collected ∧
      process_data_template 1 [0xFF020010, 0xED6F0800] (.ofStatus ⟨[], [], false, rfl⟩) .initial
        (fun _ => 0) = .ok templated ∧
      (templated = collected ↔
        (Packet.physics false ⟨0, 0, 0, 0⟩ [.cluster ⟨0x2FF, by decide, by decide, by decide,
          by decide⟩, .cluster ⟨0x8, by decide, by decide, by decide, by decide⟩]).HasCluster) :=
  decoders_agree_iff ⟨[], by decide, by decide⟩ _ _

/-- A read of an HCC register, as it arrives in two words. -/
theorem decoders_disagree_hccRead :
    Delivers [0x80, 0] (.hccRead false 0 0) ∧
      process_data_template 1 [0x80, 0] (.ofStatus ⟨[], [], false, rfl⟩) .initial
          (fun _ => 0) ≠
        process_data [0x80, 0] (.ofStatus ⟨[], [], false, rfl⟩) .initial (fun _ => 0) := by
  have hd : Delivers [0x80, 0] (.hccRead false 0 0) := ⟨[0, 0], by decide, by decide⟩
  refine ⟨hd, ?_⟩
  obtain ⟨d, hcollected⟩ := process_data_hccRead hd (.ofStatus ⟨[], [], false, rfl⟩) (fun _ => 0)
  rw [template_hccRead hd, hcollected]
  intro heq
  exact readInfo_ne_initial _ _ (congrArg Decoded.curStatus (Except.ok.inj heq)).symm

end Yarr.Star

/-!
## Packets of register reads

The packets that the emulator builds for register reads and for high-priority
reads, and what the decoder makes of them.
-/

namespace Yarr.Star

namespace StarPackets

variable (typ : PacketTypes) (address : Fin 256) (value : Fin (2 ^ 32))

/-- Type and input channel, then the address, and the value between two sets of four bits; then
the status and four zero bits. Bytes are cut to eight bits. -/
def buildABCRegisterPacket (input_channel : Fin 256) (reg_status : Fin (2 ^ 16)) : List Nat :=
  [(((typ.code &&& 0xf) <<< 4) ||| (input_channel.val &&& 0xf)) % 256,
    address.val,
    (value.val >>> 28) % 256,
    (value.val >>> 20) &&& 0xff,
    (value.val >>> 12) &&& 0xff,
    (value.val >>> 4) &&& 0xff,
    (((value.val &&& 0xf) <<< 4) ||| ((reg_status.val >>> 12) &&& 0xf)) % 256,
    (reg_status.val >>> 4) &&& 0xff,
    ((reg_status.val &&& 0xf) <<< 4) % 256]

/-- Type, address and value, and four zero bits. -/
def buildHCCRegisterPacket : List Nat :=
  [(((typ.code &&& 0xf) <<< 4) ||| (address.val >>> 4)) % 256,
    (((address.val &&& 0xf) <<< 4) ||| (value.val >>> 28)) % 256,
    (value.val >>> 20) &&& 0xff,
    (value.val >>> 12) &&& 0xff,
    (value.val >>> 4) &&& 0xff,
    ((value.val &&& 0xf) <<< 4) % 256]

/-- The two kinds of packets with an ABC register, or with an HCC register. -/
def abcKind (hpr : Bool) : PacketTypes := if hpr then .ABCHPR else .ABCRegRd

def hccKind (hpr : Bool) : PacketTypes := if hpr then .HCCHPR else .HCCRegRd

theorem code_abcKind (hpr : Bool) : (abcKind hpr).code = abcCode hpr := by
  cases hpr <;> rfl

theorem code_hccKind (hpr : Bool) : (hccKind hpr).code = hccCode hpr := by
  cases hpr <;> rfl

theorem join_nibbles {high low : Nat} (hhigh : high < 16) (hlow : low < 16) :
    ((high <<< 4) ||| low) % 256 = high * 16 + low := by
  rw [Bits.shiftLeft_or high (show low < 2 ^ 4 from hlow)]
  omega

theorem byte_at (n k : Nat) : (n >>> k) &&& 0xff = n / 2 ^ k % 256 :=
  Bits.shiftRight_mask 0xff 8 rfl n k

theorem buildABCRegisterPacket_eq (hpr : Bool) (channel : Fin 16) (status : Fin (2 ^ 16)) :
    buildABCRegisterPacket (abcKind hpr) address value ⟨channel.val, by omega⟩ status =
      (Packet.abcRead hpr channel 0 address value status).bytes := by
  have hcode := abcCode_lt hpr
  have hvalue := value.isLt
  have hstatus := status.isLt
  have hlow : ∀ n, n &&& 0xf = n % 16 := Bits.and_mask 0xf 4 rfl
  rw [bytes_abcRead]
  unfold buildABCRegisterPacket abcWords
  rw [code_abcKind]
  simp only [byte_at, hlow]
  rw [join_nibbles (by omega) (by omega), join_nibbles (by omega) (by omega),
    Nat.shiftRight_eq_div_pow, Nat.shiftLeft_eq, Fin.val_zero]
  simp only [List.cons.injEq, true_and, and_true]
  omega

theorem buildHCCRegisterPacket_eq (hpr : Bool) :
    buildHCCRegisterPacket (hccKind hpr) address value =
      (Packet.hccRead hpr address value).bytes := by
  have hcode := hccCode_lt hpr
  have hvalue := value.isLt
  have haddress := address.isLt
  have hlow : ∀ n, n &&& 0xf = n % 16 := Bits.and_mask 0xf 4 rfl
  have htop : value.val >>> 28 = value.val / 2 ^ 28 := Nat.shiftRight_eq_div_pow _ _
  have hhigh : address.val >>> 4 = address.val / 16 := Nat.shiftRight_eq_div_pow _ _
  rw [bytes_hccRead]
  unfold buildHCCRegisterPacket hccWords
  rw [code_hccKind]
  simp only [byte_at, hlow, htop, hhigh]
  rw [join_nibbles (by omega) (by omega), join_nibbles (by omega) (by omega), Nat.shiftLeft_eq]
  simp only [List.cons.injEq, true_and, and_true]
  omega

theorem abcRead_bytes_lt (hpr : Bool) (channel tbd : Fin 16) (status : Fin (2 ^ 16)) :
    ∀ b ∈ (Packet.abcRead hpr channel tbd address value status).bytes, b < 256 := by
  have hcode := abcCode_lt hpr
  have hvalue := value.isLt
  have hstatus := status.isLt
  have haddress := address.isLt
  rw [bytes_abcRead]
  unfold abcWords
  intro b hb
  simp only [List.mem_cons, List.not_mem_nil, or_false] at hb
  omega

theorem hccRead_bytes_lt (hpr : Bool) :
    ∀ b ∈ (Packet.hccRead hpr address value).bytes, b < 256 := by
  have hcode := hccCode_lt hpr
  have hvalue := value.isLt
  have haddress := address.isLt
  rw [bytes_hccRead]
  unfold hccWords
  intro b hb
  simp only [List.mem_cons, List.not_mem_nil, or_false] at hb
  omega

theorem delivers_of_bytes {bytes : List Nat} {p : Packet} (h : bytes = p.bytes)
    (hbytes : ∀ b ∈ p.bytes, b < 256) : Delivers (sendPacket bytes) p := by
  subst h
  rcases bytesOf_sendPacket _ hbytes with ⟨k, hk, hsent⟩
  exact ⟨List.replicate k 0, hsent, by simpa using hk⟩

theorem buildABCRegisterPacket_delivers (hpr : Bool) (channel : Fin 16) (status : Fin (2 ^ 16)) :
    Delivers (sendPacket (buildABCRegisterPacket (abcKind hpr) address value
      ⟨channel.val, by omega⟩ status)) (.abcRead hpr channel 0 address value status) :=
  delivers_of_bytes (buildABCRegisterPacket_eq address value hpr channel status)
    (abcRead_bytes_lt address value hpr channel 0 status)

theorem buildHCCRegisterPacket_delivers (hpr : Bool) :
    Delivers (sendPacket (buildHCCRegisterPacket (hccKind hpr) address value))
      (.hccRead hpr address value) :=
  delivers_of_bytes (buildHCCRegisterPacket_eq address value hpr)
    (hccRead_bytes_lt address value hpr)

/-- What is parsed of a register packet is what it was built from. -/
theorem register_packets_parsed (hpr : Bool) (channel : Fin 16) (address : Fin 256)
    (value : Fin (2 ^ 32)) (status : Fin (2 ^ 16)) :
    (∃ p, (packetOf (sendPacket (buildABCRegisterPacket (abcKind hpr) address value
        ⟨channel.val, by omega⟩ status))).parse = .ok (0, p) ∧
      p.type = abcType hpr ∧ p.channel_abc = channel.val ∧ p.address = address.val ∧
      p.value = value.val ∧ p.abc_status = status.val) ∧
    ∃ p, (packetOf (sendPacket (buildHCCRegisterPacket (hccKind hpr) address value))).parse =
        .ok (0, p) ∧
      p.type = hccType hpr ∧ p.address = address.val ∧ p.value = value.val := by
  constructor
  · exact ⟨_, parse_abcRead (buildABCRegisterPacket_delivers address value hpr channel status),
      rfl, rfl, rfl, rfl, rfl⟩
  · exact ⟨_, parse_hccRead (buildHCCRegisterPacket_delivers address value hpr),
      rfl, rfl, rfl⟩

end StarPackets

end Yarr.Star
