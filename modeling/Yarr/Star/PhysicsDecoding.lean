import Yarr.Core.Indices
import Yarr.Star.ParserLaws

/-!
# Decoding physics packets

Where a physics packet arrives in whole words, each decoder makes one event
of it, with the hits of its clusters in their order. Only `process_data` drops
the event of a packet without clusters.
-/

namespace Yarr.Star

open Pixel (FrontEndHit FrontEndData)

/-! ## What a physics packet says -/

/-- The hits of all clusters, in their order. -/
def Packet.hits (BASE : Nat) (chip_map : ChipMap) (p : Packet) : List FrontEndHit :=
  p.clusters.flatMap fun c => clusterHits BASE chip_map c.input_channel c.address c.next

/-- The report on a physics packet in `size` words with `n` clusters. -/
def Header.info (h : Header) (size n : Nat) : FeedbackProcessingInfo where
  packet_size := size
  trigger_tag := h.l0id.val
  bcid := h.bcid.val
  n_clusters := n

/-- The event of a physics packet. -/
def Header.event (h : Header) (curOut : FrontEndData) (hits : List FrontEndHit) : FrontEndData :=
  addHits (curOut.newEvent h.l0id.val h.l0id.val h.bcid.val) hits

theorem Delivers.eq_append {curIn : List Nat} {p : Packet} (h : Delivers curIn p) :
    ∃ pad, bytesOf curIn = p.bytes ++ pad ∧ pad.length < 4 ∧
      4 * curIn.length = p.bytes.length + pad.length := by
  obtain ⟨pad, hbytes, hpad⟩ := h
  have hlen := congrArg List.length hbytes
  rw [length_bytesOf, List.length_append] at hlen
  exact ⟨pad, hbytes, hpad, hlen⟩

/-! ## `process_data` -/

theorem foldl_add_word (bs : List Nat) (hbs : ∀ b ∈ bs, b < 256) (p : StarChipPacket) :
    bs.foldl StarChipPacket.add_word p = { p with raw_words := p.raw_words ++ bs } := by
  induction bs generalizing p with
  | nil => simp
  | cons b bs ih =>
      have hb : b % 2 ^ 16 = b := by
        have hlt := hbs b (by simp)
        omega
      rw [List.foldl_cons, ih (fun b hb => hbs b (by simp [hb]))]
      simp only [StarChipPacket.add_word, hb, List.append_assoc, List.singleton_append]

theorem packetOf_eq (curIn : List Nat) :
    packetOf curIn =
      { StarChipPacket.empty with raw_words := 0x13C :: (bytesOf curIn ++ [0x1DC]) } := by
  simp only [packetOf, foldl_add_word _ (bytesOf_lt curIn)]
  simp [StarChipPacket.add_word, StarChipPacket.empty]

namespace StarChipPacket

/-- The packet of `packetOf` once its type is known. -/
def typed (raw : List Nat) (type : PacketType) : StarChipPacket :=
  { StarChipPacket.empty with raw_words := 0x13C :: (raw ++ [0x1DC]), type := type }

/-- The method of its type. -/
def parseTyped (raw : List Nat) (type : PacketType) : Parsed :=
  match type with
  | .hcc_rr | .hcc_hpr => (typed raw type).parse_data_HCC_read
  | .abc_rr | .abc_hpr => (typed raw type).parse_data_ABC_read
  | .lp | .pr => (typed raw type).parse_data_PRLP
  | .abc_transp => (typed raw type).parse_data_ABC_transparent
  | _ => .ok (0, typed raw type)

theorem word_typed {raw : List Nat} (type : PacketType) {i x : Nat} (h : raw[i]? = some x) :
    (typed raw type).word (i + 1) = .ok x := by
  have hi : i < raw.length := (List.getElem?_eq_some_iff.1 h).1
  simp [word, typed, readAt, List.getElem?_append_left hi, h]

theorem parse_packetOf {curIn raw : List Nat} {b0 : Nat} {type : PacketType}
    (hbytes : bytesOf curIn = raw) (h0 : raw[0]? = some b0) (hlen : 2 ≤ raw.length)
    (htype : packet_type_headers ((b0 >>> 4) &&& 0xF) = some type) :
    (packetOf curIn).parse = parseTyped raw type := by
  have hlong : ¬ raw.length + 1 + 1 < 4 := by omega
  have hlast : (0x13C :: (raw ++ [0x1DC])).getLast? = some 0x1DC := by
    rw [← List.cons_append, List.getLast?_concat]
  have hw : (raw ++ [0x1DC])[0]? = some b0 := by
    rw [List.getElem?_append_left (by omega), h0]
  rw [packetOf_eq, hbytes]
  unfold parse
  simp only [is_parsed, empty, bne_self_eq_false, Bool.false_eq_true, if_false, List.length_cons,
    List.length_append, List.length_nil, Nat.zero_add, hlong, List.head?_cons, ne_eq,
    not_true_eq_false, hlast]
  simp only [word, readAt, List.getElem?_cons_succ, hw, bind, Except.bind, htype]
  cases type <;> rfl

/-- What a physics packet leaves in the fields that `process_data` reads. -/
structure Physics (q : StarChipPacket) (type : PacketType) (h : Header) (items : List Item) :
    Prop where
  type : q.type = type
  l0id : q.l0id = h.l0id.val
  bcid : q.bcid = h.bcid.val
  clusters : q.clusters = items.flatMap Item.clusters

theorem parse_data_PRLP_walked {p : StarChipPacket} {w1 w2 iW : Nat} {cs : List Cluster}
    {eb : Option ErrorBlock} (h1 : p.word 1 = .ok w1) (h2 : p.word 2 = .ok w2)
    (hloop : prlpLoop p.raw_words ⟨false, 3, p.clusters, p.error_block⟩ =
      .ok ⟨false, iW, cs, eb⟩) :
    p.parse_data_PRLP =
      .ok (if (p.raw_words.length + 2 ^ 32 - (iW + 3)) % 2 ^ 32 > 2 then 1 else 0,
        { p with
          flag := (w1 >>> 3) &&& 1
          l0id := ((w1 &&& 0b111) <<< 4) ||| ((w2 >>> 4) &&& 0xF)
          bcid := (w2 >>> 1) &&& 0x7
          bcid_parity := w2 &&& 0x1
          clusters := cs
          error_block := eb }) := by
  unfold parse_data_PRLP
  rw [h1, h2]
  simp only [bind, Except.bind]
  rw [hloop]
  rfl

theorem parse_data_PRLP_bytes {raw pad : List Nat} (type : PacketType) (t : Fin 16) (h : Header)
    (items : List Item)
    (hraw : raw = h.bytes t ++ items.flatMap Item.bytes ++ [0x6F, 0xED] ++ pad) :
    ∃ r q, (typed raw type).parse_data_PRLP = .ok (r, q) ∧ Physics q type h items := by
  have hwords : (typed raw type).raw_words =
      [0x13C, t.val * 16 + h.flag.val * 8 + h.l0id.val / 16,
        h.l0id.val % 16 * 16 + h.bcid.val * 2 + h.parity.val] ++
      (items.flatMap Item.bytes ++ 0x6F :: 0xED :: (pad ++ [0x1DC])) := by
    simp [typed, hraw, Header.bytes]
  have hw1 : (typed raw type).word 1 = .ok (t.val * 16 + h.flag.val * 8 + h.l0id.val / 16) :=
    word_typed type (by simp [hraw, Header.bytes])
  have hw2 : (typed raw type).word 2 =
      .ok (h.l0id.val % 16 * 16 + h.bcid.val * 2 + h.parity.val) :=
    word_typed type (by simp [hraw, Header.bytes])
  obtain ⟨eb, hloop⟩ := prlpLoop_items items _ [] none hwords
  exact ⟨_, _, parse_data_PRLP_walked hw1 hw2 hloop,
    rfl, Header.read_l0id h t, Header.read_bcid h, rfl⟩

end StarChipPacket

/-- The header of a physics packet. -/
def physicsCode (lp : Bool) : Fin 16 := if lp then 2 else 1

def physicsType (lp : Bool) : PacketType := if lp then .lp else .pr

theorem packet_type_headers_physicsCode (lp : Bool) :
    packet_type_headers (physicsCode lp).val = some (physicsType lp) := by
  cases lp <;> rfl

theorem bytes_physics (lp : Bool) (h : Header) (items : List Item) :
    (Packet.physics lp h items).bytes =
      h.bytes (physicsCode lp).val ++ items.flatMap Item.bytes ++ [0x6F, 0xED] := by
  cases lp <;> rfl

theorem parse_physics {curIn : List Nat} {lp : Bool} {h : Header} {items : List Item}
    (hd : Delivers curIn (.physics lp h items)) :
    ∃ r q, (packetOf curIn).parse = .ok (r, q) ∧
      q.Physics (physicsType lp) h items := by
  obtain ⟨pad, hbytes, _⟩ := hd
  rw [bytes_physics] at hbytes
  have htype := packet_type_headers_physicsCode lp
  rw [← Header.read_type h (physicsCode lp)] at htype
  obtain ⟨r, q, hparse, hq⟩ :=
    StarChipPacket.parse_data_PRLP_bytes (physicsType lp) (physicsCode lp) h items hbytes
  refine ⟨r, q, ?_, hq⟩
  rw [StarChipPacket.parse_packetOf rfl (by simp [hbytes, Header.bytes])
    (by simp [hbytes, Header.bytes]) htype]
  cases lp <;> exact hparse

/-- The events that `process_data` makes of a physics packet: none without a cluster. -/
def collectedEvent (h : Header) (curOut : FrontEndData) (p : Packet) (chip_map : ChipMap) :
    FrontEndData :=
  if p.clusters = [] then curOut else h.event curOut (p.hits 1 chip_map)

theorem process_data_physics {curIn : List Nat} {lp : Bool} {h : Header} {items : List Item}
    (hd : Delivers curIn (.physics lp h items)) (curOut : FrontEndData) (chip_map : ChipMap) :
    process_data curIn curOut .initial chip_map =
      .ok ⟨collectedEvent h curOut (.physics lp h items) chip_map,
        h.info curIn.length (Packet.physics lp h items).clusters.length⟩ := by
  obtain ⟨r, q, hparse, hq⟩ := parse_physics hd
  have hevent : physicsEvent q ⟨curOut, ⟨curIn.length, -10, -1, 0⟩⟩ chip_map =
      .ok ⟨collectedEvent h curOut (.physics lp h items) chip_map,
        h.info curIn.length (Packet.physics lp h items).clusters.length⟩ := by
    have hclusters : q.clusters = (Packet.physics lp h items).clusters := hq.clusters
    have hloop := foldlM_addHits
      (fun d (c : Cluster) => addClusterHits 1 chip_map c.input_channel c.address c.next d)
      (fun c => clusterHits 1 chip_map c.input_channel c.address c.next)
      (fun d c hd => addClusterHits_eq 1 chip_map _ _ _ d hd)
      (Packet.physics lp h items).clusters (curOut.newEvent h.l0id.val h.l0id.val h.bcid.val)
      (newEvent_events_ne_nil _ _ _ _)
    unfold physicsEvent collectedEvent StarChipPacket.n_clusters
    rw [hclusters, hq.l0id, hq.bcid]
    by_cases hnone : (Packet.physics lp h items).clusters = []
    · simp [hnone, Header.info]
    · have hpos : (Packet.physics lp h items).clusters.length ≠ 0 := by
        simpa using hnone
      rw [if_neg hpos, hloop, if_neg hnone]
      rfl
  unfold process_data
  rw [hparse]
  simp only [bind, Except.bind, hq.type]
  cases lp <;> exact hevent

/-! ## `process_data_template` -/

theorem StarProcessPacket_of_header {b : List Nat} {b0 : Nat} {type : StarPacketType}
    {processed : Processed} (h0 : readAt b 0 = .ok b0) (hlen : ¬ b.length < 4)
    (htype : StarPacketType.ofCode ((((b0 >>> 4) &&& 0xf) &&& 0xe) >>> 1) = type)
    (hheader : type.header = (b0 >>> 4) &&& 0xf)
    (hbody : processTyped b type = .ok processed) :
    StarProcessPacket b = .ok (processed.prepend [.begin, .packet_type type]) := by
  unfold StarProcessPacket
  rw [if_neg hlen, h0]
  simp only [bind, Except.bind, htype, hheader, ne_eq, not_true_eq_false, if_false, hbody]
  rfl

theorem processPhysics_bytes {b pad : List Nat} (BASE : Nat) (chip_map : ChipMap)
    (type : StarPacketType) (t : Fin 16) (h : Header) (items : List Item)
    (hb : b = h.bytes t ++ items.flatMap Item.bytes ++ [0x6F, 0xED] ++ pad) :
    ∃ flag parity calls, processPhysics b type =
        .ok ⟨.data_header (type == .pr) h.bcid.val parity h.l0id.val flag :: calls, true⟩ ∧
      Adds BASE chip_map (items.flatMap Item.clusters) calls := by
  have hsplit : b = [t.val * 16 + h.flag.val * 8 + h.l0id.val / 16,
        h.l0id.val % 16 * 16 + h.bcid.val * 2 + h.parity.val] ++
      (items.flatMap Item.bytes ++ 0x6F :: 0xED :: pad) := by
    simp [hb, Header.bytes]
  obtain ⟨calls, hloop, hadds⟩ := @clusterLoop_items BASE chip_map b pad items _ hsplit
  have hb0 : readAt b 0 = .ok (t.val * 16 + h.flag.val * 8 + h.l0id.val / 16) := by
    rw [hsplit]
    rfl
  have hb1 : readAt b 1 = .ok (h.l0id.val % 16 * 16 + h.bcid.val * 2 + h.parity.val) := by
    rw [hsplit]
    rfl
  have hloop3 : clusterLoop b 3 = .ok ⟨calls, true⟩ := hloop
  refine ⟨((t.val * 16 + h.flag.val * 8 + h.l0id.val / 16) >>> 3) &&& 1,
    (h.l0id.val % 16 * 16 + h.bcid.val * 2 + h.parity.val) &&& 1, calls, ?_, hadds⟩
  unfold processPhysics
  rw [hb0, hb1]
  simp only [bind, Except.bind, hloop3, Header.read_l0id, Header.read_bcid]
  rfl

/-- What the template decoder takes a physics header for. -/
def physicsStarType (lp : Bool) : StarPacketType := if lp then .lp else .pr

theorem ofCode_physicsCode (lp : Bool) :
    StarPacketType.ofCode (((physicsCode lp).val &&& 0xe) >>> 1) = physicsStarType lp := by
  cases lp <;> decide

theorem header_physicsStarType (lp : Bool) :
    (physicsStarType lp).header = (physicsCode lp).val := by
  cases lp <;> rfl

theorem template_physics {curIn : List Nat} {lp : Bool} {h : Header} {items : List Item}
    (hd : Delivers curIn (.physics lp h items)) (BASE : Nat) (curOut : FrontEndData)
    (chip_map : ChipMap) :
    process_data_template BASE curIn curOut .initial chip_map =
      .ok ⟨h.event curOut ((Packet.physics lp h items).hits BASE chip_map),
        h.info curIn.length (Packet.physics lp h items).clusters.length⟩ := by
  obtain ⟨pad, hbytes, _⟩ := hd
  rw [bytes_physics] at hbytes
  obtain ⟨flag, parity, calls, hphysics, hadds⟩ :=
    processPhysics_bytes BASE chip_map (physicsStarType lp) (physicsCode lp) h items hbytes
  have hread : readAt (bytesOf curIn) 0 =
      .ok ((physicsCode lp).val * 16 + h.flag.val * 8 + h.l0id.val / 16) := by
    rw [hbytes]
    rfl
  have hlen : ¬ (bytesOf curIn).length < 4 := by
    simp [hbytes, Header.bytes]
    omega
  have hofCode := ofCode_physicsCode lp
  have hheader := header_physicsStarType lp
  rw [← Header.read_type h (physicsCode lp)] at hofCode hheader
  have hbody : processTyped (bytesOf curIn) (physicsStarType lp) =
      .ok ⟨.data_header (physicsStarType lp == .pr) h.bcid.val parity h.l0id.val flag :: calls,
        true⟩ := by
    cases lp <;> exact hphysics
  have hpacket := StarProcessPacket_of_header hread hlen hofCode hheader hbody
  unfold process_data_template
  rw [hpacket]
  -- the header makes the event, the rest fills it
  have hrest := hadds ⟨curOut.newEvent h.l0id.val h.l0id.val h.bcid.val,
    ⟨curIn.length, h.l0id.val, h.bcid.val, 0⟩⟩ (newEvent_events_ne_nil _ _ _ _)
  refine Eq.trans hrest ?_
  simp only [Nat.zero_add]
  rfl

end Yarr.Star
