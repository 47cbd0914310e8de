import Yarr.Star.StarDataProcessor

/-!
# What a decoded packet adds to its event

The decoders fill the current event hit by hit. Here each of their loops is
read as one list of hits, so that two decoders agree as soon as their lists do.
-/

namespace Yarr.Star

open Pixel (FrontEndHit FrontEndData FrontEndEvent)

/-! ## The current event -/

/-- All of `hits` at the end of the current event, where there is one. -/
def addHits (d : FrontEndData) (hits : List FrontEndHit) : FrontEndData :=
  match d.curEvent with
  | none => d
  | some e => { d with events := d.events.dropLast ++ [{ e with hits := e.hits ++ hits }] }

theorem curEvent_of_ne_nil {d : FrontEndData} (h : d.events ≠ []) :
    d.curEvent = some (d.events.getLast h) := by
  simp [FrontEndData.curEvent, List.getLast?_eq_some_getLast h]

theorem newEvent_events_ne_nil (d : FrontEndData) (tag l1id bcid : Nat) :
    (d.newEvent tag l1id bcid).events ≠ [] := by
  simp [FrontEndData.newEvent]

theorem addHits_events_ne_nil {d : FrontEndData} (h : d.events ≠ []) (hits : List FrontEndHit) :
    (addHits d hits).events ≠ [] := by
  simp [addHits, curEvent_of_ne_nil h]

theorem addHits_nil (d : FrontEndData) : addHits d [] = d := by
  unfold addHits
  cases he : d.curEvent with
  | none => rfl
  | some e =>
      have hne : d.events ≠ [] := by
        intro hnil
        simp [FrontEndData.curEvent, hnil] at he
      have hlast : d.events.getLast hne = e := by
        rw [curEvent_of_ne_nil hne] at he
        exact Option.some.inj he
      have hsplit : d.events.dropLast ++ [e] = d.events := by
        rw [← hlast]
        exact List.dropLast_concat_getLast hne
      simp only [List.append_nil, hsplit]

theorem addHits_addHits (d : FrontEndData) (xs ys : List FrontEndHit) :
    addHits (addHits d xs) ys = addHits d (xs ++ ys) := by
  unfold addHits
  cases he : d.curEvent with
  | none => simp [he]
  | some e => simp [FrontEndData.curEvent]

theorem addHits_newEvent (d : FrontEndData) (tag l1id bcid : Nat) (hits : List FrontEndHit) :
    addHits (d.newEvent tag l1id bcid) hits =
      { d with events := d.events ++
        [⟨tag % 2 ^ 32, l1id % 2 ^ 16, bcid % 2 ^ 16, hits⟩] } := by
  simp [addHits, FrontEndData.newEvent, FrontEndData.curEvent]

/-- The hit that `addHit` stores. -/
def storedHit (row col tot : Nat) : FrontEndHit := ⟨col % 2 ^ 16, row % 2 ^ 16, tot % 2 ^ 16⟩

theorem addHit_eq {d : FrontEndData} (h : d.events ≠ []) (row col tot : Nat) :
    addHit d row col tot = .ok (addHits d [storedHit row col tot]) := by
  simp [addHit, FrontEndData.addHit, addHits, storedHit, curEvent_of_ne_nil h,
    FrontEndEvent.addHit]

/-- A loop each of whose rounds adds the hits `f` names adds all of them in order. -/
theorem foldlM_addHits {α : Type} (step : FrontEndData → α → Except Fault FrontEndData)
    (f : α → List FrontEndHit)
    (hstep : ∀ d a, d.events ≠ [] → step d a = .ok (addHits d (f a)))
    (xs : List α) (d : FrontEndData) (hd : d.events ≠ []) :
    xs.foldlM step d = .ok (addHits d (xs.flatMap f)) := by
  induction xs generalizing d with
  | nil => simp [addHits_nil]; rfl
  | cons a xs ih =>
      rw [List.foldlM_cons, hstep d a hd]
      have hrest := ih (addHits d (f a)) (addHits_events_ne_nil hd _)
      rw [addHits_addHits] at hrest
      exact hrest

theorem foldlM_addHits_filter {α : Type} (p : α → Bool) (hit : α → Nat × Nat × Nat)
    (xs : List α) (d : FrontEndData) (hd : d.events ≠ []) :
    xs.foldlM (fun d a =>
      if p a then addHit d (hit a).1 (hit a).2.1 (hit a).2.2 else .ok d) d =
      .ok (addHits d ((xs.filter p).map fun a =>
        storedHit (hit a).1 (hit a).2.1 (hit a).2.2)) := by
  have hloop := foldlM_addHits
    (fun d a => if p a then addHit d (hit a).1 (hit a).2.1 (hit a).2.2 else .ok d)
    (fun a => if p a then [storedHit (hit a).1 (hit a).2.1 (hit a).2.2] else [])
    (fun d a hd => by
      by_cases hp : p a
      · simp [hp, addHit_eq hd]
      · simp [hp, addHits_nil]) xs d hd
  have hflat : ∀ ys : List α,
      ys.flatMap (fun a => if p a then [storedHit (hit a).1 (hit a).2.1 (hit a).2.2] else []) =
        (ys.filter p).map fun a => storedHit (hit a).1 (hit a).2.1 (hit a).2.2 := by
    intro ys
    induction ys with
    | nil => rfl
    | cons a ys ih =>
        by_cases hp : p a
        · simp [hp, ih]
        · simp [hp, ih]
  rw [hloop, hflat]

/-! ## Clusters -/

/-- The strips of a cluster: its own, then those of the next three that its pattern names. -/
def clusterStrips (address next : Nat) : List Nat :=
  address :: ((List.range 3).filter fun i => next.testBit i).map fun i => address + (3 - i)

/-- Where a strip of a front-end is put. -/
def stripHit (BASE histo_chip row strip : Nat) : FrontEndHit :=
  storedHit row (histo_chip * StripsPerABCRow + ((strip &&& 0x7f) + BASE)) 1

/-- The hits of a cluster; none where its channel has no histogram slot. -/
def clusterHits (BASE : Nat) (chip_map : ChipMap) (input_channel address next : Nat) :
    List FrontEndHit :=
  if h : input_channel < MaxABCsPerHCC then
    if chip_map ⟨input_channel, h⟩ = HCC_INPUT_CHANNEL_BAD_SLOT then []
    else (clusterStrips address next).map
      (stripHit BASE (chip_map ⟨input_channel, h⟩) (((address >>> 7) &&& 1) + BASE))
  else []

theorem addClusterHits_eq (BASE : Nat) (chip_map : ChipMap) (input_channel address next : Nat)
    (d : FrontEndData) (hd : d.events ≠ []) :
    addClusterHits BASE chip_map input_channel address next d =
      .ok (addHits d (clusterHits BASE chip_map input_channel address next)) := by
  unfold addClusterHits clusterHits
  by_cases hc : input_channel < MaxABCsPerHCC
  · simp only [hc, dif_pos]
    by_cases hb : chip_map ⟨input_channel, hc⟩ = HCC_INPUT_CHANNEL_BAD_SLOT
    · simp [hb, addHits_nil]
    · simp only [hb, if_false]
      -- the strip of the cluster itself, then the loop over its pattern
      rw [addHit_eq hd]
      have hloop := foldlM_addHits_filter (fun i => next.testBit i)
        (fun i => (((address >>> 7) &&& 1) + BASE, chip_map ⟨input_channel, hc⟩ *
          StripsPerABCRow + (((address + (3 - i)) &&& 0x7f) + BASE), 1))
        (List.range 3) (addHits d [stripHit BASE (chip_map ⟨input_channel, hc⟩)
          (((address >>> 7) &&& 1) + BASE) address]) (addHits_events_ne_nil hd _)
      refine Eq.trans hloop ?_
      rw [addHits_addHits]
      simp [clusterStrips, stripHit, Function.comp_def]
  · simp [hc, addHits_nil]

/-! ## Hit counters -/

/-- The hits of a hit-counter register. -/
def counterHits (BASE ic address value : Nat) : List FrontEndHit :=
  (List.range 4).flatMap fun i =>
    List.replicate ((value >>> (8 * i)) &&& 0xff)
      (storedHit ((((address - 0x80) * 4 + i) &&& 1) + 1)
        (ic * StripsPerABCRow + (((((address - 0x80) * 4 + i) >>> 1) &&& 0x7f) + BASE)) 1)

theorem addCounterHits_eq (BASE ic address value : Nat) (d : FrontEndData)
    (hd : d.events ≠ []) :
    addCounterHits BASE ic address value d =
      .ok (addHits d (counterHits BASE ic address value)) := by
  refine foldlM_addHits _ _ ?_ _ d hd
  intro d i hd
  have hloop := foldlM_addHits
    (fun d _ => addHit d ((((address - 0x80) * 4 + i) &&& 1) + 1)
      (ic * StripsPerABCRow + (((((address - 0x80) * 4 + i) >>> 1) &&& 0x7f) + BASE)) 1)
    (fun _ => [storedHit ((((address - 0x80) * 4 + i) &&& 1) + 1)
      (ic * StripsPerABCRow + (((((address - 0x80) * 4 + i) >>> 1) &&& 0x7f) + BASE)) 1])
    (fun d _ hd => addHit_eq hd _ _ _) (List.range ((value >>> (8 * i)) &&& 0xff)) d hd
  refine Eq.trans hloop ?_
  congr 2
  rw [List.flatMap_def, List.map_const', List.length_range, List.flatten_replicate_singleton]

end Yarr.Star

/-!
## The format of HCCStar packets

What a packet carries, the bytes that spell it, and how its bytes arrive in
32-bit words. Both parsers are read against this format.
-/

namespace Yarr.Star

/-! ## Packets -/

/-- The header of a physics packet behind its type. -/
structure Header where
  flag : Fin 2
  l0id : Fin 128
  bcid : Fin 8
  parity : Fin 2
  deriving DecidableEq, Repr

/-- A cluster of a channel, in a word that none of the markers uses. -/
structure ClusterWord where
  word : Nat
  small : word < 2 ^ 15
  notEmpty : word &&& 0x7FF ≠ 0x3FE
  notError : word ≠ 0x77F4
  notEnd : word ≠ 0x6FED
  deriving DecidableEq, Repr

/-- What stands between the header and the end pattern of a physics packet. -/
inductive Item where
  | cluster (c : ClusterWord)
  | noCluster (channel : Fin 16)
  | errorBlock (channels : Fin 6 → Fin 256)

inductive Packet where
  | physics (lp : Bool) (header : Header) (items : List Item)
  | abcRead (hpr : Bool) (channel tbd : Fin 16) (address : Fin 256) (value : Fin (2 ^ 32))
      (status : Fin (2 ^ 16))
  | hccRead (hpr : Bool) (address : Fin 256) (value : Fin (2 ^ 32))

namespace Header

def bytes (h : Header) (type : Nat) : List Nat :=
  [type * 16 + h.flag.val * 8 + h.l0id.val / 16,
    h.l0id.val % 16 * 16 + h.bcid.val * 2 + h.parity.val]

end Header

namespace Item

def bytes : Item → List Nat
  | cluster c => [c.word / 256, c.word % 256]
  | noCluster channel => [channel.val * 8 + 3, 0xFE]
  | errorBlock channels => [0x77, 0xF4, channels 0, channels 1, channels 2, channels 3,
      channels 4, channels 5]

/-- The clusters of an item. -/
def clusters : Item → List Cluster
  | cluster c => [StarChipPacket.clusterOf c.word]
  | _ => []

end Item

namespace Packet

/-- The clusters of a packet, in their order. -/
def clusters : Packet → List Cluster
  | physics _ _ items => items.flatMap Item.clusters
  | _ => []

/-- The four bits in front. -/
def type : Packet → Nat
  | physics lp _ _ => if lp then 2 else 1
  | abcRead hpr .. => if hpr then 13 else 4
  | hccRead hpr .. => if hpr then 14 else 8

def bytes : Packet → List Nat
  | p@(physics _ header items) =>
      header.bytes p.type ++ items.flatMap Item.bytes ++ [0x6F, 0xED]
  | p@(abcRead _ channel tbd address value status) =>
      [p.type * 16 + channel.val, address.val, tbd.val * 16 + value.val / 2 ^ 28,
        value.val / 2 ^ 20 % 256, value.val / 2 ^ 12 % 256, value.val / 2 ^ 4 % 256,
        value.val % 16 * 16 + status.val / 2 ^ 12, status.val / 2 ^ 4 % 256,
        status.val % 16 * 16]
  | p@(hccRead _ address value) =>
      [p.type * 16 + address.val / 16, address.val % 16 * 16 + value.val / 2 ^ 28,
        value.val / 2 ^ 20 % 256, value.val / 2 ^ 12 % 256, value.val / 2 ^ 4 % 256,
        value.val % 16 * 16]

end Packet

/-- The packet arrives in whole words: what fills the last one is arbitrary. -/
def Delivers (curIn : List Nat) (p : Packet) : Prop :=
  ∃ pad, bytesOf curIn = p.bytes ++ pad ∧ pad.length < 4

/-! ## Bytes -/

theorem bytesOf_lt (words : List Nat) : ∀ b ∈ bytesOf words, b < 256 := by
  intro b hb
  simp only [bytesOf, List.mem_flatMap, List.mem_map] at hb
  obtain ⟨w, _, i, _, rfl⟩ := hb
  exact Nat.lt_of_le_of_lt Nat.and_le_right (by decide)

theorem length_bytesOf (words : List Nat) : (bytesOf words).length = 4 * words.length := by
  induction words with
  | nil => rfl
  | cons w words ih =>
      simp only [bytesOf, List.flatMap_cons, List.length_append, List.length_map,
        List.length_range, List.length_cons] at ih ⊢
      omega

theorem readAt_append (pre : List Nat) (x : Nat) (post : List Nat) :
    readAt (pre ++ x :: post) pre.length = .ok x := by
  simp [readAt]

theorem readAt_append_add (pre post : List Nat) (i : Nat) :
    readAt (pre ++ post) (pre.length + i) = readAt post i := by
  simp [readAt, List.getElem?_append_right]

theorem join_bytes {w : Nat} (h : w < 2 ^ 16) : (((w / 256) <<< 8) ||| (w % 256)) % 2 ^ 16 = w := by
  have hlow : w % 256 < 2 ^ 8 := Nat.mod_lt _ (by decide)
  rw [Bits.shiftLeft_or _ hlow]
  omega

theorem noCluster_word (channel : Fin 16) :
    (((channel.val * 8 + 3) <<< 8) ||| 0xFE) % 2 ^ 16 = channel.val * 2048 + 0x3FE := by
  rw [Bits.shiftLeft_or _ (by decide)]
  omega

theorem noCluster_mask (channel : Fin 16) : (channel.val * 2048 + 0x3FE) &&& 0x7FF = 0x3FE := by
  rw [Bits.and_mask 0x7FF 11 rfl]
  omega

/-! ## Fields -/

namespace Header

variable (h : Header) (type : Fin 16)

theorem read_type :
    ((type.val * 16 + h.flag.val * 8 + h.l0id.val / 16) >>> 4) &&& 0xF = type.val := by
  rw [Bits.shiftRight_mask 0xF 4 rfl]
  omega

theorem read_l0id :
    (((type.val * 16 + h.flag.val * 8 + h.l0id.val / 16) &&& 0b111) <<< 4) |||
      (((h.l0id.val % 16 * 16 + h.bcid.val * 2 + h.parity.val) >>> 4) &&& 0xF) = h.l0id.val := by
  rw [Bits.shiftRight_mask 0xF 4 rfl, Bits.and_mask 0b111 3 rfl, Bits.shiftLeft_or _ (by omega)]
  omega

theorem read_bcid :
    ((h.l0id.val % 16 * 16 + h.bcid.val * 2 + h.parity.val) >>> 1) &&& 0x7 = h.bcid.val := by
  rw [Bits.shiftRight_mask 0x7 3 rfl]
  omega

end Header

theorem read_value (value : Nat) :
    ((value / 2 ^ 28) <<< 28) ||| ((value / 2 ^ 20 % 256) <<< 20) |||
      ((value / 2 ^ 12 % 256) <<< 12) ||| ((value / 2 ^ 4 % 256) <<< 4) ||| value % 16 =
      value := by
  have h20 := Bits.join_fields value 20 8
  have h12 := Bits.join_fields value 12 8
  have h4 := Bits.join_fields value 4 8
  have hlow : value % 16 < 2 ^ 4 := Nat.mod_lt _ (by decide)
  simp only [Nat.reduceAdd, Nat.reducePow] at h20 h12 h4 ⊢
  rw [h20, h12, h4, Bits.shiftLeft_or _ hlow]
  omega

theorem read_status (status : Nat) :
    ((status / 2 ^ 12) <<< 12) ||| ((status / 2 ^ 4 % 256) <<< 4) ||| status % 16 = status := by
  have h4 := Bits.join_fields status 4 8
  have hlow : status % 16 < 2 ^ 4 := Nat.mod_lt _ (by decide)
  simp only [Nat.reduceAdd, Nat.reducePow] at h4 ⊢
  rw [h4, Bits.shiftLeft_or _ hlow]
  omega

end Yarr.Star
