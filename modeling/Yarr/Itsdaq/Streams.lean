import Yarr.Core.Bits
import Yarr.Itsdaq.QueuedData

/-!
# The streams of packets and what is queued for them

A stream of bytes is made of packets and of idle bytes, seven bytes to a word, with
time stamps between. It is cut at words into packets of the network. What the
handler queues under the address of a stream are its packets if and only if no cut
stands behind a byte of data inside a packet.
-/

namespace Yarr.Itsdaq

open Delimited

/-! ## Streams -/

/-- What a stream is made of; a packet has one byte of data or more. -/
inductive Item where
  | packet (first : UInt8) (more : List UInt8)
  | idle

def startOfPacket : Bool × UInt8 := (true, 0x3c)

def endOfPacket : Bool × UInt8 := (true, 0xdc)

def Item.bytes : Item → List (Bool × UInt8)
  | .packet first more =>
      startOfPacket :: ((first :: more).map fun b => (false, b)) ++ [endOfPacket]
  | .idle => [(true, 0)]

def spell (items : List Item) : List (Bool × UInt8) := items.flatMap Item.bytes

def Item.data : Item → List (List UInt8)
  | .packet first more => [first :: more]
  | .idle => []

def packets (items : List Item) : List (List UInt8) := items.flatMap Item.data

/-- Seven bytes, the first one on top, below the flags of those for control; or a time stamp. -/
inductive Word where
  | data (a b c d e f g : Bool × UInt8)
  | timestamp (time : UInt64) (top : time.toNat / 2 ^ 60 = 15)

def Word.bytes : Word → List (Bool × UInt8)
  | .data a b c d e f g => [a, b, c, d, e, f, g]
  | .timestamp _ _ => []

def Word.isStamp : Word → Bool
  | .data _ _ _ _ _ _ _ => false
  | .timestamp _ _ => true

def control (a b c d e f g : Bool) : Nat :=
  64 * a.toNat + 32 * b.toNat + 16 * c.toNat + 8 * d.toNat + 4 * e.toNat + 2 * f.toNat + g.toNat

def Word.value : Word → UInt64
  | .data a b c d e f g =>
      UInt64.ofNat (control a.1 b.1 c.1 d.1 e.1 f.1 g.1 * 2 ^ 56 + a.2.toNat * 2 ^ 48 +
        b.2.toNat * 2 ^ 40 + c.2.toNat * 2 ^ 32 + d.2.toNat * 2 ^ 24 + e.2.toNat * 2 ^ 16 +
        f.2.toNat * 2 ^ 8 + g.2.toNat)
  | .timestamp time _ => time

/-- As it goes over the network. -/
def Word.parts (w : Word) : List UInt16 :=
  [(w.value >>> 48).toUInt16, (w.value >>> 32).toUInt16, (w.value >>> 16).toUInt16,
    w.value.toUInt16]

/-- The words are those of a stream, and the time stamps stand between its items. -/
structure Spelled (words : List Word) (items : List Item) : Prop where
  bytes : words.flatMap Word.bytes = spell items
  stamps : ∀ before w after, words = before ++ w :: after → w.isStamp = true →
    ∃ passed rest, items = passed ++ rest ∧ before.flatMap Word.bytes = spell passed

/-- A packet of the network with data of one stream. -/
structure Udp where
  magic : UInt16
  sequence : UInt16
  size : UInt16
  unit : UInt16
  opcode : UInt16
  check : UInt16
  count : UInt16
  stream : UInt16
  source : UInt16
  config : UInt16
  payload : List Word
  trailer : UInt16 × UInt16
  crc : UInt16
  is_data : opcode &&& 0xf000 = 0xd000
  nonempty : payload ≠ []
  fits : 2 * (13 + 4 * payload.length) ≤ 1500

def Udp.words (u : Udp) : List UInt16 :=
  [u.magic, u.sequence, u.size, u.unit, u.opcode, u.check, u.count, u.stream, u.source,
    u.config] ++ (u.payload.flatMap Word.parts ++ [u.trailer.1, u.trailer.2, u.crc])

def Udp.datagram (u : Udp) : Datagram := ⟨u.words, false⟩

def onStream (s : UInt16) (received : List Udp) : List Udp :=
  received.filter fun u => u.stream == s

def sentOn (s : UInt16) (received : List Udp) : List Word :=
  (onStream s received).flatMap Udp.payload

/-- The number of a stream is turned around once more when it is read. -/
def address (s : UInt16) : UInt32 := (ntohs s).toUInt32

/-- The bytes end between two items of a stream, or with the start of a packet. -/
def EndsBetween (bytes : List (Bool × UInt8)) (items : List Item) : Prop :=
  ∃ passed rest, items = passed ++ rest ∧
    (bytes = spell passed ∨ bytes = spell passed ++ [startOfPacket])

/-! ## A word on the network -/

theorem wordOf_toNat (a b c d : UInt16) :
    (wordOf a b c d).toNat =
      a.toNat * 2 ^ 48 + b.toNat * 2 ^ 32 + c.toNat * 2 ^ 16 + d.toNat := by
  have ha := a.toNat_lt
  have hb := b.toNat_lt
  have hc := c.toNat_lt
  have hd := d.toNat_lt
  have ha' : (a.toUInt64 <<< 48).toNat = a.toNat * 2 ^ 48 := by
    rw [UInt64.toNat_shiftLeft, UInt16.toNat_toUInt64, Nat.shiftLeft_eq]
    show a.toNat * 2 ^ 48 % 2 ^ 64 = _
    omega
  have hb' : (b.toUInt64 <<< 32).toNat = b.toNat * 2 ^ 32 := by
    rw [UInt64.toNat_shiftLeft, UInt16.toNat_toUInt64, Nat.shiftLeft_eq]
    show b.toNat * 2 ^ 32 % 2 ^ 64 = _
    omega
  have hc' : (c.toUInt64 <<< 16).toNat = c.toNat * 2 ^ 16 := by
    rw [UInt64.toNat_shiftLeft, UInt16.toNat_toUInt64, Nat.shiftLeft_eq]
    show c.toNat * 2 ^ 16 % 2 ^ 64 = _
    omega
  have hab : a.toNat * 2 ^ 48 ||| b.toNat * 2 ^ 32 = a.toNat * 2 ^ 48 + b.toNat * 2 ^ 32 :=
    Bits.or_add 48 (by omega) (by omega)
  have habc : (a.toNat * 2 ^ 48 + b.toNat * 2 ^ 32) ||| c.toNat * 2 ^ 16 =
      a.toNat * 2 ^ 48 + b.toNat * 2 ^ 32 + c.toNat * 2 ^ 16 :=
    Bits.or_add 32 (by omega) (by omega)
  have habcd : (a.toNat * 2 ^ 48 + b.toNat * 2 ^ 32 + c.toNat * 2 ^ 16) ||| d.toNat =
      a.toNat * 2 ^ 48 + b.toNat * 2 ^ 32 + c.toNat * 2 ^ 16 + d.toNat :=
    Bits.or_add 16 (by omega) (by omega)
  unfold wordOf
  rw [UInt64.toNat_or, UInt64.toNat_or, UInt64.toNat_or, ha', hb', hc', UInt16.toNat_toUInt64,
    hab, habc, habcd]

theorem part_toNat (w : UInt64) (k : UInt64) (hk : k.toNat < 64) :
    (w >>> k).toUInt16.toNat = w.toNat / 2 ^ k.toNat % 2 ^ 16 := by
  rw [UInt64.toNat_toUInt16, UInt64.toNat_shiftRight, Nat.mod_eq_of_lt hk,
    Nat.shiftRight_eq_div_pow]

theorem wordOf_parts (w : UInt64) :
    wordOf (w >>> 48).toUInt16 (w >>> 32).toUInt16 (w >>> 16).toUInt16 w.toUInt16 = w := by
  have hw := w.toNat_lt
  have h48 := part_toNat w 48 (by decide)
  have h32 := part_toNat w 32 (by decide)
  have h16 := part_toNat w 16 (by decide)
  rw [show (48 : UInt64).toNat = 48 from rfl] at h48
  rw [show (32 : UInt64).toNat = 32 from rfl] at h32
  rw [show (16 : UInt64).toNat = 16 from rfl] at h16
  apply UInt64.toNat_inj.mp
  rw [wordOf_toNat, h48, h32, h16, UInt64.toNat_toUInt16]
  omega

theorem control_lt (a b c d e f g : Bool) : control a b c d e f g < 128 := by
  unfold control
  have ha := Bool.toNat_le a
  have hb := Bool.toNat_le b
  have hc := Bool.toNat_le c
  have hd := Bool.toNat_le d
  have he := Bool.toNat_le e
  have hf := Bool.toNat_le f
  have hg := Bool.toNat_le g
  omega

theorem flags_control (a b c d e f g : Bool) :
    [6, 5, 4, 3, 2, 1, 0].map (fun m =>
      decide (UInt8.ofNat (control a b c d e f g) &&& ((1 : UInt8) <<< UInt8.ofNat m) ≠ 0)) =
      [a, b, c, d, e, f, g] := by
  revert a b c d e f g
  decide +kernel

theorem byte_toNat (w : UInt64) {k : Nat} (hk : k < 64) :
    (w >>> UInt64.ofNat k).toUInt8.toNat = w.toNat / 2 ^ k % 2 ^ 8 := by
  have hk64 : (UInt64.ofNat k).toNat = k := by
    rw [UInt64.toNat_ofNat']
    omega
  rw [UInt64.toNat_toUInt8, UInt64.toNat_shiftRight, hk64, Nat.mod_eq_of_lt hk,
    Nat.shiftRight_eq_div_pow]

theorem value_toNat (a b c d e f g : Bool × UInt8) :
    (Word.data a b c d e f g).value.toNat =
      control a.1 b.1 c.1 d.1 e.1 f.1 g.1 * 2 ^ 56 + a.2.toNat * 2 ^ 48 + b.2.toNat * 2 ^ 40 +
        c.2.toNat * 2 ^ 32 + d.2.toNat * 2 ^ 24 + e.2.toNat * 2 ^ 16 + f.2.toNat * 2 ^ 8 +
          g.2.toNat := by
  have hctl := control_lt a.1 b.1 c.1 d.1 e.1 f.1 g.1
  have ha := a.2.toNat_lt
  have hb := b.2.toNat_lt
  have hc := c.2.toNat_lt
  have hd := d.2.toNat_lt
  have he := e.2.toNat_lt
  have hf := f.2.toNat_lt
  have hg := g.2.toNat_lt
  unfold Word.value
  rw [UInt64.toNat_ofNat']
  omega

theorem bytesOf_data (a b c d e f g : Bool × UInt8) :
    bytesOf (Word.data a b c d e f g).value = [a, b, c, d, e, f, g] := by
  have hctl := control_lt a.1 b.1 c.1 d.1 e.1 f.1 g.1
  have hflags := flags_control a.1 b.1 c.1 d.1 e.1 f.1 g.1
  have hvalue := value_toNat a b c d e f g
  have ha := a.2.toNat_lt
  have hb := b.2.toNat_lt
  have hc := c.2.toNat_lt
  have hd := d.2.toNat_lt
  have he := e.2.toNat_lt
  have hf := f.2.toNat_lt
  have hg := g.2.toNat_lt
  generalize (Word.data a b c d e f g).value = w at hvalue ⊢
  generalize control a.1 b.1 c.1 d.1 e.1 f.1 g.1 = ctl at hctl hflags hvalue
  have hmap : (w >>> 56).toUInt8 = UInt8.ofNat ctl := by
    apply UInt8.toNat_inj.mp
    have h56 := byte_toNat w (by omega : 56 < 64)
    rw [show UInt64.ofNat 56 = 56 from rfl] at h56
    rw [h56, UInt8.toNat_ofNat']
    omega
  have hbyte : ∀ (k : Nat) (x : UInt8), k < 64 → w.toNat / 2 ^ k % 2 ^ 8 = x.toNat →
      (w >>> UInt64.ofNat k).toUInt8 = x := by
    intro k x hk hx
    apply UInt8.toNat_inj.mp
    rw [byte_toNat w hk, hx]
  have h6 := hbyte (6 * 8) a.2 (by omega) (by omega)
  have h5 := hbyte (5 * 8) b.2 (by omega) (by omega)
  have h4 := hbyte (4 * 8) c.2 (by omega) (by omega)
  have h3 := hbyte (3 * 8) d.2 (by omega) (by omega)
  have h2 := hbyte (2 * 8) e.2 (by omega) (by omega)
  have h1 := hbyte (1 * 8) f.2 (by omega) (by omega)
  have h0 := hbyte (0 * 8) g.2 (by omega) (by omega)
  unfold bytesOf
  simp only [List.map_cons, List.map_nil] at hflags ⊢
  rw [hmap, h6, h5, h4, h3, h2, h1, h0]
  simp only [List.cons.injEq] at hflags ⊢
  refine ⟨Prod.ext hflags.1 rfl, Prod.ext hflags.2.1 rfl, Prod.ext hflags.2.2.1 rfl,
    Prod.ext hflags.2.2.2.1 rfl, Prod.ext hflags.2.2.2.2.1 rfl,
    Prod.ext hflags.2.2.2.2.2.1 rfl, Prod.ext hflags.2.2.2.2.2.2.1 rfl, trivial⟩

theorem isTimestamp_iff (w : UInt64) : isTimestamp w = true ↔ w.toNat / 2 ^ 60 = 15 := by
  have hw := w.toNat_lt
  have hand : ((w >>> 60) &&& 0xf).toNat = w.toNat / 2 ^ 60 % 2 ^ 4 := by
    rw [UInt64.toNat_and, UInt64.toNat_shiftRight, show (60 : UInt64).toNat % 64 = 60 from rfl,
      Nat.shiftRight_eq_div_pow]
    exact Bits.and_mask 15 4 rfl _
  unfold isTimestamp
  rw [beq_iff_eq, ← UInt64.toNat_inj, hand]
  show _ % 2 ^ 4 = 15 ↔ _
  omega

theorem isTimestamp_value (w : Word) : isTimestamp w.value = w.isStamp := by
  cases w with
  | data a b c d e f g =>
      have hctl := control_lt a.1 b.1 c.1 d.1 e.1 f.1 g.1
      have hvalue := value_toNat a b c d e f g
      have ha := a.2.toNat_lt
      have hb := b.2.toNat_lt
      have hc := c.2.toNat_lt
      have hd := d.2.toNat_lt
      have he := e.2.toNat_lt
      have hf := f.2.toNat_lt
      have hg := g.2.toNat_lt
      show _ = false
      rw [Bool.eq_false_iff, ne_eq, isTimestamp_iff, hvalue]
      omega
  | timestamp time top =>
      show _ = true
      rw [isTimestamp_iff]
      exact top

theorem length_parts (words : List Word) :
    (words.flatMap Word.parts).length = 4 * words.length := by
  induction words with
  | nil => rfl
  | cons w words ih =>
      rw [List.flatMap_cons, List.length_append, ih, List.length_cons]
      show 4 + _ = _
      omega

theorem Udp.length_words (u : Udp) : u.words.length = 13 + 4 * u.payload.length := by
  unfold Udp.words
  rw [List.length_append, List.length_append, length_parts]
  show 10 + (_ + 3) = _
  omega

theorem Udp.getD_words (u : Udp) {i k : Nat} (hi : i < u.payload.length) (hk : k < 4) :
    u.words.getD (4 * i + (10 + k)) 0 = (u.payload.get ⟨i, hi⟩).parts.getD k 0 := by
  have hbody := Bits.getElem?_flatMap_of_length (by omega : 0 < 4) (f := Word.parts)
    (fun _ => rfl) u.payload (4 * i + k)
  have hlen := length_parts u.payload
  unfold Udp.words
  rw [List.getD_eq_getElem?_getD, List.getElem?_append_right (by simp; omega),
    List.getElem?_append_left (by simp [hlen]; omega)]
  show ((u.payload.flatMap Word.parts)[4 * i + (10 + k) - 10]?).getD 0 = _
  rw [show 4 * i + (10 + k) - 10 = 4 * i + k by omega, hbody,
    show (4 * i + k) / 4 = i by omega, show (4 * i + k) % 4 = k by omega,
    List.getElem?_eq_getElem hi, List.getD_eq_getElem?_getD]
  rfl

theorem payload_words (u : Udp) : payload u.words = u.payload.map Word.value := by
  have hcount : (u.words.length - 13) / 4 = u.payload.length := by
    rw [u.length_words]
    omega
  unfold payload
  rw [hcount]
  apply List.ext_getElem (by simp)
  intro i hi _
  rw [List.length_map, List.length_range] at hi
  have h0 := u.getD_words hi (by omega : 0 < 4)
  have h1 := u.getD_words hi (by omega : 1 < 4)
  have h2 := u.getD_words hi (by omega : 2 < 4)
  have h3 := u.getD_words hi (by omega : 3 < 4)
  rw [List.getElem_map, List.getElem_map, List.getElem_range]
  show wordOf (u.words.getD (4 * i + (10 + 0)) 0) (u.words.getD (4 * i + (10 + 1)) 0)
    (u.words.getD (4 * i + (10 + 2)) 0) (u.words.getD (4 * i + (10 + 3)) 0) = _
  rw [h0, h1, h2, h3]
  exact wordOf_parts _

theorem symbols_values (words : List Word) :
    symbols ((words.map Word.value).filter isData) =
      (words.flatMap Word.bytes).map symbolOf := by
  unfold symbols
  congr 1
  induction words with
  | nil => rfl
  | cons w words ih =>
      have hstamp := isTimestamp_value w
      rw [List.map_cons, List.filter_cons, List.flatMap_cons, ← ih]
      cases w with
      | data a b c d e f g =>
          have hbytes := bytesOf_data a b c d e f g
          rw [if_pos (by unfold isData; rw [hstamp]; rfl), List.flatMap_cons, hbytes]
          rfl
      | timestamp time top =>
          rw [if_neg (by unfold isData; rw [hstamp]; simp [Word.isStamp])]
          rfl

/-! ## What is read together -/

/-- When nothing is open at the time stamps, they make no difference. -/
theorem flatMap_gathered (part words : List UInt64) (hempty : words = [] → part = [])
    (hstamps : ∀ before w after, words = before ++ w :: after → isTimestamp w = true →
      openAt (symbols (part ++ before.filter isData)) = []) :
    (gathered part words).flatMap (fun part => flushed (symbols part)) =
      flushed (symbols (part ++ words.filter isData)) := by
  induction words generalizing part with
  | nil =>
      rw [hempty rfl]
      rfl
  | cons w rest ih =>
      unfold gathered
      by_cases hstamp : isTimestamp w = true
      · have hskip : (w :: rest).filter isData = rest.filter isData := by
          simp [isData, hstamp]
        have hpart := hstamps [] w rest rfl hstamp
        rw [List.filter_nil, List.append_nil] at hpart
        have hrest : ∀ before v after, rest = before ++ v :: after → isTimestamp v = true →
            openAt (symbols ([] ++ before.filter isData)) = [] := by
          intro before v after heq hv
          have hopen := hstamps (w :: before) v after (by rw [heq]; rfl) hv
          have hdrop : (w :: before).filter isData = before.filter isData := by
            simp [isData, hstamp]
          rw [hdrop, symbols_append, openAt_append hpart] at hopen
          exact hopen
        have hnext := ih [] (fun _ => rfl) hrest
        rw [List.nil_append] at hnext
        rw [if_pos hstamp, hskip]
        by_cases hnil : part = []
        · rw [if_pos hnil, hnil, hnext, List.nil_append]
        · rw [if_neg hnil, List.flatMap_cons, hnext, symbols_append, flushed_append hpart]
      · have hkeep : (w :: rest).filter isData = w :: rest.filter isData := by
          simp [isData, hstamp]
        rw [if_neg hstamp, hkeep]
        by_cases hlast : rest = []
        · rw [if_pos hlast, hlast]
          simp
        · have hnext := ih (part ++ [w]) (fun hnil => absurd hnil hlast) (by
            intro before v after heq hv
            have hopen := hstamps (w :: before) v after (by rw [heq]; rfl) hv
            have hgrow : (w :: before).filter isData = w :: before.filter isData := by
              simp [isData, hstamp]
            rw [hgrow] at hopen
            rw [List.append_assoc]
            exact hopen)
          rw [if_neg hlast, hnext, List.append_assoc]
          rfl

/-! ## The groups of a stream -/

theorem scan_data (pending bytes : List UInt8) :
    scan pending ((bytes.map fun b => (false, b)).map symbolOf) = ([], pending ++ bytes) := by
  induction bytes generalizing pending with
  | nil => simp [scan]
  | cons b bytes ih =>
      show scan (pending ++ [b]) _ = _
      rw [ih, List.append_assoc]
      rfl

theorem scan_item (item : Item) : scan [] (item.bytes.map symbolOf) = (item.data, []) := by
  cases item with
  | idle => rfl
  | packet first more =>
      show scan [] ((((first :: more).map fun b => (false, b)) ++ [endOfPacket]).map symbolOf) = _
      rw [List.map_append, scan_append, scan_data]
      rfl

theorem scan_spell (items : List Item) :
    scan [] ((spell items).map symbolOf) = (packets items, []) := by
  induction items with
  | nil => rfl
  | cons item items ih =>
      have hsplit : spell (item :: items) = item.bytes ++ spell items := rfl
      rw [hsplit, List.map_append, scan_append, scan_item, ih]
      rfl

theorem endsBetween_cons {bytes : List (Bool × UInt8)} {items : List Item} (item : Item)
    (h : EndsBetween bytes items) : EndsBetween (item.bytes ++ bytes) (item :: items) := by
  obtain ⟨passed, rest, rfl, hbytes⟩ := h
  refine ⟨item :: passed, rest, rfl, ?_⟩
  rcases hbytes with rfl | rfl
  · exact Or.inl rfl
  · exact Or.inr (List.append_assoc _ _ _).symm

theorem endsBetween_nil (items : List Item) : EndsBetween [] items :=
  ⟨[], items, rfl, Or.inl rfl⟩

/-- Inside one item, nothing is open only at its beginning, behind a start and at its end. -/
theorem endsBetween_of_item {bytes : List (Bool × UInt8)} {item : Item} {items : List Item}
    (hbegin : bytes <+: item.bytes) (hopen : openAt (bytes.map symbolOf) = []) :
    EndsBetween bytes (item :: items) := by
  have hwhole : EndsBetween item.bytes (item :: items) := by
    have hnil := endsBetween_cons item (endsBetween_nil items)
    rwa [List.append_nil] at hnil
  obtain ⟨tail, htail⟩ := hbegin
  cases bytes with
  | nil => exact endsBetween_nil _
  | cons b bytes =>
      cases item with
      | idle =>
          have hb : b = (true, 0) ∧ bytes = [] := by
            have hlen := congrArg List.length htail
            simp only [Item.bytes, List.cons_append, List.length_cons, List.length_append,
              List.length_nil] at hlen
            refine ⟨(List.cons.inj htail).1, List.length_eq_zero_iff.mp (by omega)⟩
          rw [hb.1, hb.2]
          exact hwhole
      | packet first more =>
          obtain ⟨hb, hrest⟩ := List.cons.inj htail
          rcases List.append_eq_append_iff.mp hrest with ⟨x, hdata, _⟩ | ⟨x, hbytes, hend⟩
          · obtain ⟨front, _, _, hfront, _⟩ := List.map_eq_append_iff.mp hdata
            have hscan := scan_data [] front
            rw [hb, ← hfront] at hopen
            change (scan [] ((front.map fun b => (false, b)).map symbolOf)).2 = [] at hopen
            rw [hscan] at hopen
            change front = [] at hopen
            rw [hb, ← hfront, hopen]
            exact ⟨[], _, rfl, Or.inr rfl⟩
          · rcases List.cons_eq_append_iff.mp hend with ⟨hx, _⟩ | ⟨y, hx, hy⟩
            · have hscan := scan_data [] (first :: more)
              rw [hb, hbytes, hx, List.append_nil] at hopen
              change (scan [] (((first :: more).map fun b => (false, b)).map symbolOf)).2 = []
                at hopen
              rw [hscan] at hopen
              cases hopen
            · have hnil := (List.append_eq_nil_iff.mp hy.symm).1
              rw [hb, hbytes, hx, hnil]
              exact hwhole

/-- Nothing is open exactly behind an item and behind the start of a packet. -/
theorem endsBetween_iff {bytes : List (Bool × UInt8)} {items : List Item}
    (hbegin : bytes <+: spell items) :
    openAt (bytes.map symbolOf) = [] ↔ EndsBetween bytes items := by
  constructor
  · intro hopen
    induction items generalizing bytes with
    | nil =>
        rw [List.prefix_nil.mp hbegin]
        exact endsBetween_nil _
    | cons item items ih =>
        obtain ⟨tail, htail⟩ := hbegin
        have hsplit : spell (item :: items) = item.bytes ++ spell items := rfl
        rw [hsplit] at htail
        rcases List.append_eq_append_iff.mp htail with ⟨x, hitem, _⟩ | ⟨x, hbytes, hrest⟩
        · exact endsBetween_of_item ⟨x, hitem.symm⟩ hopen
        · have hclosed : openAt (item.bytes.map symbolOf) = [] := by
            unfold openAt
            rw [scan_item]
          rw [hbytes, List.map_append, openAt_append hclosed] at hopen
          rw [hbytes]
          exact endsBetween_cons item (ih ⟨tail, hrest.symm⟩ hopen)
  · rintro ⟨passed, rest, _, hbytes⟩
    have hclosed : openAt ((spell passed).map symbolOf) = [] := by
      unfold openAt
      rw [scan_spell]
    rcases hbytes with rfl | rfl
    · exact hclosed
    · rw [List.map_append, openAt_append hclosed]
      rfl

/-! ## What the handler queues -/

/-- What is queued for a group of bytes. -/
def dataOf (s : UInt16) (bytes : List UInt8) : RawData := rawOf (ntohs s) bytes

/-- The symbols of one packet of the network. -/
def Udp.symbols (u : Udp) : List (Symbol UInt8) := (u.payload.flatMap Word.bytes).map symbolOf

theorem Udp.receive_eq (u : Udp) {h : ItsdaqPrivate} (hpart : h.partial_buffer = []) :
    receive u.datagram h = .ok
      { h with
        rawData := h.rawData ++ (gathered [] (u.payload.map Word.value)).flatMap fun part =>
          (flushed (Itsdaq.symbols part)).map (rawOf (ntohs u.stream)) } := by
  have hlen := u.length_words
  have hfits := u.fits
  have hpos := List.length_pos_iff.mpr u.nonempty
  have hopcode : u.words.getD 4 0 = u.opcode := rfl
  have hstream : u.words.getD 7 0 = u.stream := rfl
  have hdata : isDataOpcode (u.words.getD 4 0) = true := by
    rw [hopcode]
    unfold isDataOpcode
    rw [u.is_data]
    rfl
  have hreceive := receive_data (d := u.datagram) (h := h)
    (by show 14 ≤ u.words.length; omega) (by show u.words.length < 2 ^ 31; omega) hdata hpart
  rw [hreceive]
  show Except.ok (queued (ntohs (u.words.getD 7 0)) (Itsdaq.payload u.words) h) = _
  rw [hstream, payload_words]
  unfold queued
  rw [hpart, if_neg (by simp [u.nonempty])]

theorem sentOn_append (s : UInt16) (before after : List Udp) :
    sentOn s (before ++ after) = sentOn s before ++ sentOn s after := by
  unfold sentOn onStream
  rw [List.filter_append, List.flatMap_append]

theorem sentOn_cons (u : Udp) (after : List Udp) :
    sentOn u.stream (u :: after) = u.payload ++ sentOn u.stream after := by
  unfold sentOn onStream
  rw [List.filter_cons, if_pos (by simp), List.flatMap_cons]

/-- One packet of the network gives out the groups of its bytes, and the one that is open. -/
theorem delivered_eq {received : List Udp} {items : UInt16 → List Item}
    (hspelled : ∀ s, Spelled (sentOn s received) (items s)) {u : Udp} (hu : u ∈ received) :
    ((gathered [] (u.payload.map Word.value)).flatMap fun part =>
      (flushed (symbols part)).map (rawOf (ntohs u.stream))) =
        (flushed u.symbols).map (dataOf u.stream) := by
  obtain ⟨before, after, rfl⟩ := List.append_of_mem hu
  have hstream := hspelled u.stream
  rw [sentOn_append, sentOn_cons] at hstream
  have hstamps : ∀ front w back, u.payload.map Word.value = front ++ w :: back →
      isTimestamp w = true → openAt (symbols ([] ++ front.filter isData)) = [] := by
    intro front w back heq hw
    obtain ⟨words, rest, hpayload, rfl, hrest⟩ := List.map_eq_append_iff.mp heq
    obtain ⟨stamp, later, rfl, hstamp, _⟩ := List.map_eq_cons_iff.mp hrest
    rw [← hstamp, isTimestamp_value] at hw
    obtain ⟨passed, _, _, hbytes⟩ := hstream.stamps (sentOn u.stream before ++ words) stamp
      (later ++ sentOn u.stream after) (by rw [hpayload]; simp) hw
    have hscan := scan_spell passed
    rw [← hbytes, List.flatMap_append, List.map_append, scan_append] at hscan
    rw [List.nil_append, symbols_values]
    exact openAt_of_pending (congrArg Prod.snd hscan)
  have hempty : u.payload.map Word.value = [] → ([] : List UInt64) = [] := fun _ => rfl
  have hgathered := flatMap_gathered [] (u.payload.map Word.value) hempty hstamps
  rw [List.nil_append, symbols_values] at hgathered
  rw [← List.map_flatMap, hgathered]
  rfl

theorem ReceiverMain_eq {received : List Udp} (part : List Udp) {items : UInt16 → List Item}
    (hspelled : ∀ s, Spelled (sentOn s received) (items s)) (hpart : ∀ u ∈ part, u ∈ received)
    (h : ItsdaqPrivate) (hempty : h.partial_buffer = []) :
    ReceiverMain h (part.map Udp.datagram) = .ok
      { h with
        rawData := h.rawData ++
          part.flatMap fun u => (flushed u.symbols).map (dataOf u.stream) } := by
  unfold ReceiverMain
  induction part generalizing h with
  | nil => simp [pure, Except.pure]
  | cons u part ih =>
      have hfirst := u.receive_eq hempty
      rw [delivered_eq hspelled (hpart u List.mem_cons_self)] at hfirst
      rw [List.map_cons, List.foldlM_cons, hfirst]
      have hrest := ih (fun v hv => hpart v (List.mem_cons_of_mem _ hv))
        { h with rawData := h.rawData ++ (flushed u.symbols).map (dataOf u.stream) } hempty
      rw [List.flatMap_cons, ← List.append_assoc]
      exact hrest

theorem ntohs_toNat (w : UInt16) : (ntohs w).toNat = w.toNat / 256 + w.toNat % 256 * 256 := by
  have hw := w.toNat_lt
  have hlow : (w >>> 8).toNat = w.toNat / 256 := by
    rw [UInt16.toNat_shiftRight, Nat.shiftRight_eq_div_pow]
    rfl
  have hhigh : (w <<< 8).toNat = w.toNat % 256 * 256 := by
    rw [UInt16.toNat_shiftLeft, Nat.shiftLeft_eq]
    show w.toNat * 2 ^ 8 % 2 ^ 16 = _
    omega
  have hor : w.toNat % 256 * 256 ||| w.toNat / 256 = w.toNat % 256 * 256 + w.toNat / 256 :=
    Bits.or_add 8 (by omega) (by omega)
  unfold ntohs
  rw [UInt16.toNat_or, hlow, hhigh, Nat.or_comm, hor, Nat.add_comm]

theorem address_inj {s t : UInt16} : address s = address t ↔ s = t := by
  constructor
  · intro heq
    have hs := s.toNat_lt
    have ht := t.toNat_lt
    have hnat := congrArg UInt32.toNat heq
    unfold address at hnat
    rw [UInt16.toNat_toUInt32, UInt16.toNat_toUInt32, ntohs_toNat, ntohs_toNat] at hnat
    apply UInt16.toNat_inj.mp
    omega
  · intro heq
    rw [heq]

def queuedFor (s : UInt16) (h : ItsdaqPrivate) : List RawData :=
  h.rawData.filter fun d => d.adr == address s

theorem filter_delivered (s : UInt16) (received : List Udp) :
    (received.flatMap fun u => (flushed u.symbols).map (dataOf u.stream)).filter
        (fun d => d.adr == address s) =
      (((onStream s received).map Udp.symbols).flatMap flushed).map (dataOf s) := by
  induction received with
  | nil => rfl
  | cons u received ih =>
      unfold onStream at ih ⊢
      rw [List.flatMap_cons, List.filter_append, ih, List.filter_cons]
      by_cases hs : u.stream = s
      · have hall : ((flushed u.symbols).map (dataOf u.stream)).filter
            (fun d => d.adr == address s) = (flushed u.symbols).map (dataOf s) := by
          rw [hs, List.filter_eq_self]
          intro d hd
          obtain ⟨bytes, _, rfl⟩ := List.mem_map.mp hd
          exact beq_self_eq_true _
        rw [hall, if_pos (by simpa using hs), List.map_cons, List.flatMap_cons, List.map_append]
      · have hnone : ((flushed u.symbols).map (dataOf u.stream)).filter
            (fun d => d.adr == address s) = [] := by
          rw [List.filter_eq_nil_iff]
          intro d hd
          obtain ⟨bytes, _, rfl⟩ := List.mem_map.mp hd
          have hne : address u.stream ≠ address s := fun heq => hs (address_inj.mp heq)
          simpa [dataOf, rawOf, address] using hne
        rw [hnone, if_neg (by simpa using hs), List.nil_append]

theorem flatten_symbols (us : List Udp) :
    (us.map Udp.symbols).flatten = ((us.flatMap Udp.payload).flatMap Word.bytes).map symbolOf := by
  induction us with
  | nil => rfl
  | cons u us ih =>
      rw [List.map_cons, List.flatten_cons, ih, List.flatMap_cons, List.flatMap_append,
        List.map_append]
      rfl

/-- No packet of the network ends inside the data of a packet of the stream. -/
def CutBetween (s : UInt16) (received : List Udp) (items : List Item) : Prop :=
  ∀ before after, received = before ++ after →
    EndsBetween ((sentOn s before).flatMap Word.bytes) items

theorem closedCuts_iff {s : UInt16} {received : List Udp} {items : List Item}
    (hspelled : Spelled (sentOn s received) items) :
    ClosedCuts ((onStream s received).map Udp.symbols) ↔ CutBetween s received items := by
  have hcut : ∀ before after, received = before ++ after →
      (openAt ((onStream s before).map Udp.symbols).flatten = [] ↔
        EndsBetween ((sentOn s before).flatMap Word.bytes) items) := by
    rintro before after rfl
    have hbytes := hspelled.bytes
    rw [sentOn_append, List.flatMap_append] at hbytes
    rw [flatten_symbols]
    exact endsBetween_iff ⟨_, hbytes⟩
  constructor
  · intro hclosed before after heq
    apply (hcut before after heq).mp
    apply hclosed _ ((onStream s after).map Udp.symbols)
    rw [heq]
    unfold onStream
    rw [List.filter_append, List.map_append]
  · intro hends front back heq
    obtain ⟨us, vs, hfilter, rfl, rfl⟩ := List.map_eq_append_iff.mp heq
    obtain ⟨before, after, rfl, hbefore, _⟩ := List.filter_eq_append_iff.mp hfilter
    have hopen := (hcut before after rfl).mpr (hends before after rfl)
    unfold onStream at hopen
    rw [hbefore] at hopen
    exact hopen

/-- What the handler is to queue for a stream: its packets, each with the number of the stream. -/
def Reassembled (items : UInt16 → List Item) (h : ItsdaqPrivate) : Prop :=
  ∀ s, queuedFor s h = (packets (items s)).map (dataOf s)

theorem reassembled_run_iff {received : List Udp} {items : UInt16 → List Item}
    (hspelled : ∀ s, Spelled (sentOn s received) (items s)) :
    ∃ h, ReceiverMain start (received.map Udp.datagram) = .ok h ∧
      (Reassembled items h ↔ ∀ s, CutBetween s received (items s)) := by
  have hrun := ReceiverMain_eq received hspelled (fun u hu => hu) start rfl
  refine ⟨_, hrun, ?_⟩
  have hpackets : ∀ s, (scan [] ((onStream s received).map Udp.symbols).flatten).1 =
      packets (items s) := by
    intro s
    have hbytes := (hspelled s).bytes
    rw [flatten_symbols]
    show (scan [] (((sentOn s received).flatMap Word.bytes).map symbolOf)).1 = _
    rw [hbytes, scan_spell]
  have hstream : ∀ s,
      ((((onStream s received).map Udp.symbols).flatMap flushed).map (dataOf s) =
        (packets (items s)).map (dataOf s) ↔ CutBetween s received (items s)) := by
    intro s
    rw [← closedCuts_iff (hspelled s), ← hpackets s]
    constructor
    · intro heq
      have hlen := congrArg List.length heq
      rw [List.length_map, List.length_map, length_scan] at hlen
      exact closedCuts_of_all ((length_flatMap_flushed _).2 hlen)
    · intro hclosed
      rw [(flatMap_flushed_iff _).mpr hclosed]
  unfold Reassembled queuedFor
  constructor
  · intro hall s
    have heq := hall s
    rw [show start.rawData = [] from rfl, List.nil_append, filter_delivered] at heq
    exact (hstream s).mp heq
  · intro hcut s
    rw [show start.rawData = [] from rfl, List.nil_append, filter_delivered]
    exact (hstream s).mpr (hcut s)

/-- The packets of every stream are queued if and only if no packet of the network ends inside
their data, and a packet of the network is read inside its bounds and to its end if and only if
it is long enough. -/
theorem reassembles_iff (received : List Udp) (items : UInt16 → List Item)
    (hspelled : ∀ s, Spelled (sentOn s received) (items s)) (arrived : List Datagram)
    (harrived : ∀ d ∈ arrived, d.output_bytes ≤ 1500) (h : ItsdaqPrivate)
    (hrun : ReceiverMain start arrived = .ok h) (d : Datagram) (hd : d.output_bytes ≤ 1500) :
    (∃ h, ReceiverMain start (received.map Udp.datagram) = .ok h ∧
      (Reassembled items h ↔ ∀ s, CutBetween s received (items s))) ∧
    ((∃ h', receive d h = .ok h') ↔ LongEnough d.words) := by
  have hsmall : ∀ d : Datagram, d.output_bytes ≤ 1500 → d.words.length < 2 ^ 31 := by
    intro d hd
    have hwords := output_words d
    omega
  have hpart := ReceiverMain_partial arrived (fun d hd => hsmall d (harrived d hd)) rfl hrun
  exact ⟨reassembled_run_iff hspelled, receive_ok_iff (hsmall d hd) hpart⟩

/-- One word of the first stream. -/
def single (w : Word) : Udp where
  magic := 0x8765
  sequence := 1
  size := 34
  unit := 1
  opcode := 0xd000
  check := 0
  count := 20
  stream := 0
  source := 0
  config := 0
  payload := [w]
  trailer := (0, 0)
  crc := 0
  is_data := rfl
  nonempty := List.cons_ne_nil _ _
  fits := (by decide : 2 * (13 + 4 * 1) ≤ 1500)

/-- The start of a packet and six bytes of it. -/
def firstHalf : Word :=
  .data startOfPacket (false, 1) (false, 2) (false, 3) (false, 4) (false, 5) (false, 6)

/-- Its last byte. -/
def secondHalf : Word :=
  .data (false, 7) endOfPacket (true, 0) (true, 0) (true, 0) (true, 0) (true, 0)

def cutPacket (s : UInt16) : List Item :=
  if s = 0 then
    [.packet 1 [2, 3, 4, 5, 6, 7], .idle, .idle, .idle, .idle, .idle]
  else []

theorem spelled_of_no_stamps {words : List Word} {items : List Item}
    (hbytes : words.flatMap Word.bytes = spell items)
    (hstamps : ∀ w ∈ words, w.isStamp = false) : Spelled words items := by
  refine ⟨hbytes, ?_⟩
  intro before w after heq hw
  have hfalse := hstamps w (by rw [heq]; simp)
  rw [hfalse] at hw
  cases hw

theorem cutPacket_spelled (s : UInt16) :
    Spelled (sentOn s [single firstHalf, single secondHalf]) (cutPacket s) := by
  by_cases hs : s = 0
  · subst hs
    apply spelled_of_no_stamps
    · rfl
    · intro w hw
      change w ∈ [firstHalf, secondHalf] at hw
      rcases List.mem_cons.mp hw with rfl | hw
      · rfl
      · rw [List.mem_singleton.mp hw]
        rfl
  · have hnone : sentOn s [single firstHalf, single secondHalf] = [] := by
      have hzero : ((0 : UInt16) == s) = false := by simpa using Ne.symm hs
      simp [sentOn, onStream, single, hzero]
    rw [hnone, cutPacket, if_neg hs]
    exact spelled_of_no_stamps rfl fun w hw => absurd hw List.not_mem_nil

/-- A packet that goes over two packets of the network comes out as two. -/
theorem packet_cut_in_two :
    ¬ ∀ (received : List Udp) (items : UInt16 → List Item),
      (∀ s, Spelled (sentOn s received) (items s)) →
        ∃ h, ReceiverMain start (received.map Udp.datagram) = .ok h ∧ Reassembled items h := by
  intro hall
  obtain ⟨h, hrun, hwhole⟩ := hall _ _ cutPacket_spelled
  have hcut : ReceiverMain start ([single firstHalf, single secondHalf].map Udp.datagram) =
      .ok ⟨[], [], [⟨0, [0x04030201, 0x0605]⟩, ⟨0, [7]⟩], []⟩ := rfl
  rw [hcut] at hrun
  cases hrun
  have hlen := congrArg List.length (hwhole 0)
  revert hlen
  decide

/-- A packet in one piece, and sixteen bytes of another for which the loop does not end. -/
theorem whole_packet_reassembled :
    (∃ h, ReceiverMain start [(single (.data startOfPacket (false, 1) (false, 2) (false, 3)
        (false, 4) (false, 5) endOfPacket)).datagram] = .ok h ∧
      (Reassembled (fun s => if s = 0 then [.packet 1 [2, 3, 4, 5]] else []) h ↔
        ∀ s, CutBetween s [single (.data startOfPacket (false, 1) (false, 2) (false, 3)
          (false, 4) (false, 5) endOfPacket)]
            (if s = 0 then [.packet 1 [2, 3, 4, 5]] else []))) ∧
    ((∃ h', receive ⟨[0, 0, 0, 0, 0xd000, 0, 0, 0], false⟩ start = .ok h') ↔
      LongEnough [0, 0, 0, 0, 0xd000, 0, 0, 0]) := by
  apply reassembles_iff [single _] (fun s => if s = 0 then [.packet 1 [2, 3, 4, 5]] else [])
    _ [] (fun d hd => absurd hd List.not_mem_nil) start rfl ⟨_, false⟩ (by decide)
  intro s
  by_cases hs : s = 0
  · subst hs
    apply spelled_of_no_stamps rfl
    intro w hw
    rw [List.mem_singleton.mp hw]
    rfl
  · have hnone : sentOn s [single (.data startOfPacket (false, 1) (false, 2) (false, 3)
        (false, 4) (false, 5) endOfPacket)] = [] := by
      have hzero : ((0 : UInt16) == s) = false := by simpa using Ne.symm hs
      simp [sentOn, onStream, single, hzero]
    rw [hnone, if_neg hs]
    exact spelled_of_no_stamps rfl fun w hw => absurd hw List.not_mem_nil

end Yarr.Itsdaq
