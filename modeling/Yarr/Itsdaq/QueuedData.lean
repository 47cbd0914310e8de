import Mathlib.Data.List.GetD
import Yarr.Itsdaq.ItsdaqHandler

/-!
# What `QueueData` makes of the words of a packet of the network

The bytes of the words that are read together are symbols of a stream. Each group
between two ends is queued as words of four bytes, and so is what is open behind
the last word.
-/

namespace Yarr.Itsdaq

open Delimited

/-! ## Four bytes to a word -/

/-- The first byte is the lowest; the rest is zero. -/
def wordAt (bytes : List UInt8) (j : Nat) : UInt32 :=
  (bytes.getD (4 * j) 0).toUInt32 ||| ((bytes.getD (4 * j + 1) 0).toUInt32 <<< 8) |||
    ((bytes.getD (4 * j + 2) 0).toUInt32 <<< 16) ||| ((bytes.getD (4 * j + 3) 0).toUInt32 <<< 24)

def pack (bytes : List UInt8) : List UInt32 :=
  (List.range ((bytes.length + 3) / 4)).map (wordAt bytes)

theorem getD_concat_of_ne (bytes : List UInt8) (b : UInt8) {k : Nat} (hk : k ≠ bytes.length) :
    (bytes ++ [b]).getD k 0 = bytes.getD k 0 := by
  rcases Nat.lt_or_gt_of_ne hk with hlt | hgt
  · rw [List.getD_append _ _ _ _ hlt]
  · rw [List.getD_eq_default _ _ (by simp; omega), List.getD_eq_default _ _ (by omega)]

theorem getD_concat (bytes : List UInt8) (b : UInt8) :
    (bytes ++ [b]).getD bytes.length 0 = b := by
  simp

theorem wordAt_concat_of_ne (bytes : List UInt8) (b : UInt8) {j : Nat}
    (hj : j ≠ bytes.length / 4) : wordAt (bytes ++ [b]) j = wordAt bytes j := by
  unfold wordAt
  rw [getD_concat_of_ne bytes b (by omega), getD_concat_of_ne bytes b (by omega),
    getD_concat_of_ne bytes b (by omega), getD_concat_of_ne bytes b (by omega)]

theorem wordAt_eq_zero {bytes : List UInt8} {j : Nat} (hj : bytes.length ≤ 4 * j) :
    wordAt bytes j = 0 := by
  unfold wordAt
  rw [List.getD_eq_default _ _ (by omega), List.getD_eq_default _ _ (by omega),
    List.getD_eq_default _ _ (by omega), List.getD_eq_default _ _ (by omega)]
  rfl

/-- A byte more goes to the next free place of its word. -/
theorem wordAt_concat (bytes : List UInt8) (b : UInt8) :
    wordAt (bytes ++ [b]) (bytes.length / 4) =
      wordAt bytes (bytes.length / 4) |||
        (b.toUInt32 <<< UInt32.ofNat (bytes.length % 4 * 8)) := by
  have hlast := getD_concat bytes b
  have hsame : ∀ k, k ≠ bytes.length → (bytes ++ [b]).getD k 0 = bytes.getD k 0 :=
    fun k hk => getD_concat_of_ne bytes b hk
  have hfree : ∀ k, bytes.length ≤ k → bytes.getD k 0 = 0 :=
    fun k hk => List.getD_eq_default _ _ hk
  generalize hq : bytes.length / 4 = q
  unfold wordAt
  rcases (by omega : bytes.length % 4 = 0 ∨ bytes.length % 4 = 1 ∨ bytes.length % 4 = 2 ∨
    bytes.length % 4 = 3) with hm | hm | hm | hm
  · rw [show bytes.length = 4 * q by omega] at hlast
    rw [hlast, hsame (4 * q + 1) (by omega), hsame (4 * q + 2) (by omega),
      hsame (4 * q + 3) (by omega), hfree (4 * q) (by omega), hfree (4 * q + 1) (by omega),
      hfree (4 * q + 2) (by omega), hfree (4 * q + 3) (by omega), hm]
    simp
  · rw [show bytes.length = 4 * q + 1 by omega] at hlast
    rw [hlast, hsame (4 * q) (by omega), hsame (4 * q + 2) (by omega),
      hsame (4 * q + 3) (by omega), hfree (4 * q + 1) (by omega),
      hfree (4 * q + 2) (by omega), hfree (4 * q + 3) (by omega), hm]
    simp
  · rw [show bytes.length = 4 * q + 2 by omega] at hlast
    rw [hlast, hsame (4 * q) (by omega), hsame (4 * q + 1) (by omega),
      hsame (4 * q + 3) (by omega), hfree (4 * q + 2) (by omega),
      hfree (4 * q + 3) (by omega), hm]
    simp
  · rw [show bytes.length = 4 * q + 3 by omega] at hlast
    rw [hlast, hsame (4 * q) (by omega), hsame (4 * q + 1) (by omega),
      hsame (4 * q + 2) (by omega), hfree (4 * q + 3) (by omega), hm]
    simp

/-! ## Reading the words that were gathered -/

variable {stream : UInt16}

def rawOf (stream : UInt16) (bytes : List UInt8) : RawData := ⟨stream.toUInt32, pack bytes⟩

def symbolOf (b : Bool × UInt8) : Symbol UInt8 :=
  if b.1 then if b.2 = 0xdc then .close else .idle else .item b.2

def symbols (words : List UInt64) : List (Symbol UInt8) :=
  (words.flatMap bytesOf).map symbolOf

theorem symbols_append (ws vs : List UInt64) : symbols (ws ++ vs) = symbols ws ++ symbols vs := by
  unfold symbols
  rw [List.flatMap_append, List.map_append]

/-- The groups that are queued already, and the bytes of the open one. -/
structure Shows (stream : UInt16) (len32 : Nat) (r : Reading) (done : List (List UInt8))
    (pending : List UInt8) : Prop where
  pushed : r.pushed = done.map (rawOf stream)
  buf_off : r.buf_off = pending.length
  data : r.data = ⟨stream.toUInt32, (List.range len32).map (wordAt pending)⟩

theorem newData_ok (stream : UInt16) {len32 : Nat} (hlen : 0 < len32) :
    newData stream len32 = .ok ⟨stream.toUInt32, (List.range len32).map (wordAt [])⟩ := by
  unfold newData RawData.assign
  rw [if_pos (by simpa using hlen)]
  have hbuf : (List.replicate len32 (0 : UInt32)).modify 0 (fun _ => 0) =
      (List.range len32).map (wordAt []) := by
    apply List.ext_getElem (by simp)
    intro j _ _
    rw [List.getElem_modify, List.getElem_map, wordAt_eq_zero (Nat.zero_le _)]
    simp
  rw [hbuf]

theorem resize_wordAt (adr : UInt32) (len32 : Nat) (pending : List UInt8)
    (hfit : (pending.length + 3) / 4 ≤ len32) :
    (⟨adr, (List.range len32).map (wordAt pending)⟩ : RawData).resize
      ((pending.length + 3) / 4) = ⟨adr, pack pending⟩ := by
  unfold RawData.resize pack
  rw [List.length_map, List.length_range, Nat.sub_eq_zero_of_le hfit, List.replicate_zero,
    List.append_nil, ← List.map_take, List.take_range, Nat.min_eq_left hfit]

theorem modify_wordAt (len32 : Nat) (pending : List UInt8) (b : UInt8) :
    ((List.range len32).map (wordAt pending)).modify (pending.length / 4)
        (fun w => w ||| (b.toUInt32 <<< UInt32.ofNat (pending.length % 4 * 8))) =
      (List.range len32).map (wordAt (pending ++ [b])) := by
  apply List.ext_getElem (by simp)
  intro j _ _
  rw [List.getElem_modify, List.getElem_map, List.getElem_map, List.getElem_range]
  by_cases hj : pending.length / 4 = j
  · subst hj
    rw [if_pos rfl, wordAt_concat]
  · rw [if_neg hj, wordAt_concat_of_ne pending b (Ne.symm hj)]

theorem modify_wordAt_next (len32 : Nat) (pending : List UInt8) (hfull : pending.length % 4 = 0) :
    ((List.range len32).map (wordAt pending)).modify (pending.length / 4) (fun _ => 0) =
      (List.range len32).map (wordAt pending) := by
  apply List.ext_getElem (by simp)
  intro j _ _
  rw [List.getElem_modify, List.getElem_map, List.getElem_range]
  by_cases hj : pending.length / 4 = j
  · rw [if_pos hj, wordAt_eq_zero (by omega)]
  · rw [if_neg hj]

/-- One byte: the buffer has room for the bytes that are still to come. -/
theorem readByte_shows {len32 : Nat} {r : Reading} {done : List (List UInt8)}
    {pending : List UInt8} (hr : Shows stream len32 r done pending) (b : Bool × UInt8)
    (hroom : pending.length + 1 < 4 * len32) : ∃ r', readByte stream len32 r b = .ok r' ∧
      Shows stream len32 r' (done ++ (scan pending [symbolOf b]).1)
        (scan pending [symbolOf b]).2 := by
  unfold readByte symbolOf
  by_cases hcontrol : b.1 = true
  · rw [if_pos hcontrol, if_pos hcontrol]
    by_cases heop : b.2 = 0xdc
    · rw [if_pos heop, if_pos heop, newData_ok stream (by omega)]
      refine ⟨_, rfl, ?_, rfl, rfl⟩
      simp only [scan]
      rw [hr.pushed, hr.data, hr.buf_off, resize_wordAt _ _ _ (by omega), List.map_append]
      rfl
    · rw [if_neg heop, if_neg heop]
      refine ⟨r, rfl, ?_⟩
      simpa [scan] using hr
  · rw [if_neg hcontrol, if_neg hcontrol]
    have hlen : (pending ++ [b.2]).length = pending.length + 1 := by simp
    have hfirst : r.data.assign (r.buf_off / 4) (fun w =>
        w ||| (b.2.toUInt32 <<< UInt32.ofNat (r.buf_off % 4 * 8))) =
          .ok ⟨stream.toUInt32, (List.range len32).map (wordAt (pending ++ [b.2]))⟩ := by
      unfold RawData.assign
      rw [hr.data, hr.buf_off, if_pos (by simp; omega), modify_wordAt]
    rw [hfirst, hr.buf_off]
    show ∃ r', (if (pending.length + 1) % 4 = 0 then _ else _) = Except.ok r' ∧ _
    by_cases hfull : (pending.length + 1) % 4 = 0
    · have hnext : (⟨stream.toUInt32, (List.range len32).map (wordAt (pending ++ [b.2]))⟩ :
          RawData).assign ((pending.length + 1) / 4) (fun _ => 0) =
            .ok ⟨stream.toUInt32, (List.range len32).map (wordAt (pending ++ [b.2]))⟩ := by
        unfold RawData.assign
        rw [if_pos (by simp; omega)]
        show Except.ok (RawData.mk stream.toUInt32 (((List.range len32).map
          (wordAt (pending ++ [b.2]))).modify ((pending.length + 1) / 4) fun _ => 0)) = _
        rw [← hlen, modify_wordAt_next _ _ (by rw [hlen]; exact hfull)]
      rw [if_pos hfull, hnext]
      refine ⟨_, rfl, ?_, hlen.symm, rfl⟩
      simpa [scan] using hr.pushed
    · rw [if_neg hfull]
      refine ⟨_, rfl, ?_, hlen.symm, rfl⟩
      simpa [scan] using hr.pushed

theorem readBytes_shows {len32 : Nat} (bytes : List (Bool × UInt8)) {r : Reading}
    {done : List (List UInt8)} {pending : List UInt8} (hr : Shows stream len32 r done pending)
    (hroom : pending.length + bytes.length < 4 * len32) :
    ∃ r', bytes.foldlM (readByte stream len32) r = .ok r' ∧
      Shows stream len32 r' (done ++ (scan pending (bytes.map symbolOf)).1)
        (scan pending (bytes.map symbolOf)).2 := by
  induction bytes generalizing r done pending with
  | nil =>
      refine ⟨r, rfl, ?_⟩
      simpa [scan] using hr
  | cons b bytes ih =>
      rw [List.length_cons] at hroom
      obtain ⟨r₁, hread, hshows⟩ := readByte_shows hr b (by omega)
      have hlen := length_pending pending [symbolOf b]
      rw [List.length_singleton] at hlen
      obtain ⟨r₂, hrest, hshows₂⟩ := ih hshows (by omega)
      refine ⟨r₂, ?_, ?_⟩
      · rw [List.foldlM_cons, hread]
        exact hrest
      · have happ := scan_append pending [symbolOf b] (bytes.map symbolOf)
        rw [List.map_cons, ← List.singleton_append, happ, ← List.append_assoc]
        exact hshows₂

theorem length_flatMap_bytesOf (words : List UInt64) :
    (words.flatMap bytesOf).length = 7 * words.length := by
  induction words with
  | nil => rfl
  | cons w words ih =>
      rw [List.flatMap_cons, List.length_append, ih, List.length_cons]
      show 7 + _ = _
      omega

theorem readPartial_eq (stream : UInt16) {words : List UInt64} (hwords : words ≠ []) :
    readPartial stream words = .ok ((flushed (symbols words)).map (rawOf stream)) := by
  have hpos := List.length_pos_iff.mpr hwords
  have hlen := length_flatMap_bytesOf words
  have hstart : Shows stream (2 * words.length)
      ⟨⟨stream.toUInt32, (List.range (2 * words.length)).map (wordAt [])⟩, 0, []⟩ [] [] :=
    ⟨rfl, rfl, rfl⟩
  obtain ⟨r, hread, hr⟩ := readBytes_shows (words.flatMap bytesOf) hstart
    (by rw [hlen, List.length_nil]; omega)
  have hpending := length_pending [] (symbols words)
  rw [symbols, List.length_map, hlen, List.length_nil] at hpending
  have hdata := newData_ok stream (by omega : 0 < 2 * words.length)
  simp only [readPartial]
  rw [hdata]
  show Except.map _ ((words.flatMap bytesOf).foldlM _ _) = _
  rw [hread]
  show Except.ok (if 0 < r.buf_off then
    r.pushed ++ [r.data.resize ((r.buf_off + 3) / 4)] else r.pushed) = _
  rw [hr.pushed, hr.buf_off, hr.data, resize_wordAt _ _ _ (by omega)]
  unfold flushed openAt symbols
  by_cases hopen : (scan [] ((words.flatMap bytesOf).map symbolOf)).2 = []
  · rw [if_pos hopen, hopen, if_neg (by simp), List.append_nil]
    rfl
  · rw [if_neg hopen, if_pos (List.length_pos_iff.mpr hopen), List.nil_append, List.map_append]
    rfl

/-! ## The words of a packet of the network -/

def isData (word : UInt64) : Bool := !isTimestamp word

/-- The words that are read together. -/
def gathered : List UInt64 → List UInt64 → List (List UInt64)
  | _, [] => []
  | part, word :: rest =>
      if isTimestamp word then
        if part = [] then gathered [] rest else part :: gathered [] rest
      else if rest = [] then [part ++ [word]] else gathered (part ++ [word]) rest

/-- What one packet of the network adds. -/
def queued (stream : UInt16) (words : List UInt64) (h : ItsdaqPrivate) : ItsdaqPrivate :=
  { h with
    rawData := h.rawData ++
      (gathered h.partial_buffer words).flatMap fun part =>
        (flushed (symbols part)).map (rawOf stream)
    partial_buffer := if words = [] then h.partial_buffer else [] }

theorem flush_eq (stream : UInt16) {h : ItsdaqPrivate} (hpart : h.partial_buffer ≠ []) :
    flush stream h = .ok
      { h with
        rawData := h.rawData ++ (flushed (symbols h.partial_buffer)).map (rawOf stream)
        partial_buffer := [] } := by
  unfold flush
  rw [readPartial_eq stream hpart]
  rfl

/-- A time stamp ends what was gathered, unless there is nothing; so does the last word. -/
theorem queueLoop_eq (stream : UInt16) {get : Nat → Except Fault UInt64} {wordCount : Nat}
    (hsmall : wordCount ≤ 2 ^ 31) (words : List UInt64) (i : Nat) (startOffset : Int)
    (h : ItsdaqPrivate) (hcount : i + words.length = wordCount)
    (hget : ∀ k (hk : k < words.length), get (i + k) = .ok (words.get ⟨k, hk⟩))
    (hle : startOffset ≤ i - 1) (hoffset : startOffset = i - 1 ↔ h.partial_buffer = []) :
    queueLoop stream get wordCount words.length i startOffset h = .ok (queued stream words h) := by
  induction words generalizing i startOffset h with
  | nil =>
      unfold queueLoop queued gathered
      simp
  | cons word rest ih =>
      rw [List.length_cons] at hcount
      have hword := hget 0 (by simp)
      rw [Nat.add_zero] at hword
      have hrest : ∀ k (hk : k < rest.length), get (i + 1 + k) = .ok (rest.get ⟨k, hk⟩) := by
        intro k hk
        have hnext := hget (k + 1) (by simpa using hk)
        rw [show i + (k + 1) = i + 1 + k by omega] at hnext
        exact hnext
      have hcount' : i + 1 + rest.length = wordCount := by omega
      have hfresh : (i : Int) = ((i + 1 : Nat) : Int) - 1 := by omega
      rw [List.length_cons]
      unfold queueLoop
      rw [if_neg (by omega), hword]
      show (if isTimestamp word = true then _ else _) = _
      by_cases hstamp : isTimestamp word = true
      · rw [if_pos hstamp]
        by_cases hpart : h.partial_buffer = []
        · rw [if_pos (hoffset.mpr hpart),
            ih (i + 1) i h hcount' hrest (by omega) ⟨fun _ => hpart, fun _ => hfresh⟩]
          simp [queued, gathered, hstamp, hpart]
        · rw [if_neg fun heq => hpart (hoffset.mp heq), flush_eq stream hpart]
          show queueLoop _ _ _ _ _ _ _ = _
          rw [ih (i + 1) i _ hcount' hrest (by omega) ⟨fun _ => rfl, fun _ => hfresh⟩]
          simp [queued, gathered, hstamp, hpart]
      · rw [if_neg hstamp]
        by_cases hlast : rest = []
        · subst hlast
          rw [List.length_nil] at hcount'
          show (if i ≠ wordCount - 1 then _ else _) = _
          rw [if_neg (by omega), flush_eq stream (by simp)]
          simp [queued, gathered, hstamp, queueLoop, Except.bind]
        · have hpos := List.length_pos_iff.mpr hlast
          show (if i ≠ wordCount - 1 then _ else _) = _
          rw [if_pos (by omega)]
          have hopen : startOffset = ((i + 1 : Nat) : Int) - 1 ↔
              h.partial_buffer ++ [word] = [] := by
            simp
            omega
          rw [ih (i + 1) startOffset _ hcount' hrest (by omega) hopen]
          simp [queued, gathered, hstamp, hlast]

/-! ## Where the words stand -/

def wordOf (a b c d : UInt16) : UInt64 :=
  (a.toUInt64 <<< 48) ||| (b.toUInt64 <<< 32) ||| (c.toUInt64 <<< 16) ||| d.toUInt64

/-- Ten words stand before the first of the data, and three behind the last. -/
def payload (words : List UInt16) : List UInt64 :=
  (List.range ((words.length - 13) / 4)).map fun i =>
    wordOf (words.getD (4 * i + 10) 0) (words.getD (4 * i + 11) 0) (words.getD (4 * i + 12) 0)
      (words.getD (4 * i + 13) 0)

theorem readWord_ok {words : List UInt16} {i : Nat} (hi : i < words.length) :
    readWord words i = .ok (words.getD i 0) := by
  unfold readWord
  rw [List.getElem?_eq_getElem hi, List.getD_eq_getElem _ _ hi]

theorem readWord_outside {words : List UInt16} {i : Nat} (hi : words.length ≤ i) :
    readWord words i = .error .outside := by
  unfold readWord
  rw [List.getElem?_eq_none hi]

theorem get64_ok {words : List UInt16} {len : UInt64} {i : Nat} (hlen : i < len.toNat)
    (hin : 4 * i + 13 < words.length) :
    get64 words 7 len i = .ok (wordOf (words.getD (4 * i + 10) 0) (words.getD (4 * i + 11) 0)
      (words.getD (4 * i + 12) 0) (words.getD (4 * i + 13) 0)) := by
  unfold get64
  rw [if_neg (by omega), show 7 + (i * 4 + 3) = 4 * i + 10 by omega,
    show 7 + (i * 4 + 4) = 4 * i + 11 by omega, show 7 + (i * 4 + 5) = 4 * i + 12 by omega,
    show 7 + (i * 4 + 6) = 4 * i + 13 by omega, readWord_ok (by omega), readWord_ok (by omega),
    readWord_ok (by omega), readWord_ok (by omega)]
  rfl

/-- The number of words that `QueueData` is told. -/
def queuedLength (words : List UInt16) : UInt64 := UInt64.ofNat words.length - (7 + 1)

theorem queuedLength_toNat {words : List UInt16} (hlong : 8 ≤ words.length)
    (hshort : words.length < 2 ^ 31) : (queuedLength words).toNat = words.length - 8 := by
  have hword : (UInt64.ofNat words.length).toNat = words.length := by
    rw [UInt64.toNat_ofNat']
    omega
  unfold queuedLength
  rw [UInt64.toNat_sub_of_le _ _ (by rw [UInt64.le_iff_toNat_le, hword]; exact hlong), hword]
  rfl

theorem wordCount_toNat {words : List UInt16} (hlong : 13 ≤ words.length)
    (hshort : words.length < 2 ^ 31) :
    ((queuedLength words - (3 + 2)) / 4).toNat = (words.length - 13) / 4 := by
  have hlen := queuedLength_toNat (by omega) hshort
  have hfive : (3 + 2 : UInt64).toNat = 5 := rfl
  rw [UInt64.toNat_div, UInt64.toNat_sub_of_le _ _ (by
    rw [UInt64.le_iff_toNat_le, hlen, hfive]
    omega), hlen, hfive]
  show (words.length - 8 - 5) / 4 = _
  omega

theorem QueueData_of_reads {words : List UInt16} {start : Nat} {len word : UInt64}
    {stream : UInt16} (hfirst : get64 words start len 0 = .ok word)
    (hstream : readWord words start = .ok stream) (h : ItsdaqPrivate) :
    QueueData words start len h =
      queueLoop (ntohs stream) (get64 words start len) ((len - (3 + 2)) / 4).toNat
        ((len - (3 + 2)) / 4).toNat 0 (-1) h := by
  unfold QueueData
  rw [hfirst, hstream]
  rfl

theorem QueueData_eq {words : List UInt16} (hlong : 14 ≤ words.length)
    (hshort : words.length < 2 ^ 31) {h : ItsdaqPrivate} (hpart : h.partial_buffer = []) :
    QueueData words 7 (queuedLength words) h =
      .ok (queued (ntohs (words.getD 7 0)) (payload words) h) := by
  have hlen := queuedLength_toNat (by omega) hshort
  have hcount := wordCount_toNat (by omega) hshort
  have hpayload : (payload words).length = (words.length - 13) / 4 := by
    unfold payload
    rw [List.length_map, List.length_range]
  have hget : ∀ k (hk : k < (payload words).length),
      get64 words 7 (queuedLength words) (0 + k) = .ok ((payload words).get ⟨k, hk⟩) := by
    intro k hk
    rw [Nat.zero_add, get64_ok (by omega) (by omega)]
    simp [payload]
  have hloop := queueLoop_eq (ntohs (words.getD 7 0)) (by omega : (payload words).length ≤ 2 ^ 31)
    (payload words) 0 (-1) h (Nat.zero_add _) hget (by simp) (by simp [hpart])
  rw [hpayload] at hloop
  rw [QueueData_of_reads (get64_ok (by omega) (by omega)) (readWord_ok (by omega)), hcount]
  exact hloop

/-! ## Packets that are too short -/

/-- The loop never comes to its end when it would have to count too far. -/
theorem queueLoop_endless (stream : UInt16) (get : Nat → Except Fault UInt64) (wordCount : Nat)
    (n i : Nat) (startOffset : Int) (h h' : ItsdaqPrivate) (hfar : 2 ^ 31 < i + n)
    (hi : i ≤ 2 ^ 31) :
    queueLoop stream get wordCount n i startOffset h ≠ .ok h' := by
  induction n generalizing i startOffset h with
  | zero => omega
  | succ n ih =>
      unfold queueLoop
      by_cases hstop : 2 ^ 31 ≤ i
      · rw [if_pos hstop]
        simp
      · rw [if_neg hstop]
        have hnext := fun startOffset h => ih (i + 1) startOffset h (by omega) (by omega)
        have hflushed : ∀ (startOffset : Int) (h : ItsdaqPrivate), (flush stream h).bind (fun h =>
            queueLoop stream get wordCount n (i + 1) startOffset h) ≠ .ok h' := by
          intro startOffset h
          cases flush stream h with
          | error e => simp [Except.bind]
          | ok h => exact hnext startOffset h
        cases get i with
        | error e => simp [Except.bind]
        | ok word =>
            show (if isTimestamp word = true then _ else _) ≠ _
            split
            · split
              · exact hnext _ _
              · exact hflushed _ _
            · show (if i ≠ wordCount - 1 then _ else _) ≠ _
              split
              · exact hnext _ _
              · exact hflushed _ _

theorem get64_outside {words : List UInt16} {len : UInt64} (hlen : 0 < len.toNat)
    (hout : words.length ≤ 13) (word : UInt64) : get64 words 7 len 0 ≠ .ok word := by
  have hread : ∀ i w, readWord words i = .ok w → i < words.length := by
    intro i w hw
    by_cases hi : i < words.length
    · exact hi
    · rw [readWord_outside (by omega)] at hw
      cases hw
  unfold get64
  rw [if_neg (by omega)]
  cases readWord words (7 + (0 * 4 + 3)) with
  | error e => simp [Except.bind]
  | ok a =>
      cases readWord words (7 + (0 * 4 + 4)) with
      | error e => simp [Except.bind]
      | ok b =>
          cases readWord words (7 + (0 * 4 + 5)) with
          | error e => simp [Except.bind]
          | ok c =>
              cases hd : readWord words (7 + (0 * 4 + 6)) with
              | error e => simp [Except.bind, Except.map]
              | ok d =>
                  have hlast := hread _ _ hd
                  omega

/-- With no word at all the difference of the lengths wraps around, and with one word it does so
in `QueueData`. -/
theorem QueueData_short {words : List UInt16} (hlong : 7 ≤ words.length)
    (hshort : words.length < 14) (h h' : ItsdaqPrivate) :
    QueueData words 7 (queuedLength words) h ≠ .ok h' := by
  intro hok
  by_cases height : words.length = 8
  · have hzero : queuedLength words = 0 := by
      unfold queuedLength
      rw [height]
      rfl
    have hget : get64 words 7 (queuedLength words) 0 = .ok 0 := by
      unfold get64
      rw [hzero]
      rfl
    have hfar : 2 ^ 31 < ((queuedLength words - (3 + 2)) / 4).toNat := by
      rw [hzero]
      decide
    rw [QueueData_of_reads hget (readWord_ok (by omega))] at hok
    generalize ((queuedLength words - (3 + 2)) / 4).toNat = wordCount at hfar hok
    exact queueLoop_endless _ _ wordCount wordCount 0 (-1) h h' (by omega) (by omega) hok
  · have hpos : 0 < (queuedLength words).toNat := by
      by_cases hseven : words.length = 7
      · unfold queuedLength
        rw [hseven]
        decide
      · rw [queuedLength_toNat (by omega) (by omega)]
        omega
    unfold QueueData at hok
    cases hget : get64 words 7 (queuedLength words) 0 with
    | error e =>
        rw [hget] at hok
        cases hok
    | ok word => exact get64_outside hpos (by omega) word hget

/-! ## Every length -/

theorem readWords_ok (words : List UInt16) (n i : Nat) (hin : i + n ≤ words.length) :
    ∃ regs, readWords words n i = .ok regs := by
  induction n generalizing i with
  | zero => exact ⟨[], rfl⟩
  | succ n ih =>
      obtain ⟨regs, hregs⟩ := ih (i + 1) (by omega)
      refine ⟨words.getD i 0 :: regs, ?_⟩
      unfold readWords
      rw [readWord_ok (by omega), hregs]
      rfl

theorem readWords_outside (words : List UInt16) (n i : Nat) (hn : 0 < n)
    (hout : words.length < i + n) (regs : List UInt16) : readWords words n i ≠ .ok regs := by
  induction n generalizing i regs with
  | zero => omega
  | succ n ih =>
      unfold readWords
      by_cases hi : i < words.length
      · rw [readWord_ok hi]
        intro hok
        cases hrest : readWords words n (i + 1) with
        | error e =>
            rw [hrest] at hok
            cases hok
        | ok rest => exact ih (i + 1) (by omega) (by omega) rest hrest
      · rw [readWord_outside (by omega)]
        simp [Except.bind]

def isDataOpcode (opcode : UInt16) : Bool := opcode &&& 0xf000 == 0xd000

/-- The shortest packets that are read as they should be. -/
structure LongEnough (words : List UInt16) : Prop where
  opcode : 5 ≤ words.length
  report : words.getD 4 0 ∈ reports → 7 ≤ words.length
  data : isDataOpcode (words.getD 4 0) = true → 7 ≤ words.length → 14 ≤ words.length

theorem output_words (d : Datagram) : d.output_bytes / 2 = d.words.length := by
  unfold Datagram.output_bytes
  have hodd : d.odd.toNat ≤ 1 := Bool.toNat_le d.odd
  omega

theorem not_data_of_ack {opcode : UInt16} (hack : opcode ∈ acks) :
    isDataOpcode opcode = false := by
  simp only [acks, List.mem_cons, List.not_mem_nil, or_false] at hack
  rcases hack with rfl | rfl | rfl | rfl <;> rfl

theorem not_data_of_report {opcode : UInt16} (hreport : opcode ∈ reports) :
    isDataOpcode opcode = false := by
  simp only [reports, List.mem_cons, List.not_mem_nil, or_false] at hreport
  rcases hreport with rfl | rfl | rfl <;> rfl

theorem not_report_of_ack {opcode : UInt16} (hack : opcode ∈ acks) : opcode ∉ reports := by
  simp only [acks, List.mem_cons, List.not_mem_nil, or_false] at hack
  rcases hack with rfl | rfl | rfl | rfl <;> decide

theorem length_lt_seven (d : Datagram) : d.output_bytes < 7 * 2 ↔ d.words.length < 7 := by
  unfold Datagram.output_bytes
  have hodd : d.odd.toNat ≤ 1 := Bool.toNat_le d.odd
  omega

variable {d : Datagram} {h h' : ItsdaqPrivate}

theorem receive_ack (hfive : 5 ≤ d.words.length) (hack : d.words.getD 4 0 ∈ acks) :
    receive d h = .ok h := by
  unfold receive
  rw [readWord_ok (by omega)]
  simp only [Except.bind]
  rw [if_pos hack]

theorem receive_report (hfive : 5 ≤ d.words.length) (hreport : d.words.getD 4 0 ∈ reports) :
    receive d h =
      (readWords d.words (UInt64.ofNat d.words.length - 7).toNat 7).map fun regs =>
        { h with
          latest_status_regs :=
            if d.words.getD 4 0 = 0x19 then regs else h.latest_status_regs
          latest_sys_status_regs :=
            if d.words.getD 4 0 = 0xf9 then regs else h.latest_sys_status_regs } := by
  have hack : d.words.getD 4 0 ∉ acks := fun hack => not_report_of_ack hack hreport
  unfold receive
  rw [readWord_ok (by omega), output_words]
  simp only [Except.bind]
  rw [if_neg hack, if_pos hreport]

/-- Neither an acknowledgement nor a report: only data is queued, and only if there is enough. -/
theorem receive_other (hfive : 5 ≤ d.words.length) (hack : d.words.getD 4 0 ∉ acks)
    (hreport : d.words.getD 4 0 ∉ reports) :
    receive d h =
      if isDataOpcode (d.words.getD 4 0) = true ∧ 7 ≤ d.words.length then
        QueueData d.words 7 (queuedLength d.words) h
      else .ok h := by
  unfold receive
  rw [readWord_ok (by omega), output_words]
  simp only [Except.bind]
  rw [if_neg hack, if_neg hreport]
  by_cases hseven : d.words.length < 7
  · rw [if_pos ((length_lt_seven d).mpr hseven), if_neg (by omega)]
  · rw [if_neg fun hlt => hseven ((length_lt_seven d).mp hlt)]
    by_cases hdata : d.words.getD 4 0 &&& 0xf000 = 0xd000
    · rw [if_neg (by simpa using hdata), if_pos ⟨by simpa [isDataOpcode] using hdata, by omega⟩]
      rfl
    · rw [if_pos hdata, if_neg]
      rintro ⟨hopcode, _⟩
      exact hdata (by simpa [isDataOpcode] using hopcode)

theorem receive_data (hlong : 14 ≤ d.words.length) (hshort : d.words.length < 2 ^ 31)
    (hdata : isDataOpcode (d.words.getD 4 0) = true) (hpart : h.partial_buffer = []) :
    receive d h = .ok (queued (ntohs (d.words.getD 7 0)) (payload d.words) h) := by
  have hack : d.words.getD 4 0 ∉ acks := by
    intro hmem
    rw [not_data_of_ack hmem] at hdata
    cases hdata
  have hreport : d.words.getD 4 0 ∉ reports := by
    intro hmem
    rw [not_data_of_report hmem] at hdata
    cases hdata
  rw [receive_other (by omega) hack hreport, if_pos ⟨hdata, by omega⟩,
    QueueData_eq hlong hshort hpart]

theorem reportLength_toNat {words : List UInt16} (hlong : 7 ≤ words.length)
    (hshort : words.length < 2 ^ 31) :
    (UInt64.ofNat words.length - 7).toNat = words.length - 7 := by
  have hword : (UInt64.ofNat words.length).toNat = words.length := by
    rw [UInt64.toNat_ofNat']
    omega
  rw [UInt64.toNat_sub_of_le _ _ (by rw [UInt64.le_iff_toNat_le, hword]; exact hlong), hword]
  rfl

theorem reportLength_wraps {words : List UInt16} (hfive : 5 ≤ words.length)
    (hshort : words.length < 7) : 7 < (UInt64.ofNat words.length - 7).toNat := by
  rcases (by omega : words.length = 5 ∨ words.length = 6) with hlen | hlen
  · rw [hlen]
    decide
  · rw [hlen]
    decide

/-- What is received is read inside its bounds and to an end if and only if it is long enough. -/
theorem receive_ok_iff (hshort : d.words.length < 2 ^ 31) (hpart : h.partial_buffer = []) :
    (∃ h', receive d h = .ok h') ↔ LongEnough d.words := by
  by_cases hfive : 5 ≤ d.words.length
  · by_cases hack : d.words.getD 4 0 ∈ acks
    · constructor
      · intro _
        refine ⟨hfive, fun hreport => absurd hreport (not_report_of_ack hack), fun hdata => ?_⟩
        rw [not_data_of_ack hack] at hdata
        cases hdata
      · intro _
        exact ⟨h, receive_ack hfive hack⟩
    · by_cases hreport : d.words.getD 4 0 ∈ reports
      · rw [receive_report hfive hreport]
        constructor
        · rintro ⟨h', hok⟩
          refine ⟨hfive, fun _ => ?_, fun hdata => ?_⟩
          · by_contra hlt
            have hwraps := reportLength_wraps hfive (by omega)
            cases hread : readWords d.words (UInt64.ofNat d.words.length - 7).toNat 7 with
            | error e =>
                rw [hread] at hok
                cases hok
            | ok regs => exact readWords_outside _ _ 7 (by omega) (by omega) regs hread
          · rw [not_data_of_report hreport] at hdata
            cases hdata
        · intro hlong
          have hseven := hlong.report hreport
          obtain ⟨regs, hregs⟩ := readWords_ok d.words (d.words.length - 7) 7 (by omega)
          rw [reportLength_toNat hseven hshort, hregs]
          exact ⟨_, rfl⟩
      · rw [receive_other hfive hack hreport]
        by_cases hdata : isDataOpcode (d.words.getD 4 0) = true ∧ 7 ≤ d.words.length
        · rw [if_pos hdata]
          constructor
          · rintro ⟨h', hok⟩
            refine ⟨hfive, fun hmem => absurd hmem hreport, fun _ _ => ?_⟩
            by_contra hlt
            exact QueueData_short hdata.2 (by omega) h h' hok
          · intro hlong
            exact ⟨_, QueueData_eq (hlong.data hdata.1 hdata.2) hshort hpart⟩
        · rw [if_neg hdata]
          constructor
          · intro _
            exact ⟨hfive, fun hmem => absurd hmem hreport, fun hop hseven =>
              absurd ⟨hop, hseven⟩ hdata⟩
          · intro _
            exact ⟨h, rfl⟩
  · constructor
    · rintro ⟨h', hok⟩
      unfold receive at hok
      rw [readWord_outside (by omega)] at hok
      cases hok
    · intro hlong
      exact absurd hlong.opcode hfive

theorem queued_partial (stream : UInt16) (words : List UInt64) (h : ItsdaqPrivate)
    (hpart : h.partial_buffer = []) : (queued stream words h).partial_buffer = [] := by
  unfold queued
  by_cases hwords : words = []
  · simp [hwords, hpart]
  · simp [hwords]

theorem receive_partial (hshort : d.words.length < 2 ^ 31) (hpart : h.partial_buffer = [])
    (hok : receive d h = .ok h') : h'.partial_buffer = [] := by
  have hlong := (receive_ok_iff hshort hpart).mp ⟨h', hok⟩
  have hfive := hlong.opcode
  by_cases hack : d.words.getD 4 0 ∈ acks
  · rw [receive_ack hfive hack] at hok
    cases hok
    exact hpart
  · by_cases hreport : d.words.getD 4 0 ∈ reports
    · rw [receive_report hfive hreport] at hok
      cases hread : readWords d.words (UInt64.ofNat d.words.length - 7).toNat 7 with
      | error e =>
          rw [hread] at hok
          cases hok
      | ok regs =>
          rw [hread] at hok
          cases hok
          exact hpart
    · rw [receive_other hfive hack hreport] at hok
      by_cases hdata : isDataOpcode (d.words.getD 4 0) = true ∧ 7 ≤ d.words.length
      · rw [if_pos hdata, QueueData_eq (hlong.data hdata.1 hdata.2) hshort hpart] at hok
        cases hok
        exact queued_partial _ _ _ hpart
      · rw [if_neg hdata] at hok
        cases hok
        exact hpart

theorem ReceiverMain_partial (received : List Datagram)
    (hshort : ∀ d ∈ received, d.words.length < 2 ^ 31) (hpart : h.partial_buffer = [])
    (hok : ReceiverMain h received = .ok h') : h'.partial_buffer = [] := by
  unfold ReceiverMain at hok
  induction received generalizing h with
  | nil =>
      cases hok
      exact hpart
  | cons d received ih =>
      rw [List.foldlM_cons] at hok
      cases hfirst : receive d h with
      | error e =>
          rw [hfirst] at hok
          cases hok
      | ok h₁ =>
          rw [hfirst] at hok
          have hpart₁ := receive_partial (hshort d List.mem_cons_self) hpart hfirst
          exact ih (fun d hd => hshort d (List.mem_cons_of_mem _ hd)) hpart₁ hok

end Yarr.Itsdaq
