import Yarr.Core.Bits

/-!
# Binary event files

An event is written as its header, with the number of its hits, and the hits
one after the other. The number is kept in a counter of its own, which is
narrower than an event can be long.
-/

namespace Yarr.EventFile

open Bytes

/-- The union of `tot` with `ptot` and `ptoa` is one word. -/
structure FrontEndHit where
  col : UInt16
  row : UInt16
  tot : UInt16
  deriving DecidableEq

/-- Every operation counts the hits it adds. -/
structure FrontEndEvent where
  tag : UInt32
  l1id : UInt16
  bcid : UInt16
  nHits : UInt16
  hits : List FrontEndHit
  counted : nHits = UInt16.ofNat hits.length
  deriving DecidableEq

namespace FrontEndEvent

/-- `FrontEndEvent(arg_tag, arg_l1id, arg_bcid)`. -/
def new (arg_tag arg_l1id arg_bcid : UInt32) : FrontEndEvent where
  tag := arg_tag
  l1id := arg_l1id.toUInt16
  bcid := arg_bcid.toUInt16
  nHits := 0
  hits := []
  counted := rfl

def addEvent (e event : FrontEndEvent) : FrontEndEvent :=
  { e with
    hits := e.hits ++ event.hits
    nHits := e.nHits + event.nHits
    counted := by
      rw [e.counted, event.counted, List.length_append, UInt16.ofNat_add] }

def addHit (e : FrontEndEvent) (hit : FrontEndHit) : FrontEndEvent :=
  { e with
    hits := e.hits ++ [hit]
    nHits := e.nHits + 1
    counted := by
      rw [e.counted, List.length_append, UInt16.ofNat_add]
      rfl }

end FrontEndEvent

/-! ## The file -/

def FrontEndHit.bytes (hit : FrontEndHit) : List UInt8 :=
  store 2 hit.col.toNat ++ store 2 hit.row.toNat ++ store 2 hit.tot.toNat

/-- `sizeof(FrontEndHit)`. -/
def sizeofHit : Nat := 6

def FrontEndHit.ofBytes (bytes : List UInt8) : FrontEndHit where
  col := UInt16.ofNat (load (bytes.take 2))
  row := UInt16.ofNat (load ((bytes.drop 2).take 2))
  tot := UInt16.ofNat (load (bytes.drop 4))

namespace FrontEndEvent

/-- What `toFileBinary` writes. -/
def toFileBinary (e : FrontEndEvent) : List UInt8 :=
  store 4 e.tag.toNat ++ store 2 e.l1id.toNat ++ store 2 e.bcid.toNat ++
    store 2 e.nHits.toNat ++ e.hits.flatMap FrontEndHit.bytes

/-- The loop over the hits of an event. -/
def readHits : Nat → FrontEndEvent → List UInt8 → Option (FrontEndEvent × List UInt8)
  | 0, e, handle => some (e, handle)
  | t_hits + 1, e, handle => do
      let (hit, handle) ← read sizeofHit handle
      readHits t_hits (e.addHit (FrontEndHit.ofBytes hit)) handle

/-- `fromFileBinary`, with what is left of the file; nothing where the file ends too early. -/
def fromFileBinary (e : FrontEndEvent) (handle : List UInt8) :
    Option (FrontEndEvent × List UInt8) := do
  let (tag, handle) ← read 4 handle
  let (l1id, handle) ← read 2 handle
  let (bcid, handle) ← read 2 handle
  let (t_hits, handle) ← read 2 handle
  readHits (load t_hits) { e with
    tag := UInt32.ofNat (load tag)
    l1id := UInt16.ofNat (load l1id)
    bcid := UInt16.ofNat (load bcid) } handle

end FrontEndEvent

/-- Successive calls of `toFileBinary`. -/
def writeFile (events : List FrontEndEvent) : List UInt8 :=
  events.flatMap FrontEndEvent.toFileBinary

/-- `n` new events, each read with `fromFileBinary`. -/
def readFile : Nat → List UInt8 → Option (List FrontEndEvent × List UInt8)
  | 0, handle => some ([], handle)
  | n + 1, handle => do
      let (event, handle) ← (FrontEndEvent.new 0 0 0).fromFileBinary handle
      let (events, handle) ← readFile n handle
      return (event :: events, handle)

/-! ## Round trips -/

theorem load_store_16 (v : UInt16) : UInt16.ofNat (load (store 2 v.toNat)) = v := by
  have hlt : v.toNat < 256 ^ 2 := v.toNat_lt
  rw [load_store, Nat.mod_eq_of_lt hlt, UInt16.ofNat_toNat]

theorem load_store_32 (v : UInt32) : UInt32.ofNat (load (store 4 v.toNat)) = v := by
  have hlt : v.toNat < 256 ^ 4 := v.toNat_lt
  rw [load_store, Nat.mod_eq_of_lt hlt, UInt32.ofNat_toNat]

theorem FrontEndHit.length_bytes (hit : FrontEndHit) : hit.bytes.length = sizeofHit := by
  simp [FrontEndHit.bytes, sizeofHit]

theorem FrontEndHit.ofBytes_bytes (hit : FrontEndHit) : FrontEndHit.ofBytes hit.bytes = hit := by
  have hcol : hit.bytes.take 2 = store 2 hit.col.toNat := by
    simp [FrontEndHit.bytes, List.append_assoc]
  have hrow : (hit.bytes.drop 2).take 2 = store 2 hit.row.toNat := by
    simp [FrontEndHit.bytes, List.append_assoc]
  have htot : hit.bytes.drop 4 = store 2 hit.tot.toNat := by
    rw [FrontEndHit.bytes, List.drop_append_of_le_length (by simp), List.drop_of_length_le (by simp)]
    rfl
  unfold FrontEndHit.ofBytes
  rw [hcol, hrow, htot, load_store_16, load_store_16, load_store_16]

theorem FrontEndEvent.ext_hits {e f : FrontEndEvent} (htag : e.tag = f.tag)
    (hl1id : e.l1id = f.l1id) (hbcid : e.bcid = f.bcid) (hhits : e.hits = f.hits) : e = f := by
  have hcount : e.nHits = f.nHits := by rw [e.counted, f.counted, hhits]
  cases e
  cases f
  simp_all

/-- The number of hits that an event says it has. -/
def FrontEndEvent.written (e : FrontEndEvent) : Nat := e.hits.length % 65536

theorem FrontEndEvent.load_nHits (e : FrontEndEvent) :
    load (store 2 e.nHits.toNat) = e.written := by
  have hcount : e.nHits.toNat = e.hits.length % 65536 := by
    rw [e.counted]
    exact UInt16.toNat_ofNat'
  have hlt : e.nHits.toNat < 256 ^ 2 := e.nHits.toNat_lt
  rw [load_store, Nat.mod_eq_of_lt hlt, hcount]
  rfl

theorem FrontEndEvent.readHits_append (hits : List FrontEndHit) (rest : List UInt8) (n : Nat)
    (hn : n ≤ hits.length) (e : FrontEndEvent) :
    ∃ e', readHits n e (hits.flatMap FrontEndHit.bytes ++ rest) =
        some (e', (hits.drop n).flatMap FrontEndHit.bytes ++ rest) ∧
      e'.tag = e.tag ∧ e'.l1id = e.l1id ∧ e'.bcid = e.bcid ∧
      e'.hits = e.hits ++ hits.take n := by
  induction n generalizing hits e with
  | zero => exact ⟨e, rfl, rfl, rfl, rfl, by simp⟩
  | succ n ih =>
      obtain ⟨hit, hits', rfl⟩ := List.exists_cons_of_length_pos (Nat.lt_of_lt_of_le n.succ_pos hn)
      have hle : n ≤ hits'.length := by
        simp only [List.length_cons] at hn
        omega
      obtain ⟨e', hread, htag, hl1id, hbcid, hhits⟩ := ih hits' hle (e.addHit hit)
      refine ⟨e', ?_, htag, hl1id, hbcid, ?_⟩
      · rw [readHits, List.flatMap_cons, List.append_assoc,
          read_append hit.length_bytes]
        simp only [Option.bind_eq_bind, Option.bind_some, FrontEndHit.ofBytes_bytes]
        exact hread
      · rw [hhits]
        simp [addHit]

theorem FrontEndEvent.fromFileBinary_toFileBinary (e : FrontEndEvent) (rest : List UInt8) :
    ∃ e', (FrontEndEvent.new 0 0 0).fromFileBinary (e.toFileBinary ++ rest) =
        some (e', (e.hits.drop e.written).flatMap FrontEndHit.bytes ++ rest) ∧
      e'.tag = e.tag ∧ e'.l1id = e.l1id ∧ e'.bcid = e.bcid ∧
      e'.hits = e.hits.take e.written := by
  obtain ⟨e', hread, htag, hl1id, hbcid, hhits⟩ := readHits_append e.hits rest e.written
    (Nat.mod_le _ _) { FrontEndEvent.new 0 0 0 with tag := e.tag, l1id := e.l1id, bcid := e.bcid }
  refine ⟨e', ?_, htag, hl1id, hbcid, by simpa [new] using hhits⟩
  unfold fromFileBinary toFileBinary
  simp only [List.append_assoc, read_append (length_store 4 _), read_append (length_store 2 _),
    Option.bind_eq_bind, Option.bind_some, load_store_32, load_store_16, load_nHits]
  exact hread

/-- A file gives back its events exactly when each of them has fewer hits than the counter
can count. -/
theorem readFile_writeFile_iff (events : List FrontEndEvent) :
    readFile events.length (writeFile events) = some (events, []) ↔
      ∀ e ∈ events, e.hits.length < 2 ^ 16 := by
  induction events with
  | nil => simp [readFile, writeFile]
  | cons e events ih =>
      obtain ⟨e', hread, htag, hl1id, hbcid, hhits⟩ :=
        e.fromFileBinary_toFileBinary (writeFile events)
      have hstep : readFile (e :: events).length (writeFile (e :: events)) =
          (readFile events.length ((e.hits.drop e.written).flatMap FrontEndHit.bytes ++
            writeFile events)).map fun r => (e' :: r.1, r.2) := by
        have hsplit : writeFile (e :: events) = e.toFileBinary ++ writeFile events := by
          simp [writeFile]
        rw [List.length_cons, readFile, hsplit, hread]
        simp only [Option.bind_eq_bind, Option.bind_some]
        cases readFile events.length ((e.hits.drop e.written).flatMap FrontEndHit.bytes ++
          writeFile events) <;> rfl
      rw [hstep]
      by_cases hshort : e.hits.length < 2 ^ 16
      · have hall : e.written = e.hits.length := Nat.mod_eq_of_lt hshort
        have heq : e' = e := by
          refine FrontEndEvent.ext_hits htag hl1id hbcid ?_
          rw [hhits, hall, List.take_length]
        rw [hall, List.drop_length, List.flatMap_nil, List.nil_append, heq]
        constructor
        · intro h
          obtain ⟨r, hr, hcons⟩ := Option.map_eq_some_iff.1 h
          have hr1 : r.1 = events := (List.cons.inj (Prod.ext_iff.1 hcons).1).2
          have hr2 : r.2 = [] := (Prod.ext_iff.1 hcons).2
          have hrest := ih.1 (by rw [hr, ← hr1, ← hr2])
          intro f hf
          rcases List.mem_cons.1 hf with rfl | hf
          · exact hshort
          · exact hrest f hf
        · intro h
          rw [ih.2 (fun f hf => h f (List.mem_cons_of_mem _ hf))]
          rfl
      · constructor
        · intro h
          obtain ⟨r, _, hcons⟩ := Option.map_eq_some_iff.1 h
          have heq : e' = e := (List.cons.inj (Prod.ext_iff.1 hcons).1).1
          -- the event that was read has fewer hits than the one that was written
          have hlen := congrArg List.length hhits
          rw [heq, List.length_take] at hlen
          have hlt : e.written < 65536 := Nat.mod_lt _ (by decide)
          omega
        · intro h
          exact absurd (h e (by simp)) hshort

theorem readFile_of_full {e : FrontEndEvent} (h : e.hits.length = 65536) :
    readFile 1 (writeFile [e]) ≠ some ([e], []) := by
  obtain ⟨e', hread, _, _, _, hhits⟩ := e.fromFileBinary_toFileBinary []
  have hnone : e.written = 0 := by
    rw [FrontEndEvent.written, h]
  have hsplit : writeFile [e] = e.toFileBinary ++ [] := by
    simp [writeFile]
  intro hback
  rw [readFile, hsplit, hread] at hback
  simp only [Option.bind_eq_bind, Option.bind_some, readFile, Option.pure_def, Option.some.injEq,
    Prod.mk.injEq, List.cons.injEq] at hback
  have hlen := congrArg List.length hhits
  rw [hback.1.1, hnone, List.take_zero, h] at hlen
  cases hlen

/-- An event with `n` equal hits. -/
def manyHits (n : Nat) : FrontEndEvent where
  tag := 0
  l1id := 0
  bcid := 0
  nHits := UInt16.ofNat n
  hits := List.replicate n ⟨1, 1, 1⟩
  counted := by rw [List.length_replicate]

theorem readFile_manyHits :
    readFile 1 (writeFile [manyHits 65536]) ≠ some ([manyHits 65536], []) :=
  readFile_of_full List.length_replicate

end Yarr.EventFile
