import Mathlib.Data.List.Nodup
import Yarr.Rd53aEmu.HitWords
import Yarr.Rd53aEmu.TriggerTags

/-!
# From the hits of a trigger to its events

The hits of a bunch crossing are put into words under the tag of the trigger,
and the words are sent behind a header. A code of zero leaves no trace in its
field.
-/

namespace Yarr.Rd53aEmu

open Rd53.Rd53aDataProcessor Pixel Pixel.Fragments

/-- What the emulator keeps of the hits, and what it has sent. -/
structure Output where
  outWords : UInt32 → Option (Vector UInt32 n_regions)
  outTags : List UInt32
  l1id : UInt32
  bcid : UInt32
  m_rxRingBuffer : List UInt32

def zeros : Vector UInt32 n_regions := Vector.replicate n_regions 0

def outHeader (l1id tag bcid : UInt32) : UInt32 :=
  ((0x1 : UInt32) <<< 25) ||| ((l1id &&& 0x1f) <<< 20) ||| ((tag &&& 0x1f) <<< 15) |||
    (bcid &&& 0x7fff)

/-- The words of the regions that are not zero. -/
def outRegions (outWords : Vector UInt32 n_regions) : List UInt32 :=
  (outWords.toList.filter (· ≠ 0)).map Emu.fillToT

/-- A hit is added to the word of its region. -/
def addWord (outWords : Vector UInt32 n_regions) (h : PixelHit) : Vector UInt32 n_regions :=
  outWords.set h.coord (outWords[h.coord] ||| h.word)

namespace Output

/-- `outWords[tag]`, which adds zeros for a tag that is not there. -/
def words (s : Output) (tag : UInt32) : Vector UInt32 n_regions := (s.outWords tag).getD zeros

def putWords (s : Output) (tag : UInt32) (outWords : Option (Vector UInt32 n_regions)) : Output :=
  { s with outWords := Function.update s.outWords tag outWords }

def formatWords (tag : UInt32) (s : Output) (h : PixelHit) : Output :=
  s.putWords tag (some (addWord (s.words tag) h))

/-- `none`: there is no tag at the front. -/
def outputLoop (s : Output) : Option Output :=
  match s.outTags with
  | [] => none
  | tag :: outTags =>
      some { s.putWords tag none with
        outTags := outTags
        m_rxRingBuffer := s.m_rxRingBuffer ++
          outHeader s.l1id tag s.bcid :: outRegions (s.words tag) }

/-- One bunch crossing of a trigger, with the hits that the models of its pixels return. -/
def crossing (tag : UInt32) (hits : List PixelHit) (s : Output) : Option Output :=
  let s := hits.foldl (formatWords tag) s
  (outputLoop { s with outTags := s.outTags ++ [tag] }).map fun s => { s with bcid := s.bcid + 1 }

def doTrigger (s : Output) (pattern tag : UInt8) (hits : Nat → List PixelHit) : Option Output :=
  let tag := tag.toUInt32
  ((crossings pattern).foldlM (fun (s : Output) iBC => s.crossing tag (hits iBC))
    (s.putWords tag (some zeros))).map fun s => { s with l1id := s.l1id + 1 }

end Output

namespace PixelHit

/-- The place of a pixel in the matrix, column first. -/
def pixel (h : PixelHit) : Nat × Nat := (h.col, h.row)

/-- How a hit is to come back. -/
def shown (h : PixelHit) : FrontEndHit := ⟨h.col + 1, h.row + 1, h.ToT.val + 1⟩

theorem pixel_eq (h : PixelHit) :
    h.pixel = (h.coord.val / 192 * 4 + h.field.val, h.coord.val % 192) := by
  have hrow : h.coreRow.val < 24 := h.coreRow.isLt
  have hsubRow := h.subRow.isLt
  have hcoord : h.coord.val =
      (h.coreCol.val * 2 + h.subCol.val / 4) * 192 + (h.coreRow.val * 8 + h.subRow.val) := rfl
  have hfield : h.field.val = h.subCol.val % 4 := rfl
  rw [hcoord, hfield]
  unfold pixel col row
  rw [Prod.mk.injEq]
  constructor <;> omega

theorem pixel_inj {h h' : PixelHit} (hcoord : h.coord = h'.coord) (hfield : h.field = h'.field) :
    h.pixel = h'.pixel := by rw [pixel_eq, pixel_eq, hcoord, hfield]

theorem shown_eq (h : PixelHit) :
    h.shown = ⟨h.coord.val / 192 * 4 + h.field.val + 1, h.coord.val % 192 + 1, h.ToT.val + 1⟩ := by
  have hpixel := h.pixel_eq
  unfold pixel at hpixel
  rw [Prod.mk.injEq] at hpixel
  rw [shown, hpixel.1, hpixel.2]

end PixelHit

/-! ## The words of a crossing -/

/-- What the hits of a crossing leave under the tag. -/
def stored (hits : List PixelHit) : Vector UInt32 n_regions := hits.foldl addWord zeros

theorem stored_append (hits : List PixelHit) (h : PixelHit) :
    stored (hits ++ [h]) = addWord (stored hits) h := by
  rw [stored, List.foldl_append]
  rfl

theorem getElem_stored (hits : List PixelHit) (g : Fin n_regions) :
    (stored hits)[g] = orWords (hits.filter (·.coord = g)) := by
  induction hits using List.reverseRecOn with
  | nil =>
      show (Vector.replicate n_regions (0 : UInt32))[g.val] = 0
      exact Vector.getElem_replicate _
  | append_singleton hits h ih =>
      rw [stored_append, List.filter_append, addWord]
      by_cases hg : h.coord = g
      · subst hg
        have hfilter : [h].filter (·.coord = h.coord) = [h] := by simp
        rw [hfilter, orWords_append, ← ih]
        exact Vector.getElem_set_self _
      · have hfilter : [h].filter (·.coord = g) = [] := by simp [hg]
        rw [hfilter, List.append_nil, ← ih]
        exact Vector.getElem_set_ne _ _ fun heq => hg (Fin.ext heq)

theorem mem_region {hits : List PixelHit} {g : Fin n_regions} {h : PixelHit} :
    h ∈ hits.filter (·.coord = g) ↔ h ∈ hits ∧ h.coord = g := by
  rw [List.mem_filter, decide_eq_true_iff]

theorem stored_region {hits : List PixelHit} (honce : (hits.map PixelHit.pixel).Nodup)
    (g : Fin n_regions) : Stored g (hits.filter (·.coord = g)) (stored hits)[g] := by
  rw [getElem_stored]
  apply stored_orWords fun h hh => (mem_region.mp hh).2
  have hnodup : (hits.filter (·.coord = g)).Nodup := (honce.of_map).filter _
  apply hnodup.map_on
  intro h hh h' hh' hfield
  obtain ⟨hmem, hcoord⟩ := mem_region.mp hh
  obtain ⟨hmem', hcoord'⟩ := mem_region.mp hh'
  exact List.inj_on_of_nodup_map honce hmem hmem'
    (PixelHit.pixel_inj (hcoord.trans hcoord'.symm) hfield)

theorem Stored.nibble_eq {g : Fin n_regions} {hits : List PixelHit} {w : UInt32}
    (hw : Stored g hits w) (k : Fin 4) :
    (∃ h ∈ hits, h.field = k ∧ nibble w k = h.ToT.val) ∨ nibble w k = 0 := by
  by_cases hhit : ∃ h ∈ hits, h.field = k
  · obtain ⟨h, hh, rfl⟩ := hhit
    exact Or.inl ⟨h, hh, rfl, hw.code h hh⟩
  · exact Or.inr (hw.empty k fun h hh hfield => hhit ⟨h, hh, hfield⟩)

theorem Stored.nibble_lt {g : Fin n_regions} {hits : List PixelHit} {w : UInt32}
    (hw : Stored g hits w) (k : Fin 4) : nibble w k < 15 := by
  rcases hw.nibble_eq k with ⟨h, -, -, hcode⟩ | hzero
  · rw [hcode]
    exact h.ToT.isLt
  · omega

/-! ## The hits that come back -/

/-- The hits of all regions, as they are read. -/
def readHits (hits : List PixelHit) : List FrontEndHit :=
  (List.finRange n_regions).flatMap fun g => regionHits g (stored hits)[g]

theorem mem_regionHits {g : Fin n_regions} {w : UInt32} {hit : FrontEndHit} :
    hit ∈ regionHits g w ↔ ∃ k : Fin 4, nibble w k ≠ 0 ∧
      hit = ⟨g.val / 192 * 4 + k.val + 1, g.val % 192 + 1, nibble w k + 1⟩ := by
  unfold regionHits
  rw [List.mem_flatMap]
  constructor
  · rintro ⟨k, -, hmem⟩
    by_cases hzero : nibble w k = 0
    · rw [if_pos hzero] at hmem
      exact absurd hmem List.not_mem_nil
    · rw [if_neg hzero] at hmem
      exact ⟨k, hzero, List.mem_singleton.mp hmem⟩
  · rintro ⟨k, hzero, rfl⟩
    refine ⟨k, List.mem_finRange k, ?_⟩
    rw [if_neg hzero]
    exact List.mem_singleton_self _

theorem field_of_hit {g g' : Fin n_regions} {w w' : UInt32} {hit : FrontEndHit}
    (h : hit ∈ regionHits g w) (h' : hit ∈ regionHits g' w') : g = g' := by
  obtain ⟨k, -, rfl⟩ := mem_regionHits.mp h
  obtain ⟨k', -, heq⟩ := mem_regionHits.mp h'
  rw [FrontEndHit.mk.injEq] at heq
  have hk := k.isLt
  have hk' := k'.isLt
  apply Fin.ext
  omega

theorem nodup_regionHits (g : Fin n_regions) (w : UInt32) : (regionHits g w).Nodup := by
  rw [regionHits, List.nodup_flatMap]
  constructor
  · intro k _
    by_cases hzero : nibble w k = 0
    · rw [if_pos hzero]
      exact List.nodup_nil
    · rw [if_neg hzero]
      exact List.nodup_singleton _
  · apply (List.nodup_finRange 4).imp
    intro k k' hne hit hk hk'
    dsimp only at hk hk'
    by_cases hzero : nibble w k = 0
    · rw [if_pos hzero] at hk
      exact absurd hk List.not_mem_nil
    by_cases hzero' : nibble w k' = 0
    · rw [if_pos hzero'] at hk'
      exact absurd hk' List.not_mem_nil
    rw [if_neg hzero, List.mem_singleton] at hk
    rw [if_neg hzero', List.mem_singleton, hk, FrontEndHit.mk.injEq] at hk'
    exact hne (Fin.ext (by omega))

theorem nodup_readHits (hits : List PixelHit) : (readHits hits).Nodup := by
  rw [readHits, List.nodup_flatMap]
  exact ⟨fun g _ => nodup_regionHits g _,
    (List.nodup_finRange n_regions).imp fun hne _ h h' => hne (field_of_hit h h')⟩

theorem mem_readHits {hits : List PixelHit} (honce : (hits.map PixelHit.pixel).Nodup)
    {hit : FrontEndHit} :
    hit ∈ readHits hits ↔ ∃ h ∈ hits, h.ToT ≠ 0 ∧ h.shown = hit := by
  rw [readHits, List.mem_flatMap]
  constructor
  · rintro ⟨g, -, hmem⟩
    obtain ⟨k, hcode, rfl⟩ := mem_regionHits.mp hmem
    rcases (stored_region honce g).nibble_eq k with ⟨h, hh, rfl, htot⟩ | hzero
    · obtain ⟨hstored, rfl⟩ := mem_region.mp hh
      refine ⟨h, hstored, ?_, ?_⟩
      · intro htot0
        exact hcode (htot.trans (congrArg Fin.val htot0))
      · rw [PixelHit.shown_eq, htot]
    · exact absurd hzero hcode
  · rintro ⟨h, hh, htot, rfl⟩
    refine ⟨h.coord, List.mem_finRange _, mem_regionHits.mpr ⟨h.field, ?_, ?_⟩⟩
    all_goals
      rw [(stored_region honce h.coord).code h (mem_region.mpr ⟨hh, rfl⟩)]
    · intro hzero
      exact htot (Fin.ext hzero)
    · exact h.shown_eq

theorem shown_inj {h h' : PixelHit} (heq : h.shown = h'.shown) : h.pixel = h'.pixel := by
  unfold PixelHit.shown at heq
  rw [FrontEndHit.mk.injEq] at heq
  unfold PixelHit.pixel
  rw [Prod.mk.injEq]
  exact ⟨by omega, by omega⟩

theorem readHits_perm {hits : List PixelHit} (honce : (hits.map PixelHit.pixel).Nodup) :
    (readHits hits).Perm ((hits.filter (·.ToT ≠ 0)).map PixelHit.shown) := by
  have hshown : ((hits.filter (·.ToT ≠ 0)).map PixelHit.shown).Nodup := by
    apply ((honce.of_map).filter _).map_on
    intro h hh h' hh' heq
    exact List.inj_on_of_nodup_map honce (List.mem_filter.mp hh).1 (List.mem_filter.mp hh').1
      (shown_inj heq)
  rw [List.perm_ext_iff_of_nodup (nodup_readHits hits) hshown]
  intro hit
  rw [mem_readHits honce, List.mem_map]
  constructor
  · rintro ⟨h, hh, htot, heq⟩
    exact ⟨h, List.mem_filter.mpr ⟨hh, decide_eq_true htot⟩, heq⟩
  · rintro ⟨h, hh, heq⟩
    obtain ⟨hmem, htot⟩ := List.mem_filter.mp hh
    exact ⟨h, hmem, of_decide_eq_true htot, heq⟩

theorem readHits_perm_iff {hits : List PixelHit} (honce : (hits.map PixelHit.pixel).Nodup) :
    (readHits hits).Perm (hits.map PixelHit.shown) ↔ ∀ h ∈ hits, h.ToT ≠ 0 := by
  have hread := readHits_perm honce
  constructor
  · intro hall
    have hlength := (hread.symm.trans hall).length_eq
    rw [List.length_map, List.length_map] at hlength
    intro h hh
    exact of_decide_eq_true (List.filter_eq_self.mp
      (List.filter_sublist.eq_of_length hlength) h hh)
  · intro hall
    have hfilter : hits.filter (·.ToT ≠ 0) = hits :=
      List.filter_eq_self.mpr fun h hh => decide_eq_true (hall h hh)
    rwa [hfilter] at hread

/-! ## Decoding -/

theorem outHeader_fields (l1id tag bcid : UInt32) :
    (outHeader l1id tag bcid >>> 15) &&& 0x1F = tag &&& 0x1f ∧
      (outHeader l1id tag bcid >>> 20) &&& 0x1F = l1id &&& 0x1f ∧
      outHeader l1id tag bcid &&& 0x7FFF = bcid &&& 0x7fff := by
  refine ⟨?_, ?_, ?_⟩
  all_goals
    apply UInt32.toBitVec_inj.mp
    apply BitVec.eq_of_getLsbD_eq
    intro i hi
    simp only [outHeader]
    interval_cases i <;> simp

theorem isHeader_outHeader (l1id tag bcid : UInt32) :
    isHeader (outHeader l1id tag bcid) = true := by
  have hbit : (outHeader l1id tag bcid).toBitVec[31] = false := by simp [outHeader]
  have hbit' : (outHeader l1id tag bcid).toBitVec[25] = true := by simp [outHeader]
  have hidle : outHeader l1id tag bcid &&& 0xFFFF0000 ≠ 0xFFFF0000 := by
    intro h
    have hbits := congrArg (fun x : UInt32 => x.toBitVec.getLsbD 31) h
    simp [hbit] at hbits
  have hheader : (outHeader l1id tag bcid >>> 25) &&& 0x1 ≠ 0 := by
    intro h
    have hbits := congrArg (fun x : UInt32 => x.toBitVec.getLsbD 0) h
    simp [hbit'] at hbits
  simp [isHeader, hidle, hheader]

/-- The words of one crossing. -/
def crossingWords (l1id tag bcid : UInt32) (hits : List PixelHit) : List UInt32 :=
  outHeader l1id tag bcid :: outRegions (stored hits)

/-- The event that the words of a crossing are read as. -/
def crossingEvent (l1id tag bcid : UInt32) (hits : List PixelHit) : FrontEndEvent :=
  ⟨tag.toNat % 32, l1id.toNat % 32, bcid.toNat % 2 ^ 15, readHits hits⟩

theorem regionHits_zero (g : Fin n_regions) : regionHits g 0 = [] := by
  have hzero : ∀ k, nibble 0 k = 0 := by decide
  unfold regionHits
  rw [List.flatMap_eq_nil_iff]
  intro k _
  rw [if_pos (hzero k)]

theorem upper_stored {hits : List PixelHit} (honce : (hits.map PixelHit.pixel).Nodup)
    {g : Fin n_regions} (hzero : (stored hits)[g] ≠ 0) :
    upper (stored hits)[g] = regionUpper g := by
  have hne : hits.filter (·.coord = g) ≠ [] := by
    intro hnil
    rw [getElem_stored, hnil] at hzero
    exact hzero rfl
  rw [(stored_region honce g).upper, if_neg hne]

theorem marks_regions {hits : List PixelHit} (honce : (hits.map PixelHit.pixel).Nodup)
    (tag : UInt32) (rest : List Item) (regions : List (Fin n_regions)) :
    marks tag ((((regions.map fun g => (stored hits)[g]).filter (· ≠ 0)).map Emu.fillToT).flatMap
        itemsOf ++ rest) =
      (regions.flatMap fun g => regionHits g (stored hits)[g]).map .hit ++ marks tag rest := by
  induction regions with
  | nil => rfl
  | cons g regions ih =>
      rw [List.map_cons, List.flatMap_cons, List.map_append, List.append_assoc, ← ih]
      by_cases hzero : (stored hits)[g] = 0
      · rw [List.filter_cons_of_neg (by simp [hzero]), hzero, regionHits_zero]
        rfl
      · have hkept : ((stored hits)[g] :: regions.map fun g => (stored hits)[g]).filter (· ≠ 0) =
            (stored hits)[g] :: (regions.map fun g => (stored hits)[g]).filter (· ≠ 0) :=
          List.filter_cons_of_pos (decide_eq_true hzero)
        rw [hkept, List.map_cons, List.flatMap_cons,
          itemsOf_region (upper_stored honce hzero) (stored_region honce g).nibble_lt]
        rfl

theorem toList_regions {n : Nat} (outWords : Vector UInt32 n) :
    outWords.toList = (List.finRange n).map fun g => getElem outWords g g.isLt := by
  apply List.ext_getElem
  · simp
  · intro i hi hi'
    simp

theorem marks_crossing {hits : List PixelHit} (honce : (hits.map PixelHit.pixel).Nodup)
    (l1id tag bcid k : UInt32) (rest : List Item) :
    marks k ((crossingWords l1id tag bcid hits).flatMap itemsOf ++ rest) =
      eventMarks [crossingEvent l1id tag bcid hits] ++ marks (tag &&& 0x1f) rest := by
  obtain ⟨htag, hl1id, hbcid⟩ := outHeader_fields l1id tag bcid
  have hitems : itemsOf (outHeader l1id tag bcid) =
      [.trigger (tag &&& 0x1f), .header (l1id &&& 0x1f) (bcid &&& 0x7fff)
        ⟨(tag &&& 0x1f).toNat, (bcid &&& 0x7fff).toNat⟩] := by
    unfold itemsOf
    rw [if_pos (isHeader_outHeader l1id tag bcid)]
    dsimp only
    rw [htag, hl1id, hbcid]
  have hmask (n : UInt32) : (n &&& 0x1f).toNat = n.toNat % 32 := by
    rw [UInt32.toNat_and]
    exact Bits.and_mask 31 5 rfl _
  have hmask' (n : UInt32) : (n &&& 0x7fff).toNat = n.toNat % 2 ^ 15 := by
    rw [UInt32.toNat_and]
    exact Bits.and_mask 0x7fff 15 rfl _
  rw [crossingWords, List.flatMap_cons, hitems, List.append_assoc, outRegions, toList_regions]
  simp only [List.cons_append, List.nil_append, marks]
  rw [marks_regions honce, hmask, hmask, hmask',
    Nat.mod_eq_of_lt (by omega : l1id.toNat % 32 < 2 ^ 16),
    Nat.mod_eq_of_lt (by omega : bcid.toNat % 2 ^ 15 < 2 ^ 16), eventMarks_cons]
  simp only [crossingEvent, readHits, eventMarks, List.flatMap_nil, List.append_nil,
    List.cons_append]

/-! ## The state during a trigger -/

namespace Output

theorem words_putWords (s : Output) (tag : UInt32) (outWords : Vector UInt32 n_regions) :
    (s.putWords tag (some outWords)).words tag = outWords := by
  show (Function.update s.outWords tag (some outWords) tag).getD zeros = outWords
  rw [Function.update_self]
  rfl

/-- Only the words of one tag are changed. -/
structure Changes (tag : UInt32) (s s' : Output) : Prop where
  outWords : Function.update s'.outWords tag none = Function.update s.outWords tag none
  outTags : s'.outTags = s.outTags
  l1id : s'.l1id = s.l1id
  bcid : s'.bcid = s.bcid
  m_rxRingBuffer : s'.m_rxRingBuffer = s.m_rxRingBuffer

theorem changes_putWords (s : Output) (tag : UInt32)
    (outWords : Option (Vector UInt32 n_regions)) : Changes tag s (s.putWords tag outWords) :=
  ⟨Function.update_idem _ _ _, rfl, rfl, rfl, rfl⟩

theorem Changes.after {tag : UInt32} {s s' s'' : Output} (h : Changes tag s s')
    (h' : Changes tag s' s'') : Changes tag s s'' :=
  ⟨h'.outWords.trans h.outWords, h'.outTags.trans h.outTags, h'.l1id.trans h.l1id,
    h'.bcid.trans h.bcid, h'.m_rxRingBuffer.trans h.m_rxRingBuffer⟩

theorem formatWords_all (tag : UInt32) (s : Output) (hits : List PixelHit) :
    Changes tag s (hits.foldl (formatWords tag) s) ∧
      (hits.foldl (formatWords tag) s).words tag = hits.foldl addWord (s.words tag) := by
  induction hits generalizing s with
  | nil => exact ⟨⟨rfl, rfl, rfl, rfl, rfl⟩, rfl⟩
  | cons h hits ih =>
      obtain ⟨hchanges, hwords⟩ := ih (formatWords tag s h)
      rw [List.foldl_cons, List.foldl_cons, hwords, formatWords, words_putWords]
      exact ⟨(changes_putWords s tag _).after hchanges, rfl⟩

/-- No tag is waiting, and there are no hits under this one. -/
structure Ready (tag : UInt32) (s : Output) : Prop where
  outTags : s.outTags = []
  words : s.words tag = zeros

theorem crossing_eq {tag : UInt32} {s : Output} (hs : s.Ready tag) (hits : List PixelHit) :
    s.crossing tag hits = some
      { outWords := Function.update s.outWords tag none
        outTags := []
        l1id := s.l1id
        bcid := s.bcid + 1
        m_rxRingBuffer := s.m_rxRingBuffer ++ crossingWords s.l1id tag s.bcid hits } := by
  obtain ⟨hchanges, hwords⟩ := formatWords_all tag s hits
  rw [hs.words] at hwords
  unfold crossing
  dsimp only
  generalize hits.foldl (formatWords tag) s = stored at hchanges hwords
  have htags : stored.outTags ++ [tag] = [tag] := by rw [hchanges.outTags, hs.outTags]; rfl
  rw [htags]
  have hkept (l1id bcid : UInt32) (ring : List UInt32) :
      words ⟨stored.outWords, [tag], l1id, bcid, ring⟩ tag = hits.foldl addWord zeros := hwords
  simp only [outputLoop, putWords, hkept, hchanges.outWords, hchanges.l1id, hchanges.bcid,
    hchanges.m_rxRingBuffer, Option.map_some]
  rfl

/-- The words and the events of some crossings of a trigger. -/
def sent (l1id tag : UInt32) (hits : Nat → List PixelHit) :
    UInt32 → List Nat → List UInt32 × List FrontEndEvent
  | _, [] => ([], [])
  | bcid, iBC :: bcs =>
      let rest := sent l1id tag hits (bcid + 1) bcs
      (crossingWords l1id tag bcid (hits iBC) ++ rest.1,
        crossingEvent l1id tag bcid (hits iBC) :: rest.2)

theorem crossings_run {tag : UInt32} (hits : Nat → List PixelHit) {s : Output}
    (hs : s.Ready tag) (bcs : List Nat) :
    ∃ s', bcs.foldlM (fun (s : Output) iBC => s.crossing tag (hits iBC)) s = some s' ∧
      s'.Ready tag ∧
      s'.outWords = (if bcs = [] then s.outWords else Function.update s.outWords tag none) ∧
      s'.m_rxRingBuffer = s.m_rxRingBuffer ++ (sent s.l1id tag hits s.bcid bcs).1 := by
  induction bcs generalizing s with
  | nil => exact ⟨s, rfl, hs, rfl, (List.append_nil _).symm⟩
  | cons iBC bcs ih =>
      rw [List.foldlM_cons, crossing_eq hs]
      have hnext : Ready tag
          { outWords := Function.update s.outWords tag none
            outTags := []
            l1id := s.l1id
            bcid := s.bcid + 1
            m_rxRingBuffer := s.m_rxRingBuffer ++ crossingWords s.l1id tag s.bcid (hits iBC) } := by
        constructor
        · rfl
        · show (Function.update s.outWords tag none tag).getD zeros = zeros
          rw [Function.update_self]
          rfl
      obtain ⟨s', hrun, hready, houtWords, hring⟩ := ih hnext
      refine ⟨s', hrun, hready, ?_, ?_⟩
      · rw [houtWords, if_neg (List.cons_ne_nil iBC bcs)]
        by_cases hnil : bcs = []
        · rw [if_pos hnil]
        · rw [if_neg hnil, Function.update_idem]
      · rw [hring, List.append_assoc]
        rfl

theorem marks_sent {hits : Nat → List PixelHit} {bcs : List Nat}
    (honce : ∀ iBC ∈ bcs, ((hits iBC).map PixelHit.pixel).Nodup) (l1id tag bcid k : UInt32) :
    marks k ((sent l1id tag hits bcid bcs).1.flatMap itemsOf) =
      eventMarks (sent l1id tag hits bcid bcs).2 := by
  induction bcs generalizing bcid k with
  | nil => rfl
  | cons iBC bcs ih =>
      have hrest := ih (fun i hi => honce i (List.mem_cons_of_mem _ hi)) (bcid + 1) (tag &&& 0x1f)
      have hfirst := marks_crossing (honce iBC List.mem_cons_self) l1id tag bcid k
        ((sent l1id tag hits (bcid + 1) bcs).1.flatMap itemsOf)
      rw [sent]
      dsimp only
      rw [List.flatMap_append, hfirst, hrest, ← eventMarks_append]
      rfl

theorem orphaned_sent (l1id tag bcid : UInt32) (hits : Nat → List PixelHit) (bcs : List Nat) :
    orphaned ((sent l1id tag hits bcid bcs).1.flatMap itemsOf) = false := by
  cases bcs with
  | nil => rfl
  | cons iBC bcs =>
      rw [sent]
      dsimp only
      rw [crossingWords, List.cons_append, List.flatMap_cons, itemsOf,
        if_pos (isHeader_outHeader l1id tag bcid)]
      rfl

theorem length_sent (l1id tag bcid : UInt32) (hits : Nat → List PixelHit) (bcs : List Nat) :
    (sent l1id tag hits bcid bcs).2.length = bcs.length := by
  induction bcs generalizing bcid with
  | nil => rfl
  | cons iBC bcs ih => rw [sent, List.length_cons, List.length_cons, ih]

/-- The events of the crossings are all that the decoder returns. -/
theorem take_sent {hits : Nat → List PixelHit} {bcs : List Nat} (hbcs : bcs ≠ [])
    (honce : ∀ iBC ∈ bcs, ((hits iBC).map PixelHit.pixel).Nodup) (l1id tag bcid : UInt32)
    (k : Carried) {c : WordContainer} (hdata : c.data.flatten = (sent l1id tag hits bcid bcs).1) :
    ∃ k' feedback, process_core.take k c =
      some (k', ⟨[⟨c.stat, (sent l1id tag hits bcid bcs).2⟩], feedback⟩) := by
  have hitems : itemsRead c = (sent l1id tag hits bcid bcs).1.flatMap itemsOf := by
    rw [itemsRead, hdata]
  have hdefined : ∀ item ∈ itemsRead c, item ≠ .undefined := by
    intro item hitem
    obtain ⟨data, -, hmem⟩ := List.mem_flatMap.mp hitem
    exact (item_narrow hmem).2.2
  obtain ⟨s, hs⟩ := Option.ne_none_iff_exists'.mp
    ((decode_ne_none_iff orphanTag (Reading.wellformed_start k c.stat) _).mpr hdefined)
  have hshows := decode_shows hs
  have hmarks : eventMarks s.curOut.events = eventMarks (sent l1id tag hits bcid bcs).2 := by
    have hevents : eventMarks s.curOut.events =
        orphanMarks orphanTag k (itemsRead c) ++ marks k.tag (itemsRead c) := hshows.events
    rw [hevents, hitems, marks_sent honce, orphanMarks, orphaned_sent]
    rfl
  have hlist := eventMarks_injective hmarks
  have hcurOut : s.curOut = ⟨c.stat, (sent l1id tag hits bcid bcs).2⟩ := by
    have hstat : s.curOut.lStat = c.stat := hshows.lStat
    rw [← hlist, ← hstat]
  have hcount : 0 < s.events := by
    have hcounted : s.events = s.curOut.events.length := counted_decode hs (counted_start k c.stat)
    rw [hcounted, hlist, length_sent]
    exact List.length_pos_of_ne_nil hbcs
  refine ⟨(itemsRead c).foldl Carried.next k, s.feedback, ?_⟩
  rw [process_core_eq]
  simp only [Reading.consumer, reading, hs, Option.map_some, hcount, or_true, if_true, hcurOut]

/-- An event with the tag of the trigger and with just the hits that were stored. -/
structure Returned (tag : UInt8) (hits : List PixelHit) (e : FrontEndEvent) : Prop where
  tag : e.tag = tag.toNat
  hits : e.hits.Perm (hits.map PixelHit.shown)

/-- What a trigger sends is decoded into an event for each of its bunch crossings, in whatever
buffers of a container it comes, and nothing of the trigger is left. -/
def RoundTrip (s : Output) (pattern tag : UInt8) (hits : Nat → List PixelHit) : Prop :=
  ∃ s' words, s.doTrigger pattern tag hits = some s' ∧
    s'.m_rxRingBuffer = s.m_rxRingBuffer ++ words ∧
    s'.outWords = Function.update s.outWords tag.toUInt32 none ∧ s'.outTags = [] ∧
    ∀ (k : Carried) (c : WordContainer), c.data.flatten = words →
      ∃ k' events feedback, process_core.take k c = some (k', ⟨[⟨c.stat, events⟩], feedback⟩) ∧
        List.Forall₂ (fun iBC e => Returned tag (hits iBC) e) (crossings pattern) events

theorem returned_iff {tag : UInt8} {hits : List PixelHit}
    (honce : (hits.map PixelHit.pixel).Nodup) (l1id bcid : UInt32) :
    Returned tag hits (crossingEvent l1id tag.toUInt32 bcid hits) ↔
      tag < 32 ∧ ∀ h ∈ hits, h.ToT ≠ 0 := by
  have htag : (crossingEvent l1id tag.toUInt32 bcid hits).tag = tag.toNat % 32 :=
    congrArg (· % 32) (UInt8.toNat_toUInt32 tag)
  have hread : (crossingEvent l1id tag.toUInt32 bcid hits).hits = readHits hits := by
    rw [crossingEvent]
  have hlt : tag < 32 ↔ tag.toNat < 32 := UInt8.lt_iff_toNat_lt
  rw [← readHits_perm_iff honce, hlt]
  constructor
  · intro h
    have hsame := h.tag
    rw [htag] at hsame
    have hperm := h.hits
    rw [hread] at hperm
    exact ⟨by omega, hperm⟩
  · rintro ⟨hsmall, hperm⟩
    rw [← hread] at hperm
    exact ⟨htag.trans (Nat.mod_eq_of_lt hsmall), hperm⟩

theorem returned_sent {tag : UInt8} {hits : Nat → List PixelHit} {bcs : List Nat}
    (honce : ∀ iBC ∈ bcs, ((hits iBC).map PixelHit.pixel).Nodup) (l1id bcid : UInt32) :
    List.Forall₂ (fun iBC e => Returned tag (hits iBC) e) bcs
        (sent l1id tag.toUInt32 hits bcid bcs).2 ↔
      ∀ iBC ∈ bcs, tag < 32 ∧ ∀ h ∈ hits iBC, h.ToT ≠ 0 := by
  induction bcs generalizing bcid with
  | nil => simp [sent]
  | cons iBC bcs ih =>
      obtain ⟨hfirst, hrest⟩ := List.forall_mem_cons.mp honce
      rw [sent, List.forall₂_cons, ih hrest, returned_iff hfirst, List.forall_mem_cons]

theorem roundTrip_iff {s : Output} (hs : s.outTags = []) {pattern tag : UInt8}
    {hits : Nat → List PixelHit} (hpattern : crossings pattern ≠ [])
    (honce : ∀ iBC ∈ crossings pattern, ((hits iBC).map PixelHit.pixel).Nodup) :
    s.RoundTrip pattern tag hits ↔
      tag < 32 ∧ ∀ iBC ∈ crossings pattern, ∀ h ∈ hits iBC, h.ToT ≠ 0 := by
  have hready : Ready tag.toUInt32 (s.putWords tag.toUInt32 (some zeros)) :=
    ⟨hs, words_putWords s tag.toUInt32 zeros⟩
  obtain ⟨s₁, hrun, hready₁, houtWords, hring⟩ := crossings_run hits hready (crossings pattern)
  rw [if_neg hpattern] at houtWords
  have htrigger : s.doTrigger pattern tag hits = some { s₁ with l1id := s₁.l1id + 1 } := by
    unfold doTrigger
    dsimp only
    rw [hrun]
    rfl
  have hwords : s₁.outWords = Function.update s.outWords tag.toUInt32 none :=
    houtWords.trans (Function.update_idem _ _ _)
  have hback := @returned_sent tag hits (crossings pattern) honce s.l1id s.bcid
  have hcond : (∀ iBC ∈ crossings pattern, tag < 32 ∧ ∀ h ∈ hits iBC, h.ToT ≠ 0) ↔
      tag < 32 ∧ ∀ iBC ∈ crossings pattern, ∀ h ∈ hits iBC, h.ToT ≠ 0 := by
    obtain ⟨first, hfirst⟩ := List.exists_mem_of_ne_nil _ hpattern
    exact ⟨fun h => ⟨(h first hfirst).1, fun iBC hbc => (h iBC hbc).2⟩,
      fun h iBC hbc => ⟨h.1, h.2 iBC hbc⟩⟩
  rw [← hcond, ← hback]
  constructor
  · rintro ⟨s', words, hdo, hsent, -, -, hdecoded⟩
    rw [htrigger] at hdo
    cases hdo
    have hsame : words = (sent s.l1id tag.toUInt32 hits s.bcid (crossings pattern)).1 :=
      List.append_cancel_left (hsent.symm.trans hring)
    let c : WordContainer := ⟨[words], ⟨[], [], false, rfl⟩⟩
    have hdata : c.data.flatten = words := List.append_nil words
    obtain ⟨k', events, feedback, htake, hevents⟩ := hdecoded fresh c hdata
    obtain ⟨k'', feedback', htake'⟩ :=
      @take_sent hits _ hpattern honce s.l1id tag.toUInt32 s.bcid fresh c (hdata.trans hsame)
    rw [htake'] at htake
    cases htake
    exact hevents
  · intro hevents
    refine ⟨_, _, htrigger, hring, hwords, hready₁.outTags, fun k c hdata => ?_⟩
    obtain ⟨k', feedback, htake⟩ :=
      take_sent hpattern honce s.l1id tag.toUInt32 s.bcid k hdata
    exact ⟨k', _, feedback, htake, hevents⟩

theorem crossings_triggerPatterns {trigger : UInt8 × UInt8} (h : trigger ∈ triggerPatterns) :
    crossings trigger.2 ≠ [] := by
  have hall : (triggerPatterns.all fun trigger => !(crossings trigger.2).isEmpty) = true := by
    decide +kernel
  simpa using List.all_eq_true.mp hall trigger h

/-- The hits of a trigger come back under its tag exactly if no code is zero and the tag fits into
the header. -/
theorem hits_returned_iff (s : Output) (trigger : UInt8 × UInt8) (tag : UInt8)
    (hits : Nat → List PixelHit) (htrigger : trigger ∈ triggerPatterns) (hs : s.outTags = [])
    (honce : ∀ iBC ∈ crossings trigger.2, ((hits iBC).map PixelHit.pixel).Nodup) :
    s.RoundTrip trigger.2 tag hits ↔
      tag < 32 ∧ ∀ iBC ∈ crossings trigger.2, ∀ h ∈ hits iBC, h.ToT ≠ 0 :=
  roundTrip_iff hs (crossings_triggerPatterns htrigger) honce

/-- Nothing is stored and nothing sent. -/
def idle : Output := ⟨fun _ => none, [], 0, 0, []⟩

/-- Two pixels of the first region, in the first bunch crossing of four. -/
theorem two_hits_returned :
    idle.RoundTrip 0x8 5 fun _ => [⟨0, 0, 0, 0, 3⟩, ⟨0, 0, 1, 0, 14⟩] :=
  (hits_returned_iff idle (0x3a, 0x8) 5 (fun _ => [⟨0, 0, 0, 0, 3⟩, ⟨0, 0, 1, 0, 14⟩])
    (by decide) rfl (by decide)).mpr (by decide)

/-- A hit with the code zero is lost. -/
theorem code_zero_lost : ¬idle.RoundTrip 0x8 5 fun _ => [⟨0, 0, 0, 0, 0⟩] := by
  intro h
  have hiff := @roundTrip_iff idle rfl 0x8 5 (fun _ => [⟨0, 0, 0, 0, 0⟩]) (by decide) (by decide)
  exact absurd (hiff.mp h) (by decide)

end Output

end Yarr.Rd53aEmu
