import Yarr.Fei4.HitsOnMatrix
import Yarr.Fei4Emu.Fei4Emu

/-!
# Hits of the emulator, decoded

Headers and hits that the emulator of the FE-I4 sends come back as events. The
code of a hit stands in a table with a row for three of the four settings of
the discriminator.
-/

namespace Yarr.Fei4

open Batches Yarr.Pixel Yarr.Pixel.Fragments Fei4Register

/-! ## Calls -/

/-- What the emulator is told to send. A header takes the counters as they are at the time. -/
inductive Call where
  | addDataHeader (hasErrorFlags : Bool) (l1Id bcId : UInt32)
  | addHit (col row : UInt16) (tot1 tot2 : UInt8)

namespace Call

def isHit : Call → Bool
  | addDataHeader _ _ _ => false
  | addHit _ _ _ _ => true

/-- The pixel of a hit is one of the matrix. -/
def Inside : Call → Prop
  | addDataHeader _ _ _ => True
  | addHit col row _ _ =>
      (1 ≤ col.toNat ∧ col.toNat ≤ 80) ∧ 1 ≤ row.toNat ∧ row.toNat ≤ 336

end Call

namespace Fei4Emu

variable (emu : Fei4Emu)

def perform : Call → Option Fei4Emu
  | .addDataHeader hasErrorFlags l1Id bcId =>
      some (addDataHeader { emu with m_l1IdCnt := l1Id, m_bcIdCnt := bcId } hasErrorFlags)
  | .addHit col row tot1 tot2 => emu.addHit col row tot1 tot2

def performAll (calls : List Call) : Option Fei4Emu := calls.foldlM perform emu

end Fei4Emu

/-! ## Words -/

namespace Call

/-- The code of a time over threshold by the setting of the discriminator. -/
def code (cfg : Fin 3) (dec_tot : UInt8) : UInt8 :=
  Fei4Emu.totCodes cfg ⟨min dec_tot.toNat 16, by omega⟩

def word (cfg : Fin 3) : Call → UInt32
  | addDataHeader hasErrorFlags l1Id bcId =>
      ((0 : UInt8).toUInt32 <<< (24 : UInt32)) ||| ((0xe9 : UInt32) <<< (16 : UInt32)) |||
        ((if hasErrorFlags then 1 else 0) <<< (15 : UInt32)) |||
        ((l1Id &&& 0x1F) <<< (10 : UInt32)) ||| (bcId &&& 0x3FF)
  | addHit col row tot1 tot2 =>
      ((0 : UInt8).toUInt32 <<< (24 : UInt32)) ||| ((col.toUInt32 &&& 0x7F) <<< (17 : UInt32)) |||
        ((row.toUInt32 &&& 0x1FF) <<< (8 : UInt32)) |||
        (((code cfg tot1).toUInt32 &&& 0xF) <<< (4 : UInt32)) ||| ((code cfg tot2).toUInt32 &&& 0xF)

theorem toNat_word_header (cfg : Fin 3) (hasErrorFlags : Bool) (l1Id bcId : UInt32) :
    (word cfg (addDataHeader hasErrorFlags l1Id bcId)).toNat =
      0xe90000 + (if hasErrorFlags then 1 else 0) * 2 ^ 15 + l1Id.toNat % 32 * 2 ^ 10 +
        bcId.toNat % 1024 := by
  have hfe : ((0 : UInt8).toUInt32 <<< (24 : UInt32)).toNat = 0 := rfl
  have hheader : ((0xe9 : UInt32) <<< (16 : UInt32)).toNat = 0xe90000 := rfl
  have hflag : (((if hasErrorFlags then 1 else 0) : UInt32) <<< (15 : UInt32)).toNat =
      (if hasErrorFlags then 1 else 0) * 2 ^ 15 := by
    cases hasErrorFlags
    · rfl
    · rfl
  have hl1 : ((l1Id &&& 0x1F) <<< (10 : UInt32)).toNat = l1Id.toNat % 32 * 2 ^ 10 := by
    show (l1Id.toNat &&& 31) <<< 10 % 2 ^ 32 = _
    rw [Bits.and_mask 31 5 rfl, Nat.shiftLeft_eq]
    omega
  have hbc : (bcId &&& 0x3FF).toNat = bcId.toNat % 1024 := Bits.and_mask 1023 10 rfl _
  have hsmall : (if hasErrorFlags then 1 else 0) < 2 := by
    cases hasErrorFlags
    · exact Nat.two_pos
    · exact Nat.one_lt_two
  rw [word, UInt32.toNat_or, UInt32.toNat_or, UInt32.toNat_or, UInt32.toNat_or, hfe, hheader,
    hflag, hl1, hbc, Nat.zero_or]
  generalize (if hasErrorFlags then 1 else 0) = flag at hsmall ⊢
  rw [@Bits.or_add 16 0xe90000 (flag * 2 ^ 15) (by omega) (by omega),
    @Bits.or_add 15 (0xe90000 + flag * 2 ^ 15) (l1Id.toNat % 32 * 2 ^ 10) (by omega) (by omega),
    Bits.or_add 10 (by omega) (by omega)]

theorem code_lt (cfg : Fin 3) (dec_tot : UInt8) : (code cfg dec_tot).toNat < 16 := by
  unfold code
  generalize (⟨min dec_tot.toNat 16, _⟩ : Fin 17) = i
  revert cfg i
  decide

theorem toNat_word_hit (cfg : Fin 3) {col row : UInt16} (tot1 tot2 : UInt8)
    (hcol : col.toNat ≤ 80) (hrow : row.toNat ≤ 336) :
    (word cfg (addHit col row tot1 tot2)).toNat =
      col.toNat * 2 ^ 17 + row.toNat * 2 ^ 8 + (code cfg tot1).toNat * 2 ^ 4 +
        (code cfg tot2).toNat := by
  have hcode1 := code_lt cfg tot1
  have hcode2 := code_lt cfg tot2
  have hfe : ((0 : UInt8).toUInt32 <<< (24 : UInt32)).toNat = 0 := rfl
  have hcolField : ((col.toUInt32 &&& 0x7F) <<< (17 : UInt32)).toNat = col.toNat * 2 ^ 17 := by
    show (col.toNat &&& 127) <<< 17 % 2 ^ 32 = _
    rw [Bits.and_mask 127 7 rfl, Nat.shiftLeft_eq]
    omega
  have hrowField : ((row.toUInt32 &&& 0x1FF) <<< (8 : UInt32)).toNat = row.toNat * 2 ^ 8 := by
    show (row.toNat &&& 511) <<< 8 % 2 ^ 32 = _
    rw [Bits.and_mask 511 9 rfl, Nat.shiftLeft_eq]
    omega
  have htot1 : (((code cfg tot1).toUInt32 &&& 0xF) <<< (4 : UInt32)).toNat =
      (code cfg tot1).toNat * 2 ^ 4 := by
    show ((code cfg tot1).toNat &&& 15) <<< 4 % 2 ^ 32 = _
    rw [Bits.and_mask 15 4 rfl, Nat.shiftLeft_eq]
    omega
  have htot2 : ((code cfg tot2).toUInt32 &&& 0xF).toNat = (code cfg tot2).toNat := by
    show (code cfg tot2).toNat &&& 15 = _
    rw [Bits.and_mask 15 4 rfl]
    omega
  rw [word, UInt32.toNat_or, UInt32.toNat_or, UInt32.toNat_or, UInt32.toNat_or, hfe, hcolField,
    hrowField, htot1, htot2, Nat.zero_or,
    @Bits.or_add 17 (col.toNat * 2 ^ 17) (row.toNat * 2 ^ 8) (by omega) (by omega),
    @Bits.or_add 8 (col.toNat * 2 ^ 17 + row.toNat * 2 ^ 8) _ (by omega) (by omega),
    Bits.or_add 4 (by omega) (by omega)]

/-! ## What the decoder reads -/

variable (hitDiscCfg : Fin 3)

/-- A pixel that is hit, unless its code is that for no hit. -/
def visibleHit (col row : Nat) (code : UInt8) : List FrontEndHit :=
  if code = 0xF then [] else [⟨col, row, totCode hitDiscCfg (Fin.ofNat 16 code.toNat)⟩]

/-- The hits of a call: the pixel and the one above it. -/
def hits (cfg : Fin 3) : Call → List FrontEndHit
  | addDataHeader _ _ _ => []
  | addHit col row tot1 tot2 =>
      visibleHit hitDiscCfg col.toNat row.toNat (code cfg tot1) ++
        visibleHit hitDiscCfg col.toNat (row.toNat + 1) (code cfg tot2)

theorem hitOf_eq {col row : Nat} (hcol : col < 2 ^ 16) (hrow : row < 2 ^ 16) {code : UInt8}
    {tot : UInt32} (hcode : code.toNat < 16) (htot : tot.toNat = code.toNat) :
    hitOf row col (decTot hitDiscCfg tot) = visibleHit hitDiscCfg col row code := by
  have hpos := decTot_pos_iff hitDiscCfg (by omega : tot.toNat < 16)
  have heq : tot = 0xF ↔ code = 0xF := by
    rw [← UInt32.toNat_inj, htot, ← UInt8.toNat_inj]
    rfl
  have htable : decTot hitDiscCfg tot = totCode hitDiscCfg (Fin.ofNat 16 code.toNat) := by
    rw [decTot, htot]
  unfold hitOf visibleHit
  by_cases hnone : code = 0xF
  · have hzero : ¬decTot hitDiscCfg tot > 0 := fun h => hpos.mp h (heq.mpr hnone)
    rw [if_pos hnone, if_neg hzero]
  · have hone : decTot hitDiscCfg tot > 0 := hpos.mpr fun h => hnone (heq.mp h)
    rw [if_neg hnone, if_pos hone, Nat.mod_eq_of_lt hcol, Nat.mod_eq_of_lt hrow, htable,
      Nat.mod_eq_of_lt (totCode_lt hitDiscCfg _)]

theorem type_zero {value : UInt32} (h : value.toNat < 2 ^ 24) :
    (value &&& 0x03000000) >>> 24 = 0 := by
  apply UInt32.toNat_inj.mp
  show (value.toNat &&& 0x03000000) >>> 24 = 0
  rw [Bits.mask_shiftRight 0x03000000 24 2 rfl]
  omega

theorem itemOf_header (cfg : Fin 3) (hasErrorFlags : Bool) (l1Id bcId : UInt32) :
    isBad (word cfg (addDataHeader hasErrorFlags l1Id bcId)) = false ∧
      ∃ l1id bcid feedback,
        itemOf hitDiscCfg (word cfg (addDataHeader hasErrorFlags l1Id bcId)) =
            some (.header l1id bcid feedback) ∧
          l1id.toNat = l1Id.toNat % 32 ∧ bcid.toNat = bcId.toNat % 1024 := by
  have hword := toNat_word_header cfg hasErrorFlags l1Id bcId
  generalize word cfg (addDataHeader hasErrorFlags l1Id bcId) = value at hword ⊢
  have hflag : (if hasErrorFlags then 1 else 0) < 2 := by
    cases hasErrorFlags
    · exact Nat.two_pos
    · exact Nat.one_lt_two
  generalize (if hasErrorFlags then 1 else 0) = flag at hword hflag
  have hzero := type_zero (by omega : value.toNat < 2 ^ 24)
  have hheader : (value &&& 0x00FF0000) >>> 16 = 0xe9 := by
    apply UInt32.toNat_inj.mp
    show (value.toNat &&& 0x00FF0000) >>> 16 = 0xe9
    rw [Bits.mask_shiftRight 0x00FF0000 16 8 rfl]
    omega
  refine ⟨?_, (value &&& 0x7c00) >>> 10, value &&& 0x03FF,
    ⟨((value &&& 0x7c00) >>> 10).toNat, (value &&& 0x03FF).toNat⟩, ?_, ?_, ?_⟩
  · simp [isBad, isData, hheader]
  · simp [itemOf, hzero, hheader]
  · show (value.toNat &&& 0x7c00) >>> 10 = _
    rw [Bits.mask_shiftRight 0x7c00 10 5 rfl]
    omega
  · show value.toNat &&& 0x03FF = _
    rw [Bits.and_mask 0x03FF 10 rfl]
    omega

theorem itemOf_hit (cfg : Fin 3) {col row : UInt16} (tot1 tot2 : UInt8)
    (hin : (addHit col row tot1 tot2).Inside) :
    isBad (word cfg (addHit col row tot1 tot2)) = false ∧
      itemOf hitDiscCfg (word cfg (addHit col row tot1 tot2)) =
        some (.data (hits hitDiscCfg cfg (addHit col row tot1 tot2))) := by
  obtain ⟨⟨hcolPos, hcolLe⟩, hrowPos, hrowLe⟩ := hin
  have hword := toNat_word_hit cfg tot1 tot2 hcolLe hrowLe
  have hcode1 := code_lt cfg tot1
  have hcode2 := code_lt cfg tot2
  unfold hits
  generalize word cfg (addHit col row tot1 tot2) = value at hword ⊢
  have hzero := type_zero (by omega : value.toNat < 2 ^ 24)
  have hbyte : ((value &&& 0x00FF0000) >>> 16).toNat < 0xe9 := by
    show (value.toNat &&& 0x00FF0000) >>> 16 < 0xe9
    rw [Bits.mask_shiftRight 0x00FF0000 16 8 rfl]
    omega
  have hheader : (value &&& 0x00FF0000) >>> 16 ≠ 0xe9 := fun h => by
    rw [h] at hbyte
    exact absurd hbyte (by decide)
  have hservice : (value &&& 0x00FF0000) >>> 16 ≠ 0xef := fun h => by
    rw [h] at hbyte
    exact absurd hbyte (by decide)
  have hcol : ((value &&& 0xFE0000) >>> 17).toNat = col.toNat := by
    show (value.toNat &&& 0xFE0000) >>> 17 = _
    rw [Bits.mask_shiftRight 0xFE0000 17 7 rfl]
    omega
  have hrow : ((value &&& 0x01FF00) >>> 8).toNat = row.toNat := by
    show (value.toNat &&& 0x01FF00) >>> 8 = _
    rw [Bits.mask_shiftRight 0x01FF00 8 9 rfl]
    omega
  have htot1 : ((value &&& 0xF0) >>> 4).toNat = (code cfg tot1).toNat := by
    show (value.toNat &&& 0xF0) >>> 4 = _
    rw [Bits.mask_shiftRight 0xF0 4 4 rfl]
    omega
  have htot2 : (value &&& 0xF).toNat = (code cfg tot2).toNat := by
    show value.toNat &&& 0xF = _
    rw [Bits.and_mask 0xF 4 rfl]
    omega
  have hdata : isData value = true := by
    simp [isData, hzero, hheader, hservice]
  have hgood : isBad value = false := by
    rw [isBad, decide_eq_false_iff_not]
    rintro ⟨-, h | h | h | h⟩
    · rw [h] at hcol
      exact absurd hcol (by show ¬0 = col.toNat; omega)
    · rw [h] at hrow
      exact absurd hrow (by show ¬0 = row.toNat; omega)
    · have hlt : 80 < ((value &&& 0xFE0000) >>> 17).toNat := h
      omega
    · have hlt : 336 < ((value &&& 0x01FF00) >>> 8).toNat := h
      omega
  refine ⟨hgood, ?_⟩
  rw [itemOf_of_isData hitDiscCfg hdata, hitsOf, if_neg (Bool.eq_false_iff.mp hgood)]
  simp only [hrow, hcol]
  rw [hitOf_eq hitDiscCfg (by omega) (by omega) hcode1 htot1,
    hitOf_eq hitDiscCfg (by omega) (by omega) hcode2 htot2]

/-! ## Events -/

/-- The hits before the first header, and an event for each header with the hits after it. -/
def events (cfg : Fin 3) (tag : UInt32) : List Call → List FrontEndHit × List FrontEndEvent
  | [] => ([], [])
  | .addDataHeader _ l1Id bcId :: calls =>
      let rest := events cfg tag calls
      ([], ⟨tag.toNat, l1Id.toNat % 32, bcId.toNat % 1024, rest.1⟩ :: rest.2)
  | .addHit col row tot1 tot2 :: calls =>
      let rest := events cfg tag calls
      (hits hitDiscCfg cfg (.addHit col row tot1 tot2) ++ rest.1, rest.2)

/-- Hits come before any header. -/
def startsWithHit : List Call → Bool
  | .addHit _ _ _ _ :: _ => true
  | _ => false

/-- The event that the decoder makes up for hits before any header. -/
def orphanEvents (cfg : Fin 3) (k : Carried) (calls : List Call) : List FrontEndEvent :=
  if startsWithHit calls then
    [⟨0xDEADBEEF, k.l1id.toNat % 2 ^ 16, k.bcid.toNat % 2 ^ 16,
      (events hitDiscCfg cfg k.tag calls).1⟩]
  else []

/-- The words of the calls as items. -/
def items (cfg : Fin 3) (calls : List Call) : List Item :=
  (calls.map (word cfg)).filterMap (itemOf hitDiscCfg)

theorem items_cons (cfg : Fin 3) (call : Call) (calls : List Call) {item : Item}
    (h : itemOf hitDiscCfg (word cfg call) = some item) :
    items hitDiscCfg cfg (call :: calls) = item :: items hitDiscCfg cfg calls := by
  rw [items, List.map_cons, List.filterMap_cons, h]
  rfl

theorem orphaned_items (cfg : Fin 3) {calls : List Call} (hin : ∀ call ∈ calls, call.Inside) :
    orphaned (items hitDiscCfg cfg calls) = startsWithHit calls := by
  cases calls with
  | nil => rfl
  | cons call calls =>
      cases call with
      | addDataHeader hasErrorFlags l1Id bcId =>
          obtain ⟨-, l1id, bcid, feedback, hitem, -, -⟩ :=
            itemOf_header hitDiscCfg cfg hasErrorFlags l1Id bcId
          rw [items_cons hitDiscCfg cfg _ _ hitem]
          rfl
      | addHit col row tot1 tot2 =>
          have hitem := (itemOf_hit hitDiscCfg cfg tot1 tot2 (hin _ List.mem_cons_self)).2
          rw [items_cons hitDiscCfg cfg _ _ hitem]
          rfl

theorem defined_items (cfg : Fin 3) {calls : List Call} (hin : ∀ call ∈ calls, call.Inside) :
    ∀ item ∈ items hitDiscCfg cfg calls, item ≠ .undefined := by
  induction calls with
  | nil => exact fun _ hmem => absurd hmem List.not_mem_nil
  | cons call calls ih =>
      have hrest := ih fun c hc => hin c (List.mem_cons_of_mem _ hc)
      cases call with
      | addDataHeader hasErrorFlags l1Id bcId =>
          obtain ⟨-, l1id, bcid, feedback, hitem, -, -⟩ :=
            itemOf_header hitDiscCfg cfg hasErrorFlags l1Id bcId
          rw [items_cons hitDiscCfg cfg _ _ hitem]
          exact List.forall_mem_cons.mpr ⟨Item.noConfusion, hrest⟩
      | addHit col row tot1 tot2 =>
          have hitem := (itemOf_hit hitDiscCfg cfg tot1 tot2 (hin _ List.mem_cons_self)).2
          rw [items_cons hitDiscCfg cfg _ _ hitem]
          exact List.forall_mem_cons.mpr ⟨Item.noConfusion, hrest⟩

theorem marks_items (cfg : Fin 3) (tag : UInt32) {calls : List Call}
    (hin : ∀ call ∈ calls, call.Inside) :
    marks tag (items hitDiscCfg cfg calls) =
      (events hitDiscCfg cfg tag calls).1.map .hit ++
        eventMarks (events hitDiscCfg cfg tag calls).2 := by
  induction calls with
  | nil => rfl
  | cons call calls ih =>
      have hrest := ih fun c hc => hin c (List.mem_cons_of_mem _ hc)
      cases call with
      | addDataHeader hasErrorFlags l1Id bcId =>
          obtain ⟨-, l1id, bcid, feedback, hitem, hl1, hbc⟩ :=
            itemOf_header hitDiscCfg cfg hasErrorFlags l1Id bcId
          have hl1' : l1id.toNat % 2 ^ 16 = l1Id.toNat % 32 := by omega
          have hbc' : bcid.toNat % 2 ^ 16 = bcId.toNat % 1024 := by omega
          rw [items_cons hitDiscCfg cfg _ _ hitem, marks, hrest, hl1', hbc', events,
            eventMarks_cons]
          rfl
      | addHit col row tot1 tot2 =>
          have hitem := (itemOf_hit hitDiscCfg cfg tot1 tot2 (hin _ List.mem_cons_self)).2
          rw [items_cons hitDiscCfg cfg _ _ hitem, marks, hrest, events, List.map_append,
            List.append_assoc]

/-- The decoder returns an event for each header, with its counters and the hits after it. -/
theorem decode_items (cfg : Fin 3) (k : Carried) (stat : LoopStatus) {calls : List Call}
    (hin : ∀ call ∈ calls, call.Inside) :
    ∃ s, decode orphanTag (.start k stat) (items hitDiscCfg cfg calls) = some s ∧
      s.curOut = ⟨stat, orphanEvents hitDiscCfg cfg k calls ++
        (events hitDiscCfg cfg k.tag calls).2⟩ := by
  have hdefined := (decode_ne_none_iff orphanTag (Reading.wellformed_start k stat) _).mpr
    (defined_items hitDiscCfg cfg hin)
  obtain ⟨s, hs⟩ := Option.ne_none_iff_exists'.mp hdefined
  refine ⟨s, hs, ?_⟩
  have hshows := decode_shows hs
  have hevents : eventMarks s.curOut.events = orphanMarks orphanTag k (items hitDiscCfg cfg calls) ++
      marks k.tag (items hitDiscCfg cfg calls) := hshows.events
  have hmarks : eventMarks s.curOut.events = eventMarks (orphanEvents hitDiscCfg cfg k calls ++
      (events hitDiscCfg cfg k.tag calls).2) := by
    rw [hevents, marks_items hitDiscCfg cfg k.tag hin, eventMarks_append, orphanMarks,
      orphaned_items hitDiscCfg cfg hin, orphanEvents]
    by_cases hstart : startsWithHit calls = true
    · rw [if_pos hstart, if_pos hstart, eventMarks_cons]
      simp [eventMarks, orphanTag]
    · have hnone : (events hitDiscCfg cfg k.tag calls).1 = [] := by
        cases calls with
        | nil => rfl
        | cons call calls =>
            cases call with
            | addDataHeader hasErrorFlags l1Id bcId => rfl
            | addHit col row tot1 tot2 => exact absurd rfl hstart
      rw [if_neg hstart, if_neg hstart, hnone]
      rfl
  have hlist := eventMarks_injective hmarks
  have hstat : s.curOut.lStat = stat := hshows.lStat
  rw [← hlist, ← hstat]

end Call

/-! ## All words are read -/

theorem wordsRead_eq {badCnt : UInt32} (hcnt : badCnt ≤ 10) {values : List UInt32}
    (hgood : ∀ value ∈ values, isBad value = false) :
    wordsRead badCnt values = values ∧ countBad badCnt values = badCnt := by
  induction values with
  | nil => exact ⟨rfl, rfl⟩
  | cons value values ih =>
      have hfirst := hgood value List.mem_cons_self
      obtain ⟨hread, hcount⟩ := ih fun v hv => hgood v (List.mem_cons_of_mem _ hv)
      have hnot : ¬badCnt > 10 := UInt32.not_lt.mpr hcnt
      constructor
      · rw [wordsRead]
        simp only [hfirst, Bool.false_eq_true, if_false]
        rw [if_neg hnot, hread]
      · rw [countBad, List.foldl_cons, hfirst]
        exact hcount

theorem buffersRead_eq {badCnt : UInt32} (hcnt : badCnt ≤ 10) {buffers : List (List UInt32)}
    (hgood : ∀ value ∈ buffers.flatten, isBad value = false) :
    buffersRead badCnt buffers = buffers.flatten := by
  induction buffers with
  | nil => rfl
  | cons buffer buffers ih =>
      rw [List.flatten_cons] at hgood ⊢
      obtain ⟨hfirst, hrest⟩ := List.forall_mem_append.mp hgood
      obtain ⟨hread, hcount⟩ := wordsRead_eq hcnt hfirst
      rw [buffersRead, hread, hcount, ih hrest]

/-! ## What the emulator sends -/

namespace Fei4Emu

variable (emu : Fei4Emu)

/-- The row of the table of codes, for settings that have one. -/
def discriminator : Fin 3 := Fin.ofNat 3 (HitDiscCnfg.value emu.cfg)

theorem getToTCode_eq (h : HitDiscCnfg.value emu.cfg < 3) (dec_tot : UInt8) :
    emu.getToTCode dec_tot = some (Call.code emu.discriminator dec_tot) := by
  have hdisc : (⟨HitDiscCnfg.value emu.cfg, h⟩ : Fin 3) = emu.discriminator :=
    Fin.ext (Nat.mod_eq_of_lt h).symm
  unfold getToTCode Call.code
  dsimp only
  rw [dif_pos h, hdisc]

theorem perform_eq (hfe : emu.m_feId = 0) {call : Call}
    (h : HitDiscCnfg.value emu.cfg < 3 ∨ call.isHit = false) :
    ∃ emu', emu.perform call = some emu' ∧ emu'.cfg = emu.cfg ∧ emu'.m_feId = 0 ∧
      emu'.m_rxRingBuffer = emu.m_rxRingBuffer ++ [call.word emu.discriminator] := by
  cases call with
  | addDataHeader hasErrorFlags l1Id bcId =>
      refine ⟨_, rfl, rfl, hfe, ?_⟩
      show emu.m_rxRingBuffer ++ [dataHeader _ hasErrorFlags] = _
      rw [dataHeader, hfe]
      rfl
  | addHit col row tot1 tot2 =>
      have hdisc : HitDiscCnfg.value emu.cfg < 3 := by
        rcases h with h | h
        · exact h
        · cases h
      refine ⟨emu.addDataRecord col row (Call.code emu.discriminator tot1)
        (Call.code emu.discriminator tot2), ?_, rfl, hfe, ?_⟩
      · rw [perform, addHit, getToTCode_eq emu hdisc, getToTCode_eq emu hdisc]
        rfl
      · show emu.m_rxRingBuffer ++ [dataRecord _ _ _ _ _] = _
        rw [dataRecord, hfe]
        rfl

theorem performAll_eq {emu : Fei4Emu} (hfe : emu.m_feId = 0) {calls : List Call}
    (h : HitDiscCnfg.value emu.cfg < 3 ∨ ∀ call ∈ calls, call.isHit = false) :
    ∃ emu', emu.performAll calls = some emu' ∧
      emu'.m_rxRingBuffer = emu.m_rxRingBuffer ++ calls.map (Call.word emu.discriminator) := by
  induction calls generalizing emu with
  | nil => exact ⟨emu, rfl, (List.append_nil _).symm⟩
  | cons call calls ih =>
      have hfirst : HitDiscCnfg.value emu.cfg < 3 ∨ call.isHit = false :=
        h.imp_right fun hall => hall call List.mem_cons_self
      obtain ⟨emu₁, hcall, hcfg, hfe₁, hring⟩ := perform_eq emu hfe hfirst
      have hrest : HitDiscCnfg.value emu₁.cfg < 3 ∨ ∀ call ∈ calls, call.isHit = false := by
        rw [hcfg]
        exact h.imp_right fun hall c hc => hall c (List.mem_cons_of_mem _ hc)
      obtain ⟨emu₂, hcalls, hring₂⟩ := ih hfe₁ hrest
      refine ⟨emu₂, ?_, ?_⟩
      · rw [performAll, List.foldlM_cons, hcall]
        exact hcalls
      · have hdisc : emu₁.discriminator = emu.discriminator := by
          rw [discriminator, hcfg, discriminator]
        rw [hring₂, hring, hdisc, List.append_assoc]
        rfl

/-- A code of the fourth setting is read outside the table. -/
theorem performAll_none {emu : Fei4Emu} (hdisc : ¬HitDiscCnfg.value emu.cfg < 3)
    {calls : List Call} (h : ∃ call ∈ calls, call.isHit = true) : emu.performAll calls = none := by
  induction calls generalizing emu with
  | nil =>
      obtain ⟨call, hmem, -⟩ := h
      exact absurd hmem List.not_mem_nil
  | cons call calls ih =>
      rw [performAll, List.foldlM_cons]
      cases call with
      | addDataHeader hasErrorFlags l1Id bcId =>
          obtain ⟨call, hmem, hhit⟩ := h
          rcases List.mem_cons.mp hmem with rfl | hmem
          · cases hhit
          · exact @ih (addDataHeader { emu with m_l1IdCnt := l1Id, m_bcIdCnt := bcId } hasErrorFlags)
              hdisc ⟨call, hmem, hhit⟩
      | addHit col row tot1 tot2 =>
          rw [perform, addHit, getToTCode, dif_neg hdisc]
          rfl

/-! ## The round trip -/

/-- The words of the calls are decoded into the events of the headers, in whatever buffers of a
container they come and whatever the decoder kept before, unless it counted more than ten bad
words. -/
def RoundTrip (hitDiscCfg : Fin 3) (calls : List Call) : Prop :=
  ∃ emu' words, emu.performAll calls = some emu' ∧
    emu'.m_rxRingBuffer = emu.m_rxRingBuffer ++ words ∧
    ∀ (k : Kept) (c : WordContainer), k.badCnt ≤ 10 → c.data.flatten = words →
      ∃ k' feedback, (process_core hitDiscCfg).take k c =
        some (k', ⟨[⟨c.stat,
          Call.orphanEvents hitDiscCfg emu.discriminator k.carried calls ++
            (Call.events hitDiscCfg emu.discriminator k.carried.tag calls).2⟩], feedback⟩)

theorem take_words (hitDiscCfg : Fin 3) (cfg : Fin 3) {calls : List Call}
    (hin : ∀ call ∈ calls, call.Inside) {k : Kept} {c : WordContainer} (hcnt : k.badCnt ≤ 10)
    (hdata : c.data.flatten = calls.map (Call.word cfg)) :
    ∃ k' feedback, (process_core hitDiscCfg).take k c =
      some (k', ⟨[⟨c.stat, Call.orphanEvents hitDiscCfg cfg k.carried calls ++
        (Call.events hitDiscCfg cfg k.carried.tag calls).2⟩], feedback⟩) := by
  have hgood : ∀ value ∈ c.data.flatten, isBad value = false := by
    rw [hdata]
    intro value hvalue
    obtain ⟨call, hcall, rfl⟩ := List.mem_map.mp hvalue
    cases call with
    | addDataHeader hasErrorFlags l1Id bcId =>
        exact (Call.itemOf_header hitDiscCfg cfg hasErrorFlags l1Id bcId).1
    | addHit col row tot1 tot2 =>
        exact (Call.itemOf_hit hitDiscCfg cfg tot1 tot2 (hin _ hcall)).1
  have hitems : itemsRead hitDiscCfg k c = Call.items hitDiscCfg cfg calls := by
    rw [itemsRead, buffersRead_eq hcnt hgood, hdata]
    rfl
  obtain ⟨s, hs, hcurOut⟩ := Call.decode_items hitDiscCfg cfg k.carried c.stat hin
  refine ⟨k.next hitDiscCfg c, s.feedback, ?_⟩
  rw [process_core_eq]
  simp only [Reading.consumer, reading, hitems, hs, Option.map_some, true_or, if_true, hcurOut]

theorem roundTrip_iff (hfe : emu.m_feId = 0) (hitDiscCfg : Fin 3) {calls : List Call}
    (hin : ∀ call ∈ calls, call.Inside) :
    emu.RoundTrip hitDiscCfg calls ↔
      HitDiscCnfg.value emu.cfg < 3 ∨ ∀ call ∈ calls, call.isHit = false := by
  constructor
  · rintro ⟨emu', words, hperform, -, -⟩
    by_contra hnot
    obtain ⟨hdisc, hhits⟩ := not_or.mp hnot
    have hexists : ∃ call ∈ calls, call.isHit = true := by
      by_contra hnone
      apply hhits
      intro call hcall
      apply Bool.eq_false_iff.mpr
      intro hhit
      exact hnone ⟨call, hcall, hhit⟩
    rw [performAll_none hdisc hexists] at hperform
    cases hperform
  · intro hcond
    obtain ⟨emu', hperform, hring⟩ := performAll_eq hfe hcond
    exact ⟨emu', _, hperform, hring, fun k c hcnt hdata =>
      take_words hitDiscCfg emu.discriminator hin hcnt hdata⟩

/-- In every run the hits are on the matrix exactly if no word that was read spills over, and what
the emulator sends comes back exactly if it finds the codes of its hits. -/
theorem hits_on_matrix_and_back (hitDiscCfg : Fin 3) :
    (∀ (items : List WordContainer)
        (w : World Kept WordContainer FrontEndData FeedbackProcessingInfo),
      Run (process_core hitDiscCfg) (some (.start items)) (some w) →
        ∃ calls : List (List WordContainer), calls.flatten ++ w.queue ++ w.pending = items ∧
          (AllOnMatrix hitDiscCfg w.out.main ↔
            ∀ value ∈ calls.flatMap (wordsOfCall hitDiscCfg .fresh), ¬SpillsOver value)) ∧
      ∀ (emu : Fei4Emu) (calls : List Call), emu.m_feId = 0 → (∀ call ∈ calls, call.Inside) →
        (emu.RoundTrip hitDiscCfg calls ↔
          HitDiscCnfg.value emu.cfg < 3 ∨ ∀ call ∈ calls, call.isHit = false) :=
  ⟨fun _ _ hrun => run_onMatrix_iff hitDiscCfg hrun,
    fun emu _ hfe hin => emu.roundTrip_iff hfe hitDiscCfg hin⟩

/-- A header, and a word of column 1 and row 336 of which only the second pixel is hit. -/
def lastRow : WordContainer :=
  ⟨[[0x00e90000, 0x000350f0]], ⟨[], [], false, LoopStatus.same_size_nil⟩⟩

/-- The hit is decoded into row 337. -/
theorem row_337_decoded :
    ∃ w, Run (process_core 0) (some (.start [lastRow])) (some w) ∧ ¬AllOnMatrix 0 w.out.main := by
  let hit : FrontEndHit := ⟨1, 337, 1⟩
  let out : Out FrontEndData FeedbackProcessingInfo :=
    ⟨[⟨lastRow.stat, [⟨0, 0, 0, [hit]⟩]⟩], [⟨0, 0⟩]⟩
  have htake : (process_core 0).take Kept.fresh lastRow = some (Kept.fresh, out) := by rfl
  refine ⟨⟨[], [], some Kept.fresh, Out.empty.append out⟩, ?_, ?_⟩
  · exact (((Relation.ReflTransGen.refl.tail (.push lastRow [] [] none .empty)).tail
      (.enter [] [lastRow] .empty)).tail
        (.take Kept.fresh Kept.fresh lastRow [] [] .empty out htake))
  · intro hall
    have hrow := (hall _ List.mem_cons_self _ List.mem_cons_self hit List.mem_cons_self).row
    exact absurd hrow.2 (by decide)

end Fei4Emu

end Yarr.Fei4
