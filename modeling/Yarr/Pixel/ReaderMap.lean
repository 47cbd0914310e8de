import Yarr.Pixel.Itkpixv2DataProcessor
import Yarr.Pixel.Rd53bDataProcessor

/-!
# Decoders over related readers

A decoder uses its reader through five operations only. A map between two
readers that respects them therefore carries every label, every call and every
session of either decoder from the one reader to the other. The map that
matters is the view of an index reader as a cursor.
-/

namespace Yarr.Pixel

open Run

/-- A map that respects what decoders ask of a reader. -/
structure ReaderHom {ρ τ : Type} [BlockReader ρ] [BlockReader τ] (f : ρ → τ) : Prop where
  inputEmpty : ∀ r, BlockReader.inputEmpty (f r) = BlockReader.inputEmpty r
  data : ∀ r, BlockReader.data (f r) = BlockReader.data r
  stat : ∀ r, BlockReader.stat (f r) = BlockReader.stat r
  next : ∀ r o, BlockReader.getNextDataBlock (f r) o =
    ((BlockReader.getNextDataBlock r o).1, f (BlockReader.getNextDataBlock r o).2.1,
      (BlockReader.getNextDataBlock r o).2.2)
  previous : ∀ r, BlockReader.getPreviousDataBlock (f r) = f (BlockReader.getPreviousDataBlock r)

theorem StreamReader.view_hom {cfg : DecoderConfig} :
    ReaderHom (StreamReader.view : StreamReader cfg → Cursor) where
  inputEmpty r := by
    change (r.raw.input.map (Parcel.ofContainer cfg)).isEmpty = r.raw.input.isEmpty
    cases r.raw.input <;> rfl
  data _ := rfl
  stat r := by
    change (r.raw.curInV.map (Parcel.ofContainer cfg)).map Parcel.stat = r.raw.curInV.map _
    cases r.raw.curInV <;> rfl
  next r o := (RawReader.getNextDataBlock_view cfg o r.settled).2
  previous r := (RawReader.getPreviousDataBlock_view cfg r.settled).2.symm

namespace Decoder

variable {ρ τ : Type} [BlockReader ρ] [BlockReader τ] {f : ρ → τ}

omit [BlockReader ρ] [BlockReader τ] in
def mapReader (f : ρ → τ) (s : Decoder ρ) : Decoder τ where
  reader := f s.reader
  output := s.output
  statusFb := s.statusFb
  status := s.status
  tag := s.tag
  l1id := s.l1id
  bcid := s.bcid
  bitIdx := s.bitIdx
  ccol := s.ccol
  qrow := s.qrow
  islast_isneighbor := s.islast_isneighbor
  hitmap := s.hitmap
  ToT := s.ToT
  maskLoopIndex := s.maskLoopIndex
  checkMaskLoopIndex := s.checkMaskLoopIndex
  counters := s.counters

end Decoder

def Retrieved.mapReader {ρ τ : Type} (f : ρ → τ) (r : Retrieved ρ) : Retrieved τ where
  ok := r.ok
  value := r.value
  state := r.state.mapReader f

namespace Decoder

variable {ρ τ : Type} [BlockReader ρ] [BlockReader τ] {f : ρ → τ}

theorem data_mapReader (hf : ReaderHom f) (s : Decoder ρ) :
    BlockReader.data (s.mapReader f).reader = BlockReader.data s.reader :=
  hf.data s.reader

omit [BlockReader ρ] [BlockReader τ] in
@[simp] theorem output_mapReader (s : Decoder ρ) : (s.mapReader f).output = s.output := rfl

omit [BlockReader ρ] [BlockReader τ] in
@[simp] theorem bitIdx_mapReader (s : Decoder ρ) : (s.mapReader f).bitIdx = s.bitIdx := rfl

theorem nextBlock_mapReader (hf : ReaderHom f) (s : Decoder ρ) :
    (s.mapReader f).nextBlock = (s.nextBlock.1, s.nextBlock.2.mapReader f) := by
  simp only [nextBlock, mapReader, hf.next]

theorem previousBlock_mapReader (hf : ReaderHom f) (s : Decoder ρ) :
    (s.mapReader f).previousBlock = s.previousBlock.mapReader f := by
  simp only [previousBlock, mapReader, hf.previous]

theorem rollBack_mapReader (hf : ReaderHom f) (cfg : DecoderConfig) (length : Nat)
    (s : Decoder ρ) : (s.mapReader f).rollBack cfg length = (s.rollBack cfg length).mapReader f := by
  unfold rollBack
  split
  · rfl
  · change (if s.bitIdx ≥ length + 1 + cfg.chipIdShift then _ else _) = _
    split
    · rfl
    · exact previousBlock_mapReader hf { s with bitIdx := s.bitIdx + 63 - length - cfg.chipIdShift }

omit [BlockReader ρ] [BlockReader τ] in
theorem withField_mapReader {found : Except Fault (Retrieved ρ)}
    {store₁ : Nat → Decoder ρ → Decoder ρ} {store₂ : Nat → Decoder τ → Decoder τ}
    {next₁ : Nat → Decoder ρ → Outcome Fault (Decoder ρ)}
    {next₂ : Nat → Decoder τ → Outcome Fault (Decoder τ)}
    (hstore : ∀ v s, store₂ v (s.mapReader f) = (store₁ v s).mapReader f)
    (hnext : ∀ v s, next₂ v (s.mapReader f) = (next₁ v s).map (mapReader f)) :
    withField (found.map (Retrieved.mapReader f)) store₂ next₂ =
      (withField found store₁ next₁).map (mapReader f) := by
  cases found with
  | error e => rfl
  | ok r =>
      obtain ⟨ok, value, state⟩ := r
      cases ok with
      | true =>
          change next₂ value (store₂ value (state.mapReader f)) = _
          rw [hstore, hnext]
          rfl
      | false =>
          change Outcome.ret (store₂ value (state.mapReader f)) = _
          rw [hstore]
          rfl

theorem startEvent_mapReader (hf : ReaderHom f) (s : Decoder ρ) :
    (s.mapReader f).startEvent = s.startEvent.map (mapReader f) := by
  unfold startEvent
  have hstat : BlockReader.stat (s.mapReader f).reader = BlockReader.stat s.reader := hf.stat s.reader
  rw [hstat, output_mapReader]
  cases s.output.curOut with
  | some d => rfl
  | none =>
      cases BlockReader.stat s.reader with
      | some stat => rfl
      | none => rfl

theorem header_mapReader (hf : ReaderHom f) (s : Decoder ρ) (next : Status) :
    (s.mapReader f).header next = (s.header next).map (mapReader f) := by
  unfold header
  rw [startEvent_mapReader hf]
  cases s.startEvent <;> rfl

theorem splitEvent_mapReader (hf : ReaderHom f) (s : Decoder ρ) :
    (s.mapReader f).splitEvent = s.splitEvent.map (mapReader f) := by
  unfold splitEvent
  rw [startEvent_mapReader hf]
  change (if s.output.events = 0 then _ else _) = _
  split
  · cases s.startEvent <;> rfl
  · rfl

omit [BlockReader ρ] [BlockReader τ] in
theorem addHit_mapReader (s : Decoder ρ) (hit : FrontEndHit) :
    (s.mapReader f).addHit hit = (s.addHit hit).map (mapReader f) := by
  unfold addHit
  rw [output_mapReader]
  cases s.output.curOut with
  | none => rfl
  | some d =>
      simp only
      cases d.addHit hit <;> rfl

omit [BlockReader ρ] [BlockReader τ] in
theorem touchCurEvent_mapReader (guarded : Bool) (s : Decoder ρ) :
    (s.mapReader f).touchCurEvent guarded = (s.touchCurEvent guarded).map (mapReader f) := by
  unfold touchCurEvent
  change (if (guarded && s.output.events == 0) ||
    TreeCode.plainHMapToColRowArrSize s.hitmap == 0 then _ else _) = _
  split
  · rfl
  · rw [output_mapReader]
    cases s.output.curOut with
    | none => rfl
    | some d =>
        simp only
        cases d.events.isEmpty <;> rfl

theorem foldlM_map {α σ₁ σ₂ ε : Type} {g : σ₁ → σ₂} {body₁ : σ₁ → α → Except ε σ₁}
    {body₂ : σ₂ → α → Except ε σ₂} (h : ∀ s a, body₂ (g s) a = (body₁ s a).map g) (as : List α)
    (s : σ₁) : as.foldlM body₂ (g s) = (as.foldlM body₁ s).map g := by
  induction as generalizing s with
  | nil => rfl
  | cons a as ih =>
      rw [List.foldlM_cons, List.foldlM_cons, h]
      cases hb : body₁ s a with
      | error e => rfl
      | ok s' => exact ih s'

theorem addPixelHits_mapReader (hf : ReaderHom f) (s : Decoder ρ) :
    (s.mapReader f).addPixelHits = s.addPixelHits.map (mapReader f) := by
  have hhits : (s.mapReader f).pixelHits = s.pixelHits := rfl
  unfold addPixelHits
  rw [hhits]
  refine foldlM_map (fun s hit => ?_) s.pixelHits s
  rw [splitEvent_mapReader hf]
  cases s.splitEvent with
  | error e => rfl
  | ok s => exact addHit_mapReader s hit

omit [BlockReader ρ] [BlockReader τ] in
theorem findMaskLoop_mapReader (s : Decoder ρ) :
    (s.mapReader f).findMaskLoop = s.findMaskLoop.mapReader f := by
  unfold findMaskLoop
  change (if s.checkMaskLoopIndex then _ else _) = _
  split
  · rw [output_mapReader]
    cases s.output.curOut with
    | none => rfl
    | some d =>
        simp only
        cases (List.range d.lStat.size).find? fun loop => d.lStat.getStyle loop == .mask <;> rfl
  · rfl

theorem addPToTBus_mapReader (hf : ReaderHom f) (p : Decoder ρ × Nat) (ibus : Nat) :
    addPToTBus (p.1.mapReader f, p.2) ibus =
      (addPToTBus p ibus).map fun p => (p.1.mapReader f, p.2) := by
  obtain ⟨s, idx⟩ := p
  unfold addPToTBus
  change (if (s.hitmap >>> (ibus <<< 2)) &&& 0xF = 0 then _ else _) = _
  simp only
  split
  · rfl
  · rw [splitEvent_mapReader hf]
    cases s.splitEvent with
    | error e => rfl
    | ok s' =>
        let word := ptotWord s.ToT (TreeCode.plainHMapToColRowArrSize s.hitmap)
          ((s.hitmap >>> (ibus <<< 2)) &&& 0xF) idx
        change Except.map (fun t => (t, word.2)) ((s'.mapReader f).findMaskLoop.addHit
            ((s'.mapReader f).findMaskLoop.ptotHit word.1 ibus)) =
          Except.map _ (Except.map (fun t => (t, word.2))
            (s'.findMaskLoop.addHit (s'.findMaskLoop.ptotHit word.1 ibus)))
        rw [findMaskLoop_mapReader, addHit_mapReader]
        change Except.map _ (Except.map _ (s'.findMaskLoop.addHit
          (s'.findMaskLoop.ptotHit word.1 ibus))) = _
        cases s'.findMaskLoop.addHit (s'.findMaskLoop.ptotHit word.1 ibus) <;> rfl

theorem addPToTHits_mapReader (hf : ReaderHom f) (s : Decoder ρ) :
    (s.mapReader f).addPToTHits = s.addPToTHits.map (mapReader f) := by
  have hfold := foldlM_map (addPToTBus_mapReader hf) (List.range 4) (s, 0)
  simp only at hfold
  unfold addPToTHits
  rw [hfold]
  cases (List.range 4).foldlM addPToTBus (s, 0) <;> rfl

/-! ## Labels -/

/-- A way to read fields that commutes with the map. -/
def RetrieveHom (f : ρ → τ) (retrieve₁ : Retrieve ρ) (retrieve₂ : Retrieve τ) : Prop :=
  ∀ value length checkEOS skipNSCheck s,
    retrieve₂ value length checkEOS skipNSCheck (s.mapReader f) =
      (retrieve₁ value length checkEOS skipNSCheck s).map (Retrieved.mapReader f)

variable {retrieve₁ : Retrieve ρ} {retrieve₂ : Retrieve τ}

omit [BlockReader ρ] [BlockReader τ] in
theorem ilin_mapReader (hr : RetrieveHom f retrieve₁ retrieve₂) (s : Decoder ρ) :
    ilin retrieve₂ (s.mapReader f) = (ilin retrieve₁ s).map (mapReader f) := by
  unfold ilin
  change withField (retrieve₂ s.islast_isneighbor 2 false false (s.mapReader f)) _ _ = _
  rw [hr]
  exact withField_mapReader (fun _ _ => rfl) (fun _ _ => rfl)

omit [BlockReader ρ] [BlockReader τ] in
theorem qrowLabel_mapReader (hr : RetrieveHom f retrieve₁ retrieve₂) (s : Decoder ρ) :
    qrowLabel retrieve₂ (s.mapReader f) = (qrowLabel retrieve₁ s).map (mapReader f) := by
  unfold qrowLabel
  change (if s.islast_isneighbor &&& 1 = 1 then _ else _) = _
  split
  · rfl
  · rw [hr]
    exact withField_mapReader (fun _ _ => rfl) (fun _ _ => rfl)

omit [BlockReader ρ] [BlockReader τ] in
theorem hmap1_mapReader (hr : RetrieveHom f retrieve₁ retrieve₂) (s : Decoder ρ) :
    hmap1 retrieve₂ (s.mapReader f) = (hmap1 retrieve₁ s).map (mapReader f) := by
  unfold hmap1
  change withField (retrieve₂ s.hitmap 16 false true (s.mapReader f)) _ _ = _
  rw [hr]
  exact withField_mapReader (fun _ _ => rfl) (fun _ _ => rfl)

theorem hmap2_mapReader (hf : ReaderHom f) (hr : RetrieveHom f retrieve₁ retrieve₂)
    (cfg : DecoderConfig) (s : Decoder ρ) :
    hmap2 cfg retrieve₂ (s.mapReader f) = (hmap2 cfg retrieve₁ s).map (mapReader f) := by
  unfold hmap2
  split
  · let entry := TreeCode.lutBinaryTreeHitMap (s.hitmap % 2 ^ 16)
    let s₁ : Decoder ρ := { s with hitmap := entry.map }
    change (if entry.rollBackRow > 0 then
        withField (retrieve₂ 0 14 false true
          (if entry.rollBackRow ≠ 0xff then (s₁.mapReader f).rollBack cfg entry.rollBackRow
            else s₁.mapReader f)) _ _
      else .cont { (s₁.mapReader f).rollBack cfg entry.rollBack with status := .tot }) =
      Outcome.map _ (if entry.rollBackRow > 0 then
        withField (retrieve₁ 0 14 false true
          (if entry.rollBackRow ≠ 0xff then s₁.rollBack cfg entry.rollBackRow else s₁)) _ _
      else .cont { s₁.rollBack cfg entry.rollBack with status := .tot })
    rw [rollBack_mapReader hf, rollBack_mapReader hf]
    by_cases hrow : entry.rollBackRow > 0
    · rw [if_pos hrow, if_pos hrow]
      rw [show (if entry.rollBackRow ≠ 0xff then (s₁.rollBack cfg entry.rollBackRow).mapReader f
          else s₁.mapReader f) =
        (if entry.rollBackRow ≠ 0xff then s₁.rollBack cfg entry.rollBackRow else s₁).mapReader f by
          split <;> rfl, hr]
      refine withField_mapReader (fun _ _ => rfl) (fun v s => ?_)
      exact congrArg (fun t : Decoder τ => Outcome.cont { t with status := .tot })
        (rollBack_mapReader hf cfg _ { s with hitmap :=
          s.hitmap ||| ((TreeCode.lutBinaryTreeRowHMap v).map <<< 8) })
    · rw [if_neg hrow, if_neg hrow]
      rfl
  · rfl

omit [BlockReader ρ] [BlockReader τ] in
theorem endQuarterCore_mapReader (found : Except Fault (Decoder ρ)) :
    endQuarterCore (found.map (mapReader f)) = (endQuarterCore found).map (mapReader f) := by
  cases found <;> rfl

theorem totLabel_mapReader (hf : ReaderHom f) (hr : RetrieveHom f retrieve₁ retrieve₂)
    (cfg : DecoderConfig) (guarded : Bool) (s : Decoder ρ) :
    totLabel cfg retrieve₂ guarded (s.mapReader f) =
      (totLabel cfg retrieve₁ guarded s).map (mapReader f) := by
  have hpixel : ∀ s : Decoder ρ,
      endQuarterCore (((s.mapReader f).touchCurEvent guarded).bind addPixelHits) =
        (endQuarterCore ((s.touchCurEvent guarded).bind addPixelHits)).map (mapReader f) := by
    intro s
    rw [← endQuarterCore_mapReader, touchCurEvent_mapReader]
    cases s.touchCurEvent guarded with
    | error e => rfl
    | ok s => exact congrArg endQuarterCore (addPixelHits_mapReader hf s)
  have hptot : ∀ s : Decoder ρ,
      endQuarterCore (((s.mapReader f).touchCurEvent guarded).bind addPToTHits) =
        (endQuarterCore ((s.touchCurEvent guarded).bind addPToTHits)).map (mapReader f) := by
    intro s
    rw [← endQuarterCore_mapReader, touchCurEvent_mapReader]
    cases s.touchCurEvent guarded with
    | error e => rfl
    | ok s => exact congrArg endQuarterCore (addPToTHits_mapReader hf s)
  unfold totLabel
  change (if s.isPToT then
      withField (retrieve₂ s.ToT _ false false (s.mapReader f)) _ _
    else if cfg.dropToT then _
    else withField (retrieve₂ s.ToT _ false false (s.mapReader f)) _ _) = _
  rw [hr, hpixel]
  split
  · exact withField_mapReader (fun _ _ => rfl) (fun _ s => hptot s)
  · split
    · rfl
    · exact withField_mapReader (fun _ _ => rfl) (fun _ s => hpixel s)

end Decoder

end Yarr.Pixel

/-! ## ITkPixV2 -/

namespace Yarr.Pixel.Itkpixv2DataProcessor

open Run Decoder

variable {ρ τ : Type} [BlockReader ρ] [BlockReader τ] {f : ρ → τ}

theorem readOn_mapReader (hf : ReaderHom f) (cfg : DecoderConfig) (value length : Nat)
    (s : Decoder ρ) : readOn cfg value length (s.mapReader f) =
      (readOn cfg value length s).map (Retrieved.mapReader f) := by
  unfold readOn
  rw [nextBlock_mapReader hf]
  simp only
  split
  · rw [data_mapReader hf]
    cases BlockReader.data s.nextBlock.2.reader with
    | none => rfl
    | some d =>
        change (d.overflow cfg s.nextBlock.2.bitIdx length).map _ =
          ((d.overflow cfg s.nextBlock.2.bitIdx length).map _).map _
        cases d.overflow cfg s.nextBlock.2.bitIdx length <;> rfl
  · rw [previousBlock_mapReader hf]
    rfl

theorem retrieve_mapReader (hf : ReaderHom f) (cfg : DecoderConfig) :
    RetrieveHom f (retrieve cfg) (retrieve cfg) := by
  intro value length checkEOS skipNSCheck s
  unfold retrieve
  split
  · rfl
  · have hdata : BlockReader.data (s.mapReader f).reader = BlockReader.data s.reader :=
      hf.data s.reader
    rw [hdata]
    cases BlockReader.data s.reader with
    | none => rfl
    | some d =>
        change (if s.bitIdx + length ≤ 64 then _ else if length + s.bitIdx - 64 ≥ 64 then _ else
          if d.topBit && checkEOS then _ else if d.topBit && !skipNSCheck then _ else
            readOn cfg (d.rest s.bitIdx <<< (length + s.bitIdx - 64)) length (s.mapReader f)) = _
        rw [readOn_mapReader hf]
        simp only
        split
        · rfl
        · split
          · rfl
          · split
            · rfl
            · split <;> rfl

theorem bcidl1_mapReader (hf : ReaderHom f) (cfg : DecoderConfig) (s : Decoder ρ) :
    bcidl1 cfg (s.mapReader f) = (bcidl1 cfg s).map (mapReader f) := by
  unfold bcidl1
  split
  · rw [retrieve_mapReader hf]
    refine withField_mapReader (fun _ _ => rfl) (fun v s => ?_)
    split
    · exact header_mapReader hf { s with bcid := v >>> 8, l1id := v &&& 0xFF } .ccol
    · split
      · exact header_mapReader hf { s with bcid := v } .ccol
      · exact header_mapReader hf { s with l1id := v } .ccol
  · exact header_mapReader hf s .ccol

theorem ccolLabel_mapReader (hf : ReaderHom f) (cfg : DecoderConfig) (s : Decoder ρ) :
    ccolLabel cfg (s.mapReader f) = (ccolLabel cfg s).map (mapReader f) := by
  unfold ccolLabel
  change withField (retrieve cfg s.ccol 6 true false (s.mapReader f)) _ _ = _
  rw [retrieve_mapReader hf]
  exact withField_mapReader (fun _ _ => rfl) (fun _ _ => rfl)

omit [BlockReader ρ] [BlockReader τ] in
theorem countTagError_mapReader (s : Decoder ρ) :
    countTagError (s.mapReader f) = (countTagError s).mapReader f := by
  unfold countTagError
  change (if s.tag >>> 3 = 27 then if s.tag >>> 2 = 54 then _ else _ else _) = _
  split
  · split <;> rfl
  · rfl

omit [BlockReader ρ] [BlockReader τ] in
theorem countCorrupt_mapReader (d : Block) (s : Decoder ρ) :
    countCorrupt d (s.mapReader f) = (countCorrupt d s).mapReader f := by
  unfold countCorrupt
  split <;> rfl

theorem endOfStream_mapReader (hf : ReaderHom f) (cfg : DecoderConfig) (s : Decoder ρ) :
    endOfStream cfg (s.mapReader f) = (endOfStream cfg s).map (mapReader f) := by
  unfold endOfStream
  have hdata : BlockReader.data (s.mapReader f).reader = BlockReader.data s.reader :=
    hf.data s.reader
  rw [hdata]
  cases BlockReader.data s.reader with
  | none => rfl
  | some d =>
      simp only [countCorrupt_mapReader, nextBlock_mapReader hf]
      generalize (countCorrupt d s).nextBlock = found
      split
      · rw [data_mapReader hf]
        cases BlockReader.data found.2.reader with
        | none => rfl
        | some d =>
            exact congrArg (fun t : Decoder τ => Outcome.cont { t with status := .bcidl1 })
              (countTagError_mapReader (readTag cfg d found.2))
      · rw [previousBlock_mapReader hf]
        rfl

theorem ccc_mapReader (hf : ReaderHom f) (cfg : DecoderConfig) (s : Decoder ρ) :
    ccc cfg (s.mapReader f) = (ccc cfg s).map (mapReader f) := by
  unfold ccc
  change (if s.ccol = 0 then _ else if s.ccol ≥ 55 then _ else _) = _
  split
  · exact endOfStream_mapReader hf cfg s
  · split
    · rw [retrieve_mapReader hf]
      exact withField_mapReader (fun _ _ => rfl) (fun _ _ => rfl)
    · rfl

theorem enter_mapReader (hf : ReaderHom f) (cfg : DecoderConfig) (s : Decoder ρ) :
    enter cfg (s.mapReader f) = (enter cfg s).map (mapReader f) := by
  unfold enter
  have hempty : BlockReader.inputEmpty (s.mapReader f).reader =
      BlockReader.inputEmpty s.reader := hf.inputEmpty s.reader
  rw [hempty, nextBlock_mapReader hf]
  change (if BlockReader.inputEmpty s.reader then _ else if s.status = .init then _ else _) = _
  split
  · rfl
  · split
    · simp only
      split
      · rw [data_mapReader hf]
        cases BlockReader.data s.nextBlock.2.reader <;> rfl
      · rfl
    · rfl

theorem step_mapReader (hf : ReaderHom f) (cfg : DecoderConfig) (s : Decoder ρ) :
    step cfg (s.mapReader f) = (step cfg s).map (mapReader f) := by
  have hr := retrieve_mapReader hf cfg
  have hstatus : (s.mapReader f).status = s.status := rfl
  unfold step
  rw [hstatus]
  cases s.status with
  | init => exact bcidl1_mapReader hf cfg { s with status := .bcidl1 }
  | bcidl1 => exact bcidl1_mapReader hf cfg s
  | ccol => exact ccolLabel_mapReader hf cfg s
  | ccc => exact ccc_mapReader hf cfg s
  | ilin => exact ilin_mapReader hr s
  | qrow => exact qrowLabel_mapReader hr s
  | hmap1 => exact hmap1_mapReader hr s
  | hmap2 => exact hmap2_mapReader hf hr cfg s
  | tot => exact totLabel_mapReader hf hr cfg true s

end Yarr.Pixel.Itkpixv2DataProcessor

/-! ## RD53B -/

namespace Yarr.Pixel.Rd53bDataProcessor

open Run Decoder

variable {ρ τ : Type} [BlockReader ρ] [BlockReader τ] {f : ρ → τ}

theorem readOn_mapReader (hf : ReaderHom f) (cfg : DecoderConfig) (value length : Nat)
    (checkEOS skipNSCheck : Bool) (s : Decoder ρ) :
    readOn cfg value length checkEOS skipNSCheck (s.mapReader f) =
      (readOn cfg value length checkEOS skipNSCheck s).map (Retrieved.mapReader f) := by
  unfold readOn
  rw [nextBlock_mapReader hf]
  simp only
  split
  · rw [data_mapReader hf]
    cases BlockReader.data s.nextBlock.2.reader with
    | none => rfl
    | some d =>
        simp only [previousBlock_mapReader hf, bitIdx_mapReader]
        split
        · rfl
        · split
          · rfl
          · split
            · rfl
            · cases d.overflow cfg s.nextBlock.2.bitIdx length <;> rfl
  · rw [previousBlock_mapReader hf]
    rfl

theorem retrieve_mapReader (hf : ReaderHom f) (cfg : DecoderConfig) :
    RetrieveHom f (retrieve cfg) (retrieve cfg) := by
  intro value length checkEOS skipNSCheck s
  unfold retrieve
  split
  · rfl
  · have hdata : BlockReader.data (s.mapReader f).reader = BlockReader.data s.reader :=
      hf.data s.reader
    have hbit : (s.mapReader f).bitIdx = s.bitIdx := rfl
    rw [hdata]
    cases BlockReader.data s.reader with
    | none => rfl
    | some d =>
        simp only [bitIdx_mapReader, readOn_mapReader hf, previousBlock_mapReader hf]
        split
        · rfl
        · split
          · rfl
          · split <;> rfl

theorem ccolLabel_mapReader (hf : ReaderHom f) (cfg : DecoderConfig) (s : Decoder ρ) :
    ccolLabel cfg (s.mapReader f) = (ccolLabel cfg s).map (mapReader f) := by
  unfold ccolLabel
  change withField (retrieve cfg s.ccol 6 true false (s.mapReader f)) _ _ = _
  rw [retrieve_mapReader hf]
  exact withField_mapReader (fun _ _ => rfl) (fun _ _ => rfl)

theorem newStream_mapReader (hf : ReaderHom f) (cfg : DecoderConfig) (d : Block)
    (s : Decoder ρ) : newStream cfg d (s.mapReader f) = (newStream cfg d s).map (mapReader f) :=
  header_mapReader hf { s with tag := d.tagBits cfg, bitIdx := 9 + cfg.chipIdShift } .ccol

theorem endOfStream_mapReader (hf : ReaderHom f) (cfg : DecoderConfig) (s : Decoder ρ) :
    endOfStream cfg (s.mapReader f) = (endOfStream cfg s).map (mapReader f) := by
  unfold endOfStream
  rw [nextBlock_mapReader hf]
  simp only
  split
  · rw [data_mapReader hf]
    cases BlockReader.data s.nextBlock.2.reader with
    | none => rfl
    | some d =>
        simp only [newStream_mapReader hf]
        split <;> rfl
  · rfl

theorem ccc_mapReader (hf : ReaderHom f) (cfg : DecoderConfig) (s : Decoder ρ) :
    ccc cfg (s.mapReader f) = (ccc cfg s).map (mapReader f) := by
  unfold ccc
  change (if s.ccol = 0 then _ else if s.ccol ≥ 55 then _ else _) = _
  split
  · exact endOfStream_mapReader hf cfg s
  · split
    · rw [retrieve_mapReader hf]
      exact withField_mapReader (fun _ _ => rfl)
        (fun v s => header_mapReader hf { s with tag := (s.ccol <<< 5) ||| v } .ccol)
    · rfl

theorem enter_mapReader (hf : ReaderHom f) (cfg : DecoderConfig) (s : Decoder ρ) :
    enter cfg (s.mapReader f) = (enter cfg s).map (mapReader f) := by
  unfold enter
  have hempty : BlockReader.inputEmpty (s.mapReader f).reader =
      BlockReader.inputEmpty s.reader := hf.inputEmpty s.reader
  rw [hempty, nextBlock_mapReader hf]
  change (if BlockReader.inputEmpty s.reader then _ else if s.status = .init then _ else _) = _
  split
  · rfl
  · split
    · simp only
      split
      · rw [data_mapReader hf]
        cases BlockReader.data s.nextBlock.2.reader with
        | none => rfl
        | some d =>
            simp only [newStream_mapReader hf]
            split <;> rfl
      · rfl
    · rfl

theorem step_mapReader (hf : ReaderHom f) (cfg : DecoderConfig) (s : Decoder ρ) :
    step cfg (s.mapReader f) = (step cfg s).map (mapReader f) := by
  have hr := retrieve_mapReader hf cfg
  have hstatus : (s.mapReader f).status = s.status := rfl
  unfold step
  rw [hstatus]
  cases s.status with
  | init => exact ccolLabel_mapReader hf cfg { s with status := .ccol }
  | bcidl1 => exact ccolLabel_mapReader hf cfg { s with status := .ccol }
  | ccol => exact ccolLabel_mapReader hf cfg s
  | ccc => exact ccc_mapReader hf cfg s
  | ilin => exact ilin_mapReader hr s
  | qrow => exact qrowLabel_mapReader hr s
  | hmap1 => exact hmap1_mapReader hr s
  | hmap2 => exact hmap2_mapReader hf hr cfg s
  | tot => exact totLabel_mapReader hf hr cfg false s

end Yarr.Pixel.Rd53bDataProcessor
