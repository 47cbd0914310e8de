import Yarr.Pixel.Decoder
import Yarr.Pixel.ReaderMap

/-!
# What events and hits leave alone

Making events and adding hits changes the container under construction, the
counter of split events and the memory of the mask loop, and nothing else.
-/

namespace Yarr.Pixel.Decoder

variable {ρ : Type}

/-- A decoder without what events and hits change. -/
def withoutEvents (s : Decoder ρ) : Decoder ρ :=
  { s with
    output := { pushed := [], curOut := none, events := 0 }
    maskLoopIndex := 0
    checkMaskLoopIndex := true
    counters := { s.counters with splitEventsCnt := 0 } }

variable [BlockReader ρ]

theorem withoutEvents_startEvent {s s' : Decoder ρ} (h : s.startEvent = .ok s') :
    s'.withoutEvents = s.withoutEvents := by
  unfold startEvent at h
  cases hc : s.output.curOut with
  | some d =>
      simp only [hc, Except.ok.injEq] at h
      rw [← h]
      rfl
  | none =>
      cases hst : BlockReader.stat s.reader with
      | none => simp [hc, hst] at h
      | some stat =>
          simp only [hc, hst, Except.ok.injEq] at h
          rw [← h]
          rfl

theorem withoutEvents_splitEvent {s s' : Decoder ρ} (h : s.splitEvent = .ok s') :
    s'.withoutEvents = s.withoutEvents := by
  unfold splitEvent at h
  split at h
  · cases hst : s.startEvent with
    | error e => simp [hst, Except.map] at h
    | ok t =>
        simp only [hst, Except.map, Except.ok.injEq] at h
        rw [← withoutEvents_startEvent hst, ← h]
        rfl
  · rw [← Except.ok.inj h]

omit [BlockReader ρ] in
theorem withoutEvents_addHit {s s' : Decoder ρ} {hit : FrontEndHit} (h : s.addHit hit = .ok s') :
    s'.withoutEvents = s.withoutEvents := by
  unfold addHit at h
  cases hc : s.output.curOut with
  | none => simp [hc] at h
  | some d =>
      cases hd : d.addHit hit with
      | none => simp [hc, hd] at h
      | some d' =>
          simp only [hc, hd, Except.ok.injEq] at h
          rw [← h]
          rfl

omit [BlockReader ρ] in
theorem withoutEvents_touchCurEvent {s s' : Decoder ρ} {guarded : Bool}
    (h : s.touchCurEvent guarded = .ok s') : s'.withoutEvents = s.withoutEvents := by
  unfold touchCurEvent at h
  split at h
  · rw [← Except.ok.inj h]
  · cases hc : s.output.curOut with
    | none => simp [hc] at h
    | some d =>
        simp only [hc] at h
        split at h
        · cases h
        · rw [← Except.ok.inj h]

theorem foldlM_keeps {σ α β : Type} {view : σ → β} {body : σ → α → Except Fault σ}
    (hbody : ∀ s a s', body s a = .ok s' → view s' = view s) (as : List α) {s s' : σ}
    (h : as.foldlM body s = .ok s') : view s' = view s := by
  induction as generalizing s with
  | nil => rw [← Except.ok.inj h]
  | cons a as ih =>
      rw [List.foldlM_cons] at h
      cases hb : body s a with
      | error e => simp [hb, bind, Except.bind] at h
      | ok t =>
          simp only [hb, bind, Except.bind] at h
          rw [ih h, hbody s a t hb]

theorem withoutEvents_addPixelHits {s s' : Decoder ρ} (h : s.addPixelHits = .ok s') :
    s'.withoutEvents = s.withoutEvents := by
  refine foldlM_keeps (fun s hit s' hb => ?_) s.pixelHits h
  cases hsp : s.splitEvent with
  | error e => simp [hsp, Except.bind] at hb
  | ok t =>
      simp only [hsp, Except.bind] at hb
      rw [withoutEvents_addHit hb, withoutEvents_splitEvent hsp]

omit [BlockReader ρ] in
theorem withoutEvents_findMaskLoop (s : Decoder ρ) : s.findMaskLoop.withoutEvents = s.withoutEvents := by
  unfold findMaskLoop
  split
  · cases s.output.curOut with
    | none => rfl
    | some d =>
        dsimp only
        split <;> rfl
  · rfl

theorem withoutEvents_addPToTBus {p p' : Decoder ρ × Nat} {ibus : Nat}
    (h : addPToTBus p ibus = .ok p') : p'.1.withoutEvents = p.1.withoutEvents := by
  unfold addPToTBus at h
  dsimp only at h
  split at h
  · rw [← Except.ok.inj h]
  · cases hsp : p.1.splitEvent with
    | error e => simp [hsp, Except.bind] at h
    | ok t =>
        simp only [hsp, Except.bind] at h
        cases ha : t.findMaskLoop.addHit (t.findMaskLoop.ptotHit
            (ptotWord p.1.ToT (TreeCode.plainHMapToColRowArrSize p.1.hitmap)
              (p.1.hitmap >>> (ibus <<< 2) &&& 15) p.2).1 ibus) with
        | error e => simp [ha, Except.map] at h
        | ok u =>
            simp only [ha, Except.map, Except.ok.injEq] at h
            rw [← h, withoutEvents_addHit ha, withoutEvents_findMaskLoop, withoutEvents_splitEvent hsp]

theorem withoutEvents_addPToTHits {s s' : Decoder ρ} (h : s.addPToTHits = .ok s') :
    s'.withoutEvents = s.withoutEvents := by
  unfold addPToTHits at h
  cases hf : (List.range 4).foldlM addPToTBus (s, 0) with
  | error e => simp [hf, Except.map] at h
  | ok p =>
      simp only [hf, Except.map, Except.ok.injEq] at h
      have hkeeps : p.1.withoutEvents = s.withoutEvents :=
        foldlM_keeps (fun p ibus p' hb => withoutEvents_addPToTBus hb) (List.range 4) hf
      rw [← h, hkeeps]

end Yarr.Pixel.Decoder

/-!
## Fillers and blocks of other chips

Two sessions of a decoder that push the same data, one of them with filler
blocks and blocks of other chips put in at will, end alike: same outcome, and
every member of the processor but its place in the raw data is equal. Both
readers have the same view, and the view decides everything.
-/

namespace Yarr.Pixel

open Run

/-- What may be put in: fillers, and with chip IDs enabled the blocks of another chip. -/
def Foreign (cfg : DecoderConfig) (b : Block) : Prop :=
  b.isFiller = true ∨ (cfg.enChipId = true ∧ b.chipIdBits ≠ cfg.chipId)

/-- The second list is the first one with blocks put in at any of its boundaries. -/
inductive Inserted (P : Block → Prop) : List Block → List Block → Prop where
  | nil : Inserted P [] []
  | keep (b : Block) {bs bs' : List Block} : Inserted P bs bs' → Inserted P (b :: bs) (b :: bs')
  | insert (b : Block) {bs bs' : List Block} : P b → Inserted P bs bs' → Inserted P bs (b :: bs')

/-- A container with foreign blocks put in, inside its buffers or as further buffers. -/
structure Padded (cfg : DecoderConfig) (c c' : RawDataContainer) : Prop where
  stat : c'.stat = c.stat
  size : c'.size = 0 ↔ c.size = 0
  blocks : Inserted (Foreign cfg) c.blocks c'.blocks

/-- The same calls at the same places, and pushes of padded containers. -/
inductive PaddedOp (cfg : DecoderConfig) : Op RawDataContainer → Op RawDataContainer → Prop where
  | push {c c' : RawDataContainer} : Padded cfg c c' → PaddedOp cfg (.push c) (.push c')
  | call : PaddedOp cfg .call .call

theorem Foreign.skips {cfg : DecoderConfig} {b : Block} (h : Foreign cfg b) :
    cfg.skips b = true := by
  rcases h with hfill | ⟨hen, hid⟩
  · simp [DecoderConfig.skips, hfill]
  · simp [DecoderConfig.skips, hen, hid]

theorem Inserted.filter {cfg : DecoderConfig} {bs bs' : List Block}
    (h : Inserted (Foreign cfg) bs bs') :
    (bs'.filter fun b => !cfg.skips b) = bs.filter fun b => !cfg.skips b := by
  induction h with
  | nil => rfl
  | keep b _ ih => simp only [List.filter_cons, ih]
  | insert b hb _ ih => simp [hb.skips, ih]

theorem Padded.parcel {cfg : DecoderConfig} {c c' : RawDataContainer} (h : Padded cfg c c') :
    Parcel.ofContainer cfg c' = Parcel.ofContainer cfg c := by
  have hsize := h.size
  by_cases hz : c.size = 0
  · simp [Parcel.ofContainer, h.stat, hz, hsize.mpr hz]
  · have hz' : ¬ c'.size = 0 := fun h0 => hz (hsize.mp h0)
    simp [Parcel.ofContainer, h.stat, hz, hz', h.blocks.filter]

theorem PaddedOp.parcels {cfg : DecoderConfig} {ops ops' : List (Op RawDataContainer)}
    (h : List.Forall₂ (PaddedOp cfg) ops ops') :
    ops'.map (Op.map (Parcel.ofContainer cfg)) = ops.map (Op.map (Parcel.ofContainer cfg)) := by
  induction h with
  | nil => rfl
  | cons hop _ ih =>
      cases hop with
      | push hc => simp only [List.map_cons, Op.map, ih, hc.parcel]
      | call => simp only [List.map_cons, Op.map, ih]

namespace Decoder

/-- A container arrives at the input clipboard. -/
def push {cfg : DecoderConfig} (s : Decoder (StreamReader cfg)) (c : RawDataContainer) :
    Decoder (StreamReader cfg) :=
  { s with reader := s.reader.push c }

def pushParcel (s : Decoder Cursor) (p : Parcel) : Decoder Cursor :=
  { s with reader := { s.reader with input := s.reader.input ++ [p] } }

theorem push_view {cfg : DecoderConfig} (s : Decoder (StreamReader cfg)) (c : RawDataContainer) :
    pushParcel (s.mapReader StreamReader.view) (Parcel.ofContainer cfg c) =
      (s.push c).mapReader StreamReader.view := by
  simp [pushParcel, push, mapReader, StreamReader.push, StreamReader.view, RawReader.view,
    RawReader.consumed]

/-- All members of a processor but its place in the raw data. -/
def withoutReader {ρ : Type} (s : Decoder ρ) : Decoder Unit := s.mapReader fun _ => ()

end Decoder

open Decoder

theorem Itkpixv2DataProcessor.session_view {cfg : DecoderConfig} (fuel : Nat)
    (ops : List (Op RawDataContainer)) (s : Decoder (StreamReader cfg)) :
    session (Itkpixv2DataProcessor.processCore cfg) pushParcel fuel
        (ops.map (Op.map (Parcel.ofContainer cfg))) (s.mapReader StreamReader.view) =
      (session (Itkpixv2DataProcessor.processCore cfg) Decoder.push fuel ops s).map
        (mapReader StreamReader.view) :=
  session_map (Itkpixv2DataProcessor.enter_mapReader StreamReader.view_hom cfg)
    (Itkpixv2DataProcessor.step_mapReader StreamReader.view_hom cfg) push_view fuel ops s

theorem Rd53bDataProcessor.session_view {cfg : DecoderConfig} (fuel : Nat)
    (ops : List (Op RawDataContainer)) (s : Decoder (StreamReader cfg)) :
    session (Rd53bDataProcessor.processCore cfg) pushParcel fuel
        (ops.map (Op.map (Parcel.ofContainer cfg))) (s.mapReader StreamReader.view) =
      (session (Rd53bDataProcessor.processCore cfg) Decoder.push fuel ops s).map
        (mapReader StreamReader.view) :=
  session_map (Rd53bDataProcessor.enter_mapReader StreamReader.view_hom cfg)
    (Rd53bDataProcessor.step_mapReader StreamReader.view_hom cfg) push_view fuel ops s

/-- Every session over raw containers is, through the view, a session over their own blocks. -/
theorem sessions_refine (cfg : DecoderConfig) (fuel : Nat) (ops : List (Op RawDataContainer))
    (s : Decoder (StreamReader cfg)) :
    session (Itkpixv2DataProcessor.processCore cfg) pushParcel fuel
          (ops.map (Op.map (Parcel.ofContainer cfg))) (s.mapReader StreamReader.view) =
        (session (Itkpixv2DataProcessor.processCore cfg) Decoder.push fuel ops s).map
          (mapReader StreamReader.view) ∧
      session (Rd53bDataProcessor.processCore cfg) pushParcel fuel
          (ops.map (Op.map (Parcel.ofContainer cfg))) (s.mapReader StreamReader.view) =
        (session (Rd53bDataProcessor.processCore cfg) Decoder.push fuel ops s).map
          (mapReader StreamReader.view) :=
  ⟨Itkpixv2DataProcessor.session_view fuel ops s, Rd53bDataProcessor.session_view fuel ops s⟩

theorem withoutReader_of_view {cfg : DecoderConfig}
    {o₁ o₂ : Outcome Fault (Decoder (StreamReader cfg))}
    (h : o₁.map (mapReader StreamReader.view) = o₂.map (mapReader StreamReader.view)) :
    o₁.map withoutReader = o₂.map withoutReader := by
  have hforget : ∀ o : Outcome Fault (Decoder (StreamReader cfg)),
      o.map withoutReader = (o.map (mapReader StreamReader.view)).map withoutReader := by
    intro o
    cases o <;> rfl
  rw [hforget o₁, h, ← hforget o₂]

/-- Fillers and blocks of other chips change nothing that either decoder does, in any
session: neither the outcome of a call nor any event, hit, feedback or counter. -/
theorem session_padded (cfg : DecoderConfig) (statusFb : Option (List FeedbackProcessingInfo))
    (fuel : Nat) {ops ops' : List (Op RawDataContainer)}
    (h : List.Forall₂ (PaddedOp cfg) ops ops') :
    let s := Decoder.initial (StreamReader.initial cfg) statusFb
    (session (Itkpixv2DataProcessor.processCore cfg) Decoder.push fuel ops' s).map withoutReader =
        (session (Itkpixv2DataProcessor.processCore cfg) Decoder.push fuel ops s).map
          withoutReader ∧
      (session (Rd53bDataProcessor.processCore cfg) Decoder.push fuel ops' s).map withoutReader =
        (session (Rd53bDataProcessor.processCore cfg) Decoder.push fuel ops s).map
          withoutReader := by
  intro s
  have hops := PaddedOp.parcels h
  constructor
  · apply withoutReader_of_view
    rw [← Itkpixv2DataProcessor.session_view, ← Itkpixv2DataProcessor.session_view, hops]
  · apply withoutReader_of_view
    rw [← Rd53bDataProcessor.session_view, ← Rd53bDataProcessor.session_view, hops]

/-- A header block of chip 1 between a filler and a block of chip 2. -/
theorem session_padded_header :
    let cfg := DecoderConfig.init 0 0 1 1 0 0
    let stat : LoopStatus := ⟨[], [], false, rfl⟩
    let own := Block.ofWords 0xA0E00000 0
    let filler := Block.ofWords 0xFFFFDEAD 0xFFFFDEAD
    let other := Block.ofWords 0xC0E00000 0
    let ops : List (Op RawDataContainer) := [.push ⟨[⟨[own], List.cons_ne_nil _ _⟩], stat⟩, .call]
    let ops' : List (Op RawDataContainer) :=
      [.push ⟨[⟨[filler, own], List.cons_ne_nil _ _⟩, ⟨[other], List.cons_ne_nil _ _⟩], stat⟩, .call]
    let s := Decoder.initial (StreamReader.initial cfg) (some [])
    (session (Itkpixv2DataProcessor.processCore cfg) Decoder.push 9 ops' s).map withoutReader =
        (session (Itkpixv2DataProcessor.processCore cfg) Decoder.push 9 ops s).map withoutReader ∧
      (session (Rd53bDataProcessor.processCore cfg) Decoder.push 9 ops' s).map withoutReader =
        (session (Rd53bDataProcessor.processCore cfg) Decoder.push 9 ops s).map withoutReader := by
  intro cfg stat own filler other ops ops' s
  have hother : Foreign cfg other := Or.inr ⟨rfl, by decide⟩
  have hblocks : Inserted (Foreign cfg) [own] [filler, own, other] :=
    .insert filler (Or.inl rfl) (.keep own (.insert other hother .nil))
  have hpush : PaddedOp cfg (.push ⟨[⟨[own], List.cons_ne_nil _ _⟩], stat⟩)
      (.push ⟨[⟨[filler, own], List.cons_ne_nil _ _⟩, ⟨[other], List.cons_ne_nil _ _⟩], stat⟩) :=
    .push ⟨rfl, by simp [RawDataContainer.size], hblocks⟩
  exact session_padded cfg (some []) 9 (.cons hpush (.cons .call .nil))

end Yarr.Pixel
