import Yarr.Core.Watch
import Yarr.Pixel.BitReader
import Yarr.Pixel.Transparency

/-!
# The positions of a run

In front of every step of a call the decoder has a block and stands behind its
head. Inside of a quarter core it stands at the end of a block only where the
reading method lets a field end there.
-/

namespace Yarr.Pixel

open Run

namespace Decoder

variable {ρ : Type} [BlockReader ρ] [Viewed ρ]

/-- The labels of a quarter core behind its first field. -/
def InQuarterCore (s : Decoder ρ) : Prop :=
  s.status = .qrow ∨ s.status = .hmap1 ∨ s.status = .hmap2 ∨ s.status = .tot

/-- In front of a step. -/
structure Stepping (cfg : DecoderConfig) (bound : Nat) (s : Decoder ρ) : Prop where
  standing : s.Standing cfg
  low : s.InQuarterCore → s.bitIdx ≤ bound

/-- Between two calls. -/
structure Waiting (cfg : DecoderConfig) (bound : Nat) (s : Decoder ρ) : Prop where
  placed : (Viewed.view s.reader).Placed
  stepping : s.status ≠ .init → s.Stepping cfg bound

/-- What the outcome of a label keeps. -/
def KeepsPosition (cfg : DecoderConfig) (bound : Nat) : Outcome Fault (Decoder ρ) → Prop
  | .cont s => s.Stepping cfg bound
  | .ret s => s.Waiting cfg bound
  | .fault _ => True

variable {cfg : DecoderConfig} {bound : Nat} {s t : Decoder ρ}

theorem Standing.of_same (h : s.Standing cfg) (hr : t.reader = s.reader)
    (hb : t.bitIdx = s.bitIdx) : t.Standing cfg := by
  refine ⟨?_, ?_, ?_, ?_⟩
  · rw [hr]
    exact h.placed
  · rw [hr]
    exact h.data
  · rw [hb]
    exact h.behind
  · rw [hb]
    exact h.inside

theorem Standing.of_withoutEvents (h : s.Standing cfg) (ht : t.withoutEvents = s.withoutEvents) :
    t.Standing cfg := by
  have hr : t.withoutEvents.reader = s.withoutEvents.reader := by rw [ht]
  have hb : t.withoutEvents.bitIdx = s.withoutEvents.bitIdx := by rw [ht]
  exact h.of_same hr hb

omit [BlockReader ρ] [Viewed ρ] in
theorem not_inQuarterCore (h : s.status = .ilin ∨ s.status = .ccol ∨ s.status = .ccc ∨
    s.status = .bcidl1 ∨ s.status = .init) : ¬ s.InQuarterCore := by
  unfold InQuarterCore
  rcases h with h | h | h | h | h <;> simp [h]

theorem Standing.stepping (h : s.Standing cfg)
    (hst : s.status = .ilin ∨ s.status = .ccol ∨ s.status = .ccc ∨ s.status = .bcidl1 ∨
      s.status = .init) : s.Stepping cfg bound :=
  ⟨h, fun hin => absurd hin (not_inQuarterCore hst)⟩

/-- What a label must know of the reading it starts with. -/
structure ReadKeeps (cfg : DecoderConfig) (bound : Nat) (s : Decoder ρ)
    (found : Except Fault (Retrieved ρ)) (after : Decoder ρ → Prop) : Prop where
  standing : ∀ r, found = .ok r → r.state.Standing cfg
  after : ∀ r, found = .ok r → r.ok = true → after r.state
  held : ∀ r, found = .ok r → r.ok = false →
    r.state.bitIdx = s.bitIdx ∧ (r.state.status = s.status ∨ r.state.status = .init)

theorem keeps_withField {found : Except Fault (Retrieved ρ)} {after : Decoder ρ → Prop}
    {store : Nat → Decoder ρ → Decoder ρ} {next : Nat → Decoder ρ → Outcome Fault (Decoder ρ)}
    (hs : s.Stepping cfg bound) (hread : ReadKeeps cfg bound s found after)
    (hstore : ∀ v t, (store v t).reader = t.reader ∧ (store v t).bitIdx = t.bitIdx ∧
      (store v t).status = t.status)
    (hnext : ∀ v t, t.Standing cfg → after t → KeepsPosition cfg bound (next v (store v t))) :
    KeepsPosition cfg bound (withField found store next) := by
  unfold withField
  cases hf : found with
  | error e => trivial
  | ok r =>
      have hstanding := hread.standing r hf
      have hstored := hstanding.of_same (hstore r.value r.state).1 (hstore r.value r.state).2.1
      dsimp only
      cases hok : r.ok with
      | true =>
          rw [if_pos rfl]
          exact hnext _ _ hstanding (hread.after r hf hok)
      | false =>
          rcases hread.held r hf hok with ⟨hbit, hstatus⟩
          rw [if_neg (by simp)]
          refine ⟨hstored.placed, fun hinit => ⟨hstored, fun hin => ?_⟩⟩
          rw [(hstore _ _).2.1, hbit]
          rw [(hstore _ _).2.2] at hinit
          have hsame := hstatus.resolve_right hinit
          apply hs.low
          unfold InQuarterCore at hin ⊢
          rwa [(hstore _ _).2.2, hsame] at hin

/-! ## Labels that both decoders share -/

/-- Where a method lets its readings land. -/
def RetrieveLands (cfg : DecoderConfig) (bound : Nat) (retrieve : Retrieve ρ) : Prop :=
  ∀ value length checkEOS skipNSCheck s r, s.Standing cfg → (skipNSCheck = true → length ≤ 16) →
    retrieve value length checkEOS skipNSCheck s = .ok r → Lands cfg bound length checkEOS s r

theorem RetrieveLands.short {retrieve : Retrieve ρ} (hl : RetrieveLands cfg bound retrieve)
    (hs : s.Standing cfg) {length : Nat} (hpos : length ≠ 0) (hle : length ≤ 16)
    (value : Nat) (skipNSCheck : Bool) :
    ReadKeeps cfg bound s (retrieve value length false skipNSCheck s) fun t => t.bitIdx ≤ bound where
  standing r hr := (hl _ _ _ _ _ r hs (fun _ => hle) hr).standing
  after r hr hok := (hl _ _ _ _ _ r hs (fun _ => hle) hr).low hok rfl hpos hle
  held r hr := (hl _ _ _ _ _ r hs (fun _ => hle) hr).held

theorem RetrieveLands.any {retrieve : Retrieve ρ} (hl : RetrieveLands cfg bound retrieve)
    (hs : s.Standing cfg) (value length : Nat) (checkEOS : Bool) :
    ReadKeeps cfg bound s (retrieve value length checkEOS false s) fun _ => True where
  standing r hr := (hl _ _ _ _ _ r hs (fun h => Bool.noConfusion h) hr).standing
  after _ _ _ := trivial
  held r hr := (hl _ _ _ _ _ r hs (fun h => Bool.noConfusion h) hr).held

theorem rollBack_lands (hbound : 63 ≤ bound) {length : Nat} (hle : length ≤ 16)
    (hs : s.Standing cfg) (hlow : s.bitIdx ≤ bound) :
    (s.rollBack cfg length).Standing cfg ∧ (s.rollBack cfg length).bitIdx ≤ bound := by
  have hbehind := hs.behind
  have hinside := hs.inside
  have hcfg := cfg.chipIdShift_le
  unfold rollBack
  split
  · exact ⟨hs, hlow⟩
  · split
    · refine ⟨⟨hs.placed, hs.data, ?_, ?_⟩, ?_⟩ <;> dsimp only <;> omega
    · refine ⟨⟨placed_previousBlock hs.placed, data_previousBlock _, ?_, ?_⟩, ?_⟩ <;>
        (show _ ≤ _; simp only [previousBlock]; omega)

theorem keeps_header (h : s.Standing cfg) (hr : t.reader = s.reader) (hb : t.bitIdx = s.bitIdx)
    {next : Status}
    (hst : next = .ilin ∨ next = .ccol ∨ next = .ccc ∨ next = .bcidl1 ∨ next = .init) :
    KeepsPosition cfg bound (t.header next) := by
  unfold header
  cases hev : t.startEvent with
  | error f => trivial
  | ok u =>
      have hu := (h.of_same hr hb).of_withoutEvents (withoutEvents_startEvent hev)
      exact Standing.stepping (s := { u.sendFeedback with status := next }) (hu.of_same rfl rfl) hst

theorem keeps_endQuarterCore (h : s.Standing cfg) (guarded : Bool)
    {add : Decoder ρ → Except Fault (Decoder ρ)}
    (hadd : ∀ t t', add t = .ok t' → t'.withoutEvents = t.withoutEvents) :
    KeepsPosition cfg bound (endQuarterCore ((s.touchCurEvent guarded).bind add)) := by
  cases htouch : s.touchCurEvent guarded with
  | error f => trivial
  | ok t =>
      cases ha : add t with
      | error f =>
          simp only [Except.bind, ha, endQuarterCore]
          trivial
      | ok u =>
          have hu := (h.of_withoutEvents (withoutEvents_touchCurEvent htouch)).of_withoutEvents
            (hadd t u ha)
          simp only [Except.bind, ha, endQuarterCore]
          refine Standing.stepping (hu.of_same rfl rfl) ?_
          dsimp only
          split
          · exact Or.inl rfl
          · exact Or.inr (Or.inl rfl)

section Common

variable {retrieve : Retrieve ρ} (hl : RetrieveLands cfg bound retrieve)

include hl

theorem keeps_ilin (hs : s.Stepping cfg bound) : KeepsPosition cfg bound (ilin retrieve s) :=
  keeps_withField hs (hl.short hs.standing (by decide) (by decide) _ _) (fun _ _ => ⟨rfl, rfl, rfl⟩)
    fun _ _ ht hlow => ⟨ht.of_same rfl rfl, fun _ => hlow⟩

theorem keeps_qrow (hs : s.Stepping cfg bound) (hst : s.status = .qrow) :
    KeepsPosition cfg bound (qrowLabel retrieve s) := by
  unfold qrowLabel
  split
  · exact ⟨hs.standing.of_same rfl rfl, fun _ => hs.low (Or.inl hst)⟩
  · exact keeps_withField hs (hl.short hs.standing (by decide) (by decide) _ _)
      (fun _ _ => ⟨rfl, rfl, rfl⟩) fun _ _ ht hlow => ⟨ht.of_same rfl rfl, fun _ => hlow⟩

theorem keeps_hmap1 (hs : s.Stepping cfg bound) : KeepsPosition cfg bound (hmap1 retrieve s) :=
  keeps_withField hs (hl.short hs.standing (by decide) (by decide) _ _) (fun _ _ => ⟨rfl, rfl, rfl⟩)
    fun _ _ ht hlow => ⟨ht.of_same rfl rfl, fun _ => hlow⟩

theorem keeps_hmap2 (hbound : 63 ≤ bound) (hs : s.Stepping cfg bound) (hst : s.status = .hmap2) :
    KeepsPosition cfg bound (hmap2 cfg retrieve s) := by
  have hlow := hs.low (Or.inr (Or.inr (Or.inl hst)))
  have hback : ∀ (length : Nat) (t : Decoder ρ), length ≤ 16 → t.Standing cfg → t.bitIdx ≤ bound →
      KeepsPosition cfg bound (.cont { t.rollBack cfg length with status := .tot }) := by
    intro length t hle ht htlow
    have hrolled := rollBack_lands hbound hle ht htlow
    exact ⟨hrolled.1.of_same rfl rfl, fun _ => hrolled.2⟩
  unfold hmap2
  split
  · let entry := TreeCode.lutBinaryTreeHitMap (s.hitmap % 2 ^ 16)
    let s₁ : Decoder ρ := { s with hitmap := entry.map }
    have hs₁ : s₁.Standing cfg := hs.standing.of_same rfl rfl
    have hentry := TreeCode.lutBinaryTreeHitMap_rollBack (s.hitmap % 2 ^ 16)
    change KeepsPosition cfg bound (if entry.rollBackRow > 0 then _ else
      .cont { s₁.rollBack cfg entry.rollBack with status := .tot })
    split
    · let s₂ := if entry.rollBackRow ≠ 0xff then s₁.rollBack cfg entry.rollBackRow else s₁
      have hs₂ : s₂.Standing cfg ∧ s₂.bitIdx ≤ bound ∧ s₂.status = .hmap2 := by
        change (if entry.rollBackRow ≠ 0xff then _ else s₁ : Decoder ρ).Standing cfg ∧
          (if entry.rollBackRow ≠ 0xff then _ else s₁ : Decoder ρ).bitIdx ≤ bound ∧
          (if entry.rollBackRow ≠ 0xff then _ else s₁ : Decoder ρ).status = .hmap2
        split
        · rename_i hmark
          have hle : entry.rollBackRow ≤ 16 := hentry.1.resolve_right hmark
          have hrolled := rollBack_lands hbound hle hs₁ hlow
          refine ⟨hrolled.1, hrolled.2, ?_⟩
          unfold rollBack
          split
          · exact hst
          · split
            · exact hst
            · exact hst
        · exact ⟨hs₁, hlow, hst⟩
      have hstep : s₂.Stepping cfg bound := ⟨hs₂.1, fun _ => hs₂.2.1⟩
      exact keeps_withField hstep (hl.short hs₂.1 (by decide) (by decide) _ _)
        (fun _ _ => ⟨rfl, rfl, rfl⟩)
        fun v t ht htlow => hback _ { t with hitmap := _ }
          (Nat.le_trans (TreeCode.lutBinaryTreeRowHMap_rollBack v) (by decide))
          (ht.of_same rfl rfl) htlow
    · exact hback _ s₁ hentry.2 hs₁ hlow
  · exact ⟨hs.standing.of_same rfl rfl, fun _ => hlow⟩

theorem keeps_tot (guarded : Bool) (hs : s.Stepping cfg bound) :
    KeepsPosition cfg bound (totLabel cfg retrieve guarded s) := by
  have hread : ∀ add : Decoder ρ → Except Fault (Decoder ρ),
      (∀ t t', add t = .ok t' → t'.withoutEvents = t.withoutEvents) →
      KeepsPosition cfg bound (withField
        (retrieve s.ToT (TreeCode.plainHMapToColRowArrSize s.hitmap <<< 2) false false s)
        (fun v s => { s with ToT := v })
        fun _ s => endQuarterCore ((s.touchCurEvent guarded).bind add)) :=
    fun add hadd => keeps_withField hs (hl.any hs.standing _ _ _) (fun _ _ => ⟨rfl, rfl, rfl⟩)
      fun v t ht _ => keeps_endQuarterCore (s := { t with ToT := v }) (ht.of_same rfl rfl)
        guarded hadd
  unfold totLabel
  dsimp only
  split
  · exact hread addPToTHits fun _ _ => withoutEvents_addPToTHits
  · split
    · exact keeps_endQuarterCore hs.standing guarded fun _ _ => withoutEvents_addPixelHits
    · exact hread addPixelHits fun _ _ => withoutEvents_addPixelHits

end Common

/-! ## Runs -/

/-- What a decoder keeps, step by step. -/
structure PositionLaw (cfg : DecoderConfig) (bound : Nat)
    (m : Coroutine Fault (Decoder ρ)) : Prop where
  enter : ∀ s, s.Waiting cfg bound → KeepsPosition cfg bound (m.enter s)
  step : ∀ s, s.Stepping cfg bound → KeepsPosition cfg bound (m.step s)

theorem placed_push {s : Decoder (StreamReader cfg)} (h : (Viewed.view s.reader).Placed)
    (c : RawDataContainer) : (Viewed.view (s.push c).reader).Placed := by
  have hview : Viewed.view (s.push c).reader =
      { Viewed.view s.reader with
        input := (Viewed.view s.reader).input ++ [Parcel.ofContainer cfg c] } := by
    change (s.reader.push c).view = _
    simp [StreamReader.push, StreamReader.view, RawReader.view, RawReader.consumed, Viewed.view]
  rw [hview]
  exact ⟨h.head, h.spent⟩

theorem Stepping.push {s : Decoder (StreamReader cfg)} (h : s.Stepping cfg bound)
    (c : RawDataContainer) : (s.push c).Stepping cfg bound :=
  ⟨⟨placed_push h.standing.placed c, h.standing.data, h.standing.behind, h.standing.inside⟩, h.low⟩

/-- A freshly initialised processor. -/
def fresh (cfg : DecoderConfig) (statusFb : Option (List FeedbackProcessingInfo)) :
    Caller (Decoder (StreamReader cfg)) :=
  ⟨false, Decoder.initial (StreamReader.initial cfg) statusFb⟩

/-- A state of a decoder in front of a step of a call, in some run. -/
def ReachedInside (m : Coroutine Fault (Decoder (StreamReader cfg)))
    (s : Decoder (StreamReader cfg)) : Prop :=
  ∃ statusFb, Reaches m Decoder.push (fresh cfg statusFb) ⟨true, s⟩

theorem PositionLaw.reached {m : Coroutine Fault (Decoder (StreamReader cfg))}
    (hm : PositionLaw cfg bound m) {s : Decoder (StreamReader cfg)} (h : ReachedInside m s) :
    s.Stepping cfg bound := by
  rcases h with ⟨statusFb, hreach⟩
  have hall : ∀ c : Caller (Decoder (StreamReader cfg)), Reaches m Decoder.push (fresh cfg statusFb) c →
      if c.inside then c.state.Stepping cfg bound else c.state.Waiting cfg bound := by
    intro c hc
    induction hc with
    | refl =>
        refine ⟨⟨?_, ?_⟩, fun hne => absurd rfl hne⟩
        · intro b bs hb
          simp [fresh, Decoder.initial, Viewed.view, StreamReader.view, StreamReader.initial,
            RawReader.view] at hb
        · intro _
          simp [fresh, Decoder.initial, Viewed.view, StreamReader.view, StreamReader.initial,
            RawReader.view]
    | tail _ hlast ih =>
        cases hlast with
        | push b s c =>
            cases b with
            | true => exact Stepping.push ih c
            | false =>
                exact ⟨placed_push ih.placed c, fun hne => (ih.stepping hne).push c⟩
        | enterCont s s' he =>
            have hkeeps := hm.enter s ih
            rw [he] at hkeeps
            exact hkeeps
        | enterRet s s' he =>
            have hkeeps := hm.enter s ih
            rw [he] at hkeeps
            exact hkeeps
        | stepCont s s' hs =>
            have hkeeps := hm.step s ih
            rw [hs] at hkeeps
            exact hkeeps
        | stepRet s s' hs =>
            have hkeeps := hm.step s ih
            rw [hs] at hkeeps
            exact hkeeps
  exact hall _ hreach

theorem standing_found {k : Nat} (hplaced : (Viewed.view s.reader).Placed)
    (hdata : (BlockReader.data s.nextBlock.2.reader).isSome = true)
    (hlo : 1 + cfg.chipIdShift ≤ k) (hhi : k ≤ 64) :
    ({ s.nextBlock.2 with bitIdx := k } : Decoder ρ).Standing cfg :=
  ⟨placed_nextBlock hplaced, hdata, hlo, hhi⟩

end Decoder

namespace Itkpixv2DataProcessor

open Decoder

variable {ρ : Type} [BlockReader ρ] [Viewed ρ] {cfg : DecoderConfig} {s : Decoder ρ}

theorem lands (cfg : DecoderConfig) : RetrieveLands (ρ := ρ) cfg 64 (retrieve cfg) :=
  fun _ _ _ _ _ _ hs _ h => retrieve_lands hs h

theorem keeps_bcidl1 (hs : s.Stepping cfg 64) : KeepsPosition cfg 64 (bcidl1 cfg s) := by
  unfold bcidl1
  split
  · refine keeps_withField hs ((lands cfg).any hs.standing _ _ _) (fun _ _ => ⟨rfl, rfl, rfl⟩) ?_
    intro v t ht _
    split
    · exact keeps_header ht (by rfl) (by rfl) (Or.inr (Or.inl rfl))
    · split
      · exact keeps_header ht (by rfl) (by rfl) (Or.inr (Or.inl rfl))
      · exact keeps_header ht (by rfl) (by rfl) (Or.inr (Or.inl rfl))
  · exact keeps_header hs.standing (by rfl) (by rfl) (Or.inr (Or.inl rfl))

theorem keeps_ccol (hs : s.Stepping cfg 64) : KeepsPosition cfg 64 (ccolLabel cfg s) :=
  keeps_withField hs ((lands cfg).any hs.standing _ _ _) (fun _ _ => ⟨rfl, rfl, rfl⟩)
    fun _ _ ht _ => Standing.stepping (ht.of_same rfl rfl) (Or.inr (Or.inr (Or.inl rfl)))

omit [BlockReader ρ] [Viewed ρ] in
theorem countTagError_place (s : Decoder ρ) : (countTagError s).reader = s.reader ∧
    (countTagError s).bitIdx = s.bitIdx ∧ (countTagError s).status = s.status := by
  unfold countTagError
  split
  · split <;> exact ⟨rfl, rfl, rfl⟩
  · exact ⟨rfl, rfl, rfl⟩

theorem keeps_endOfStream (hs : s.Stepping cfg 64) (hst : s.status = .ccc) :
    KeepsPosition cfg 64 (endOfStream cfg s) := by
  have hcfg := cfg.chipIdShift_le
  unfold endOfStream
  rcases Option.isSome_iff_exists.mp hs.standing.data with ⟨d, hd⟩
  rw [hd]
  dsimp only
  have hsame : (countCorrupt d s).reader = s.reader ∧ (countCorrupt d s).bitIdx = s.bitIdx ∧
      (countCorrupt d s).status = s.status := by
    unfold countCorrupt
    split <;> exact ⟨rfl, rfl, rfl⟩
  have hcount : (countCorrupt d s).Standing cfg := hs.standing.of_same hsame.1 hsame.2.1
  split
  · cases hb : BlockReader.data (countCorrupt d s).nextBlock.2.reader with
    | none => trivial
    | some b =>
        dsimp only
        have hread : (readTag cfg b (countCorrupt d s).nextBlock.2).Standing cfg :=
          (standing_found (k := 9 + cfg.chipIdShift) hcount.placed (by rw [hb]; rfl) (by omega)
            (by omega)).of_same rfl rfl
        have htag := countTagError_place (readTag cfg b (countCorrupt d s).nextBlock.2)
        have hstand : (countTagError (readTag cfg b (countCorrupt d s).nextBlock.2)).Standing cfg :=
          hread.of_same htag.1 htag.2.1
        exact Standing.stepping (hstand.of_same rfl rfl) (Or.inr (Or.inr (Or.inr (Or.inl rfl))))
  · have hback := standing_back hcount
    refine ⟨hback.placed, fun _ => hback.stepping (Or.inr (Or.inr (Or.inl ?_)))⟩
    exact hsame.2.2.trans hst

theorem keeps_ccc (hs : s.Stepping cfg 64) (hst : s.status = .ccc) :
    KeepsPosition cfg 64 (ccc cfg s) := by
  unfold ccc
  split
  · exact keeps_endOfStream hs hst
  · split
    · exact keeps_withField hs ((lands cfg).any hs.standing _ _ _) (fun _ _ => ⟨rfl, rfl, rfl⟩)
        fun _ _ ht _ => Standing.stepping (ht.of_same rfl rfl) (Or.inr (Or.inr (Or.inr (Or.inl rfl))))
    · exact Standing.stepping (hs.standing.of_same rfl rfl) (Or.inl rfl)

theorem positionLaw (cfg : DecoderConfig) : PositionLaw (ρ := ρ) cfg 64 (processCore cfg) where
  enter s hw := by
    have hcfg := cfg.chipIdShift_le
    change KeepsPosition cfg 64 (enter cfg s)
    unfold enter
    split
    · exact hw
    · split
      · rename_i hinit
        dsimp only
        split
        · cases hb : BlockReader.data s.nextBlock.2.reader with
          | none => trivial
          | some b =>
              have hread : (readTag cfg b s.nextBlock.2).Standing cfg :=
                (standing_found (k := 9 + cfg.chipIdShift) hw.placed (by rw [hb]; rfl) (by omega)
                  (by omega)).of_same rfl rfl
              exact hread.stepping (Or.inr (Or.inr (Or.inr (Or.inr hinit))))
        · exact ⟨placed_nextBlock hw.placed, fun hne => absurd hinit hne⟩
      · rename_i hne
        exact hw.stepping hne
  step s hs := by
    change KeepsPosition cfg 64 (step cfg s)
    unfold step
    cases hst : s.status with
    | init =>
        exact keeps_bcidl1 (Standing.stepping (hs.standing.of_same rfl rfl)
          (Or.inr (Or.inr (Or.inr (Or.inl rfl)))))
    | bcidl1 => exact keeps_bcidl1 hs
    | ccol => exact keeps_ccol hs
    | ccc => exact keeps_ccc hs hst
    | ilin => exact keeps_ilin (lands cfg) hs
    | qrow => exact keeps_qrow (lands cfg) hs hst
    | hmap1 => exact keeps_hmap1 (lands cfg) hs
    | hmap2 => exact keeps_hmap2 (lands cfg) (by decide) hs hst
    | tot => exact keeps_tot (lands cfg) true hs

end Itkpixv2DataProcessor

namespace Rd53bDataProcessor

open Decoder

variable {ρ : Type} [BlockReader ρ] [Viewed ρ] {cfg : DecoderConfig} {s : Decoder ρ}

/-- The fields that may overdraw their stream are too short to leave the next block. -/
theorem lands (cfg : DecoderConfig) : RetrieveLands (ρ := ρ) cfg 63 (retrieve cfg) := by
  intro value length checkEOS skipNSCheck s r hs hshort h
  refine retrieve_lands hs (fun b _ _ _ hskip => ?_) h
  have hle := hshort hskip
  have hcfg := cfg.chipIdShift_le
  have hinside := hs.inside
  omega

theorem keeps_ccol (hs : s.Stepping cfg 63) : KeepsPosition cfg 63 (ccolLabel cfg s) :=
  keeps_withField hs ((lands cfg).any hs.standing _ _ _) (fun _ _ => ⟨rfl, rfl, rfl⟩)
    fun _ _ ht _ => Standing.stepping (ht.of_same rfl rfl) (Or.inr (Or.inr (Or.inl rfl)))

theorem keeps_newStream (d : Block) (hplaced : (Viewed.view s.reader).Placed)
    (hdata : (BlockReader.data s.nextBlock.2.reader).isSome = true) :
    KeepsPosition cfg 63 (newStream cfg d s.nextBlock.2) := by
  have hcfg := cfg.chipIdShift_le
  have hread := @standing_found _ _ _ cfg s (9 + cfg.chipIdShift) hplaced hdata (by omega) (by omega)
  exact keeps_header hread (by rfl) (by rfl) (Or.inr (Or.inl rfl))

theorem keeps_endOfStream (hs : s.Stepping cfg 63) (hst : s.status = .ccc) :
    KeepsPosition cfg 63 (endOfStream cfg s) := by
  unfold endOfStream
  dsimp only
  split
  · cases hb : BlockReader.data s.nextBlock.2.reader with
    | none => trivial
    | some b =>
        have hdata : (BlockReader.data s.nextBlock.2.reader).isSome = true := by
          rw [hb]
          rfl
        dsimp only
        split
        · exact keeps_newStream b hs.standing.placed hdata
        · refine Standing.stepping ?_ (Or.inr (Or.inr (Or.inl hst)))
          exact (standing_found hs.standing.placed hdata hs.standing.behind
            hs.standing.inside).of_same rfl rfl
  · rename_i hdry
    have hdata : (BlockReader.data s.nextBlock.2.reader).isSome = true := by
      rcases Option.isSome_iff_exists.mp hs.standing.data with ⟨d, hd⟩
      rcases (Cursor.getNextDataBlock_upcoming (Viewed.view s.reader) s.output) with
        ⟨hfound, -, -, hnone⟩
      have hfirst : s.nextBlock.1 = ((Viewed.view s.reader).getNextDataBlock s.output).1 :=
        (congrArg Prod.fst (Viewed.hom.next (f := Viewed.view) s.reader s.output)).symm
      have hno : (Viewed.view s.reader).next? = none := by
        rw [← Option.not_isSome_iff_eq_none, ← hfound, ← hfirst]
        exact hdry
      rw [← data_view, view_nextBlock, (hnone hno).1, data_view]
      exact hs.standing.data
    have hstand : s.nextBlock.2.Standing cfg :=
      ⟨placed_nextBlock hs.standing.placed, hdata, hs.standing.behind, hs.standing.inside⟩
    exact ⟨hstand.placed, fun _ => hstand.stepping (Or.inr (Or.inr (Or.inl hst)))⟩

theorem keeps_ccc (hs : s.Stepping cfg 63) (hst : s.status = .ccc) :
    KeepsPosition cfg 63 (ccc cfg s) := by
  unfold ccc
  split
  · exact keeps_endOfStream hs hst
  · split
    · exact keeps_withField hs ((lands cfg).any hs.standing _ _ _) (fun _ _ => ⟨rfl, rfl, rfl⟩)
        fun _ _ ht _ => keeps_header ht (by rfl) (by rfl) (Or.inr (Or.inl rfl))
    · exact Standing.stepping (hs.standing.of_same rfl rfl) (Or.inl rfl)

theorem positionLaw (cfg : DecoderConfig) : PositionLaw (ρ := ρ) cfg 63 (processCore cfg) where
  enter s hw := by
    change KeepsPosition cfg 63 (enter cfg s)
    unfold enter
    split
    · exact hw
    · split
      · rename_i hinit
        dsimp only
        split
        · cases hb : BlockReader.data s.nextBlock.2.reader with
          | none => trivial
          | some b =>
              dsimp only
              split
              · exact keeps_newStream b hw.placed (by rw [hb]; rfl)
              · exact ⟨placed_nextBlock hw.placed, fun hne => absurd hinit hne⟩
        · exact ⟨placed_nextBlock hw.placed, fun hne => absurd hinit hne⟩
      · rename_i hne
        exact hw.stepping hne
  step s hs := by
    have hfirst : KeepsPosition cfg 63 (ccolLabel cfg { s with status := .ccol }) :=
      keeps_ccol (Standing.stepping (hs.standing.of_same rfl rfl) (Or.inr (Or.inl rfl)))
    change KeepsPosition cfg 63 (step cfg s)
    unfold step
    cases hst : s.status with
    | init => exact hfirst
    | bcidl1 => exact hfirst
    | ccol => exact keeps_ccol hs
    | ccc => exact keeps_ccc hs hst
    | ilin => exact keeps_ilin (lands cfg) hs
    | qrow => exact keeps_qrow (lands cfg) hs hst
    | hmap1 => exact keeps_hmap1 (lands cfg) hs
    | hmap2 => exact keeps_hmap2 (lands cfg) (by decide) hs hst
    | tot => exact keeps_tot (lands cfg) false hs

end Rd53bDataProcessor

end Yarr.Pixel
