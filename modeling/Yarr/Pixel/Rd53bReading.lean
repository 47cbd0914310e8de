import Yarr.Pixel.BitPositionRuns

/-!
# Reading bits with chip IDs

Each block then holds 61 payload bits. A reading that ends in the first word of
the next block is right. One that goes on into the second word puts the first
word four places too low, and for some lengths shifts by a negative amount; so
it is right only where the first word is empty. Readings at the end of a stream
follow other rules, as they should.
-/

namespace Yarr.Pixel

open Bits Run Decoder

/-- What a decoder makes of a payload: where it stands in a run, when readings do what they
should, and what those bits are together. -/
structure PayloadLaw (cfg : DecoderConfig) (m : Coroutine Fault (Decoder (StreamReader cfg)))
    (retrieve : Retrieve (StreamReader cfg))
    (clear : Request → Decoder (StreamReader cfg) → Prop) : Prop where
  standing : ∀ s, ReachedInside m s → s.Standing cfg
  reads_iff : ∀ s, s.Standing cfg → ∀ qs, ReadsOff cfg retrieve qs s ↔ AllClear retrieve clear qs s
  joined : ∀ s, s.Standing cfg → ∀ qs, AllClear retrieve clear qs s →
    ∃ bits t, readAll retrieve qs s = .ok (bits, t) ∧ bits ++ t.bitsAhead cfg = s.bitsAhead cfg

theorem payloadLaw_of {cfg : DecoderConfig} {bound : Nat}
    {m : Coroutine Fault (Decoder (StreamReader cfg))} {retrieve : Retrieve (StreamReader cfg)}
    {clear : Request → Decoder (StreamReader cfg) → Prop} (hm : PositionLaw cfg bound m)
    (hlaw : ∀ s q, s.Standing cfg →
      (ReadsPayload cfg q.length s (q.ask retrieve s) ↔ clear q s))
    (hstanding : ∀ s q r, s.Standing cfg → clear q s → q.ask retrieve s = .ok r →
      r.state.Standing cfg) : PayloadLaw cfg m retrieve clear where
  standing _ h := (hm.reached h).standing
  reads_iff _ hs qs := readsOff_iff hlaw hstanding qs hs
  joined _ hs qs h := ((readsOff_iff hlaw hstanding qs hs).mpr h).joined

theorem Rd53bDataProcessor.Clear.room {ρ : Type} [BlockReader ρ] [Viewed ρ] {cfg : DecoderConfig}
    {q : Request} {s : Decoder ρ} (h : Clear cfg q s) (hs : s.Standing cfg) {b : Block}
    (hb : s.nextBlock? = some b) (htop : b.topBit = true) (heos : q.checkEOS = false)
    (hskip : q.skipNSCheck = true) : s.bitIdx + q.length + cfg.chipIdShift ≤ 127 := by
  have hcfg := cfg.chipIdShift_le
  have hinside := hs.inside
  rcases h with hzero | hfit | ⟨-, hall⟩
  · omega
  · omega
  · have hagrees := hall b hb
    unfold Agrees at hagrees
    rw [htop, heos] at hagrees
    exact (hagrees (Or.inl hskip)).1

/-- With chip IDs, every reading of a sequence does what it should exactly if each of them is
clear in front of it. -/
theorem chipId_payloadLaw (cfg : DecoderConfig) (hid : cfg.enChipId = true) :
    PayloadLaw cfg (Itkpixv2DataProcessor.processCore cfg) (Itkpixv2DataProcessor.retrieve cfg)
        (Itkpixv2DataProcessor.Clear cfg) ∧
      PayloadLaw cfg (Rd53bDataProcessor.processCore cfg) (Rd53bDataProcessor.retrieve cfg)
        (Rd53bDataProcessor.Clear cfg) := by
  constructor
  · exact payloadLaw_of (Itkpixv2DataProcessor.positionLaw cfg)
      (fun _ q hs => Itkpixv2DataProcessor.retrieve_reads_iff hs q)
      fun _ _ _ hs _ hr => (Itkpixv2DataProcessor.retrieve_lands hs hr).standing
  · refine payloadLaw_of (Rd53bDataProcessor.positionLaw cfg)
      (fun _ q hs => Rd53bDataProcessor.retrieve_reads_iff hid hs q) ?_
    intro s q r hs hclear hr
    exact (Rd53bDataProcessor.retrieve_lands hs
      (fun b hb htop heos hskip => hclear.room hs hb htop heos hskip) hr).standing

theorem payloadLaw_raw_hitmaps :
    let cfg := DecoderConfig.init 1 0 1 1 0 0
    PayloadLaw cfg (Itkpixv2DataProcessor.processCore cfg) (Itkpixv2DataProcessor.retrieve cfg)
        (Itkpixv2DataProcessor.Clear cfg) ∧
      PayloadLaw cfg (Rd53bDataProcessor.processCore cfg) (Rd53bDataProcessor.retrieve cfg)
        (Rd53bDataProcessor.Clear cfg) :=
  chipId_payloadLaw (DecoderConfig.init 1 0 1 1 0 0) rfl

/-! ## A full quarter core -/

/-- The state some steps into a call. -/
def stepsInto {σ : Type} (m : Coroutine Fault σ) (fuel : Nat) (s : σ) : Option σ :=
  match m.enter s with
  | .cont t =>
      match run m.step fuel t with
      | .cont u => some u
      | _ => none
  | _ => none

theorem reaches_of_steps {σ ι : Type} {m : Coroutine Fault σ} {push : σ → ι → σ} {fuel : Nat}
    {s t : σ} (h : run m.step fuel s = .cont t) : Reaches m push ⟨true, s⟩ ⟨true, t⟩ := by
  induction fuel generalizing s with
  | zero =>
      rw [run_zero] at h
      cases h
      exact .refl
  | succ fuel ih =>
      rw [run_succ] at h
      cases ho : m.step s with
      | cont s₁ =>
          rw [ho] at h
          exact .head (.stepCont s s₁ ho) (ih h)
      | ret s₁ =>
          rw [ho] at h
          cases h
      | fault e =>
          rw [ho] at h
          cases h

theorem reachedInside_of_steps {cfg : DecoderConfig}
    {m : Coroutine Fault (Decoder (StreamReader cfg))} {fuel : Nat} {c : RawDataContainer}
    {s : Decoder (StreamReader cfg)}
    (h : stepsInto m fuel ((Decoder.initial (StreamReader.initial cfg) none).push c) = some s) :
    ReachedInside m s := by
  unfold stepsInto at h
  refine ⟨none, .head (.push false _ c) ?_⟩
  cases he : m.enter ((Decoder.initial (StreamReader.initial cfg) none).push c) with
  | cont t =>
      rw [he] at h
      dsimp only at h
      cases hr : run m.step fuel t with
      | cont u =>
          rw [hr] at h
          cases h
          exact .head (.enterCont _ _ he) (reaches_of_steps hr)
      | ret u =>
          rw [hr] at h
          cases h
      | fault e =>
          rw [hr] at h
          cases h
  | ret t =>
      rw [he] at h
      cases h
  | fault e =>
      rw [he] at h
      cases h

/-- Whether a reading gives other bits than those in front of it. -/
def misreads (cfg : DecoderConfig) (retrieve : Retrieve (StreamReader cfg)) (q : Request)
    (s : Decoder (StreamReader cfg)) : Bool :=
  match q.ask retrieve s with
  | .error _ => true
  | .ok r => r.ok && bitsOf q.length r.value ++ r.state.bitsAhead cfg != s.bitsAhead cfg

theorem not_reads_of_misreads {cfg : DecoderConfig} {retrieve : Retrieve (StreamReader cfg)}
    {q : Request} {s : Decoder (StreamReader cfg)} (h : misreads cfg retrieve q s = true) :
    ¬ ReadsPayload cfg q.length s (q.ask retrieve s) := by
  unfold misreads at h
  cases hr : q.ask retrieve s with
  | error f => exact fun hreads => hreads
  | ok r =>
      rw [hr] at h
      dsimp only at h
      rcases Bool.and_eq_true_iff.mp h with ⟨hok, hne⟩
      unfold ReadsPayload
      dsimp only
      rw [if_pos hok]
      exact fun hreads => (bne_iff_ne.mp hne) hreads.2

def twoBlocks (word0 word1 word2 word3 : Nat) : RawDataContainer :=
  ⟨[⟨[Block.ofWords word0 word1, Block.ofWords word2 word3], List.cons_ne_nil _ _⟩],
    ⟨[], [], false, LoopStatus.same_size_nil⟩⟩

/-- The ToT of a full quarter core is 64 bits long. Here it starts 21 bits before the end of
its block, and the bits of the next block are all ones. -/
theorem full_quarter_core_misread :
    let cfg := DecoderConfig.init 1 0 1 1 0 0
    let q : Request := ⟨0, 64, false, false⟩
    (∃ s : Decoder (StreamReader cfg), ReachedInside (Itkpixv2DataProcessor.processCore cfg) s ∧
        s.status = .tot ∧
        ¬ ReadsPayload cfg q.length s (q.ask (Itkpixv2DataProcessor.retrieve cfg) s)) ∧
      ∃ s : Decoder (StreamReader cfg), ReachedInside (Rd53bDataProcessor.processCore cfg) s ∧
        s.status = .tot ∧
        ¬ ReadsPayload cfg q.length s (q.ask (Rd53bDataProcessor.retrieve cfg) s) := by
  intro cfg q
  constructor
  · have htest : (stepsInto (Itkpixv2DataProcessor.processCore cfg) 7
        ((Decoder.initial (StreamReader.initial cfg) none).push
          (twoBlocks 0x2000c01f 0xffe00000 0xbfffffff 0xffffffff))).any
        (fun s => s.status == .tot && misreads cfg (Itkpixv2DataProcessor.retrieve cfg) q s) =
          true := by
      decide +kernel
    rcases (Option.any_eq_true _ _).mp htest with ⟨s, hs, hboth⟩
    rcases Bool.and_eq_true_iff.mp hboth with ⟨hst, hmis⟩
    exact ⟨s, reachedInside_of_steps hs, eq_of_beq hst, not_reads_of_misreads hmis⟩
  · have htest : (stepsInto (Rd53bDataProcessor.processCore cfg) 6
        ((Decoder.initial (StreamReader.initial cfg) none).push
          (twoBlocks 0xa000c01f 0xffe00000 0x3fffffff 0xffffffff))).any
        (fun s => s.status == .tot && misreads cfg (Rd53bDataProcessor.retrieve cfg) q s) =
          true := by
      decide +kernel
    rcases (Option.any_eq_true _ _).mp htest with ⟨s, hs, hboth⟩
    rcases Bool.and_eq_true_iff.mp hboth with ⟨hst, hmis⟩
    exact ⟨s, reachedInside_of_steps hs, eq_of_beq hst, not_reads_of_misreads hmis⟩

end Yarr.Pixel

/-!
## Reading bits of RD53B without chip IDs

Each block holds 63 payload bits, and the pieces of a field are always stitched
as they should. What a reading up to or over the end of its block does depends
on the block behind: if that starts a new stream, a reading that looks for the
end finds it, an announced overdraft is filled up with zero bits, and any other
reading gives the stream up. `rollBack` undoes a reading, or the last part of it.
-/

namespace Yarr.Pixel.Rd53bDataProcessor

open Bits Run Decoder

variable {ρ : Type} [BlockReader ρ] [Viewed ρ]

/-- The reading looks for the end of a stream right at the start of a new one. -/
def AtHead (q : Request) (s : Decoder ρ) : Prop :=
  q.checkEOS = true ∧ s.bitIdx = 1 ∧
    ∃ d, BlockReader.data s.reader = some d ∧ d.topBit = true

/-- Giving back `m` bits leads to where a reading without them would have led. At the end of a
block that is the first bit of the next one. -/
def RollsBack (cfg : DecoderConfig) (q : Request) (s t : Decoder ρ) : Prop :=
  ∀ m ≤ q.length, ∃ r, ({ q with length := q.length - m } : Request).ask (retrieve cfg) s = .ok r ∧
    r.ok = true ∧ (t.rollBack cfg m).bitsAhead cfg = r.state.bitsAhead cfg ∧
    (s.bitIdx < 64 → (t.rollBack cfg m).position = r.state.position)

/-- What a reading does, by what lies ahead. -/
inductive Reading (cfg : DecoderConfig) (q : Request) (s : Decoder ρ) (r : Retrieved ρ) : Prop where
  | payload : ¬ AtHead q s →
      (s.bitIdx + q.length < 64 ∨ ∃ b, s.nextBlock? = some b ∧
        (b.topBit = false ∨ (q.checkEOS = false ∧ s.bitIdx + q.length = 64))) →
      r.ok = true → r.value < 2 ^ q.length →
      bitsOf q.length r.value ++ r.state.bitsAhead cfg = s.bitsAhead cfg →
      RollsBack cfg q s r.state → Reading cfg q s r
  | head : AtHead q s → r.ok = true → r.value = 0 →
      r.state = { s.previousBlock with bitIdx := 64 } → Reading cfg q s r
  | streamEnd (b : Block) : 64 ≤ s.bitIdx + q.length → s.nextBlock? = some b → b.topBit = true →
      q.checkEOS = true → r.ok = true → r.value = 0 →
      r.state.position = { s.position with bitIdx := 64 } → Reading cfg q s r
  | overdraft (b : Block) : 64 < s.bitIdx + q.length → s.nextBlock? = some b → b.topBit = true →
      q.checkEOS = false → q.skipNSCheck = true → r.ok = true → r.value < 2 ^ q.length →
      bitsOf q.length r.value = (s.bitsAhead cfg).take (64 - s.bitIdx) ++
        List.replicate (s.bitIdx + q.length - 64) false →
      r.state.bitsAhead cfg = (s.bitsAhead cfg).drop q.length →
      RollsBack cfg q s r.state → Reading cfg q s r
  | unfinished (b : Block) : 64 < s.bitIdx + q.length → s.nextBlock? = some b → b.topBit = true →
      q.checkEOS = false → q.skipNSCheck = false → r.ok = false → r.state.status = .init →
      r.state.position = s.position → Reading cfg q s r
  | noBlock : 64 ≤ s.bitIdx + q.length → s.nextBlock? = none → r.ok = false →
      r.state.position = s.position → Reading cfg q s r

section Ask

variable {cfg : DecoderConfig} {q : Request} {s : Decoder ρ} {d b : Block} {us : List Block}

omit [Viewed ρ] in
theorem ask_nothing (h : q.length = 0) :
    q.ask (retrieve cfg) s = .ok { ok := true, value := q.value, state := s } := by
  unfold Request.ask retrieve
  rw [if_pos h]

omit [Viewed ρ] in
theorem head_iff (hd : BlockReader.data s.reader = some d) :
    (q.checkEOS && d.topBit && s.bitIdx == 1) = true ↔ AtHead q s := by
  unfold AtHead
  simp only [hd, Option.some.injEq, Bool.and_eq_true, beq_iff_eq, exists_eq_left']
  constructor
  · exact fun h => ⟨h.1.1, h.2, h.1.2⟩
  · exact fun h => ⟨⟨h.1, h.2.2⟩, h.2.1⟩

omit [Viewed ρ] in
theorem ask_head (hpos : q.length ≠ 0) (h : AtHead q s) :
    q.ask (retrieve cfg) s =
      .ok { ok := true, value := 0, state := { s.previousBlock with bitIdx := 64 } } := by
  rcases h.2.2 with ⟨d, hd, -⟩
  unfold Request.ask retrieve
  rw [if_neg hpos, hd]
  dsimp only
  rw [if_pos ((head_iff hd).mpr h)]

omit [Viewed ρ] in
theorem ask_field (hpos : q.length ≠ 0) (hhead : ¬ AtHead q s)
    (hd : BlockReader.data s.reader = some d) (hfit : s.bitIdx + q.length < 64) :
    q.ask (retrieve cfg) s = .ok { ok := true, value := d.field s.bitIdx q.length,
                                   state := { s with bitIdx := s.bitIdx + q.length } } := by
  unfold Request.ask retrieve
  rw [if_neg hpos, hd]
  dsimp only
  rw [if_neg ((head_iff hd).not.mpr hhead), if_pos hfit]

omit [Viewed ρ] in
theorem ask_readOn (hpos : q.length ≠ 0) (hhead : ¬ AtHead q s)
    (hd : BlockReader.data s.reader = some d) (hend : 64 ≤ s.bitIdx + q.length)
    (hhi : s.bitIdx + q.length < 128) :
    q.ask (retrieve cfg) s = readOn cfg (d.rest s.bitIdx <<< (q.length + s.bitIdx - 64)) q.length
      q.checkEOS q.skipNSCheck s := by
  unfold Request.ask retrieve
  rw [if_neg hpos, hd]
  dsimp only
  rw [if_neg ((head_iff hd).not.mpr hhead), if_neg (by omega), if_neg (by omega)]

end Ask

/-- A reading up to or over the end of its block that has found the next one. -/
structure Crossing (cfg : DecoderConfig) (q : Request) (s : Decoder ρ) (d b : Block)
    (us : List Block) : Prop where
  standing : s.Standing cfg
  shift : cfg.chipIdShift = 0
  pos : q.length ≠ 0
  noHead : ¬ AtHead q s
  data : BlockReader.data s.reader = some d
  ends : 64 ≤ s.bitIdx + q.length
  room : s.bitIdx + q.length < 128
  next : s.nextBlock? = some b
  found : s.nextBlock.1 = true
  here : s.position = ⟨some d, s.bitIdx, b :: us⟩
  there : s.nextBlock.2.position = ⟨some b, s.bitIdx, us⟩
  back : s.nextBlock.2.previousBlock.position = s.position

namespace Crossing

variable {cfg : DecoderConfig} {q : Request} {s : Decoder ρ} {d b : Block} {us : List Block}
  (h : Crossing cfg q s d b us)

/-- Where a reading that goes on into the next block ends. -/
def landed (s : Decoder ρ) (end_ : Nat) : Decoder ρ := { s.nextBlock.2 with bitIdx := end_ - 63 }

/-- The bits that such a reading takes from the next block. -/
def taken (cfg : DecoderConfig) (b : Block) (end_ : Nat) : Nat :=
  if b.topBit then 0 else b.firstBits cfg end_

include h

theorem nextData : BlockReader.data s.nextBlock.2.reader = some b := congrArg Position.data h.there

theorem ask_passes (hpass : b.topBit = false ∨
      (q.checkEOS = false ∧ (q.skipNSCheck = true ∨ s.bitIdx + q.length = 64))) :
    q.ask (retrieve cfg) s = .ok
      { ok := true
        value := d.rest s.bitIdx <<< (q.length + s.bitIdx - 64) |||
          taken cfg b (s.bitIdx + q.length)
        state := landed s (s.bitIdx + q.length) } := by
  have hbit : s.nextBlock.2.bitIdx = s.bitIdx := rfl
  rw [ask_readOn h.pos h.noHead h.data h.ends h.room]
  unfold readOn taken landed
  simp only [h.found, if_true, h.nextData, hbit, h.shift, Nat.add_zero]
  cases htop : b.topBit with
  | false =>
      have hover : b.overflow cfg s.bitIdx q.length = .ok (b.firstBits cfg (s.bitIdx + q.length)) :=
        (Block.overflow_stitched (Or.inr (Or.inl ⟨h.shift, Nat.le_of_lt_succ h.room⟩)) h.ends).2
      simp [hover, Except.map]
  | true =>
      rcases hpass with hno | ⟨heos, hskip⟩
      · rw [htop] at hno
        cases hno
      · have hbool : (q.skipNSCheck || s.bitIdx + q.length == 64) = true := by
          simpa using hskip
        simp [heos, hbool]

theorem shorter {m : Nat} (hm : m < q.length) (hend : 64 ≤ s.bitIdx + (q.length - m)) :
    Crossing cfg { q with length := q.length - m } s d b us where
  standing := h.standing
  shift := h.shift
  pos := by
    change q.length - m ≠ 0
    omega
  noHead := h.noHead
  data := h.data
  ends := hend
  room := by
    have hroom := h.room
    change s.bitIdx + (q.length - m) < 128
    omega
  next := h.next
  found := h.found
  here := h.here
  there := h.there
  back := h.back

theorem landed_position (end_ : Nat) : (landed s end_).position = ⟨some b, end_ - 63, us⟩ := by
  have hup : (Viewed.view s.nextBlock.2.reader).upcoming = us := congrArg Position.upcoming h.there
  exact congrArg₂ (fun data up => Position.mk data (end_ - 63) up) h.nextData hup

theorem rollBack_inside {end_ m : Nat} (hm : m ≠ 0) (hin : 64 + m ≤ end_) :
    ((landed s end_).rollBack cfg m).position = ⟨some b, end_ - m - 63, us⟩ := by
  unfold rollBack
  rw [if_neg hm, h.shift, if_pos (by change end_ - 63 ≥ m + 1 + 0; omega)]
  have hland := h.landed_position (end_ - m)
  have hplace : (landed s end_).bitIdx - m = end_ - m - 63 := by
    change end_ - 63 - m = _
    omega
  rw [hplace]
  exact hland

theorem rollBack_before {end_ m : Nat} (hlo : 64 ≤ end_) (hout : end_ < 64 + m) :
    ((landed s end_).rollBack cfg m).position = ⟨some d, end_ - m, b :: us⟩ := by
  have hback := h.back.trans h.here
  have hdata := congrArg Position.data hback
  have hup := congrArg Position.upcoming hback
  unfold rollBack
  rw [if_neg (by omega), h.shift, if_neg (by change ¬ end_ - 63 ≥ m + 1 + 0; omega)]
  have hplace : (landed s end_).bitIdx + 63 - m - 0 = end_ - m := by
    change end_ - 63 + 63 - m - 0 = _
    omega
  rw [hplace]
  exact congrArg₂ (fun data up => Position.mk data (end_ - m) up) hdata hup

/-- Giving back the bits of a reading that went on into the next block. -/
theorem rollsBack (hpass : b.topBit = false ∨
      (q.checkEOS = false ∧ (q.skipNSCheck = true ∨ s.bitIdx + q.length = 64))) :
    RollsBack cfg q s (landed s (s.bitIdx + q.length)) := by
  have hends := h.ends
  have hinside := h.standing.inside
  have hbehind := h.standing.behind
  have hshift := h.shift
  intro m hm
  by_cases hall : m = q.length
  · -- nothing is left of the reading
    refine ⟨_, ask_nothing (by change q.length - m = 0; omega), rfl, ?_⟩
    change ((landed s (s.bitIdx + q.length)).rollBack cfg m).bitsAhead cfg = s.bitsAhead cfg ∧ _
    have hpos := h.pos
    by_cases hlast : s.bitIdx < 64
    · have hback := h.rollBack_before (m := m) hends (by omega)
      have hplace : s.bitIdx + q.length - m = s.bitIdx := by omega
      rw [hplace, ← h.here] at hback
      exact ⟨congrArg (Position.bitsAhead cfg) hback, fun _ => hback⟩
    · have hbit : s.bitIdx = 64 := by omega
      have hback := h.rollBack_inside (show m ≠ 0 by omega)
        (show 64 + m ≤ s.bitIdx + q.length by omega)
      have hplace : s.bitIdx + q.length - m - 63 = 1 := by omega
      refine ⟨?_, fun hlt => absurd hlt hlast⟩
      rw [bitsAhead, hback, hplace, bitsAhead, h.here, hbit,
        Position.bitsAhead_eq (by omega) (by decide), Position.bitsAhead_eq (by omega) (by decide),
        List.flatMap_cons]
      simp [Block.payload, hshift]
  · by_cases hend : 64 ≤ s.bitIdx + (q.length - m)
    · -- the rest of the reading crosses as well
      have hless := h.shorter (m := m) (by omega) hend
      have hpass' : b.topBit = false ∨ (q.checkEOS = false ∧
          (q.skipNSCheck = true ∨ s.bitIdx + (q.length - m) = 64)) := by
        refine hpass.imp id fun hp => ⟨hp.1, hp.2.imp id fun heq => ?_⟩
        omega
      refine ⟨_, hless.ask_passes hpass', rfl, ?_⟩
      have hland := hless.landed_position (s.bitIdx + (q.length - m))
      have hback : ((landed s (s.bitIdx + q.length)).rollBack cfg m).position =
          ⟨some b, s.bitIdx + (q.length - m) - 63, us⟩ := by
        by_cases hzero : m = 0
        · rw [hzero, rollBack, if_pos rfl]
          exact h.landed_position _
        · rw [h.rollBack_inside hzero (by omega)]
          congr 1
          omega
      have hsame := hback.trans hland.symm
      exact ⟨congrArg (Position.bitsAhead cfg) hsame, fun _ => hsame⟩
    · -- the rest of the reading stays in its block
      have hfit : s.bitIdx + (q.length - m) < 64 := by omega
      have hpos' : q.length - m ≠ 0 := by omega
      refine ⟨_, ask_field hpos' h.noHead h.data hfit, rfl, ?_⟩
      have hback := h.rollBack_before (m := m) hends (by omega)
      have hplace : s.bitIdx + q.length - m = s.bitIdx + (q.length - m) := by omega
      have hup : (Viewed.view s.reader).upcoming = b :: us := congrArg Position.upcoming h.here
      have hsame : ((landed s (s.bitIdx + q.length)).rollBack cfg m).position =
          ({ s with bitIdx := s.bitIdx + (q.length - m) } : Decoder ρ).position := by
        rw [hback, hplace]
        exact (congrArg₂ (fun data up => Position.mk data _ up) h.data hup).symm
      exact ⟨congrArg (Position.bitsAhead cfg) hsame, fun _ => hsame⟩

end Crossing

theorem bitsOf_zeros (k : Nat) : bitsOf k 0 = List.replicate k false := by
  induction k with
  | zero => rfl
  | succ k ih => simp [bitsOf, ih, List.replicate_succ]

section Reading

variable {cfg : DecoderConfig} {q : Request} {s : Decoder ρ} {d b : Block} {us : List Block}

theorem rollsBack_field (hs : s.Standing cfg) (hzero : cfg.chipIdShift = 0) (hhead : ¬ AtHead q s)
    (hd : BlockReader.data s.reader = some d) (hfit : s.bitIdx + q.length < 64) :
    RollsBack cfg q s { s with bitIdx := s.bitIdx + q.length } := by
  have hbehind := hs.behind
  intro m hm
  have hback : ({ s with bitIdx := s.bitIdx + q.length } : Decoder ρ).rollBack cfg m =
      { s with bitIdx := s.bitIdx + (q.length - m) } := by
    unfold rollBack
    by_cases hnone : m = 0
    · rw [if_pos hnone, hnone]
      rfl
    · rw [if_neg hnone, hzero, if_pos (by dsimp only; omega)]
      have hplace : s.bitIdx + q.length - m = s.bitIdx + (q.length - m) := by omega
      dsimp only
      rw [hplace]
  rw [hback]
  by_cases hall : q.length - m = 0
  · refine ⟨_, ask_nothing hall, rfl, ?_⟩
    have hsame : ({ s with bitIdx := s.bitIdx + (q.length - m) } : Decoder ρ) = s := by
      rw [hall]
      rfl
    rw [hsame]
    exact ⟨rfl, fun _ => rfl⟩
  · refine ⟨_, ask_field hall hhead hd ?_, rfl, rfl, fun _ => rfl⟩
    change s.bitIdx + (q.length - m) < 64
    omega

/-- The bits of a reading that the next block takes up. -/
theorem reading_passes (h : Crossing cfg q s d b us) (hpass : b.topBit = false ∨
      (q.checkEOS = false ∧ (q.skipNSCheck = true ∨ s.bitIdx + q.length = 64))) :
    ∃ r, q.ask (retrieve cfg) s = .ok r ∧ Reading cfg q s r := by
  have hends := h.ends
  have hroom := h.room
  have hinside := h.standing.inside
  have hshift := h.shift
  have hask := h.ask_passes hpass
  have hless : s.bitIdx + q.length + cfg.chipIdShift ≤ 127 := by omega
  have hfirst := b.firstBits_lt hless hends
  refine ⟨_, hask, ?_⟩
  have hright : (d.rest s.bitIdx <<< (q.length + s.bitIdx - 64) |||
          b.firstBits cfg (s.bitIdx + q.length)) < 2 ^ q.length ∧
      bitsOf q.length (d.rest s.bitIdx <<< (q.length + s.bitIdx - 64) |||
          b.firstBits cfg (s.bitIdx + q.length)) ++
        (Crossing.landed s (s.bitIdx + q.length)).bitsAhead cfg = s.bitsAhead cfg := by
    have hreads := (reads_across_iff h.standing h.here h.there hends hless hfirst).mpr rfl
    rw [hshift, Nat.add_zero] at hreads
    exact ⟨hreads.1 h.pos, hreads.2⟩
  by_cases hover : b.topBit = true ∧ 64 < s.bitIdx + q.length
  · -- an announced overdraft into a new stream
    rcases hover with ⟨htop, hgt⟩
    have hflags : q.checkEOS = false ∧ q.skipNSCheck = true := by
      rcases hpass with hno | ⟨heos, hskip⟩
      · rw [htop] at hno
        cases hno
      · exact ⟨heos, hskip.resolve_right (by omega)⟩
    have htaken : Crossing.taken cfg b (s.bitIdx + q.length) = 0 := if_pos htop
    refine .overdraft b hgt h.next htop hflags.1 hflags.2 rfl ?_ ?_ ?_ (h.rollsBack hpass)
    · have hrest : d.rest s.bitIdx < 2 ^ (64 - s.bitIdx) := by
        rw [Block.rest_eq hinside]
        exact Nat.mod_lt _ (Nat.two_pow_pos _)
      have hlt := shiftLeft_or_lt hrest (Nat.two_pow_pos (q.length + s.bitIdx - 64))
      have hsize : 64 - s.bitIdx + (q.length + s.bitIdx - 64) = q.length := by omega
      rw [htaken]
      rwa [hsize] at hlt
    · have hread := bitsOf_shiftLeft_or (64 - s.bitIdx) (d.rest s.bitIdx)
        (Nat.two_pow_pos (q.length + s.bitIdx - 64))
      have hsize : 64 - s.bitIdx + (q.length + s.bitIdx - 64) = q.length := by omega
      have hcomm : q.length + s.bitIdx - 64 = s.bitIdx + q.length - 64 := by omega
      rw [hsize, Block.rest_eq hinside, bitsOf_mod _ (Nat.le_refl _), ← Block.rest_eq hinside,
        hcomm, bitsOf_zeros] at hread
      rw [htaken, bitsAhead, h.here, Position.bitsAhead_eq h.standing.behind hinside,
        List.take_append_of_le_length (by simp), List.take_of_length_le (by simp), hcomm]
      exact hread
    · rw [← hright.2, List.drop_append_of_le_length (by simp), List.drop_of_length_le (by simp),
        List.nil_append]
  · have htaken : Crossing.taken cfg b (s.bitIdx + q.length) =
        b.firstBits cfg (s.bitIdx + q.length) := by
      unfold Crossing.taken
      split
      · rename_i htop
        have hnot : ¬ 64 < s.bitIdx + q.length := fun hgt => hover ⟨htop, hgt⟩
        have hzero : s.bitIdx + q.length - 64 = 0 := by omega
        rw [hzero, Nat.pow_zero] at hfirst
        omega
      · rfl
    refine .payload h.noHead (Or.inr ⟨b, h.next, ?_⟩) rfl ?_ ?_ (h.rollsBack hpass)
    · rcases hpass with hno | ⟨heos, -⟩
      · exact Or.inl hno
      · by_cases htop : b.topBit = true
        · refine Or.inr ⟨heos, ?_⟩
          have hle : ¬ 64 < s.bitIdx + q.length := fun hgt => hover ⟨htop, hgt⟩
          omega
        · exact Or.inl (by simpa using htop)
    · dsimp only
      rw [htaken]
      exact hright.1
    · dsimp only
      rw [htaken]
      exact hright.2

theorem exists_reading (hs : s.Standing cfg) (hzero : cfg.chipIdShift = 0) (hpos : 1 ≤ q.length)
    (hroom : s.bitIdx + q.length < 128) :
    ∃ r, q.ask (retrieve cfg) s = .ok r ∧ Reading cfg q s r := by
  have hne : q.length ≠ 0 := by omega
  rcases Option.isSome_iff_exists.mp hs.data with ⟨d, hd⟩
  by_cases hhead : AtHead q s
  · exact ⟨_, ask_head hne hhead, .head hhead rfl rfl rfl⟩
  by_cases hfit : s.bitIdx + q.length < 64
  · have hreads := reads_field hs hd hne (Nat.le_of_lt hfit)
    exact ⟨_, ask_field hne hhead hd hfit, .payload hhead (Or.inl hfit) rfl (hreads.1 hne) hreads.2
      (rollsBack_field hs hzero hhead hd hfit)⟩
  have hends : 64 ≤ s.bitIdx + q.length := by omega
  have hask : q.ask (retrieve cfg) s = _ := ask_readOn hne hhead hd hends hroom
  cases searched hs.placed hd with
  | dry hnone hfound hback =>
      refine ⟨⟨false, d.rest s.bitIdx <<< (q.length + s.bitIdx - 64),
        s.nextBlock.2.previousBlock⟩, ?_, .noBlock hends hnone rfl hback⟩
      rw [hask]
      unfold readOn
      simp only [hfound, Bool.false_eq_true, if_false]
  | found b us hnext hup hfound hthere hback =>
      have hhere : s.position = ⟨some d, s.bitIdx, b :: us⟩ := by
        rw [position_of_data hd, hup]
      have hcross : Crossing cfg q s d b us :=
        ⟨hs, hzero, hne, hhead, hd, hends, hroom, hnext, hfound, hhere, hthere, hback⟩
      by_cases hpass : b.topBit = false ∨
          (q.checkEOS = false ∧ (q.skipNSCheck = true ∨ s.bitIdx + q.length = 64))
      · exact reading_passes hcross hpass
      have htop : b.topBit = true := by
        by_contra hno
        exact hpass (Or.inl (by simpa using hno))
      have hbit : s.nextBlock.2.bitIdx = s.bitIdx := rfl
      cases heos : q.checkEOS with
      | true =>
          refine ⟨⟨true, 0, { s.nextBlock.2.previousBlock with bitIdx := 64 }⟩, ?_,
            .streamEnd b hends hnext htop heos rfl rfl ?_⟩
          · rw [hask]
            unfold readOn
            simp [hfound, hcross.nextData, htop, heos]
          · have hdata := congrArg Position.data hback
            have hahead := congrArg Position.upcoming hback
            exact congrArg₂ (fun data up => Position.mk data 64 up) hdata hahead
      | false =>
          have hflags : q.skipNSCheck = false ∧ s.bitIdx + q.length ≠ 64 := by
            constructor
            · by_contra hskip
              exact hpass (Or.inr ⟨heos, Or.inl (by simpa using hskip)⟩)
            · exact fun hend => hpass (Or.inr ⟨heos, Or.inr hend⟩)
          have hbool : (s.bitIdx + q.length == 64) = false := by
            simpa using hflags.2
          let c := s.nextBlock.2.counters
          refine ⟨⟨false, d.rest s.bitIdx <<< (q.length + s.bitIdx - 64),
            { s.nextBlock.2.previousBlock with
              status := .init
              counters :=
                { c with unfinishedStreamErrorCnt := c.unfinishedStreamErrorCnt + 1 } }⟩,
            ?_, .unfinished b (by omega) hnext htop heos hflags.1 rfl rfl hback⟩
          rw [hask]
          unfold readOn
          simp [hfound, hcross.nextData, htop, heos, hflags.1, hbool, hbit, c]

end Reading

/-! ## The decoder without chip IDs -/

/-- In every run the decoder has a block and stands behind its head, at a bit of it where it is
about to read the ToT. From any such position, a reading of up to 64 bits that does not start
with 64 bits at the end of its block does one of the things above. -/
theorem bitReader_law (cfg : DecoderConfig) (hid : cfg.enChipId = false) :
    (∀ s : Decoder (StreamReader cfg), ReachedInside (processCore cfg) s →
      s.Standing cfg ∧ (s.status = .tot → s.bitIdx < 64)) ∧
    ∀ s : Decoder (StreamReader cfg), s.Standing cfg → ∀ q : Request, 1 ≤ q.length →
      q.length ≤ 64 → (q.length = 64 → s.bitIdx < 64) →
      ∃ r, q.ask (retrieve cfg) s = .ok r ∧ Reading cfg q s r := by
  constructor
  · intro s hreach
    have hstep := (positionLaw cfg).reached hreach
    refine ⟨hstep.standing, fun htot => ?_⟩
    have hlow := hstep.low (Or.inr (Or.inr (Or.inr htot)))
    omega
  · intro s hs q hpos hle hlast
    have hzero : cfg.chipIdShift = 0 := by simp [DecoderConfig.chipIdShift, hid]
    have hinside := hs.inside
    exact exists_reading hs hzero hpos (by omega)

theorem bitReader_law_raw :
    let cfg := DecoderConfig.init 1 0 0 0 0 0
    (∀ s : Decoder (StreamReader cfg), ReachedInside (processCore cfg) s →
      s.Standing cfg ∧ (s.status = .tot → s.bitIdx < 64)) ∧
    ∀ s : Decoder (StreamReader cfg), s.Standing cfg → ∀ q : Request, 1 ≤ q.length →
      q.length ≤ 64 → (q.length = 64 → s.bitIdx < 64) →
      ∃ r, q.ask (retrieve cfg) s = .ok r ∧ Reading cfg q s r :=
  bitReader_law (DecoderConfig.init 1 0 0 0 0 0) rfl

/-- A hit map that starts six bits before the end of its stream is filled up with zero bits,
not with the bits of the next stream. -/
theorem overdrawn_hitmap :
    let cfg := DecoderConfig.init 1 0 0 0 0 0
    let q : Request := ⟨0, 16, false, true⟩
    ∃ s : Decoder (StreamReader cfg), ReachedInside (processCore cfg) s ∧ s.status = .hmap1 ∧
      ¬ ReadsPayload cfg q.length s (q.ask (retrieve cfg) s) := by
  intro cfg q
  have htest : (stepsInto (processCore cfg) 10
      ((Decoder.initial (StreamReader.initial cfg) none).push
        (twoBlocks 0x806e0dc1 0xb8018000 0xffffffff 0xffffffff))).any
      (fun s => s.status == .hmap1 && misreads cfg (retrieve cfg) q s) = true := by
    decide +kernel
  rcases (Option.any_eq_true _ _).mp htest with ⟨s, hs, hboth⟩
  rcases Bool.and_eq_true_iff.mp hboth with ⟨hst, hmis⟩
  exact ⟨s, reachedInside_of_steps hs, eq_of_beq hst, not_reads_of_misreads hmis⟩

end Yarr.Pixel.Rd53bDataProcessor
