import Yarr.Pixel.BitPosition

/-!
# Reading bits

A reading should give the payload bits in front of the position and move
behind them, or fail and move nothing. Both `retrieve` methods do so inside a
block. Over the end of a block they do exactly where the pieces are stitched
as they should and the end of the stream is not in the way.
-/

namespace Yarr.Pixel

open Bits Decoder

/-- The arguments of `retrieve`; `value` is what the variable held before. -/
structure Request where
  value : Nat
  length : Nat
  checkEOS : Bool
  skipNSCheck : Bool

def Request.ask {ρ : Type} (retrieve : Retrieve ρ) (q : Request) (s : Decoder ρ) :
    Except Fault (Retrieved ρ) :=
  retrieve q.value q.length q.checkEOS q.skipNSCheck s

section Law

variable {ρ : Type} [BlockReader ρ] [Viewed ρ]

/-- The bits in front are read, or nothing moves. -/
def ReadsPayload (cfg : DecoderConfig) (length : Nat) (s : Decoder ρ) :
    Except Fault (Retrieved ρ) → Prop
  | .error _ => False
  | .ok r =>
      if r.ok then
        (length ≠ 0 → r.value < 2 ^ length) ∧
          bitsOf length r.value ++ r.state.bitsAhead cfg = s.bitsAhead cfg
      else r.state.position = s.position

variable (cfg : DecoderConfig) (retrieve : Retrieve ρ) (clear : Request → Decoder ρ → Prop)

/-- Readings one after the other; the bits are those of the readings that succeed. -/
def readAll : List Request → Decoder ρ → Except Fault (List Bool × Decoder ρ)
  | [], s => .ok ([], s)
  | q :: qs, s =>
      match q.ask retrieve s with
      | .error f => .error f
      | .ok r => (readAll qs r.state).map fun (bits, t) =>
          ((if r.ok then bitsOf q.length r.value else []) ++ bits, t)

/-- Every one of the readings does what it should. -/
def ReadsOff : List Request → Decoder ρ → Prop
  | [], _ => True
  | q :: qs, s => ReadsPayload cfg q.length s (q.ask retrieve s) ∧
      ∀ r, q.ask retrieve s = .ok r → ReadsOff qs r.state

/-- Every one of the readings is clear in front of it. -/
def AllClear : List Request → Decoder ρ → Prop
  | [], _ => True
  | q :: qs, s => clear q s ∧ ∀ r, q.ask retrieve s = .ok r → AllClear qs r.state

variable {cfg retrieve clear}

theorem readsOff_iff
    (hlaw : ∀ s q, s.Standing cfg →
      (ReadsPayload cfg q.length s (q.ask retrieve s) ↔ clear q s))
    (hstanding : ∀ s q r, s.Standing cfg → clear q s → q.ask retrieve s = .ok r →
      r.state.Standing cfg) (qs : List Request) {s : Decoder ρ} (hs : s.Standing cfg) :
    ReadsOff cfg retrieve qs s ↔ AllClear retrieve clear qs s := by
  induction qs generalizing s with
  | nil => exact Iff.rfl
  | cons q qs ih =>
      unfold ReadsOff AllClear
      rw [hlaw s q hs]
      constructor
      · rintro ⟨hclear, hrest⟩
        exact ⟨hclear, fun r hr => (ih (hstanding s q r hs hclear hr)).mp (hrest r hr)⟩
      · rintro ⟨hclear, hrest⟩
        exact ⟨hclear, fun r hr => (ih (hstanding s q r hs hclear hr)).mpr (hrest r hr)⟩

theorem ReadsOff.joined {qs : List Request} {s : Decoder ρ} (h : ReadsOff cfg retrieve qs s) :
    ∃ bits t, readAll retrieve qs s = .ok (bits, t) ∧
      bits ++ t.bitsAhead cfg = s.bitsAhead cfg := by
  induction qs generalizing s with
  | nil => exact ⟨[], s, rfl, rfl⟩
  | cons q qs ih =>
      rcases h with ⟨hread, hrest⟩
      cases hr : q.ask retrieve s with
      | error f =>
          rw [hr] at hread
          exact hread.elim
      | ok r =>
          rcases ih (hrest r hr) with ⟨bits, t, hall, hjoin⟩
          refine ⟨(if r.ok then bitsOf q.length r.value else []) ++ bits, t, ?_, ?_⟩
          · rw [readAll, hr]
            dsimp only
            rw [hall]
            rfl
          · rw [hr] at hread
            unfold ReadsPayload at hread
            dsimp only at hread
            rw [List.append_assoc, hjoin]
            split at hread
            · rename_i hok
              rw [if_pos hok]
              exact hread.2
            · rename_i hok
              rw [if_neg hok, List.nil_append, bitsAhead, hread, bitsAhead]

end Law

/-! ## Bits ahead -/

theorem bitsOf_shiftLeft_or (a high : Nat) {b low : Nat} (h : low < 2 ^ b) :
    bitsOf (a + b) (high <<< b ||| low) = bitsOf a high ++ bitsOf b low := by
  rw [shiftLeft_or _ h, bitsOf_append _ _ _ _ h]

theorem shiftLeft_or_lt {a b high low : Nat} (hhigh : high < 2 ^ a) (hlow : low < 2 ^ b) :
    (high <<< b ||| low) < 2 ^ (a + b) := by
  have hmul : (high + 1) * 2 ^ b ≤ 2 ^ a * 2 ^ b := Nat.mul_le_mul_right _ hhigh
  rw [Nat.add_mul, Nat.one_mul] at hmul
  rw [shiftLeft_or _ hlow, Nat.pow_add]
  omega

namespace Position

variable {cfg : DecoderConfig} {d b : Block} {us : List Block} {i length : Nat}

theorem bitsAhead_eq (hlo : 1 + cfg.chipIdShift ≤ i) (hhi : i ≤ 64) :
    (Position.mk (some d) i us).bitsAhead cfg =
      bitsOf (64 - i) d.value ++ us.flatMap (Block.payload cfg) := by
  change (d.payload cfg).drop (i - 1 - cfg.chipIdShift) ++ us.flatMap (Block.payload cfg) = _
  rw [Block.drop_payload hlo hhi]

theorem bitsAhead_field (hlo : 1 + cfg.chipIdShift ≤ i) (hlen : length ≠ 0)
    (hfit : i + length ≤ 64) :
    bitsOf length (d.field i length) ++ (Position.mk (some d) (i + length) us).bitsAhead cfg =
      (Position.mk (some d) i us).bitsAhead cfg := by
  have hsplit : 64 - i = length + (64 - (i + length)) := by omega
  have hplace : 64 - i - length = 64 - (i + length) := by omega
  rw [bitsAhead_eq hlo (by omega), bitsAhead_eq (by omega) hfit, Block.field_eq hlen hfit,
    bitsOf_mod _ (Nat.le_refl length), ← List.append_assoc, hplace]
  conv_rhs => rw [hsplit]
  rw [bitsOf_add]

/-- What is read over the end of a block is right exactly if the overflowing bits are. -/
theorem bitsAhead_across (hlo : 1 + cfg.chipIdShift ≤ i) (hi : i ≤ 64)
    (hend : 64 ≤ i + length) (hhi : i + length + cfg.chipIdShift ≤ 127) {bits : Nat}
    (hbits : bits < 2 ^ (length + i - 64)) :
    (d.rest i <<< (length + i - 64) ||| bits) < 2 ^ length ∧
      (bitsOf length (d.rest i <<< (length + i - 64) ||| bits) ++
          (Position.mk (some b) (i + length + cfg.chipIdShift - 63) us).bitsAhead cfg =
        (Position.mk (some d) i (b :: us)).bitsAhead cfg ↔ bits = b.firstBits cfg (i + length)) := by
  have hfirst : b.firstBits cfg (i + length) < 2 ^ (length + i - 64) := by
    rw [Nat.add_comm length]
    exact b.firstBits_lt hhi hend
  have hsize : length = (64 - i) + (length + i - 64) := by omega
  have hrest : d.rest i < 2 ^ (64 - i) := by
    rw [Block.rest_eq hi]
    exact Nat.mod_lt _ (Nat.two_pow_pos _)
  have hboth : bitsOf length (d.rest i <<< (length + i - 64) ||| bits) =
      bitsOf (64 - i) d.value ++ bitsOf (length + i - 64) bits := by
    have hread := bitsOf_shiftLeft_or (64 - i) (d.rest i) hbits
    rwa [← hsize, Block.rest_eq hi, bitsOf_mod _ (Nat.le_refl _), ← Block.rest_eq hi] at hread
  have hpayload : b.payload cfg = bitsOf (length + i - 64) (b.firstBits cfg (i + length)) ++
      (b.payload cfg).drop (length + i - 64) := by
    rw [Nat.add_comm length, ← Block.take_firstBits hend hhi, List.take_append_drop]
  have hahead : (Position.mk (some b) (i + length + cfg.chipIdShift - 63) us).bitsAhead cfg =
      (b.payload cfg).drop (length + i - 64) ++ us.flatMap (Block.payload cfg) := by
    have hdrop : i + length + cfg.chipIdShift - 63 - 1 - cfg.chipIdShift = length + i - 64 := by
      omega
    unfold bitsAhead
    rw [hdrop]
  constructor
  · have hlt := shiftLeft_or_lt hrest hbits
    rwa [← hsize] at hlt
  · rw [hboth, hahead, bitsAhead_eq hlo hi, List.flatMap_cons]
    conv_lhs => rhs; rw [hpayload]
    simp only [List.append_assoc, List.append_cancel_left_eq]
    rw [List.append_cancel_right_eq]
    constructor
    · intro heq
      have hvalue := congrArg valueOf heq
      rwa [valueOf_bitsOf_of_lt hbits, valueOf_bitsOf_of_lt hfirst] at hvalue
    · intro heq
      rw [heq]

end Position

/-! ## The two methods -/

section Methods

variable {ρ : Type} [BlockReader ρ] [Viewed ρ] {cfg : DecoderConfig} {s t : Decoder ρ} {d b : Block}
  {us : List Block} {length : Nat}

theorem Decoder.bitsAhead_of_position (h : s.position = ⟨some d, s.bitIdx, us⟩) :
    s.bitsAhead cfg = (Position.mk (some d) s.bitIdx us).bitsAhead cfg := by
  rw [bitsAhead, h]

theorem Decoder.position_of_data (hd : BlockReader.data s.reader = some d) :
    s.position = ⟨some d, s.bitIdx, (Viewed.view s.reader).upcoming⟩ := by
  rw [position, hd]

theorem reads_field (hs : s.Standing cfg) (hd : BlockReader.data s.reader = some d)
    (hlen : length ≠ 0) (hfit : s.bitIdx + length ≤ 64) :
    ReadsPayload cfg length s (.ok { ok := true, value := d.field s.bitIdx length,
                                     state := { s with bitIdx := s.bitIdx + length } }) := by
  constructor
  · intro _
    rw [Block.field_eq hlen hfit]
    exact Nat.mod_lt _ (Nat.two_pow_pos _)
  · rw [bitsAhead_of_position (position_of_data hd), ← Position.bitsAhead_field hs.behind hlen hfit]
    congr 1
    exact bitsAhead_of_position (position_of_data hd)

/-- A field over the end of its block is right exactly if the overflowing bits are. -/
theorem reads_across_iff (hs : s.Standing cfg) (hpos : s.position = ⟨some d, s.bitIdx, b :: us⟩)
    (hnext : t.position = ⟨some b, s.bitIdx, us⟩) (hend : 64 ≤ s.bitIdx + length)
    (hle : s.bitIdx + length + cfg.chipIdShift ≤ 127) {bits : Nat}
    (hbits : bits < 2 ^ (s.bitIdx + length - 64)) :
    ReadsPayload cfg length s (.ok
        { ok := true, value := d.rest s.bitIdx <<< (length + s.bitIdx - 64) ||| bits,
          state := { t with bitIdx := s.bitIdx + length + cfg.chipIdShift - 63 } }) ↔
      bits = b.firstBits cfg (s.bitIdx + length) := by
  rw [Nat.add_comm s.bitIdx length] at hbits
  have hacross := @Position.bitsAhead_across cfg d b us _ _ hs.behind hs.inside hend hle _ hbits
  have hstate : ({ t with bitIdx := s.bitIdx + length + cfg.chipIdShift - 63 } :
      Decoder ρ).bitsAhead cfg = (Position.mk (some b)
        (s.bitIdx + length + cfg.chipIdShift - 63) us).bitsAhead cfg := by
    have hdata : BlockReader.data t.reader = some b := congrArg Position.data hnext
    have hup : (Viewed.view t.reader).upcoming = us := congrArg Position.upcoming hnext
    rw [← hup]
    exact congrArg (Position.bitsAhead cfg) (position_of_data hdata)
  rw [← hacross.2, ← hstate, ← bitsAhead_of_position hpos]
  constructor
  · exact fun h => h.2
  · exact fun h => ⟨fun _ => hacross.1, h⟩

theorem reads_overdraft_iff (hs : s.Standing cfg) (hpos : s.position = ⟨some d, s.bitIdx, b :: us⟩)
    (hnext : t.position = ⟨some b, s.bitIdx, us⟩) (hend : 64 ≤ s.bitIdx + length) :
    ReadsPayload cfg length s (.ok
        { ok := true, value := d.rest s.bitIdx <<< (length + s.bitIdx - 64),
          state := { t with bitIdx := s.bitIdx + length + cfg.chipIdShift - 63 } }) ↔
      s.bitIdx + length + cfg.chipIdShift ≤ 127 ∧ b.firstBits cfg (s.bitIdx + length) = 0 := by
  by_cases hle : s.bitIdx + length + cfg.chipIdShift ≤ 127
  · have hacross := reads_across_iff hs hpos hnext hend hle (Nat.two_pow_pos _)
    rw [Nat.or_zero] at hacross
    rw [hacross]
    simp only [hle, true_and]
    exact eq_comm
  · simp only [hle, false_and, iff_false]
    intro hreads
    have hdata : BlockReader.data t.reader = some b := congrArg Position.data hnext
    have hup : (Viewed.view t.reader).upcoming = us := congrArg Position.upcoming hnext
    have hstate : ({ t with bitIdx := s.bitIdx + length + cfg.chipIdShift - 63 } :
        Decoder ρ).bitsAhead cfg = us.flatMap (Block.payload cfg) := by
      have hdrop : (b.payload cfg).drop
          (s.bitIdx + length + cfg.chipIdShift - 63 - 1 - cfg.chipIdShift) = [] := by
        apply List.drop_eq_nil_of_le
        rw [Block.length_payload]
        omega
      rw [bitsAhead, position, hdata, hup]
      unfold Position.bitsAhead
      dsimp only
      rw [hdrop, List.nil_append]
    have hlength := congrArg List.length hreads.2
    have hinside := hs.inside
    have hcfg := cfg.chipIdShift_le
    rw [hstate, bitsAhead_of_position hpos, Position.bitsAhead_eq hs.behind hs.inside] at hlength
    simp only [List.length_append, length_bitsOf, List.flatMap_cons, Block.length_payload]
      at hlength
    omega

theorem reads_overflow_iff (hs : s.Standing cfg) (hpos : s.position = ⟨some d, s.bitIdx, b :: us⟩)
    (hnext : t.position = ⟨some b, s.bitIdx, us⟩) (hend : 64 ≤ s.bitIdx + length)
    (hhi : s.bitIdx + length < 128) :
    ReadsPayload cfg length s ((b.overflow cfg s.bitIdx length).map fun bits =>
        { ok := true, value := d.rest s.bitIdx <<< (length + s.bitIdx - 64) ||| bits,
          state := { t with bitIdx := s.bitIdx + length + cfg.chipIdShift - 63 } }) ↔
      b.Stitched cfg (s.bitIdx + length) := by
  by_cases hst : b.Stitched cfg (s.bitIdx + length)
  · rcases Block.overflow_stitched hst hend with ⟨hle, hok⟩
    rw [hok]
    simp only [hst, iff_true]
    exact (reads_across_iff hs hpos hnext hend hle (b.firstBits_lt hle hend)).mpr rfl
  · simp only [hst, iff_false]
    intro hreads
    cases hov : b.overflow cfg s.bitIdx length with
    | error f => simp [hov, Except.map, ReadsPayload] at hreads
    | ok bits =>
        rcases Block.overflow_not_stitched hst hhi hov with ⟨hle, hbits, hne⟩
        rw [hov] at hreads
        exact hne ((reads_across_iff hs hpos hnext hend hle hbits).mp hreads)

theorem reads_end_iff (hs : s.Standing cfg) (hpos : s.position = ⟨some d, s.bitIdx, us⟩)
    (ht : t.position = ⟨some d, 64, us⟩) :
    ReadsPayload cfg length s (.ok { ok := true, value := 0, state := t }) ↔
      s.bitIdx + length = 64 ∧ d.rest s.bitIdx = 0 := by
  have hpow : 0 < 2 ^ length := Nat.two_pow_pos length
  have hcfg := cfg.chipIdShift_le
  have hafter : t.bitsAhead cfg = us.flatMap (Block.payload cfg) := by
    rw [bitsAhead, ht, Position.bitsAhead_eq (by omega) (Nat.le_refl 64)]
    rfl
  have hinside := hs.inside
  unfold ReadsPayload
  simp only [if_true, hpow, implies_true, true_and]
  rw [hafter, bitsAhead_of_position hpos, Position.bitsAhead_eq hs.behind hs.inside,
    List.append_cancel_right_eq, Block.rest_eq hs.inside]
  constructor
  · intro heq
    have hlength := congrArg List.length heq
    have hvalue := congrArg valueOf heq
    rw [length_bitsOf, length_bitsOf] at hlength
    rw [valueOf_bitsOf, valueOf_bitsOf, Nat.zero_mod] at hvalue
    exact ⟨by omega, hvalue.symm⟩
  · rintro ⟨hsum, hzero⟩
    have hlen : length = 64 - s.bitIdx := by omega
    rw [hlen, ← bitsOf_mod d.value (Nat.le_refl _), hzero]

/-! ## Standing after a reading -/

theorem Block.overflow_room {bits i : Nat} (hend : 64 ≤ i + length) (hhi : i + length < 128)
    (h : b.overflow cfg i length = .ok bits) : i + length + cfg.chipIdShift ≤ 127 := by
  by_cases hst : b.Stitched cfg (i + length)
  · exact (Block.overflow_stitched hst hend).1
  · exact (Block.overflow_not_stitched hst hhi h).1

theorem standing_in {k : Nat} (hs : s.Standing cfg) (hlo : 1 + cfg.chipIdShift ≤ k) (hhi : k ≤ 64) :
    ({ s with bitIdx := k } : Decoder ρ).Standing cfg :=
  ⟨hs.placed, hs.data, hlo, hhi⟩

theorem standing_next {k : Nat} (hs : s.Standing cfg) (hfound : s.nextBlock.1 = true)
    (hlo : 1 + cfg.chipIdShift ≤ k) (hhi : k ≤ 64) :
    ({ s.nextBlock.2 with bitIdx := k } : Decoder ρ).Standing cfg := by
  rcases Option.isSome_iff_exists.mp hs.data with ⟨d, hd⟩
  refine ⟨placed_nextBlock hs.placed, ?_, hlo, hhi⟩
  cases searched hs.placed hd with
  | found b us _ _ _ hpos _ =>
      have hdata : BlockReader.data s.nextBlock.2.reader = some b := congrArg Position.data hpos
      simp [hdata]
  | dry _ hdry _ =>
      rw [hfound] at hdry
      cases hdry

theorem standing_back (hs : s.Standing cfg) : s.nextBlock.2.previousBlock.Standing cfg :=
  ⟨placed_previousBlock (placed_nextBlock hs.placed), data_previousBlock _, hs.behind, hs.inside⟩

/-- Where a reading that does something defined leaves the decoder: a failure stays at its bit,
a short field that does not look for the end of the stream ends at `bound` at most. -/
structure Lands (cfg : DecoderConfig) (bound length : Nat) (checkEOS : Bool) (s : Decoder ρ)
    (r : Retrieved ρ) : Prop where
  standing : r.state.Standing cfg
  held : r.ok = false → r.state.bitIdx = s.bitIdx ∧
    (r.state.status = s.status ∨ r.state.status = .init)
  low : r.ok = true → checkEOS = false → length ≠ 0 → length ≤ 16 → r.state.bitIdx ≤ bound

theorem Lands.of_ok {bound : Nat} {checkEOS : Bool} {value : Nat} (h : t.Standing cfg)
    (hlow : checkEOS = false → length ≠ 0 → length ≤ 16 → t.bitIdx ≤ bound) :
    Lands cfg bound length checkEOS s ⟨true, value, t⟩ :=
  ⟨h, fun hf => Bool.noConfusion hf, fun _ => hlow⟩

theorem Lands.of_fail {bound : Nat} {checkEOS : Bool} {value : Nat} (h : t.Standing cfg)
    (hbit : t.bitIdx = s.bitIdx) (hstatus : t.status = s.status ∨ t.status = .init) :
    Lands cfg bound length checkEOS s ⟨false, value, t⟩ :=
  ⟨h, fun _ => ⟨hbit, hstatus⟩, fun hf => Bool.noConfusion hf⟩

end Methods

namespace Itkpixv2DataProcessor

variable {ρ : Type} [BlockReader ρ] [Viewed ρ]

/-- The block at hand ends its stream. -/
def AtEnd (s : Decoder ρ) : Prop :=
  ∃ d, BlockReader.data s.reader = some d ∧ d.topBit = true

/-- The reading stays in its block; or it does not look for the end of the stream in the last
block, and what overflows into a next block is stitched as it should. -/
def Clear (cfg : DecoderConfig) (q : Request) (s : Decoder ρ) : Prop :=
  q.length = 0 ∨ s.bitIdx + q.length ≤ 64 ∨
    (s.bitIdx + q.length < 128 ∧ (AtEnd s → q.checkEOS = false) ∧
      ((AtEnd s → q.skipNSCheck = true) → ∀ b, s.nextBlock? = some b →
        b.Stitched cfg (s.bitIdx + q.length)))

theorem readOn_reads_iff {cfg : DecoderConfig} {s : Decoder ρ} {d : Block} {length : Nat}
    (hs : s.Standing cfg) (hd : BlockReader.data s.reader = some d)
    (hend : 64 ≤ s.bitIdx + length) (hhi : s.bitIdx + length < 128) :
    ReadsPayload cfg length s
        (readOn cfg (d.rest s.bitIdx <<< (length + s.bitIdx - 64)) length s) ↔
      ∀ b, s.nextBlock? = some b → b.Stitched cfg (s.bitIdx + length) := by
  unfold readOn
  cases searched hs.placed hd with
  | found b us hnext hup hfound hpos _ =>
      have hdata : BlockReader.data s.nextBlock.2.reader = some b := congrArg Position.data hpos
      have hhere : s.position = ⟨some d, s.bitIdx, b :: us⟩ := by
        rw [position_of_data hd, hup]
      simp only [hfound, if_true, hdata]
      refine (reads_overflow_iff hs hhere hpos hend hhi).trans ?_
      constructor
      · intro hst b' hb'
        rw [hnext] at hb'
        rwa [← Option.some.inj hb']
      · exact fun h => h b hnext
  | dry hnone hfound hback =>
      simp only [hfound, Bool.false_eq_true, if_false]
      constructor
      · intro _ b hb
        rw [hnone] at hb
        cases hb
      · exact fun _ => hback

theorem retrieve_reads_iff {cfg : DecoderConfig} {s : Decoder ρ} (hs : s.Standing cfg)
    (q : Request) : ReadsPayload cfg q.length s (q.ask (retrieve cfg) s) ↔ Clear cfg q s := by
  rcases Option.isSome_iff_exists.mp hs.data with ⟨d, hd⟩
  have hat : AtEnd s ↔ d.topBit = true := by
    constructor
    · rintro ⟨d', hd', htop⟩
      rw [hd] at hd'
      rwa [Option.some.inj hd']
    · exact fun htop => ⟨d, hd, htop⟩
  unfold Request.ask retrieve Clear
  by_cases hlen : q.length = 0
  · simp [hlen, ReadsPayload]
  rw [if_neg hlen, hd]
  by_cases hfit : s.bitIdx + q.length ≤ 64
  · simp only [hfit, if_true, true_or, or_true, iff_true]
    exact reads_field hs hd hlen hfit
  by_cases hhi : s.bitIdx + q.length < 128
  · simp only [hlen, hfit, hhi, if_false, false_or, true_and, hat]
    rw [if_neg (by omega)]
    cases htop : d.topBit with
    | false =>
        simpa using readOn_reads_iff hs hd (by omega) hhi
    | true =>
        cases heos : q.checkEOS with
        | true =>
            -- the end of the stream is reached before as many bits as asked for
            simp only [Bool.and_self, if_true, true_implies, Bool.true_eq_false, false_and,
              iff_false]
            intro hreads
            apply hfit
            refine Nat.le_of_eq ((reads_end_iff hs (position_of_data hd) ?_).mp hreads).1
            exact congrArg (fun data => Position.mk data 64 _) hd
        | false =>
            cases hskip : q.skipNSCheck with
            | true => simpa using readOn_reads_iff hs hd (by omega) hhi
            | false => simp [ReadsPayload, position]
  · have hshift : q.length + s.bitIdx - 64 ≥ 64 := by omega
    simp [hlen, hfit, hhi, hshift, ReadsPayload]

theorem retrieve_lands {cfg : DecoderConfig} {s : Decoder ρ} (hs : s.Standing cfg)
    {value length : Nat} {checkEOS skipNSCheck : Bool} {r : Retrieved ρ}
    (h : retrieve cfg value length checkEOS skipNSCheck s = .ok r) :
    Lands cfg 64 length checkEOS s r := by
  have hlo := hs.behind
  have hcfg := cfg.chipIdShift_le
  have hlast : 1 + cfg.chipIdShift ≤ 64 := by omega
  have hok : ∀ {value : Nat} {t : Decoder ρ}, t.Standing cfg →
      Lands cfg 64 length checkEOS s ⟨true, value, t⟩ :=
    fun ht => .of_ok ht fun _ _ _ => ht.inside
  unfold retrieve at h
  split at h
  · cases h
    exact hok hs
  rcases Option.isSome_iff_exists.mp hs.data with ⟨d, hd⟩
  rw [hd] at h
  dsimp only at h
  split at h
  · cases h
    exact hok (standing_in hs (by omega) (by omega))
  split at h
  · cases h
  split at h
  · cases h
    exact hok ⟨hs.placed, hs.data, hlast, Nat.le_refl 64⟩
  split at h
  · cases h
    exact .of_fail ⟨hs.placed, hs.data, hs.behind, hs.inside⟩ rfl (Or.inr rfl)
  unfold readOn at h
  cases hfound : s.nextBlock.1 with
  | false =>
      simp only [hfound, Bool.false_eq_true, if_false] at h
      cases h
      exact .of_fail (standing_back hs) rfl (Or.inl rfl)
  | true =>
      simp only [hfound, if_true] at h
      split at h
      · cases h
      · rename_i b _
        cases hov : b.overflow cfg s.nextBlock.2.bitIdx length with
        | error f => simp [hov, Except.map] at h
        | ok bits =>
            have hbit : s.nextBlock.2.bitIdx = s.bitIdx := rfl
            have hroom := Block.overflow_room (by omega) (by omega) hov
            simp only [hov, Except.map, Except.ok.injEq] at h
            rw [← h]
            exact hok (standing_next hs hfound (by omega) (by omega))

end Itkpixv2DataProcessor

namespace Rd53bDataProcessor

variable {ρ : Type} [BlockReader ρ] [Viewed ρ]

/-- What a reading up to or over the end of its block needs of the block behind. If that starts
a new stream, there must not be a bit of it, and not a one, where bits are expected. -/
def Agrees (cfg : DecoderConfig) (q : Request) (s : Decoder ρ) (b : Block) : Prop :=
  if b.topBit then
    if q.checkEOS then
      s.bitIdx + q.length = 64 ∧ ∀ d, BlockReader.data s.reader = some d → d.rest s.bitIdx = 0
    else
      q.skipNSCheck = true ∨ s.bitIdx + q.length = 64 →
        s.bitIdx + q.length + cfg.chipIdShift ≤ 127 ∧ b.firstBits cfg (s.bitIdx + q.length) = 0
  else b.Stitched cfg (s.bitIdx + q.length)

def Clear (cfg : DecoderConfig) (q : Request) (s : Decoder ρ) : Prop :=
  q.length = 0 ∨ s.bitIdx + q.length < 64 ∨
    (s.bitIdx + q.length < 128 ∧ ∀ b, s.nextBlock? = some b → Agrees cfg q s b)

theorem readOn_reads_iff {cfg : DecoderConfig} {s : Decoder ρ} {d : Block} {q : Request}
    (hs : s.Standing cfg) (hd : BlockReader.data s.reader = some d)
    (hend : 64 ≤ s.bitIdx + q.length) (hhi : s.bitIdx + q.length < 128) :
    ReadsPayload cfg q.length s
        (readOn cfg (d.rest s.bitIdx <<< (q.length + s.bitIdx - 64)) q.length q.checkEOS
          q.skipNSCheck s) ↔
      ∀ b, s.nextBlock? = some b → Agrees cfg q s b := by
  unfold readOn
  cases searched hs.placed hd with
  | found b us hnext hup hfound hpos hback =>
      have hdata : BlockReader.data s.nextBlock.2.reader = some b := congrArg Position.data hpos
      have hbit : s.nextBlock.2.bitIdx = s.bitIdx := rfl
      have hhere : s.position = ⟨some d, s.bitIdx, b :: us⟩ := by
        rw [position_of_data hd, hup]
      have hone : (∀ b', s.nextBlock? = some b' → Agrees cfg q s b') ↔ Agrees cfg q s b := by
        rw [hnext]
        simp
      rw [hone]
      simp only [hfound, if_true, hdata, hbit]
      unfold Agrees
      cases htop : b.topBit with
      | false =>
          simp only [Bool.false_and, Bool.false_eq_true, if_false]
          exact reads_overflow_iff hs hhere hpos hend hhi
      | true =>
          cases heos : q.checkEOS with
          | true =>
              simp only [Bool.and_self, if_true, hd, Option.some.injEq, forall_eq']
              refine reads_end_iff hs hhere ?_
              have hthere := hback.trans hhere
              have hdata' := congrArg Position.data hthere
              have hup' := congrArg Position.upcoming hthere
              exact congrArg₂ (fun data up => Position.mk data 64 up) hdata' hup'
          | false =>
              by_cases hover : q.skipNSCheck = true ∨ s.bitIdx + q.length = 64
              · have hbool : (q.skipNSCheck || s.bitIdx + q.length == 64) = true := by
                  simpa using hover
                simp only [Bool.and_false, Bool.false_eq_true, if_false, hbool, Bool.and_self,
                  if_true, hover, true_implies]
                exact reads_overdraft_iff hs hhere hpos hend
              · have hbool : (q.skipNSCheck || s.bitIdx + q.length == 64) = false := by
                  simpa using hover
                simp only [Bool.and_false, Bool.false_eq_true, if_false, hbool, if_true, hover,
                  false_implies, iff_true]
                exact hback
  | dry hnone hfound hback =>
      simp only [hfound, Bool.false_eq_true, if_false]
      constructor
      · intro _ b hb
        rw [hnone] at hb
        cases hb
      · exact fun _ => hback

theorem retrieve_reads_iff {cfg : DecoderConfig} (hid : cfg.enChipId = true) {s : Decoder ρ}
    (hs : s.Standing cfg) (q : Request) :
    ReadsPayload cfg q.length s (q.ask (retrieve cfg) s) ↔ Clear cfg q s := by
  rcases Option.isSome_iff_exists.mp hs.data with ⟨d, hd⟩
  have hfirst : (s.bitIdx == 1) = false := by
    have hbehind := hs.behind
    have htwo : cfg.chipIdShift = 2 := by
      rw [DecoderConfig.chipIdShift, if_pos hid]
    rw [beq_eq_false_iff_ne]
    omega
  unfold Request.ask retrieve Clear
  by_cases hlen : q.length = 0
  · simp [hlen, ReadsPayload]
  rw [if_neg hlen, hd]
  simp only [hfirst, Bool.and_false, Bool.false_eq_true, if_false]
  by_cases hfit : s.bitIdx + q.length < 64
  · simp only [hfit, if_true, true_or, or_true, iff_true]
    exact reads_field hs hd hlen (by omega)
  by_cases hhi : s.bitIdx + q.length < 128
  · simp only [hlen, hfit, hhi, if_false, false_or, true_and]
    rw [if_neg (by omega)]
    exact readOn_reads_iff hs hd (by omega) hhi
  · have hshift : q.length + s.bitIdx - 64 ≥ 64 := by omega
    simp [hlen, hfit, hhi, hshift, ReadsPayload]

/-- An announced overdraft must not go over the end of the next block. -/
theorem retrieve_lands {cfg : DecoderConfig} {s : Decoder ρ} (hs : s.Standing cfg)
    {value length : Nat} {checkEOS skipNSCheck : Bool}
    (hroom : ∀ b, s.nextBlock? = some b → b.topBit = true → checkEOS = false →
      skipNSCheck = true → s.bitIdx + length + cfg.chipIdShift ≤ 127) {r : Retrieved ρ}
    (h : retrieve cfg value length checkEOS skipNSCheck s = .ok r) :
    Lands cfg 63 length checkEOS s r := by
  have hlo := hs.behind
  have hinside := hs.inside
  have hcfg := cfg.chipIdShift_le
  have hlast : 1 + cfg.chipIdShift ≤ 64 := by omega
  unfold retrieve at h
  split at h
  · rename_i hzero
    cases h
    exact .of_ok hs fun _ hne => absurd hzero hne
  rcases Option.isSome_iff_exists.mp hs.data with ⟨d, hd⟩
  rw [hd] at h
  dsimp only at h
  split at h
  · rename_i hhead
    have heos : checkEOS = true := by
      rw [Bool.and_assoc] at hhead
      exact (Bool.and_eq_true_iff.mp hhead).1
    cases h
    refine .of_ok ⟨placed_previousBlock hs.placed, data_previousBlock s, hlast, Nat.le_refl 64⟩ ?_
    rw [heos]
    exact fun hno => Bool.noConfusion hno
  split at h
  · cases h
    exact .of_ok (standing_in hs (by omega) (by omega)) fun _ _ _ => by dsimp only; omega
  split at h
  · cases h
  have hnext : ∀ {value : Nat}, s.nextBlock.1 = true →
      s.bitIdx + length + cfg.chipIdShift ≤ 127 → Lands cfg 63 length checkEOS s ⟨true, value,
        { s.nextBlock.2 with bitIdx := s.bitIdx + length + cfg.chipIdShift - 63 }⟩ :=
    fun hfound hle => .of_ok (standing_next hs hfound (by omega) (by omega))
      fun _ _ _ => by dsimp only; omega
  unfold readOn at h
  cases searched hs.placed hd with
  | dry _ hfound _ =>
      simp only [hfound, Bool.false_eq_true, if_false] at h
      cases h
      exact .of_fail (standing_back hs) rfl (Or.inl rfl)
  | found b us hb _ hfound hpos _ =>
      have hdata : BlockReader.data s.nextBlock.2.reader = some b := congrArg Position.data hpos
      have hbit : s.nextBlock.2.bitIdx = s.bitIdx := rfl
      simp only [hfound, if_true, hdata, hbit] at h
      split at h
      · rename_i heos
        cases h
        refine .of_ok ⟨(standing_back hs).placed, (standing_back hs).data, hlast,
          Nat.le_refl 64⟩ ?_
        rw [(Bool.and_eq_true_iff.mp heos).2]
        exact fun hno => Bool.noConfusion hno
      rename_i heos
      split at h
      · rename_i hover
        cases h
        have htop : b.topBit = true := (Bool.and_eq_true_iff.mp hover).1
        apply hnext hfound
        rcases Bool.or_eq_true_iff.mp (Bool.and_eq_true_iff.mp hover).2 with hskip | hend
        · exact hroom b hb htop (by simpa [htop] using heos) hskip
        · have hsum : s.bitIdx + length = 64 := by simpa using hend
          omega
      split at h
      · cases h
        exact .of_fail ⟨(standing_back hs).placed, (standing_back hs).data, hs.behind, hs.inside⟩
          rfl (Or.inr rfl)
      · cases hov : b.overflow cfg s.bitIdx length with
        | error f => simp [hov, Except.map] at h
        | ok bits =>
            simp only [hov, Except.map, Except.ok.injEq] at h
            rw [← h]
            exact hnext hfound (Block.overflow_room (by omega) (by omega) hov)

end Rd53bDataProcessor

end Yarr.Pixel
