import Yarr.Core.Watch
import Yarr.Pixel.Transparency

/-!
# Accounts of headers

A run of the ITkPixV2 decoder is watched: every header it reads is written
down with the place of the code that read it, and so is every stream that it
gives up. The statistics agree with these notes exactly if no error tag was
read where tags are not checked and no stream was given up twice.
-/

namespace Yarr.Pixel

open Run

namespace Decoder

variable {ρ : Type} [BlockReader ρ]

/-- The statistics of headers and corrupt streams. -/
def tallies (s : Decoder ρ) : Nat × Nat × Nat :=
  (s.counters.chipTagBitFlipCnt, s.counters.chipTagErrorCnt, s.counters.corruptStreamErrorCnt)

/-! ## What leaves the statistics alone -/

theorem tallies_nextBlock (s : Decoder ρ) : s.nextBlock.2.tallies = s.tallies := rfl

theorem tallies_previousBlock (s : Decoder ρ) : s.previousBlock.tallies = s.tallies := rfl

theorem tallies_rollBack (cfg : DecoderConfig) (length : Nat) (s : Decoder ρ) :
    (s.rollBack cfg length).tallies = s.tallies := by
  unfold rollBack
  split
  · rfl
  · split <;> rfl

theorem tallies_of_withoutEvents {s s' : Decoder ρ} (h : s'.withoutEvents = s.withoutEvents) :
    s'.tallies = s.tallies := by
  have htallies : s'.withoutEvents.tallies = s.withoutEvents.tallies := by rw [h]
  exact htallies

/-! ## Labels that read no header -/

/-- Nothing is counted, and the label is not left for `CCC`. -/
def Quiet (s : Decoder ρ) : Outcome Fault (Decoder ρ) → Prop
  | .cont s' => s'.tallies = s.tallies ∧ s'.status ≠ .ccc
  | .ret s' => s'.tallies = s.tallies
  | .fault _ => True

/-- A read that counts neither headers nor corrupt streams. -/
def QuietRead (retrieve : Retrieve ρ) : Prop :=
  ∀ value length checkEOS skipNSCheck s r,
    retrieve value length checkEOS skipNSCheck s = .ok r → r.state.tallies = s.tallies

omit [BlockReader ρ] in
theorem quiet_withField {found : Except Fault (Retrieved ρ)} {s : Decoder ρ}
    {store : Nat → Decoder ρ → Decoder ρ} {next : Nat → Decoder ρ → Outcome Fault (Decoder ρ)}
    (hfound : ∀ r, found = .ok r → (store r.value r.state).tallies = s.tallies)
    (hnext : ∀ v t, t.tallies = s.tallies → Quiet s (next v t)) :
    Quiet s (withField found store next) := by
  unfold withField
  cases hf : found with
  | error e => trivial
  | ok r =>
      have htallies := hfound r hf
      dsimp only
      split
      · exact hnext _ _ htallies
      · exact htallies

theorem quiet_header {s t : Decoder ρ} (ht : t.tallies = s.tallies) {next : Status}
    (hnext : next ≠ .ccc) : Quiet s (t.header next) := by
  unfold header
  cases hst : t.startEvent with
  | error e => trivial
  | ok u =>
      have hu := tallies_of_withoutEvents (withoutEvents_startEvent hst)
      exact ⟨hu.trans ht, hnext⟩

omit [BlockReader ρ] in
theorem quiet_endQuarterCore {found : Except Fault (Decoder ρ)} {s : Decoder ρ}
    (h : ∀ t, found = .ok t → t.tallies = s.tallies) : Quiet s (endQuarterCore found) := by
  unfold endQuarterCore
  cases hf : found with
  | error e => trivial
  | ok t =>
      refine ⟨h t hf, ?_⟩
      dsimp only
      split <;> decide

section Labels

variable {retrieve : Retrieve ρ} (hread : QuietRead retrieve) (s : Decoder ρ)

include hread

omit [BlockReader ρ] in
theorem quiet_ilin : Quiet s (ilin retrieve s) :=
  quiet_withField (fun r hr => hread _ _ _ _ _ r hr)
    fun _ _ ht => ⟨ht, by simp⟩

omit [BlockReader ρ] in
theorem quiet_qrowLabel : Quiet s (qrowLabel retrieve s) := by
  unfold qrowLabel
  split
  · exact ⟨rfl, by simp⟩
  · exact quiet_withField (fun r hr => hread _ _ _ _ _ r hr) fun _ _ ht => ⟨ht, by simp⟩

omit [BlockReader ρ] in
theorem quiet_hmap1 : Quiet s (hmap1 retrieve s) :=
  quiet_withField (fun r hr => hread _ _ _ _ _ r hr) fun _ _ ht => ⟨ht, by simp⟩

theorem quiet_hmap2 (cfg : DecoderConfig) : Quiet s (hmap2 cfg retrieve s) := by
  unfold hmap2
  split
  · dsimp only
    split
    · have hback : ∀ t : Decoder ρ, t.tallies = s.tallies →
          (if (TreeCode.lutBinaryTreeHitMap (s.hitmap % 2 ^ 16)).rollBackRow ≠ 0xff then
            t.rollBack cfg (TreeCode.lutBinaryTreeHitMap (s.hitmap % 2 ^ 16)).rollBackRow
          else t).tallies = s.tallies := by
        intro t ht
        split
        · rw [tallies_rollBack, ht]
        · exact ht
      refine quiet_withField (fun r hr => (hread _ _ _ _ _ r hr).trans (hback _ rfl)) ?_
      intro v t ht
      exact ⟨(tallies_rollBack cfg _ _).trans ht, by simp⟩
    · exact ⟨tallies_rollBack cfg _ _, by simp⟩
  · exact ⟨rfl, by simp⟩

theorem quiet_totLabel (cfg : DecoderConfig) (guarded : Bool) :
    Quiet s (totLabel cfg retrieve guarded s) := by
  have hhits : ∀ (add : Decoder ρ → Except Fault (Decoder ρ)),
      (∀ t t', add t = .ok t' → t'.withoutEvents = t.withoutEvents) → ∀ t : Decoder ρ,
        t.tallies = s.tallies → Quiet s (endQuarterCore ((t.touchCurEvent guarded).bind add)) := by
    intro add hadd t ht
    apply quiet_endQuarterCore
    intro u hu
    cases htouch : t.touchCurEvent guarded with
    | error e => simp [htouch, Except.bind] at hu
    | ok t' =>
        simp only [htouch, Except.bind] at hu
        rw [tallies_of_withoutEvents (hadd t' u hu),
          tallies_of_withoutEvents (withoutEvents_touchCurEvent htouch), ht]
  unfold totLabel
  dsimp only
  split
  · exact quiet_withField (fun r hr => hread _ _ _ _ _ r hr)
      fun _ t ht => hhits addPToTHits (fun _ _ => withoutEvents_addPToTHits) t ht
  · split
    · exact hhits addPixelHits (fun _ _ => withoutEvents_addPixelHits) s rfl
    · exact quiet_withField (fun r hr => hread _ _ _ _ _ r hr)
        fun _ t ht => hhits addPixelHits (fun _ _ => withoutEvents_addPixelHits) t ht

end Labels

end Decoder

namespace Itkpixv2DataProcessor

open Decoder

variable {ρ : Type} [BlockReader ρ]

theorem tallies_readOn {cfg : DecoderConfig} {value length : Nat} {s : Decoder ρ}
    {r : Retrieved ρ} (h : readOn cfg value length s = .ok r) : r.state.tallies = s.tallies := by
  unfold readOn at h
  dsimp only at h
  split at h
  · cases hd : BlockReader.data s.nextBlock.2.reader with
    | none => simp [hd] at h
    | some d =>
        cases hb : d.overflow cfg s.nextBlock.2.bitIdx length with
        | error e => simp [hd, hb, Except.map] at h
        | ok bits =>
            simp only [hd, hb, Except.map, Except.ok.injEq] at h
            rw [← h]
            rfl
  · rw [← Except.ok.inj h]
    rfl

theorem quietRead_retrieve (cfg : DecoderConfig) : QuietRead (ρ := ρ) (retrieve cfg) := by
  intro value length checkEOS skipNSCheck s r h
  unfold retrieve at h
  split at h
  · rw [← Except.ok.inj h]
  · cases hd : BlockReader.data s.reader with
    | none => simp [hd] at h
    | some d =>
        simp only [hd] at h
        split at h
        · rw [← Except.ok.inj h]
          rfl
        · split at h
          · cases h
          · split at h
            · rw [← Except.ok.inj h]
              unfold tallies
              dsimp only
              split <;> rfl
            · split at h
              · rw [← Except.ok.inj h]
                rfl
              · exact tallies_readOn h

end Itkpixv2DataProcessor

/-! ## Notes -/

/-- The place in the code that reads a header: the head of `process_core`, the end of a stream
or the tag inside of a stream. -/
inductive HeaderPlace where
  | first
  | next
  | internal
  deriving DecidableEq

/-- A header with its eight tag bits. -/
structure Header where
  place : HeaderPlace
  tag : Nat
  deriving DecidableEq

namespace Header

/-- A single bit flip in the trigger symbol. -/
def isBitFlip (h : Header) : Bool := 216 ≤ h.tag ∧ h.tag ≤ 219

/-- A totally unrecognized trigger symbol. -/
def isUnrecognized (h : Header) : Bool := 220 ≤ h.tag ∧ h.tag ≤ 223

end Header

/-- The headers of a run, the streams given up because of core column zero in a block without
the end-of-stream bit, and the calls that resumed at such a block. -/
structure Account where
  headers : List Header := []
  aborted : Nat := 0
  resumed : Nat := 0
  deriving DecidableEq

def Account.read (a : Account) (place : HeaderPlace) (tag : Nat) : Account :=
  { a with headers := a.headers ++ [⟨place, tag % 2 ^ 8⟩] }

namespace Itkpixv2DataProcessor

open Decoder

variable {ρ : Type} [BlockReader ρ]

/-- Core column zero was read, and the block has no end-of-stream bit. -/
def atCorruptEnd (s : Decoder ρ) : Bool :=
  s.status == .ccc && s.ccol == 0 && ((BlockReader.data s.reader).map Block.topBit == some false)

def accountant : Watch (Decoder ρ) Account where
  enter s s' a :=
    if s.status = .init then a.read .first s'.tag
    else if atCorruptEnd s then { a with resumed := a.resumed + 1 }
    else a
  step s s' a :=
    match s.status with
    | .ccol => if atCorruptEnd s' then { a with aborted := a.aborted + 1 } else a
    | .ccc =>
        if s.ccol = 0 then a.read .next s'.tag
        else if s.ccol ≥ 55 then a.read .internal s'.tag
        else a
    | _ => a

def isNext (h : Header) : Bool := h.place = .next

/-- Headers behind the end of a stream are counted, and corrupt streams as often as a call
comes by. -/
structure Booked (s : Decoder ρ) (pending : Nat) (a : Account) : Prop where
  bitFlips : s.counters.chipTagBitFlipCnt = a.headers.countP fun h => isNext h && h.isBitFlip
  errors : s.counters.chipTagErrorCnt = a.headers.countP fun h => isNext h && h.isUnrecognized
  corrupt : s.counters.corruptStreamErrorCnt + pending = a.aborted + a.resumed

def pendingAt (s : Decoder ρ) : Nat := if atCorruptEnd s then 1 else 0

omit [BlockReader ρ] in
theorem Booked.of_tallies {s s' : Decoder ρ} {n : Nat} {a : Account} (h : Booked s n a)
    (htallies : s'.tallies = s.tallies) : Booked s' n a := by
  simp only [tallies, Prod.mk.injEq] at htallies
  rcases htallies with ⟨hflips, herrors, hcorrupt⟩
  exact ⟨hflips.trans h.bitFlips, herrors.trans h.errors, hcorrupt ▸ h.corrupt⟩

omit [BlockReader ρ] in
theorem Booked.read {s : Decoder ρ} {n : Nat} {a : Account} (h : Booked s n a)
    {place : HeaderPlace} (hplace : place ≠ .next) (tag : Nat) :
    Booked s n (a.read place tag) := by
  have hnext : ∀ t, isNext ⟨place, t⟩ = false := fun t => by simp [isNext, hplace]
  refine ⟨?_, ?_, h.corrupt⟩
  · rw [h.bitFlips, Account.read, List.countP_append]
    simp [hnext]
  · rw [h.errors, Account.read, List.countP_append]
    simp [hnext]

theorem atCorruptEnd_of_status {s : Decoder ρ} (h : s.status ≠ .ccc) : atCorruptEnd s = false := by
  simp [atCorruptEnd, h]

theorem pendingAt_of_status {s : Decoder ρ} (h : s.status ≠ .ccc) : pendingAt s = 0 := by
  rw [pendingAt, atCorruptEnd_of_status h]
  rfl

/-! ## The end of a stream -/

theorem tagBits_lt (cfg : DecoderConfig) (d : Block) : d.tagBits cfg < 2 ^ 8 :=
  Nat.lt_succ_of_le Nat.and_le_right

theorem shiftRight_three_eq_iff (n : Nat) : n >>> 3 = 27 ↔ 216 ≤ n ∧ n ≤ 223 := by
  rw [Nat.shiftRight_eq_div_pow]
  omega

theorem shiftRight_two_eq_iff (n : Nat) : n >>> 2 = 54 ↔ 216 ≤ n ∧ n ≤ 219 := by
  rw [Nat.shiftRight_eq_div_pow]
  omega

omit [BlockReader ρ] in
theorem countTagError_counters (s : Decoder ρ) :
    (countTagError s).counters.chipTagBitFlipCnt = s.counters.chipTagBitFlipCnt
        + (if 216 ≤ s.tag ∧ s.tag ≤ 219 then 1 else 0) ∧
      (countTagError s).counters.chipTagErrorCnt = s.counters.chipTagErrorCnt
        + (if 220 ≤ s.tag ∧ s.tag ≤ 223 then 1 else 0) ∧
      (countTagError s).counters.corruptStreamErrorCnt = s.counters.corruptStreamErrorCnt := by
  unfold countTagError
  by_cases hrange : s.tag >>> 3 = 27
  · rw [if_pos hrange]
    rw [shiftRight_three_eq_iff] at hrange
    by_cases hflip : s.tag >>> 2 = 54
    · rw [if_pos hflip]
      rw [shiftRight_two_eq_iff] at hflip
      have herror : ¬ (220 ≤ s.tag ∧ s.tag ≤ 223) := by omega
      simp [hflip, herror]
    · rw [if_neg hflip]
      rw [shiftRight_two_eq_iff] at hflip
      have herror : 220 ≤ s.tag ∧ s.tag ≤ 223 := by omega
      rw [if_neg hflip, if_pos herror]
      exact ⟨rfl, rfl, rfl⟩
  · rw [if_neg hrange]
    rw [shiftRight_three_eq_iff] at hrange
    have hflip : ¬ (216 ≤ s.tag ∧ s.tag ≤ 219) := by omega
    have herror : ¬ (220 ≤ s.tag ∧ s.tag ≤ 223) := by omega
    simp [hflip, herror]

omit [BlockReader ρ] in
theorem Booked.countTagError {s : Decoder ρ} {n : Nat} {a : Account} (h : Booked s n a)
    (htag : s.tag < 2 ^ 8) : Booked (countTagError s) n (a.read .next s.tag) := by
  rcases countTagError_counters s with ⟨hflips, herrors, hcorrupt⟩
  refine ⟨?_, ?_, by rw [hcorrupt]; exact h.corrupt⟩
  · rw [hflips, h.bitFlips, Account.read, List.countP_append, Nat.mod_eq_of_lt htag]
    simp [isNext, Header.isBitFlip, List.countP_singleton]
  · rw [herrors, h.errors, Account.read, List.countP_append, Nat.mod_eq_of_lt htag]
    simp [isNext, Header.isUnrecognized, List.countP_singleton]

omit [BlockReader ρ] in
theorem Booked.countCorrupt {s : Decoder ρ} {a : Account} {d : Block}
    (h : Booked s (if d.topBit then 0 else 1) a) : Booked (countCorrupt d s) 0 a := by
  rcases h with ⟨hflips, herrors, hcorrupt⟩
  unfold Itkpixv2DataProcessor.countCorrupt
  cases htop : d.topBit with
  | true =>
      rw [htop] at hcorrupt
      exact ⟨hflips, herrors, hcorrupt⟩
  | false =>
      rw [htop] at hcorrupt
      exact ⟨hflips, herrors, hcorrupt⟩

theorem endOfStream_booked (cfg : DecoderConfig) {s : Decoder ρ} {a : Account}
    (hstatus : s.status = .ccc) (hccol : s.ccol = 0) (h : Booked s (pendingAt s) a) :
    (∀ s', endOfStream cfg s = .cont s' →
        Booked s' 0 (a.read .next s'.tag) ∧ s'.status = .bcidl1) ∧
      ∀ s', endOfStream cfg s = .ret s' → Booked s' 0 a := by
  unfold endOfStream
  cases hd : BlockReader.data s.reader with
  | none => simp
  | some d =>
      have hpending : pendingAt s = if d.topBit then 0 else 1 := by
        simp only [pendingAt, atCorruptEnd, hstatus, hccol, hd, Option.map_some]
        cases d.topBit <;> rfl
      rw [hpending] at h
      have hnext : Booked (countCorrupt d s).nextBlock.2 0 a :=
        h.countCorrupt.of_tallies (tallies_nextBlock _)
      dsimp only
      split
      · cases hd' : BlockReader.data (countCorrupt d s).nextBlock.2.reader with
        | none => simp
        | some d' =>
            have hread : Booked (readTag cfg d' (countCorrupt d s).nextBlock.2) 0 a :=
              hnext.of_tallies rfl
            have hcount := hread.countTagError (tagBits_lt cfg d')
            refine ⟨fun s' hs' => ?_, fun s' hs' => (by cases hs')⟩
            injection hs' with hs'
            subst hs'
            have htag : (countTagError (readTag cfg d' (countCorrupt d s).nextBlock.2)).tag
                = d'.tagBits cfg := by
              unfold countTagError
              split
              · split <;> rfl
              · rfl
            rw [htag]
            exact ⟨hcount.of_tallies rfl, rfl⟩
      · refine ⟨fun s' hs' => (by cases hs'), fun s' hs' => ?_⟩
        injection hs' with hs'
        subst hs'
        exact hnext.of_tallies (tallies_previousBlock _)

/-! ## Every step is booked -/

theorem quiet_bcidl1 (cfg : DecoderConfig) {s t : Decoder ρ} (ht : t.tallies = s.tallies) :
    Quiet s (bcidl1 cfg t) := by
  have hheader : ∀ u : Decoder ρ, u.tallies = s.tallies → Quiet s (u.header .ccol) :=
    fun u hu => quiet_header hu (by decide)
  unfold bcidl1
  split
  · refine quiet_withField (fun r hr => (quietRead_retrieve cfg _ _ _ _ _ r hr).trans ht) ?_
    intro v u hu
    split
    · exact hheader _ hu
    · split
      · exact hheader _ hu
      · exact hheader _ hu
  · exact hheader _ ht

theorem quiet_step (cfg : DecoderConfig) {s : Decoder ρ} (hccol : s.status ≠ .ccol)
    (hccc : s.status ≠ .ccc) : Quiet s (step cfg s) := by
  have hread := quietRead_retrieve (ρ := ρ) cfg
  unfold step
  cases hs : s.status with
  | init => exact quiet_bcidl1 cfg rfl
  | bcidl1 => exact quiet_bcidl1 cfg rfl
  | ccol => exact absurd hs hccol
  | ccc => exact absurd hs hccc
  | ilin => exact quiet_ilin hread s
  | qrow => exact quiet_qrowLabel hread s
  | hmap1 => exact quiet_hmap1 hread s
  | hmap2 => exact quiet_hmap2 hread s cfg
  | tot => exact quiet_totLabel hread s cfg true

theorem Booked.of_quiet {s s' : Decoder ρ} {n : Nat} {a : Account} (h : Booked s n a)
    (hn : n = 0) (hquiet : s'.tallies = s.tallies ∧ s'.status ≠ .ccc) :
    Booked s' (pendingAt s') a := by
  rw [pendingAt_of_status hquiet.2, ← hn]
  exact h.of_tallies hquiet.1

/-- A call is entered at a header or where the last one stopped. -/
theorem enter_booked {cfg : DecoderConfig} {s s' : Decoder ρ} {a : Account}
    (hs' : enter cfg s = .cont s') (h : Booked s 0 a) :
    Booked s' (pendingAt s') (accountant.enter s s' a) := by
  unfold enter at hs'
  split at hs'
  · cases hs'
  · by_cases hinit : s.status = .init
    · simp only [hinit, if_true] at hs'
      split at hs'
      · cases hd : BlockReader.data s.nextBlock.2.reader with
        | none => simp [hd] at hs'
        | some d =>
            simp only [hd, Outcome.cont.injEq] at hs'
            subst hs'
            have hread : Booked (readTag cfg d s.nextBlock.2) 0 a :=
              h.of_tallies (tallies_nextBlock s)
            have hstatus : (readTag cfg d s.nextBlock.2).status ≠ .ccc := by
              change s.status ≠ .ccc
              rw [hinit]
              decide
            simp only [accountant, hinit, if_true]
            rw [pendingAt_of_status hstatus]
            exact hread.read (by decide) _
      · cases hs'
    · simp only [hinit, if_false, Outcome.cont.injEq] at hs'
      subst hs'
      simp only [accountant, hinit, if_false, pendingAt]
      split
      · exact ⟨h.bitFlips, h.errors, by have := h.corrupt; dsimp only; omega⟩
      · exact h

theorem enter_ret_booked {cfg : DecoderConfig} {s s' : Decoder ρ} {a : Account}
    (hs' : enter cfg s = .ret s') (h : Booked s 0 a) : Booked s' 0 a := by
  unfold enter at hs'
  split at hs'
  · rw [← Outcome.ret.inj hs']
    exact h
  · split at hs'
    · dsimp only at hs'
      split at hs'
      · cases hd : BlockReader.data s.nextBlock.2.reader <;> simp [hd] at hs'
      · rw [← Outcome.ret.inj hs']
        exact h.of_tallies (tallies_nextBlock s)
    · cases hs'

theorem ccolLabel_booked {cfg : DecoderConfig} {s : Decoder ρ} {a : Account}
    (hstatus : s.status = .ccol) (h : Booked s 0 a) :
    (∀ s', ccolLabel cfg s = .cont s' → Booked s' (pendingAt s') (accountant.step s s' a)) ∧
      ∀ s', ccolLabel cfg s = .ret s' → Booked s' 0 a := by
  unfold ccolLabel withField
  cases hr : retrieve cfg s.ccol 6 true false s with
  | error e => simp
  | ok r =>
      have hread : Booked r.state 0 a := h.of_tallies (quietRead_retrieve cfg _ _ _ _ _ r hr)
      dsimp only
      split
      · refine ⟨fun s' hs' => ?_, fun s' hs' => (by cases hs')⟩
        injection hs' with hs'
        subst hs'
        simp only [accountant, hstatus, pendingAt]
        split
        · exact ⟨hread.bitFlips, hread.errors, by have := hread.corrupt; dsimp only; omega⟩
        · exact hread.of_tallies rfl
      · refine ⟨fun s' hs' => (by cases hs'), fun s' hs' => ?_⟩
        injection hs' with hs'
        subst hs'
        exact hread.of_tallies rfl

theorem ccc_booked {cfg : DecoderConfig} {s : Decoder ρ} {a : Account}
    (hstatus : s.status = .ccc) (h : Booked s (pendingAt s) a) :
    (∀ s', ccc cfg s = .cont s' → Booked s' (pendingAt s') (accountant.step s s' a)) ∧
      ∀ s', ccc cfg s = .ret s' → Booked s' 0 a := by
  unfold ccc
  by_cases hccol : s.ccol = 0
  · rcases endOfStream_booked cfg hstatus hccol h with ⟨hcont, hret⟩
    rw [if_pos hccol]
    refine ⟨fun s' hs' => ?_, hret⟩
    rcases hcont s' hs' with ⟨hbooked, hnext⟩
    simp only [accountant, hstatus, hccol, if_true]
    rw [pendingAt_of_status (by rw [hnext]; decide)]
    exact hbooked
  · have hnone : pendingAt s = 0 := by simp [pendingAt, atCorruptEnd, hccol]
    rw [hnone] at h
    rw [if_neg hccol]
    by_cases htag : s.ccol ≥ 55
    · rw [if_pos htag]
      unfold withField
      cases hr : retrieve cfg 0 5 true false s with
      | error e => simp
      | ok r =>
          have hread : Booked r.state 0 a := h.of_tallies (quietRead_retrieve cfg _ _ _ _ _ r hr)
          dsimp only
          split
          · refine ⟨fun s' hs' => ?_, fun s' hs' => (by cases hs')⟩
            injection hs' with hs'
            subst hs'
            simp only [accountant, hstatus, hccol, htag, if_true, if_false]
            exact (hread.read (by decide) _).of_tallies rfl
          · refine ⟨fun s' hs' => (by cases hs'), fun s' hs' => ?_⟩
            injection hs' with hs'
            subst hs'
            exact hread
    · rw [if_neg htag]
      refine ⟨fun s' hs' => ?_, fun s' hs' => (by cases hs')⟩
      injection hs' with hs'
      subst hs'
      simp only [accountant, hstatus, hccol, htag, if_false]
      have hsame : { s with status := Status.ilin }.tallies = s.tallies := rfl
      exact h.of_tallies hsame

theorem step_booked {cfg : DecoderConfig} {s : Decoder ρ} {a : Account}
    (h : Booked s (pendingAt s) a) :
    (∀ s', step cfg s = .cont s' → Booked s' (pendingAt s') (accountant.step s s' a)) ∧
      ∀ s', step cfg s = .ret s' → Booked s' 0 a := by
  by_cases hccc : s.status = .ccc
  · have hlabel : step cfg s = ccc cfg s := by rw [step, hccc]
    rw [hlabel]
    exact ccc_booked hccc h
  · rw [pendingAt_of_status hccc] at h
    by_cases hccol : s.status = .ccol
    · have hlabel : step cfg s = ccolLabel cfg s := by rw [step, hccol]
      rw [hlabel]
      exact ccolLabel_booked hccol h
    · have hquiet := quiet_step cfg hccol hccc
      have hnotes : ∀ s', accountant.step s s' a = a := by
        intro s'
        unfold accountant
        dsimp only
        split
        · exact absurd (by assumption) hccol
        · exact absurd (by assumption) hccc
        · rfl
      constructor
      · intro s' hs'
        rw [hs'] at hquiet
        rw [hnotes]
        exact h.of_quiet rfl hquiet
      · intro s' hs'
        rw [hs'] at hquiet
        exact h.of_tallies hquiet

/-! ## Whole runs -/

theorem accountant_keeps (cfg : DecoderConfig) :
    (accountant (ρ := StreamReader cfg)).Keeps (processCore cfg) Decoder.push
      (fun s a => Booked s 0 a) (fun s a => Booked s (pendingAt s) a) where
  pushIdle _ _ _ h := h.of_tallies rfl
  pushBusy _ _ _ h := h.of_tallies rfl
  enterCont _ _ _ hs h := enter_booked hs h
  enterRet _ _ _ hs h := enter_ret_booked hs h
  stepCont _ s' _ hs h := (step_booked h).1 s' hs
  stepRet _ s' _ hs h := (step_booked h).2 s' hs

/-- A freshly initialised processor, with nothing noted. -/
def fresh (cfg : DecoderConfig) (statusFb : Option (List FeedbackProcessingInfo)) :
    Caller (Decoder (StreamReader cfg) × Account) :=
  ⟨false, Decoder.initial (StreamReader.initial cfg) statusFb, {}⟩

/-- A run: containers arrive at any time, and calls are made and take their steps. -/
def Audited (cfg : DecoderConfig) (statusFb : Option (List FeedbackProcessingInfo))
    (c : Caller (Decoder (StreamReader cfg) × Account)) : Prop :=
  Reaches ((processCore cfg).watched accountant) (pushWatched Decoder.push) (fresh cfg statusFb) c

/-- Every header with an error tag is in the statistics once, and every stream given up. -/
structure Accounted (s : Decoder ρ) (a : Account) : Prop where
  bitFlips : s.counters.chipTagBitFlipCnt = a.headers.countP Header.isBitFlip
  errors : s.counters.chipTagErrorCnt = a.headers.countP Header.isUnrecognized
  corrupt : s.counters.corruptStreamErrorCnt = a.aborted

/-- No error tag where tags are not checked, and no call that resumes a stream given up. -/
structure Checked (a : Account) : Prop where
  tags : ∀ h ∈ a.headers, h.place ≠ .next → ¬ (216 ≤ h.tag ∧ h.tag ≤ 223)
  once : a.resumed = 0

theorem countP_and_eq_iff {α : Type} (p q : α → Bool) (l : List α) :
    (l.countP fun x => p x && q x) = l.countP q ↔ ∀ x ∈ l, q x → p x := by
  induction l with
  | nil => simp
  | cons x l ih =>
      have hle : (l.countP fun x => p x && q x) ≤ l.countP q :=
        List.countP_mono_left fun x _ h => (Bool.and_eq_true_iff.mp h).2
      rw [List.countP_cons, List.countP_cons, List.forall_mem_cons, ← ih]
      cases p x <;> cases q x <;> (simp; try omega)

/-- Between the calls of any run the statistics agree with the notes exactly if every error tag
was read behind the end of a stream and no stream was given up again in a later call. -/
theorem accounted_iff (cfg : DecoderConfig) (statusFb : Option (List FeedbackProcessingInfo))
    (s : Decoder (StreamReader cfg)) (a : Account) (hrun : Audited cfg statusFb ⟨false, s, a⟩) :
    Accounted s a ↔ Checked a := by
  have hfresh : Watch.Holds (fun s a => Booked s 0 a) (fun s a => Booked s (pendingAt s) a)
      (fresh cfg statusFb) := ⟨rfl, rfl, rfl⟩
  have hbooked : Booked s 0 a := (accountant_keeps cfg).reaches hrun hfresh
  rcases hbooked with ⟨hflips, herrors, hcorrupt⟩
  have hplace : ∀ h : Header, isNext h = true ↔ h.place = .next := fun h => decide_eq_true_iff
  constructor
  · intro hacc
    have hflip := (countP_and_eq_iff _ _ _).mp (hflips.symm.trans hacc.bitFlips)
    have herror := (countP_and_eq_iff _ _ _).mp (herrors.symm.trans hacc.errors)
    refine ⟨fun h hmem hne hrange => ?_, by have := hacc.corrupt; omega⟩
    by_cases hlow : h.tag ≤ 219
    · exact hne ((hplace h).mp (hflip h hmem (decide_eq_true ⟨hrange.1, hlow⟩)))
    · exact hne ((hplace h).mp (herror h hmem (decide_eq_true ⟨by omega, hrange.2⟩)))
  · intro hchecked
    have hnext : ∀ h ∈ a.headers, 216 ≤ h.tag ∧ h.tag ≤ 223 → isNext h = true := by
      intro h hmem hrange
      rw [hplace]
      by_contra hne
      exact hchecked.tags h hmem hne hrange
    refine ⟨?_, ?_, by have := hchecked.once; omega⟩
    · rw [hflips, countP_and_eq_iff]
      intro h hmem hflip
      have hrange := of_decide_eq_true hflip
      exact hnext h hmem ⟨hrange.1, by omega⟩
    · rw [herrors, countP_and_eq_iff]
      intro h hmem herror
      have hrange := of_decide_eq_true herror
      exact hnext h hmem ⟨by omega, hrange.2⟩

/-- One container with one stream of one header and no hits, and one call. -/
def oneHeader (tag : Nat) : List (Op RawDataContainer) :=
  [.push ⟨[⟨[Block.ofWords (0x80000000 ||| (tag <<< 23)) 0], List.cons_ne_nil _ _⟩],
    ⟨[], [], false, LoopStatus.same_size_nil⟩⟩, .call]

def plain : DecoderConfig := .init 0 0 0 0 0 0

def oneHeaderRun (tag : Nat) :
    Outcome Fault (Decoder (StreamReader plain) × Account) :=
  session ((processCore plain).watched accountant) (pushWatched Decoder.push) 9 (oneHeader tag)
    (Decoder.initial (StreamReader.initial plain) none, {})

def returnsWith {σ : Type} (test : σ → Bool) : Outcome Fault σ → Bool
  | .ret s => test s
  | _ => false

theorem exists_of_oneHeaderRun {tag : Nat}
    {test : Decoder (StreamReader plain) × Account → Bool}
    (h : returnsWith test (oneHeaderRun tag) = true) :
    ∃ s a, Audited plain none ⟨false, s, a⟩ ∧ test (s, a) = true := by
  cases ho : oneHeaderRun tag with
  | cont p => simp [ho, returnsWith] at h
  | ret p =>
      rw [ho] at h
      exact ⟨p.1, p.2, reaches_of_session ho, h⟩
  | fault e => simp [ho, returnsWith] at h

theorem accounted_plain_tag : ∃ s a, Audited plain none ⟨false, s, a⟩ ∧ Accounted s a := by
  have hrun : returnsWith (fun p => decide (p.2 = { headers := [⟨.first, 5⟩] }))
      (oneHeaderRun 5) = true := by decide +kernel
  rcases exists_of_oneHeaderRun hrun with ⟨s, a, haudited, hnotes⟩
  refine ⟨s, a, haudited, (accounted_iff plain none s a haudited).mpr ?_⟩
  have hheaders : a = { headers := [⟨.first, 5⟩] } := of_decide_eq_true hnotes
  rw [hheaders]
  refine ⟨fun h hmem _ => ?_, rfl⟩
  rw [List.mem_singleton.mp hmem]
  decide

/-- The first header of all is not checked. -/
theorem first_header_not_counted :
    ∃ s a, Audited plain none ⟨false, s, a⟩ ∧ ¬ Accounted s a := by
  have hrun : returnsWith (fun p => decide (p.2 = { headers := [⟨.first, 216⟩] } ∧
      p.1.counters.chipTagBitFlipCnt = 0)) (oneHeaderRun 216) = true := by decide +kernel
  rcases exists_of_oneHeaderRun hrun with ⟨s, a, haudited, hnotes⟩
  have hboth : a = { headers := [⟨.first, 216⟩] } ∧ s.counters.chipTagBitFlipCnt = 0 :=
    of_decide_eq_true hnotes
  refine ⟨s, a, haudited, fun hacc => ?_⟩
  have hcount := hacc.bitFlips
  rw [hboth.2, hboth.1] at hcount
  exact absurd hcount (by decide)

end Itkpixv2DataProcessor

end Yarr.Pixel
