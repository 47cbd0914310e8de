import Yarr.Star.ParserLaws

/-!
# Where the parsers look

Neither parser reads behind a packet, and both report one that is too short,
but for a wrapped ABC packet: its nine bytes are taken without a look at the
length.
-/

namespace Yarr.Star

/-- The bytes that a packet of a type has at least. -/
def PacketType.leastBytes : PacketType → Nat
  | .hcc_rr | .hcc_hpr => 6
  | .abc_rr | .abc_hpr => 9
  | .lp | .pr => 4
  | .abc_transp => 9
  | .none | .abc_full | .unknown => 1

/-- Nothing was read that is not there. -/
def InBounds {α : Type} (x : Except Fault α) : Prop := ∃ a, x = .ok a

theorem inBounds_pure {α : Type} (a : α) : InBounds (.ok a) := ⟨a, rfl⟩

theorem inBounds_readAt {raw : List Nat} {i : Nat} : InBounds (readAt raw i) ↔ i < raw.length := by
  constructor
  · rintro ⟨w, hw⟩
    by_contra hge
    rw [readAt, List.getElem?_eq_none (Nat.le_of_not_lt hge)] at hw
    cases hw
  · intro hlt
    exact ⟨raw[i], readAt_of_lt hlt⟩

theorem InBounds.bind {α β : Type} {x : Except Fault α} {f : α → Except Fault β}
    (hx : InBounds x) (hf : ∀ a, InBounds (f a)) : InBounds (x >>= f) := by
  rcases hx with ⟨a, rfl⟩
  exact hf a

theorem inBounds_read_bind {β : Type} {raw : List Nat} {i : Nat} {f : Nat → Except Fault β}
    (hi : i < raw.length) (hf : ∀ w, InBounds (f w)) : InBounds (readAt raw i >>= f) :=
  (inBounds_readAt.mpr hi).bind hf

theorem isOk_of_foldlM {α β : Type} {step : β → α → Except Fault β} {l : List α} {b c : β}
    (h : l.foldlM step b = .ok c) {i : α} (hi : i ∈ l) : ∃ b' c', step b' i = .ok c' := by
  induction l generalizing b with
  | nil => cases hi
  | cons a l ih =>
      rw [List.foldlM_cons] at h
      cases hstep : step b a with
      | error f =>
          rw [hstep] at h
          cases h
      | ok b' =>
          rw [hstep] at h
          rcases List.mem_cons.mp hi with rfl | hi
          · exact ⟨b, b', hstep⟩
          · exact ih h hi

theorem inBounds_mapM {α β : Type} {f : α → Except Fault β} {l : List α}
    (hf : ∀ a ∈ l, InBounds (f a)) : InBounds (l.mapM f) := by
  induction l with
  | nil => exact inBounds_pure []
  | cons a l ih =>
      rw [List.mapM_cons]
      apply (hf a List.mem_cons_self).bind
      intro b
      apply (ih fun a' ha' => hf a' (List.mem_cons_of_mem a ha')).bind
      exact fun bs => inBounds_pure (b :: bs)

namespace StarChipPacket

/-! ## `parse` -/

theorem skipIdles_inBounds (raw : List Nat) (iW : Nat) (h : iW + 1 < raw.length) :
    ∃ next, skipIdles raw iW = .ok next ∧ ∀ j, next = some j → j + 1 < raw.length := by
  rw [skipIdles, List.getElem?_eq_getElem (by omega)]
  dsimp only
  by_cases hidle : raw[iW] = 0x3FF
  · rw [if_pos hidle]
    by_cases hend : iW + 2 ≥ raw.length
    · rw [if_pos hend]
      exact ⟨none, rfl, fun j hj => absurd hj.symm (Option.some_ne_none j)⟩
    · rw [if_neg hend]
      exact skipIdles_inBounds raw (iW + 1) (by omega)
  · rw [if_neg hidle]
    refine ⟨some iW, rfl, ?_⟩
    intro j hj
    cases hj
    exact h
termination_by raw.length - iW

/-- The loop stays inside the words, and does not go back. -/
theorem prlpLoop_inBounds (raw : List Nat) (w : Walk) (hok : w.failed = false) :
    ∃ w', prlpLoop raw w = .ok w' ∧
      (w'.failed = false → w.iW ≤ w'.iW ∧ w'.iW + 1 < raw.length) := by
  have hstep : ∀ v : Walk, v.failed = false → w.iW < v.iW → w.iW + 1 < raw.length →
      ∃ w', prlpLoop raw v = .ok w' ∧
        (w'.failed = false → w.iW ≤ w'.iW ∧ w'.iW + 1 < raw.length) := by
    intro v hv hlt hin
    rcases prlpLoop_inBounds raw v hv with ⟨w', hw', hle⟩
    refine ⟨w', hw', fun hf => ?_⟩
    rcases hle hf with ⟨hle, hend⟩
    exact ⟨by omega, hend⟩
  rw [prlpLoop]
  by_cases hend : w.iW + 1 ≥ raw.length
  · rw [if_pos hend]
    exact ⟨_, rfl, fun hf => by cases hf⟩
  · rw [if_neg hend]
    rcases skipIdles_inBounds raw w.iW (by omega) with ⟨next, hnext, hin⟩
    split
    · next hf => rw [hnext] at hf; cases hf
    · exact ⟨_, rfl, fun hf => by cases hf⟩
    · next iW hskip =>
        rw [hnext] at hskip
        have hlt := hin iW (Except.ok.inj hskip)
        have hle := skipIdles_le (hnext.trans hskip)
        rw [readAt_of_lt (show iW < raw.length by omega), readAt_of_lt hlt]
        dsimp only
        split
        · split
          · exact ⟨_, rfl, fun hf => by cases hf⟩
          · rcases @errorWord_isOk raw iW (by omega) with ⟨e, he⟩
            rw [he]
            exact hstep _ hok (by dsimp only; omega) (by omega)
        · split
          · exact ⟨_, rfl, fun _ => ⟨hle, hlt⟩⟩
          · split
            · exact hstep _ hok (by dsimp only; omega) (by omega)
            · exact hstep _ hok (by dsimp only; omega) (by omega)
termination_by raw.length - w.iW
decreasing_by omega

/-- A method that stays inside the words, and gives an error for fewer than `least`. -/
def Checked (least : Nat) (p : StarChipPacket) (x : Parsed) : Prop :=
  ∃ n q, x = .ok (n, q) ∧ (p.raw_words.length < least → n ≠ 0)

theorem checked_of_inBounds {least : Nat} {p : StarChipPacket} {x : Parsed}
    (hleast : least ≤ p.raw_words.length) (hx : InBounds x) : Checked least p x := by
  rcases hx with ⟨⟨n, q⟩, hx⟩
  exact ⟨n, q, hx, fun hlt => absurd hlt (Nat.not_lt.mpr hleast)⟩

theorem checked_error (least : Nat) (p q : StarChipPacket) : Checked least p (.ok (1, q)) :=
  ⟨1, q, rfl, fun _ => Nat.one_ne_zero⟩

variable (p : StarChipPacket) (hlen : 4 ≤ p.raw_words.length)
include hlen

theorem parse_data_HCC_read_checked : Checked 8 p p.parse_data_HCC_read := by
  unfold parse_data_HCC_read
  by_cases hsize : p.raw_words.length ≠ 8 ∧ (p.raw_words.length - 2) / 4 ≠ 2
  · rw [if_pos hsize]
    exact checked_error 8 p p
  · rw [if_neg hsize]
    have hleast : 8 ≤ p.raw_words.length := by omega
    apply checked_of_inBounds hleast
    unfold word
    repeat apply inBounds_read_bind (by omega); intro _
    exact inBounds_pure _

theorem parse_data_ABC_read_checked : Checked 11 p p.parse_data_ABC_read := by
  unfold parse_data_ABC_read
  by_cases hsize : p.raw_words.length ≠ 11 ∧ (p.raw_words.length - 2) / 4 ≠ 3
  · rw [if_pos hsize]
    exact checked_error 11 p p
  · rw [if_neg hsize]
    have hleast : 11 ≤ p.raw_words.length := by omega
    apply checked_of_inBounds hleast
    unfold word
    repeat apply inBounds_read_bind (by omega); intro _
    exact inBounds_pure _

theorem parse_data_PRLP_checked : Checked 6 p p.parse_data_PRLP := by
  have h1 : p.word 1 = .ok _ := readAt_of_lt (show 1 < p.raw_words.length by omega)
  have h2 : p.word 2 = .ok _ := readAt_of_lt (show 2 < p.raw_words.length by omega)
  rcases prlpLoop_inBounds p.raw_words ⟨false, 3, p.clusters, p.error_block⟩ rfl with
    ⟨walk, hwalk, hend⟩
  unfold parse_data_PRLP
  rw [h1, h2, hwalk]
  change Checked 6 p (if walk.failed then _ else _)
  cases hfailed : walk.failed with
  | true => exact checked_error 6 p _
  | false =>
      refine ⟨_, _, rfl, ?_⟩
      intro hshort
      rcases hend hfailed with ⟨hle, hlt⟩
      dsimp only at hle
      rw [if_pos]
      · exact Nat.one_ne_zero
      · -- the end pattern takes the place of the end symbol
        dsimp only
        omega

omit hlen

theorem parse_data_ABC_transparent_checked :
    Checked 11 p p.parse_data_ABC_transparent ↔ 11 ≤ p.raw_words.length := by
  constructor
  · rintro ⟨n, q, hparsed, hleast⟩
    by_contra hshort
    apply hleast (Nat.lt_of_not_le hshort)
    unfold parse_data_ABC_transparent at hparsed
    cases hw : p.word 1 with
    | error f =>
        rw [hw] at hparsed
        cases hparsed
    | ok w1 =>
        rw [hw] at hparsed
        cases hws : (List.range 8).mapM fun i => p.word (2 + i) with
        | error f =>
            rw [hws] at hparsed
            cases hparsed
        | ok ws =>
            rw [hws] at hparsed
            cases hparsed
            rfl
  · intro hleast
    apply checked_of_inBounds hleast
    unfold parse_data_ABC_transparent
    have hwords : InBounds ((List.range 8).mapM fun i => p.word (2 + i)) := by
      apply inBounds_mapM
      intro i hi
      have hi := List.mem_range.mp hi
      exact inBounds_readAt.mpr (by omega)
    apply inBounds_read_bind (by omega)
    intro w1
    exact hwords.bind fun _ => inBounds_pure _

/-- The type in the first byte. -/
def headerType : Option PacketType :=
  p.raw_words[1]?.bind fun w1 => packet_type_headers ((w1 >>> 4) &&& 0xF)

/-- The words are between a start and an end symbol. -/
def Framed : Prop :=
  4 ≤ p.raw_words.length ∧ p.raw_words.head? = some 0x13C ∧ p.raw_words.getLast? = some 0x1DC

def TooShort : Prop := ∃ type, p.headerType = some type ∧ p.raw_words.length < type.leastBytes + 2

/-- No word is read that is not there, and a packet that is too short gives an error. -/
def ParsesSafely : Prop := ∃ n q, p.parse = .ok (n, q) ∧ (p.TooShort → n ≠ 0)

/-- A wrapped ABC packet without all its bytes. -/
def CutTransparent : Prop :=
  p.Framed ∧ p.headerType = some .abc_transp ∧ p.raw_words.length < 11

/-- The switch over the packet types. -/
def parseAs : PacketType → Parsed
  | .hcc_rr | .hcc_hpr => p.parse_data_HCC_read
  | .abc_rr | .abc_hpr => p.parse_data_ABC_read
  | .lp | .pr => p.parse_data_PRLP
  | .abc_transp => p.parse_data_ABC_transparent
  | _ => .ok (0, p)

theorem parse_framed {p : StarChipPacket} (hframed : p.Framed) :
    (p.headerType = none → ∃ q, p.parse = .ok (1, q)) ∧
      ∀ type, p.headerType = some type →
        ∃ q : StarChipPacket, q.raw_words = p.raw_words ∧ p.parse = q.parseAs type := by
  rcases hframed with ⟨hlen, hhead, hlast⟩
  let q := if p.is_parsed then p.clear_parsed_info else p
  have hq : q.raw_words = p.raw_words := by
    unfold q
    split <;> rfl
  have hparse : p.parse = p.headerType.elim (.ok (1, { q with type := .unknown }))
      fun type => { q with type := type }.parseAs type := by
    unfold parse
    change (if q.raw_words.length < 4 then _ else _) = _
    rw [if_neg (by rw [hq]; omega), if_neg (by rw [hq, hhead]; simp),
      if_neg (by rw [hq, hlast]; simp), word, readAt, hq, headerType,
      List.getElem?_eq_getElem (by omega), Option.bind_some]
    dsimp only [bind, Except.bind]
    cases packet_type_headers _ with
    | none => rfl
    | some type => cases type <;> rfl
  constructor
  · intro htype
    rw [htype] at hparse
    exact ⟨_, hparse⟩
  · intro type htype
    rw [htype] at hparse
    exact ⟨{ q with type := type }, hq, hparse⟩

theorem parse_unframed {p : StarChipPacket} (hframed : ¬p.Framed) :
    ∃ q : StarChipPacket, p.parse = .ok (1, q) := by
  let q := if p.is_parsed then p.clear_parsed_info else p
  have hq : q.raw_words = p.raw_words := by
    unfold q
    split <;> rfl
  refine ⟨q, ?_⟩
  unfold parse
  change (if q.raw_words.length < 4 then _ else _) = _
  rw [hq]
  by_cases hlen : p.raw_words.length < 4
  · rw [if_pos hlen]
  · rw [if_neg hlen]
    by_cases hhead : p.raw_words.head? ≠ some 0x13C
    · rw [if_pos hhead]
    · rw [if_neg hhead]
      by_cases hlast : p.raw_words.getLast? ≠ some 0x1DC
      · rw [if_pos hlast]
      · exact absurd ⟨Nat.le_of_not_lt hlen, not_not.mp hhead, not_not.mp hlast⟩ hframed

theorem parseAs_checked {p : StarChipPacket} (hlen : 4 ≤ p.raw_words.length)
    (type : PacketType) : Checked (type.leastBytes + 2) p (p.parseAs type) ↔
      (type = .abc_transp → 11 ≤ p.raw_words.length) := by
  cases type with
  | hcc_rr | hcc_hpr => exact iff_of_true (p.parse_data_HCC_read_checked hlen) (by simp)
  | abc_rr | abc_hpr => exact iff_of_true (p.parse_data_ABC_read_checked hlen) (by simp)
  | lp | pr => exact iff_of_true (p.parse_data_PRLP_checked hlen) (by simp)
  | abc_transp =>
      exact p.parse_data_ABC_transparent_checked.trans ⟨fun hle _ => hle, fun hle => hle rfl⟩
  | none | abc_full | unknown =>
      exact iff_of_true (checked_of_inBounds (show 3 ≤ p.raw_words.length by omega)
        (inBounds_pure _)) (by simp)

theorem parsesSafely_iff_checked {p : StarChipPacket} {type : PacketType}
    (htype : p.headerType = some type) :
    p.ParsesSafely ↔ Checked (type.leastBytes + 2) p p.parse := by
  have hshort : p.TooShort ↔ p.raw_words.length < type.leastBytes + 2 := by
    unfold TooShort
    rw [htype]
    simp
  unfold ParsesSafely
  rw [hshort]
  rfl

theorem parsesSafely_of_error {p q : StarChipPacket} (hparse : p.parse = .ok (1, q)) :
    p.ParsesSafely := ⟨1, q, hparse, fun _ => Nat.one_ne_zero⟩

theorem checked_congr {least : Nat} {p q : StarChipPacket} {x : Parsed}
    (hq : q.raw_words = p.raw_words) : Checked least p x ↔ Checked least q x := by
  unfold Checked
  rw [hq]

theorem parsesSafely_iff (p : StarChipPacket) : p.ParsesSafely ↔ ¬p.CutTransparent := by
  unfold CutTransparent
  by_cases hframed : p.Framed
  · rcases parse_framed hframed with ⟨hnone, hsome⟩
    cases htype : p.headerType with
    | none =>
        rcases hnone htype with ⟨q, hparse⟩
        simpa using parsesSafely_of_error hparse
    | some type =>
        rcases hsome type htype with ⟨q, hq, hparse⟩
        have hlen : 4 ≤ q.raw_words.length := by
          rw [hq]
          exact hframed.1
        rw [parsesSafely_iff_checked htype, hparse, checked_congr hq, parseAs_checked hlen, hq]
        simp [hframed]
  · rcases parse_unframed hframed with ⟨q, hparse⟩
    simpa [hframed] using parsesSafely_of_error hparse

end StarChipPacket

/-! ## `StarProcessPacket` -/

/-- The bytes that a packet of a type has at least. -/
def StarPacketType.leastBytes : StarPacketType → Nat
  | .hcc_rr | .hcc_hpr => 6
  | .abc_rr | .abc_hpr => 9
  | .lp | .pr => 4
  | .abc_transp => 9
  | .abc_full => 1

def TooFewBytes (b : List Nat) : Prop :=
  ∃ w type, b[0]? = some w ∧ (w >>> 4) &&& 0xf = StarPacketType.header type ∧
    b.length < type.leastBytes

/-- No byte is read that is not there, and a packet that is too short gives an error. -/
def ProcessesSafely (b : List Nat) : Prop :=
  ∃ processed, StarProcessPacket b = .ok processed ∧
    (TooFewBytes b → processed.result = false)

/-- A wrapped ABC packet without all its bytes. -/
def CutTransparentBytes (b : List Nat) : Prop :=
  4 ≤ b.length ∧ b.length < 9 ∧
    ∃ w, b[0]? = some w ∧ (w >>> 4) &&& 0xf = StarPacketType.header .abc_transp

theorem InBounds.map {α β : Type} {x : Except Fault α} (hx : InBounds x) (f : α → β) :
    InBounds (x.map f) := by
  rcases hx with ⟨a, rfl⟩
  exact ⟨f a, rfl⟩

theorem clusterLoop_inBounds (b : List Nat) (iW : Nat) (hpos : 1 ≤ iW) :
    InBounds (clusterLoop b iW) := by
  rw [clusterLoop]
  by_cases hend : iW + 1 > b.length
  · rw [if_pos hend]
    exact inBounds_pure _
  · rw [if_neg hend, readAt_of_lt (show iW - 1 < b.length by omega),
      readAt_of_lt (show iW < b.length by omega)]
    dsimp only
    split
    · split
      · exact inBounds_pure _
      · rcases @errorBlockCalls_isOk b iW (by omega) with ⟨e, he⟩
        rw [he]
        exact (clusterLoop_inBounds b (iW + 8) (by omega)).map _
    · split
      · exact inBounds_pure _
      · split
        · exact (clusterLoop_inBounds b (iW + 2) (by omega)).map _
        · exact (clusterLoop_inBounds b (iW + 2) (by omega)).map _
termination_by b.length - iW

/-- A method that stays inside the bytes, and gives an error for fewer than `least`. -/
def Guarded (least : Nat) (b : List Nat) (x : Except Fault Processed) : Prop :=
  ∃ processed, x = .ok processed ∧ (b.length < least → processed.result = false)

theorem guarded_of_inBounds {least : Nat} {b : List Nat} {x : Except Fault Processed}
    (hleast : least ≤ b.length) (hx : InBounds x) : Guarded least b x := by
  rcases hx with ⟨processed, hx⟩
  exact ⟨processed, hx, fun hlt => absurd hlt (Nat.not_lt.mpr hleast)⟩

theorem guarded_error (least : Nat) (b : List Nat) (message : String) :
    Guarded least b (.ok (.error message)) := ⟨_, rfl, fun _ => rfl⟩

theorem processHccRead_guarded (b : List Nat) (type : StarPacketType) :
    Guarded 6 b (processHccRead b type) := by
  unfold processHccRead
  by_cases hsize : b.length ≠ 6
  · rw [if_pos hsize]
    exact guarded_error 6 b _
  · rw [if_neg hsize]
    apply guarded_of_inBounds (by omega)
    repeat apply inBounds_read_bind (by omega); intro _
    exact inBounds_pure _

theorem processAbcRead_guarded (b : List Nat) (type : StarPacketType) :
    Guarded 9 b (processAbcRead b type) := by
  unfold processAbcRead
  by_cases hsize : b.length ≠ 9
  · rw [if_pos hsize]
    exact guarded_error 9 b _
  · rw [if_neg hsize]
    apply guarded_of_inBounds (by omega)
    repeat apply inBounds_read_bind (by omega); intro _
    exact inBounds_pure _

theorem processPhysics_inBounds {b : List Nat} (hlen : 4 ≤ b.length) (type : StarPacketType) :
    InBounds (processPhysics b type) := by
  unfold processPhysics
  apply inBounds_read_bind (by omega)
  intro b0
  apply inBounds_read_bind (by omega)
  intro b1
  apply (clusterLoop_inBounds b 3 (by omega)).bind
  exact fun _ => inBounds_pure _

theorem processTransparent_inBounds {b : List Nat} (hlen : 1 ≤ b.length) :
    InBounds (processTransparent b) ↔ 9 ≤ b.length := by
  constructor
  · intro hin
    by_contra hshort
    rcases hin with ⟨processed, hprocessed⟩
    unfold processTransparent at hprocessed
    rw [readAt_of_lt (by omega)] at hprocessed
    -- the last byte that is there is not the last one that is read
    have hnone : ∀ bits, ((List.range 8).foldlM (fun bits i => do
        let w ← readAt b (1 + i)
        return ((bits <<< 8) % 2 ^ 64) ||| w) 0 : Except Fault Nat) ≠ .ok bits := by
      intro bits hbits
      have hlast := isOk_of_foldlM (i := b.length - 1) hbits (List.mem_range.mpr (by omega))
      rcases hlast with ⟨c, c', hread⟩
      rw [Nat.add_sub_cancel' hlen, readAt, List.getElem?_eq_none (Nat.le_refl _)] at hread
      cases hread
    cases hbits : ((List.range 8).foldlM (fun bits i => do
        let w ← readAt b (1 + i)
        return ((bits <<< 8) % 2 ^ 64) ||| w) 0 : Except Fault Nat) with
    | error f =>
        rw [hbits] at hprocessed
        cases hprocessed
    | ok bits => exact hnone bits hbits
  · intro hle
    unfold processTransparent
    apply inBounds_read_bind (by omega)
    intro b0
    apply InBounds.bind
    · apply isOk_foldlM
      intro bits i hi
      have hi := List.mem_range.mp hi
      exact inBounds_read_bind (by omega) fun w => inBounds_pure _
    · exact fun bits => inBounds_pure _

theorem processTyped_guarded {b : List Nat} (hlen : 4 ≤ b.length) (type : StarPacketType) :
    Guarded type.leastBytes b (processTyped b type) ↔ (type = .abc_transp → 9 ≤ b.length) := by
  cases type with
  | hcc_rr | hcc_hpr => exact iff_of_true (processHccRead_guarded b _) (by simp)
  | abc_rr | abc_hpr => exact iff_of_true (processAbcRead_guarded b _) (by simp)
  | lp | pr =>
      exact iff_of_true (guarded_of_inBounds hlen (processPhysics_inBounds hlen _)) (by simp)
  | abc_full =>
      exact iff_of_true (guarded_of_inBounds (show 1 ≤ b.length by omega) (inBounds_pure _))
        (by simp)
  | abc_transp =>
      have hbounds := processTransparent_inBounds (show 1 ≤ b.length by omega)
      constructor
      · rintro ⟨processed, hprocessed, _⟩ _
        exact hbounds.mp ⟨processed, hprocessed⟩
      · intro hle
        exact guarded_of_inBounds (hle rfl) (hbounds.mpr (hle rfl))

theorem header_injective {type type' : StarPacketType} (h : type.header = type'.header) :
    type = type' := by
  cases type <;> cases type' <;> first | rfl | cases h

theorem ofCode_header (type : StarPacketType) :
    StarPacketType.ofCode ((type.header &&& 0xe) >>> 1) = type := by
  cases type <;> rfl

variable {b : List Nat} {w : Nat}

theorem processesSafely_of_badType (hlen : 4 ≤ b.length) (hw : b[0]? = some w)
    (htype : ∀ type, StarPacketType.header type ≠ (w >>> 4) &&& 0xf) : ProcessesSafely b := by
  refine ⟨.prepend [.begin] (.error "Bad packet type"), ?_, fun _ => rfl⟩
  unfold StarProcessPacket
  rw [if_neg (Nat.not_lt.mpr hlen), readAt, hw]
  exact if_pos (htype _)

theorem processesSafely_iff_guarded (hlen : 4 ≤ b.length) (hw : b[0]? = some w)
    {type : StarPacketType} (htype : type.header = (w >>> 4) &&& 0xf) :
    ProcessesSafely b ↔ Guarded type.leastBytes b (processTyped b type) := by
  have hprocess : StarProcessPacket b =
      processTyped b type >>= fun processed =>
        .ok (processed.prepend [.begin, .packet_type type]) := by
    unfold StarProcessPacket
    rw [if_neg (Nat.not_lt.mpr hlen), readAt, hw]
    change (if StarPacketType.header _ ≠ _ then _ else _) = _
    rw [← htype, ofCode_header, if_neg (not_not.mpr rfl)]
    rfl
  have hfew : TooFewBytes b ↔ b.length < type.leastBytes := by
    constructor
    · rintro ⟨w', type', hw', htype', hshort⟩
      cases hw.symm.trans hw'
      rwa [← header_injective (htype.trans htype')] at hshort
    · exact fun hshort => ⟨w, type, hw, htype.symm, hshort⟩
  unfold ProcessesSafely Guarded
  rw [hprocess, hfew]
  cases processTyped b type with
  | error f =>
      constructor
      · rintro ⟨_, hprocessed, _⟩
        cases hprocessed
      · rintro ⟨_, hprocessed, _⟩
        cases hprocessed
  | ok processed =>
      constructor
      · rintro ⟨_, hprocessed, hresult⟩
        cases hprocessed
        exact ⟨processed, rfl, hresult⟩
      · rintro ⟨_, hprocessed, hresult⟩
        cases hprocessed
        exact ⟨_, rfl, hresult⟩

theorem processesSafely_iff (b : List Nat) : ProcessesSafely b ↔ ¬CutTransparentBytes b := by
  by_cases hlen : 4 ≤ b.length
  · have hw : b[0]? = some b[0] := List.getElem?_eq_getElem _
    by_cases htype : ∃ type, StarPacketType.header type = (b[0] >>> 4) &&& 0xf
    · rcases htype with ⟨type, htype⟩
      rw [processesSafely_iff_guarded hlen hw htype, processTyped_guarded hlen]
      constructor
      · rintro hle ⟨_, hshort, w, hw', htransp⟩
        cases hw.symm.trans hw'
        have hlong := hle (header_injective (htype.trans htransp))
        omega
      · rintro hnot rfl
        by_contra hshort
        exact hnot ⟨hlen, Nat.lt_of_not_le hshort, _, hw, htype.symm⟩
    · rw [not_exists] at htype
      refine iff_of_true (processesSafely_of_badType hlen hw htype) ?_
      rintro ⟨_, _, w, hw', htransp⟩
      cases hw.symm.trans hw'
      exact htype _ htransp.symm
  · refine iff_of_true ⟨.prepend [.begin] (.error "Not enough words"), ?_, fun _ => rfl⟩
      fun hcut => hlen hcut.1
    exact if_pos (Nat.lt_of_not_le hlen)

/-! ## Both parsers -/

/-- The two parsers are safe for all but wrapped ABC packets that are cut. -/
theorem parsers_safe_iff (p : StarChipPacket) (b : List Nat) :
    (p.ParsesSafely ↔ ¬p.CutTransparent) ∧ (ProcessesSafely b ↔ ¬CutTransparentBytes b) :=
  ⟨p.parsesSafely_iff, processesSafely_iff b⟩

/-- Of a wrapped packet with a single word both parsers read what is not there. -/
theorem cut_transparent_unsafe :
    ({ StarChipPacket.empty with raw_words := [0x13C, 0x70, 0, 0, 0, 0x1DC] }).parse =
        .error .outOfBounds ∧
      StarProcessPacket [0x70, 0, 0, 0] = .error .outOfBounds ∧
      ¬({ StarChipPacket.empty with raw_words := [0x13C, 0x70, 0, 0, 0, 0x1DC] }).ParsesSafely ∧
      ¬ProcessesSafely [0x70, 0, 0, 0] := by
  have hparse : ({ StarChipPacket.empty with
      raw_words := [0x13C, 0x70, 0, 0, 0, 0x1DC] }).parse = .error .outOfBounds := by decide
  have hprocess : StarProcessPacket [0x70, 0, 0, 0] = .error .outOfBounds := by decide
  refine ⟨hparse, hprocess, ?_, ?_⟩
  · rintro ⟨_, _, hok, _⟩
    rw [hparse] at hok
    cases hok
  · rintro ⟨_, hok, _⟩
    rw [hprocess] at hok
    cases hok

end Yarr.Star
