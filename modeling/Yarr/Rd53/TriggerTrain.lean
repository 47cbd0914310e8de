import Mathlib.Data.Finset.Option
import Mathlib.Data.Nat.Bitwise
import Mathlib.Order.Interval.Finset.Nat
import Yarr.Itkpixv2Emu.CommandInterpreter

/-!
# Trains of triggers

A word of the trigger buffer is two trigger commands, each for four bunch
crossings. A train is a stream of ones, cut into commands over consecutive
words; the words are sent from the highest index down.
-/

namespace Yarr.Rd53

/-- Which bit of the pattern of a command is its first bunch crossing. The emulators read the most
significant bit, or say so; the stream of the trigger loops begins with the least significant. -/
inductive BitOrder where
  | lsbFirst
  | msbFirst
  deriving DecidableEq

namespace BitOrder

/-- The bit for a bunch crossing of a command, among those of the whole train. -/
def place : BitOrder → Nat → Nat
  | .lsbFirst, n => n
  | .msbFirst, n => 4 * (n / 4) + (3 - n % 4)

/-- Bunch crossings `a` to `b` that are the same ones when each command is turned around. -/
def Keeps : BitOrder → Nat → Nat → Prop
  | .lsbFirst, _, _ => True
  | .msbFirst, a, b =>
      (a % 4 = 0 ∧ b % 4 = 0) ∨ (a / 4 = (b - 1) / 4 ∧ a % 4 + (b - 1) % 4 = 3)

instance (order : BitOrder) (a b : Nat) : Decidable (order.Keeps a b) := by
  cases order
  · exact inferInstanceAs (Decidable True)
  · exact inferInstanceAs (Decidable (_ ∨ _))

theorem place_lt (order : BitOrder) {n k : Nat} : order.place n < 8 * k ↔ n < 8 * k := by
  cases order with
  | lsbFirst => exact Iff.rfl
  | msbFirst =>
      show 4 * (n / 4) + (3 - n % 4) < 8 * k ↔ _
      omega

theorem place_add (order : BitOrder) (k n : Nat) :
    order.place (4 * k + n) = 4 * k + order.place n := by
  cases order with
  | lsbFirst => rfl
  | msbFirst =>
      show 4 * ((4 * k + n) / 4) + (3 - (4 * k + n) % 4) = 4 * k + (4 * (n / 4) + (3 - n % 4))
      omega

theorem place_lt_four (order : BitOrder) {n : Nat} (hn : n < 4) : order.place n < 4 := by
  cases order with
  | lsbFirst => exact hn
  | msbFirst =>
      show 4 * (n / 4) + (3 - n % 4) < 4
      omega

theorem keeps_shift (order : BitOrder) (k a b : Nat) (hb : 0 < b) :
    order.Keeps (8 * k + a) (8 * k + b) ↔ order.Keeps a b := by
  cases order with
  | lsbFirst => exact Iff.rfl
  | msbFirst =>
      show (_ ∧ _) ∨ (_ ∧ _) ↔ (_ ∧ _) ∨ (_ ∧ _)
      omega

/-- The ones from `a` to `b`, cut after `k` words, are read as they are meant. -/
theorem read_iff (order : BitOrder) {a b k : Nat} (hab : a < b) :
    (∀ n, (n < 8 * k ∧ a ≤ order.place n ∧ order.place n < b) ↔ (a ≤ n ∧ n < b)) ↔
      b ≤ 8 * k ∧ order.Keeps a b := by
  constructor
  · intro h
    have hlast := (h (b - 1)).mpr ⟨by omega, by omega⟩
    refine ⟨by omega, ?_⟩
    cases order with
    | lsbFirst => exact trivial
    | msbFirst =>
        have hfirst := (h a).mpr ⟨by omega, by omega⟩
        have hbefore := h (a - 1)
        have hbehind := h b
        simp only [place] at hlast hfirst hbefore hbehind
        show (_ ∧ _) ∨ (_ ∧ _)
        omega
  · rintro ⟨hle, hkeeps⟩ n
    cases order with
    | lsbFirst =>
        show (n < 8 * k ∧ a ≤ n ∧ n < b) ↔ _
        omega
    | msbFirst =>
        have hkeeps' : (a % 4 = 0 ∧ b % 4 = 0) ∨ (a / 4 = (b - 1) / 4 ∧ a % 4 + (b - 1) % 4 = 3) :=
          hkeeps
        show (n < 8 * k ∧ a ≤ 4 * (n / 4) + (3 - n % 4) ∧ 4 * (n / 4) + (3 - n % 4) < b) ↔ _
        omega

end BitOrder

/-! ## The stream -/

/-- `none`: a shift by the width of the type or more. -/
def bitStream (multiplier : UInt32) : Option UInt64 :=
  (List.range multiplier.toNat).foldlM
    (fun trigStream i =>
      if i < 64 then some (trigStream ||| ((1 : UInt64) <<< UInt64.ofNat i)) else none) 0

def trigStream (multiplier delay : UInt32) : Option UInt64 :=
  (bitStream multiplier).map fun trigStream => trigStream <<< (delay % 8).toUInt64

/-- The four bits from bit `k` on. -/
def bcAt (trigStream : UInt64) (k : Nat) : Option UInt32 :=
  if k < 64 then some ((trigStream >>> UInt64.ofNat k) &&& 0xF).toUInt32 else none

/-- The bits of the stream. -/
def Ones (trigStream : UInt64) (a b : Nat) : Prop :=
  ∀ k, trigStream.toNat.testBit k = decide (a ≤ k ∧ k < b)

theorem toNat_one_shiftLeft {i : Nat} (hi : i < 64) :
    ((1 : UInt64) <<< UInt64.ofNat i).toNat = 2 ^ i := by
  have hsmall : i % 2 ^ 64 = i := Nat.mod_eq_of_lt (by omega)
  have hpow : 2 ^ i < 2 ^ 64 := Nat.pow_lt_pow_right (by omega) hi
  rw [UInt64.toNat_shiftLeft, UInt64.toNat_ofNat', hsmall, Nat.mod_eq_of_lt hi]
  show 1 <<< i % 2 ^ 64 = _
  rw [Nat.one_shiftLeft, Nat.mod_eq_of_lt hpow]

theorem bitStream_go (m : Nat) :
    (m ≤ 64 → ∃ s : UInt64, (List.range m).foldlM
        (fun trigStream i => if i < 64 then some (trigStream ||| ((1 : UInt64) <<< UInt64.ofNat i))
          else none) 0 = some s ∧ Ones s 0 m) ∧
      (64 < m → (List.range m).foldlM
        (fun trigStream i => if i < 64 then some (trigStream ||| ((1 : UInt64) <<< UInt64.ofNat i))
          else none) (0 : UInt64) = none) := by
  induction m with
  | zero =>
      constructor
      · intro _
        refine ⟨0, rfl, ?_⟩
        intro k
        rw [decide_eq_false (by omega)]
        exact Nat.zero_testBit k
      · intro h
        omega
  | succ m ih =>
      simp only [List.range_succ, List.foldlM_append, List.foldlM_cons, List.foldlM_nil]
      constructor
      · intro hm
        obtain ⟨s, hs, hones⟩ := ih.1 (by omega)
        rw [hs]
        refine ⟨s ||| ((1 : UInt64) <<< UInt64.ofNat m), ?_, ?_⟩
        · show (if m < 64 then _ else _ : Option UInt64).bind _ = _
          rw [if_pos (by omega)]
          rfl
        · intro k
          rw [UInt64.toNat_or, Nat.testBit_or, toNat_one_shiftLeft (by omega), hones k,
            Nat.testBit_two_pow, ← Bool.decide_or]
          apply decide_eq_decide.mpr
          omega
      · intro hm
        by_cases hlt : 64 < m
        · rw [ih.2 hlt]
          rfl
        · obtain ⟨s, hs, -⟩ := ih.1 (by omega)
          rw [hs]
          show (if m < 64 then _ else _ : Option UInt64).bind _ = _
          rw [if_neg (by omega)]
          rfl

theorem trigStream_eq_none {multiplier delay : UInt32} (h : 64 < multiplier.toNat) :
    trigStream multiplier delay = none := by
  unfold trigStream bitStream
  rw [(bitStream_go multiplier.toNat).2 h]
  rfl

theorem toNat_delay_mod (delay : UInt32) : (delay % 8).toUInt64.toNat = delay.toNat % 8 := by
  rw [UInt32.toNat_toUInt64, UInt32.toNat_mod]
  rfl

theorem trigStream_ones {multiplier delay : UInt32} (h : multiplier.toNat ≤ 64) :
    ∃ s, trigStream multiplier delay = some s ∧
      Ones s (delay.toNat % 8) (min 64 (delay.toNat % 8 + multiplier.toNat)) := by
  obtain ⟨s, hs, hones⟩ := (bitStream_go multiplier.toNat).1 h
  refine ⟨s <<< (delay % 8).toUInt64, ?_, ?_⟩
  · unfold trigStream bitStream
    rw [hs]
    rfl
  · intro k
    have hmod : delay.toNat % 8 % 64 = delay.toNat % 8 := by omega
    rw [UInt64.toNat_shiftLeft, toNat_delay_mod, hmod, Nat.testBit_mod_two_pow,
      Nat.testBit_shiftLeft, hones, ← Bool.decide_and, ← Bool.decide_and]
    apply decide_eq_decide.mpr
    omega

theorem bcAt_ones {s : UInt64} {a b k : Nat} (hones : Ones s a b) (hk : k < 64) :
    ∃ bc, bcAt s k = some bc ∧ bc.toNat < 16 ∧
      ∀ j < 4, bc.toNat.testBit j = decide (a ≤ k + j ∧ k + j < b) := by
  have hsmall : k % 2 ^ 64 = k := Nat.mod_eq_of_lt (by omega)
  have hvalue : ((s >>> UInt64.ofNat k) &&& 0xF).toUInt32.toNat = (s.toNat >>> k) % 2 ^ 4 := by
    have hmask : (s.toNat >>> k) &&& 15 = (s.toNat >>> k) % 2 ^ 4 :=
      Nat.and_two_pow_sub_one_eq_mod _ 4
    have hlt : (s.toNat >>> k) % 2 ^ 4 < 2 ^ 32 := by omega
    rw [UInt64.toNat_toUInt32, UInt64.toNat_and, UInt64.toNat_shiftRight, UInt64.toNat_ofNat',
      hsmall, Nat.mod_eq_of_lt hk]
    show ((s.toNat >>> k) &&& 15) % 2 ^ 32 = _
    rw [hmask, Nat.mod_eq_of_lt hlt]
  refine ⟨((s >>> UInt64.ofNat k) &&& 0xF).toUInt32, if_pos hk, ?_, ?_⟩
  · rw [hvalue]
    omega
  · intro j hj
    rw [hvalue, Nat.testBit_mod_two_pow, decide_eq_true hj, Bool.true_and, Nat.testBit_shiftRight,
      hones]

/-! ## Words -/

abbrev TrigWords := Vector UInt32 32

def wordAt (words : TrigWords) (j : Nat) : UInt32 := if h : j < 32 then words[j] else 0

/-- `none`: the index is outside the array. -/
def setTrigWord (words : TrigWords) (j : Nat) (word : UInt32) : Option TrigWords :=
  if h : j < 32 then some (words.set j word) else none

theorem wordAt_set (words : TrigWords) {j : Nat} (word : UInt32) (hj : j < 32) (j' : Nat) :
    wordAt (words.set j word hj) j' = if j' = j then word else wordAt words j' := by
  unfold wordAt
  by_cases hj' : j' < 32
  · simp only [dif_pos hj', Vector.getElem_set, eq_comm]
  · rw [if_neg (by omega), dif_neg hj', dif_neg hj']

theorem setTrigWord_of_lt (words : TrigWords) {j : Nat} (word : UInt32) (hj : j < 32) :
    ∃ words', setTrigWord words j word = some words' ∧
      ∀ j', wordAt words' j' = if j' = j then word else wordAt words j' :=
  ⟨words.set j word, dif_pos hj, wordAt_set words word hj⟩

theorem setTrigWord_eq_none (words : TrigWords) {j : Nat} (word : UInt32) (hj : 32 ≤ j) :
    setTrigWord words j word = none := dif_neg (by omega)

/-- The pattern of a command that begins with a symbol. -/
def pattern (symbol : UInt8) : Nat := ((Itkpixv2Emu.lutTriggerPattern.lookup symbol).getD 0).toNat

/-- Whether a word requests a trigger in the bunch crossing `c` of its eight. -/
def readWord (order : BitOrder) (word : UInt32) (c : Nat) : Bool :=
  if c < 4 then (pattern (word >>> 24).toUInt8).testBit (order.place c)
  else (pattern (word >>> 8).toUInt8).testBit (order.place (c - 4))

/-- Whether `size` words that are sent from the highest index down request a trigger in a bunch
crossing. -/
def requests (order : BitOrder) (words : TrigWords) (size p : Nat) : Bool :=
  readWord order (wordAt words (size - 1 - p / 8)) (p % 8)

/-- No command of the word is a trigger. -/
def Silent (word : UInt32) : Prop :=
  pattern (word >>> 24).toUInt8 = 0 ∧ pattern (word >>> 8).toUInt8 = 0

instance (word : UInt32) : Decidable (Silent word) := inferInstanceAs (Decidable (_ ∧ _))

theorem readWord_of_silent {word : UInt32} (h : Silent word) (order : BitOrder) (c : Nat) :
    readWord order word c = false := by
  unfold readWord
  rw [h.1, h.2, Nat.zero_testBit, Nat.zero_testBit, ite_self]

/-! ## Writing a train -/

structure TrigBuffer where
  m_trigWord : TrigWords
  /-- How often an invalid delay was logged. -/
  errors : Nat

/-- What the loops do in their own way for each word of the train. -/
structure Train where
  accepts : Nat → Bool
  index : Nat → Nat
  word : UInt32 → UInt32 → Nat → UInt32

namespace Train

variable (t : Train)

def put (trigStream : UInt64) (s : TrigBuffer) (i : Nat) : Option TrigBuffer :=
  if t.accepts i then
    (bcAt trigStream (2 * i * 4)).bind fun bc1 =>
      (bcAt trigStream (2 * i * 4 + 4)).bind fun bc2 =>
        (setTrigWord s.m_trigWord (t.index i) (t.word bc1 bc2 i)).map fun words =>
          { s with m_trigWord := words }
  else some { s with errors := s.errors + 1 }

def putAll (trigStream : UInt64) (n : Nat) (s : TrigBuffer) : Option TrigBuffer :=
  (List.range n).foldlM (t.put trigStream) s

theorem putAll_succ (trigStream : UInt64) (n : Nat) (s : TrigBuffer) :
    t.putAll trigStream (n + 1) s =
      (t.putAll trigStream n s).bind fun s => t.put trigStream s n := by
  unfold putAll
  rw [List.range_succ, List.foldlM_append]
  simp only [List.foldlM_cons, List.foldlM_nil, bind_pure]
  rfl

theorem putAll_eq_none {trigStream : UInt64} {n i : Nat} (hi : i < n)
    (hput : ∀ s, t.put trigStream s i = none) (s : TrigBuffer) :
    t.putAll trigStream n s = none := by
  induction n with
  | zero => omega
  | succ n ih =>
      rw [putAll_succ]
      by_cases hlt : i < n
      · rw [ih hlt]
        rfl
      · have heq : i = n := by omega
        cases t.putAll trigStream n s with
        | none => rfl
        | some s' => exact heq ▸ hput s'

/-- The commands of a word stand for what they were made of. -/
def Reads : Prop :=
  ∀ bc1 bc2 : UInt32, ∀ i < 8, bc1.toNat < 16 → bc2.toNat < 16 →
    pattern (t.word bc1 bc2 i >>> 24).toUInt8 = bc1.toNat ∧
      pattern (t.word bc1 bc2 i >>> 8).toUInt8 = bc2.toNat

variable {t}

theorem readWord_word (ht : t.Reads) (order : BitOrder) {s : UInt64} {a b i : Nat}
    (hones : Ones s a b) (hi : i < 8) :
    ∃ bc1 bc2, bcAt s (2 * i * 4) = some bc1 ∧ bcAt s (2 * i * 4 + 4) = some bc2 ∧
      ∀ c < 8, readWord order (t.word bc1 bc2 i) c =
        decide (a ≤ order.place (8 * i + c) ∧ order.place (8 * i + c) < b) := by
  obtain ⟨bc1, hbc1, hlt1, hbits1⟩ := bcAt_ones hones (show 2 * i * 4 < 64 by omega)
  obtain ⟨bc2, hbc2, hlt2, hbits2⟩ := bcAt_ones hones (show 2 * i * 4 + 4 < 64 by omega)
  refine ⟨bc1, bc2, hbc1, hbc2, ?_⟩
  intro c hc
  obtain ⟨hread1, hread2⟩ := ht bc1 bc2 i hi hlt1 hlt2
  unfold readWord
  rw [hread1, hread2]
  by_cases hfirst : c < 4
  · have hplace := order.place_add (2 * i) c
    have heq : 8 * i + c = 4 * (2 * i) + c := by omega
    have heq' : 2 * i * 4 + order.place c = 4 * (2 * i) + order.place c := by omega
    rw [if_pos hfirst, hbits1 _ (order.place_lt_four hfirst), heq, hplace, heq']
  · have hplace := order.place_add (2 * i + 1) (c - 4)
    have heq : 8 * i + c = 4 * (2 * i + 1) + (c - 4) := by omega
    have heq' : 2 * i * 4 + 4 + order.place (c - 4) = 4 * (2 * i + 1) + order.place (c - 4) := by
      omega
    rw [if_neg hfirst, hbits2 _ (order.place_lt_four (by omega)), heq, hplace, heq']

/-- The words from `base` down hold the stream, the others are as they were. -/
theorem putAll_spec (ht : t.Reads) {trigStream : UInt64} {a b n base : Nat}
    (hones : Ones trigStream a b) (hn : n ≤ 8) (hacc : ∀ i < n, t.accepts i = true)
    (hindex : ∀ i < n, t.index i = base - i) (hbase : base < 32) (hroom : n ≤ base + 1)
    (s : TrigBuffer) :
    ∃ s', t.putAll trigStream n s = some s' ∧
      (∀ j, ¬(base < j + n ∧ j ≤ base) → wordAt s'.m_trigWord j = wordAt s.m_trigWord j) ∧
      ∀ order j c, base < j + n → j ≤ base → c < 8 →
        readWord order (wordAt s'.m_trigWord j) c =
          decide (a ≤ order.place (8 * (base - j) + c) ∧
            order.place (8 * (base - j) + c) < b) := by
  induction n with
  | zero => exact ⟨s, rfl, fun _ _ => rfl, fun _ _ _ hlow hhigh => by omega⟩
  | succ n ih =>
      obtain ⟨s₁, hs₁, hother, hword⟩ := ih (by omega) (fun i hi => hacc i (by omega))
        (fun i hi => hindex i (by omega)) (by omega)
      obtain ⟨bc1, bc2, hbc1, hbc2, -⟩ :=
        readWord_word ht .lsbFirst hones (show n < 8 by omega)
      obtain ⟨words, hwords, hat⟩ := setTrigWord_of_lt s₁.m_trigWord (t.word bc1 bc2 n)
        (show base - n < 32 by omega)
      refine ⟨{ s₁ with m_trigWord := words }, ?_, ?_, ?_⟩
      · rw [putAll_succ, hs₁]
        show t.put trigStream s₁ n = _
        unfold put
        rw [if_pos (hacc n (Nat.lt_succ_self n)), hbc1, hbc2, hindex n (Nat.lt_succ_self n)]
        show (setTrigWord s₁.m_trigWord (base - n) (t.word bc1 bc2 n)).map _ = _
        rw [hwords]
        rfl
      · intro j hj
        show wordAt words j = _
        rw [hat, if_neg (by omega)]
        exact hother j (by omega)
      · intro order j c hlow hhigh hc
        show readWord order (wordAt words j) c = _
        rw [hat]
        by_cases hlast : j = base - n
        · obtain ⟨bc1', bc2', hbc1', hbc2', hread⟩ :=
            readWord_word ht order hones (show n < 8 by omega)
          rw [hbc1] at hbc1'
          rw [hbc2] at hbc2'
          cases hbc1'
          cases hbc2'
          have hsub : base - j = n := by omega
          rw [if_pos hlast, hread c hc, hsub]
        · rw [if_neg hlast]
          exact hword order j c (by omega) hhigh hc

end Train

/-! ## What is requested -/

/-- All the triggers have room in the words of the train, and their commands are read as they are
meant. -/
def Exact (order : BitOrder) (delay multiplier : UInt32) : Prop :=
  multiplier.toNat = 0 ∨
    (multiplier.toNat < 64 ∧ delay.toNat % 8 + multiplier.toNat % 8 ≤ 8 ∧
      order.Keeps delay.toNat (delay.toNat + multiplier.toNat))

instance (order : BitOrder) (delay multiplier : UInt32) :
    Decidable (Exact order delay multiplier) :=
  inferInstanceAs (Decidable (_ ∨ _))

theorem exact_iff (order : BitOrder) {delay multiplier : UInt32} (h : multiplier.toNat < 64) :
    Exact order delay multiplier ↔
      multiplier.toNat = 0 ∨ (delay.toNat % 8 + multiplier.toNat ≤ 8 * (multiplier.toNat / 8 + 1) ∧
        order.Keeps (delay.toNat % 8) (delay.toNat % 8 + multiplier.toNat)) := by
  unfold Exact
  by_cases hzero : multiplier.toNat = 0
  · exact ⟨fun _ => Or.inl hzero, fun _ => Or.inl hzero⟩
  · have hshift := order.keeps_shift (delay.toNat / 8) (delay.toNat % 8)
      (delay.toNat % 8 + multiplier.toNat) (by omega)
    have hdelay : 8 * (delay.toNat / 8) + delay.toNat % 8 = delay.toNat := by omega
    rw [← Nat.add_assoc, hdelay] at hshift
    rw [hshift]
    constructor
    · rintro (hzero' | ⟨-, hle, hkeeps⟩)
      · exact Or.inl hzero'
      · exact Or.inr ⟨by omega, hkeeps⟩
    · rintro (hzero' | ⟨hle, hkeeps⟩)
      · exact Or.inl hzero'
      · exact Or.inr ⟨h, by omega, hkeeps⟩

/-- A train of `n` words from the bunch crossing `start` on, before a background that is silent
there and in the word behind. -/
theorem requested_iff (order : BitOrder) {requested background : Nat → Bool}
    {start size n a m : Nat} (ha : a < 8) (hn : n = m / 8 + 1) (hn8 : n ≤ 8)
    (hroom : start + 8 * n + 8 ≤ 8 * size)
    (htrain : ∀ p < 8 * size, requested p = if start ≤ p ∧ p < start + 8 * n then
      decide (a ≤ order.place (p - start) ∧ order.place (p - start) < min 64 (a + m))
      else background p)
    (hquiet : ∀ p, start ≤ p → p < start + 8 * n + 8 → background p = false) :
    (∀ p < 8 * size, requested p = true ↔
        (start + a ≤ p ∧ p < start + a + m) ∨ background p = true) ↔
      m = 0 ∨ (a + m ≤ 8 * n ∧ order.Keeps a (a + m)) := by
  have hinside : ∀ q < 8 * n, requested (start + q) = true ↔
      (a ≤ order.place q ∧ order.place q < a + m) := by
    intro q hq
    have hplace := order.place_lt.mpr hq
    rw [htrain (start + q) (by omega), if_pos ⟨by omega, by omega⟩, decide_eq_true_iff,
      Nat.add_sub_cancel_left]
    omega
  have houtside : ∀ p < 8 * size, ¬(start ≤ p ∧ p < start + 8 * n) →
      requested p = background p := fun p hp hout => by rw [htrain p hp, if_neg hout]
  by_cases hzero : m = 0
  · refine ⟨fun _ => Or.inl hzero, fun _ p hp => ?_⟩
    by_cases hin : start ≤ p ∧ p < start + 8 * n
    · have hthis := hinside (p - start) (by omega)
      rw [Nat.add_sub_cancel' hin.1] at hthis
      rw [hthis, hquiet p hin.1 (by omega)]
      simp
      omega
    · rw [houtside p hp hin]
      exact ⟨Or.inr, fun h => h.resolve_left (by omega)⟩
  · have hread := order.read_iff (show a < a + m by omega) (k := n)
    constructor
    · intro h
      apply Or.inr
      apply hread.mp
      intro q
      by_cases hq : q < 8 * n
      · have hthis := h (start + q) (by omega)
        rw [hinside q hq, hquiet (start + q) (by omega) (by omega)] at hthis
        simp only [Bool.false_eq_true, or_false] at hthis
        omega
      · by_cases hnext : q < 8 * n + 8
        · have hthis := h (start + q) (by omega)
          rw [houtside (start + q) (by omega) (by omega),
            hquiet (start + q) (by omega) (by omega)] at hthis
          simp only [Bool.false_eq_true, or_false, false_iff] at hthis
          omega
        · omega
    · intro hcond p hp
      have hall := hread.mpr (hcond.resolve_left hzero)
      have hle := (hcond.resolve_left hzero).1
      by_cases hin : start ≤ p ∧ p < start + 8 * n
      · have hthis := hinside (p - start) (by omega)
        have hq := hall (p - start)
        rw [Nat.add_sub_cancel' hin.1] at hthis
        rw [hthis, hquiet p hin.1 (by omega)]
        simp only [Bool.false_eq_true, or_false]
        omega
      · rw [houtside p hp hin]
        exact ⟨Or.inr, fun h => h.resolve_left (by omega)⟩

/-- The bunch crossings of a train and of one more trigger, or none. -/
theorem card_requested {requested : Nat → Bool} {size first m : Nat} (rearm : Option Nat)
    (hroom : first + m ≤ 8 * size) (hrearm : ∀ r ∈ rearm, first + m ≤ r ∧ r < 8 * size)
    (h : ∀ p < 8 * size, requested p = true ↔ (first ≤ p ∧ p < first + m) ∨ rearm = some p) :
    ((Finset.range (8 * size)).filter fun p => requested p = true).card =
      m + rearm.toList.length := by
  have hset : (Finset.range (8 * size)).filter (fun p => requested p = true) =
      Finset.Ico first (first + m) ∪ rearm.toFinset := by
    ext p
    rw [Finset.mem_filter, Finset.mem_range, Finset.mem_union, Finset.mem_Ico,
      Option.mem_toFinset, Option.mem_def]
    constructor
    · rintro ⟨hp, hreq⟩
      exact (h p hp).mp hreq
    · intro hor
      have hp : p < 8 * size := by
        rcases hor with hin | hr
        · omega
        · exact (hrearm p hr).2
      exact ⟨hp, (h p hp).mpr hor⟩
  have hdisjoint : Disjoint (Finset.Ico first (first + m)) rearm.toFinset := by
    rw [Finset.disjoint_left]
    intro p hin hr
    have hge := (hrearm p (Option.mem_toFinset.mp hr)).1
    rw [Finset.mem_Ico] at hin
    omega
  rw [hset, Finset.card_union_of_disjoint hdisjoint, Nat.card_Ico]
  cases rearm with
  | none => simp
  | some r => simp

end Yarr.Rd53
