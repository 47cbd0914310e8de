import Mathlib.Algebra.Ring.Nat
import Mathlib.Data.List.Infix
import Yarr.Core.Attempts
import Yarr.Core.Periods

/-!
# Transmission of commands

The bytes of the commands are collected and sent when the buffer is asked for. A
buffer beyond the memory of the encoder is cut down to a period, which the
firmware repeats; the number of repetitions is a register of 16 bits.
-/

namespace Yarr.Bdaq

/-- What the command encoder is started with. -/
structure Transmission where
  data : List UInt8
  size : UInt16
  repetitions : UInt16
deriving DecidableEq

/-- The bytes on the line. -/
def Transmission.bytes (t : Transmission) : List UInt8 :=
  (List.replicate t.repetitions.toNat (t.data.take t.size.toNat)).flatten

/-- Why a call does not return: the program ends, or a loop variable overflows. -/
inductive Abort where
  | exit
  | overflow
deriving DecidableEq

structure BdaqTxCore where
  memSize : UInt16
  cmdData : List UInt8
  sent : List Transmission
deriving DecidableEq

namespace BdaqTxCore

def new (memSize : UInt16) : BdaqTxCore := ⟨memSize, [], []⟩

def wordBytes (value : UInt32) : List UInt8 :=
  [(value >>> 24).toUInt8, (value >>> 16).toUInt8, (value >>> 8).toUInt8, value.toUInt8]

variable (tx : BdaqTxCore)

def writeFifo (value : UInt32) : BdaqTxCore :=
  { tx with cmdData := tx.cmdData ++ wordBytes value }

/-- How far the loop over `j` comes: over the places at which the list and itself, shifted by
`n`, agree. -/
def agreeing : List UInt8 → List UInt8 → Nat
  | a :: v, b :: shifted => if a = b then agreeing v shifted + 1 else 0
  | _, _ => 0

def isPeriod (v : List UInt8) (n : Nat) : Bool :=
  if n < v.length then agreeing v (v.drop n) + n == v.length else false

def cmdDataPeriods : List Nat :=
  (List.range' 1 (tx.cmdData.length - 1)).filter fun p =>
    isPeriod tx.cmdData p && tx.cmdData.length % p == 0 && decide (p ≤ 4080)

/-- Set up the encoder and start it. -/
def transmit (data : List UInt8) (repetitions : Nat) : Except Abort BdaqTxCore :=
  if tx.memSize.toNat < data.length then .error .exit
  else .ok { tx with
    cmdData := []
    sent := tx.sent ++ [⟨data, UInt16.ofNat data.length, UInt16.ofNat repetitions⟩] }

/-- The candidates for a period are counted by an `int`. -/
def sendCommand : Except Abort BdaqTxCore :=
  if tx.cmdData.length = 0 then .ok tx
  else if tx.cmdData.length > 4080 then
    if tx.cmdData.length ≥ 2 ^ 31 then .error .overflow
    else
      match tx.cmdDataPeriods with
      | [] => .error .exit
      | p :: _ => tx.transmit (tx.cmdData.take p) (tx.cmdData.length / p)
  else tx.transmit tx.cmdData 1

/-- The buffer is always said to be empty. -/
def isCmdEmpty : Except Abort (BdaqTxCore × Bool) := tx.sendCommand.map fun tx => (tx, true)

inductive Call where
  | writeFifo (value : UInt32)
  | isCmdEmpty
deriving DecidableEq

def exec (tx : BdaqTxCore) : Call → Except Abort BdaqTxCore
  | .writeFifo value => .ok (tx.writeFifo value)
  | .isCmdEmpty => tx.isCmdEmpty.map Prod.fst

def run (calls : List Call) : Except Abort BdaqTxCore := calls.foldlM exec tx

/-- The bytes of the words that are written. -/
def written (calls : List Call) : List UInt8 :=
  calls.flatMap fun call => match call with
    | .writeFifo value => wordBytes value
    | .isCmdEmpty => []

/-- The bytes that have gone out. -/
def transmitted : List UInt8 := tx.sent.flatMap Transmission.bytes

/-! ## Periods -/

theorem agreeing_eq_iff {v shifted : List UInt8} :
    agreeing v shifted = shifted.length ↔ shifted <+: v := by
  induction v generalizing shifted with
  | nil => cases shifted <;> simp [agreeing]
  | cons a v ih =>
      cases shifted with
      | nil => simp [agreeing]
      | cons b shifted =>
          by_cases hab : a = b
          · simp [agreeing, hab, ih]
          · simp [agreeing, hab, List.cons_prefix_cons, Ne.symm hab]

open Periods

theorem isPeriod_iff (v : List UInt8) (n : Nat) :
    isPeriod v n = true ↔ n < v.length ∧ HasPeriod n v := by
  unfold isPeriod HasPeriod
  rw [← agreeing_eq_iff, List.length_drop]
  by_cases hn : n < v.length
  · rw [if_pos hn, beq_iff_eq]
    omega
  · simp [hn]

/-- A period with which the firmware can make a buffer up. -/
structure Repeatable (data : List UInt8) (p : Nat) : Prop where
  small : p ≤ 4080
  divides : p ∣ data.length
  period : HasPeriod p data

variable {tx}

theorem mem_cmdDataPeriods_iff (hlong : 4080 < tx.cmdData.length) (p : Nat) :
    p ∈ tx.cmdDataPeriods ↔ Repeatable tx.cmdData p := by
  unfold cmdDataPeriods
  rw [List.mem_filter, List.mem_range'_1, Bool.and_eq_true, Bool.and_eq_true, isPeriod_iff,
    beq_iff_eq, decide_eq_true_eq, ← Nat.dvd_iff_mod_eq_zero]
  constructor
  · intro h
    exact ⟨h.2.2, h.2.1.2, h.2.1.1.2⟩
  · intro h
    have hpos : 0 < p := Nat.pos_of_dvd_of_pos h.divides (by omega)
    have hsmall := h.small
    exact ⟨⟨hpos, by omega⟩, ⟨⟨by omega, h.period⟩, h.divides⟩, hsmall⟩

/-- The program has to end: there is more than the memory holds, and it is not periodic. -/
def Aborts (data : List UInt8) : Prop := 4080 < data.length ∧ ∀ p, ¬Repeatable data p

/-- The shortest period. -/
structure Shortest (data : List UInt8) (p : Nat) : Prop where
  repeatable : Repeatable data p
  least : ∀ q, Repeatable data q → p ≤ q

theorem cmdDataPeriods_cases (hlong : 4080 < tx.cmdData.length) :
    (tx.cmdDataPeriods = [] ∧ ∀ p, ¬Repeatable tx.cmdData p) ∨
      ∃ p rest, tx.cmdDataPeriods = p :: rest ∧ Shortest tx.cmdData p := by
  cases hperiods : tx.cmdDataPeriods with
  | nil =>
      refine Or.inl ⟨rfl, fun p hp => ?_⟩
      have hmem := (mem_cmdDataPeriods_iff hlong p).mpr hp
      rw [hperiods] at hmem
      cases hmem
  | cons p rest =>
      refine Or.inr ⟨p, rest, rfl, ?_, ?_⟩
      · apply (mem_cmdDataPeriods_iff hlong p).mp
        rw [hperiods]
        exact List.mem_cons_self
      · intro q hq
        have hmem := (mem_cmdDataPeriods_iff hlong q).mpr hq
        have hsorted : tx.cmdDataPeriods.Pairwise (· < ·) := by
          unfold cmdDataPeriods
          exact (List.pairwise_lt_range' 1 (by decide)).filter _
        rw [hperiods] at hmem hsorted
        rcases List.mem_cons.mp hmem with rfl | hrest
        · exact Nat.le_refl _
        · exact Nat.le_of_lt ((List.pairwise_cons.mp hsorted).1 q hrest)

/-! ## What is transmitted -/

theorem bytes_block {data : List UInt8} (hsmall : data.length ≤ 4080) (repetitions : Nat) :
    (⟨data, UInt16.ofNat data.length, UInt16.ofNat repetitions⟩ : Transmission).bytes =
      (List.replicate (repetitions % 2 ^ 16) data).flatten := by
  unfold Transmission.bytes
  simp [UInt16.toNat_ofNat', Nat.mod_eq_of_lt (show data.length < 65536 by omega)]

/-- The buffers that come out whole: the count of the repetitions has to fit its register. -/
def Fits (data : List UInt8) : Prop :=
  4080 < data.length → data.length < 2 ^ 31 ∧
    ∀ p, Shortest data p → data.length / p < 2 ^ 16

/-- The buffer has gone out in blocks that fit the memory. -/
structure SendsAll (tx tx' : BdaqTxCore) : Prop where
  transmitted : tx'.transmitted = tx.transmitted ++ tx.cmdData
  buffer : tx'.cmdData = []
  memSize : tx'.memSize = tx.memSize
  blocks : ∀ t ∈ tx'.sent, t ∈ tx.sent ∨ t.data.length ≤ 4080

theorem transmit_ok (hmem : 4080 ≤ tx.memSize.toNat) {data : List UInt8}
    (hsmall : data.length ≤ 4080) (repetitions : Nat) :
    tx.transmit data repetitions = .ok { tx with
      cmdData := []
      sent := tx.sent ++ [⟨data, UInt16.ofNat data.length, UInt16.ofNat repetitions⟩] } := by
  unfold transmit
  rw [if_neg (by omega)]

theorem transmitted_append (tx : BdaqTxCore) (t : Transmission) :
    ({ tx with cmdData := [], sent := tx.sent ++ [t] } : BdaqTxCore).transmitted =
      tx.transmitted ++ t.bytes := by
  simp [transmitted]

theorem sendsAll_of_bytes {t : Transmission} (ht : t.bytes = tx.cmdData)
    (hsmall : t.data.length ≤ 4080) :
    SendsAll tx { tx with cmdData := [], sent := tx.sent ++ [t] } := by
  refine ⟨?_, rfl, rfl, ?_⟩
  · rw [transmitted_append, ht]
  · intro t' ht'
    rcases List.mem_append.mp ht' with hold | hnew
    · exact Or.inl hold
    · rw [List.mem_singleton.mp hnew]
      exact Or.inr hsmall

theorem Repeatable.length_take {data : List UInt8} {p : Nat} (h : Repeatable data p)
    (hlong : 4080 < data.length) : (data.take p).length = p := by
  have hsmall := h.small
  rw [List.length_take]
  omega

theorem sendCommand_short (hmem : 4080 ≤ tx.memSize.toNat) (hshort : tx.cmdData.length ≤ 4080) :
    ∃ tx', tx.sendCommand = .ok tx' ∧ SendsAll tx tx' := by
  unfold sendCommand
  by_cases hempty : tx.cmdData.length = 0
  · rw [if_pos hempty]
    have hnil := List.length_eq_zero_iff.mp hempty
    exact ⟨tx, rfl, by simp [hnil], hnil, rfl, fun t ht => Or.inl ht⟩
  · rw [if_neg hempty, if_neg (by omega), transmit_ok hmem hshort]
    refine ⟨_, rfl, sendsAll_of_bytes ?_ hshort⟩
    rw [bytes_block hshort]
    simp

theorem sendCommand_periodic (hmem : 4080 ≤ tx.memSize.toNat) (hlong : 4080 < tx.cmdData.length)
    (hint : tx.cmdData.length < 2 ^ 31) {p : Nat} (hp : Repeatable tx.cmdData p) :
    ∃ q, Shortest tx.cmdData q ∧ tx.sendCommand = .ok { tx with
      cmdData := []
      sent := tx.sent ++ [⟨tx.cmdData.take q, UInt16.ofNat (tx.cmdData.take q).length,
        UInt16.ofNat (tx.cmdData.length / q)⟩] } := by
  rcases cmdDataPeriods_cases hlong with ⟨_, hnone⟩ | ⟨q, rest, hperiods, hshortest⟩
  · exact absurd hp (hnone p)
  · have hsmall : (tx.cmdData.take q).length ≤ 4080 := by
      rw [hshortest.repeatable.length_take hlong]
      exact hshortest.repeatable.small
    refine ⟨q, hshortest, ?_⟩
    unfold sendCommand
    rw [if_neg (by omega), if_pos hlong, if_neg (by omega), hperiods]
    exact transmit_ok hmem hsmall _

theorem Shortest.repeated {data : List UInt8} {p : Nat} (h : Shortest data p) :
    (List.replicate (data.length / p) (data.take p)).flatten = data :=
  (h.repeatable.period.eq_repeated (Nat.div_mul_cancel h.repeatable.divides).symm).symm

theorem sendCommand_fits (hmem : 4080 ≤ tx.memSize.toNat) (hfits : Fits tx.cmdData)
    (hgoes : ¬Aborts tx.cmdData) : ∃ tx', tx.sendCommand = .ok tx' ∧ SendsAll tx tx' := by
  by_cases hlong : 4080 < tx.cmdData.length
  · have ⟨hint, hcount⟩ := hfits hlong
    have hperiodic : ∃ p, Repeatable tx.cmdData p := by
      by_contra hno
      exact hgoes ⟨hlong, fun p hp => hno ⟨p, hp⟩⟩
    rcases hperiodic with ⟨p, hp⟩
    rcases sendCommand_periodic hmem hlong hint hp with ⟨q, hshortest, hsend⟩
    have hlen := hshortest.repeatable.length_take hlong
    have hsmall := hshortest.repeatable.small
    refine ⟨_, hsend, sendsAll_of_bytes ?_ (by rw [hlen]; exact hsmall)⟩
    rw [bytes_block (by rw [hlen]; exact hsmall), Nat.mod_eq_of_lt (hcount q hshortest),
      hshortest.repeated]
  · exact sendCommand_short hmem (by omega)

theorem sendCommand_aborts (hfits : Fits tx.cmdData) (h : Aborts tx.cmdData) :
    tx.sendCommand = .error .exit := by
  have hlong := h.1
  unfold sendCommand
  rw [if_neg (by omega), if_pos hlong, if_neg (by have := (hfits hlong).1; omega)]
  rcases cmdDataPeriods_cases hlong with ⟨hnone, _⟩ | ⟨q, rest, hperiods, hshortest⟩
  · rw [hnone]
  · exact absurd hshortest.repeatable (h.2 q)

/-! ## Runs -/

/-- What holds after the calls. -/
structure Kept (calls : List Call) (tx : BdaqTxCore) : Prop where
  bytes : tx.transmitted ++ tx.cmdData = written calls
  blocks : ∀ t ∈ tx.sent, t.data.length ≤ 4080
  nothingLeft : calls.getLast? = some .isCmdEmpty → tx.cmdData = []

/-- A transmission ends the program when it has to, and only then. -/
structure Answers (tx : BdaqTxCore) : Prop where
  exits : tx.sendCommand = .error .exit ↔ Aborts tx.cmdData
  returns : ¬Aborts tx.cmdData → ∃ tx', tx.sendCommand = .ok tx'

/-- The commands go out, up to any point of the calls that is reached. -/
def Transmits (memSize : UInt16) (calls : List Call) : Prop :=
  ∀ p tx, p <+: calls → (new memSize).run p = .ok tx →
    Kept p tx ∧ (p ++ [.isCmdEmpty] <+: calls → Answers tx)

theorem run_concat (p : List Call) (call : Call) {tx' : BdaqTxCore}
    (h : tx.run (p ++ [call]) = .ok tx') : ∃ before, tx.run p = .ok before ∧
      before.exec call = .ok tx' := by
  unfold run at h ⊢
  rw [Attempts.foldlM_concat] at h
  cases hp : p.foldlM exec tx with
  | error e =>
      rw [hp] at h
      cases h
  | ok before =>
      rw [hp] at h
      exact ⟨before, rfl, h⟩

theorem run_concat_ok {p : List Call} {call : Call} {before tx' : BdaqTxCore}
    (hp : tx.run p = .ok before) (hcall : before.exec call = .ok tx') :
    tx.run (p ++ [call]) = .ok tx' := by
  unfold run at hp ⊢
  rw [Attempts.foldlM_concat, hp]
  exact hcall

theorem exec_isCmdEmpty (tx : BdaqTxCore) : tx.exec .isCmdEmpty = tx.sendCommand := by
  show (tx.sendCommand.map fun tx => (tx, true)).map Prod.fst = _
  cases tx.sendCommand <;> rfl

theorem written_concat (p : List Call) (call : Call) :
    written (p ++ [call]) = written p ++ written [call] := by
  simp [written]

theorem answers_of_fits (hmem : 4080 ≤ tx.memSize.toNat) (hfits : Fits tx.cmdData) :
    Answers tx := by
  constructor
  · constructor
    · intro hexit
      by_contra hgoes
      rcases sendCommand_fits hmem hfits hgoes with ⟨tx', hsend, _⟩
      rw [hexit] at hsend
      cases hsend
    · exact sendCommand_aborts hfits
  · intro hgoes
    rcases sendCommand_fits hmem hfits hgoes with ⟨tx', hsend, _⟩
    exact ⟨tx', hsend⟩

/-- Every buffer that is sent along the calls fits. -/
def AllFit (memSize : UInt16) (calls : List Call) : Prop :=
  ∀ p tx, p ++ [.isCmdEmpty] <+: calls → (new memSize).run p = .ok tx → Fits tx.cmdData

theorem kept_of_allFit {memSize : UInt16} (hmem : 4080 ≤ memSize.toNat) {calls : List Call}
    (hfits : AllFit memSize calls) {p : List Call} (hp : p <+: calls) (tx : BdaqTxCore)
    (hrun : (new memSize).run p = .ok tx) : Kept p tx ∧ tx.memSize = memSize := by
  induction p using List.reverseRecOn generalizing tx with
  | nil =>
      cases hrun
      exact ⟨⟨rfl, fun t ht => absurd ht List.not_mem_nil, fun h => by cases h⟩, rfl⟩
  | append_singleton p call ih =>
      rcases run_concat p call hrun with ⟨before, hbefore, hcall⟩
      have ⟨hkept, hsize⟩ := ih ((List.prefix_append p [call]).trans hp) before hbefore
      cases call with
      | writeFifo value =>
          cases hcall
          refine ⟨⟨?_, hkept.blocks, fun h => by simp at h⟩, hsize⟩
          rw [written_concat, ← hkept.bytes]
          simp [written, BdaqTxCore.writeFifo, BdaqTxCore.transmitted]
      | isCmdEmpty =>
          rw [exec_isCmdEmpty] at hcall
          have hfit := hfits p before hp hbefore
          have hgoes : ¬Aborts before.cmdData := by
            intro habort
            rw [sendCommand_aborts hfit habort] at hcall
            cases hcall
          rcases sendCommand_fits (by rw [hsize]; exact hmem) hfit hgoes with ⟨tx', hsend, hall⟩
          obtain rfl := Except.ok.inj (hsend.symm.trans hcall)
          refine ⟨⟨?_, ?_, fun _ => hall.buffer⟩, hall.memSize.trans hsize⟩
          · rw [hall.transmitted, hall.buffer, written_concat, ← hkept.bytes]
            simp [written]
          · intro t ht
            rcases hall.blocks t ht with hold | hnew
            · exact hkept.blocks t hold
            · exact hnew

theorem bytes_lost {data : List UInt8} {p : Nat} (h : Shortest data p) (hlong : 4080 < data.length)
    (hcount : 2 ^ 16 ≤ data.length / p) :
    (⟨data.take p, UInt16.ofNat (data.take p).length,
      UInt16.ofNat (data.length / p)⟩ : Transmission).bytes ≠ data := by
  intro heq
  have hlen := h.repeatable.length_take hlong
  have hsmall := h.repeatable.small
  rw [bytes_block (by rw [hlen]; exact hsmall)] at heq
  have hlength := congrArg List.length heq
  rw [List.length_flatten, List.map_replicate, List.sum_replicate_nat, hlen] at hlength
  have hwhole := Nat.div_mul_cancel h.repeatable.divides
  have hpos : 0 < p := Nat.pos_of_dvd_of_pos h.repeatable.divides (by omega)
  have hless : data.length / p % 2 ^ 16 < data.length / p :=
    Nat.lt_of_lt_of_le (Nat.mod_lt _ (by decide)) hcount
  have hmul := Nat.mul_lt_mul_of_pos_right hless hpos
  omega

theorem transmit_memSize {data : List UInt8} {repetitions : Nat} {tx' : BdaqTxCore}
    (h : tx.transmit data repetitions = .ok tx') : tx'.memSize = tx.memSize := by
  unfold transmit at h
  by_cases hmem : tx.memSize.toNat < data.length
  · rw [if_pos hmem] at h
    cases h
  · rw [if_neg hmem] at h
    cases h
    rfl

theorem sendCommand_memSize {tx' : BdaqTxCore} (h : tx.sendCommand = .ok tx') :
    tx'.memSize = tx.memSize := by
  unfold sendCommand at h
  split at h
  · cases h
    rfl
  · split at h
    · split at h
      · cases h
      · split at h
        · cases h
        · exact transmit_memSize h
    · exact transmit_memSize h

theorem run_memSize {p : List Call} {tx' : BdaqTxCore} (h : tx.run p = .ok tx') :
    tx'.memSize = tx.memSize := by
  induction p using List.reverseRecOn generalizing tx' with
  | nil =>
      cases h
      rfl
  | append_singleton p call ih =>
      rcases run_concat p call h with ⟨before, hbefore, hcall⟩
      rw [← ih hbefore]
      cases call with
      | writeFifo value =>
          cases hcall
          rfl
      | isCmdEmpty =>
          rw [exec_isCmdEmpty] at hcall
          exact sendCommand_memSize hcall

theorem fits_of_transmits {memSize : UInt16} (hmem : 4080 ≤ memSize.toNat) {calls : List Call}
    (h : Transmits memSize calls) : AllFit memSize calls := by
  intro p tx hp hrun hlong
  have hsize : tx.memSize = memSize := run_memSize hrun
  have hbefore := (List.prefix_append p [Call.isCmdEmpty]).trans hp
  have ⟨hkept, hanswers⟩ := h p tx hbefore hrun
  have hanswers := hanswers hp
  have hint : tx.cmdData.length < 2 ^ 31 := by
    by_contra hge
    have hover : tx.sendCommand = .error .overflow := by
      unfold sendCommand
      rw [if_neg (by omega), if_pos hlong, if_pos (by omega)]
    by_cases habort : Aborts tx.cmdData
    · have hexit := hanswers.exits.mpr habort
      rw [hover] at hexit
      cases hexit
    · rcases hanswers.returns habort with ⟨tx', hsend⟩
      rw [hover] at hsend
      cases hsend
  refine ⟨hint, fun p' hshortest => ?_⟩
  by_contra hcount
  rcases sendCommand_periodic (by rw [hsize]; exact hmem) hlong hint hshortest.repeatable with
    ⟨q, hq, hsend⟩
  obtain rfl : p' = q :=
    Nat.le_antisymm (hshortest.least q hq.repeatable) (hq.least p' hshortest.repeatable)
  have hafter := (h _ _ hp (run_concat_ok hrun ((exec_isCmdEmpty tx).trans hsend))).1.bytes
  rw [transmitted_append, written_concat, ← hkept.bytes] at hafter
  apply bytes_lost hshortest hlong (by omega)
  simpa [written] using hafter

/-- All commands go out whole exactly when every buffer that is sent fits. -/
theorem transmits_iff {memSize : UInt16} (hmem : 4080 ≤ memSize.toNat) (calls : List Call) :
    Transmits memSize calls ↔ AllFit memSize calls := by
  constructor
  · exact fits_of_transmits hmem
  · intro hfits p tx hp hrun
    have ⟨hkept, hsize⟩ := kept_of_allFit hmem hfits hp tx hrun
    refine ⟨hkept, fun hnext => answers_of_fits (by rw [hsize]; exact hmem) ?_⟩
    exact hfits p tx hnext hrun

theorem one_word_transmitted : Transmits 4096 [.writeFifo 0x817E817E, .isCmdEmpty] := by
  apply (transmits_iff (by decide) _).mpr
  intro p tx hp hrun hlong
  have hlen := hp.length_le
  rcases p with _ | ⟨call, _ | ⟨call', rest⟩⟩
  · cases hrun
    exact absurd hlong (by decide)
  · obtain rfl : call = .writeFifo 0x817E817E := by simpa using hp
    cases hrun
    exact absurd hlong (by decide)
  · simp at hlen

theorem run_writes (values : List UInt32) (tx : BdaqTxCore) :
    tx.run (values.map .writeFifo) =
      .ok { tx with cmdData := tx.cmdData ++ values.flatMap wordBytes } := by
  induction values generalizing tx with
  | nil =>
      rw [List.flatMap_nil, List.append_nil]
      rfl
  | cons value values ih =>
      show (tx.writeFifo value).run (values.map .writeFifo) = _
      rw [ih]
      simp [writeFifo]

theorem flatMap_replicate_bytes {value : UInt32} {b : UInt8} (hb : wordBytes value = [b, b, b, b])
    (n : Nat) : (List.replicate n value).flatMap wordBytes = List.replicate (4 * n) b := by
  induction n with
  | zero => rfl
  | succ n ih =>
      have hfour : [b, b, b, b] = List.replicate 4 b := rfl
      rw [List.replicate_succ, List.flatMap_cons, ih, hb, hfour, List.replicate_append_replicate,
        Nat.mul_succ, Nat.add_comm]

theorem shortest_replicate {n : Nat} (hn : 0 < n) (b : UInt8) :
    Shortest (List.replicate n b) 1 := by
  constructor
  · refine ⟨by decide, Nat.one_dvd _, ?_⟩
    unfold HasPeriod
    rw [List.drop_replicate]
    exact ⟨[b], by rw [← List.replicate_succ', Nat.sub_add_cancel hn]⟩
  · intro q hq
    exact Nat.pos_of_dvd_of_pos hq.divides (by simpa using hn)

theorem constant_not_transmitted {value : UInt32} {b : UInt8}
    (hb : wordBytes value = [b, b, b, b]) {n : Nat} (hn : 2 ^ 14 ≤ n) :
    ¬Transmits 4096 ((List.replicate n value).map .writeFifo ++ [.isCmdEmpty]) := by
  intro h
  have hfits := fits_of_transmits (by decide) h _ _ (List.prefix_refl _) (run_writes _ _)
  rw [show (new 4096).cmdData = [] from rfl, List.nil_append, flatMap_replicate_bytes hb] at hfits
  have hlong : 4080 < (List.replicate (4 * n) b).length := by
    rw [List.length_replicate]
    omega
  have hcount := (hfits hlong).2 1 (shortest_replicate (by omega) b)
  rw [List.length_replicate] at hcount
  omega

theorem idle_words_lost :
    ¬Transmits 4096 ((List.replicate 16384 0x69696969).map .writeFifo ++ [.isCmdEmpty]) :=
  constant_not_transmitted (b := 0x69) (by decide) (by decide)

end BdaqTxCore

end Yarr.Bdaq
