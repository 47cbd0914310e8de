import Mathlib.Data.List.Nodup
import Yarr.Bdaq.FrameLaws

/-!
# Reassembly over all calls

Words go to the buffer of their channel, each channel is treated on its own, and
its output is delivered under its address. So the account of a channel follows
from what the calls make of its buffers.
-/

namespace Yarr.Bdaq

/-- The words of a channel. -/
def wordsOf (c : UInt32) (words : List UInt32) : List UInt32 :=
  words.filter fun word => rxIdentifier word == c

/-- What was delivered under the address of a channel. -/
def deliveredTo (c : UInt32) (chunks : List Chunk) : List Item :=
  chunks.flatMap fun chunk => if chunk.adr = c then chunk.items else []

namespace BdaqRxCore

def buffer (rx : BdaqRxCore) (c : UInt32) : List UInt32 := (rx.dataMap c).getD []

/-- Words that the program can do something with. -/
def Supported (inBuf : List UInt32) : Prop :=
  ∀ word ∈ inBuf, (TLU word || checkTDC word) = false

/-! ## Buffering -/

variable {rx : BdaqRxCore} {c : UInt32}

/-- Only the buffers are touched. -/
structure SameBut (rx rx' : BdaqRxCore) : Prop where
  chipType : rx'.chipType = rx.chipType
  activeChannels : rx'.activeChannels = rx.activeChannels
  dataMap_copy : rx'.dataMap_copy = rx.dataMap_copy

theorem buffer_foldl (word : UInt32) (channels : List UInt32)
    (dataMap : UInt32 → Option (List UInt32)) (c : UInt32) :
    ((channels.foldl (fun dataMap channelId =>
        if rxIdentifier word = channelId then
          Function.update dataMap channelId (some ((dataMap channelId).getD [] ++ [word]))
        else dataMap) dataMap) c).getD [] =
      (dataMap c).getD [] ++
        if rxIdentifier word = c then List.replicate (channels.count c) word else [] := by
  induction channels generalizing dataMap with
  | nil => by_cases hc : rxIdentifier word = c <;> simp [hc]
  | cons channelId channels ih =>
      rw [List.foldl_cons, ih]
      by_cases hc : c = channelId
      · subst hc
        by_cases hid : rxIdentifier word = c
        · simp [hid, List.replicate_succ]
        · simp [hid]
      · have hne : channelId ≠ c := fun h => hc h.symm
        rw [List.count_cons_of_ne hne]
        by_cases hid : rxIdentifier word = channelId
        · rw [if_pos hid, Function.update_of_ne hc]
        · rw [if_neg hid]

theorem buffer_pushWord (word : UInt32)
    (honce : rx.activeChannels.count c = 1 ∨ rxIdentifier word ≠ c) :
    (rx.pushWord word).buffer c = rx.buffer c ++ wordsOf c [word] := by
  unfold buffer pushWord wordsOf
  rw [buffer_foldl]
  by_cases hc : rxIdentifier word = c
  · rcases honce with hone | hne
    · simp [hc, hone]
    · exact absurd hc hne
  · simp [hc]

theorem pushWords_ok {inBuf : List UInt32} {rx rx' : BdaqRxCore}
    (h : pushWords inBuf rx = .ok rx') : SameBut rx rx' ∧
      ∀ c, (rx.activeChannels.count c = 1 ∨ wordsOf c inBuf = []) →
        rx'.buffer c = rx.buffer c ++ wordsOf c inBuf := by
  induction inBuf generalizing rx with
  | nil =>
      cases h
      exact ⟨⟨rfl, rfl, rfl⟩, fun c _ => by simp [wordsOf]⟩
  | cons word inBuf ih =>
      rw [pushWords] at h
      by_cases hstop : (TLU word || checkTDC word) = true
      · rw [if_pos hstop] at h
        cases h
      · rw [if_neg hstop] at h
        have ⟨hsame, hbuffer⟩ := ih h
        refine ⟨⟨hsame.chipType, hsame.activeChannels, hsame.dataMap_copy⟩, ?_⟩
        intro c honce
        have hsplit : wordsOf c (word :: inBuf) = wordsOf c [word] ++ wordsOf c inBuf := by
          unfold wordsOf
          rw [← List.filter_append]
          rfl
        have hfirst : rx.activeChannels.count c = 1 ∨ rxIdentifier word ≠ c := by
          rcases honce with hone | hnone
          · exact Or.inl hone
          · refine Or.inr fun hc => ?_
            rw [hsplit] at hnone
            simp [wordsOf, hc] at hnone
        have hrest : (rx.pushWord word).activeChannels.count c = 1 ∨ wordsOf c inBuf = [] := by
          rcases honce with hone | hnone
          · exact Or.inl hone
          · rw [hsplit] at hnone
            exact Or.inr (List.append_eq_nil_iff.mp hnone).2
        rw [hbuffer c hrest, buffer_pushWord word hfirst, hsplit, List.append_assoc]

/-! ## Delivery -/

theorem deliveredTo_append (c : UInt32) (xs ys : List Chunk) :
    deliveredTo c (xs ++ ys) = deliveredTo c xs ++ deliveredTo c ys := by
  simp [deliveredTo]

theorem deliveredTo_collect (chipType : ChipType) (channels : List UInt32)
    (copy : UInt32 → List Item) (c : UInt32) :
    deliveredTo c (collect chipType channels copy) = if c ∈ channels then copy c else [] := by
  induction channels generalizing copy with
  | nil => simp [collect, deliveredTo]
  | cons channelId channels ih =>
      have hrest := ih (Function.update copy channelId [])
      rw [collect]
      by_cases hskip : chipType = .ItkPixV1 ∧ copy channelId = []
      · rw [if_pos hskip, hrest]
        by_cases hc : c = channelId
        · subst hc
          simp [hskip.2]
        · simp [hc]
      · rw [if_neg hskip]
        show (if channelId = c then copy channelId else []) ++ deliveredTo c _ = _
        rw [hrest]
        by_cases hc : c = channelId
        · subst hc
          simp
        · have hne : channelId ≠ c := fun h => hc h.symm
          simp [hc, hne]

/-! ## Calls -/

/-- Between the calls nothing is left in the outputs. -/
structure Between (chipType : ChipType) (channels : List UInt32) (rx : BdaqRxCore) : Prop where
  chipType : rx.chipType = chipType
  activeChannels : rx.activeChannels = channels
  noOutput : ∀ c, rx.dataMap_copy c = []
  active : ∀ c, c ∉ channels → rx.dataMap c = none

variable {chipType : ChipType} {channels : List UInt32}

theorem dataMap_foldl (word : UInt32) {channels : List UInt32}
    (dataMap : UInt32 → Option (List UInt32)) (hc : c ∉ channels) :
    channels.foldl (fun dataMap channelId =>
        if rxIdentifier word = channelId then
          Function.update dataMap channelId (some ((dataMap channelId).getD [] ++ [word]))
        else dataMap) dataMap c = dataMap c := by
  induction channels generalizing dataMap with
  | nil => rfl
  | cons channelId channels ih =>
      rw [List.mem_cons, not_or] at hc
      rw [List.foldl_cons, ih _ hc.2]
      by_cases hid : rxIdentifier word = channelId
      · rw [if_pos hid, Function.update_of_ne hc.1]
      · rw [if_neg hid]

theorem dataMap_pushWords {inBuf : List UInt32} {rx rx' : BdaqRxCore}
    (h : pushWords inBuf rx = .ok rx') (hc : c ∉ rx.activeChannels) :
    rx'.dataMap c = rx.dataMap c := by
  induction inBuf generalizing rx with
  | nil =>
      cases h
      rfl
  | cons word inBuf ih =>
      rw [pushWords] at h
      by_cases hstop : (TLU word || checkTDC word) = true
      · rw [if_pos hstop] at h
        cases h
      · rw [if_neg hstop] at h
        rw [ih h hc]
        exact dataMap_foldl word rx.dataMap hc

theorem collect_adr (chipType : ChipType) (channels : List UInt32) (copy : UInt32 → List Item) :
    ∀ chunk ∈ collect chipType channels copy, chunk.adr ∈ channels := by
  induction channels generalizing copy with
  | nil => exact fun chunk hchunk => absurd hchunk List.not_mem_nil
  | cons channelId channels ih =>
      intro chunk hchunk
      rw [collect] at hchunk
      split at hchunk
      · exact List.mem_cons_of_mem channelId (ih _ chunk hchunk)
      · rcases List.mem_cons.mp hchunk with rfl | hrest
        · exact List.mem_cons_self
        · exact List.mem_cons_of_mem channelId (ih _ chunk hrest)

theorem accounted_nothing (chipType : ChipType) : Accounted chipType [] [] [] :=
  ⟨rfl, Nat.zero_le _, rfl, rfl⟩

theorem clean_nil (chipType : ChipType) : Clean chipType [] := by
  cases chipType <;> exact Or.inl (by simp)

theorem readData_eq {inBuf : List UInt32} (hne : inBuf ≠ []) (rx : BdaqRxCore) :
    rx.readData inBuf = (pushWords inBuf rx).map fun rx =>
      (collect rx.sortAll.chipType rx.sortAll.activeChannels rx.sortAll.dataMap_copy,
        rx.sortAll.leftOutputs) := by
  cases inBuf with
  | nil => exact absurd rfl hne
  | cons word inBuf => rfl

theorem readData_ok (hrx : Between chipType channels rx) {inBuf : List UInt32}
    (hne : inBuf ≠ []) {chunks : List Chunk} {rx' : BdaqRxCore}
    (h : rx.readData inBuf = .ok (chunks, rx')) :
    Between chipType channels rx' ∧ (∀ chunk ∈ chunks, chunk.adr ∈ channels) ∧
      ∀ c ∈ channels, (channels.count c = 1 ∨ wordsOf c inBuf = []) →
        (Accounted chipType (rx.buffer c ++ wordsOf c inBuf) (deliveredTo c chunks)
            (rx'.buffer c) ↔
          Clean chipType (rx.buffer c ++ wordsOf c inBuf)) := by
  rw [readData_eq hne] at h
  cases hpush : pushWords inBuf rx with
  | error e =>
      rw [hpush] at h
      cases h
  | ok pushed =>
      rw [hpush] at h
      cases h
      have ⟨hsame, hbuffer⟩ := pushWords_ok hpush
      have hchip : pushed.chipType = chipType := hsame.chipType.trans hrx.chipType
      have hchannels : pushed.activeChannels = channels :=
        hsame.activeChannels.trans hrx.activeChannels
      have hcopy (c : UInt32) : pushed.dataMap_copy c = [] := by
        rw [hsame.dataMap_copy]
        exact hrx.noOutput c
      have hinactive (c : UInt32) (hc : c ∉ channels) : pushed.dataMap c = none := by
        rw [dataMap_pushWords hpush (by rwa [hrx.activeChannels])]
        exact hrx.active c hc
      refine ⟨⟨hchip, hchannels, ?_, ?_⟩, ?_, ?_⟩
      · intro c
        have hactive : pushed.sortAll.activeChannels = channels := hchannels
        unfold leftOutputs
        dsimp only
        cases pushed.sortAll.chipType with
        | ItkPixV1 => rfl
        | RD53A =>
            dsimp only
            rw [hactive]
            by_cases hc : c ∈ channels
            · rw [if_pos hc]
            · rw [if_neg hc]
              unfold sortAll
              dsimp only
              rw [hinactive c hc]
              exact hcopy c
      · intro c hc
        show (pushed.dataMap c).map _ = none
        rw [hinactive c hc]
        rfl
      · intro chunk hchunk
        rw [← hchannels]
        exact collect_adr _ _ _ chunk hchunk
      · intro c hc honce
        rw [hrx.activeChannels] at hbuffer
        rw [← hbuffer c honce, deliveredTo_collect]
        show Accounted _ _ (if c ∈ pushed.activeChannels then _ else _) _ ↔ _
        rw [hchannels, if_pos hc]
        unfold buffer leftOutputs sortAll
        dsimp only
        cases hmap : pushed.dataMap c with
        | none =>
            simp only [Option.map_none, Option.getD_none, hcopy c]
            exact iff_of_true (accounted_nothing chipType) (clean_nil chipType)
        | some words =>
            simp only [Option.map_some, Option.getD_some, hcopy c, hchip]
            exact sort_clean chipType words

/-! ## Runs -/

/-- What is due of the words that were read, for every active channel and no other. -/
structure Reassembled (chipType : ChipType) (channels words : List UInt32) (r : Readout) :
    Prop where
  accounted : ∀ c ∈ channels, Accounted chipType (wordsOf c words) (deliveredTo c r.delivered)
    (r.rx.buffer c)
  addressed : ∀ chunk ∈ r.delivered, chunk.adr ∈ channels

def Reassembles (chipType : ChipType) (channels : List UInt32) (fifos : List (List UInt32)) :
    Prop :=
  ∀ p r, p <+: fifos → (new chipType channels).run p = .ok r →
    Reassembled chipType channels p.flatten r

/-- Every call finds clean buffers, and words only for channels that are listed once. -/
def AllClean (chipType : ChipType) (channels : List UInt32) (fifos : List (List UInt32)) : Prop :=
  ∀ p inBuf r, p ++ [inBuf] <+: fifos → (new chipType channels).run p = .ok r →
    inBuf ≠ [] → Supported inBuf → ∀ c ∈ channels,
      (channels.count c = 1 ∨ wordsOf c inBuf = []) ∧
        Clean chipType (r.rx.buffer c ++ wordsOf c inBuf)

theorem pushWords_ok_iff (inBuf : List UInt32) (rx : BdaqRxCore) :
    (∃ rx', pushWords inBuf rx = .ok rx') ↔ Supported inBuf := by
  unfold Supported
  induction inBuf generalizing rx with
  | nil => exact iff_of_true ⟨rx, rfl⟩ fun word hword => absurd hword List.not_mem_nil
  | cons word inBuf ih =>
      rw [pushWords, List.forall_mem_cons]
      by_cases hstop : (TLU word || checkTDC word) = true
      · rw [if_pos hstop]
        simp [hstop]
      · rw [if_neg hstop, ih]
        simp [hstop]

theorem supported_of_readData {inBuf : List UInt32} (hne : inBuf ≠ []) {rx : BdaqRxCore}
    {result : List Chunk × BdaqRxCore} (h : rx.readData inBuf = .ok result) :
    Supported inBuf := by
  rw [readData_eq hne] at h
  apply (pushWords_ok_iff inBuf rx).mp
  cases hpush : pushWords inBuf rx with
  | error e =>
      rw [hpush] at h
      cases h
  | ok pushed => exact ⟨pushed, rfl⟩

theorem readData_of_supported {inBuf : List UInt32} (hne : inBuf ≠ []) (rx : BdaqRxCore)
    (h : Supported inBuf) : ∃ result, rx.readData inBuf = .ok result := by
  rcases (pushWords_ok_iff inBuf rx).mpr h with ⟨pushed, hpush⟩
  rw [readData_eq hne, hpush]
  exact ⟨_, rfl⟩

theorem call_eq {r r' : Readout} {inBuf : List UInt32} (h : call r inBuf = .ok r') :
    ∃ chunks rx', r.rx.readData inBuf = .ok (chunks, rx') ∧
      r' = ⟨r.delivered ++ chunks, rx'⟩ := by
  unfold call at h
  cases hread : r.rx.readData inBuf with
  | error e =>
      rw [hread] at h
      cases h
  | ok result =>
      rw [hread] at h
      exact ⟨result.1, result.2, rfl, (Except.ok.inj h).symm⟩

theorem run_concat {p : List (List UInt32)} {inBuf : List UInt32} {r' : Readout}
    (h : rx.run (p ++ [inBuf]) = .ok r') :
    ∃ r, rx.run p = .ok r ∧ call r inBuf = .ok r' := by
  unfold run at h ⊢
  rw [Attempts.foldlM_concat] at h
  cases hp : p.foldlM call ⟨[], rx⟩ with
  | error e =>
      rw [hp] at h
      cases h
  | ok r =>
      rw [hp] at h
      exact ⟨r, rfl, h⟩

theorem run_concat_ok {p : List (List UInt32)} {inBuf : List UInt32} {r r' : Readout}
    (hp : rx.run p = .ok r) (hcall : call r inBuf = .ok r') : rx.run (p ++ [inBuf]) = .ok r' := by
  unfold run at hp ⊢
  rw [Attempts.foldlM_concat, hp]
  exact hcall

theorem between_new (chipType : ChipType) (channels : List UInt32) :
    Between chipType channels (new chipType channels) :=
  ⟨rfl, rfl, fun _ => rfl, fun _ _ => rfl⟩

theorem between_run {p : List (List UInt32)} {r : Readout}
    (h : (new chipType channels).run p = .ok r) : Between chipType channels r.rx := by
  induction p using List.reverseRecOn generalizing r with
  | nil =>
      cases h
      exact between_new chipType channels
  | append_singleton p inBuf ih =>
      rcases run_concat h with ⟨before, hbefore, hcall⟩
      rcases call_eq hcall with ⟨chunks, rx', hread, rfl⟩
      by_cases hne : inBuf = []
      · subst hne
        cases hread
        have hsame : Between chipType channels before.rx := ih hbefore
        exact hsame
      · exact (readData_ok (ih hbefore) hne hread).1

theorem wordsOf_flatten_concat (c : UInt32) (p : List (List UInt32)) (inBuf : List UInt32) :
    wordsOf c (p ++ [inBuf]).flatten = wordsOf c p.flatten ++ wordsOf c inBuf := by
  simp [wordsOf]

theorem reassembles_of_clean {fifos : List (List UInt32)}
    (hclean : AllClean chipType channels fifos) : Reassembles chipType channels fifos := by
  intro p r hp hrun
  induction p using List.reverseRecOn generalizing r with
  | nil =>
      cases hrun
      exact ⟨fun c _ => accounted_nothing chipType, fun chunk h => absurd h List.not_mem_nil⟩
  | append_singleton p inBuf ih =>
      rcases run_concat hrun with ⟨before, hbefore, hcall⟩
      have hkept := ih before ((List.prefix_append p [inBuf]).trans hp) hbefore
      rcases call_eq hcall with ⟨chunks, rx', hread, rfl⟩
      by_cases hne : inBuf = []
      · subst hne
        cases hread
        simpa using hkept
      · have ⟨_, haddressed, hcalls⟩ := readData_ok (between_run hbefore) hne hread
        have hthis := hclean p inBuf before hp hbefore hne (supported_of_readData hne hread)
        constructor
        · intro c hc
          have ⟨honce, hbuffer⟩ := hthis c hc
          rw [wordsOf_flatten_concat, deliveredTo_append]
          exact (hkept.accounted c hc).trans ((hcalls c hc honce).mpr hbuffer)
        · intro chunk hchunk
          rcases List.mem_append.mp hchunk with hold | hnew
          · exact hkept.addressed chunk hold
          · exact haddressed chunk hnew

theorem clean_of_reassembles {fifos : List (List UInt32)} (hnodup : channels.Nodup)
    (h : Reassembles chipType channels fifos) : AllClean chipType channels fifos := by
  intro p inBuf r hp hrun hne hsupported c hc
  have hone : channels.count c = 1 := List.count_eq_one_of_mem hnodup hc
  rcases readData_of_supported hne r.rx hsupported with ⟨⟨chunks, rx'⟩, hread⟩
  have hcall : call r inBuf = .ok ⟨r.delivered ++ chunks, rx'⟩ := by
    unfold call
    rw [hread]
    rfl
  have hbefore := (h p r ((List.prefix_append p [inBuf]).trans hp) hrun).accounted c hc
  have hafter := (h _ _ hp (run_concat_ok hrun hcall)).accounted c hc
  rw [wordsOf_flatten_concat, deliveredTo_append] at hafter
  have ⟨_, _, hcalls⟩ := readData_ok (between_run hrun) hne hread
  exact ⟨Or.inl hone, (hcalls c hc (Or.inl hone)).mp (hbefore.call hafter)⟩

/-- If every call finds clean buffers all that is due is delivered, and if no channel is listed
twice only then. -/
theorem reassembles_iff_clean (chipType : ChipType) (channels : List UInt32)
    (fifos : List (List UInt32)) :
    (AllClean chipType channels fifos → Reassembles chipType channels fifos) ∧
      (channels.Nodup → Reassembles chipType channels fifos →
        AllClean chipType channels fifos) :=
  ⟨reassembles_of_clean, clean_of_reassembles⟩

/-- Three data words; the last payload is kept. -/
def threeWords : List UInt32 := [0x00010012, 0x00000034, 0x00000056]

theorem threeWords_reassembled : Reassembles .RD53A [0] [threeWords] := by
  apply (reassembles_iff_clean .RD53A [0] [threeWords]).1
  intro p inBuf r hp hrun _ _ c hc
  have hlen := hp.length_le
  rcases p with _ | ⟨_, _⟩
  · cases hrun
    obtain rfl : inBuf = threeWords := by simpa using hp
    obtain rfl := List.mem_singleton.mp hc
    refine ⟨Or.inl rfl, Or.inl ?_⟩
    intro word hword
    change word ∈ [0x00010012, 0x00000034] at hword
    simp only [List.mem_cons, List.not_mem_nil, or_false] at hword
    rcases hword with rfl | rfl
    · decide
    · decide
  · simp at hlen

/-- A frame that carries two registers. -/
def twoRegisters : List UInt32 := [0x01000000, 0x01000100, 0x01000002, 0x01000004]

theorem twoRegisters_not_reassembled : ¬Reassembles .RD53A [0] [twoRegisters] := by
  intro h
  have hrecords := ((h _ _ (List.prefix_refl _) rfl).accounted 0 (by decide)).records
  revert hrecords
  decide

end BdaqRxCore

end Yarr.Bdaq
