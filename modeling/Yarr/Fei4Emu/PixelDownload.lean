import Mathlib.Tactic.FinCases
import Yarr.Fei4.Fei4
import Yarr.Fei4Emu.Fei4Emu

/-!
# Downloading the pixel registers of the FE-I4

The words of `configurePixels` put one plane after the other into the shift
register of its double column and latch it there. The emulator that executes
them has the registers of the software after each word of a register.
-/

namespace Yarr.Fei4

open Fei4Register

/-! ## Planes -/

namespace Plane

/-- The planes of all double columns. -/
def planes : Fields Fei4PixelCfg (Fin n_DC × Plane) DoubleColumnBit where
  get cfg k := k.2.get cfg k.1
  set cfg k storage := k.2.set cfg k.1 storage
  Valid _ _ := True

theorem get_set (cfg : Fei4PixelCfg) (dc dc' : Fin n_DC) (storage : DoubleColumnBit)
    (p q : Plane) :
    q.get (p.set cfg dc storage) dc' = if dc = dc' ∧ p = q then storage else q.get cfg dc' := by
  by_cases hdc : dc = dc'
  · subst hdc
    cases p <;> cases q <;> simp [Plane.get, Plane.set, Vector.getElem_set, Fin.ext_iff]
  · have hne : ¬(dc = dc' ∧ p = q) := fun h => hdc h.1
    have hval : dc.val ≠ dc'.val := fun h => hdc (Fin.ext h)
    rw [if_neg hne]
    cases p <;> cases q <;> simp [Plane.get, Plane.set, hval]

theorem planes_independent : planes.Independent where
  get_set cfg k storage _ := (get_set cfg k.1 k.1 storage k.2 k.2).trans (if_pos ⟨rfl, rfl⟩)
  get_set_ne cfg k k' storage _ hne :=
    (get_set cfg k.1 k'.1 storage k.2 k'.2).trans
      (if_neg fun h => hne (Prod.ext h.1.symm h.2.symm))
  valid_get _ _ := trivial

theorem getCfg_eq (cfg : Fei4PixelCfg) (dc : Fin n_DC) (bit : Fin 13) :
    cfg.getCfg bit dc = some ((bitReg bit).get cfg dc) := by
  fin_cases bit <;> rfl

theorem bitReg_injective : Function.Injective bitReg := by decide

end Plane

/-! ## Executing words -/

namespace Fei4Emu

/-- The emulator takes the words off the ring buffer and ends in `emu'`, whatever comes after
them. -/
def Executes (emu : Fei4Emu) (words : List UInt32) (emu' : Fei4Emu) : Prop :=
  ∃ turns ≤ words.length, ∀ responses : List PixelResponse, responses.length = turns →
    ∀ rest, executeLoop responses (emu, words ++ rest) = some (emu', rest)

theorem executeLoop_append (responses responses' : List PixelResponse)
    (s : Fei4Emu × List UInt32) :
    executeLoop (responses ++ responses') s =
      (executeLoop responses s).bind (executeLoop responses') := by
  unfold executeLoop
  rw [List.foldlM_append]
  rfl

theorem Executes.refl (emu : Fei4Emu) : emu.Executes [] emu := by
  refine ⟨0, Nat.le_refl 0, fun responses hlen rest => ?_⟩
  rw [List.eq_nil_of_length_eq_zero hlen]
  rfl

theorem Executes.trans {emu emu' emu'' : Fei4Emu} {words words' : List UInt32}
    (h : emu.Executes words emu') (h' : emu'.Executes words' emu'') :
    emu.Executes (words ++ words') emu'' := by
  obtain ⟨turns, hle, hrun⟩ := h
  obtain ⟨turns', hle', hrun'⟩ := h'
  refine ⟨turns + turns', ?_, fun responses hlen rest => ?_⟩
  · rw [List.length_append]
    exact Nat.add_le_add hle hle'
  · have htake : (responses.take turns).length = turns := by
      rw [List.length_take, hlen, Nat.min_eq_left (Nat.le_add_right _ _)]
    have hdrop : (responses.drop turns).length = turns' := by
      rw [List.length_drop, hlen, Nat.add_sub_cancel_left]
    rw [← List.take_append_drop turns responses, executeLoop_append, List.append_assoc,
      hrun _ htake, Option.bind_some, hrun' _ hdrop]

theorem Executes.turn {emu emu' : Fei4Emu} {words : List UInt32} (hne : words ≠ [])
    (h : ∀ response rest, emu.executeTurn response (words ++ rest) = some (emu', rest)) :
    emu.Executes words emu' := by
  refine ⟨1, List.length_pos_of_ne_nil hne, fun responses hlen rest => ?_⟩
  obtain ⟨response, rfl⟩ := List.length_eq_one_iff.mp hlen
  unfold executeLoop
  rw [List.foldlM_cons, h response rest]
  rfl

theorem executeLoop_nil (emu : Fei4Emu) (responses : List PixelResponse) :
    executeLoop responses (emu, []) = some (emu, []) := by
  induction responses with
  | nil => rfl
  | cons response responses ih =>
      unfold executeLoop at ih ⊢
      rw [List.foldlM_cons]
      exact ih

theorem Executes.run {emu emu' : Fei4Emu} {words : List UInt32} (h : emu.Executes words emu')
    {responses : List PixelResponse} (hlen : words.length ≤ responses.length) :
    executeLoop responses (emu, words) = some (emu', []) := by
  obtain ⟨turns, hle, hrun⟩ := h
  have htake : (responses.take turns).length = turns := by
    rw [List.length_take, Nat.min_eq_left (Nat.le_trans hle hlen)]
  have hfirst := hrun _ htake []
  rw [List.append_nil] at hfirst
  rw [← List.take_append_drop turns responses, executeLoop_append, hfirst, Option.bind_some,
    executeLoop_nil]

/-! ## Decoding commands -/

theorem decode_command {command : UInt32} {name chip low : Nat} (hname : name < 16)
    (hchip : chip < 16) (hlow : low < 64)
    (h : command.toNat = 0x5A0000 + 1024 * name + 64 * chip + low) :
    command >>> (14 : UInt32) = 0x0168 ∧
      (command >>> (10 : UInt32)) &&& 0xF = UInt32.ofNat name ∧
      command &&& 0x3F = UInt32.ofNat low := by
  have hand (x k : Nat) : x &&& (2 ^ k - 1) = x % 2 ^ k := Nat.and_two_pow_sub_one_eq_mod x k
  refine ⟨?_, ?_, ?_⟩
  · apply UInt32.toNat_inj.mp
    show command.toNat >>> 14 = 0x168
    rw [h, Nat.shiftRight_eq_div_pow]
    omega
  · apply UInt32.toNat_inj.mp
    show command.toNat >>> 10 &&& (2 ^ 4 - 1) = name % 2 ^ 32
    rw [h, hand, Nat.shiftRight_eq_div_pow]
    omega
  · apply UInt32.toNat_inj.mp
    show command.toNat &&& (2 ^ 6 - 1) = low % 2 ^ 32
    rw [h, hand]
    omega

theorem toNat_chipField (fe : Fei4) : ∃ chip < 16, fe.chipField.toNat = 64 * chip := by
  refine ⟨fe.chipId.toNat % 16, Nat.mod_lt _ (by omega), ?_⟩
  have hmask : (fe.chipId.toNat <<< 6) % 2 ^ 32 &&& (15 <<< 6) =
      (((fe.chipId.toNat <<< 6) % 2 ^ 32) >>> 6 &&& 15) <<< 6 := Bits.and_shiftLeft _ 15 6
  show (fe.chipId.toNat <<< 6) % 2 ^ 32 &&& (15 <<< 6) = 64 * (fe.chipId.toNat % 16)
  rw [hmask, show (15 : Nat) = 2 ^ 4 - 1 from rfl, Nat.and_two_pow_sub_one_eq_mod,
    Nat.shiftLeft_eq, Nat.shiftLeft_eq, Nat.shiftRight_eq_div_pow]
  omega

theorem decode_first (fe : Fei4) {name low : Nat} (hname : name < 16) (hlow : low < 64)
    {first : UInt32}
    (hfirst : first.toNat = 0x5A0000 + 1024 * name + fe.chipField.toNat + low) :
    first >>> (14 : UInt32) = 0x0168 ∧ (first >>> (10 : UInt32)) &&& 0xF = UInt32.ofNat name ∧
      first &&& 0x3F = UInt32.ofNat low := by
  obtain ⟨chip, hchip, hfield⟩ := toNat_chipField fe
  rw [hfield] at hfirst
  exact decode_command hname hchip hlow hfirst

theorem toNat_first (fe : Fei4) {base low : UInt32} (hbase : base.toNat < 2 ^ 31)
    (hlow : low.toNat < 64) :
    (base + fe.chipField + low).toNat = base.toNat + fe.chipField.toNat + low.toNat := by
  obtain ⟨chip, hchip, hfield⟩ := toNat_chipField fe
  rw [UInt32.toNat_add, UInt32.toNat_add, hfield]
  omega

variable {command : UInt32} (htype : command >>> (14 : UInt32) = 0x0168)

include htype in
theorem executeTurn_wrRegister (hname : (command >>> (10 : UInt32)) &&& 0xF = 2)
    (emu : Fei4Emu) (response : PixelResponse) (value : UInt32) (words : List UInt32) :
    emu.executeTurn response (command :: value :: words) =
      (emu.handleWrRegister (command &&& 0x3F) (value >>> (16 : UInt32))).map fun emu =>
        (emu, words) := by
  have htrigger : command >>> (14 : UInt32) ≠ 0x7400 := by
    rw [htype]
    decide
  unfold executeTurn
  dsimp only
  rw [if_neg htrigger, if_pos htype, if_pos hname]

include htype in
theorem executeTurn_wrFrontEnd (hname : (command >>> (10 : UInt32)) &&& 0xF = 4)
    (emu : Fei4Emu) (response : PixelResponse) (words : List UInt32) :
    emu.executeTurn response (command :: words) =
      (readStream words).bind fun r => (emu.handleWrFrontEnd r.1).map fun emu => (emu, r.2) := by
  have htrigger : command >>> (14 : UInt32) ≠ 0x7400 := by
    rw [htype]
    decide
  unfold executeTurn
  dsimp only
  rw [if_neg htrigger, if_pos htype, hname]
  rfl

include htype in
theorem executeTurn_globalPulse (hname : (command >>> (10 : UInt32)) &&& 0xF = 9)
    (emu : Fei4Emu) (response : PixelResponse) (words : List UInt32) :
    emu.executeTurn response (command :: words) =
      emu.handleGlobalPulse.map fun emu => (emu, words) := by
  have htrigger : command >>> (14 : UInt32) ≠ 0x7400 := by
    rw [htype]
    decide
  unfold executeTurn
  dsimp only
  rw [if_neg htrigger, if_pos htype, hname]
  rfl

theorem value_sent (value : UInt16) :
    (((value.toUInt32 <<< (16 : UInt32)) &&& 0xFFFF0000) >>> (16 : UInt32)).toUInt16 = value := by
  apply UInt16.toNat_inj.mp
  have hlt := value.toNat_lt
  have hmask : (value.toNat <<< 16) % 2 ^ 32 &&& (65535 <<< 16) =
      (((value.toNat <<< 16) % 2 ^ 32) >>> 16 &&& 65535) <<< 16 := Bits.and_shiftLeft _ 65535 16
  show ((value.toNat <<< 16) % 2 ^ 32 &&& (65535 <<< 16)) >>> 16 % 2 ^ 16 = value.toNat
  rw [hmask, show (65535 : Nat) = 2 ^ 16 - 1 from rfl, Nat.and_two_pow_sub_one_eq_mod,
    Nat.shiftLeft_eq, Nat.shiftLeft_eq, Nat.shiftRight_eq_div_pow, Nat.shiftRight_eq_div_pow]
  omega

/-! ## The commands of the download -/

/-- The words that the front end issues from one of its states to the next lead the emulator
from `emu` to `emu'`. -/
def Follows (fe fe' : Fei4) (emu emu' : Fei4Emu) : Prop :=
  ∃ words, fe'.fifo = fe.fifo ++ words ∧ emu.Executes words emu'

theorem Follows.refl (fe : Fei4) (emu : Fei4Emu) : Follows fe fe emu emu :=
  ⟨[], (List.append_nil _).symm, Executes.refl emu⟩

theorem Follows.trans {fe fe' fe'' : Fei4} {emu emu' emu'' : Fei4Emu} (h : Follows fe fe' emu emu')
    (h' : Follows fe' fe'' emu' emu'') : Follows fe fe'' emu emu'' := by
  obtain ⟨words, hfifo, hexec⟩ := h
  obtain ⟨words', hfifo', hexec'⟩ := h'
  exact ⟨words ++ words', by rw [hfifo', hfifo, List.append_assoc], hexec.trans hexec'⟩

/-- A word that is sent replaces that of the emulator. -/
theorem follows_wrRegister (fe : Fei4) (emu : Fei4Emu) (address : Fin numRegs) (value : UInt16) :
    Follows fe (fe.wrRegister address value) emu
      { emu with cfg := emu.cfg.set address value } := by
  have haddr : address.val < 36 := address.isLt
  have hnat : (UInt32.ofNat address).toNat = address.val := by
    show address.val % 2 ^ 32 = address.val
    omega
  have hlow : UInt32.ofNat address &&& 0x3F = UInt32.ofNat address := by
    apply UInt32.toNat_inj.mp
    rw [UInt32.toNat_and, hnat]
    show address.val &&& (2 ^ 6 - 1) = address.val
    rw [Nat.and_two_pow_sub_one_eq_mod]
    omega
  have hfirst : (0x005A0800 + fe.chipField + UInt32.ofNat address).toNat =
      0x5A0800 + fe.chipField.toNat + (UInt32.ofNat address).toNat :=
    toNat_first fe (by decide) (by omega)
  rw [hnat] at hfirst
  obtain ⟨htype, hname, haddress⟩ :=
    decode_first fe (by omega : 2 < 16) (by omega : address.val < 64) hfirst
  refine ⟨_, rfl, Executes.turn (List.cons_ne_nil _ _) fun response rest => ?_⟩
  have hin : (UInt32.ofNat address).toNat < numRegs := by
    rw [hnat]
    exact address.isLt
  rw [hlow, List.cons_append, List.cons_append, List.nil_append,
    executeTurn_wrRegister htype hname, haddress, handleWrRegister, dif_pos hin, value_sent]
  simp only [hnat, Option.map_some]

theorem follows_sendRegister {fe : Fei4} {emu : Fei4Emu} {ref : Fei4Register}
    (h : ∀ i : Fin numRegs, i ≠ ref.m_mOffset → emu.cfg[i] = fe.cfg[i]) :
    Follows fe (fe.sendRegister ref) emu { emu with cfg := fe.cfg } := by
  have hset : emu.cfg.set ref.m_mOffset fe.cfg[ref.m_mOffset] = fe.cfg := by
    apply Vector.ext
    intro i hi
    show (emu.cfg.set ref.m_mOffset fe.cfg[ref.m_mOffset])[(⟨i, hi⟩ : Fin numRegs)] =
      fe.cfg[(⟨i, hi⟩ : Fin numRegs)]
    rw [getElem_set]
    by_cases hword : ⟨i, hi⟩ = ref.m_mOffset
    · rw [if_pos hword]
      exact congrArg (fun i : Fin numRegs => fe.cfg[i]) hword.symm
    · rw [if_neg hword]
      exact h ⟨i, hi⟩ hword
  have hsend := follows_wrRegister fe emu ref.m_mOffset fe.cfg[ref.m_mOffset]
  rw [hset] at hsend
  exact hsend

theorem follows_writeRegister {fe : Fei4} {emu : Fei4Emu} (h : emu.cfg = fe.cfg)
    (ref : Fei4Register) (cfgBits : Nat) :
    Follows fe (fe.writeRegister ref cfgBits) emu
      { emu with cfg := ref.write fe.cfg cfgBits } := by
  have hothers : ∀ i : Fin numRegs, i ≠ ref.m_mOffset →
      emu.cfg[i] = (fe.setValue ref cfgBits).cfg[i] := by
    intro i hi
    rw [h]
    exact (getElem_write ref fe.cfg cfgBits i hi).symm
  exact @follows_sendRegister (fe.setValue ref cfgBits) emu ref hothers

theorem columns_mode_zero {cfg : Fei4GlobalCfg} (hmode : Colpr_Mode.value cfg = 0) {dc : Fin n_DC}
    (haddr : Colpr_Addr.value cfg = dc) : columns cfg = [dc.val] := by
  have hstep : dc_step cfg = 40 := by
    unfold dc_step
    rw [hmode]
    rfl
  rw [columns, hstep, haddr]
  rfl

theorem overColumns_singleton {σ : Type} (dc : Fin n_DC) (body : Fin n_DC → σ → Option σ) (s : σ) :
    overColumns [dc.val] body s = body dc s := by
  unfold overColumns
  rw [List.foldlM_cons, dif_pos dc.isLt]
  cases body dc s with
  | none => rfl
  | some s' => rfl

/-- The stream arrives in the shift register in the order that it has in the software. -/
theorem follows_wrFrontEnd (fe : Fei4) {emu : Fei4Emu} (hmode : Colpr_Mode.value emu.cfg = 0)
    {dc : Fin n_DC} (haddr : Colpr_Addr.value emu.cfg = dc) (bitstream : DoubleColumnBit) :
    Follows fe (fe.wrFrontEnd bitstream) emu
      { emu with m_shiftRegisterBuffer := emu.m_shiftRegisterBuffer.set dc bitstream } := by
  have hfirst : (0x005A1000 + fe.chipField).toNat = 0x5A1000 + fe.chipField.toNat + 0 := by
    have hsum : (0x005A1000 + fe.chipField + 0).toNat = 0x5A1000 + fe.chipField.toNat + 0 :=
      toNat_first fe (by decide) (by decide)
    rwa [UInt32.add_zero] at hsum
  obtain ⟨htype, hname, -⟩ := decode_first fe (by omega : 4 < 16) (by omega : 0 < 64) hfirst
  refine ⟨_, rfl, Executes.turn (List.cons_ne_nil _ _) fun response rest => ?_⟩
  have hlen : bitstream.toList.reverse.length = n_Words := by
    rw [List.length_reverse, Vector.length_toList]
  have hread : readStream (bitstream.toList.reverse ++ rest) = some (bitstream.reverse, rest) := by
    have hin : n_Words ≤ (bitstream.toList.reverse ++ rest).length := by
      rw [List.length_append, hlen]
      exact Nat.le_add_right _ _
    rw [readStream, dif_pos hin]
    have hdrop : (bitstream.toList.reverse ++ rest).drop n_Words = rest := List.drop_left' hlen
    have htake : (bitstream.toList.reverse ++ rest).take n_Words = bitstream.toList.reverse :=
      List.take_left' hlen
    congr 1
    apply Prod.ext
    · apply Vector.toList_inj.mp
      show ((bitstream.toList.reverse ++ rest).take n_Words) = _
      rw [htake, Vector.toList_reverse]
    · exact hdrop
  rw [List.cons_append, executeTurn_wrFrontEnd htype hname, hread, Option.bind_some,
    handleWrFrontEnd, columns_mode_zero hmode haddr, wrFrontEndOver, overColumns_singleton,
    writeColumn, Vector.reverse_reverse]
  rfl

theorem foldl_single {σ α : Type} {f : σ → α → σ} {b : α} {l : List α} (hnodup : l.Nodup)
    (hb : b ∈ l) (s : σ) (hs : ∀ j ≠ b, f s j = s) (hsb : ∀ j ≠ b, f (f s b) j = f s b) :
    l.foldl f s = f s b := by
  have hidle (t : σ) (ht : ∀ j ≠ b, f t j = t) (l : List α) (hl : b ∉ l) : l.foldl f t = t := by
    induction l with
    | nil => rfl
    | cons j l ih =>
        have hj : j ≠ b := fun h => hl (h ▸ List.mem_cons_self)
        rw [List.foldl_cons, ht j hj]
        exact ih fun h => hl (List.mem_cons_of_mem _ h)
  induction l with
  | nil => exact absurd hb List.not_mem_nil
  | cons j l ih =>
      have hrest := (List.nodup_cons.mp hnodup).2
      by_cases hj : j = b
      · subst hj
        exact hidle (f s j) hsb l (List.nodup_cons.mp hnodup).1
      · have hin : b ∈ l := by
          rcases List.mem_cons.mp hb with h | h
          · exact absurd h.symm hj
          · exact h
        rw [List.foldl_cons, hs j hj]
        exact ih hrest hin

/-- The registers ask for a copy of the shift register to latch `bit` and nothing else. -/
structure Latches (cfg : Fei4GlobalCfg) (bit : Fin 13) : Prop where
  s0 : S0.value cfg = 0
  s1 : S1.value cfg = 0
  hitLD : HitLD.value cfg = 0
  srClock : SR_Clock.value cfg = 0
  enable : Latch_Enable.value cfg = 1
  strobe : Pixel_latch_strobe.value cfg = 1 <<< bit.val

theorem writeLatches_eq {emu : Fei4Emu} {bit : Fin 13}
    (hstrobe : Pixel_latch_strobe.value emu.cfg = 1 <<< bit.val) (dc : Fin n_DC) :
    emu.writeLatches dc =
      { emu with
        pixels := (Plane.bitReg bit).set emu.pixels dc emu.m_shiftRegisterBuffer[dc] } := by
  have hbit (j : Fin 13) : strobes emu.cfg j = decide (j = bit) := by
    unfold strobes
    rw [hstrobe, Nat.one_shiftLeft, Nat.testBit_two_pow]
    simp [Fin.ext_iff, eq_comm]
  have hidle (t : Fei4Emu) (ht : t.cfg = emu.cfg) (j : Fin 13) (hj : j ≠ bit) :
      strobes t.cfg j = false := by
    rw [ht, hbit]
    exact decide_eq_false hj
  unfold writeLatches
  have hactive : strobes emu.cfg bit = true := by
    rw [hbit]
    exact decide_eq_true rfl
  rw [foldl_single (List.nodup_finRange 13) (List.mem_finRange bit), if_pos hactive]
  · intro j hj
    rw [hidle emu rfl j hj]
    rfl
  · intro j hj
    rw [if_pos hactive, hidle _ rfl j hj]
    rfl

theorem follows_globalPulse (fe : Fei4) {emu : Fei4Emu} (hmode : Colpr_Mode.value emu.cfg = 0)
    {dc : Fin n_DC} (haddr : Colpr_Addr.value emu.cfg = dc) {bit : Fin 13}
    (hlatch : Latches emu.cfg bit) :
    Follows fe (fe.globalPulse 10) emu
      { emu with
        pixels := (Plane.bitReg bit).set emu.pixels dc emu.m_shiftRegisterBuffer[dc] } := by
  have hfirst : (0x005A2400 + fe.chipField + 10).toNat = 0x5A2400 + fe.chipField.toNat + 10 :=
    toNat_first fe (by decide) (by decide)
  obtain ⟨htype, hname, -⟩ := decode_first fe (by omega : 9 < 16) (by omega : 10 < 64) hfirst
  have hshift : ¬Shifts emu.cfg := fun h => absurd (hlatch.srClock.symm.trans h.2.2.2) (by omega)
  have hread : ¬ReadsLatches emu.cfg := fun h => absurd (hlatch.s0.symm.trans h.1) (by omega)
  have hwrite : WritesLatches emu.cfg := ⟨hlatch.s0, hlatch.s1, hlatch.hitLD, hlatch.enable⟩
  refine ⟨_, rfl, Executes.turn (List.cons_ne_nil _ _) fun response rest => ?_⟩
  have hpulse : emu.handleGlobalPulse = some (emu.writeLatches dc) := by
    unfold handleGlobalPulse globalPulseOver
    rw [pulsePart, if_neg hshift, Option.bind_some, pulsePart, if_neg hread, Option.bind_some,
      pulsePart, if_pos hwrite, columns_mode_zero hmode haddr, overColumns_singleton]
  rw [List.cons_append, List.nil_append]
  show emu.executeTurn response ((0x005A2400 + fe.chipField + 10) :: rest) = _
  rw [executeTurn_globalPulse htype hname, hpulse, writeLatches_eq hlatch.strobe, Option.map_some]

/-! ## The loops -/

/-- The double columns can be written to and their latches set. -/
structure Idle (cfg : Fei4GlobalCfg) : Prop where
  s0 : S0.value cfg = 0
  s1 : S1.value cfg = 0
  hitLD : HitLD.value cfg = 0
  srClock : SR_Clock.value cfg = 0

/-- From `fe` and `emu` on the planes `keys` were copied. Only registers that share bits with
`written` changed. -/
structure Downloaded (written : List Fei4Register) (keys : List (Fin n_DC × Plane))
    (fe fe' : Fei4) (emu emu' : Fei4Emu) : Prop where
  follows : Follows fe fe' emu emu'
  cfg : emu'.cfg = fe'.cfg
  pixels : fe'.pixels = fe.pixels
  kept : ∀ r : Fei4Register, (∀ w ∈ written, Apart r w) → r.value fe'.cfg = r.value fe.cfg
  reset : keys ≠ [] → Pixel_latch_strobe.value fe'.cfg = 0 ∧ Latch_Enable.value fe'.cfg = 0
  same : keys = [] → Pixel_latch_strobe.value fe'.cfg = Pixel_latch_strobe.value fe.cfg ∧
    Latch_Enable.value fe'.cfg = Latch_Enable.value fe.cfg
  latches : emu'.pixels = Plane.planes.setAll (Plane.planes.get fe.pixels) keys emu.pixels

theorem Downloaded.refl (written : List Fei4Register) {fe : Fei4} {emu : Fei4Emu}
    (h : emu.cfg = fe.cfg) : Downloaded written [] fe fe emu emu where
  follows := Follows.refl fe emu
  cfg := h
  pixels := rfl
  kept _ _ := rfl
  reset h := absurd rfl h
  same _ := ⟨rfl, rfl⟩
  latches := rfl

theorem Downloaded.trans {written : List Fei4Register} {keys keys' : List (Fin n_DC × Plane)}
    {fe fe' fe'' : Fei4} {emu emu' emu'' : Fei4Emu} (h : Downloaded written keys fe fe' emu emu')
    (h' : Downloaded written keys' fe' fe'' emu' emu'') :
    Downloaded written (keys ++ keys') fe fe'' emu emu'' where
  follows := h.follows.trans h'.follows
  cfg := h'.cfg
  pixels := h'.pixels.trans h.pixels
  kept r hr := (h'.kept r hr).trans (h.kept r hr)
  reset hne := by
    by_cases hnil : keys' = []
    · have hfirst : keys ≠ [] := by
        intro hkeys
        exact hne (by rw [hkeys, hnil, List.append_nil])
      obtain ⟨hstrobe, henable⟩ := h'.same hnil
      rw [hstrobe, henable]
      exact h.reset hfirst
    · exact h'.reset hnil
  same hnil := by
    obtain ⟨hkeys, hkeys'⟩ := List.append_eq_nil_iff.mp hnil
    obtain ⟨hstrobe, henable⟩ := h'.same hkeys'
    rw [hstrobe, henable]
    exact h.same hkeys
  latches := by
    rw [h'.latches, h.latches, h.pixels]
    exact (List.foldl_append).symm

theorem Downloaded.weaken {written written' : List Fei4Register}
    {keys : List (Fin n_DC × Plane)} {fe fe' : Fei4} {emu emu' : Fei4Emu}
    (h : Downloaded written keys fe fe' emu emu') (hsub : ∀ w ∈ written, w ∈ written') :
    Downloaded written' keys fe fe' emu emu' :=
  { h with kept := fun r hr => h.kept r fun w hw => hr w (hsub w hw) }

theorem downloaded_writeRegister {fe : Fei4} {emu : Fei4Emu} (h : emu.cfg = fe.cfg)
    {ref : Fei4Register} (hstrobe : Apart Pixel_latch_strobe ref)
    (henable : Apart Latch_Enable ref) (cfgBits : Nat) :
    Downloaded [ref] [] fe (fe.writeRegister ref cfgBits) emu
      { emu with cfg := ref.write fe.cfg cfgBits } where
  follows := follows_writeRegister h ref cfgBits
  cfg := rfl
  pixels := rfl
  kept _ hr := value_write_of_apart (hr ref List.mem_cons_self) _ _
  reset h := absurd rfl h
  same _ := ⟨value_write_of_apart hstrobe _ _, value_write_of_apart henable _ _⟩
  latches := rfl

/-- One plane, through the shift register to its latch. -/
theorem downloaded_configureLatch {fe : Fei4} {emu : Fei4Emu} (h : emu.cfg = fe.cfg)
    (hidle : Idle fe.cfg) (hmode : Colpr_Mode.value fe.cfg = 0) {dc : Fin n_DC}
    (haddr : Colpr_Addr.value fe.cfg = dc) (bit : Fin 13) :
    ∃ fe' emu', fe.configureLatch dc bit = some fe' ∧
      Downloaded [Pixel_latch_strobe, Latch_Enable] [(dc, Plane.bitReg bit)] fe fe' emu emu' := by
  let bitstream := (Plane.bitReg bit).get fe.pixels dc
  let sent := fe.wrFrontEnd bitstream
  let strobed := sent.writeRegister Pixel_latch_strobe (1 <<< bit.val)
  let enabled := strobed.writeRegister Latch_Enable 0x1
  let pulsed := enabled.globalPulse 10
  let disabled := pulsed.writeRegister Latch_Enable 0x0
  let last := disabled.writeRegister Pixel_latch_strobe 0x0
  let shifted : Fei4Emu :=
    { emu with m_shiftRegisterBuffer := emu.m_shiftRegisterBuffer.set dc bitstream }
  let latched : Fei4Emu :=
    { shifted with
      cfg := enabled.cfg
      pixels := (Plane.bitReg bit).set emu.pixels dc shifted.m_shiftRegisterBuffer[dc] }
  have hlt : 1 <<< bit.val < 2 ^ 13 := by
    rw [Nat.one_shiftLeft]
    exact Nat.pow_lt_pow_right Nat.one_lt_two bit.isLt
  have hkept {r : Fei4Register} (hstrobe : Apart r Pixel_latch_strobe)
      (henable : Apart r Latch_Enable) : r.value enabled.cfg = r.value fe.cfg :=
    (value_write_of_apart henable _ _).trans (value_write_of_apart hstrobe _ _)
  have hlatches : Latches enabled.cfg bit :=
    { s0 := (hkept (by decide) (by decide)).trans hidle.s0
      s1 := (hkept (by decide) (by decide)).trans hidle.s1
      hitLD := (hkept (by decide) (by decide)).trans hidle.hitLD
      srClock := (hkept (by decide) (by decide)).trans hidle.srClock
      enable := value_write _ _ _
      strobe := by
        rw [← Nat.mod_eq_of_lt hlt]
        exact (value_write_of_apart (by decide) _ _).trans (value_write _ _ _) }
  have hsend : Follows fe sent emu shifted :=
    follows_wrFrontEnd fe (by rw [h]; exact hmode) (by rw [h]; exact haddr) bitstream
  have hstrobe : Follows sent strobed shifted { shifted with cfg := strobed.cfg } :=
    @follows_writeRegister sent shifted h _ _
  have henable : Follows strobed enabled { shifted with cfg := strobed.cfg }
      { shifted with cfg := enabled.cfg } :=
    @follows_writeRegister strobed { shifted with cfg := strobed.cfg } rfl _ _
  have hpulse : Follows enabled pulsed { shifted with cfg := enabled.cfg } latched :=
    @follows_globalPulse enabled { shifted with cfg := enabled.cfg }
      ((hkept (by decide) (by decide)).trans hmode) dc
      ((hkept (by decide) (by decide)).trans haddr) bit hlatches
  have hdisable : Follows pulsed disabled latched { latched with cfg := disabled.cfg } :=
    @follows_writeRegister pulsed latched rfl _ _
  have hlast : Follows disabled last { latched with cfg := disabled.cfg }
      { latched with cfg := last.cfg } :=
    @follows_writeRegister disabled { latched with cfg := disabled.cfg } rfl _ _
  have hread : shifted.m_shiftRegisterBuffer[dc] = bitstream := by
    show (emu.m_shiftRegisterBuffer.set dc bitstream)[dc] = bitstream
    rw [getElem_set, if_pos rfl]
  refine ⟨last, { latched with cfg := last.cfg }, ?_, ?_⟩
  · rw [Fei4.configureLatch, Plane.getCfg_eq]
    rfl
  · exact
      { follows := hsend.trans (hstrobe.trans (henable.trans (hpulse.trans (hdisable.trans hlast))))
        cfg := rfl
        pixels := rfl
        kept := by
          intro r hr
          have hrs := hr Pixel_latch_strobe List.mem_cons_self
          have hre := hr Latch_Enable (List.mem_cons_of_mem _ List.mem_cons_self)
          exact (value_write_of_apart hrs _ _).trans
            ((value_write_of_apart hre _ _).trans (hkept hrs hre))
        reset := fun _ =>
          ⟨value_write _ _ _, (value_write_of_apart (by decide) _ _).trans (value_write _ _ _)⟩
        same := fun hnil => absurd hnil (List.cons_ne_nil _ _)
        latches := by
          show (Plane.bitReg bit).set emu.pixels dc shifted.m_shiftRegisterBuffer[dc] = _
          rw [hread]
          rfl }

/-- The planes of some bits of a double column. -/
def keysOf (dc : Fin n_DC) (bits : List Nat) : List (Fin n_DC × Plane) :=
  bits.map fun bit => (dc, Plane.bitReg (Fin.ofNat 13 bit))

theorem Idle.congr {cfg cfg' : Fei4GlobalCfg} (h : Idle cfg) {written : List Fei4Register}
    (hkept : ∀ r : Fei4Register, (∀ w ∈ written, Apart r w) → r.value cfg' = r.value cfg)
    (hwritten : ∀ r ∈ [S0, S1, HitLD, SR_Clock], ∀ w ∈ written, Apart r w) : Idle cfg' where
  s0 := (hkept S0 (hwritten S0 (by simp))).trans h.s0
  s1 := (hkept S1 (hwritten S1 (by simp))).trans h.s1
  hitLD := (hkept HitLD (hwritten HitLD (by simp))).trans h.hitLD
  srClock := (hkept SR_Clock (hwritten SR_Clock (by simp))).trans h.srClock

theorem downloaded_bits {bits : List Nat} (hbits : ∀ bit ∈ bits, bit < 13) {fe : Fei4}
    {emu : Fei4Emu} (h : emu.cfg = fe.cfg) (hidle : Idle fe.cfg)
    (hmode : Colpr_Mode.value fe.cfg = 0) {dc : Fin n_DC} (haddr : Colpr_Addr.value fe.cfg = dc) :
    ∃ fe' emu', bits.foldlM (fun (fe : Fei4) bit => fe.configureLatch dc bit) fe = some fe' ∧
      Downloaded [Pixel_latch_strobe, Latch_Enable] (keysOf dc bits) fe fe' emu emu' := by
  induction bits generalizing fe emu with
  | nil => exact ⟨fe, emu, rfl, Downloaded.refl _ h⟩
  | cons bit bits ih =>
      have hbit : bit < 13 := hbits bit List.mem_cons_self
      obtain ⟨fe', emu', hsome, hfirst⟩ :=
        downloaded_configureLatch h hidle hmode haddr (Fin.ofNat 13 bit)
      have hval : (Fin.ofNat 13 bit).val = bit := Nat.mod_eq_of_lt hbit
      rw [hval] at hsome
      have hidle' : Idle fe'.cfg := hidle.congr hfirst.kept (by decide)
      have hmode' := (hfirst.kept Colpr_Mode (by decide)).trans hmode
      have haddr' := (hfirst.kept Colpr_Addr (by decide)).trans haddr
      obtain ⟨fe'', emu'', hrest, hbits'⟩ :=
        ih (fun b hb => hbits b (List.mem_cons_of_mem _ hb)) hfirst.cfg hidle' hmode' haddr'
      refine ⟨fe'', emu'', ?_, hfirst.trans hbits'⟩
      rw [List.foldlM_cons, hsome]
      exact hrest

def written : List Fei4Register := [Pixel_latch_strobe, Latch_Enable, Colpr_Addr]

theorem downloaded_configureColumn {lsb msb : Nat} (hmsb : msb ≤ 13) {fe : Fei4} {emu : Fei4Emu}
    (h : emu.cfg = fe.cfg) (hidle : Idle fe.cfg) (hmode : Colpr_Mode.value fe.cfg = 0)
    (dc : Fin n_DC) :
    ∃ fe' emu', fe.configureColumn lsb msb dc = some fe' ∧
      Downloaded written (keysOf dc (List.range' lsb (msb - lsb))) fe fe' emu emu' := by
  have hfirst := (downloaded_writeRegister h (by decide : Apart Pixel_latch_strobe Colpr_Addr)
    (by decide : Apart Latch_Enable Colpr_Addr) dc.val).weaken (by simp [written] : _ ⊆ written)
  have hidle' := hidle.congr hfirst.kept (by decide)
  have hmode' := (hfirst.kept Colpr_Mode (by decide)).trans hmode
  have haddr' : Colpr_Addr.value (fe.writeRegister Colpr_Addr dc).cfg = dc := by
    have hdc : dc.val < 40 := dc.isLt
    have hmod : dc.val % 2 ^ 6 = dc.val := Nat.mod_eq_of_lt (by omega)
    exact (value_write _ _ _).trans hmod
  have hbits : ∀ bit ∈ List.range' lsb (msb - lsb), bit < 13 := by
    intro bit hbit
    obtain ⟨hlow, hhigh⟩ := List.mem_range'_1.mp hbit
    omega
  obtain ⟨fe', emu', hsome, hbits'⟩ := downloaded_bits hbits hfirst.cfg hidle' hmode' haddr'
  exact ⟨fe', emu', hsome, hfirst.trans (hbits'.weaken (by simp [written]))⟩

theorem downloaded_columns {lsb msb : Nat} (hmsb : msb ≤ 13) (dcs : List (Fin n_DC)) {fe : Fei4}
    {emu : Fei4Emu} (h : emu.cfg = fe.cfg) (hidle : Idle fe.cfg)
    (hmode : Colpr_Mode.value fe.cfg = 0) :
    ∃ fe' emu', dcs.foldlM (fun (fe : Fei4) dc => fe.configureColumn lsb msb dc) fe = some fe' ∧
      Downloaded written (dcs.flatMap fun dc => keysOf dc (List.range' lsb (msb - lsb)))
        fe fe' emu emu' := by
  induction dcs generalizing fe emu with
  | nil => exact ⟨fe, emu, rfl, Downloaded.refl _ h⟩
  | cons dc dcs ih =>
      obtain ⟨fe', emu', hsome, hfirst⟩ := downloaded_configureColumn hmsb h hidle hmode dc
      have hidle' : Idle fe'.cfg := hidle.congr hfirst.kept (by decide)
      have hmode' := (hfirst.kept Colpr_Mode (by decide)).trans hmode
      obtain ⟨fe'', emu'', hrest, hdcs⟩ := ih hfirst.cfg hidle' hmode'
      refine ⟨fe'', emu'', ?_, ?_⟩
      · rw [List.foldlM_cons, hsome]
        exact hrest
      · rw [List.flatMap_cons]
        exact hfirst.trans hdcs

/-! ## The whole download -/

/-- What the download of the latches `lsb` to `msb - 1` leaves behind. -/
structure Outcome (lsb msb : Nat) (fe fe' : Fei4) (emu emu' : Fei4Emu) : Prop where
  copied : ∀ dc (bit : Fin 13), lsb ≤ bit.val → bit.val < msb →
    (Plane.bitReg bit).get emu'.pixels dc = (Plane.bitReg bit).get fe.pixels dc
  others : ∀ dc (bit : Fin 13), ¬(lsb ≤ bit.val ∧ bit.val < msb) →
    (Plane.bitReg bit).get emu'.pixels dc = (Plane.bitReg bit).get emu.pixels dc
  pixels : fe'.pixels = fe.pixels
  cfg : emu'.cfg = fe'.cfg
  vthin : Vthin_Coarse.value fe'.cfg = Vthin_Coarse.value fe.cfg

/-- The emulator takes all words that were issued, in as many turns as there are words. -/
def TakesAll (fe fe' : Fei4) (emu emu' : Fei4Emu) : Prop :=
  ∃ words, fe'.fifo = fe.fifo ++ words ∧ ∀ responses : List PixelResponse,
    words.length ≤ responses.length → executeLoop responses (emu, words) = some (emu', [])

theorem Follows.takesAll {fe fe' : Fei4} {emu emu' : Fei4Emu} (h : Follows fe fe' emu emu') :
    TakesAll fe fe' emu emu' := by
  obtain ⟨words, hfifo, hexec⟩ := h
  exact ⟨words, hfifo, fun _ hlen => hexec.run hlen⟩

/-- The planes of a download. -/
def allKeys (lsb msb : Nat) : List (Fin n_DC × Plane) :=
  (List.finRange n_DC).flatMap fun dc => keysOf dc (List.range' lsb (msb - lsb))

theorem mem_allKeys {lsb msb : Nat} (hmsb : msb ≤ 13) (dc : Fin n_DC) (bit : Fin 13) :
    (dc, Plane.bitReg bit) ∈ allKeys lsb msb ↔ lsb ≤ bit.val ∧ bit.val < msb := by
  unfold allKeys keysOf
  constructor
  · intro hmem
    obtain ⟨dc', -, hkey⟩ := List.mem_flatMap.mp hmem
    obtain ⟨b, hb, heq⟩ := List.mem_map.mp hkey
    obtain ⟨hlow, hhigh⟩ := List.mem_range'_1.mp hb
    have hplane : Plane.bitReg (Fin.ofNat 13 b) = Plane.bitReg bit := (Prod.ext_iff.mp heq).2
    have hval : b % 13 = bit.val := congrArg Fin.val (Plane.bitReg_injective hplane)
    omega
  · intro hbit
    apply List.mem_flatMap.mpr
    refine ⟨dc, List.mem_finRange dc, List.mem_map.mpr ⟨bit.val, ?_, ?_⟩⟩
    · exact List.mem_range'_1.mpr ⟨hbit.1, by omega⟩
    · have hval : Fin.ofNat 13 bit.val = bit := Fin.ext (Nat.mod_eq_of_lt bit.isLt)
      rw [hval]

theorem allKeys_eq_nil_iff (lsb msb : Nat) : allKeys lsb msb = [] ↔ ¬lsb < msb := by
  unfold allKeys keysOf
  rw [List.flatMap_eq_nil_iff]
  constructor
  · intro hnil hlt
    have hfirst := List.map_eq_nil_iff.mp (hnil 0 (List.mem_finRange 0))
    rw [List.range'_eq_nil_iff] at hfirst
    omega
  · intro hnot dc _
    rw [List.map_eq_nil_iff, List.range'_eq_nil_iff]
    omega

/-- The latches of the range are those of the software afterwards, and the registers agree. The
strobe and the enable of the latches are zero then, unless the range is empty. -/
theorem configurePixels_downloads {lsb msb : Nat} (hmsb : msb ≤ 13) {fe : Fei4} {emu : Fei4Emu}
    (h : emu.cfg = fe.cfg) (hidle : Idle fe.cfg) :
    ∃ fe' emu', fe.configurePixels lsb msb = some fe' ∧ TakesAll fe fe' emu emu' ∧
      Outcome lsb msb fe fe' emu emu' ∧
      (lsb < msb → Pixel_latch_strobe.value fe'.cfg = 0 ∧ Latch_Enable.value fe'.cfg = 0) ∧
      (¬lsb < msb → Pixel_latch_strobe.value fe'.cfg = Pixel_latch_strobe.value fe.cfg ∧
        Latch_Enable.value fe'.cfg = Latch_Enable.value fe.cfg) := by
  let all := [Vthin_Coarse, Colpr_Mode, Pixel_latch_strobe, Latch_Enable, Colpr_Addr]
  have hraise := (downloaded_writeRegister h (by decide : Apart Pixel_latch_strobe Vthin_Coarse)
    (by decide : Apart Latch_Enable Vthin_Coarse) 255).weaken (by simp [all] : _ ⊆ all)
  have hzero := (downloaded_writeRegister hraise.cfg
    (by decide : Apart Pixel_latch_strobe Colpr_Mode) (by decide : Apart Latch_Enable Colpr_Mode)
    0x0).weaken (by simp [all] : _ ⊆ all)
  have hstart := hraise.trans hzero
  have hidle' : Idle ((fe.writeRegister Vthin_Coarse 255).writeRegister Colpr_Mode 0x0).cfg :=
    hidle.congr hstart.kept (by decide)
  have hmode : Colpr_Mode.value
      ((fe.writeRegister Vthin_Coarse 255).writeRegister Colpr_Mode 0x0).cfg = 0 :=
    value_write _ _ _
  obtain ⟨fe₁, emu₁, hsome, hcolumns⟩ :=
    downloaded_columns hmsb (List.finRange n_DC) hstart.cfg hidle' hmode
  have hrestore := downloaded_writeRegister hcolumns.cfg
    (by decide : Apart Pixel_latch_strobe Vthin_Coarse)
    (by decide : Apart Latch_Enable Vthin_Coarse) (Vthin_Coarse.value fe.cfg)
  have hdone := (hstart.trans (hcolumns.weaken (by simp [all, written]))).trans
    (hrestore.weaken (by simp [all] : _ ⊆ all))
  have hkeys : [] ++ [] ++ ((List.finRange n_DC).flatMap fun dc =>
      keysOf dc (List.range' lsb (msb - lsb))) ++ [] = allKeys lsb msb := by
    rw [List.append_nil]
    rfl
  rw [hkeys] at hdone
  refine ⟨_, _, ?_, hdone.follows.takesAll, ?_, ?_, ?_⟩
  · unfold Fei4.configurePixels
    dsimp only
    rw [hsome]
    rfl
  · exact
      { copied := by
          intro dc bit hlow hhigh
          have hmem := (mem_allKeys hmsb dc bit).mpr ⟨hlow, hhigh⟩
          rw [hdone.latches]
          exact Plane.planes_independent.get_setAll (fun _ _ => trivial) hmem emu.pixels
        others := by
          intro dc bit hout
          have hmem := fun hin => hout ((mem_allKeys hmsb dc bit).mp hin)
          rw [hdone.latches]
          exact Plane.planes_independent.get_setAll_of_not_mem (fun _ _ => trivial) hmem
            emu.pixels
        pixels := hdone.pixels
        cfg := hdone.cfg
        vthin := (value_write _ _ _).trans (Nat.mod_eq_of_lt (value_lt _ _)) }
  · exact fun hlt => hdone.reset fun hnil => (allKeys_eq_nil_iff lsb msb).mp hnil hlt
  · exact fun hnot => hdone.same ((allKeys_eq_nil_iff lsb msb).mpr hnot)

/-- Software and emulator with the latches enabled and all other registers empty. -/
def enabledCfg : Fei4GlobalCfg := Latch_Enable.write (Vector.replicate numRegs 0) 1

def enabledEmu : Fei4Emu := { atAddress 0 0 with cfg := enabledCfg }

def enabledFe : Fei4 := ⟨0, enabledCfg, enabledEmu.pixels, []⟩

theorem idle_enabledCfg : Idle enabledCfg where
  s0 := by decide +kernel
  s1 := by decide +kernel
  hitLD := by decide +kernel
  srClock := by decide +kernel

theorem configurePixels_downloads_enabled :
    ∃ fe' emu', enabledFe.configurePixels 0 1 = some fe' ∧
      TakesAll enabledFe fe' enabledEmu emu' ∧ Outcome 0 1 enabledFe fe' enabledEmu emu' ∧
      (0 < 1 → Pixel_latch_strobe.value fe'.cfg = 0 ∧ Latch_Enable.value fe'.cfg = 0) ∧
      (¬0 < 1 → Pixel_latch_strobe.value fe'.cfg = Pixel_latch_strobe.value enabledFe.cfg ∧
        Latch_Enable.value fe'.cfg = Latch_Enable.value enabledFe.cfg) :=
  configurePixels_downloads (by omega) rfl idle_enabledCfg

/-- The enable of the latches is not as before. -/
theorem latch_enable_reset :
    ¬∀ (lsb msb : Nat) (fe : Fei4) (emu : Fei4Emu), msb ≤ 13 → emu.cfg = fe.cfg → Idle fe.cfg →
      ∃ fe' emu', fe.configurePixels lsb msb = some fe' ∧ TakesAll fe fe' emu emu' ∧
        Outcome lsb msb fe fe' emu emu' ∧
        Pixel_latch_strobe.value fe'.cfg = Pixel_latch_strobe.value fe.cfg ∧
        Latch_Enable.value fe'.cfg = Latch_Enable.value fe.cfg := by
  intro h
  obtain ⟨fe', emu', hsome, -, -, -, henable⟩ :=
    h 0 1 enabledFe enabledEmu (by omega) rfl idle_enabledCfg
  have hreset : (enabledFe.configurePixels 0 1).map (fun fe' => Latch_Enable.value fe'.cfg) =
      some 0 := by decide +kernel
  rw [hsome] at hreset
  have hzero : Latch_Enable.value fe'.cfg = 0 := Option.some.inj hreset
  have hone : Latch_Enable.value enabledFe.cfg = 1 := by decide +kernel
  omega

end Fei4Emu

end Yarr.Fei4
