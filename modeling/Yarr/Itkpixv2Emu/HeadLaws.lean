import Yarr.Itkpixv2Emu.CommandStream

/-!
# What the interpreter takes from the front

How many units a command needs follows from its first and third unit. With
fewer units the interpreter takes one from an empty buffer; with enough of them
the rest of the buffer does not matter.
-/

namespace Yarr.Itkpixv2Emu

theorem addDecodedUnits_none {n : Nat} {var : UInt32} {units : List UInt8}
    (h : units.length < n) : addDecodedUnits n var units = none := by
  induction n generalizing var units with
  | zero => omega
  | succ n ih =>
      cases units with
      | nil => rfl
      | cons unit units =>
          rw [addDecodedUnits]
          apply ih
          rw [List.length_cons] at h
          omega

theorem addDecodedUnits_some {n : Nat} (var : UInt32) {units : List UInt8}
    (h : n ≤ units.length) : ∃ v, addDecodedUnits n var units = some (v, units.drop n) := by
  induction n generalizing var units with
  | zero => exact ⟨var, rfl⟩
  | succ n ih =>
      cases units with
      | nil => simp at h
      | cons unit units =>
          rw [List.length_cons] at h
          rw [addDecodedUnits, List.drop_succ_cons]
          exact ih _ (by omega)

theorem addDecodedUnits_append {n : Nat} {var v : UInt32} {units rest : List UInt8}
    (h : addDecodedUnits n var units = some (v, rest)) (later : List UInt8) :
    addDecodedUnits n var (units ++ later) = some (v, rest ++ later) := by
  induction n generalizing var units with
  | zero =>
      rw [addDecodedUnits] at h
      injection h with h
      injection h with hv hrest
      rw [addDecodedUnits, hv, hrest]
  | succ n ih =>
      cases units with
      | nil => cases h
      | cons unit units =>
          rw [addDecodedUnits] at h
          rw [List.cons_append, addDecodedUnits]
          exact ih h

/-! ## The length of a head -/

/-- The first bit of the address, in the third unit. -/
def isMultiple : List UInt8 → Bool
  | header :: _ :: first :: _ => header = Commands.WrReg && first >>> 7 ≠ 0
  | _ => false

def headLength : List UInt8 → Nat
  | [] => 0
  | header :: units =>
      if header = Commands.Cal then 6
      else if header = Commands.RdReg then 4
      else if header = Commands.WrReg then if isMultiple (header :: units) then 4 else 8
      else 2

theorem headLength_wrReg (units : List UInt8) :
    headLength (Commands.WrReg :: units) =
      if isMultiple (Commands.WrReg :: units) then 4 else 8 := by
  rw [headLength, if_neg (by decide), if_neg (by decide), if_pos rfl]

theorem isMultiple_of_ne {header : UInt8} (h : header ≠ Commands.WrReg) (units : List UInt8) :
    isMultiple (header :: units) = false := by
  match units with
  | [] => rfl
  | [_] => rfl
  | _ :: first :: _ => simp [isMultiple, h]

/-- What the interpreter makes of the units that it has. -/
inductive HeadSpec (units : List UInt8) : Option Front → Prop where
  | short (hlength : units.length < headLength units) : HeadSpec units none
  | command (cmd : Cmd) (hlength : headLength units ≤ units.length)
      (hsingle : isMultiple units = false) (hheader : units.head? = some cmd.header) :
      HeadSpec units (some (.command cmd (units.drop (headLength units))))
  | multiple (id high low : UInt8) (rest : List UInt8)
      (hunits : units = Commands.WrReg :: id :: high :: low :: rest) (hhigh : high >>> 7 ≠ 0) :
      HeadSpec units (some (.multiple ⟨Commands.WrReg, lut8to5 id, 0x200, 0⟩ rest))

theorem readRaw_spec {header : UInt8} {units : List UInt8}
    (hlength : headLength (header :: units) = 2) (hsingle : isMultiple (header :: units) = false) :
    HeadSpec (header :: units) (readRaw header units) := by
  cases units with
  | nil =>
      apply HeadSpec.short
      rw [hlength]
      exact Nat.one_lt_two
  | cons id units =>
      have hdrop : (header :: id :: units).drop (headLength (header :: id :: units)) = units := by
        rw [hlength]
        rfl
      have hspec : HeadSpec (header :: id :: units) (some (.command ⟨header, id, 0, 0⟩
          ((header :: id :: units).drop (headLength (header :: id :: units))))) := by
        apply HeadSpec.command
        · rw [hlength, List.length_cons, List.length_cons]
          omega
        · exact hsingle
        · rfl
      rw [hdrop] at hspec
      exact hspec

theorem readDecoded_spec {header : UInt8} {addressUnits dataUnits : Nat} {units : List UInt8}
    (hlength : headLength (header :: units) = 2 + addressUnits + dataUnits)
    (hsingle : isMultiple (header :: units) = false) :
    HeadSpec (header :: units) (readDecoded header addressUnits dataUnits units) := by
  cases units with
  | nil =>
      apply HeadSpec.short
      rw [hlength]
      show 1 < _
      omega
  | cons id units =>
      rw [readDecoded]
      by_cases haddress : units.length < addressUnits
      · rw [addDecodedUnits_none haddress]
        apply HeadSpec.short
        rw [hlength, List.length_cons, List.length_cons]
        omega
      · obtain ⟨address, haddr⟩ := addDecodedUnits_some 0 (Nat.le_of_not_lt haddress)
        rw [haddr, Option.bind_eq_bind, Option.bind_some]
        by_cases hdata : (units.drop addressUnits).length < dataUnits
        · simp only [addDecodedUnits_none hdata]
          apply HeadSpec.short
          rw [List.length_drop] at hdata
          rw [hlength, List.length_cons, List.length_cons]
          omega
        · obtain ⟨data, hdat⟩ := addDecodedUnits_some 0 (Nat.le_of_not_lt hdata)
          simp only [hdat, Option.bind_some]
          rw [List.length_drop] at hdata
          have hdrop : (header :: id :: units).drop (headLength (header :: id :: units)) =
              (units.drop addressUnits).drop dataUnits := by
            rw [hlength, List.drop_drop, Nat.add_assoc, Nat.add_comm 2]
            rfl
          rw [← hdrop]
          apply HeadSpec.command
          · rw [hlength, List.length_cons, List.length_cons]
            omega
          · exact hsingle
          · rfl

theorem readWrReg_spec (units : List UInt8) :
    HeadSpec (Commands.WrReg :: units) (readWrReg units) := by
  match units with
  | [] => exact HeadSpec.short (by decide)
  | [_] => exact HeadSpec.short (by rw [headLength_wrReg]; exact (by decide : 2 < 8))
  | id :: first :: units =>
      by_cases hfirst : first >>> 7 = 0
      · have hsingle : isMultiple (Commands.WrReg :: id :: first :: units) = false := by
          simp [isMultiple, hfirst]
        have hlength : headLength (Commands.WrReg :: id :: first :: units) = 8 := by
          rw [headLength_wrReg, hsingle]
          rfl
        simp only [readWrReg, if_pos hfirst]
        by_cases haddress : (first :: units).length < 2
        · rw [addDecodedUnits_none haddress]
          apply HeadSpec.short
          rw [hlength]
          rw [List.length_cons] at haddress
          simp only [List.length_cons]
          omega
        · obtain ⟨address, haddr⟩ := addDecodedUnits_some 0 (Nat.le_of_not_lt haddress)
          rw [haddr, Option.bind_eq_bind, Option.bind_some]
          by_cases hdata : ((first :: units).drop 2).length < 4
          · simp only [addDecodedUnits_none hdata]
            apply HeadSpec.short
            rw [hlength]
            simp only [List.length_cons, List.length_drop] at hdata haddress ⊢
            omega
          · obtain ⟨data, hdat⟩ := addDecodedUnits_some 0 (Nat.le_of_not_lt hdata)
            simp only [hdat, Option.bind_some]
            have hdrop : (Commands.WrReg :: id :: first :: units).drop
                (headLength (Commands.WrReg :: id :: first :: units)) =
                  ((first :: units).drop 2).drop 4 := by
              rw [hlength, List.drop_drop]
              rfl
            rw [← hdrop]
            apply HeadSpec.command
            · rw [hlength]
              simp only [List.length_cons, List.length_drop] at hdata haddress ⊢
              omega
            · exact hsingle
            · rfl
      · cases units with
        | nil =>
            simp only [readWrReg, if_neg hfirst]
            apply HeadSpec.short
            have hmulti : isMultiple [Commands.WrReg, id, first] = true := by
              simp [isMultiple, hfirst]
            rw [headLength_wrReg, hmulti]
            exact Nat.lt_succ_self 3
        | cons low units =>
            simp only [readWrReg, if_neg hfirst]
            exact HeadSpec.multiple id first low units rfl hfirst

theorem readHead_spec {units : List UInt8} (h : units ≠ []) : HeadSpec units (readHead units) := by
  cases units with
  | nil => exact absurd rfl h
  | cons header units =>
      rw [readHead, readFront]
      by_cases hwr : header = Commands.WrReg
      · subst hwr
        exact readWrReg_spec units
      · have hsingle := isMultiple_of_ne hwr units
        by_cases hcal : header = Commands.Cal
        · subst hcal
          exact readDecoded_spec rfl hsingle
        by_cases hrd : header = Commands.RdReg
        · subst hrd
          exact readDecoded_spec rfl hsingle
        have hlength : headLength (header :: units) = 2 := by
          simp [headLength, hwr, hcal, hrd]
        by_cases hclear : header = Commands.Clear
        · subst hclear
          exact readDecoded_spec hlength hsingle
        by_cases hpulse : header = Commands.GlobalPulse
        · subst hpulse
          exact readDecoded_spec hlength hsingle
        simp only [if_neg hclear, if_neg hpulse, if_neg hcal, if_neg hwr, if_neg hrd, ite_self]
        exact readRaw_spec hlength hsingle

/-! ## Units behind the command -/

def Front.append (later : List UInt8) : Front → Front
  | .command cmd units => .command cmd (units ++ later)
  | .multiple cmd units => .multiple cmd (units ++ later)

theorem readRaw_append {header : UInt8} {units : List UInt8} {f : Front}
    (h : readRaw header units = some f) (later : List UInt8) :
    readRaw header (units ++ later) = some (f.append later) := by
  cases units with
  | nil => cases h
  | cons id units =>
      injection h with h
      rw [← h]
      rfl

theorem readDecoded_append {header : UInt8} {addressUnits dataUnits : Nat} {units : List UInt8}
    {f : Front} (h : readDecoded header addressUnits dataUnits units = some f)
    (later : List UInt8) :
    readDecoded header addressUnits dataUnits (units ++ later) = some (f.append later) := by
  cases units with
  | nil => cases h
  | cons id units =>
      rw [readDecoded, Option.bind_eq_bind, Option.bind_eq_some_iff] at h
      obtain ⟨⟨address, units'⟩, haddress, h⟩ := h
      obtain ⟨⟨data, units''⟩, hdata, h⟩ := Option.bind_eq_some_iff.mp h
      injection h with h
      rw [List.cons_append, readDecoded, addDecodedUnits_append haddress, Option.bind_eq_bind,
        Option.bind_some]
      simp only [addDecodedUnits_append hdata, Option.bind_some]
      rw [← h]
      rfl

theorem readWrReg_append {units : List UInt8} {f : Front} (h : readWrReg units = some f)
    (later : List UInt8) : readWrReg (units ++ later) = some (f.append later) := by
  match units with
  | [] => cases h
  | [_] => cases h
  | id :: first :: units =>
      simp only [List.cons_append]
      by_cases hfirst : first >>> 7 = 0
      · simp only [readWrReg, if_pos hfirst] at h ⊢
        rw [Option.bind_eq_bind, Option.bind_eq_some_iff] at h
        obtain ⟨⟨address, units'⟩, haddress, h⟩ := h
        obtain ⟨⟨data, units''⟩, hdata, h⟩ := Option.bind_eq_some_iff.mp h
        injection h with h
        rw [← List.cons_append, addDecodedUnits_append haddress, Option.bind_eq_bind,
          Option.bind_some]
        simp only [addDecodedUnits_append hdata, Option.bind_some]
        rw [← h]
        rfl
      · simp only [readWrReg, if_neg hfirst] at h ⊢
        cases units with
        | nil => cases h
        | cons low units =>
            injection h with h
            rw [← h]
            rfl

/-- With enough units the rest of the buffer does not matter. -/
theorem readHead_append {units : List UInt8} {f : Front} (h : readHead units = some f)
    (later : List UInt8) : readHead (units ++ later) = some (f.append later) := by
  cases units with
  | nil => cases h
  | cons header units =>
      rw [List.cons_append]
      rw [readHead, readFront] at h ⊢
      by_cases hsync : header = Commands.Sync
      · rw [if_pos hsync] at h ⊢
        exact readRaw_append h later
      by_cases hpll : header = Commands.PLLlock
      · rw [if_neg hsync, if_pos hpll] at h ⊢
        exact readRaw_append h later
      by_cases hclear : header = Commands.Clear
      · rw [if_neg hsync, if_neg hpll, if_pos hclear] at h ⊢
        exact readDecoded_append h later
      by_cases hpulse : header = Commands.GlobalPulse
      · rw [if_neg hsync, if_neg hpll, if_neg hclear, if_pos hpulse] at h ⊢
        exact readDecoded_append h later
      rw [if_neg hsync, if_neg hpll, if_neg hclear, if_neg hpulse] at h ⊢
      by_cases hcal : header = Commands.Cal
      · rw [if_pos hcal] at h ⊢
        exact readDecoded_append h later
      by_cases hwr : header = Commands.WrReg
      · rw [if_neg hcal, if_pos hwr] at h ⊢
        exact readWrReg_append h later
      by_cases hrd : header = Commands.RdReg
      · rw [if_neg hcal, if_neg hwr, if_pos hrd] at h ⊢
        exact readDecoded_append h later
      rw [if_neg hcal, if_neg hwr, if_neg hrd] at h ⊢
      exact readRaw_append h later

/-! ## Heads of pieces -/

namespace Piece

variable {p : Piece} {cmd : Cmd}

theorem head_append_ne_nil (p : Piece) (rest : List UInt8) : p.head ++ rest ≠ [] := by
  intro h
  have hpos := p.pos
  rw [(List.append_eq_nil_iff.mp h).1] at hpos
  exact absurd hpos (Nat.lt_irrefl 0)

theorem command_head (hbody : p.body = .command cmd) (rest : List UInt8) :
    isMultiple (p.head ++ rest) = false ∧ (p.head ++ rest).head? = some cmd.header ∧
      headLength (p.head ++ rest) ≤ (p.head ++ rest).length ∧
        (p.head ++ rest).drop (headLength (p.head ++ rest)) = rest := by
  have hread := p.reads rest
  have hspec := readHead_spec (p.head_append_ne_nil rest)
  rw [hbody] at hread
  rw [hread] at hspec
  generalize p.head ++ rest = units at hspec ⊢
  rw [Body.front] at hspec
  generalize hrest : rest = later at hspec
  cases hspec with
  | command cmd hlength hsingle hheader => exact ⟨hsingle, hheader, hlength, rfl⟩

theorem multiple_head {data : List UInt16} (hbody : p.body = .multiple cmd data)
    (rest : List UInt8) :
    cmd.header = Commands.WrReg ∧ ∃ id high low : UInt8, high >>> 7 ≠ 0 ∧
      p.head ++ rest = Commands.WrReg :: id :: high :: low :: rest := by
  have hread := p.reads rest
  have hspec := readHead_spec (p.head_append_ne_nil rest)
  rw [hbody] at hread
  rw [hread] at hspec
  generalize p.head ++ rest = units at hspec ⊢
  rw [Body.front] at hspec
  cases hspec with
  | multiple id high low rest hunits hhigh => exact ⟨rfl, id, high, low, hhigh, hunits⟩

end Piece

end Yarr.Itkpixv2Emu
