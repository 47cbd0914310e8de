import Mathlib.Data.List.Basic
import Mathlib.Tactic.Common
import Yarr.Pixel.Containers

/-!
# Readers without indices

A decoder only ever asks for the next or the previous block that is not
skipped. The cursor answers from two lists, the kept blocks on either side of
the position, and knows nothing of buffers, indices and skipped blocks. Every
well-placed index reader is a cursor under `view`, block by block and in what
it does to the output side, so a decoder cannot tell them apart.
-/

namespace Yarr.Pixel

/-- What the decoders ask of their input. `stat` is `_curInV->stat`. -/
class BlockReader (ρ : Type) where
  inputEmpty : ρ → Bool
  data : ρ → Option Block
  stat : ρ → Option LoopStatus
  getNextDataBlock : ρ → Output → Bool × ρ × Output
  getPreviousDataBlock : ρ → ρ

/-! ## Cursors -/

/-- A container after skipping; `blocks` is `none` where it holds no buffer at all. -/
structure Parcel where
  stat : LoopStatus
  blocks : Option (List Block)
  deriving DecidableEq

def Parcel.ofContainer (cfg : DecoderConfig) (c : RawDataContainer) : Parcel where
  stat := c.stat
  blocks := if c.size = 0 then none else some (c.blocks.filter fun b => !cfg.skips b)

/-- `before` holds the kept blocks of the container up to the current one, nearest first. -/
structure Cursor where
  input : List Parcel
  current : Option Parcel
  before : List Block
  after : List Block
  data : Option Block
  dataPre : Block
  deriving DecidableEq

namespace Cursor

/-- The first kept block of the waiting containers, up to an empty container. -/
def openFrom (c : Cursor) : List Parcel → Output → Option Block × Cursor × Output
  | [], o => (none, { c with input := [], current := none, before := [], after := [] }, o)
  | p :: rest, o =>
      match p.blocks with
      | none =>
          (none, { c with input := rest, current := some p, before := [], after := [] },
            if p.stat.is_end_of_iteration then o.endOfIteration p.stat else o)
      | some [] => openFrom c rest ((o.startContainer p.stat).finishContainer p.stat)
      | some (b :: bs) =>
          (some b, { c with input := rest, current := some p, before := [b], after := bs },
            o.startContainer p.stat)

/-- Whether the current container held data, and its status if so. -/
def dataStat (c : Cursor) : Option LoopStatus :=
  c.current.bind fun p => p.blocks.map fun _ => p.stat

def leave (c : Cursor) (o : Output) : Output :=
  match c.dataStat with
  | some stat => o.finishContainer stat
  | none => o

def advance (c : Cursor) (o : Output) : Option Block × Cursor × Output :=
  match c.after with
  | b :: bs => (some b, { c with before := b :: c.before, after := bs }, o)
  | [] => c.openFrom c.input (c.leave o)

def getNextDataBlock (c : Cursor) (o : Output) : Bool × Cursor × Output :=
  match ({ c with dataPre := c.data.getD RawReader.fakeErrorFrame }).advance o with
  | (some b, c, o) => (true, { c with data := some b }, o)
  | (none, c, o) => (false, c, o)

def getPreviousDataBlock (c : Cursor) : Cursor :=
  match c.before with
  | [] => { c with data := some c.dataPre }
  | b :: before =>
      { c with before := before, after := b :: c.after,
               data := some (before.head?.getD c.dataPre) }

theorem openFrom_congr (c : Cursor) (input : List Parcel) (current : Option Parcel)
    (before after : List Block) (ps : List Parcel) (o : Output) :
    ({ c with input := input, current := current, before := before, after := after }).openFrom ps o
      = c.openFrom ps o := by
  induction ps generalizing o with
  | nil => rfl
  | cons p rest ih =>
      cases hb : p.blocks with
      | none => simp [openFrom, hb]
      | some bs =>
          cases bs with
          | nil => simp [openFrom, hb, ih]
          | cons b bs => simp [openFrom, hb]

theorem openFrom_cons {c : Cursor} {p : Parcel} {kept : List Block} (h : p.blocks = some kept)
    (rest : List Parcel) (o : Output) :
    c.openFrom (p :: rest) o =
      ({ c with input := rest, current := some p, before := [], after := kept }).advance
        (o.startContainer p.stat) := by
  cases kept with
  | nil => simp [openFrom, advance, leave, dataStat, h, openFrom_congr]
  | cons b bs => simp [openFrom, advance, h]

instance : BlockReader Cursor where
  inputEmpty c := c.input.isEmpty
  data := Cursor.data
  stat c := c.current.map Parcel.stat
  getNextDataBlock := Cursor.getNextDataBlock
  getPreviousDataBlock := Cursor.getPreviousDataBlock

end Cursor

/-! ## Positions in a container -/

namespace RawDataContainer

/-- `rawDataIdx` and `wordIdx` point to block `n` of the container. -/
def Stands (c : RawDataContainer) (rawDataIdx wordIdx : Int) (n : Nat) : Prop :=
  ∃ (i j : Nat) (d : RawData), rawDataIdx = i ∧ wordIdx = 2 * j ∧ c.data[i]? = some d ∧
    j < d.blocks.length ∧ n = ((c.data.take i).flatMap RawData.blocks).length + j

theorem blocks_split {c : RawDataContainer} {i : Nat} {d : RawData} (h : c.data[i]? = some d) :
    c.blocks = (c.data.take i).flatMap RawData.blocks ++
      (d.blocks ++ (c.data.drop (i + 1)).flatMap RawData.blocks) := by
  have hi : i < c.data.length := (List.getElem?_eq_some_iff.mp h).1
  have hd : c.data[i] = d := (List.getElem?_eq_some_iff.mp h).2
  have hsplit : c.data = c.data.take i ++ d :: c.data.drop (i + 1) := by
    rw [← hd, List.getElem_cons_drop, List.take_append_drop]
  unfold blocks
  conv_lhs => rw [hsplit]
  rw [List.flatMap_append, List.flatMap_cons]

theorem sizeAt_eq {c : RawDataContainer} {i : Nat} {d : RawData} (h : c.data[i]? = some d) :
    c.sizeAt i = 2 * d.blocks.length := by
  simp [sizeAt, h, RawData.getSize]

theorem Stands.getElem? {c : RawDataContainer} {rd w : Int} {n : Nat} (h : c.Stands rd w n) :
    c.blocks[n]? = some (c.blockAt rd w) := by
  obtain ⟨i, j, d, rfl, rfl, hd, hj, rfl⟩ := h
  have hat : c.blockAt i (2 * j) = d.blocks[j] := by
    have hidx : (2 * (j : Int)).toNat / 2 = j := by omega
    simp [blockAt, hd, RawData.get, hidx, List.getElem?_eq_getElem hj]
  rw [hat, blocks_split hd, List.getElem?_append_right (by omega), Nat.add_sub_cancel_left,
    List.getElem?_append_left hj, List.getElem?_eq_getElem hj]

theorem Stands.lt {c : RawDataContainer} {rd w : Int} {n : Nat} (h : c.Stands rd w n) :
    n < c.blocks.length := by
  have hget := h.getElem?
  rw [List.getElem?_eq_some_iff] at hget
  exact hget.1

theorem Stands.nonneg {c : RawDataContainer} {rd w : Int} {n : Nat} (h : c.Stands rd w n) :
    0 ≤ rd ∧ rd < c.size ∧ 0 ≤ w := by
  obtain ⟨i, j, d, rfl, rfl, hd, -, -⟩ := h
  have hi : i < c.data.length := (List.getElem?_eq_some_iff.mp hd).1
  unfold size
  omega

theorem stands_zero {c : RawDataContainer} (h : c.size ≠ 0) : c.Stands 0 0 0 := by
  unfold size at h
  have hpos : 0 < c.data.length := Nat.pos_of_ne_zero h
  refine ⟨0, 0, c.data[0], rfl, rfl, List.getElem?_eq_getElem hpos, ?_, by simp⟩
  exact List.length_pos_iff.mpr c.data[0].nonempty

theorem length_take_succ {c : RawDataContainer} {i : Nat} {d : RawData}
    (h : c.data[i]? = some d) : ((c.data.take (i + 1)).flatMap RawData.blocks).length =
      ((c.data.take i).flatMap RawData.blocks).length + d.blocks.length := by
  rw [List.take_add_one, h]
  simp

theorem Stands.forward {c : RawDataContainer} {i j n : Nat} {d : RawData}
    (hd : c.data[i]? = some d) (hj : j < d.blocks.length)
    (hn : n = ((c.data.take i).flatMap RawData.blocks).length + j) :
    (j + 1 < d.blocks.length ∧ c.Stands i (2 * (j + 1 : Nat)) (n + 1)) ∨
      (j + 1 = d.blocks.length ∧ i + 1 < c.size ∧ c.Stands (i + 1 : Nat) 0 (n + 1)) ∨
      (j + 1 = d.blocks.length ∧ i + 1 = c.size ∧ n + 1 = c.blocks.length) := by
  have hi : i < c.data.length := (List.getElem?_eq_some_iff.mp hd).1
  have htake := length_take_succ hd
  rcases Nat.lt_or_eq_of_le (Nat.succ_le_of_lt hj) with hlt | heq
  · exact Or.inl ⟨hlt, i, j + 1, d, rfl, rfl, hd, hlt, by omega⟩
  · rcases Nat.lt_or_eq_of_le (Nat.succ_le_of_lt hi) with hin | hend
    · refine Or.inr (Or.inl ⟨heq, hin, i + 1, 0, c.data[i + 1], rfl, rfl, ?_, ?_, by omega⟩)
      · exact List.getElem?_eq_getElem hin
      · exact List.length_pos_iff.mpr c.data[i + 1].nonempty
    · refine Or.inr (Or.inr ⟨heq, hend, ?_⟩)
      have hall : c.data.take (i + 1) = c.data := List.take_of_length_le (by omega)
      rw [hall] at htake
      unfold blocks
      omega

/-- One block back inside the buffer or to the end of the one before. -/
theorem Stands.backward {c : RawDataContainer} {i j n : Nat} {d : RawData}
    (hd : c.data[i]? = some d) (hj : j < d.blocks.length)
    (hn : n = ((c.data.take i).flatMap RawData.blocks).length + j) :
    (∃ j', j = j' + 1 ∧ ∃ m, n = m + 1 ∧ c.Stands i (2 * (j' : Int)) m) ∨
      (∃ i', j = 0 ∧ i = i' + 1 ∧ ∃ m, n = m + 1 ∧ c.Stands i' (c.sizeAt i' - 2) m) ∨
      (j = 0 ∧ i = 0 ∧ n = 0) := by
  cases j with
  | succ j' =>
      exact Or.inl ⟨j', rfl, _, by rw [hn, Nat.add_succ], i, j', d, rfl, rfl, hd, by omega, rfl⟩
  | zero =>
      cases i with
      | zero => exact Or.inr (Or.inr ⟨rfl, rfl, by simpa using hn⟩)
      | succ i' =>
          have hi : i' + 1 < c.data.length := (List.getElem?_eq_some_iff.mp hd).1
          have hi' : i' < c.data.length := by omega
          have hp : c.data[i']? = some c.data[i'] := List.getElem?_eq_getElem hi'
          have hpos : 0 < c.data[i'].blocks.length :=
            List.length_pos_iff.mpr c.data[i'].nonempty
          have htake := length_take_succ hp
          refine Or.inr (Or.inl ⟨i', rfl, rfl, n - 1, by omega, i', c.data[i'].blocks.length - 1,
            c.data[i'], rfl, ?_, hp, by omega, by omega⟩)
          rw [sizeAt_eq hp]
          omega

end RawDataContainer

/-! ## Well-placed readers -/

namespace RawReader

/-- The position is inside the current container, before it, or there is nothing to stand in. -/
def Located (r : RawReader) : Prop :=
  match r.curInV with
  | none => r.rawDataIdx ≤ 0 ∧ r.wordIdx ≤ 0
  | some c =>
      if c.size = 0 then r.rawDataIdx ≤ 0 ∧ r.wordIdx ≤ 0
      else (r.rawDataIdx < 0 ∧ r.wordIdx < 0) ∨ ∃ n, c.Stands r.rawDataIdx r.wordIdx n

/-- Blocks of the current container up to and including the current one. -/
def consumed (r : RawReader) : Nat :=
  match r.curInV with
  | none => 0
  | some c =>
      if c.size = 0 ∨ r.rawDataIdx < 0 then 0
      else ((c.data.take r.rawDataIdx.toNat).flatMap RawData.blocks).length +
        r.wordIdx.toNat / 2 + 1

theorem consumed_of_stands {r : RawReader} {c : RawDataContainer} {n : Nat}
    (hc : r.curInV = some c) (h : c.Stands r.rawDataIdx r.wordIdx n) : r.consumed = n + 1 := by
  have hnn := h.nonneg
  obtain ⟨i, j, d, hi, hj, hd, hlt, rfl⟩ := h
  have hsz : c.size ≠ 0 := by unfold RawDataContainer.size at hnn ⊢; omega
  have hrd : ¬ (c.size = 0 ∨ r.rawDataIdx < 0) := by omega
  simp only [consumed, hc, if_neg hrd]
  rw [hi, hj]
  have h2 : (2 * (j : Int)).toNat / 2 = j := by omega
  rw [Int.toNat_natCast, h2]

/-- The two lists of kept blocks around the position. -/
def view (cfg : DecoderConfig) (r : RawReader) : Cursor :=
  let blocks := (r.curInV.map RawDataContainer.blocks).getD []
  { input := r.input.map (Parcel.ofContainer cfg)
    current := r.curInV.map (Parcel.ofContainer cfg)
    before := ((blocks.take r.consumed).filter fun b => !cfg.skips b).reverse
    after := (blocks.drop r.consumed).filter fun b => !cfg.skips b
    data := r.data
    dataPre := r.dataPre }

/-- Blocks that a forward search can still meet. -/
def left (r : RawReader) : Nat :=
  ((r.curInV.map RawDataContainer.blocks).getD []).length - r.consumed +
    (r.input.map fun c => c.blocks.length).sum

theorem left_le_blockCount (r : RawReader) : r.left ≤ r.blockCount := by
  unfold left blockCount
  cases r.curInV with
  | none => simp
  | some c => simp

/-- Same reader, other position. -/
def at_ (r : RawReader) (rawDataIdx wordIdx : Int) : RawReader :=
  { r with rawDataIdx := rawDataIdx, wordIdx := wordIdx }

theorem popContainer_at (r : RawReader) (rd w : Int) (o : Output) :
    (r.at_ rd w).popContainer o = r.popContainer o := by
  unfold popContainer at_
  rfl

theorem moveForward_cases {r : RawReader} {c : RawDataContainer} {n : Nat}
    (h : c.Stands r.rawDataIdx r.wordIdx n) :
    (∃ rd w, r.moveForward c = r.at_ rd w ∧ c.Stands rd w (n + 1)) ∨
      (∃ rd w, r.moveForward c = r.at_ rd w ∧ rd ≥ c.size ∧ n + 1 = c.blocks.length) := by
  have hnn := h.nonneg
  obtain ⟨i, j, d, hi, hj, hd, hlt, hnv⟩ := h
  have hsize := RawDataContainer.sizeAt_eq hd
  have hin : ¬ ((i : Int) ≥ c.size) := by omega
  rcases RawDataContainer.Stands.forward hd hlt hnv with ⟨hj1, hs⟩ | ⟨hj1, hi1, hs⟩ | ⟨hj1, hi1, he⟩
  · have hcond : ¬ ((i : Int) < c.size ∧ r.wordIdx + 2 ≥ c.sizeAt i) := by
      rw [hsize]
      omega
    refine Or.inl ⟨i, r.wordIdx + 2, ?_, ?_⟩
    · simp only [moveForward, hi, if_neg hin, if_neg hcond, at_]
    · have hw : r.wordIdx + 2 = 2 * (j + 1 : Nat) := by omega
      rwa [hw]
  all_goals
    have hcond : (i : Int) < c.size ∧ r.wordIdx + 2 ≥ c.sizeAt i := by
      rw [hsize]
      omega
    have hmove : r.moveForward c = r.at_ (i + 1 : Nat) 0 := by
      simp only [moveForward, hi, if_neg hin, if_pos hcond, at_]
      rfl
  · exact Or.inl ⟨_, _, hmove, hs⟩
  · exact Or.inr ⟨_, _, hmove, by omega, he⟩

/-- One call of the implementation on a well-placed reader: the next block of the container
in hand, or the container is left and the clipboard asked. -/
theorem impl_cases {r : RawReader} (h : r.Located) (o : Output) :
    (∃ c b rd w, r.curInV = some c ∧ c.size ≠ 0 ∧ c.blocks[r.consumed]? = some b ∧
      c.Stands rd w r.consumed ∧ r.getNextDataBlockImpl o = (some b, r.at_ rd w, o)) ∨
      (((r.curInV.map RawDataContainer.blocks).getD []).length ≤ r.consumed ∧
        r.getNextDataBlockImpl o = r.popContainer
          (match r.curInV with
            | some c => if c.size = 0 then o else o.finishContainer c.stat
            | none => o)) := by
  cases hc : r.curInV with
  | none =>
      refine Or.inr ⟨by simp, ?_⟩
      simp [getNextDataBlockImpl, hc]
  | some c =>
      by_cases hz : c.size = 0
      · have hb : c.blocks = [] := by
          have hd : c.data = [] := List.length_eq_zero_iff.mp hz
          simp [RawDataContainer.blocks, hd]
        refine Or.inr ⟨by simp [hb], ?_⟩
        simp [getNextDataBlockImpl, hc, hz]
      simp only [Located, hc, if_neg hz] at h
      rcases h with ⟨hrd, hw⟩ | ⟨n, hn⟩
      · have hzero := RawDataContainer.stands_zero hz
        have hcons : r.consumed = 0 := by simp [consumed, hc, hrd]
        refine Or.inl ⟨c, c.blockAt 0 0, 0, 0, rfl, hz, ?_, ?_, ?_⟩
        · rw [hcons, hzero.getElem?]
        · rw [hcons]
          exact hzero
        · simp [getNextDataBlockImpl, hc, hz, hrd, at_]
      · have hcons := consumed_of_stands hc hn
        have hnot : ¬ r.rawDataIdx < 0 := by
          have hnn := hn.nonneg
          omega
        rcases moveForward_cases hn with ⟨rd, w, hmove, hs⟩ | ⟨rd, w, hmove, hge, hend⟩
        · have hin : ¬ (rd ≥ c.size) := by
            have hnn := hs.nonneg
            omega
          refine Or.inl ⟨c, c.blockAt rd w, rd, w, rfl, hz, ?_, ?_, ?_⟩
          · rw [hcons, hs.getElem?]
          · rw [hcons]
            exact hs
          · simp only [getNextDataBlockImpl, hc, if_neg hz, if_neg hnot, hmove]
            rw [if_neg (by simpa [at_] using hin)]
            rfl
        · refine Or.inr ⟨by simp [hcons, hend], ?_⟩
          simp only [getNextDataBlockImpl, hc, if_neg hz, if_neg hnot, hmove]
          rw [if_pos (by simpa [at_] using hge), popContainer_at]

theorem consumed_at {r : RawReader} {c : RawDataContainer} {rd w : Int} {n : Nat}
    (hc : r.curInV = some c) (h : c.Stands rd w n) : (r.at_ rd w).consumed = n + 1 :=
  @consumed_of_stands (r.at_ rd w) c n hc h

theorem located_at {r : RawReader} {c : RawDataContainer} {rd w : Int} {n : Nat}
    (hc : r.curInV = some c) (hz : c.size ≠ 0) (h : c.Stands rd w n) :
    (r.at_ rd w).Located := by
  simp only [Located, at_, hc, if_neg hz]
  exact Or.inr ⟨n, h⟩

theorem view_at_of_skips {cfg : DecoderConfig} {r : RawReader} {c : RawDataContainer}
    {rd w : Int} {b : Block} (hc : r.curInV = some c) (h : c.Stands rd w r.consumed)
    (hb : c.blocks[r.consumed]? = some b) (hs : cfg.skips b = true) :
    (r.at_ rd w).view cfg = r.view cfg := by
  have hcons := consumed_at hc h
  obtain ⟨hlt, hget⟩ := List.getElem?_eq_some_iff.mp hb
  have htake : c.blocks.take (r.consumed + 1) = c.blocks.take r.consumed ++ [b] := by
    rw [List.take_add_one, hb]
    rfl
  have hdrop : c.blocks.drop r.consumed = b :: c.blocks.drop (r.consumed + 1) := by
    rw [← hget, List.getElem_cons_drop]
  unfold view
  rw [hcons]
  simp [at_, hc, htake, hdrop, hs]

theorem view_at_of_keeps {cfg : DecoderConfig} {r : RawReader} {c : RawDataContainer}
    {rd w : Int} {b : Block} (hc : r.curInV = some c) (h : c.Stands rd w r.consumed)
    (hb : c.blocks[r.consumed]? = some b) (hs : cfg.skips b = false) :
    ∃ bs, (r.view cfg).after = b :: bs ∧
      (r.at_ rd w).view cfg = { r.view cfg with before := b :: (r.view cfg).before, after := bs } := by
  have hcons := consumed_at hc h
  obtain ⟨hlt, hget⟩ := List.getElem?_eq_some_iff.mp hb
  have htake : c.blocks.take (r.consumed + 1) = c.blocks.take r.consumed ++ [b] := by
    rw [List.take_add_one, hb]
    rfl
  have hdrop : c.blocks.drop r.consumed = b :: c.blocks.drop (r.consumed + 1) := by
    rw [← hget, List.getElem_cons_drop]
  refine ⟨(c.blocks.drop (r.consumed + 1)).filter fun b => !cfg.skips b, ?_, ?_⟩
  · simp [view, hc, hdrop, hs]
  · unfold view
    rw [hcons]
    simp [at_, hc, htake, hs]

theorem left_at {r : RawReader} {c : RawDataContainer} {rd w : Int} {b : Block}
    (hc : r.curInV = some c) (h : c.Stands rd w r.consumed)
    (hb : c.blocks[r.consumed]? = some b) : (r.at_ rd w).left + 1 = r.left := by
  have hcons := consumed_at hc h
  obtain ⟨hlt, -⟩ := List.getElem?_eq_some_iff.mp hb
  unfold left
  rw [hcons]
  simp only [at_, hc, Option.map_some, Option.getD_some]
  omega

theorem view_leave (cfg : DecoderConfig) (r : RawReader) (o : Output) :
    (r.view cfg).leave o = match r.curInV with
      | some c => if c.size = 0 then o else o.finishContainer c.stat
      | none => o := by
  cases hc : r.curInV with
  | none => simp [view, Cursor.leave, Cursor.dataStat, hc]
  | some c =>
      by_cases hz : c.size = 0 <;>
        simp [view, Cursor.leave, Cursor.dataStat, hc, Parcel.ofContainer, hz]

/-- The reader in front of a container that was just taken from the clipboard. -/
def openedAt (r : RawReader) (c : RawDataContainer) (rest : List RawDataContainer) : RawReader :=
  { r with input := rest, curInV := some c, rawDataIdx := -1, wordIdx := -1 }

theorem view_openedAt (cfg : DecoderConfig) (r : RawReader) {c : RawDataContainer}
    (rest : List RawDataContainer) :
    (r.openedAt c rest).view cfg =
      { r.view cfg with
        input := rest.map (Parcel.ofContainer cfg)
        current := some (Parcel.ofContainer cfg c)
        before := []
        after := c.blocks.filter fun b => !cfg.skips b } := by
  have hcons : (r.openedAt c rest).consumed = 0 := by simp [consumed, openedAt]
  unfold view
  rw [hcons]
  simp [openedAt]

/-- A reader between two calls: the block it stands on is not one of the skipped ones. -/
def Settled (cfg : DecoderConfig) (r : RawReader) : Prop :=
  r.Located ∧ ∀ c b, r.curInV = some c → 0 < r.consumed →
    c.blocks[r.consumed - 1]? = some b → cfg.skips b = false

/-- A search that has `found` a candidate ends where the cursor's next move ends. -/
def Finds (cfg : DecoderConfig) (fuel : Nat) (r : RawReader) (o : Output)
    (found : Option Block × RawReader × Output) : Prop :=
  ∃ b r' o', skipForward cfg fuel found = (b, r', o') ∧ r'.Settled cfg ∧
    (r.view cfg).advance o = (b, r'.view cfg, o')

theorem finds_impl {cfg : DecoderConfig} {fuel : Nat}
    (ih : ∀ {r : RawReader} {c b rd w} (o : Output), r.curInV = some c → c.size ≠ 0 →
      c.blocks[r.consumed]? = some b → c.Stands rd w r.consumed → r.left ≤ fuel →
      Finds cfg fuel r o (some b, r.at_ rd w, o))
    {r : RawReader} (o : Output) (h : r.Located) (hf : r.left ≤ fuel) :
    Finds cfg fuel r o (r.getNextDataBlockImpl o) := by
  rcases impl_cases h o with ⟨c, b, rd, w, hc, hz, hb, hs, himpl⟩ | ⟨hend, himpl⟩
  · rw [himpl]
    exact ih o hc hz hb hs hf
  · have hafter : (r.view cfg).after = [] := by
      simp only [view, List.drop_eq_nil_of_le hend, List.filter_nil]
    have hadv : (r.view cfg).advance o =
        (r.view cfg).openFrom (r.input.map (Parcel.ofContainer cfg)) ((r.view cfg).leave o) := by
      simp only [Cursor.advance, hafter]
      rfl
    rw [himpl, ← view_leave cfg r o]
    generalize (r.view cfg).leave o = o₁ at hadv
    unfold Finds
    rw [hadv]
    cases hin : r.input with
    | nil =>
        refine ⟨none, { r with curInV := none, rawDataIdx := 0, wordIdx := 0 }, o₁, ?_, ?_, ?_⟩
        · cases fuel <;> simp [popContainer, hin, skipForward]
        · simp [Settled, Located]
        · simp [Cursor.openFrom, view, consumed, hin]
    | cons c rest =>
        by_cases hz : c.size = 0
        · have hd : c.blocks = [] := by
            have hd : c.data = [] := List.length_eq_zero_iff.mp hz
            simp [RawDataContainer.blocks, hd]
          refine ⟨none, { r with input := rest, curInV := some c, rawDataIdx := 0, wordIdx := 0 },
            if c.stat.is_end_of_iteration then o₁.endOfIteration c.stat else o₁, ?_, ?_, ?_⟩
          · cases fuel <;> simp [popContainer, hin, hz, skipForward]
          · simp [Settled, Located, consumed, hz]
          · simp [Cursor.openFrom, view, consumed, hz, Parcel.ofContainer, hd]
        · have hzero := RawDataContainer.stands_zero hz
          have hcons : (r.openedAt c rest).consumed = 0 := by simp [consumed, openedAt]
          have hp : (Parcel.ofContainer cfg c).blocks =
              some (c.blocks.filter fun b => !cfg.skips b) := by
            simp [Parcel.ofContainer, hz]
          have hpop : r.popContainer o₁ =
              (some (c.blockAt 0 0), (r.openedAt c rest).at_ 0 0, o₁.startContainer c.stat) := by
            simp [popContainer, hin, hz, openedAt, at_]
          have hopen : (r.view cfg).openFrom ((c :: rest).map (Parcel.ofContainer cfg)) o₁ =
              ((r.openedAt c rest).view cfg).advance (o₁.startContainer c.stat) := by
            rw [List.map_cons, Cursor.openFrom_cons hp, view_openedAt]
            rfl
          have hleft : (r.openedAt c rest).left ≤ fuel := by
            unfold left at hf ⊢
            rw [hcons]
            simp only [hin, List.map_cons, List.sum_cons] at hf
            simp only [openedAt, Option.map_some, Option.getD_some]
            omega
          rw [hpop, hopen]
          have hfirst : c.blocks[(r.openedAt c rest).consumed]? = some (c.blockAt 0 0) := by
            rw [hcons, hzero.getElem?]
          exact ih _ rfl hz hfirst (by rwa [hcons]) hleft

/-- The forward search of the index reader is one move of its cursor. -/
theorem finds_block (cfg : DecoderConfig) (fuel : Nat) {r : RawReader} {c : RawDataContainer}
    {b : Block} {rd w : Int} (o : Output) (hc : r.curInV = some c) (hz : c.size ≠ 0)
    (hb : c.blocks[r.consumed]? = some b) (hs : c.Stands rd w r.consumed) (hf : r.left ≤ fuel) :
    Finds cfg fuel r o (some b, r.at_ rd w, o) := by
  induction fuel generalizing r c b rd w o with
  | zero =>
      have hleft := left_at hc hs hb
      omega
  | succ fuel ih =>
      have hleft := left_at hc hs hb
      have hloc := located_at hc hz hs
      cases hskip : cfg.skips b with
      | true =>
          obtain ⟨b', r', o', hsearch, hloc', hadv⟩ := finds_impl ih o hloc (by omega)
          rw [view_at_of_skips hc hs hb hskip] at hadv
          refine ⟨b', r', o', ?_, hloc', hadv⟩
          rw [skipForward, if_pos hskip, hsearch]
      | false =>
          obtain ⟨bs, hafter, hview⟩ := view_at_of_keeps hc hs hb hskip
          refine ⟨some b, r.at_ rd w, o, ?_, ⟨hloc, ?_⟩, ?_⟩
          · rw [skipForward, hskip]
            rfl
          · intro c' b' hc' _ hb'
            have hcc : c' = c := Option.some.inj (hc'.symm.trans hc)
            rw [consumed_at hc hs, Nat.add_sub_cancel, hcc, hb] at hb'
            rwa [← Option.some.inj hb']
          · rw [hview, Cursor.advance, hafter]

theorem getNextDataBlock_eq (cfg : DecoderConfig) (r : RawReader) (o : Output) :
    r.getNextDataBlock cfg o =
      match skipForward cfg r.blockCount
        (({ r with dataPre := r.data.getD fakeErrorFrame }).getNextDataBlockImpl o) with
      | (some b, r, o) => (true, { r with data := some b }, o)
      | (none, r, o) => (false, r, o) := rfl

theorem getNextDataBlock_view (cfg : DecoderConfig) {r : RawReader} (o : Output)
    (h : r.Settled cfg) : (r.getNextDataBlock cfg o).2.1.Settled cfg ∧
      (r.view cfg).getNextDataBlock o =
        ((r.getNextDataBlock cfg o).1, (r.getNextDataBlock cfg o).2.1.view cfg,
          (r.getNextDataBlock cfg o).2.2) := by
  have hleft : r.left ≤ r.blockCount := r.left_le_blockCount
  obtain ⟨b, r', o', hsearch, hset, hadv⟩ :=
    @finds_impl cfg r.blockCount (fun o hc hz hb hs hf => finds_block cfg _ o hc hz hb hs hf)
      { r with dataPre := r.data.getD fakeErrorFrame } o h.1 hleft
  have hcursor : (r.view cfg).getNextDataBlock o = match (b, r'.view cfg, o') with
      | (some b, c, o) => (true, { c with data := some b }, o)
      | (none, c, o) => (false, c, o) := by
    rw [← hadv]
    rfl
  rw [getNextDataBlock_eq, hsearch, hcursor]
  cases b with
  | none => exact ⟨hset, rfl⟩
  | some b => exact ⟨hset, rfl⟩

/-! ### Backwards -/

theorem consumed_le {r : RawReader} {c : RawDataContainer} (hc : r.curInV = some c)
    (h : r.Located) : r.consumed ≤ c.blocks.length := by
  by_cases hz : c.size = 0
  · simp [consumed, hc, hz]
  · simp only [Located, hc, if_neg hz] at h
    rcases h with ⟨hrd, -⟩ | ⟨n, hn⟩
    · simp [consumed, hc, hrd]
    · rw [consumed_of_stands hc hn]
      exact hn.lt

theorem skipBackward_front (cfg : DecoderConfig) (fuel : Nat) {r : RawReader} (h : r.Located)
    (hn : r.consumed ≤ 1) : ∃ rd w, rd < 0 ∧ w < 0 ∧
      skipBackward cfg (fuel + 1) r = { r.at_ rd w with data := some r.dataPre } := by
  have hneg : r.wordIdx - 2 < 0 ∧ r.rawDataIdx - 1 < 0 := by
    cases hc : r.curInV with
    | none =>
        simp only [Located, hc] at h
        omega
    | some c =>
        by_cases hz : c.size = 0
        · simp only [Located, hc, if_pos hz] at h
          omega
        simp only [Located, hc, if_neg hz] at h
        rcases h with ⟨hrd, hw⟩ | ⟨n, hs⟩
        · omega
        · rw [consumed_of_stands hc hs] at hn
          obtain ⟨i, j, d, hi, hj, hd, hlt, hnv⟩ := hs
          rcases RawDataContainer.Stands.backward hd hlt hnv with
            ⟨j', -, m, hm, -⟩ | ⟨i', -, -, m, hm, -⟩ | ⟨hj0, hi0, -⟩
          · omega
          · omega
          · omega
  refine ⟨r.rawDataIdx - 1, r.wordIdx - 2, hneg.2, hneg.1, ?_⟩
  simp only [skipBackward, if_pos hneg.1, if_pos hneg]
  rfl

theorem skipBackward_step (cfg : DecoderConfig) (fuel : Nat) {r : RawReader}
    {c : RawDataContainer} {m : Nat} (hc : r.curInV = some c) (h : r.Located)
    (hn : r.consumed = m + 2) : ∃ rd w b, c.size ≠ 0 ∧ c.Stands rd w m ∧
      c.blocks[m]? = some b ∧
      skipBackward cfg (fuel + 1) r =
        if cfg.skips b then skipBackward cfg fuel { r.at_ rd w with data := some b }
        else { r.at_ rd w with data := some b } := by
  have hz : c.size ≠ 0 := by
    intro hz
    simp [consumed, hc, hz] at hn
  simp only [Located, hc, if_neg hz] at h
  rcases h with ⟨hrd, -⟩ | ⟨n, hs⟩
  · simp [consumed, hc, hrd] at hn
  · rw [consumed_of_stands hc hs] at hn
    obtain ⟨i, j, d, hi, hj, hd, hlt, hnv⟩ := hs
    rcases RawDataContainer.Stands.backward hd hlt hnv with
      ⟨j', hj', k, hk, hback⟩ | ⟨i', hj0, hi', k, hk, hback⟩ | ⟨-, -, h0⟩
    · have hkm : k = m := by omega
      subst hkm
      refine ⟨i, 2 * (j' : Int), _, hz, hback, hback.getElem?, ?_⟩
      have hw : ¬ r.wordIdx - 2 < 0 := by omega
      have hw' : r.wordIdx - 2 = 2 * (j' : Int) := by omega
      simp only [skipBackward, hc, hi, hw']
      simp only [at_, hc]
      have hnn : ¬ (2 * (j' : Int) < 0) := by omega
      simp only [hnn, if_false, false_and]
    · have hkm : k = m := by omega
      subst hkm
      refine ⟨i', c.sizeAt i' - 2, _, hz, hback, hback.getElem?, ?_⟩
      have hw : r.wordIdx - 2 < 0 := by omega
      have hrd : r.rawDataIdx - 1 = i' := by omega
      have hnn : ¬ ((i' : Int) < 0) := by omega
      simp only [skipBackward, if_pos hw, hrd, hnn, and_false, if_false, hc]
      simp only [at_, hc]
    · omega

/-- The cursor that stands `n` blocks into the container of `r`. -/
def cursorAt (cfg : DecoderConfig) (r : RawReader) (n : Nat) : Cursor :=
  let blocks := (r.curInV.map RawDataContainer.blocks).getD []
  { r.view cfg with
    before := ((blocks.take n).filter fun b => !cfg.skips b).reverse
    after := (blocks.drop n).filter fun b => !cfg.skips b }

theorem skipBackward_spec (cfg : DecoderConfig) (fuel : Nat) {r : RawReader} (h : r.Located)
    (hf : r.consumed < fuel) : (skipBackward cfg fuel r).Settled cfg ∧
      (skipBackward cfg fuel r).view cfg =
        { r.cursorAt cfg (r.consumed - 1) with
          data := some ((r.cursorAt cfg (r.consumed - 1)).before.head?.getD r.dataPre) } := by
  induction fuel generalizing r with
  | zero => omega
  | succ fuel ih =>
      rcases Nat.lt_or_ge r.consumed 2 with hlt | hge
      · obtain ⟨rd, w, hrd, hw, hback⟩ := skipBackward_front cfg fuel h (by omega)
        have hzero : r.consumed - 1 = 0 := by omega
        have hcons : ({ r.at_ rd w with data := some r.dataPre } : RawReader).consumed = 0 := by
          simp only [consumed, at_]
          cases r.curInV <;> simp [hrd]
        rw [hback, hzero]
        refine ⟨⟨?_, ?_⟩, ?_⟩
        · simp only [Located, at_]
          cases r.curInV with
          | none => exact ⟨Int.le_of_lt hrd, Int.le_of_lt hw⟩
          | some c =>
              by_cases hz : c.size = 0
              · simp only [if_pos hz]
                exact ⟨Int.le_of_lt hrd, Int.le_of_lt hw⟩
              · simp only [if_neg hz]
                exact Or.inl ⟨hrd, hw⟩
        · intro c b _ hpos
          omega
        · unfold view
          rw [hcons]
          simp [cursorAt, at_, view]
      · cases hc : r.curInV with
        | none => simp [consumed, hc] at hge
        | some c =>
            obtain ⟨m, hm⟩ : ∃ m, r.consumed = m + 2 := ⟨r.consumed - 2, by omega⟩
            obtain ⟨rd, w, b, hz, hs, hb, hback⟩ := skipBackward_step cfg fuel hc h hm
            have hcons : ({ r.at_ rd w with data := some b } : RawReader).consumed = m + 1 :=
              @consumed_of_stands { r.at_ rd w with data := some b } c m hc hs
            have hloc : ({ r.at_ rd w with data := some b } : RawReader).Located :=
              located_at hc hz hs
            have htake : c.blocks.take (m + 1) = c.blocks.take m ++ [b] := by
              rw [List.take_add_one, hb]
              rfl
            have hdrop : c.blocks.drop m = b :: c.blocks.drop (m + 1) := by
              obtain ⟨hlt, hget⟩ := List.getElem?_eq_some_iff.mp hb
              rw [← hget, List.getElem_cons_drop]
            rw [hback, hm]
            cases hskip : cfg.skips b with
            | true =>
                obtain ⟨hset, hview⟩ := ih hloc (by omega)
                rw [if_pos rfl]
                refine ⟨hset, ?_⟩
                rw [hview, hcons]
                simp [cursorAt, at_, view, hc, htake, hdrop, hskip]
            | false =>
                rw [if_neg (by simp)]
                refine ⟨⟨hloc, ?_⟩, ?_⟩
                · intro c' b' hc' _ hb'
                  have hcc : c' = c := Option.some.inj (hc'.symm.trans hc)
                  rw [hcons, Nat.add_sub_cancel, hcc, hb] at hb'
                  rwa [← Option.some.inj hb']
                · unfold view
                  rw [hcons]
                  simp [cursorAt, at_, view, hc, htake, hskip]

theorem getPreviousDataBlock_view (cfg : DecoderConfig) {r : RawReader} (h : r.Settled cfg) :
    (r.getPreviousDataBlock cfg).Settled cfg ∧
      (r.getPreviousDataBlock cfg).view cfg = (r.view cfg).getPreviousDataBlock := by
  have hcount : r.consumed < r.blockCount + 1 := by
    cases hc : r.curInV with
    | none => simp [consumed, hc]
    | some c =>
        have hle := consumed_le hc h.1
        simp only [blockCount, hc, Option.toList_some, List.singleton_append, List.map_cons,
          List.sum_cons]
        omega
  obtain ⟨hset, hview⟩ := skipBackward_spec cfg (r.blockCount + 1) h.1 hcount
  refine ⟨hset, hview.trans ?_⟩
  by_cases hpos : 0 < r.consumed
  · cases hc : r.curInV with
    | none => simp [consumed, hc] at hpos
    | some c =>
        have hle := consumed_le hc h.1
        obtain ⟨n, hn⟩ : ∃ n, r.consumed = n + 1 := ⟨r.consumed - 1, by omega⟩
        obtain ⟨b, hb⟩ : ∃ b, c.blocks[n]? = some b :=
          ⟨_, List.getElem?_eq_getElem (by omega)⟩
        have hkept := h.2 c b hc hpos (by rwa [hn, Nat.add_sub_cancel])
        have htake : c.blocks.take (n + 1) = c.blocks.take n ++ [b] := by
          rw [List.take_add_one, hb]
          rfl
        have hdrop : c.blocks.drop n = b :: c.blocks.drop (n + 1) := by
          obtain ⟨hlt, hget⟩ := List.getElem?_eq_some_iff.mp hb
          rw [← hget, List.getElem_cons_drop]
        rw [hn, Nat.add_sub_cancel]
        simp [hn, Cursor.getPreviousDataBlock, cursorAt, view, hc, htake, hdrop, hkept]
  · have hzero : r.consumed = 0 := by omega
    simp [Cursor.getPreviousDataBlock, cursorAt, view, hzero]

end RawReader

/-! ## The reader of a processor -/

/-- A well-placed reader: no value of this type points outside its container. -/
structure StreamReader (cfg : DecoderConfig) where
  raw : RawReader
  settled : raw.Settled cfg

namespace StreamReader

variable {cfg : DecoderConfig}

@[ext] theorem ext {r₁ r₂ : StreamReader cfg} (h : r₁.raw = r₂.raw) : r₁ = r₂ := by
  cases r₁
  cases r₂
  congr

/-- The reader of a freshly constructed processor. -/
def initial (cfg : DecoderConfig) : StreamReader cfg where
  raw := { input := [], curInV := none, rawDataIdx := 0, wordIdx := 0, data := none,
           dataPre := RawReader.fakeErrorFrame }
  settled := by simp [RawReader.Settled, RawReader.Located]

/-- `m_input->pushData`. -/
def push (r : StreamReader cfg) (c : RawDataContainer) : StreamReader cfg where
  raw := { r.raw with input := r.raw.input ++ [c] }
  settled := r.settled

def view (r : StreamReader cfg) : Cursor := r.raw.view cfg

instance : BlockReader (StreamReader cfg) where
  inputEmpty r := r.raw.input.isEmpty
  data r := r.raw.data
  stat r := r.raw.curInV.map RawDataContainer.stat
  getNextDataBlock r o :=
    ((r.raw.getNextDataBlock cfg o).1,
      ⟨(r.raw.getNextDataBlock cfg o).2.1, (RawReader.getNextDataBlock_view cfg o r.settled).1⟩,
      (r.raw.getNextDataBlock cfg o).2.2)
  getPreviousDataBlock r :=
    ⟨r.raw.getPreviousDataBlock cfg, (RawReader.getPreviousDataBlock_view cfg r.settled).1⟩

end StreamReader

end Yarr.Pixel
