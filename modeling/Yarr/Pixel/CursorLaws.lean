import Yarr.Pixel.Cursor

/-!
# Laws of the cursor

A search for the next block stays inside of the container at hand, or it opens
the next one that holds a kept block.
-/

namespace Yarr.Pixel

namespace Cursor

/-- The current block is the nearest one behind the position, and only a container with data
has blocks around it. -/
structure Placed (c : Cursor) : Prop where
  head : ∀ b bs, c.before = b :: bs → c.data = some b
  spent : c.dataStat = none → c.before = [] ∧ c.after = []

theorem placed_previous {c : Cursor} (h : c.Placed) : c.getPreviousDataBlock.Placed := by
  cases hb : c.before with
  | nil =>
      refine ⟨?_, ?_⟩
      · intro b bs hbs
        simp [getPreviousDataBlock, hb] at hbs
      · intro hs
        have hs' : c.dataStat = none := by simpa [getPreviousDataBlock, hb, dataStat] using hs
        simpa [getPreviousDataBlock, hb] using h.spent hs'
  | cons b before =>
      refine ⟨?_, ?_⟩
      · intro b' bs hbs
        simp only [getPreviousDataBlock, hb] at hbs ⊢
        simp [hbs]
      · intro hs
        have hs' : c.dataStat = none := by simpa [getPreviousDataBlock, hb, dataStat] using hs
        simp [(h.spent hs').1] at hb

/-- Opening containers: up to the first kept block, or up to an empty container. -/
theorem openFrom_cases (c : Cursor) (ps : List Parcel) (o : Output) :
    (∃ b p bs rest o', c.openFrom ps o =
        (some b, { c with input := rest, current := some p, before := [b], after := bs }, o') ∧
      p.blocks.isSome = true) ∨
    (∃ p rest o', c.openFrom ps o =
        (none, { c with input := rest, current := p, before := [], after := [] }, o')) := by
  induction ps generalizing o with
  | nil => exact Or.inr ⟨none, [], o, rfl⟩
  | cons p rest ih =>
      cases hb : p.blocks with
      | none =>
          refine Or.inr ⟨some p, rest,
            if p.stat.is_end_of_iteration then o.endOfIteration p.stat else o, ?_⟩
          simp only [openFrom, hb]
      | some bs =>
          cases bs with
          | cons b bs =>
              exact Or.inl ⟨b, p, bs, rest, o.startContainer p.stat,
                by simp only [openFrom, hb], by simp [hb]⟩
          | nil =>
              -- a container of skipped blocks is started and finished
              have hopen : c.openFrom (p :: rest) o = c.openFrom rest
                  ((o.startContainer p.stat).finishContainer p.stat) := by
                simp only [openFrom, hb]
              rw [hopen]
              exact ih ((o.startContainer p.stat).finishContainer p.stat)

theorem getNextDataBlock_inside {c : Cursor} {b : Block} {bs : List Block}
    (ha : c.after = b :: bs) (o : Output) : c.getNextDataBlock o =
      (true, { c with before := b :: c.before, after := bs, data := some b,
                      dataPre := c.data.getD RawReader.fakeErrorFrame }, o) := by
  simp only [getNextDataBlock, advance, ha]

theorem getNextDataBlock_open {c : Cursor} (ha : c.after = []) (o : Output) :
    c.getNextDataBlock o =
      match ({ c with dataPre := c.data.getD RawReader.fakeErrorFrame }).openFrom c.input
          (c.leave o) with
      | (some b, c, o) => (true, { c with data := some b }, o)
      | (none, c, o) => (false, c, o) := by
  simp only [getNextDataBlock, advance, ha]
  rfl

theorem placed_next {c : Cursor} (hc : c.Placed) (o : Output) :
    (c.getNextDataBlock o).2.1.Placed := by
  have hhead : ∀ (b : Block) (before : List Block), ∀ b' bs', b :: before = b' :: bs' →
      some b = some b' := fun b _ b' _ heq => congrArg some (List.cons.inj heq).1
  cases ha : c.after with
  | cons b bs =>
      rw [getNextDataBlock_inside ha]
      refine ⟨hhead b c.before, fun hs => ?_⟩
      have hs' : c.dataStat = none := hs
      simp [(hc.spent hs').2] at ha
  | nil =>
      rw [getNextDataBlock_open ha]
      rcases openFrom_cases { c with dataPre := c.data.getD RawReader.fakeErrorFrame } c.input
          (c.leave o) with ⟨b, p, bs, rest, o', heq, hp⟩ | ⟨p, rest, o', heq⟩
      · rw [heq]
        refine ⟨hhead b [], fun hs => ?_⟩
        have hs' : (p.blocks.map fun _ => p.stat) = none := hs
        simp [Option.map_eq_none_iff.mp hs'] at hp
      · rw [heq]
        exact ⟨fun b bs hb => (by cases hb), fun _ => ⟨rfl, rfl⟩⟩

theorem data_previous_next {c : Cursor} {b : Block} (hc : c.Placed) (hd : c.data = some b)
    (o : Output) : (c.getNextDataBlock o).2.1.getPreviousDataBlock.data = some b := by
  cases ha : c.after with
  | cons b' bs =>
      rw [getNextDataBlock_inside ha]
      cases hb : c.before with
      | nil => simp [getPreviousDataBlock, hd]
      | cons b'' before =>
          have hhead := hc.head b'' before hb
          rw [hd] at hhead
          simp [getPreviousDataBlock, Option.some.inj hhead]
  | nil =>
      rcases openFrom_cases { c with dataPre := c.data.getD RawReader.fakeErrorFrame } c.input
          (c.leave o) with
        ⟨b', p, bs, rest, o', heq, -⟩ | ⟨p, rest, o', heq⟩
      · rw [getNextDataBlock_open ha, heq]
        simp [getPreviousDataBlock, hd]
      · rw [getNextDataBlock_open ha, heq]
        simp [getPreviousDataBlock, hd]

end Cursor

end Yarr.Pixel
