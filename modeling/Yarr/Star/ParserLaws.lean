import Yarr.Star.PacketFormat

/-!
# The two walks over a physics packet

Both loops go from item to item. A law says what one item does to the loop at
its place; from it follows, by induction on the items, what the whole packet
gives, whatever fills the last word behind the end pattern.
-/

namespace Yarr.Star

open Pixel (FrontEndHit FrontEndData)

theorem isOk_foldlM {α β : Type} {step : β → α → Except Fault β} (xs : List α) (b : β)
    (h : ∀ b, ∀ a ∈ xs, ∃ b', step b a = .ok b') : ∃ b', xs.foldlM step b = .ok b' := by
  induction xs generalizing b with
  | nil => exact ⟨b, rfl⟩
  | cons a xs ih =>
      obtain ⟨b₁, hb₁⟩ := h b a (by simp)
      obtain ⟨b₂, hb₂⟩ := ih b₁ (fun b a ha => h b a (by simp [ha]))
      refine ⟨b₂, ?_⟩
      rw [List.foldlM_cons, hb₁]
      exact hb₂

namespace StarChipPacket

/-! ## `parse_data_PRLP` -/

theorem skipIdles_of_byte {raw : List Nat} {iW : Nat} (h : iW < raw.length)
    (hb : raw[iW] ≠ 0x3FF) : skipIdles raw iW = .ok (some iW) := by
  rw [skipIdles]
  simp [List.getElem?_eq_getElem h, hb]

theorem errorWord_isOk {raw : List Nat} {iW : Nat} (h : iW + 8 ≤ raw.length) :
    ∃ e, errorWord raw iW = .ok e := by
  refine isOk_foldlM _ _ ?_
  intro e i hi
  have hi : i < 6 := List.mem_range.1 hi
  have hread := @readAt_of_lt raw (iW + 2 + i) (by omega)
  exact ⟨e ||| (raw[iW + 2 + i] <<< (8 * (5 - i))), by rw [hread]; rfl⟩

/-- One round of the loop at a word that no idle precedes. -/
theorem prlpLoop_word {raw pre post : List Nat} {w0 w1 : Nat} (word : Nat)
    (cs : List Cluster) (eb : Option ErrorBlock) (hraw : raw = pre ++ w0 :: w1 :: post) (hw0 : w0 ≠ 0x3FF)
    (hword : ((w0 <<< 8) ||| w1) % 2 ^ 16 = word) :
    prlpLoop raw ⟨false, pre.length, cs, eb⟩ =
      if word = 0x77F4 then
        if raw.length < pre.length + 8 then .ok ⟨true, pre.length, cs, eb⟩
        else
          match errorWord raw pre.length with
          | .error f => .error f
          | .ok error_word =>
              prlpLoop raw ⟨false, pre.length + 8, cs, some (ErrorBlock.parse error_word)⟩
      else if word = 0x6FED then .ok ⟨false, pre.length, cs, eb⟩
      else if word &&& 0x7FF = 0x3FE then prlpLoop raw ⟨false, pre.length + 2, cs, eb⟩
      else prlpLoop raw ⟨false, pre.length + 2, cs ++ [clusterOf word], eb⟩ := by
  have hlen : raw.length = pre.length + (post.length + 2) := by simp [hraw]
  have hread0 : readAt raw pre.length = .ok w0 := by
    rw [hraw]
    exact readAt_append _ _ _
  have hread1 : readAt raw (pre.length + 1) = .ok w1 := by
    rw [hraw, readAt_append_add]
    rfl
  have hskip : skipIdles raw pre.length = .ok (some pre.length) := by
    refine skipIdles_of_byte (by omega) ?_
    simpa [hraw] using hw0
  have hgo : ¬ pre.length + 1 ≥ raw.length := by omega
  rw [prlpLoop]
  simp only [hgo, if_false]
  split
  · next hf => simp [hskip] at hf
  · next hn => simp [hskip] at hn
  · next iW hs =>
      have hiW : iW = pre.length := by
        rw [hskip] at hs
        simpa using hs.symm
      subst hiW
      simp only [hread0, hread1, hword] <;> rfl

/-- The loop reads every item and stops at the end pattern. -/
theorem prlpLoop_items {raw post : List Nat} (items : List Item) (pre : List Nat)
    (cs : List Cluster) (eb : Option ErrorBlock)
    (hraw : raw = pre ++ (items.flatMap Item.bytes ++ 0x6F :: 0xED :: post)) :
    ∃ eb', prlpLoop raw ⟨false, pre.length, cs, eb⟩ =
      .ok ⟨false, (pre ++ items.flatMap Item.bytes).length,
        cs ++ items.flatMap Item.clusters, eb'⟩ := by
  induction items generalizing pre cs eb with
  | nil =>
      refine ⟨eb, ?_⟩
      rw [prlpLoop_word 0x6FED cs eb hraw (by decide) (by decide)]
      simp
  | cons item items ih =>
      -- the items behind this one start at a longer prefix
      have hnext : raw = (pre ++ item.bytes) ++
          (items.flatMap Item.bytes ++ 0x6F :: 0xED :: post) := by
        simp [hraw]
      simp only [List.flatMap_cons, ← List.append_assoc]
      cases item with
      | cluster c =>
          obtain ⟨eb', heb⟩ := ih _ (cs ++ [clusterOf c.word]) eb hnext
          have hsmall := c.small
          have hw0 : c.word / 256 ≠ 0x3FF := by omega
          refine ⟨eb', ?_⟩
          rw [prlpLoop_word c.word cs eb (by simpa [Item.bytes] using hraw) hw0
            (join_bytes (by omega)), if_neg c.notError, if_neg c.notEnd, if_neg c.notEmpty]
          simp only [List.length_append] at heb ⊢
          exact heb
      | noCluster channel =>
          obtain ⟨eb', heb⟩ := ih _ cs eb hnext
          have hchannel := channel.isLt
          have hw0 : channel.val * 8 + 3 ≠ 0x3FF := by omega
          refine ⟨eb', ?_⟩
          rw [prlpLoop_word (channel * 2048 + 0x3FE) cs eb (by simpa [Item.bytes] using hraw) hw0
            (noCluster_word channel), if_neg (by omega), if_neg (by omega),
            if_pos (noCluster_mask channel)]
          simp only [List.length_append, Item.clusters, List.append_nil] at heb ⊢
          exact heb
      | errorBlock channels =>
          have hlen : pre.length + 8 ≤ raw.length := by
            rw [hnext]
            simp [Item.bytes]
          obtain ⟨e, he⟩ := errorWord_isOk hlen
          obtain ⟨eb', heb⟩ := ih _ cs (some (ErrorBlock.parse e)) hnext
          refine ⟨eb', ?_⟩
          rw [prlpLoop_word 0x77F4 cs eb (by simpa [Item.bytes] using hraw) (by decide)
            (by decide), if_pos rfl, if_neg (by omega), he]
          simp only [List.length_append, Item.clusters, List.append_nil] at heb ⊢
          exact heb

end StarChipPacket

/-! ## `StarProcessPacket` -/

theorem errorBlockCalls_isOk {b : List Nat} {iW : Nat} (h : iW + 7 ≤ b.length) :
    ∃ e, errorBlockCalls b iW =
      .ok [.error_info 0 ((e >>> 36) &&& 0x7ff), .error_info 1 ((e >>> 24) &&& 0x7ff),
        .error_info 2 ((e >>> 12) &&& 0x7ff), .error_info 3 ((e >>> 0) &&& 0x7ff),
        .end_error_block] := by
  have hword : ∃ e, (List.range 6).foldlM (fun error_word i => do
      let w ← readAt b (iW + 1 + i)
      return error_word ||| (w <<< (8 * (5 - i)))) 0 = Except.ok e := by
    refine isOk_foldlM _ _ ?_
    intro e i hi
    have hi : i < 6 := List.mem_range.1 hi
    have hread := @readAt_of_lt b (iW + 1 + i) (by omega)
    exact ⟨e ||| (b[iW + 1 + i] <<< (8 * (5 - i))), by rw [hread]; rfl⟩
  obtain ⟨e, he⟩ := hword
  refine ⟨e, ?_⟩
  unfold errorBlockCalls
  rw [he]
  rfl

theorem clusterLoop_word {b pre post : List Nat} {w0 w1 : Nat} (word : Nat)
    (hb : b = pre ++ w0 :: w1 :: post) (hword : ((w0 <<< 8) ||| w1) % 2 ^ 16 = word) :
    clusterLoop b (pre.length + 1) =
      if word = 0x77f4 then
        if b.length < pre.length + 1 + 8 then
          .ok ⟨[.begin_error_block, .parse_error
            "Expect eight 8-bit error block words (including 0x77f4 marker)"], false⟩
        else
          match errorBlockCalls b (pre.length + 1) with
          | .error f => .error f
          | .ok calls => (clusterLoop b (pre.length + 1 + 8)).map
              (.prepend (.begin_error_block :: calls))
      else if word = 0x6fed then .ok ⟨[.data_end, .end_], true⟩
      else if word &&& 0x7ff = 0x3fe then
        (clusterLoop b (pre.length + 1 + 2)).map
          (.prepend [.data_no_cluster ((word >>> 11) &&& 0xf)])
      else (clusterLoop b (pre.length + 1 + 2)).map (.prepend (clusterCalls word)) := by
  have hlen : b.length = pre.length + (post.length + 2) := by simp [hb]
  have hread0 : readAt b (pre.length + 1 - 1) = .ok w0 := by
    rw [hb]
    exact readAt_append _ _ _
  have hread1 : readAt b (pre.length + 1) = .ok w1 := by
    rw [hb, readAt_append_add]
    rfl
  have hgo : ¬ pre.length + 1 + 1 > b.length := by omega
  rw [clusterLoop]
  simp only [hgo, if_false, hread0, hread1, hword] <;> rfl

/-- Calls that leave a processor at the hits of `clusters`. -/
def Adds (BASE : Nat) (chip_map : ChipMap) (clusters : List Cluster) (calls : List ProcCall) :
    Prop :=
  ∀ s : Decoded, s.curOut.events ≠ [] →
    calls.foldlM (MyProc.handle BASE chip_map) s =
      .ok ⟨addHits s.curOut (clusters.flatMap fun c =>
          clusterHits BASE chip_map c.input_channel c.address c.next),
        { s.curStatus with n_clusters := s.curStatus.n_clusters + clusters.length }⟩

section Adds

variable {BASE : Nat} {chip_map : ChipMap}

theorem Adds.append {cs ds : List Cluster} {xs ys : List ProcCall}
    (hx : Adds BASE chip_map cs xs) (hy : Adds BASE chip_map ds ys) :
    Adds BASE chip_map (cs ++ ds) (xs ++ ys) := by
  intro s hs
  rw [List.foldlM_append, hx s hs]
  refine Eq.trans (hy _ (addHits_events_ne_nil hs _)) ?_
  simp only [addHits_addHits, List.flatMap_append, List.length_append, Nat.add_assoc]

theorem adds_of_inherited (calls : List ProcCall)
    (h : ∀ c ∈ calls, ∀ s, MyProc.handle BASE chip_map s c = .ok s) :
    Adds BASE chip_map [] calls := by
  intro s _
  induction calls with
  | nil => simp [addHits_nil]; rfl
  | cons c calls ih =>
      rw [List.foldlM_cons, h c (by simp)]
      exact ih (fun c hc => h c (by simp [hc]))

theorem data_cluster_adds (c : Cluster) :
    Adds BASE chip_map [c] [.data_cluster c.input_channel c.address c.next] := by
  intro s hs
  rw [List.foldlM_cons]
  simp only [MyProc.handle, addClusterHits_eq BASE chip_map _ _ _ _ hs, Except.map,
    List.flatMap_cons, List.flatMap_nil, List.append_nil]
  rfl

theorem clusterCalls_adds (c : ClusterWord) :
    Adds BASE chip_map [StarChipPacket.clusterOf c.word] (clusterCalls c.word) := by
  have hsmall := c.small
  have hbit : c.word &&& 0x8000 = 0 := by
    rw [show 0x8000 = 2 ^ 15 from rfl, Nat.and_two_pow, Nat.testBit_lt_two_pow hsmall]
    rfl
  have haddress : ((c.word &&& 0x7ff) >>> 3) &&& 0xff = (c.word >>> 3) &&& 0xff := by
    rw [Nat.shiftRight_and_distrib, Nat.and_assoc]
    rfl
  have hnext : (c.word &&& 0x7ff) &&& 0x7 = c.word &&& 0x7 := by
    rw [Nat.and_assoc]
    rfl
  have hraw : Adds BASE chip_map []
      [.data_raw_cluster ((c.word >>> 11) &&& 0xf) (c.word &&& 0x7ff)] :=
    adds_of_inherited _ (by simp [MyProc.handle])
  have hcluster := hraw.append (data_cluster_adds (StarChipPacket.clusterOf c.word))
  simpa [clusterCalls, hbit, haddress, hnext, StarChipPacket.clusterOf] using hcluster

/-- The loop hands over the clusters of every item and ends the packet. -/
theorem clusterLoop_items {b post : List Nat} (items : List Item) (pre : List Nat)
    (hb : b = pre ++ (items.flatMap Item.bytes ++ 0x6F :: 0xED :: post)) :
    ∃ calls, clusterLoop b (pre.length + 1) = .ok ⟨calls, true⟩ ∧
      Adds BASE chip_map (items.flatMap Item.clusters) calls := by
  induction items generalizing pre with
  | nil =>
      refine ⟨[.data_end, .end_], ?_, adds_of_inherited _ ?_⟩
      · rw [clusterLoop_word 0x6FED hb (by decide)]
        simp
      · simp [MyProc.handle]
  | cons item items ih =>
      have hnext : b = (pre ++ item.bytes) ++
          (items.flatMap Item.bytes ++ 0x6F :: 0xED :: post) := by
        simp [hb]
      obtain ⟨calls, hcalls, hadds⟩ := ih _ hnext
      cases item with
      | cluster c =>
          have hsmall := c.small
          have hloop : clusterLoop b (pre.length + 1 + 2) = .ok ⟨calls, true⟩ := by
            rw [← hcalls]
            simp [Item.bytes, Nat.add_assoc]
          refine ⟨clusterCalls c.word ++ calls, ?_, (clusterCalls_adds c).append hadds⟩
          rw [clusterLoop_word c.word (by simpa [Item.bytes] using hb) (join_bytes (by omega)),
            if_neg c.notError, if_neg c.notEnd, if_neg c.notEmpty, hloop]
          rfl
      | noCluster channel =>
          have hchannel := channel.isLt
          have hloop : clusterLoop b (pre.length + 1 + 2) = .ok ⟨calls, true⟩ := by
            rw [← hcalls]
            simp [Item.bytes, Nat.add_assoc]
          have hfirst : Adds BASE chip_map []
              [.data_no_cluster (((channel.val * 2048 + 0x3FE) >>> 11) &&& 0xf)] :=
            adds_of_inherited _ (by simp [MyProc.handle])
          refine ⟨_, ?_, hfirst.append hadds⟩
          rw [clusterLoop_word (channel * 2048 + 0x3FE) (by simpa [Item.bytes] using hb)
            (noCluster_word channel), if_neg (by omega), if_neg (by omega),
            if_pos (noCluster_mask channel), hloop]
          rfl
      | errorBlock channels =>
          have hlen : pre.length + 1 + 8 ≤ b.length := by
            rw [hnext]
            simp [Item.bytes]
            omega
          obtain ⟨e, he⟩ := @errorBlockCalls_isOk b (pre.length + 1) (by omega)
          have hloop : clusterLoop b (pre.length + 1 + 8) = .ok ⟨calls, true⟩ := by
            rw [← hcalls]
            simp [Item.bytes, Nat.add_assoc]
          have hfirst : Adds BASE chip_map []
              (.begin_error_block :: [.error_info 0 ((e >>> 36) &&& 0x7ff),
                .error_info 1 ((e >>> 24) &&& 0x7ff), .error_info 2 ((e >>> 12) &&& 0x7ff),
                .error_info 3 ((e >>> 0) &&& 0x7ff), .end_error_block]) :=
            adds_of_inherited _ (by simp [MyProc.handle])
          refine ⟨_, ?_, hfirst.append hadds⟩
          rw [clusterLoop_word 0x77F4 (by simpa [Item.bytes] using hb) (by decide),
            if_pos rfl, if_neg (by omega), he, hloop]
          rfl

end Adds

end Yarr.Star
