import Mathlib.Data.List.Nodup
import Mathlib.Logic.Function.Basic
import Yarr.Core.Invariant

/-!
# The bookkeeper

The id of a front-end is its position in the vector of the entries. Two maps
beside the vector lead from a front-end to its id and from an rx channel to the
ids that listen to it.
-/

namespace Yarr.Scan

structure FrontEndConnectivity where
  txChannel : UInt32 := 99
  rxChannel : UInt32 := 99
  regRxChannel : UInt32 := 99
  deriving DecidableEq

/-- `FrontEndConnectivity(tx, rx)`: registers come back with the data. -/
def FrontEndConnectivity.ofChannels (tx rx : UInt32) : FrontEndConnectivity := ⟨tx, rx, rx⟩

/-- Front-ends stand for their pointers. -/
structure BookEntry (FrontEnd : Type) where
  fe : FrontEnd
  active : Bool := false
  txChannel : UInt32 := 666
  rxChannel : UInt32 := 666
  regRxChannel : UInt32 := 666

/-- A channel that is not in `rxToIdMap` has no ids, as `getRxToId` makes them empty. -/
structure Bookkeeper (FrontEnd : Type) where
  bookEntries : List (BookEntry FrontEnd)
  idMap : FrontEnd → Option Nat
  rxToIdMap : UInt32 → List Nat

namespace Bookkeeper

variable {FrontEnd : Type}

def empty : Bookkeeper FrontEnd := ⟨[], fun _ => none, fun _ => []⟩

variable (s : Bookkeeper FrontEnd)

def getNumOfEntries : Nat := s.bookEntries.length

/-- `none`: the program ends. -/
def getEntry (id : Nat) : Option (BookEntry FrontEnd) := s.bookEntries[id]?

/-- `none` is the null pointer. -/
def getFe (id : Nat) : Option FrontEnd := s.bookEntries[id]?.map BookEntry.fe

def getRxToId (rx : UInt32) : List Nat := s.rxToIdMap rx

/-- A front-end that is not known has the id 0. -/
def getId (fe : FrontEnd) : Nat := (s.idMap fe).getD 0

/-! ## What the maps should say -/

/-- The ids of the entries on an rx channel. -/
def idsOf (bookEntries : List (BookEntry FrontEnd)) (rx : UInt32) : List Nat :=
  (List.range bookEntries.length).filter fun id =>
    (bookEntries[id]?.map BookEntry.rxChannel) = some rx

/-- The maps agree with the entries. -/
structure Consistent : Prop where
  rxToId : ∀ rx, s.getRxToId rx = idsOf s.bookEntries rx
  getId : ∀ id entry, s.getEntry id = some entry → s.getId entry.fe = id
  valid : ∀ rx, ∀ id ∈ s.getRxToId rx, id < s.getNumOfEntries

/-- No front-end is in two entries. -/
def Distinct : Prop := (s.bookEntries.map BookEntry.fe).Nodup

/-! ## Adding and deleting -/

inductive Op (FrontEnd : Type) where
  | addFe (fe : FrontEnd) (cfg : FrontEndConnectivity)
  | delFe (id : Nat)
  | delFePtr (fe : FrontEnd)

/-- A deletion takes the last entry or none. -/
def Op.LastOnly : Op FrontEnd → Prop
  | .addFe _ _ => True
  | .delFe id => s.getNumOfEntries ≤ id + 1
  | .delFePtr fe => s.getNumOfEntries ≤ s.getId fe + 1

variable [DecidableEq FrontEnd]

def addFe (fe : FrontEnd) (cfg : FrontEndConnectivity) : Bookkeeper FrontEnd :=
  let uid := s.bookEntries.length
  { bookEntries := s.bookEntries ++
      [⟨fe, true, cfg.txChannel, cfg.rxChannel, cfg.regRxChannel⟩]
    idMap := Function.update s.idMap fe (some uid)
    rxToIdMap := Function.update s.rxToIdMap cfg.rxChannel (s.rxToIdMap cfg.rxChannel ++ [uid]) }

def addFeChannel (fe : FrontEnd) (channel : UInt32) : Bookkeeper FrontEnd :=
  s.addFe fe (.ofChannels channel channel)

/-- The loop behind `Remap everything`. -/
def remap (bookEntries : List (BookEntry FrontEnd)) (idMap : FrontEnd → Option Nat) :
    FrontEnd → Option Nat :=
  bookEntries.zipIdx.foldl (fun idMap e => Function.update idMap e.1.fe (some e.2)) idMap

def delFe (id : Nat) : Bookkeeper FrontEnd :=
  match s.bookEntries[id]? with
  | none => { s with idMap := remap s.bookEntries s.idMap }
  | some entry =>
      let rx := entry.rxChannel
      let bookEntries := s.bookEntries.eraseIdx id
      { bookEntries := bookEntries
        idMap := remap bookEntries s.idMap
        rxToIdMap := Function.update s.rxToIdMap rx ((s.rxToIdMap rx).filter (· ≠ id)) }

/-- `idMap[fe]` makes an entry of 0 for a pointer that it does not know. -/
def delFePtr (fe : FrontEnd) : Bookkeeper FrontEnd :=
  { s with idMap := Function.update s.idMap fe (some (s.getId fe)) }.delFe (s.getId fe)

/-- `none`: there is no second owner of a front-end to add it from. -/
def step (s : Bookkeeper FrontEnd) : Op FrontEnd → Option (Bookkeeper FrontEnd)
  | .addFe fe cfg => if fe ∈ s.bookEntries.map BookEntry.fe then none else some (s.addFe fe cfg)
  | .delFe id => some (s.delFe id)
  | .delFePtr fe => some (s.delFePtr fe)

/-! ## Lists of ids -/

omit [DecidableEq FrontEnd] in
theorem idsOf_concat (es : List (BookEntry FrontEnd)) (e : BookEntry FrontEnd) (rx : UInt32) :
    idsOf (es ++ [e]) rx = idsOf es rx ++ if e.rxChannel = rx then [es.length] else [] := by
  have hlength : (es ++ [e]).length = es.length + 1 := List.length_append
  have hfront : (List.range es.length).filter
      (fun id => ((es ++ [e])[id]?.map BookEntry.rxChannel) = some rx) = idsOf es rx := by
    apply List.filter_congr
    intro id hid
    rw [List.getElem?_append_left (List.mem_range.mp hid)]
  rw [idsOf, hlength, List.range_succ, List.filter_append, hfront, List.filter_singleton]
  by_cases hrx : e.rxChannel = rx
  · simp [hrx]
  · simp [hrx]

omit [DecidableEq FrontEnd] in
theorem mem_idsOf {es : List (BookEntry FrontEnd)} {rx : UInt32} {id : Nat} :
    id ∈ idsOf es rx ↔ ∃ e, es[id]? = some e ∧ e.rxChannel = rx := by
  rw [idsOf, List.mem_filter, decide_eq_true_iff, Option.map_eq_some_iff, List.mem_range]
  constructor
  · exact fun h => h.2
  · intro h
    obtain ⟨e, he, hrx⟩ := h
    exact ⟨(List.getElem?_eq_some_iff.mp he).1, e, he, hrx⟩

omit [DecidableEq FrontEnd] in
theorem lt_of_mem_idsOf {es : List (BookEntry FrontEnd)} {rx : UInt32} {id : Nat}
    (h : id ∈ idsOf es rx) : id < es.length := by
  obtain ⟨e, he, -⟩ := mem_idsOf.mp h
  exact (List.getElem?_eq_some_iff.mp he).1

omit [DecidableEq FrontEnd] in
theorem consistent_of_rxToId {s : Bookkeeper FrontEnd}
    (hrx : ∀ rx, s.getRxToId rx = idsOf s.bookEntries rx)
    (hid : ∀ id entry, s.getEntry id = some entry → s.getId entry.fe = id) : s.Consistent := by
  refine ⟨hrx, hid, ?_⟩
  intro rx id hmem
  rw [hrx] at hmem
  exact lt_of_mem_idsOf hmem

omit [DecidableEq FrontEnd] in
theorem idsOf_nodup (es : List (BookEntry FrontEnd)) (rx : UInt32) : (idsOf es rx).Nodup :=
  List.nodup_range.filter _

/-! ## The map of the ids -/

theorem remap_concat (es : List (BookEntry FrontEnd)) (e : BookEntry FrontEnd)
    (idMap : FrontEnd → Option Nat) :
    remap (es ++ [e]) idMap = Function.update (remap es idMap) e.fe (some es.length) := by
  rw [remap, List.zipIdx_append, List.foldl_append, remap]
  simp

/-- The id of a present front-end is its position, whatever the map had for it. -/
theorem remap_getElem (es : List (BookEntry FrontEnd)) (hnodup : (es.map BookEntry.fe).Nodup)
    (idMap : FrontEnd → Option Nat) {id : Nat} {e : BookEntry FrontEnd} (he : es[id]? = some e) :
    remap es idMap e.fe = some id := by
  induction es using List.reverseRecOn with
  | nil => cases he
  | append_singleton es last ih =>
      rw [List.map_append, List.map_singleton, List.nodup_append] at hnodup
      obtain ⟨hfront, -, hdisjoint⟩ := hnodup
      rw [remap_concat]
      rcases Nat.lt_or_ge id es.length with hlt | hge
      · rw [List.getElem?_append_left hlt] at he
        have hne : e.fe ≠ last.fe :=
          hdisjoint e.fe (List.mem_map_of_mem (List.mem_of_getElem? he)) last.fe
            List.mem_cons_self
        rw [Function.update_of_ne hne]
        exact ih hfront he
      · rw [List.getElem?_append_right hge, List.getElem?_singleton] at he
        by_cases hzero : id - es.length = 0
        · rw [if_pos hzero] at he
          have hid : id = es.length := by omega
          rw [← Option.some.inj he, Function.update_self, hid]
        · rw [if_neg hzero] at he
          cases he

/-! ## One operation -/

theorem addFe_distinct {s : Bookkeeper FrontEnd} (h : s.Distinct) {fe : FrontEnd}
    (hfe : fe ∉ s.bookEntries.map BookEntry.fe) (cfg : FrontEndConnectivity) :
    (s.addFe fe cfg).Distinct := by
  rw [Distinct, addFe, List.map_append, List.map_singleton]
  exact List.nodup_append.mpr ⟨h, List.nodup_singleton fe, by
    intro a ha b hb heq
    have hfe' : a = fe := heq.trans (List.mem_singleton.mp hb)
    rw [hfe'] at ha
    exact hfe ha⟩

theorem bookEntries_delFe (s : Bookkeeper FrontEnd) (id : Nat) :
    (s.delFe id).bookEntries = s.bookEntries.eraseIdx id := by
  rw [delFe]
  cases hentry : s.bookEntries[id]? with
  | none => exact (List.eraseIdx_of_length_le (List.getElem?_eq_none_iff.mp hentry)).symm
  | some entry => rfl

theorem delFe_distinct {s : Bookkeeper FrontEnd} (h : s.Distinct) (id : Nat) :
    (s.delFe id).Distinct := by
  rw [Distinct, bookEntries_delFe]
  exact h.sublist ((List.eraseIdx_sublist _ _).map _)

theorem getId_delFe {s : Bookkeeper FrontEnd} (h : s.Distinct) (id : Nat) {k : Nat}
    {entry : BookEntry FrontEnd} (hk : (s.delFe id).getEntry k = some entry) :
    (s.delFe id).getId entry.fe = k := by
  have hmap : (s.delFe id).idMap = remap (s.delFe id).bookEntries s.idMap := by
    rw [delFe]
    cases s.bookEntries[id]? with
    | none => rfl
    | some entry => rfl
  rw [getId, hmap, remap_getElem _ (delFe_distinct h id) _ hk, Option.getD_some]

theorem getId_addFe {s : Bookkeeper FrontEnd}
    (h : ∀ id entry, s.getEntry id = some entry → s.getId entry.fe = id) {fe : FrontEnd}
    (hfe : fe ∉ s.bookEntries.map BookEntry.fe) {cfg : FrontEndConnectivity} {id : Nat}
    {entry : BookEntry FrontEnd} (hentry : (s.addFe fe cfg).getEntry id = some entry) :
    (s.addFe fe cfg).getId entry.fe = id := by
  have hentry' : (s.bookEntries ++
      [⟨fe, true, cfg.txChannel, cfg.rxChannel, cfg.regRxChannel⟩])[id]? = some entry := hentry
  show (Function.update s.idMap fe (some s.bookEntries.length) entry.fe).getD 0 = id
  rcases Nat.lt_or_ge id s.bookEntries.length with hlt | hge
  · rw [List.getElem?_append_left hlt] at hentry'
    have hne : entry.fe ≠ fe := fun heq =>
      hfe (heq ▸ List.mem_map_of_mem (List.mem_of_getElem? hentry'))
    rw [Function.update_of_ne hne]
    exact h id entry hentry'
  · rw [List.getElem?_append_right hge, List.getElem?_singleton] at hentry'
    by_cases hzero : id - s.bookEntries.length = 0
    · rw [if_pos hzero] at hentry'
      rw [← Option.some.inj hentry', Function.update_self, Option.getD_some]
      omega
    · rw [if_neg hzero] at hentry'
      cases hentry'

theorem getRxToId_addFe {s : Bookkeeper FrontEnd}
    (h : ∀ rx, s.getRxToId rx = idsOf s.bookEntries rx) (fe : FrontEnd)
    (cfg : FrontEndConnectivity) (rx : UInt32) :
    (s.addFe fe cfg).getRxToId rx = idsOf (s.addFe fe cfg).bookEntries rx := by
  show Function.update s.rxToIdMap cfg.rxChannel
    (s.rxToIdMap cfg.rxChannel ++ [s.bookEntries.length]) rx = _
  rw [addFe, idsOf_concat, ← h rx]
  by_cases hrx : rx = cfg.rxChannel
  · rw [hrx, Function.update_self, if_pos rfl]
    rfl
  · rw [Function.update_of_ne hrx, if_neg (fun heq => hrx heq.symm), List.append_nil]
    rfl

theorem addFe_consistent {s : Bookkeeper FrontEnd} (h : s.Consistent) {fe : FrontEnd}
    (hfe : fe ∉ s.bookEntries.map BookEntry.fe) (cfg : FrontEndConnectivity) :
    (s.addFe fe cfg).Consistent :=
  consistent_of_rxToId (getRxToId_addFe h.rxToId fe cfg)
    fun _ _ hentry => getId_addFe h.getId hfe hentry

theorem getRxToId_delFe {s : Bookkeeper FrontEnd} {id : Nat} {entry : BookEntry FrontEnd}
    (h : s.getEntry id = some entry) (rx : UInt32) :
    (s.delFe id).getRxToId rx =
      if rx = entry.rxChannel then (s.getRxToId rx).filter (· ≠ id) else s.getRxToId rx := by
  have hentry : s.bookEntries[id]? = some entry := h
  rw [getRxToId, delFe, hentry]
  by_cases hrx : rx = entry.rxChannel
  · rw [if_pos hrx, hrx]
    exact Function.update_self _ _ _
  · rw [if_neg hrx]
    exact Function.update_of_ne hrx _ _

theorem delFe_of_none {s : Bookkeeper FrontEnd} {id : Nat} (h : s.getEntry id = none) (rx : UInt32) :
    (s.delFe id).getRxToId rx = s.getRxToId rx ∧ (s.delFe id).bookEntries = s.bookEntries := by
  have hentry : s.bookEntries[id]? = none := h
  rw [getRxToId, delFe, hentry]
  exact ⟨rfl, rfl⟩

theorem idsOf_delFe_last {s : Bookkeeper FrontEnd} (hrx : ∀ rx, s.getRxToId rx = idsOf s.bookEntries rx)
    {es : List (BookEntry FrontEnd)} {last : BookEntry FrontEnd}
    (hes : s.bookEntries = es ++ [last]) (rx : UInt32) :
    (s.delFe es.length).getRxToId rx = idsOf (s.delFe es.length).bookEntries rx := by
  have hentry : s.getEntry es.length = some last := by
    rw [getEntry, hes, List.getElem?_concat_length]
  have hrest : (s.delFe es.length).bookEntries = es := by
    rw [bookEntries_delFe, hes, List.eraseIdx_append_of_length_le (Nat.le_refl _), Nat.sub_self,
      List.eraseIdx_cons_zero, List.append_nil]
  have hkeep : (idsOf es rx).filter (· ≠ es.length) = idsOf es rx := by
    rw [List.filter_eq_self]
    intro id hid
    exact decide_eq_true (Nat.ne_of_lt (lt_of_mem_idsOf hid))
  rw [getRxToId_delFe hentry, hrest, hrx, hes, idsOf_concat]
  by_cases hlast : rx = last.rxChannel
  · rw [if_pos hlast, if_pos hlast.symm, List.filter_append, hkeep, List.filter_singleton]
    simp
  · rw [if_neg hlast, if_neg (fun heq => hlast heq.symm), List.append_nil]

theorem not_valid_delFe {s : Bookkeeper FrontEnd}
    (hrx : ∀ rx, s.getRxToId rx = idsOf s.bookEntries rx) {id : Nat}
    (hid : id + 1 < s.getNumOfEntries) :
    ∃ rx, ∃ k ∈ (s.delFe id).getRxToId rx, ¬ k < (s.delFe id).getNumOfEntries := by
  have hid' : id + 1 < s.bookEntries.length := hid
  have hlt : id < s.bookEntries.length := by omega
  have hlast : s.bookEntries.length - 1 < s.bookEntries.length := by omega
  have hentry : s.getEntry id = some s.bookEntries[id] := List.getElem?_eq_getElem hlt
  refine ⟨s.bookEntries[s.bookEntries.length - 1].rxChannel, s.bookEntries.length - 1, ?_, ?_⟩
  · have hmem : s.bookEntries.length - 1 ∈
        s.getRxToId s.bookEntries[s.bookEntries.length - 1].rxChannel := by
      rw [hrx]
      exact mem_idsOf.mpr ⟨_, List.getElem?_eq_getElem hlast, rfl⟩
    rw [getRxToId_delFe hentry]
    by_cases hsame : s.bookEntries[s.bookEntries.length - 1].rxChannel =
        s.bookEntries[id].rxChannel
    · rw [if_pos hsame]
      exact List.mem_filter.mpr ⟨hmem, decide_eq_true (by omega)⟩
    · rw [if_neg hsame]
      exact hmem
  · rw [getNumOfEntries, bookEntries_delFe, List.length_eraseIdx, if_pos hlt]
    omega

theorem delFe_consistent_iff {s : Bookkeeper FrontEnd} (hd : s.Distinct)
    (hrx : ∀ rx, s.getRxToId rx = idsOf s.bookEntries rx) (id : Nat) :
    (s.delFe id).Consistent ↔ s.getNumOfEntries ≤ id + 1 := by
  constructor
  · intro h
    by_contra hlt
    obtain ⟨rx, k, hk, hpast⟩ := not_valid_delFe hrx (Nat.lt_of_not_le hlt)
    exact hpast (h.valid rx k hk)
  · intro hle
    apply consistent_of_rxToId _ (fun k entry hk => getId_delFe hd id hk)
    intro rx
    cases hentry : s.getEntry id with
    | none =>
        obtain ⟨hsame, hentries⟩ := delFe_of_none hentry rx
        rw [hsame, hentries]
        exact hrx rx
    | some entry =>
        have hlt : id < s.bookEntries.length := (List.getElem?_eq_some_iff.mp hentry).1
        have hle' : s.bookEntries.length ≤ id + 1 := hle
        rcases List.eq_nil_or_concat' s.bookEntries with hnil | ⟨es, last, hes⟩
        · rw [hnil] at hlt
          exact absurd hlt (Nat.not_lt_zero id)
        · have hid : id = es.length := by
            rw [hes, List.length_append, List.length_singleton] at hlt hle'
            omega
          rw [hid]
          exact idsOf_delFe_last hrx hes rx

/-! ## Sequences of operations -/

theorem step_distinct {s s' : Bookkeeper FrontEnd} (h : s.Distinct) {op : Op FrontEnd}
    (hstep : s.step op = some s') : s'.Distinct := by
  cases op with
  | addFe fe cfg =>
      rw [step] at hstep
      by_cases hfe : fe ∈ s.bookEntries.map BookEntry.fe
      · rw [if_pos hfe] at hstep
        cases hstep
      · rw [if_neg hfe] at hstep
        rw [← Option.some.inj hstep]
        exact addFe_distinct h hfe cfg
  | delFe id =>
      rw [← Option.some.inj hstep]
      exact delFe_distinct h id
  | delFePtr fe =>
      rw [← Option.some.inj hstep]
      exact @delFe_distinct _ _
        { s with idMap := Function.update s.idMap fe (some (s.getId fe)) } h (s.getId fe)

theorem step_consistent_iff {s s' : Bookkeeper FrontEnd} (hd : s.Distinct) (h : s.Consistent)
    {op : Op FrontEnd} (hstep : s.step op = some s') : s'.Consistent ↔ op.LastOnly s := by
  cases op with
  | addFe fe cfg =>
      rw [step] at hstep
      by_cases hfe : fe ∈ s.bookEntries.map BookEntry.fe
      · rw [if_pos hfe] at hstep
        cases hstep
      · rw [if_neg hfe] at hstep
        rw [← Option.some.inj hstep]
        exact iff_of_true (addFe_consistent h hfe cfg) trivial
  | delFe id =>
      rw [← Option.some.inj hstep]
      exact delFe_consistent_iff hd h.rxToId id
  | delFePtr fe =>
      rw [← Option.some.inj hstep]
      exact @delFe_consistent_iff _ _
        { s with idMap := Function.update s.idMap fe (some (s.getId fe)) } hd h.rxToId (s.getId fe)

omit [DecidableEq FrontEnd] in
theorem empty_distinct : (empty : Bookkeeper FrontEnd).Distinct := List.nodup_nil

omit [DecidableEq FrontEnd] in
theorem empty_consistent : (empty : Bookkeeper FrontEnd).Consistent :=
  consistent_of_rxToId (fun _ => rfl) fun _ _ hentry => by cases hentry

theorem run_distinct {ops : List (Op FrontEnd)} {s s' : Bookkeeper FrontEnd} (h : s.Distinct)
    (hrun : ops.foldlM step s = some s') : s'.Distinct := by
  induction ops using List.reverseRecOn generalizing s' with
  | nil =>
      rw [← Option.some.inj hrun]
      exact h
  | append_singleton ops op ih =>
      obtain ⟨t, ht, hstep⟩ := Invariant.foldlM_concat.mp hrun
      exact step_distinct (ih ht) hstep

/--
The maps agree with the entries after every operation of a sequence exactly if
every deletion takes the entry that is last at that time, or none.
-/
theorem consistent_throughout_iff (ops : List (Op FrontEnd)) :
    (∀ p s, p <+: ops → p.foldlM step empty = some s → s.Consistent) ↔
      ∀ p op s s', p ++ [op] <+: ops → p.foldlM step empty = some s → s.step op = some s' →
        op.LastOnly s := by
  have hthroughout := @Invariant.throughout_iff_of_partial _ _
    (fun s : Bookkeeper FrontEnd => s.Distinct ∧ s.Consistent) (fun s op => op.LastOnly s) step
    (fun s op s' hs hstep =>
      (and_iff_right (step_distinct hs.1 hstep)).trans (step_consistent_iff hs.1 hs.2 hstep))
    empty ⟨empty_distinct, empty_consistent⟩ ops
  rw [← hthroughout]
  constructor
  · intro h p s hp hrun
    exact ⟨run_distinct empty_distinct hrun, h p s hp hrun⟩
  · intro h p s hp hrun
    exact (h p s hp hrun).2

/-- Two front-ends on two channels; the first one goes. -/
theorem first_deleted :
    ¬ ∀ (ops : List (Op Nat)) (s : Bookkeeper Nat), ops.foldlM step empty = some s →
      s.Consistent := by
  intro h
  have hvalid := (h [.addFe 0 (.ofChannels 0 0), .addFe 1 (.ofChannels 1 1), .delFe 0] _ rfl).valid
    1 1 (by decide)
  exact absurd hvalid (by decide)

end Bookkeeper

end Yarr.Scan
