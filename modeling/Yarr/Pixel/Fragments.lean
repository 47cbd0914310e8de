import Mathlib.Data.List.Basic
import Yarr.Pixel.Containers

/-!
# Fragments of an event stream

A decoder that keeps a tag and two counters between containers makes an event
at each header, and one for data that come before any header of their
container. Its events say which headers it has seen, each with the last tag
before it, and which hits; and what it had kept, if data came before any
header.
-/

namespace Yarr.Pixel.Fragments

/-- What a decoder keeps from one container to the next. -/
@[ext]
structure Carried where
  tag : UInt32
  l1id : UInt32
  bcid : UInt32
  deriving DecidableEq

/-- What a word of raw data stands for. -/
inductive Item where
  | trigger (tag : UInt32)
  | header (l1id bcid : UInt32) (feedback : FeedbackProcessingInfo)
  | data (hits : List FrontEndHit)
  | undefined

structure State where
  carried : Carried
  events : Nat
  curOut : FrontEndData
  feedback : List FeedbackProcessingInfo

/-- A decoder at the first word of a container. -/
def State.start (k : Carried) (stat : LoopStatus) : State := ⟨k, 0, .ofStatus stat, []⟩

def Carried.next (k : Carried) : Item → Carried
  | .trigger tag => { k with tag := tag }
  | .header l1id bcid _ => { k with l1id := l1id, bcid := bcid }
  | _ => k

/-- `newEvent` with the counters that are kept. -/
def State.newEvent (s : State) (tag : UInt32) : State :=
  { s with
    curOut := s.curOut.newEvent tag.toNat s.carried.l1id.toNat s.carried.bcid.toNat
    events := s.events + 1 }

/-- An event for data without a header. -/
def State.orphan (orphanTag : UInt32) (s : State) : State :=
  if s.events = 0 then s.newEvent orphanTag else s

/-- The event of a header, with the tag that is kept. -/
def State.headed (s : State) (l1id bcid : UInt32) (feedback : FeedbackProcessingInfo) : State :=
  let carried := s.carried.next (.header l1id bcid feedback)
  { carried := carried
    events := s.events + 1
    curOut := s.curOut.newEvent carried.tag.toNat carried.l1id.toNat carried.bcid.toNat
    feedback := s.feedback ++ [feedback] }

def step (orphanTag : UInt32) (s : State) : Item → Option State
  | .trigger tag => some { s with carried := s.carried.next (.trigger tag) }
  | .header l1id bcid feedback => some (s.headed l1id bcid feedback)
  | .data hits =>
      let s := s.orphan orphanTag
      (hits.foldlM FrontEndData.addHit s.curOut).map fun curOut => { s with curOut := curOut }
  | .undefined => none

def decode (orphanTag : UInt32) (s : State) (items : List Item) : Option State :=
  items.foldlM (step orphanTag) s

/-- A header comes before any tag. -/
def untagged : List Item → Bool
  | [] => false
  | .trigger _ :: _ => false
  | .header _ _ _ :: _ => true
  | .data _ :: items => untagged items
  | .undefined :: items => untagged items

/-- Data come before any header. -/
def orphaned : List Item → Bool
  | [] => false
  | .header _ _ _ :: _ => false
  | .data _ :: _ => true
  | .trigger _ :: items => orphaned items
  | .undefined :: items => orphaned items

/-- A header or a hit, as it can be seen in the raw data. -/
inductive Sight where
  | header (l1id bcid : UInt32) (feedback : FeedbackProcessingInfo)
  | hit (h : FrontEndHit)
  deriving DecidableEq

/-- The headers and the hits among the items. -/
def sights : List Item → List Sight
  | [] => []
  | .header l1id bcid feedback :: items => .header l1id bcid feedback :: sights items
  | .data hits :: items => hits.map .hit ++ sights items
  | .trigger _ :: items => sights items
  | .undefined :: items => sights items

/-- The last tag before each header. -/
def headerTags (tag : UInt32) : List Item → List UInt32
  | [] => []
  | .trigger tag :: items => headerTags tag items
  | .header _ _ _ :: items => tag :: headerTags tag items
  | .data _ :: items => headerTags tag items
  | .undefined :: items => headerTags tag items

variable {orphanTag : UInt32}

theorem decode_append (s : State) (a b : List Item) :
    decode orphanTag s (a ++ b) = (decode orphanTag s a).bind fun s' => decode orphanTag s' b :=
  List.foldlM_append

theorem decode_data (s : State) (hits : List FrontEndHit) :
    decode orphanTag s [.data hits] =
      (hits.foldlM FrontEndData.addHit (s.orphan orphanTag).curOut).map fun curOut =>
        { s.orphan orphanTag with curOut := curOut } := by
  rw [decode, List.foldlM_cons, step]
  cases hits.foldlM FrontEndData.addHit (s.orphan orphanTag).curOut with
  | none => rfl
  | some curOut => rfl

/-! ## What is kept -/

theorem carried_step {s s' : State} {i : Item} (h : step orphanTag s i = some s') :
    s'.carried = s.carried.next i := by
  cases i with
  | trigger tag =>
      cases h
      rfl
  | header l1id bcid feedback =>
      cases h
      rfl
  | data hits =>
      obtain ⟨curOut, _, hs'⟩ := Option.map_eq_some_iff.mp h
      rw [← hs']
      unfold State.orphan
      split
      · rfl
      · rfl
  | undefined => cases h

theorem carried_decode {s s' : State} {items : List Item}
    (h : decode orphanTag s items = some s') : s'.carried = items.foldl Carried.next s.carried := by
  induction items generalizing s with
  | nil =>
      cases h
      rfl
  | cons i items ih =>
      obtain ⟨t, ht, hrest⟩ := Option.bind_eq_some_iff.mp h
      rw [List.foldl_cons, ← carried_step ht]
      exact ih hrest

/-! ## Defined behaviour -/

/-- There is an event to add hits to behind the first one. -/
def State.Wellformed (s : State) : Prop := s.events ≠ 0 → s.curOut.curEvent ≠ none

theorem foldlM_addHit {d : FrontEndData} (h : d.curEvent ≠ none) (hits : List FrontEndHit) :
    ∃ d', hits.foldlM FrontEndData.addHit d = some d' ∧ d'.curEvent ≠ none := by
  induction hits generalizing d with
  | nil => exact ⟨d, rfl, h⟩
  | cons hit hits ih =>
      obtain ⟨e, he⟩ := Option.ne_none_iff_exists'.mp h
      have hadd : d.addHit hit = some { d with events := d.events.dropLast ++ [e.addHit hit] } := by
        rw [FrontEndData.addHit, he]
        rfl
      have hnext : FrontEndData.curEvent { d with events := d.events.dropLast ++ [e.addHit hit] } ≠
          none := by simp [FrontEndData.curEvent]
      obtain ⟨d', hd', hcur⟩ := ih hnext
      apply Exists.intro d'
      rw [List.foldlM_cons, hadd]
      exact ⟨hd', hcur⟩

theorem curEvent_newEvent (s : State) (tag : UInt32) : (s.newEvent tag).curOut.curEvent ≠ none := by
  simp [State.newEvent, FrontEndData.newEvent, FrontEndData.curEvent]

theorem curEvent_orphan (orphanTag : UInt32) {s : State} (h : s.Wellformed) :
    (s.orphan orphanTag).curOut.curEvent ≠ none := by
  unfold State.orphan
  split
  · exact curEvent_newEvent s orphanTag
  · rename_i hevents
    exact h hevents

theorem step_spec (orphanTag : UInt32) {s : State} (h : s.Wellformed) (i : Item) :
    (i = .undefined ∧ step orphanTag s i = none) ∨
      (i ≠ .undefined ∧ ∃ s', step orphanTag s i = some s' ∧ s'.Wellformed) := by
  cases i with
  | trigger tag => exact Or.inr ⟨Item.noConfusion, _, rfl, h⟩
  | header l1id bcid feedback =>
      have hcur : (s.headed l1id bcid feedback).curOut.curEvent ≠ none := by
        simp [State.headed, FrontEndData.newEvent, FrontEndData.curEvent]
      exact Or.inr ⟨Item.noConfusion, _, rfl, fun _ => hcur⟩
  | data hits =>
      obtain ⟨d, hd, hcur⟩ := foldlM_addHit (curEvent_orphan orphanTag h) hits
      refine Or.inr ⟨Item.noConfusion, { s.orphan orphanTag with curOut := d }, ?_, fun _ => hcur⟩
      simp only [step, hd, Option.map_some]
  | undefined => exact Or.inl ⟨rfl, rfl⟩

theorem decode_ne_none_iff (orphanTag : UInt32) {s : State} (h : s.Wellformed) (items : List Item) :
    decode orphanTag s items ≠ none ↔ ∀ i ∈ items, i ≠ .undefined := by
  induction items generalizing s with
  | nil => simp [decode]
  | cons i items ih =>
      rw [List.forall_mem_cons, decode, List.foldlM_cons]
      rcases step_spec orphanTag h i with ⟨hi, hnone⟩ | ⟨hi, s', hs', hnext⟩
      · rw [hnone]
        simp [hi]
      · rw [hs']
        have hrest := ih hnext
        rw [decode] at hrest
        simp only [Option.bind_eq_bind, Option.bind_some]
        rw [hrest]
        simp [hi]

/-! ## Events as a list of marks -/

inductive Mark where
  | event (tag l1id bcid : Nat)
  | hit (h : FrontEndHit)

def eventMarks (events : List FrontEndEvent) : List Mark :=
  events.flatMap fun e => .event e.tag e.l1id e.bcid :: e.hits.map .hit

def startsWithHit : List Mark → Bool
  | .hit _ :: _ => true
  | _ => false

theorem startsWithHit_eventMarks (events : List FrontEndEvent) :
    startsWithHit (eventMarks events) = false := by
  cases events with
  | nil => rfl
  | cons e events => rfl

theorem hits_cancel {hits hits' : List FrontEndHit} {rest rest' : List Mark}
    (hrest : startsWithHit rest = false) (hrest' : startsWithHit rest' = false)
    (h : hits.map Mark.hit ++ rest = hits'.map Mark.hit ++ rest') :
    hits = hits' ∧ rest = rest' := by
  induction hits generalizing hits' with
  | nil =>
      cases hits' with
      | nil => exact ⟨rfl, h⟩
      | cons hit hits' =>
          rw [List.map_nil, List.nil_append] at h
          rw [h] at hrest
          cases hrest
  | cons hit hits ih =>
      cases hits' with
      | nil =>
          rw [List.map_nil, List.nil_append] at h
          rw [← h] at hrest'
          cases hrest'
      | cons hit' hits' =>
          rw [List.map_cons, List.map_cons, List.cons_append, List.cons_append,
            List.cons.injEq, Mark.hit.injEq] at h
          obtain ⟨hhits, hrests⟩ := ih h.2
          exact ⟨by rw [h.1, hhits], hrests⟩

theorem eventMarks_cons (e : FrontEndEvent) (events : List FrontEndEvent) :
    eventMarks (e :: events) =
      .event e.tag e.l1id e.bcid :: (e.hits.map .hit ++ eventMarks events) := rfl

theorem eventMarks_append (a b : List FrontEndEvent) :
    eventMarks (a ++ b) = eventMarks a ++ eventMarks b := List.flatMap_append

theorem eventMarks_injective {a b : List FrontEndEvent} (h : eventMarks a = eventMarks b) :
    a = b := by
  induction a generalizing b with
  | nil =>
      cases b with
      | nil => rfl
      | cons e b => cases h
  | cons e a ih =>
      cases b with
      | nil => cases h
      | cons e' b =>
          rw [eventMarks_cons, eventMarks_cons, List.cons.injEq, Mark.event.injEq] at h
          obtain ⟨⟨htag, hl1id, hbcid⟩, htail⟩ := h
          obtain ⟨hhits, hrest⟩ :=
            hits_cancel (startsWithHit_eventMarks a) (startsWithHit_eventMarks b) htail
          have hevent : e = e' := by
            cases e
            cases e'
            simp_all
          rw [hevent, ih hrest]

theorem eventMarks_newEvent (s : State) (tag : UInt32) :
    eventMarks (s.newEvent tag).curOut.events = eventMarks s.curOut.events ++
      [.event tag.toNat (s.carried.l1id.toNat % 2 ^ 16) (s.carried.bcid.toNat % 2 ^ 16)] := by
  have htag : tag.toNat % 2 ^ 32 = tag.toNat := Nat.mod_eq_of_lt tag.toNat_lt
  rw [State.newEvent, FrontEndData.newEvent]
  simp only [eventMarks_append, htag]
  rfl

theorem eventMarks_headed (s : State) (l1id bcid : UInt32) (feedback : FeedbackProcessingInfo) :
    eventMarks (s.headed l1id bcid feedback).curOut.events = eventMarks s.curOut.events ++
      [.event s.carried.tag.toNat (l1id.toNat % 2 ^ 16) (bcid.toNat % 2 ^ 16)] :=
  eventMarks_newEvent { s with carried := ⟨s.carried.tag, l1id, bcid⟩ } s.carried.tag

theorem eventMarks_addHit {d d' : FrontEndData} {hit : FrontEndHit}
    (h : d.addHit hit = some d') :
    d'.lStat = d.lStat ∧ d'.events.length = d.events.length ∧
      eventMarks d'.events = eventMarks d.events ++ [.hit hit] := by
  obtain ⟨e, he, hd'⟩ := Option.map_eq_some_iff.mp h
  subst hd'
  have hevents : d.events = d.events.dropLast ++ [e] :=
    (List.dropLast_append_getLast? e he).symm
  refine ⟨rfl, ?_, ?_⟩
  · conv_rhs => rw [hevents]
    simp
  · conv_rhs => rw [hevents]
    simp only [eventMarks_append, eventMarks_cons]
    simp [FrontEndEvent.addHit, eventMarks]

theorem eventMarks_addHits {d d' : FrontEndData} {hits : List FrontEndHit}
    (h : hits.foldlM FrontEndData.addHit d = some d') :
    d'.lStat = d.lStat ∧ d'.events.length = d.events.length ∧
      eventMarks d'.events = eventMarks d.events ++ hits.map .hit := by
  induction hits generalizing d with
  | nil =>
      cases h
      simp
  | cons hit hits ih =>
      obtain ⟨t, ht, hrest⟩ := Option.bind_eq_some_iff.mp h
      obtain ⟨hstat, hlength, hmarks⟩ := eventMarks_addHit ht
      obtain ⟨hstat', hlength', hmarks'⟩ := ih hrest
      refine ⟨hstat'.trans hstat, hlength'.trans hlength, ?_⟩
      rw [hmarks', hmarks]
      simp

/-! ## What the events say -/

/-- The marks of the headers and the hits. -/
def marks (tag : UInt32) : List Item → List Mark
  | [] => []
  | .trigger tag :: items => marks tag items
  | .header l1id bcid _ :: items =>
      .event tag.toNat (l1id.toNat % 2 ^ 16) (bcid.toNat % 2 ^ 16) :: marks tag items
  | .data hits :: items => hits.map .hit ++ marks tag items
  | .undefined :: items => marks tag items

/-- The mark of the event for data without a header. -/
def orphanMarks (orphanTag : UInt32) (k : Carried) (items : List Item) : List Mark :=
  if orphaned items then
    [.event orphanTag.toNat (k.l1id.toNat % 2 ^ 16) (k.bcid.toNat % 2 ^ 16)]
  else []

def feedbacks : List Item → List FeedbackProcessingInfo
  | [] => []
  | .header _ _ feedback :: items => feedback :: feedbacks items
  | .trigger _ :: items => feedbacks items
  | .data _ :: items => feedbacks items
  | .undefined :: items => feedbacks items

theorem events_orphan (orphanTag : UInt32) (s : State) : (s.orphan orphanTag).curOut.lStat = s.curOut.lStat ∧
    (s.orphan orphanTag).events ≠ 0 ∧ (s.orphan orphanTag).carried = s.carried ∧
    (s.orphan orphanTag).feedback = s.feedback := by
  unfold State.orphan
  split
  · exact ⟨rfl, Nat.succ_ne_zero _, rfl, rfl⟩
  · rename_i hevents
    exact ⟨rfl, hevents, rfl, rfl⟩

/-- `events` counts the events of the container. -/
def State.Counted (s : State) : Prop := s.events = s.curOut.events.length

theorem counted_start (k : Carried) (stat : LoopStatus) : (State.start k stat).Counted := rfl

theorem counted_newEvent {s : State} (h : s.Counted) (tag : UInt32) : (s.newEvent tag).Counted := by
  simpa [State.Counted, State.newEvent, FrontEndData.newEvent] using h

theorem counted_step {s s' : State} {i : Item} (h : step orphanTag s i = some s')
    (hs : s.Counted) : s'.Counted := by
  cases i with
  | trigger tag =>
      cases h
      exact hs
  | header l1id bcid feedback =>
      cases h
      simpa [State.Counted, State.headed, FrontEndData.newEvent] using hs
  | data hits =>
      obtain ⟨curOut, hcurOut, hs'⟩ := Option.map_eq_some_iff.mp h
      subst hs'
      obtain ⟨_, hlength, _⟩ := eventMarks_addHits hcurOut
      have horphan : (s.orphan orphanTag).Counted := by
        unfold State.orphan
        split
        · exact counted_newEvent hs orphanTag
        · exact hs
      exact horphan.trans hlength.symm
  | undefined => cases h

theorem counted_decode {s s' : State} {items : List Item}
    (h : decode orphanTag s items = some s') (hs : s.Counted) : s'.Counted := by
  induction items generalizing s with
  | nil =>
      cases h
      exact hs
  | cons i items ih =>
      obtain ⟨t, ht, hrest⟩ := Option.bind_eq_some_iff.mp h
      exact ih hrest (counted_step ht hs)

theorem eventMarks_orphan (s : State) (hits : List FrontEndHit) (items : List Item) :
    eventMarks (s.orphan orphanTag).curOut.events = eventMarks s.curOut.events ++
      (if s.events = 0 then orphanMarks orphanTag s.carried (.data hits :: items) else []) := by
  unfold State.orphan
  split
  · rw [eventMarks_newEvent]
    rfl
  · rw [List.append_nil]

/-- What items add to the events and to the feedback. -/
structure Shows (orphanTag : UInt32) (s s' : State) (items : List Item) : Prop where
  lStat : s'.curOut.lStat = s.curOut.lStat
  feedback : s'.feedback = s.feedback ++ feedbacks items
  events : eventMarks s'.curOut.events = eventMarks s.curOut.events ++
    (if s.events = 0 then orphanMarks orphanTag s.carried items else []) ++
    marks s.carried.tag items

theorem decode_shows {s s' : State} {items : List Item}
    (h : decode orphanTag s items = some s') : Shows orphanTag s s' items := by
  induction items generalizing s with
  | nil =>
      cases h
      constructor
      · rfl
      · simp [feedbacks]
      · simp [marks, orphanMarks, orphaned]
  | cons i items ih =>
      obtain ⟨t, ht, hrest⟩ := Option.bind_eq_some_iff.mp h
      have hshows := ih hrest
      cases i with
      | trigger tag =>
          cases ht
          exact ⟨hshows.lStat, hshows.feedback, hshows.events⟩
      | header l1id bcid feedback =>
          cases ht
          constructor
          · exact hshows.lStat
          · rw [hshows.feedback]
            simp [feedbacks, State.headed]
          · have hevents : (s.headed l1id bcid feedback).events ≠ 0 := Nat.succ_ne_zero _
            rw [hshows.events, if_neg hevents, eventMarks_headed]
            simp [marks, orphanMarks, orphaned, State.headed, Carried.next]
      | data hits =>
          obtain ⟨curOut, hcurOut, hs'⟩ := Option.map_eq_some_iff.mp ht
          subst hs'
          obtain ⟨hstat, hevents, hcarried, hfeedback⟩ := events_orphan orphanTag s
          obtain ⟨hstat', _, hmarks⟩ := eventMarks_addHits hcurOut
          constructor
          · rw [hshows.lStat, hstat', hstat]
          · rw [hshows.feedback]
            simp only [hfeedback, feedbacks]
          · rw [hshows.events, if_neg hevents]
            simp only [hmarks, eventMarks_orphan s hits items, hcarried, marks]
            simp
      | undefined => cases ht

/-! ## When two decodings agree -/

/-- The tag of an event without a header is not the tag of a header. -/
def TagsDiffer (orphanTag tag : UInt32) (items : List Item) : Prop :=
  (untagged items = true → tag ≠ orphanTag) ∧ ∀ t, .trigger t ∈ items → t ≠ orphanTag

theorem head_marks {tag : UInt32} {items : List Item} (h : TagsDiffer orphanTag tag items)
    (hitems : orphaned items = false) (l1id bcid : Nat) (rest : List Mark) :
    marks tag items ≠ .event orphanTag.toNat l1id bcid :: rest := by
  induction items generalizing tag with
  | nil =>
      intro hmarks
      cases hmarks
  | cons i items ih =>
      cases i with
      | trigger t =>
          exact ih ⟨fun _ => h.2 t List.mem_cons_self,
            fun t ht => h.2 t (List.mem_cons_of_mem _ ht)⟩ hitems
      | header l1id' bcid' feedback =>
          intro hmarks
          rw [marks, List.cons.injEq, Mark.event.injEq] at hmarks
          exact h.1 rfl (UInt32.toNat_inj.mp hmarks.1.1)
      | data hits => cases hitems
      | undefined => exact ih ⟨h.1, fun t ht => h.2 t (List.mem_cons_of_mem _ ht)⟩ hitems

/-- The counters of the events cannot be told apart. -/
def Carried.SameCounters (k k' : Carried) : Prop :=
  k.l1id.toNat % 2 ^ 16 = k'.l1id.toNat % 2 ^ 16 ∧ k.bcid.toNat % 2 ^ 16 = k'.bcid.toNat % 2 ^ 16

theorem orphanMarks_append_iff {k k' : Carried} {items items' : List Item}
    (h : TagsDiffer orphanTag k.tag items) (h' : TagsDiffer orphanTag k'.tag items') :
    orphanMarks orphanTag k items ++ marks k.tag items =
        orphanMarks orphanTag k' items' ++ marks k'.tag items' ↔
      orphaned items = orphaned items' ∧ (orphaned items = true → k.SameCounters k') ∧
        marks k.tag items = marks k'.tag items' := by
  unfold orphanMarks
  cases hitems : orphaned items with
  | false =>
      cases hitems' : orphaned items' with
      | false => simp
      | true =>
          have hne := head_marks h hitems (k'.l1id.toNat % 2 ^ 16) (k'.bcid.toNat % 2 ^ 16)
            (marks k'.tag items')
          simpa using hne
  | true =>
      cases hitems' : orphaned items' with
      | false =>
          have hne := head_marks h' hitems' (k.l1id.toNat % 2 ^ 16) (k.bcid.toNat % 2 ^ 16)
            (marks k.tag items)
          simpa using hne.symm
      | true => simp [Carried.SameCounters]

/-- Two containers with the same status give the same events and feedback. -/
theorem decode_same_iff {k k' : Carried} {stat : LoopStatus} {items items' : List Item}
    {s s' : State} (hs : decode orphanTag (.start k stat) items = some s)
    (hs' : decode orphanTag (.start k' stat) items' = some s')
    (h : TagsDiffer orphanTag k.tag items) (h' : TagsDiffer orphanTag k'.tag items') :
    s.curOut = s'.curOut ∧ s.feedback = s'.feedback ↔
      (orphaned items = orphaned items' ∧ (orphaned items = true → k.SameCounters k') ∧
        marks k.tag items = marks k'.tag items') ∧ feedbacks items = feedbacks items' := by
  have hshows := decode_shows hs
  have hshows' := decode_shows hs'
  have hfeedback : s.feedback = s'.feedback ↔ feedbacks items = feedbacks items' := by
    rw [hshows.feedback, hshows'.feedback]
    rfl
  have hcurOut : s.curOut = s'.curOut ↔
      eventMarks s.curOut.events = eventMarks s'.curOut.events := by
    constructor
    · intro heq
      rw [heq]
    · intro heq
      have hstat : s.curOut.lStat = s'.curOut.lStat := hshows.lStat.trans hshows'.lStat.symm
      have hevents := eventMarks_injective heq
      cases hc : s.curOut
      cases hc' : s'.curOut
      simp_all
  rw [hfeedback, hcurOut, ← orphanMarks_append_iff h h', hshows.events, hshows'.events]
  rfl

/-! ## The marks from what is seen -/

/-- Headers with the tags that are listed, and hits. -/
def weave : List Sight → List UInt32 → List Mark
  | .header l1id bcid _ :: sights, tag :: tags =>
      .event tag.toNat (l1id.toNat % 2 ^ 16) (bcid.toNat % 2 ^ 16) :: weave sights tags
  | .hit h :: sights, tags => .hit h :: weave sights tags
  | _, _ => []

theorem weave_hits (hits : List FrontEndHit) (sights : List Sight) (tags : List UInt32) :
    weave (hits.map .hit ++ sights) tags = hits.map .hit ++ weave sights tags := by
  induction hits with
  | nil => rfl
  | cons hit hits ih =>
      rw [List.map_cons, List.map_cons, List.cons_append, List.cons_append, weave, ih]

theorem marks_eq_weave (tag : UInt32) (items : List Item) :
    marks tag items = weave (sights items) (headerTags tag items) := by
  induction items generalizing tag with
  | nil => rfl
  | cons i items ih =>
      cases i with
      | trigger t => exact ih t
      | header l1id bcid feedback => rw [marks, sights, headerTags, weave, ih]
      | data hits => rw [marks, sights, headerTags, weave_hits, ih]
      | undefined => exact ih tag

def sightFeedback : Sight → Option FeedbackProcessingInfo
  | .header _ _ feedback => some feedback
  | .hit _ => none

theorem feedbacks_eq (items : List Item) : feedbacks items = (sights items).filterMap sightFeedback := by
  induction items with
  | nil => rfl
  | cons i items ih =>
      cases i with
      | trigger t => exact ih
      | header l1id bcid feedback => simp [feedbacks, sights, sightFeedback, ih]
      | data hits =>
          have hhits : (hits.map Sight.hit).filterMap sightFeedback = [] := by
            simp [sightFeedback]
          rw [feedbacks, sights, List.filterMap_append, hhits, ih, List.nil_append]
      | undefined => exact ih

/-- What is seen, from the marks and the feedback. -/
def unweave : List Mark → List FeedbackProcessingInfo → List Sight
  | .event _ l1id bcid :: marks, feedback :: feedbacks =>
      .header (UInt32.ofNat l1id) (UInt32.ofNat bcid) feedback :: unweave marks feedbacks
  | .hit h :: marks, feedbacks => .hit h :: unweave marks feedbacks
  | _, _ => []

theorem unweave_hits (hits : List FrontEndHit) (marks : List Mark)
    (feedbacks : List FeedbackProcessingInfo) :
    unweave (hits.map .hit ++ marks) feedbacks = hits.map .hit ++ unweave marks feedbacks := by
  induction hits with
  | nil => rfl
  | cons hit hits ih =>
      rw [List.map_cons, List.map_cons, List.cons_append, List.cons_append, unweave, ih]

/-- The counters of the headers fit into those of an event. -/
def Narrow (items : List Item) : Prop :=
  ∀ l1id bcid feedback, .header l1id bcid feedback ∈ items →
    l1id.toNat < 2 ^ 16 ∧ bcid.toNat < 2 ^ 16

theorem sights_eq_unweave (tag : UInt32) {items : List Item} (h : Narrow items) :
    sights items = unweave (marks tag items) (feedbacks items) := by
  induction items generalizing tag with
  | nil => rfl
  | cons i items ih =>
      have htail : Narrow items := fun l1id bcid feedback hmem =>
        h l1id bcid feedback (List.mem_cons_of_mem _ hmem)
      cases i with
      | trigger t => exact ih t htail
      | header l1id bcid feedback =>
          obtain ⟨hl1id, hbcid⟩ := h l1id bcid feedback List.mem_cons_self
          rw [marks, sights, feedbacks, unweave, ← ih tag htail, Nat.mod_eq_of_lt hl1id,
            Nat.mod_eq_of_lt hbcid, UInt32.ofNat_toNat, UInt32.ofNat_toNat]
      | data hits => rw [marks, sights, feedbacks, unweave_hits, ← ih tag htail]
      | undefined => exact ih tag htail

def markTag : Mark → Option UInt32
  | .event tag _ _ => some (UInt32.ofNat tag)
  | .hit _ => none

theorem headerTags_eq (tag : UInt32) (items : List Item) :
    headerTags tag items = (marks tag items).filterMap markTag := by
  induction items generalizing tag with
  | nil => rfl
  | cons i items ih =>
      cases i with
      | trigger t => exact ih t
      | header l1id bcid feedback => simp [headerTags, marks, markTag, ih]
      | data hits =>
          have hhits : (hits.map Mark.hit).filterMap markTag = [] := by
            simp [markTag]
          rw [headerTags, marks, List.filterMap_append, hhits, ih, List.nil_append]
      | undefined => exact ih tag

theorem marks_same_iff {tag tag' : UInt32} {items items' : List Item} (h : Narrow items)
    (h' : Narrow items') :
    marks tag items = marks tag' items' ∧ feedbacks items = feedbacks items' ↔
      sights items = sights items' ∧ headerTags tag items = headerTags tag' items' := by
  constructor
  · intro ⟨hmarks, hfeedbacks⟩
    rw [sights_eq_unweave tag h, sights_eq_unweave tag' h', headerTags_eq, headerTags_eq, hmarks,
      hfeedbacks]
    exact ⟨rfl, rfl⟩
  · intro ⟨hsights, htags⟩
    rw [marks_eq_weave, marks_eq_weave, feedbacks_eq, feedbacks_eq, hsights, htags]
    exact ⟨rfl, rfl⟩

/-- The tags of the headers depend on what was kept only if a header comes before any tag. -/
theorem headerTags_same_iff (tag tag' : UInt32) (items : List Item) :
    headerTags tag items = headerTags tag' items ↔ (untagged items = true → tag = tag') := by
  induction items generalizing tag tag' with
  | nil => simp [headerTags, untagged]
  | cons i items ih =>
      cases i with
      | trigger t => simp [headerTags, untagged]
      | header l1id bcid feedback =>
          rw [headerTags, headerTags, List.cons.injEq]
          constructor
          · intro h _
            exact h.1
          · intro h
            rw [h rfl]
            exact ⟨rfl, rfl⟩
      | data hits => exact ih tag tag'
      | undefined => exact ih tag tag'

end Yarr.Pixel.Fragments
