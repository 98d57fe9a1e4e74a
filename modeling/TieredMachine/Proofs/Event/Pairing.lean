/-
  How the events of a list are paired.

  An event is told from its equals by its place in the list.  Of the events of one thread, one
  comes before another when it is earlier, or further in front at the same time.  An opener and
  an event that closes it are paired when nothing between them, in this order, closes the opener
  or is another opener of its kind.  Which pairs there are says nothing about the threads'
  events being mixed in one way or another, and nothing about the order in which the waiting
  openers are looked through.

  * `Occurrence`, `EventPair.Joins`: the pairs of a list of events;
  * `pairEvents_joins`: the events of a thread, taken in order, give an interval for every pair;
  * `inTime_ordered`: sorting by time keeps the order in the list where times are equal;
  * `intervals_joins`: the same for the events of all threads;
  * `Pairing`, `pairing_iff`: any waiting opener that matches is the one that is taken;
  * `intervals_independent`: all of these taken together.
-/
import Mathlib.Data.List.Induction
import Mathlib.Data.List.Nodup
import Mathlib.Data.List.Pairwise
import Mathlib.Data.List.Sort
import TieredMachine.Event.Interval

namespace TieredMachine

/-! ## What closes what -/

namespace EventKind

/-- The kind of opener that events of a kind close, with the interval's label. -/
def closes? : EventKind → Option (EventKind × String)
  | compileEnd => some (compileStart, "compile")
  | lowerEnd => some (lowerStart, "lower")
  | bailEnd => some (bailStart, "bail")
  | callEnterEval => some (callStartEval, "call_to_eval")
  | callEnterNative => some (callStartEval, "call_to_native")
  | _ => none

variable {k o o' : EventKind} {label label' : String}

theorem mem_closers : (k, label) ∈ o.closers ↔ k.closes? = some (o, label) := by
  constructor
  · intro h
    cases o <;> simp [closers] at h
    · rcases h with ⟨rfl, rfl⟩ | ⟨rfl, rfl⟩ <;> rfl
    all_goals
      obtain ⟨rfl, rfl⟩ := h
      rfl
  · intro h
    cases k <;> simp [closes?] at h
    all_goals
      obtain ⟨rfl, rfl⟩ := h
      simp [closers]

/-- An event closes openers of one kind, under one label. -/
theorem closers_unique (h : (k, label) ∈ o.closers) (h' : (k, label') ∈ o'.closers) :
    o = o' ∧ label = label' := by
  rw [mem_closers] at h h'
  exact Prod.mk.inj (Option.some.inj (h.symm.trans h'))

/-- No opener closes anything. -/
theorem closes?_of_isOpener (h : k.isOpener) : k.closes? = none := by
  cases k <;> simp [isOpener, closers, closes?] at h ⊢

theorem isOpener_of_mem (h : (k, label) ∈ o.closers) : o.isOpener := by
  unfold isOpener
  cases ho : o.closers with
  | nil =>
    rw [ho] at h
    cases h
  | cons _ _ => rfl

theorem lookup_closers (o k : EventKind) :
    o.closers.lookup k = (k.closes?.filter (·.1 = o)).map (·.2) := by
  cases o <;> cases k <;> rfl

theorem lookup_closers_eq_some : o.closers.lookup k = some label ↔ (k, label) ∈ o.closers := by
  rw [mem_closers, lookup_closers]
  simp [Option.filter_eq_some_iff]

/-- An event takes the place of an opener, or closes it. -/
def Relieves (k o : EventKind) : Prop := k = o ∨ ∃ label, (k, label) ∈ o.closers

end EventKind

/-! ## Pairs -/

/-- An event and its place in a list. -/
structure Occurrence where
  event : Event
  place : Nat

/-- The events of a list with their places. -/
def occurrences (events : List Event) : List Occurrence :=
  events.zipIdx.map fun e => ⟨e.1, e.2⟩

/-- One event of a thread comes before another: it is earlier, or further in front at the same
    time. -/
def Occurrence.Before (a b : Occurrence) : Prop :=
  a.event.thread = b.event.thread ∧
    (a.event.nanos < b.event.nanos ∨ a.event.nanos = b.event.nanos ∧ a.place < b.place)

/-- An opener, what closes it, and the label of the interval between them. -/
@[ext]
structure EventPair where
  opener : Occurrence
  closer : Occurrence
  label : String

namespace EventPair

/-- The interval between the events of a pair. -/
def interval (p : EventPair) : Interval :=
  ⟨p.label, p.closer.event.nanos - p.opener.event.nanos⟩

/-- The pair is one of the events of a list: the opener still waits when what closes it comes. -/
structure Joins (os : List Occurrence) (p : EventPair) : Prop where
  opener_mem : p.opener ∈ os
  closer_mem : p.closer ∈ os
  before : p.opener.Before p.closer
  closes : (p.closer.event.kind, p.label) ∈ p.opener.event.kind.closers
  /-- nothing between them closes the opener or waits in its place -/
  waits : ∀ x ∈ os, p.opener.Before x → x.Before p.closer →
    ¬ x.event.kind.Relieves p.opener.event.kind

end EventPair

namespace Occurrence

variable {a b : Occurrence} {os : List Occurrence}

theorem Before.asymm (ab : a.Before b) : ¬ b.Before a := by
  rintro ⟨-, time'⟩
  obtain ⟨-, time⟩ := ab
  omega

theorem Before.irrefl : ¬ a.Before a := fun h => h.asymm h

/-- Of two events of an ordered list, one comes before the other. -/
theorem before_or_before (ordered : os.Pairwise Before) (ha : a ∈ os) (hb : b ∈ os) :
    a = b ∨ a.Before b ∨ b.Before a := by
  have : Std.Symm fun x y : Occurrence => x.Before y ∨ y.Before x := ⟨fun _ _ => Or.symm⟩
  have apart : os.Pairwise fun x y => x.Before y ∨ y.Before x := ordered.imp Or.inl
  by_cases same : a = b
  · exact .inl same
  · exact .inr (apart.forall ha hb same)

end Occurrence

namespace EventPair

variable {os : List Occurrence} {p q : EventPair}

/-- The time between the events of a pair is not negative. -/
theorem Joins.nanos_add (h : p.Joins os) :
    p.opener.event.nanos + p.interval.length = p.closer.event.nanos := by
  obtain ⟨-, time⟩ := h.before
  show p.opener.event.nanos + (p.closer.event.nanos - p.opener.event.nanos) = _
  omega

/-- An opener is closed once, and what closes it closes nothing else. -/
theorem Joins.unique (ordered : os.Pairwise Occurrence.Before) (hp : p.Joins os) (hq : q.Joins os)
    (shared : p.opener = q.opener ∨ p.closer = q.closer) : p = q := by
  have kinds (same : p.closer = q.closer) := EventKind.closers_unique (same ▸ hp.closes) hq.closes
  suffices both : p.opener = q.opener ∧ p.closer = q.closer from
    EventPair.ext both.1 both.2 (kinds both.2).2
  rcases shared with opener | closer
  · refine ⟨opener, ?_⟩
    rcases Occurrence.before_or_before ordered hp.closer_mem hq.closer_mem with h | h | h
    · exact h
    · exact absurd (.inr ⟨_, opener ▸ hp.closes⟩) (hq.waits _ hp.closer_mem (opener ▸ hp.before) h)
    · exact absurd (.inr ⟨_, opener ▸ hq.closes⟩) (hp.waits _ hq.closer_mem (opener ▸ hq.before) h)
  · refine ⟨?_, closer⟩
    obtain ⟨kind, -⟩ := kinds closer
    rcases Occurrence.before_or_before ordered hp.opener_mem hq.opener_mem with h | h | h
    · exact h
    · exact absurd (.inl kind.symm) (hp.waits _ hq.opener_mem h (closer ▸ hq.before))
    · exact absurd (.inl kind) (hq.waits _ hp.opener_mem h (closer ▸ hp.before))

end EventPair

/-! ## The openers that wait -/

/-- After some events an opener waits: nothing that comes after it closes it or takes its
    place. -/
structure Occurrence.Waits (os : List Occurrence) (o : Occurrence) : Prop where
  mem : o ∈ os
  opener : o.event.kind.isOpener
  waits : ∀ x ∈ os, o.Before x → ¬ x.event.kind.Relieves o.event.kind

section Order

variable {pre post : List Occurrence} {e o : Occurrence}

/-- What comes before an event in an ordered list is what stands in front of it. -/
theorem mem_front_iff (ordered : (pre ++ e :: post).Pairwise Occurrence.Before) :
    o ∈ pre ↔ o ∈ pre ++ e :: post ∧ o.Before e := by
  rw [List.pairwise_append, List.pairwise_cons] at ordered
  obtain ⟨-, ⟨later, -⟩, earlier⟩ := ordered
  constructor
  · intro h
    exact ⟨List.mem_append_left _ h, earlier o h e (by simp)⟩
  · rintro ⟨h, before⟩
    rw [List.mem_append, List.mem_cons] at h
    rcases h with h | rfl | h
    · exact h
    · exact absurd before Occurrence.Before.irrefl
    · exact absurd before (later o h).asymm

/-- The openers that wait after one more event. -/
theorem waits_concat (ordered : (pre ++ [e]).Pairwise Occurrence.Before) :
    o.Waits (pre ++ [e]) ↔
      o = e ∧ e.event.kind.isOpener ∨ o.Waits pre ∧ ¬ e.event.kind.Relieves o.event.kind := by
  have front {x : Occurrence} := mem_front_iff (o := x) ordered
  constructor
  · rintro ⟨mem, opener, waits⟩
    rw [List.mem_append, List.mem_singleton] at mem
    rcases mem with mem | rfl
    · refine .inr ⟨⟨mem, opener, fun x hx => waits x (front.mp hx).1⟩, ?_⟩
      exact waits e (by simp) (front.mp mem).2
    · exact .inl ⟨rfl, opener⟩
  · rintro (⟨rfl, opener⟩ | ⟨⟨mem, opener, waits⟩, spared⟩)
    · refine ⟨by simp, opener, fun x hx after => ?_⟩
      rw [List.mem_append, List.mem_singleton] at hx
      rcases hx with hx | rfl
      · exact absurd after (front.mp hx).2.asymm
      · exact absurd after Occurrence.Before.irrefl
    · refine ⟨List.mem_append_left _ mem, opener, fun x hx after => ?_⟩
      rw [List.mem_append, List.mem_singleton] at hx
      rcases hx with hx | rfl
      · exact waits x hx after
      · exact spared

/-- An opener waits from then on, instead of any other of its kind. -/
theorem waits_concat_opener (ordered : (pre ++ [e]).Pairwise Occurrence.Before)
    (opens : e.event.kind.isOpener) :
    o.Waits (pre ++ [e]) ↔ o = e ∨ o.Waits pre ∧ o.event.kind ≠ e.event.kind := by
  have relieves : e.event.kind.Relieves o.event.kind ↔ o.event.kind = e.event.kind := by
    constructor
    · rintro (same | ⟨label, closes⟩)
      · exact same.symm
      · rw [EventKind.mem_closers, EventKind.closes?_of_isOpener opens] at closes
        cases closes
    · exact fun same => .inl same.symm
  rw [waits_concat ordered, relieves, and_iff_left opens]

/-- Another event ends the waiting of what it closes. -/
theorem waits_concat_other (ordered : (pre ++ [e]).Pairwise Occurrence.Before)
    (other : ¬ e.event.kind.isOpener) :
    o.Waits (pre ++ [e]) ↔
      o.Waits pre ∧ ∀ label, (e.event.kind, label) ∉ o.event.kind.closers := by
  rw [waits_concat ordered, or_iff_right fun h => other h.2]
  refine and_congr_right fun waits => ⟨fun spared label closes => spared (.inr ⟨label, closes⟩), ?_⟩
  rintro open_ (same | ⟨label, closes⟩)
  · exact other (same ▸ waits.opener)
  · exact open_ label closes

/-- The pairs that an event closes are those with an opener that waits. -/
theorem joins_iff_waits (ordered : (pre ++ e :: post).Pairwise Occurrence.Before) {label : String} :
    (EventPair.mk o e label).Joins (pre ++ e :: post) ↔
      o.Waits pre ∧ (e.event.kind, label) ∈ o.event.kind.closers := by
  have front {x : Occurrence} := mem_front_iff (o := x) ordered
  constructor
  · rintro ⟨mem, -, before, closes, waits⟩
    refine ⟨⟨front.mpr ⟨mem, before⟩, EventKind.isOpener_of_mem closes, fun x hx after => ?_⟩, closes⟩
    exact waits x (front.mp hx).1 after (front.mp hx).2
  · rintro ⟨⟨mem, -, waits⟩, closes⟩
    refine ⟨(front.mp mem).1, by simp, (front.mp mem).2, closes, fun x hx after before => ?_⟩
    exact waits x (front.mpr ⟨hx, before⟩) after

/-- The pairs that an event closes come in front of those that later ones close. -/
theorem joins_cons_iff (ordered : (pre ++ e :: post).Pairwise Occurrence.Before) {p : EventPair} :
    p.Joins (pre ++ e :: post) ∧ p.closer ∈ e :: post ↔
      (p.closer = e ∧ p.opener.Waits pre ∧ (e.event.kind, p.label) ∈ p.opener.event.kind.closers) ∨
        (p.Joins (pre ++ [e] ++ post) ∧ p.closer ∈ post) := by
  have here : p.Joins (pre ++ e :: post) ∧ p.closer = e ↔
      p.closer = e ∧ p.opener.Waits pre ∧
        (e.event.kind, p.label) ∈ p.opener.event.kind.closers := by
    rw [and_comm]
    refine and_congr_right ?_
    rintro rfl
    exact joins_iff_waits ordered
  rw [List.mem_cons, and_or_left, here, List.append_assoc, List.singleton_append]

/-- Of each kind, one opener waits. -/
theorem waits_unique (ordered : pre.Pairwise Occurrence.Before) {o' : Occurrence} (h : o.Waits pre)
    (h' : o'.Waits pre) (kind : o.event.kind = o'.event.kind) : o = o' := by
  rcases Occurrence.before_or_before ordered h.mem h'.mem with same | before | before
  · exact same
  · exact absurd (.inl kind.symm) (h.waits o' h'.mem before)
  · exact absurd (.inl kind) (h'.waits o h.mem before)

end Order

/-! ## One thread, in order -/

section Pairs

variable {openers : List Event} {e o : Event} {label : String}

theorem closedBy?_eq_some (h : closedBy? openers e = some (o, label)) :
    o ∈ openers ∧ (e.kind, label) ∈ o.kind.closers := by
  obtain ⟨o', mem, closed⟩ := List.exists_of_findSome?_eq_some h
  obtain ⟨l, found, same⟩ := Option.map_eq_some_iff.mp closed
  cases same
  exact ⟨mem, EventKind.lookup_closers_eq_some.mp found⟩

theorem closedBy?_eq_none (h : closedBy? openers e = none) (mem : o ∈ openers) :
    (e.kind, label) ∉ o.kind.closers := by
  intro closes
  have none := List.findSome?_eq_none_iff.mp h o mem
  rw [EventKind.lookup_closers_eq_some.mpr closes] at none
  cases none

end Pairs

/-- What is left of some waiting openers beside those of a kind. -/
theorem map_filter_kind (k : EventKind) (os : List Occurrence) :
    (os.filter (·.event.kind != k)).map (·.event) = (os.map (·.event)).filter (·.kind != k) := by
  rw [List.filter_map]
  rfl

/-- The openers of a list are those that wait after some events. -/
def Awaiting (openers pre : List Occurrence) : Prop := ∀ o, o ∈ openers ↔ o.Waits pre

namespace Awaiting

variable {openers pre : List Occurrence} {e o : Occurrence}

theorem start : Awaiting [] [] := fun _ => ⟨fun h => absurd h List.not_mem_nil, fun h => h.mem⟩

/-- An opener joins those that wait, instead of any other of its kind. -/
theorem opens (h : Awaiting openers pre) (ordered : (pre ++ [e]).Pairwise Occurrence.Before)
    (opener : e.event.kind.isOpener) :
    Awaiting (e :: openers.filter (·.event.kind != e.event.kind)) (pre ++ [e]) := by
  intro o
  rw [waits_concat_opener ordered opener, ← h]
  simp

/-- An event that closes nothing leaves those that wait alone. -/
theorem passes (h : Awaiting openers pre) (ordered : (pre ++ [e]).Pairwise Occurrence.Before)
    (other : ¬ e.event.kind.isOpener)
    (closesNone : ∀ o ∈ openers, ∀ label, (e.event.kind, label) ∉ o.event.kind.closers) :
    Awaiting openers (pre ++ [e]) := by
  intro o
  rw [waits_concat_other ordered other, ← h, and_iff_left_iff_imp.mpr (closesNone o)]

/-- Of those that wait, an event closes one at most. -/
theorem only (h : Awaiting openers pre) (ordered : pre.Pairwise Occurrence.Before)
    {o' : Occurrence} {label label' : String} (mem : o ∈ openers)
    (closes : (e.event.kind, label) ∈ o.event.kind.closers) (mem' : o' ∈ openers)
    (closes' : (e.event.kind, label') ∈ o'.event.kind.closers) : o' = o ∧ label' = label := by
  obtain ⟨kind, labels⟩ := EventKind.closers_unique closes' closes
  exact ⟨waits_unique ordered ((h o').mp mem') ((h o).mp mem) kind, labels⟩

/-- What an event closes waits no longer. -/
theorem closes (h : Awaiting openers pre) (ordered : (pre ++ [e]).Pairwise Occurrence.Before)
    (other : ¬ e.event.kind.isOpener) {label : String} (mem : o ∈ openers)
    (closes : (e.event.kind, label) ∈ o.event.kind.closers) :
    Awaiting (openers.filter (·.event.kind != o.event.kind)) (pre ++ [e]) := by
  intro o'
  rw [waits_concat_other ordered other, ← h, List.mem_filter, bne_iff_ne]
  refine and_congr_right fun mem' => ⟨fun apart label' closes' => apart ?_, fun spared kind => ?_⟩
  · rw [(h.only (List.pairwise_append.mp ordered).1 mem closes mem' closes').1]
  · exact spared label (kind ▸ closes)

end Awaiting

/-- The events that follow some others of the thread, among which the openers wait. -/
theorem pairEvents_from {pre post openers : List Occurrence}
    (ordered : (pre ++ post).Pairwise Occurrence.Before) (waiting : Awaiting openers pre) :
    ∃ pairs : List EventPair, pairs.Nodup ∧
      (∀ p, p ∈ pairs ↔ p.Joins (pre ++ post) ∧ p.closer ∈ post) ∧
      pairEvents (openers.map (·.event)) (post.map (·.event)) = pairs.map (·.interval) := by
  -- the induction is on what follows; the openers of the list are always those that wait
  induction post generalizing pre openers with
  | nil => exact ⟨[], List.nodup_nil, by simp, rfl⟩
  | cons e post ih =>
    have next : pre ++ e :: post = (pre ++ [e]) ++ post := by simp
    have front : (pre ++ [e]).Pairwise Occurrence.Before :=
      (List.pairwise_append.mp (next ▸ ordered)).1
    simp only [joins_cons_iff ordered, ← waiting _]
    rw [List.map_cons, pairEvents]
    by_cases opens : e.event.kind.isOpener
    · obtain ⟨pairs, nodup, mem, paired⟩ := ih (next ▸ ordered) (waiting.opens front opens)
      refine ⟨pairs, nodup, fun p => ?_, ?_⟩
      · rw [mem, or_iff_right]
        rintro ⟨-, -, closes⟩
        rw [EventKind.mem_closers, EventKind.closes?_of_isOpener opens] at closes
        cases closes
      · rw [if_pos opens, ← paired, List.map_cons, map_filter_kind]
    · rw [if_neg opens]
      cases closed : closedBy? (openers.map (·.event)) e.event with
      | none =>
        have closesNone (o : Occurrence) (ho : o ∈ openers) (label : String) :
            (e.event.kind, label) ∉ o.event.kind.closers :=
          closedBy?_eq_none closed (List.mem_map_of_mem ho)
        obtain ⟨pairs, nodup, mem, paired⟩ :=
          ih (next ▸ ordered) (waiting.passes front opens closesNone)
        refine ⟨pairs, nodup, fun p => ?_, paired⟩
        rw [mem, or_iff_right]
        rintro ⟨-, waits, closes⟩
        exact closesNone _ waits _ closes
      | some found =>
        obtain ⟨ev, label⟩ := found
        obtain ⟨here, closes⟩ := closedBy?_eq_some closed
        obtain ⟨o, waits, rfl⟩ := List.mem_map.mp here
        obtain ⟨pairs, nodup, mem, paired⟩ :=
          ih (next ▸ ordered) (waiting.closes front opens waits closes)
        refine ⟨⟨o, e, label⟩ :: pairs, ?_, fun p => ?_, ?_⟩
        · rw [List.nodup_cons, mem]
          refine ⟨fun again => ?_, nodup⟩
          rw [List.pairwise_append, List.pairwise_cons] at ordered
          exact absurd (ordered.2.1.1 e again.2) Occurrence.Before.irrefl
        · rw [List.mem_cons, mem]
          refine or_congr_left ⟨?_, ?_⟩
          · rintro rfl
            exact ⟨rfl, waits, closes⟩
          · rintro ⟨rfl, waits', closes'⟩
            obtain ⟨opener, labels⟩ :=
              waiting.only (List.pairwise_append.mp front).1 waits closes waits' closes'
            exact EventPair.ext opener rfl labels
        · rw [List.map_cons, ← paired, map_filter_kind]
          rfl

/-- The events of a thread, taken in order, give an interval for every pair. -/
theorem pairEvents_joins {os : List Occurrence} (ordered : os.Pairwise Occurrence.Before) :
    ∃ pairs : List EventPair, pairs.Nodup ∧ (∀ p, p ∈ pairs ↔ p.Joins os) ∧
      pairEvents [] (os.map (·.event)) = pairs.map (·.interval) := by
  rw [← List.nil_append os] at ordered ⊢
  obtain ⟨pairs, nodup, mem, paired⟩ := pairEvents_from ordered .start
  refine ⟨pairs, nodup, fun p => ?_, paired⟩
  rw [mem]
  exact and_iff_left_of_imp fun h => h.closer_mem

/-! ## The order of a thread's events -/

section Threads

variable {events : List Event} {thread : Nat}

/-- The events of a thread in the order of their times. -/
def inTime (events : List Event) (thread : Nat) : List Event :=
  (events.filter (·.thread == thread)).mergeSort fun a b => a.nanos ≤ b.nanos

/-- The events of a thread with their places, in the order of their times. -/
def occurrencesInTime (events : List Event) (thread : Nat) : List Occurrence :=
  ((occurrences events).filter (·.event.thread == thread)).mergeSort
    fun a b => a.event.nanos ≤ b.event.nanos

theorem map_event_occurrences (events : List Event) :
    (occurrences events).map (·.event) = events := by
  rw [occurrences, List.map_map]
  exact List.zipIdx_map_fst 0 events

theorem map_event_occurrencesInTime (events : List Event) (thread : Nat) :
    (occurrencesInTime events thread).map (·.event) = inTime events thread := by
  rw [occurrencesInTime, inTime,
    List.map_mergeSort (f := Occurrence.event) (s := fun a b => a.nanos ≤ b.nanos)
      fun _ _ _ _ => rfl]
  conv => rhs; rw [← map_event_occurrences events, List.filter_map]
  rfl

theorem mem_occurrencesInTime {o : Occurrence} :
    o ∈ occurrencesInTime events thread ↔ o ∈ occurrences events ∧ o.event.thread = thread := by
  rw [occurrencesInTime, List.mem_mergeSort, List.mem_filter, beq_iff_eq]

theorem occurrences_places (events : List Event) :
    (occurrences events).Pairwise fun a b => a.place < b.place := by
  rw [occurrences, List.pairwise_map, List.pairwise_iff_getElem]
  intro i j hi hj before
  simpa using before

/-- Sorting by time keeps the events of one time as they are. -/
theorem filter_nanos_occurrencesInTime (events : List Event) (thread nanos : Nat) :
    (occurrencesInTime events thread).filter (·.event.nanos = nanos) =
      ((occurrences events).filter (·.event.thread == thread)).filter (·.event.nanos = nanos) := by
  generalize h : (occurrences events).filter (·.event.thread == thread) = os
  have sorted : (os.filter (·.event.nanos = nanos)).Pairwise
      fun a b => decide (a.event.nanos ≤ b.event.nanos) = true := by
    refine List.pairwise_of_forall_mem_list fun a ha b hb => ?_
    simp only [List.mem_filter, decide_eq_true_eq] at ha hb ⊢
    omega
  have kept := (List.sublist_mergeSort (fun a b c => by simpa using Nat.le_trans)
    (fun a b => by simpa using Nat.le_total _ _) sorted List.filter_sublist).filter
      (·.event.nanos = nanos)
  simp only [List.filter_filter, Bool.and_self] at kept
  rw [occurrencesInTime, h]
  exact (kept.eq_of_length ((List.mergeSort_perm os _).filter _).length_eq.symm).symm

/-- Sorting by time keeps the order in the list where times are equal. -/
theorem inTime_ordered (events : List Event) (thread : Nat) :
    (occurrencesInTime events thread).Pairwise Occurrence.Before := by
  refine List.pairwise_iff_forall_sublist.mpr fun {a b} both => ?_
  have ha : a ∈ occurrencesInTime events thread := both.subset (by simp)
  have hb : b ∈ occurrencesInTime events thread := both.subset (by simp)
  rw [mem_occurrencesInTime] at ha hb
  have sorted : a.event.nanos ≤ b.event.nanos := by
    have inOrder : (occurrencesInTime events thread).Pairwise
        fun a b => decide (a.event.nanos ≤ b.event.nanos) = true :=
      List.pairwise_mergeSort (fun a b c => by simpa using Nat.le_trans)
        (fun a b => by simpa using Nat.le_total _ _) _
    exact of_decide_eq_true (inOrder.forall_sublist both)
  refine ⟨ha.2.trans hb.2.symm, ?_⟩
  rcases Nat.lt_or_eq_of_le sorted with earlier | same
  · exact .inl earlier
  · have alike := both.filter (·.event.nanos = b.event.nanos)
    rw [filter_nanos_occurrencesInTime] at alike
    simp only [same, decide_true, List.filter_cons_of_pos, List.filter_nil] at alike
    exact .inr ⟨same, (occurrences_places events).forall_sublist
      (alike.trans (List.filter_sublist.trans List.filter_sublist))⟩

/-- The pairs of a list of events are those of each thread. -/
theorem joins_inTime {p : EventPair} :
    p.Joins (occurrencesInTime events thread) ↔
      p.Joins (occurrences events) ∧ p.opener.event.thread = thread := by
  constructor
  · rintro ⟨opener, closer, before, closes, waits⟩
    rw [mem_occurrencesInTime] at opener closer
    refine ⟨⟨opener.1, closer.1, before, closes, fun x hx after => ?_⟩, opener.2⟩
    exact waits x (mem_occurrencesInTime.mpr ⟨hx, after.1.symm.trans opener.2⟩) after
  · rintro ⟨⟨opener, closer, before, closes, waits⟩, own⟩
    refine ⟨mem_occurrencesInTime.mpr ⟨opener, own⟩,
      mem_occurrencesInTime.mpr ⟨closer, before.1.symm.trans own⟩, before, closes, fun x hx => ?_⟩
    exact waits x (mem_occurrencesInTime.mp hx).1

/-! ## All threads -/

theorem nodup_eraseDups (ts : List Nat) : ts.eraseDups.Nodup := by
  induction ts using List.reverseRecOn with
  | nil => exact List.nodup_nil
  | append_singleton ts t ih =>
    rw [List.eraseDups_append]
    by_cases seen : t ∈ ts
    · simpa [seen, List.removeAll] using ih
    · have other (a : Nat) (ha : a ∈ ts) : ¬ a = t := fun same => seen (same ▸ ha)
      simpa [seen, List.removeAll, List.eraseDups_cons, List.nodup_append, ih] using other

theorem mem_threadsOf : thread ∈ threadsOf events ↔ ∃ e ∈ events, e.thread = thread := by
  simp [threadsOf]

/-- The threads are listed in their order, each once. -/
theorem threadsOf_ordered (events : List Event) : (threadsOf events).Pairwise (· < ·) := by
  have sorted : (threadsOf events).Pairwise (· ≤ ·) := List.pairwise_mergeSort' _ _
  have once : (threadsOf events).Nodup :=
    (List.mergeSort_perm _ _).nodup_iff.mpr (nodup_eraseDups _)
  exact (sorted.and once).imp fun h => Nat.lt_of_le_of_ne h.1 h.2

/-- The events of all threads give an interval for every pair. -/
theorem intervals_joins (events : List Event) :
    ∃ pairs : List EventPair, pairs.Nodup ∧ (∀ p, p ∈ pairs ↔ p.Joins (occurrences events)) ∧
      intervals events = pairs.map (·.interval) := by
  choose pairs nodup mem paired using fun t => pairEvents_joins (inTime_ordered events t)
  simp only [joins_inTime] at mem
  refine ⟨(threadsOf events).flatMap pairs, ?_, fun p => ?_, ?_⟩
  · refine List.nodup_flatMap.mpr ⟨fun t _ => nodup t, (threadsOf_ordered events).imp ?_⟩
    intro t t' before p hp hp'
    have := ((mem t p).mp hp).2
    have := ((mem t' p).mp hp').2
    omega
  · simp only [List.mem_flatMap, mem]
    constructor
    · rintro ⟨t, -, joins, -⟩
      exact joins
    · intro joins
      refine ⟨_, mem_threadsOf.mpr ⟨p.opener.event, ?_, rfl⟩, joins, rfl⟩
      rw [← map_event_occurrences events]
      exact List.mem_map_of_mem joins.opener_mem
  · rw [List.map_flatMap, intervals]
    refine List.flatMap_congr fun t _ => ?_
    rw [← paired, map_event_occurrencesInTime]
    rfl

end Threads

/-! ## Looking through the openers -/

/-- A way to pair the events of a thread, in order: the waiting openers are kept in whatever
    order, and an event closes whichever of them it finds. -/
inductive Pairing : List Event → List Event → List Interval → Prop
  | nil {openers} : Pairing openers [] []
  | opens {openers openers' e es is} (opener : e.kind.isOpener)
      (kept : openers'.Perm (e :: openers.filter (·.kind != e.kind)))
      (rest : Pairing openers' es is) : Pairing openers (e :: es) is
  | closes {openers openers' e o label es is} (other : ¬ e.kind.isOpener) (found : o ∈ openers)
      (closed : (e.kind, label) ∈ o.kind.closers)
      (kept : openers'.Perm (openers.filter (·.kind != o.kind)))
      (rest : Pairing openers' es is) :
      Pairing openers (e :: es) (⟨label, e.nanos - o.nanos⟩ :: is)
  | passes {openers openers' e es is} (other : ¬ e.kind.isOpener)
      (none : ∀ o ∈ openers, ∀ label, (e.kind, label) ∉ o.kind.closers)
      (kept : openers'.Perm openers) (rest : Pairing openers' es is) :
      Pairing openers (e :: es) is

section Orders

variable {openers openers' es : List Event} {is : List Interval}

/-- The pairing that looks through the openers from the latest on is one way. -/
theorem pairing_pairEvents (openers es : List Event) :
    Pairing openers es (pairEvents openers es) := by
  induction es generalizing openers with
  | nil => exact .nil
  | cons e es ih =>
    rw [pairEvents]
    by_cases opens : e.kind.isOpener
    · rw [if_pos opens]
      exact .opens opens (.refl _) (ih _)
    · rw [if_neg opens]
      cases closed : closedBy? openers e with
      | none => exact .passes opens (fun o ho label => closedBy?_eq_none closed ho) (.refl _) (ih _)
      | some found =>
        obtain ⟨here, closes⟩ := closedBy?_eq_some closed
        exact .closes opens here closes (.refl _) (ih _)

/-- Of openers of different kinds, an event closes the same one in whatever order they are. -/
theorem closedBy?_of_mem {e o : Event} {label : String} (kinds : (openers.map (·.kind)).Nodup)
    (mem : o ∈ openers) (closes : (e.kind, label) ∈ o.kind.closers) :
    closedBy? openers e = some (o, label) := by
  cases closed : closedBy? openers e with
  | none => exact absurd closes (closedBy?_eq_none closed mem)
  | some found =>
    obtain ⟨here, closes'⟩ := closedBy?_eq_some closed
    obtain ⟨kind, labels⟩ := EventKind.closers_unique closes' closes
    rw [← labels, ← List.inj_on_of_nodup_map kinds here mem kind]

/-- Every way to pair gives the same intervals. -/
theorem Pairing.eq_pairEvents (h : Pairing openers es is) (same : openers.Perm openers')
    (kinds : (openers'.map (·.kind)).Nodup) : is = pairEvents openers' es := by
  have left (k : EventKind) : ((openers'.filter (·.kind != k)).map (·.kind)).Nodup :=
    kinds.sublist (List.filter_sublist.map _)
  induction h generalizing openers' with
  | nil => rfl
  | @opens _ _ e _ _ opener kept _ ih =>
    rw [pairEvents, if_pos opener]
    have now : ((e :: openers'.filter (·.kind != e.kind)).map (·.kind)).Nodup := by
      rw [List.map_cons, List.nodup_cons]
      exact ⟨by simp, left e.kind⟩
    exact ih (kept.trans ((same.filter _).cons e)) now fun k => now.sublist (List.filter_sublist.map _)
  | @closes _ _ e o _ _ _ other found closed kept _ ih =>
    rw [pairEvents, if_neg other, closedBy?_of_mem kinds (same.mem_iff.mp found) closed]
    refine congrArg _ (ih (kept.trans (same.filter _)) (left o.kind) fun k => ?_)
    exact (left o.kind).sublist (List.filter_sublist.map _)
  | @passes _ _ e _ _ other none kept _ ih =>
    rw [pairEvents, if_neg other]
    cases closed : closedBy? openers' e with
    | none => exact ih (kept.trans same) kinds left
    | some found =>
      obtain ⟨here, closes⟩ := closedBy?_eq_some closed
      exact absurd closes (none _ (same.mem_iff.mpr here) _)

/-- There is one way to pair events, in whatever order the openers are looked through. -/
theorem pairing_iff : Pairing [] es is ↔ is = pairEvents [] es := by
  constructor
  · exact fun h => h.eq_pairEvents (.refl _) List.nodup_nil
  · rintro rfl
    exact pairing_pairEvents [] es

end Orders

/-! ## Other orders of the events -/

section Reordered

variable {events others : List Event}

theorem threadsOf_congr (same : ∀ thread, (∃ e ∈ others, e.thread = thread) ↔
    ∃ e ∈ events, e.thread = thread) : threadsOf others = threadsOf events := by
  refine (threadsOf_ordered others).eq_of_mem_iff (threadsOf_ordered events) fun t => ?_
  rw [mem_threadsOf, mem_threadsOf, same]

/-- How the events of different threads are mixed does not matter. -/
theorem intervals_mixed
    (own : ∀ thread, others.filter (·.thread == thread) = events.filter (·.thread == thread)) :
    intervals others = intervals events := by
  have threads : threadsOf others = threadsOf events := by
    refine threadsOf_congr fun t => ?_
    have has (es : List Event) : (∃ e ∈ es, e.thread = t) ↔ es.filter (·.thread == t) ≠ [] := by
      simp
    rw [has, has, own]
  rw [intervals, intervals, threads]
  refine List.flatMap_congr fun t _ => ?_
  rw [threadIntervals, threadIntervals, own]

/-- The events of a thread at different times can come in any order. -/
theorem inTime_perm (perm : others.Perm events) {thread : Nat}
    (times : ((events.filter (·.thread == thread)).map (·.nanos)).Nodup) :
    inTime others thread = inTime events thread := by
  have sorted (es : List Event) : (inTime es thread).Pairwise fun a b => a.nanos ≤ b.nanos :=
    (List.pairwise_mergeSort (fun a b c => by simpa using Nat.le_trans)
      (fun a b => by simpa using Nat.le_total _ _) _).imp of_decide_eq_true
  have all : (inTime others thread).Perm (inTime events thread) :=
    (List.mergeSort_perm _ _).trans ((perm.filter _).trans (List.mergeSort_perm _ _).symm)
  refine all.eq_of_pairwise (fun a b ha hb ab ba => ?_) (sorted others) (sorted events)
  have ha := (List.mergeSort_perm _ _).mem_iff.mp (all.mem_iff.mp ha)
  have hb := (List.mergeSort_perm _ _).mem_iff.mp hb
  exact List.inj_on_of_nodup_map times ha hb (Nat.le_antisymm ab ba)

/-- Events at different times in each thread can come in any order. -/
theorem intervals_perm (perm : others.Perm events)
    (times : ∀ thread, ((events.filter (·.thread == thread)).map (·.nanos)).Nodup) :
    intervals others = intervals events := by
  have threads : threadsOf others = threadsOf events :=
    threadsOf_congr fun t => exists_congr fun e => and_congr_left' perm.mem_iff
  rw [intervals, intervals, threads]
  refine List.flatMap_congr fun t _ => ?_
  exact congrArg (pairEvents []) (inTime_perm perm (times t))

end Reordered

/-! ## All together -/

/-- An opener is closed once, and what closes it closes nothing else. -/
theorem EventPair.Joins.eq_of_shared {events : List Event} {p q : EventPair}
    (hp : p.Joins (occurrences events)) (hq : q.Joins (occurrences events))
    (shared : p.opener = q.opener ∨ p.closer = q.closer) : p = q := by
  have threads : p.opener.event.thread = q.opener.event.thread := by
    rcases shared with opener | closer
    · rw [opener]
    · rw [hp.before.1, hq.before.1, closer]
  exact EventPair.Joins.unique (inTime_ordered events q.opener.event.thread)
    (joins_inTime.mpr ⟨hp, threads⟩) (joins_inTime.mpr ⟨hq, rfl⟩) shared

/-- **The intervals of events are those of their pairs.**  They depend neither on the order in
    which the waiting openers are looked through, nor on how the events of different threads are
    mixed, nor on the order of events at different times. -/
theorem intervals_independent (events : List Event) :
    (∃ pairs : List EventPair, pairs.Nodup ∧ (∀ p, p ∈ pairs ↔ p.Joins (occurrences events)) ∧
      intervals events = pairs.map (·.interval)) ∧
    (∀ p q : EventPair, p.Joins (occurrences events) → q.Joins (occurrences events) →
      p.opener = q.opener ∨ p.closer = q.closer → p = q) ∧
    (∀ p : EventPair, p.Joins (occurrences events) →
      p.opener.event.nanos + p.interval.length = p.closer.event.nanos) ∧
    (∀ thread is, Pairing [] (inTime events thread) is ↔ is = threadIntervals events thread) ∧
    (∀ others : List Event,
      (∀ thread, others.filter (·.thread == thread) = events.filter (·.thread == thread)) →
        intervals others = intervals events) ∧
    (∀ others : List Event, others.Perm events →
      (∀ thread, ((events.filter (·.thread == thread)).map (·.nanos)).Nodup) →
        intervals others = intervals events) :=
  ⟨intervals_joins events, fun _ _ hp hq => hp.eq_of_shared hq, fun _ hp => hp.nanos_add,
    fun _ _ => pairing_iff, fun _ own => intervals_mixed own,
    fun _ perm times => intervals_perm perm times⟩

/-- Two threads' events, one after the other and mixed. -/
theorem intervals_independent_mixed :
    let events : List Event := [⟨.compileStart, 2, 1⟩, ⟨.compileEnd, 7, 1⟩, ⟨.bailStart, 3, 2⟩,
      ⟨.compileStart, 3, 2⟩, ⟨.bailEnd, 4, 2⟩]
    let mixed : List Event := [⟨.bailStart, 3, 2⟩, ⟨.compileStart, 2, 1⟩, ⟨.compileStart, 3, 2⟩,
      ⟨.compileEnd, 7, 1⟩, ⟨.bailEnd, 4, 2⟩]
    intervals mixed = intervals events ∧ intervals events = [⟨"compile", 5⟩, ⟨"bail", 1⟩] := by
  intro events mixed
  -- nothing needs sorting here
  have threads : threadsOf events = [1, 2] := by
    rw [threadsOf, List.mergeSort_of_pairwise (by decide +kernel)]
    decide +kernel
  have first : threadIntervals events 1 = [⟨"compile", 5⟩] := by
    rw [threadIntervals, List.mergeSort_of_pairwise (by decide +kernel)]
    decide +kernel
  have second : threadIntervals events 2 = [⟨"bail", 1⟩] := by
    rw [threadIntervals, List.mergeSort_of_pairwise (by decide +kernel)]
    decide +kernel
  have own (thread : Nat) :
      mixed.filter (·.thread == thread) = events.filter (·.thread == thread) := by
    by_cases one : thread = 1
    · subst one
      rfl
    · by_cases two : thread = 2
      · subst two
        rfl
      · simp [events, mixed, Ne.symm one, Ne.symm two]
  refine ⟨(intervals_independent events).2.2.2.2.1 mixed own, ?_⟩
  rw [intervals, threads, List.flatMap_cons, List.flatMap_singleton, first, second]
  rfl

end TieredMachine
