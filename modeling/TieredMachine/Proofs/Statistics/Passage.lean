/-
  Passages: what happens at once.

  An engine compiles a unit, counts a bail, or counts an activation and settles the tier
  that runs it, without running any guest code meanwhile.  The events of such a *passage*
  follow each other in the record, so the record of a run is a row of passages.  Pairing
  the events of the row is pairing the events of each passage: no interval begins in one
  passage and ends in another.

  * `Passage`: passages, with the times of their events;
  * `Passage.marks`, `Passage.intervals`, `Passage.account`: the events of a passage, the
    intervals between them, and what it adds to the account of the engine;
  * `intervals_passages`: **the intervals of a row of passages are those of each passage**,
    whatever clock the events are stamped by;
  * `Booked`: accounts that agree with records, as those of passages do;
  * `EventTimer.Holds`: what a timer holds that never overflowed.
-/
import Mathlib.Algebra.BigOperators.Group.List.Basic
import Mathlib.Algebra.Group.Pi.Basic
import Mathlib.Data.List.Sort
import TieredMachine.Event.Interval
import TieredMachine.Proofs.Statistics.Account

namespace TieredMachine

/-- An event that happened as the tick of a clock said. -/
abbrev Mark := EventKind × Nat

/-- The event of a mark, stamped by a clock on a thread. -/
def Mark.event (clock : Nat → Nat) (thread : Nat) (k : Mark) : Event := ⟨k.1, clock k.2, thread⟩

/-! ## Passages -/

/-- The ticks of a compilation. -/
structure CompileTicks where
  start : Nat
  lowerStart : Nat
  lowerEnd : Nat
  stop : Nat
  deriving DecidableEq, Repr

/-- The ticks of a bail. -/
structure BailTicks where
  start : Nat
  stop : Nat
  deriving DecidableEq, Repr

/-- What happens at once. -/
inductive Passage where
  /-- an exception, or the end of an activation -/
  | mark (kind : EventKind) (isMark : kind.isMark) (tick : Nat)
  | compile (c : CompileTicks)
  | bail (isFatal : Bool) (b : BailTicks)
  /-- an activation is counted and entered.  Before that its unit may be compiled, and its
      native code may be given up for this time -/
  | call (start : Nat) (compiled : Option CompileTicks) (bailed : Option BailTicks)
      (native : Bool) (entered : Nat)

/-- The event of an activation that is entered. -/
def EventKind.entered (native : Bool) : EventKind :=
  if native then callEnterNative else callEnterEval

/-- The label of the interval from the start of an activation to its entry. -/
def enteredLabel (native : Bool) : String := if native then "call_to_native" else "call_to_eval"

def CompileTicks.marks (c : CompileTicks) : List Mark :=
  [(.compileStart, c.start), (.lowerStart, c.lowerStart), (.lowerEnd, c.lowerEnd),
    (.compileEnd, c.stop)]

def BailTicks.marks (b : BailTicks) : List Mark := [(.bailStart, b.start), (.bailEnd, b.stop)]

/-- The intervals of a compilation. -/
def CompileTicks.intervals (clock : Nat → Nat) (c : CompileTicks) : List Interval :=
  [⟨"lower", clock c.lowerEnd - clock c.lowerStart⟩, ⟨"compile", clock c.stop - clock c.start⟩]

/-- The interval of a bail. -/
def BailTicks.intervals (clock : Nat → Nat) (b : BailTicks) : List Interval :=
  [⟨"bail", clock b.stop - clock b.start⟩]

namespace Passage

/-- The events of a passage. -/
def marks : Passage → List Mark
  | mark kind _ tick => [(kind, tick)]
  | compile c => c.marks
  | bail _ b => b.marks
  | call start compiled bailed native entered =>
    (.callStartEval, start) :: compiled.elim [] CompileTicks.marks ++
      bailed.elim [] BailTicks.marks ++ [(.entered native, entered)]

/-- The intervals of a passage, each between two events of its own. -/
def intervals (clock : Nat → Nat) : Passage → List Interval
  | mark _ _ _ => []
  | compile c => c.intervals clock
  | bail _ b => b.intervals clock
  | call start compiled bailed native entered =>
    compiled.elim [] (·.intervals clock) ++ bailed.elim [] (·.intervals clock) ++
      [⟨enteredLabel native, clock entered - clock start⟩]

/-- What a passage adds to the account of the engine. -/
def account : Passage → Counter → Nat
  | mark _ _ _ => 0
  | compile _ => Machine.compilation
  | bail isFatal _ => Machine.bailed isFatal
  | call _ compiled bailed native _ =>
    Machine.called + compiled.elim 0 (fun _ => Machine.compilation) +
      bailed.elim 0 (fun _ => Machine.bailed false) + if native then 0 else Machine.interpreted

end Passage

/-! ## Pairing -/

section Pairing

variable (clock : Nat → Nat) (thread : Nat)

/-- The events of some marks. -/
abbrev eventsOf (ks : List Mark) : List Event := ks.map (·.event clock thread)

/-- Only the start of an activation may be waiting when a compilation or a bail begins. -/
def Waiting (openers : List Event) : Prop := ∀ o ∈ openers, o.kind = .callStartEval

variable {openers : List Event} (h : Waiting openers)

include h

theorem Waiting.filter {k : EventKind} (hk : k ≠ .callStartEval) :
    openers.filter (·.kind != k) = openers := by
  refine List.filter_eq_self.mpr fun o ho => ?_
  rw [h o ho]
  simpa using hk.symm

theorem pairEvents_compile (c : CompileTicks) (es : List Event) :
    pairEvents openers (eventsOf clock thread c.marks ++ es) =
      c.intervals clock ++ pairEvents openers es := by
  have compile := h.filter (k := .compileStart) (by decide)
  have lower := h.filter (k := .lowerStart) (by decide)
  simp [CompileTicks.marks, CompileTicks.intervals, Mark.event, pairEvents, closedBy?,
    EventKind.isOpener, EventKind.closers, compile, lower]

theorem pairEvents_bail (b : BailTicks) (es : List Event) :
    pairEvents openers (eventsOf clock thread b.marks ++ es) =
      b.intervals clock ++ pairEvents openers es := by
  have bail := h.filter (k := .bailStart) (by decide)
  simp [BailTicks.marks, BailTicks.intervals, Mark.event, pairEvents, closedBy?,
    EventKind.isOpener, EventKind.closers, bail]

omit h

theorem pairEvents_mark {kind : EventKind} (h : kind.isMark) (tick : Nat) (es : List Event) :
    pairEvents [] (eventsOf clock thread [(kind, tick)] ++ es) = pairEvents [] es := by
  cases kind <;> first | exact Bool.noConfusion h | rfl

theorem pairEvents_entered (start entered : Nat) (native : Bool) (es : List Event) :
    pairEvents (eventsOf clock thread [(.callStartEval, start)])
        (eventsOf clock thread [(.entered native, entered)] ++ es) =
      ⟨enteredLabel native, clock entered - clock start⟩ :: pairEvents [] es := by
  cases native <;> rfl

/-- The events of a passage are paired among themselves. -/
theorem pairEvents_passage (p : Passage) (es : List Event) :
    pairEvents [] (eventsOf clock thread p.marks ++ es) =
      p.intervals clock ++ pairEvents [] es := by
  cases p with
  | mark kind isMark tick => exact pairEvents_mark clock thread isMark tick es
  | compile c => exact pairEvents_compile clock thread (fun _ h => by cases h) c es
  | bail isFatal b => exact pairEvents_bail clock thread (fun _ h => by cases h) b es
  | call start compiled bailed native entered =>
    let opener := eventsOf clock thread [(.callStartEval, start)]
    have waiting : Waiting opener := fun o ho => by
      rw [List.mem_singleton.mp ho]
      rfl
    have compilation (es : List Event) : pairEvents opener
        (eventsOf clock thread (compiled.elim [] CompileTicks.marks) ++ es) =
          compiled.elim [] (·.intervals clock) ++ pairEvents opener es := by
      cases compiled with
      | none => rfl
      | some c => exact pairEvents_compile clock thread waiting c es
    have bail (es : List Event) : pairEvents opener
        (eventsOf clock thread (bailed.elim [] BailTicks.marks) ++ es) =
          bailed.elim [] (·.intervals clock) ++ pairEvents opener es := by
      cases bailed with
      | none => rfl
      | some b => exact pairEvents_bail clock thread waiting b es
    calc pairEvents [] (eventsOf clock thread
          (Passage.marks (.call start compiled bailed native entered)) ++ es)
        = pairEvents opener (eventsOf clock thread (compiled.elim [] CompileTicks.marks) ++
            (eventsOf clock thread (bailed.elim [] BailTicks.marks) ++
              (eventsOf clock thread [(.entered native, entered)] ++ es))) := by
          simp [Passage.marks, eventsOf, pairEvents, Mark.event, EventKind.isOpener,
            EventKind.closers, opener]
      _ = compiled.elim [] (·.intervals clock) ++ (bailed.elim [] (·.intervals clock) ++
            (⟨enteredLabel native, clock entered - clock start⟩ :: pairEvents [] es)) := by
          rw [compilation, bail, pairEvents_entered]
      _ = Passage.intervals clock (.call start compiled bailed native entered) ++
            pairEvents [] es := by
          simp [Passage.intervals]

theorem pairEvents_passages (ps : List Passage) :
    pairEvents [] (eventsOf clock thread (ps.flatMap Passage.marks)) =
      ps.flatMap (·.intervals clock) := by
  induction ps with
  | nil => rfl
  | cons p ps ih =>
    rw [List.flatMap_cons, eventsOf, List.map_append, pairEvents_passage, ih, List.flatMap_cons]

/-- Events of one thread whose times do not decrease are paired as they are. -/
theorem intervals_eventsOf {clock : Nat → Nat} (monotone : Monotone clock) {ks : List Mark}
    (sorted : (ks.map Prod.snd).Pairwise (· ≤ ·)) :
    intervals (eventsOf clock thread ks) = pairEvents [] (eventsOf clock thread ks) := by
  have times : (eventsOf clock thread ks).Pairwise fun a b => decide (a.nanos ≤ b.nanos) := by
    rw [List.pairwise_map] at sorted ⊢
    exact sorted.imp fun h => decide_eq_true (monotone h)
  have own : (eventsOf clock thread ks).filter (·.thread == thread) = eventsOf clock thread ks := by
    refine List.filter_eq_self.mpr fun e he => ?_
    obtain ⟨k, -, rfl⟩ := List.mem_map.mp he
    exact beq_self_eq_true thread
  have alone : threadIntervals (eventsOf clock thread ks) thread =
      pairEvents [] (eventsOf clock thread ks) := by
    rw [threadIntervals, own, List.mergeSort_of_pairwise times]
  cases ks with
  | nil => simp [intervals, threadsOf, pairEvents]
  | cons k ks =>
    have threads : threadsOf (eventsOf clock thread (k :: ks)) = [thread] := by
      have others : ((eventsOf clock thread ks).map (·.thread)).filter (fun b => !b == thread) =
          [] := by
        refine List.filter_eq_nil_iff.mpr fun t ht => ?_
        obtain ⟨e, he, rfl⟩ := List.mem_map.mp ht
        obtain ⟨k, -, rfl⟩ := List.mem_map.mp he
        simp [Mark.event]
      simp only [threadsOf, eventsOf, List.map_cons, List.eraseDups_cons, Mark.event] at others ⊢
      rw [others]
      simp
    rw [intervals, threads, List.flatMap_cons, alone, List.flatMap_nil, List.append_nil]

end Pairing

/-- **The intervals of a row of passages are those of each passage**, whatever clock the
    events are stamped by. -/
theorem intervals_passages {clock : Nat → Nat} (monotone : Monotone clock) (thread : Nat)
    {ps : List Passage} (sorted : ((ps.flatMap Passage.marks).map Prod.snd).Pairwise (· ≤ ·)) :
    intervals (eventsOf clock thread (ps.flatMap Passage.marks)) =
      ps.flatMap (·.intervals clock) := by
  rw [intervals_eventsOf thread monotone sorted, pairEvents_passages]

/-! ## Accounts and records -/

/-- The number of events of a kind among some marks. -/
def marked (kind : EventKind) (ks : List Mark) : Nat := ks.countP (·.1 == kind)

/-- The number of intervals with a label. -/
def labelled (label : String) (is : List Interval) : Nat := (lengthsOf is label).length

theorem labelled_append (label : String) (is is' : List Interval) :
    labelled label (is ++ is') = labelled label is + labelled label is' := by
  simp [labelled, lengthsOf]

/-- An account agrees with itself, with the events and with the intervals of a record. -/
structure Booked (account : Counter → Nat) (ks : List Mark) (is : List Interval) : Prop where
  attempts : account .attempts = account .compiles
  compiles : labelled "compile" is = account .compiles
  lowerings : labelled "lower" is = account .compiles
  bailed : account .bailed = account .bails
  bails : labelled "bail" is = account .bails
  fatal : account .fatal = account .fatalBails
  calls : marked .callStartEval ks = account .calls
  entered : marked .callEnterEval ks + marked .callEnterNative ks = account .calls
  interpreted : marked .callEnterEval ks = account .interpreted
  toEval : labelled "call_to_eval" is = marked .callEnterEval ks
  toNative : labelled "call_to_native" is = marked .callEnterNative ks

theorem Booked.append {a a' : Counter → Nat} {ks ks' : List Mark} {is is' : List Interval}
    (h : Booked a ks is) (h' : Booked a' ks' is') : Booked (a + a') (ks ++ ks') (is ++ is') where
  attempts := congrArg₂ (· + ·) h.attempts h'.attempts
  compiles := (labelled_append ..).trans (congrArg₂ (· + ·) h.compiles h'.compiles)
  lowerings := (labelled_append ..).trans (congrArg₂ (· + ·) h.lowerings h'.lowerings)
  bailed := congrArg₂ (· + ·) h.bailed h'.bailed
  bails := (labelled_append ..).trans (congrArg₂ (· + ·) h.bails h'.bails)
  fatal := congrArg₂ (· + ·) h.fatal h'.fatal
  calls := List.countP_append.trans (congrArg₂ (· + ·) h.calls h'.calls)
  entered := by
    have sum := congrArg₂ (· + ·) h.entered h'.entered
    simp only [marked, List.countP_append, Pi.add_apply] at sum ⊢
    omega
  interpreted := List.countP_append.trans (congrArg₂ (· + ·) h.interpreted h'.interpreted)
  toEval := (labelled_append ..).trans
    ((congrArg₂ (· + ·) h.toEval h'.toEval).trans List.countP_append.symm)
  toNative := (labelled_append ..).trans
    ((congrArg₂ (· + ·) h.toNative h'.toNative).trans List.countP_append.symm)

theorem countP_eventsOf (clock : Nat → Nat) (thread : Nat) (kind : EventKind) (ks : List Mark) :
    (eventsOf clock thread ks).countP (·.kind == kind) = marked kind ks := by
  rw [eventsOf, List.countP_map]
  rfl

/-- What a passage adds to the account agrees with its events and intervals. -/
theorem Passage.booked (clock : Nat → Nat) (p : Passage) :
    Booked p.account p.marks (p.intervals clock) := by
  cases p with
  | mark kind isMark tick =>
    cases kind <;>
      first
      | exact Bool.noConfusion isMark
      | exact ⟨rfl, rfl, rfl, rfl, rfl, rfl, rfl, rfl, rfl, rfl, rfl⟩
  | compile c => exact ⟨rfl, rfl, rfl, rfl, rfl, rfl, rfl, rfl, rfl, rfl, rfl⟩
  | bail isFatal b => exact ⟨rfl, rfl, rfl, rfl, rfl, rfl, rfl, rfl, rfl, rfl, rfl⟩
  | call start compiled bailed native entered =>
    cases compiled <;> cases bailed <;> cases native <;>
      exact ⟨rfl, rfl, rfl, rfl, rfl, rfl, rfl, rfl, rfl, rfl, rfl⟩

/-- What a row of passages adds to the account. -/
def Passage.accounts (ps : List Passage) : Counter → Nat := (ps.map Passage.account).sum

theorem Passage.accounts_concat (ps : List Passage) (p : Passage) :
    Passage.accounts (ps ++ [p]) = Passage.accounts ps + p.account := by
  rw [accounts, List.map_append, List.sum_append, List.map_cons, List.map_nil, List.sum_cons,
    List.sum_nil, add_zero]
  rfl

/-- What a row of passages adds to the account agrees with its events and intervals. -/
theorem Passage.accounts_booked (clock : Nat → Nat) (ps : List Passage) :
    Booked (Passage.accounts ps) (ps.flatMap Passage.marks) (ps.flatMap (·.intervals clock)) := by
  induction ps with
  | nil => exact ⟨rfl, rfl, rfl, rfl, rfl, rfl, rfl, rfl, rfl, rfl, rfl⟩
  | cons p ps ih => exact (p.booked clock).append ih

/-! ## Timers -/

/-- A timer that never overflowed holds the events of some marks, at ticks of its clock. -/
structure EventTimer.Holds (t : EventTimer) (ks : List Mark) : Prop where
  enabled : t.enabled = true
  clock : t.clock = ks.length
  ticks : ks.map Prod.snd = List.range ks.length
  newest : t.clock ≤ t.capacity → t.count = ks.length ∧ t.newest = (eventsOf id 1 ks).reverse

namespace EventTimer.Holds

variable {t : EventTimer} {ks : List Mark}

theorem new (capacity : Nat) : (EventTimer.new capacity true).Holds [] :=
  ⟨rfl, rfl, rfl, fun _ => ⟨rfl, rfl⟩⟩

/-- The events of a timer that never overflowed. -/
theorem events (h : t.Holds ks) (le : t.clock ≤ t.capacity) : t.events = eventsOf id 1 ks := by
  have length : t.newest.length ≤ t.capacity := by
    rw [(h.newest le).2, List.length_reverse, List.length_map, ← h.clock]
    exact le
  rw [EventTimer.events, List.take_of_length_le length, (h.newest le).2, List.reverse_reverse]

/-- The ticks of recorded events do not decrease. -/
theorem sorted (h : t.Holds ks) : (ks.map Prod.snd).Pairwise (· ≤ ·) := by
  rw [h.ticks]
  exact List.pairwise_le_range

theorem record (h : t.Holds ks) (kind : EventKind) :
    (t.record kind).Holds (ks ++ [(kind, t.clock)]) := by
  have recorded : ∃ t', t.record kind = t' ∧ t'.enabled = true ∧ t'.clock = t.clock + 1 ∧
      t'.capacity = t.capacity ∧ (t.count + 1 < 2 * t.capacity →
        t'.count = t.count + 1 ∧ t'.newest = ⟨kind, t.clock, 1⟩ :: t.newest) := by
    refine ⟨_, rfl, ?_⟩
    unfold EventTimer.record
    rw [if_pos h.enabled]
    dsimp only
    split
    · exact ⟨h.enabled, rfl, rfl, fun _ => ⟨rfl, rfl⟩⟩
    · rename_i full
      exact ⟨h.enabled, rfl, rfl, fun room => absurd room full⟩
  obtain ⟨t', eq, enabled, clock, capacity, newest⟩ := recorded
  rw [eq]
  refine ⟨enabled, ?_, ?_, fun le => ?_⟩
  · rw [clock, h.clock, List.length_append, List.length_singleton]
  · rw [List.map_append, h.ticks, List.length_append, List.length_singleton, List.range_succ,
      ← h.clock]
    rfl
  · have before := h.newest (by omega)
    have room : t.count + 1 < 2 * t.capacity := by
      have := h.clock
      omega
    obtain ⟨count, events⟩ := newest room
    refine ⟨?_, ?_⟩
    · rw [count, before.1, List.length_append, List.length_singleton]
    · rw [events, before.2, eventsOf, eventsOf, List.map_append, List.reverse_append]
      rfl

/-- Recording a compilation. -/
theorem compile (h : t.Holds ks) : ∃ c : CompileTicks,
    ((((t.record .compileStart).record .lowerStart).record .lowerEnd).record .compileEnd).Holds
      (ks ++ c.marks) := by
  have recorded := (((h.record .compileStart).record .lowerStart).record .lowerEnd).record
    .compileEnd
  simp only [List.append_assoc] at recorded
  exact ⟨⟨_, _, _, _⟩, recorded⟩

/-- Recording a bail. -/
theorem bail (h : t.Holds ks) : ∃ b : BailTicks,
    ((t.record .bailStart).record .bailEnd).Holds (ks ++ b.marks) := by
  have recorded := (h.record .bailStart).record .bailEnd
  simp only [List.append_assoc] at recorded
  exact ⟨⟨_, _⟩, recorded⟩

end EventTimer.Holds

end TieredMachine
