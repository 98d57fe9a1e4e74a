/-
  Intervals between events.

  The events of a thread are taken in the order of their times.  An event that
  opens an interval waits until the next event that can close it; when another
  event of its kind comes first, that one waits instead.

  * `pairEvents`: the intervals of a thread;
  * `intervals`: the intervals of all threads, each with its label;
  * `DeltaStats.of?`: the summary of some lengths;
  * `report`: a line for every label.
-/
import TieredMachine.Event.Basic
import TieredMachine.Binary64.Text
import TieredMachine.Text.Columns

namespace TieredMachine

/-! ## Pairing -/

/-- A labelled length of time, in nanoseconds. -/
structure Interval where
  label : String
  length : Nat
  deriving DecidableEq, Repr, Inhabited

/-- The waiting opener that an event closes, with the interval's label. -/
def closedBy? (openers : List Event) (e : Event) : Option (Event × String) :=
  openers.findSome? fun o => (o.kind.closers.lookup e.kind).map fun label => (o, label)

/-- The intervals of a thread, from its events in order and the openers that
    wait. -/
def pairEvents : List Event → List Event → List Interval
  | _, [] => []
  | openers, e :: es =>
    if e.kind.isOpener then pairEvents (e :: openers.filter (·.kind != e.kind)) es
    else match closedBy? openers e with
      | some (o, label) =>
        ⟨label, e.nanos - o.nanos⟩ :: pairEvents (openers.filter (·.kind != o.kind)) es
      | none => pairEvents openers es

/-- The threads that events come from, in order. -/
def threadsOf (events : List Event) : List Nat :=
  (events.map (·.thread)).eraseDups.mergeSort fun a b => a ≤ b

/-- The intervals of one thread among the events of all. -/
def threadIntervals (events : List Event) (thread : Nat) : List Interval :=
  pairEvents [] ((events.filter (·.thread == thread)).mergeSort fun a b => a.nanos ≤ b.nanos)

/-- The intervals of all threads. -/
def intervals (events : List Event) : List Interval :=
  (threadsOf events).flatMap (threadIntervals events)

/-- The labels that there are intervals for, sorted. -/
def labelsOf (is : List Interval) : List String :=
  (is.map (·.label)).eraseDups.mergeSort fun a b => a ≤ b

/-! ## Summaries -/

/-- The summary of some lengths. -/
structure DeltaStats where
  count : Nat
  min : Nat
  max : Nat
  mean : Binary64
  median : Binary64
  stddev : Binary64
  deriving DecidableEq, Repr, Inhabited

/-- The sum of numbers, from the left. -/
def sumFloats (xs : List Binary64) : Binary64 := xs.foldl Binary64.add .zero

/-- The summary of some lengths; there has to be one. -/
def DeltaStats.of? (lengths : List Nat) : Option DeltaStats :=
  let sorted := lengths.mergeSort fun a b => a ≤ b
  match sorted.head?, sorted.getLast? with
  | some least, some greatest =>
    let float (n : Nat) : Binary64 := .ofUInt64 (.ofNat n)
    let n := sorted.length
    let at_ (i : Nat) : Binary64 := float (sorted[i]?.getD 0)
    let mean := (sumFloats (sorted.map float)).div (float n)
    let median := if n % 2 = 1 then at_ (n / 2)
      else ((at_ (n / 2 - 1)).add (at_ (n / 2))).div (float 2)
    let square (d : Nat) : Binary64 := let x := (float d).sub mean; x.mul x
    let variance := (sumFloats (sorted.map square)).div (float n)
    some ⟨n, least, greatest, mean, median, variance.sqrt⟩
  | _, _ => none

/-- The lengths of the intervals with a label. -/
def lengthsOf (is : List Interval) (label : String) : List Nat :=
  (is.filter (·.label == label)).map (·.length)

/-- The line of a label's summary. -/
def DeltaStats.line (label : String) (s : DeltaStats) : String :=
  let count := Text.padRight 6 (toString s.count)
  let min := Text.padRight 8 (toString s.min)
  let max := Text.padRight 8 (toString s.max)
  let mean := Text.padRight 10 (s.mean.fixed 1)
  let median := Text.padRight 10 (s.median.fixed 1)
  Text.padRight 16 label ++ s!" n={count} min={min} max={max} mean={mean} " ++
    s!"median={median} stddev={s.stddev.fixed 1}"

/-- A line for every label. -/
def report (is : List Interval) : List String :=
  (labelsOf is).filterMap fun label =>
    (DeltaStats.of? (lengthsOf is label)).map (·.line label)

end TieredMachine
