/-
  Timed events.

  Activations, compilations, bails and exceptions are marked by events.  A timer
  keeps the latest events, up to its capacity, while it is enabled.

  * `EventKind`: the vocabulary, with the interval that a kind of event opens
    and the kinds that close it;
  * `EventTimer`: recording, and the recorded events.
-/

namespace TieredMachine

/-- What an event marks. -/
inductive EventKind where
  | callStartEval | callEnterEval | callEnterNative | callEndEval
  | compileStart | compileEnd | lowerStart | lowerEnd | bailStart | bailEnd
  | exceptRaiseEval | exceptRaiseNative | exceptCatchEval | exceptCatchNative
  deriving DecidableEq, Repr, Inhabited

namespace EventKind

/-- Every kind of event. -/
def all : List EventKind :=
  [callStartEval, callEnterEval, callEnterNative, callEndEval, compileStart, compileEnd,
    lowerStart, lowerEnd, bailStart, bailEnd, exceptRaiseEval, exceptRaiseNative,
    exceptCatchEval, exceptCatchNative]

/-- The name of the kind. -/
def name : EventKind → String
  | callStartEval => "CALL_START_EVAL"
  | callEnterEval => "CALL_ENTER_EVAL"
  | callEnterNative => "CALL_ENTER_NATIVE"
  | callEndEval => "CALL_END_EVAL"
  | compileStart => "COMPILE_START"
  | compileEnd => "COMPILE_END"
  | lowerStart => "LOWER_START"
  | lowerEnd => "LOWER_END"
  | bailStart => "BAIL_START"
  | bailEnd => "BAIL_END"
  | exceptRaiseEval => "EXCEPT_RAISE_EVAL"
  | exceptRaiseNative => "EXCEPT_RAISE_NATIVE"
  | exceptCatchEval => "EXCEPT_CATCH_EVAL"
  | exceptCatchNative => "EXCEPT_CATCH_NATIVE"

/-- The kind with a given name. -/
def ofName? (s : String) : Option EventKind := all.find? (·.name == s)

/-- The kinds that close the interval opened by an event, each with the
    interval's label. -/
def closers : EventKind → List (EventKind × String)
  | compileStart => [(compileEnd, "compile")]
  | lowerStart => [(lowerEnd, "lower")]
  | bailStart => [(bailEnd, "bail")]
  | callStartEval => [(callEnterEval, "call_to_eval"), (callEnterNative, "call_to_native")]
  | _ => []

/-- Whether an event opens an interval. -/
def isOpener (k : EventKind) : Bool := !k.closers.isEmpty

end EventKind

/-- A recorded event. -/
structure Event where
  kind : EventKind
  /-- nanoseconds since the timer was made -/
  nanos : Nat
  thread : Nat
  deriving DecidableEq, Repr, Inhabited

/-- The latest events.  The clock ticks once for every recorded event. -/
structure EventTimer where
  capacity : Nat
  enabled : Bool
  clock : Nat := 0
  /-- recorded events, the latest first; those beyond the capacity are gone -/
  newest : List Event := []
  /-- the length of `newest` -/
  count : Nat := 0
  deriving Repr, Inhabited

namespace EventTimer

/-- A timer without events; it holds at least one. -/
def new (capacity : Nat) (enabled : Bool) : EventTimer :=
  { capacity := max capacity 1, enabled }

variable (t : EventTimer)

/-- Records an event, unless the timer is disabled.  The store is cut back to
    the capacity whenever it has grown to twice that. -/
def record (kind : EventKind) : EventTimer :=
  if t.enabled then
    let t := { t with
      clock := t.clock + 1
      newest := ⟨kind, t.clock, 1⟩ :: t.newest
      count := t.count + 1 }
    if t.count < 2 * t.capacity then t
    else { t with newest := t.newest.take t.capacity, count := t.capacity }
  else t

/-- The recorded events, the earliest first. -/
def events : List Event := (t.newest.take t.capacity).reverse

/-- The number of recorded events. -/
def size : Nat := min t.count t.capacity

/-- The timer without its events. -/
def clear : EventTimer := { t with newest := [], count := 0 }

/-- The timer turned on or off. -/
def setEnabled (on : Bool) : EventTimer := { t with enabled := on }

end EventTimer

end TieredMachine
