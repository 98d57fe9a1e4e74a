/-
  The state of an engine.

  A `Machine` is everything that running code can change: the heap, the tier
  state of every code unit, the two namespaces, the request flags, and the
  records of what happened.  Code runs in `Exec`, which keeps the machine also
  when it fails: what was done before a failure stays done.

  * `Machine`, `Machine.new`: the state, and a fresh one;
  * `Exec`, `raise`, `catching`, `nested`: running, failing and counting calls;
  * `Machine.poll`, `Machine.record`: requests to leave native code, and events.
-/
import TieredMachine.Configuration.Basic
import TieredMachine.Heap.Text
import TieredMachine.Event.Basic

namespace TieredMachine

/-! ## Statistics -/

/-- A number for each reason to bail. -/
structure BailCounts where
  traceOnEntry : Nat := 0
  lineTrace : Nat := 0
  backedgeTrace : Nat := 0
  requested : Nat := 0
  guardFail : Nat := 0
  fatalGuardFail : Nat := 0
  deriving DecidableEq, Repr, Inhabited

namespace BailCounts

variable (c : BailCounts)

/-- The number for a reason. -/
def get : BailReason → Nat
  | .traceOnEntry => c.traceOnEntry
  | .lineTrace => c.lineTrace
  | .backedgeTrace => c.backedgeTrace
  | .requested => c.requested
  | .guardFail => c.guardFail
  | .fatalGuardFail => c.fatalGuardFail

/-- One more for a reason. -/
def add : BailReason → BailCounts
  | .traceOnEntry => { c with traceOnEntry := c.traceOnEntry + 1 }
  | .lineTrace => { c with lineTrace := c.lineTrace + 1 }
  | .backedgeTrace => { c with backedgeTrace := c.backedgeTrace + 1 }
  | .requested => { c with requested := c.requested + 1 }
  | .guardFail => { c with guardFail := c.guardFail + 1 }
  | .fatalGuardFail => { c with fatalGuardFail := c.fatalGuardFail + 1 }

/-- The sum over all reasons. -/
def total : Nat := (BailReason.all.map c.get).foldl (· + ·) 0

end BailCounts

/-- Counters of tiered execution. -/
structure Statistics where
  /-- activations run by the interpreter from their start -/
  interpretedRuns : Nat := 0
  /-- activations entered in native code -/
  nativeRuns : Nat := 0
  bails : BailCounts := {}
  /-- bails that ended native execution of their unit -/
  disablingBails : Nat := 0
  compilations : Nat := 0
  compileFailures : Nat := 0
  /-- failed compilations for which the unit itself was the reason -/
  loweringFailures : Nat := 0
  deriving DecidableEq, Repr, Inhabited

namespace Statistics

/-- The percentage of activations entered in native code. -/
def nativePercentage (s : Statistics) : Binary64 :=
  let total := s.interpretedRuns + s.nativeRuns
  let number (n : Nat) : Binary64 := .ofUInt64 (.ofNat n)
  if total = 0 then .zero else ((number s.nativeRuns).div (number total)).mul (number 100)

end Statistics

/-! ## Traces -/

/-- What a tracer is told. -/
inductive TraceEvent where
  /-- a frame starts -/
  | call
  /-- a frame reaches a source line, or jumps backward -/
  | line (n : Nat)
  /-- a frame returns a value, written out -/
  | return_ (repr : String)
  /-- an exception is raised in a frame or arrives in it, described -/
  | exception (text : String)
  deriving DecidableEq, Repr, Inhabited

/-! ## The machine -/

/-- A unit with installed native code. -/
structure CompiledUnit where
  name : String
  level : OptLevel
  backend : BackendKind
  deriving DecidableEq, Repr, Inhabited

/-- The state of an engine. -/
structure Machine where
  config : Configuration
  heap : Heap := {}
  /-- the tier state of each code unit, by its number -/
  units : Array UnitState := #[]
  /-- the namespace of modules -/
  globals : Ref
  /-- the namespace of built-in names -/
  builtins : Ref
  /-- whether a tracer is installed -/
  tracing : Bool := false
  /-- whether a bail is requested -/
  requested : Bool := false
  bailError : Bool
  control : Control
  timer : EventTimer
  /-- the units with installed native code -/
  compiled : List (Ref × CompiledUnit) := []
  stats : Statistics := {}
  /-- the number of nested calls -/
  depth : Nat := 0
  /-- what guest code emitted, in order -/
  out : Array String := #[]
  /-- what the tracer was told, with the name of the unit, in order -/
  trace : Array (String × TraceEvent) := #[]
  deriving Inhabited

namespace Machine

/-! ## Namespaces and units -/

variable (m : Machine)

/-- The machine with its heap changed. -/
def mapHeap (f : Heap → Heap) : Machine := { m with heap := f m.heap }

/-- The state of a unit. -/
def unitState (unit : Ref) : UnitState := m.units[unit]?.getD {}

/-- The profile of a unit. -/
def profile (unit : Ref) : Profile := (m.unitState unit).profile

/-- The machine with the state of a unit changed. -/
def mapUnit (unit : Ref) (f : UnitState → UnitState) : Machine :=
  { m with units := m.units.modify unit f }

/-- The machine with the profile of a unit changed. -/
def mapProfile (unit : Ref) (f : Profile → Profile) : Machine :=
  m.mapUnit unit fun s => { s with profile := f s.profile }

/-- The machine with the feedback of a unit changed. -/
def mapFeedback (unit : Ref) (f : Feedback → Feedback) : Machine :=
  m.mapUnit unit fun s => { s with feedback := f s.feedback }

/-- The machine with its statistics changed. -/
def mapStats (f : Statistics → Statistics) : Machine := { m with stats := f m.stats }

/-- The machine with a namespace changed. -/
def mapSpace (r : Ref) (f : Namespace → Namespace) : Machine :=
  m.mapHeap fun h => { h with namespaces := h.namespaces.modify r f }

/-- The machine with a new code unit, and the unit's value. -/
def addUnit (u : CodeUnit) : Value × Machine :=
  let (v, heap) := m.heap.newUnit u
  (v, { m with heap, units := m.units.push {} })

/-! ## Requests and events -/

/-- What native code finds when it looks for a reason to leave at a safe point.
    A request is taken by the look that finds it; a tracer stays. -/
def poll (kind : SafePointKind) : Option BailReason × Machine :=
  if m.tracing then (some kind.traceReason, m)
  else if m.requested then (some .requested, { m with requested := false })
  else (none, m)

/-- The machine with an event recorded. -/
def record (kind : EventKind) : Machine := { m with timer := m.timer.record kind }

/-- Takes a unit off the list of units with native code. -/
def forget (unit : Ref) : Machine :=
  { m with compiled := m.compiled.filter (·.1 != unit) }

/-! ## A fresh machine -/

/-- The heap of a fresh machine, with its globals and its builtins.  Built-in
    names are the built-in functions and the exception classes. -/
def initialHeap : Heap × Ref × Ref :=
  let (globals, h) := Heap.newSpace {}
  let (builtins, h) := h.newSpace
  let bindIn (h : Heap) (name : String) (v : Value) : Heap :=
    { h with namespaces := h.namespaces.modify builtins (·.set name v) }
  let h := BuiltinFn.functions.foldl (fun h fn =>
    let (v, h) := h.newBuiltin fn
    bindIn h fn.name v) h
  let h := ExceptionKind.all.foldl (fun h kind => bindIn h kind.name (.excType kind)) h
  (h, globals, builtins)

/-- A machine that has not run anything. -/
def new (config : Configuration) : Machine :=
  let (heap, globals, builtins) := initialHeap
  { config, heap, globals, builtins
    bailError := config.bailError
    control := config.control
    timer := .new config.eventCapacity config.recordEvents }

end Machine

/-! ## Running -/

/-- A computation on the machine that may fail. -/
abbrev Exec := EStateM Fault Machine

/-- The heap. -/
def heap : Exec Heap := return (← get).heap

/-- Changes the heap. -/
def modifyHeap (f : Heap → Heap) : Exec Unit := modify (·.mapHeap f)

/-- Adds an object to the heap. -/
def alloc {α : Type} (f : Heap → α × Heap) : Exec α :=
  modifyGet fun m =>
    let (a, h) := f m.heap
    (a, { m with heap := h })

/-- A new exception with some arguments. -/
def newException (kind : ExceptionKind) (args : List Value) : Exec Ref :=
  alloc (·.newException { kind, args := args.toArray })

/-- Raises a new exception with some arguments. -/
def raiseWith {α : Type} (kind : ExceptionKind) (args : List Value) : Exec α := do
  throw (.raised (← newException kind args))

/-- Raises a new exception with a message. -/
def raise {α : Type} (kind : ExceptionKind) (message : String) : Exec α :=
  raiseWith kind [.str message]

/-- Whether a fault is a guest exception of a class. -/
def Fault.isException (h : Heap) (kind : ExceptionKind) : Fault → Bool
  | .raised exc => (h.exception exc).kind.isSubclass kind
  | _ => false

/-- Runs a computation and handles guest exceptions of a class. -/
def catching {α : Type} (kind : ExceptionKind) (x : Exec α) (handle : Exec α) : Exec α :=
  tryCatch x fun fault => do
    if fault.isException (← heap) kind then handle else throw fault

/-- Counts one more nested call while a computation runs, and raises an
    exception instead when there are as many as the engine allows. -/
def nested {α : Type} (x : Exec α) : Exec α := do
  let m ← get
  if m.config.recursionLimit ≤ m.depth then
    raise .runtimeError "maximum recursion depth exceeded"
  modify fun m => { m with depth := m.depth + 1 }
  let leave : Exec Unit := modify fun m => { m with depth := m.depth - 1 }
  let a ← tryCatch x fun fault => do
    leave
    throw fault
  leave
  return a

/-- Records an event. -/
def recordEvent (kind : EventKind) : Exec Unit := modify (·.record kind)

end TieredMachine
