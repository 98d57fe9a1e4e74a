/-
  The interpreter.

  The interpreter runs a frame instruction by instruction until it is left.  A
  tracer is told of calls, lines, returns and exceptions; feedback is recorded
  while the unit is in the interpreted tier; backward jumps make the unit
  hotter.  All three are settled when the frame is entered.

  * `step`: one instruction;
  * `direct`: what the flow out of an instruction does;
  * `interpret`: a whole run.
-/
import TieredMachine.Primitive.Dispatch

namespace TieredMachine

/-! ## Unwinding, for every way of running code -/

/-- The flow out of a computation: a guest exception is raised where it
    happens. -/
def caught (x : FrameExec Flow) : FrameExec Flow :=
  tryCatch x fun fault => match fault with
    | .raised exc => return .raise exc true
    | fault => throw fault

/-- Starts unwinding for an exception.  A fresh one is given a traceback
    entry. -/
def beginRaise (exc : Ref) (fresh : Bool) (event : EventKind) : FrameExec Pending := do
  if fresh then
    recordTraceback exc
    recordEvent event
  return .exception exc

/-- Unwinds to a handler, where the frame then stands, or out of the frame. -/
def dispatchUnwind (p : Pending) (event : EventKind) : FrameExec (Option Exit) := do
  match ← unwind p with
  | .handler ip =>
    modifyFrame fun f => { f with ip }
    if p.isException then recordEvent event
    return none
  | .exit (.return_ v) => return some (.return_ v)
  | .exit (.exception exc) => throw (.raised exc)
  | .exit .break_ => throw (.runtime .breakOutsideLoop)
  | .exit (.continue_ _) => throw (.runtime .continueOutsideLoop)

/-! ## The interpreter -/

/-- What is settled when the interpreter enters a frame. -/
structure Watch where
  /-- a tracer is told of what happens -/
  tracing : Bool
  /-- feedback is recorded -/
  recording : Bool
  /-- the hotness that a backward jump adds -/
  backedgeWeight : UInt64
  deriving DecidableEq, Repr, Inhabited

/-- Tells the tracer of something, if there is one. -/
def tellTracer (w : Watch) (event : TraceEvent) : FrameExec Unit := do
  if w.tracing then
    let name := (← frame).code.name
    onMachine (modify fun m => { m with trace := m.trace.push (name, event) })

/-- Runs the primitives of an instruction from position `k` on, up to the first
    one that does not hand on to the next. -/
def runPrimitives (g : Guest) (recording : Bool) (ip : Nat) :
    Nat → List Primitive → FrameExec Flow
  | _, [] => return .next
  | k, p :: ps => do
    match ← caught (Primitive.run g ⟨ip, k⟩ recording p) with
    | .next => runPrimitives g recording ip (k + 1) ps
    | flow => return flow

/-- Whether an index is at or before the instruction begun last. -/
def Frame.isBackward (f : Frame) (ip : Nat) : Bool := f.lasti.any (ip ≤ ·)

/-- Runs the instruction that the frame stands at. -/
def step (g : Guest) (w : Watch) : FrameExec Flow := do
  let f ← frame
  match f.code.instrAt? f.ip with
  | none => throw (.ipOutOfBounds f.ip)
  | some i =>
    if w.tracing && (f.code.isLineStart i.ip || f.isBackward i.ip) then
      tellTracer w (.line i.line)
    modifyFrame fun f => { f with lasti := some i.ip, ip := i.next }
    runPrimitives g w.recording i.ip 0 i.prims

/-- Leaves the frame through its blocks. -/
def leaveBlocks (w : Watch) (p : Pending) : FrameExec (Option Exit) := do
  let exit ← dispatchUnwind p .exceptCatchEval
  match exit with
  | some (.return_ v) =>
    if w.tracing then tellTracer w (.return_ ((← onMachine heap).repr v))
  | _ => pure ()
  return exit

/-- Follows the flow out of an instruction; answers how the frame is left, if it
    is. -/
def direct (w : Watch) : Flow → FrameExec (Option Exit)
  | .next => return none
  | .jump target => do
    let f ← frame
    if f.isBackward target then
      onMachine (modify (·.mapProfile f.code.id (·.recordBackedge w.backedgeWeight)))
    modifyFrame fun f => { f with ip := target }
    return none
  | .yield_ v => return some (.yield_ v)
  | .raise exc fresh => do
    if fresh && w.tracing then tellTracer w (.exception ((← onMachine heap).describe exc))
    leaveBlocks w (← beginRaise exc fresh .exceptRaiseEval)
  | .unwind p => leaveBlocks w p

/-- Runs instructions until the frame is left, at most `fuel` of them. -/
def interpretFrom (g : Guest) (w : Watch) : Nat → FrameExec Exit
  | 0 => throw .outOfFuel
  | fuel + 1 => do
    match ← direct w (← step g w) with
    | some exit => return exit
    | none => interpretFrom g w fuel

/-- What is settled when the interpreter enters a frame of a unit. -/
def Machine.watch (m : Machine) (unit : Ref) : Watch :=
  { tracing := m.tracing
    recording := (m.profile unit).collectsFeedback
    backedgeWeight := .ofNat m.config.backedgeWeight }

/-- Enters a frame; answers how it is left, if entering it leaves it. -/
def enter (w : Watch) : Entry → FrameExec (Option Exit)
  | .call => do
    tellTracer w .call
    return none
  | .resume v => do
    push v
    return none
  | .throw_ exc => direct w (.raise exc true)
  | .continue_ => return none

/-- Runs a frame in the interpreter until it is left. -/
def interpret (g : Guest) (entry : Entry) : FrameExec Exit := do
  let s ← get
  let w := s.machine.watch s.frame.code.id
  match ← enter w entry with
  | some exit => return exit
  | none => interpretFrom g w g.fuel

end TieredMachine
