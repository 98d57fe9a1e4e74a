/-
  Running a frame in whichever tier is in force.

  An activation is counted, and its unit compiled when that is due.  Installed
  native code then runs the frame; what it hands over, the interpreter goes on
  with.

  * `runKernel`, `runNative`: native code on a frame;
  * `runFrame`: a frame to its next exit.
-/
import TieredMachine.Run.Threaded
import TieredMachine.Machine.Compilation

namespace TieredMachine

/-! ## Native code -/

/-- Leaves a kernel at a bail point: the frame is rebuilt as it is there. -/
def leaveKernel (g : Guest) (k : Kernel) (n : Nat) (stack : List Int64)
    (locals : Array (Option Int64)) : FrameExec NativeExit := do
  match k.bails[n]? with
  | none => throw (.runtime (.kernelStatus n))
  | some p =>
    modifyFrame (Kernel.rebuild p stack locals)
    match p.kind with
    | .safePoint kind => return .bail ((← onMachine (g.poll kind)).getD .requested)
    | .guard => return .bail .guardFail

/-- Runs a frame as a kernel whose looks for a reason to leave have certain outcomes.
    A kernel only starts frames, and only those whose local variables are
    integers. -/
def runKernelPolled (g : Guest) (k : Kernel) (polled : Kernel.Polls) (entry : Entry) :
    FrameExec NativeExit := do
  let s ← get
  let f := s.frame
  if !entry.isCall then
    throw (.runtime (.kernelEntry f.code.name (entry.inspect s.machine.heap)))
  if f.locals.size ≠ k.localCount then throw (.runtime .kernelLocals)
  match Kernel.wordsOf? f.locals with
  | none => return .bail .fatalGuardFail
  | some words =>
    match k.run polled g.fuel k.entry words with
    | none => throw .outOfFuel
    | some (.return_ kind w) => return .done (.return_ (kind.value w))
    | some (.bail n stack locals) => leaveKernel g k n stack locals
    | some .lost => throw (.runtime (.kernelStatus k.bails.size))

/-- Runs a frame as a kernel.  Nothing that a kernel does installs a tracer or asks it
    to leave, so its looks for a reason all have one outcome. -/
def runKernel (g : Guest) (k : Kernel) (entry : Entry) : FrameExec NativeExit := do
  let m := (← get).machine
  runKernelPolled g k (fun _ _ => m.tracing || m.requested) entry

/-- Runs a frame as native code. -/
def runNative (g : Guest) (n : NativeFunction) (entry : Entry) : FrameExec NativeExit :=
  match n.code with
  | .threaded graph => runThreaded g graph entry
  | .kernel k => runKernel g k entry

/-! ## Tiers -/

/-- Runs a frame in the interpreter.  An activation from the start is counted and
    framed by events. -/
def interpretCounted (g : Guest) (entry : Entry) : FrameExec Exit := do
  if entry.isCall then
    recordEvent .callEnterEval
    onMachine (modify (·.mapStats fun s => { s with interpretedRuns := s.interpretedRuns + 1 }))
    let exit ← tryCatch (interpret g entry) fun fault => do
      recordEvent .callEndEval
      throw fault
    recordEvent .callEndEval
    return exit
  else interpret g entry

/-- The message of the exception that a guard bail raises, if bails are
    errors. -/
def bailMessage : String := "bailed to the interpreter"

/-- Goes on in the interpreter after a bail. -/
def resumeAfterBail (g : Guest) (reason : BailReason) : FrameExec Exit := do
  if reason.isGuard && (← get).machine.bailError then
    interpret g (.throw_ (← newException .runtimeError [.str bailMessage]))
  else interpret g .continue_

/-- Runs a frame in its native code, and in the interpreter after a bail. -/
def runCompiled (g : Guest) (unit : Ref) (n : NativeFunction) (entry : Entry) :
    FrameExec Exit := do
  if entry.isCall then recordEvent .callEnterNative
  onMachine (modify (·.mapStats fun s => { s with nativeRuns := s.nativeRuns + 1 }))
  match ← runNative g n entry with
  | .done exit => return exit
  | .bail reason =>
    onMachine (modify (·.bail unit reason))
    resumeAfterBail g reason

/-- Counts an activation of a unit, and compiles the unit if that is due. -/
def countEntry (unit globals : Ref) : Exec Unit := do
  recordEvent .callStartEval
  modify (·.mapProfile unit (·.recordEntry))
  modify (·.promote unit globals)

/-- Runs a frame to its next exit in whichever tier is in force. -/
def runFrame (g : Guest) (entry : Entry) : FrameExec Exit := do
  let f ← frame
  let unit := f.code.id
  if entry.isCall then countEntry unit f.globals
  let m := (← get).machine
  match (m.profile unit).runnable? with
  | none => interpretCounted g entry
  | some n =>
    if m.tracing then
      onMachine (modify (·.bail unit .traceOnEntry))
      interpretCounted g entry
    else runCompiled g unit n entry

end TieredMachine
