/-
  Running a frame.

  Code of a frame runs in `FrameExec`: it changes the frame and the machine, and
  both are kept when it fails.

  * `Entry`, `Exit`: how a frame is entered and left;
  * `Activation`, `FrameExec`: a frame with the machine, and computations on
    both;
  * `push`, `pop`, `popN`, `peek`, …: the frame's stacks and variables;
  * `Guest`: what running code asks of the engine, a call, the run of a
    frame, or a look for requests.  Operations take it as an argument, so each is
    defined before the engine is.
-/
import TieredMachine.Machine.Basic

namespace TieredMachine

/-- How a frame is entered. -/
inductive Entry where
  /-- at its start -/
  | call
  /-- where it was suspended, with the value that was sent -/
  | resume (v : Value)
  /-- by raising an exception where it stands -/
  | throw_ (exc : Ref)
  /-- where it stands -/
  | continue_
  deriving DecidableEq, Repr, Inhabited

namespace Entry

/-- Whether the frame starts. -/
def isCall (e : Entry) : Bool := e = call

/-- The entry in diagnostics. -/
def inspect (h : Heap) : Entry → String
  | call => "Call"
  | resume v => s!"Resume({h.inspect v})"
  | throw_ exc => s!"Throw({(h.exception exc).kind.name}: {h.message exc})"
  | continue_ => "Continue"

end Entry

/-- How a frame is left, unless it fails. -/
inductive Exit where
  | return_ (v : Value)
  /-- a generator is suspended -/
  | yield_ (v : Value)
  deriving DecidableEq, Repr, Inhabited

/-! ## Computations on a frame -/

/-- A frame and the machine that it runs on. -/
structure Activation where
  frame : Frame
  machine : Machine
  deriving Inhabited

/-- A computation on a frame and the machine that may fail. -/
abbrev FrameExec := EStateM Fault Activation

/-- A computation on the machine leaves the frame alone. -/
def onMachine {α : Type} (x : Exec α) : FrameExec α := fun ⟨f, m⟩ =>
  match x m with
  | .ok a m => .ok a ⟨f, m⟩
  | .error e m => .error e ⟨f, m⟩

instance : MonadLift Exec FrameExec where
  monadLift := onMachine

/-- Runs a computation on a frame; answers the frame together with the
    outcome. -/
def FrameExec.on {α : Type} (x : FrameExec α) (f : Frame) : Exec (Except Fault α × Frame) :=
  fun m =>
    match x ⟨f, m⟩ with
    | .ok a s => .ok (.ok a, s.frame) s.machine
    | .error e s => .ok (.error e, s.frame) s.machine

/-- Runs a computation on a frame; answers the frame together with the answer. -/
def FrameExec.within {α : Type} (x : FrameExec α) (f : Frame) : Exec (α × Frame) := fun m =>
  match x ⟨f, m⟩ with
  | .ok a s => .ok (a, s.frame) s.machine
  | .error e s => .error e s.machine

/-- Runs a computation on a frame that is not needed any more. -/
def FrameExec.onNew {α : Type} (x : FrameExec α) (f : Frame) : Exec α := return (← x.within f).1

/-- The frame. -/
def frame : FrameExec Frame := return (← get).frame

/-- Changes the frame. -/
def modifyFrame (g : Frame → Frame) : FrameExec Unit :=
  modify fun s => { s with frame := g s.frame }

/-- Looks something up in the frame. -/
def look {α : Type} (g : Frame → Except Fault α) : FrameExec α := do
  match g (← frame) with
  | .ok a => return a
  | .error e => throw e

/-- Takes something off the frame. -/
def take {α : Type} (g : Frame → Except Fault (α × Frame)) : FrameExec α := do
  let (a, f) ← look g
  modifyFrame fun _ => f
  return a

/-! ## The value stack -/

/-- Pushes a value. -/
def push (v : Value) : FrameExec Unit := modifyFrame (·.push v)

/-- Pops the topmost value. -/
def pop : FrameExec Value := take (·.pop)

/-- Pops the topmost `n` values, in the order they were pushed. -/
def popN (n : Nat) : FrameExec (List Value) := take (·.popN n)

/-- The value below the topmost `depth` ones. -/
def peek (depth : Nat) : FrameExec Value := look (·.peek depth)

/-! ## Blocks and variables -/

/-- Pushes a block. -/
def pushBlock (kind : BlockKind) (handler : Nat) : FrameExec Unit := do
  let f ← look (·.pushBlock kind handler)
  modifyFrame fun _ => f

/-- Pops the innermost block. -/
def popBlock : FrameExec Block := take (·.popBlock)

/-- The wording for a local variable that is not bound. -/
def unboundLocal {α : Type} (name : String) : Exec α :=
  raise .unboundLocalError s!"local variable '{name}' referenced before assignment"

/-- The name of a local variable. -/
def Frame.localName (f : Frame) (i : Nat) : String := f.code.varnames[i]?.getD ""

/-- The value of a local variable. -/
def loadLocal (i : Nat) : FrameExec Value := do
  let f ← frame
  match f.locals[i]? with
  | some (some v) => return v
  | some none => onMachine (unboundLocal (f.localName i))
  | none => throw (.invalidLocal i)

/-- Binds a local variable. -/
def storeLocal (i : Nat) (v : Value) : FrameExec Unit := do
  if i < (← frame).locals.size then
    modifyFrame fun f => { f with locals := f.locals.setIfInBounds i (some v) }
  else throw (.invalidLocal i)

/-- Unbinds a local variable. -/
def deleteLocal (i : Nat) : FrameExec Unit := do
  let _ ← loadLocal i
  modifyFrame fun f => { f with locals := f.locals.setIfInBounds i none }

/-- The heap place of a cell. -/
def cellRef (i : Nat) : FrameExec Ref := look (·.cell i)

/-! ## Tracebacks -/

/-- The bound variables of a frame with their values: its local variables, and
    the cells whose names are not among them. -/
def Frame.snapshot (h : Heap) (f : Frame) : List (String × Value) :=
  let locals := f.locals.toList.zipIdx.filterMap fun p => p.1.map fun v => (f.localName p.2, v)
  f.cells.toList.zipIdx.foldl (fun out p =>
    match f.code.cellName? p.2, h.cell p.1 with
    | some name, some v => if out.any (·.1 == name) then out else out ++ [(name, v)]
    | _, _ => out) locals

/-- The traceback entry of a frame as it stands. -/
def Frame.tracebackEntry (h : Heap) (f : Frame) : TracebackEntry :=
  ⟨f.code.name, f.line, f.position, f.snapshot h⟩

/-- Adds the frame to the traceback of an exception. -/
def recordTraceback (exc : Ref) : FrameExec Unit := do
  let f ← frame
  modifyHeap fun h =>
    let entry := f.tracebackEntry h
    { h with exceptions := h.exceptions.modify exc fun e =>
      { e with traceback := e.traceback.push entry } }

/-! ## The engine, as running code sees it -/

/-- What running code asks of the engine. -/
structure Guest where
  /-- a bound on the length of loops and on the depth of nested values -/
  fuel : Nat
  /-- calls a value with positional and keyword arguments -/
  call : Value → List Value → List (String × Value) → Exec Value
  /-- runs a frame to its next exit, in whichever tier is in force -/
  run : Entry → FrameExec Exit
  /-- looks for a reason to leave native code at a safe point -/
  poll : SafePointKind → Exec (Option BailReason)

end TieredMachine
