/-
  The engine under a host.

  An embedding program, the *host*, turns knobs, changes objects, calls values, resumes
  generators and runs modules, depending on what it sees of the machine.  Guest code may
  call functions of the host, which do all of this in the middle of guest code.

  Between two things that happen there is a *moment* at which host or guest code may
  look at the machine.  An *alarm* watches the moments and stops the run where it goes
  off; code does not get to handle that.

  * `Knob`, `Knob.turn`: what a host sets;
  * `Script`: what a host does; `Host`: which values it answers calls of;
  * `Moment`, `Alarm`: when a run may be watched, and stopped;
  * `hosted`: the engine under a host, as running code sees it;
  * `Script.perform`: a run of a host.
-/
import TieredMachine.Engine.Basic

namespace TieredMachine

/-! ## Knobs -/

/-- What a host sets on the engine. -/
inductive Knob where
  /-- compiles a unit at the level with a number, or drops its native code -/
  | setLevel (unit : Ref) (n : Int)
  /-- turns the use of a unit's native code on or off -/
  | setUseNative (unit : Ref) (on : Bool)
  /-- brings a unit back to its first state -/
  | resetTier (unit : Ref)
  /-- sets when units are compiled without being asked for -/
  | setControl (c : Control)
  /-- installs or removes the tracer -/
  | setTracing (on : Bool)
  /-- sets whether guard bails raise an exception -/
  | setBailError (on : Bool)
  /-- asks for a bail at the next safe point -/
  | requestBail
  deriving DecidableEq, Repr

/-- What turning a knob answers, and the machine after it. -/
def Knob.turn (m : Machine) : Knob → Except CompileError Unit × Machine
  | setLevel unit n => m.setLevel unit n
  | setUseNative unit on => m.setUseNative unit on
  | resetTier unit => (.ok (), m.resetTier unit)
  | setControl c => (.ok (), { m with control := c })
  | setTracing on => (.ok (), { m with tracing := on })
  | setBailError on => (.ok (), { m with bailError := on })
  | requestBail => (.ok (), { m with requested := true })

/-! ## Hosts -/

/-- What a host does.  After each step it goes on depending on the answer; a call that
    fails answers the fault. -/
inductive Script where
  | done (v : Value)
  | fail (e : Fault)
  /-- looks at the machine -/
  | look (next : Machine → Script)
  | turn (k : Knob) (next : Except CompileError Unit → Script)
  /-- changes guest objects and names -/
  | edit (f : Heap → Heap) (next : Script)
  | call (callee : Value) (args : List Value) (kwargs : List (String × Value))
      (next : Except Fault Value → Script)
  /-- resumes a generator -/
  | resume (generator : Ref) (how : Resumption) (next : Except Fault Value → Script)
  /-- runs a unit as the body of a module -/
  | run (unit : Ref) (next : Except Fault Value → Script)

/-- A host answers calls of some values with a script; calls of the other values are
    the engine's. -/
abbrev Host := Value → List Value → List (String × Value) → Option Script

/-! ## Moments -/

/-- What is about to happen. -/
inductive Moment where
  /-- a value is called -/
  | call (callee : Value) (args : List Value) (kwargs : List (String × Value))
  /-- a frame is run -/
  | run (entry : Entry) (f : Frame)
  /-- the host turns a knob -/
  | turn (k : Knob)
  /-- the host looks at the machine -/
  | look

/-- Whether a run is stopped at a moment. -/
abbrev Alarm := Moment → Machine → Bool

/-- Stops the run if the alarm goes off. -/
def Alarm.check (a : Alarm) (x : Moment) : Exec Unit := do
  if a x (← get) then throw .outOfFuel

/-- An alarm that goes off when one of two does. -/
def Alarm.or (a b : Alarm) : Alarm := fun x m => a x m || b x m

/-- The alarm that never goes off. -/
def Alarm.never : Alarm := fun _ _ => false

/-! ## The engine -/

/-- Runs a unit as the body of a module over the globals of the engine. -/
def moduleOn (g : Guest) (unit : Ref) : Exec Value := do
  let m ← get
  let u := m.heap.unit unit
  let f ← newFrame u m.globals
  match ← nested ((g.run .call).onNew f) with
  | .return_ v => return v
  | .yield_ _ => throw (.runtime (.moduleYielded u.name))

/-- A fault is an answer, unless the run was stopped. -/
def Fault.answer {α : Type} : Fault → Exec (Except Fault α)
  | .outOfFuel => throw .outOfFuel
  | fault => return .error fault

/-- Runs a computation whose faults are answers. -/
def attempt {α : Type} (x : Exec α) : Exec (Except Fault α) :=
  tryCatch (Except.ok <$> x) Fault.answer

/-- Does what a script says. -/
def Script.perform (a : Alarm) (g : Guest) : Script → Exec Value
  | done v => return v
  | fail e => throw e
  | look next => do
    a.check .look
    let m ← get
    (next m).perform a g
  | turn k next => do
    a.check (.turn k)
    let answer ← modifyGet k.turn
    (next answer).perform a g
  | edit f next => do
    modifyHeap f
    next.perform a g
  | call callee args kwargs next => do
    let answer ← attempt (g.call callee args kwargs)
    (next answer).perform a g
  | resume generator how next => do
    let answer ← attempt (resumeGenerator g generator how)
    (next answer).perform a g
  | run unit next => do
    let answer ← attempt (moduleOn g unit)
    (next answer).perform a g

mutual

/-- Calls a value under a host, with at most `fuel` calls and runs nested in it. -/
def callHosted (host : Host) (a : Alarm) (fuel : Nat) (callee : Value) (args : List Value)
    (kwargs : List (String × Value)) : Exec Value :=
  match fuel with
  | 0 => throw .outOfFuel
  | fuel + 1 => do
    let g : Guest := ⟨fuel, callHosted host a fuel, runHosted host a fuel, pollNow⟩
    a.check (.call callee args kwargs)
    match host callee args kwargs with
    | some script => script.perform a g
    | none => callWith g callee args kwargs

/-- Runs a frame under a host, with at most `fuel` calls and runs nested in it. -/
def runHosted (host : Host) (a : Alarm) (fuel : Nat) (entry : Entry) : FrameExec Exit :=
  match fuel with
  | 0 => throw .outOfFuel
  | fuel + 1 => do
    let f ← frame
    onMachine (a.check (.run entry f))
    runFrame ⟨fuel, callHosted host a fuel, runHosted host a fuel, pollNow⟩ entry

end

/-- What code asks of the engine under a host, with at most `fuel` calls and runs
    nested. -/
def hosted (host : Host) (a : Alarm) (fuel : Nat) : Guest :=
  ⟨fuel, callHosted host a fuel, runHosted host a fuel, pollNow⟩

/-- A session: what happens on the engine when a host does what a script says. -/
def session (host : Host) (a : Alarm) (fuel : Nat) (script : Script) : Exec Value :=
  script.perform a (hosted host a fuel)

/-! ## The engine without a host -/

/-- The host that answers no calls. -/
def Host.idle : Host := fun _ _ _ => none

/-- Without a host, and with an alarm that never goes off, the engine is the plain one. -/
theorem hosted_idle (fuel : Nat) : hosted .idle .never fuel = guestWithin fuel := by
  induction fuel with
  | zero => rfl
  | succ fuel ih =>
    have call : callHosted .idle .never (fuel + 1) = callWithin (fuel + 1) := by
      funext callee args kwargs
      show (do Alarm.never.check (.call callee args kwargs)
               callWith (hosted .idle .never fuel) callee args kwargs) = _
      rw [ih]
      rfl
    have run : runHosted .idle .never (fuel + 1) = runWithin (fuel + 1) := by
      funext entry
      show (do let f ← frame
               onMachine (Alarm.never.check (.run entry f))
               runFrame (hosted .idle .never fuel) entry) = _
      rw [ih]
      rfl
    simp only [hosted, guestWithin, call, run]

/-- So is a run of a module. -/
theorem moduleOn_guest (unit : Ref) : moduleOn guest unit = runModule unit := rfl

end TieredMachine
