/-
  The knobs of the engine as built-in functions, for guest code to turn.

  A knob answers `None` unless it has something to tell, and ignores arguments
  that it has no use for.
-/
import TieredMachine.Machine.Compilation
import TieredMachine.Operation.Basic

namespace TieredMachine

namespace BuiltinFn

/-- The code unit of a function. -/
def unitOf? (h : Heap) : Value → Option Ref
  | .function r => some (h.function r).code
  | _ => none

/-- Installs or removes the tracer. -/
def setTracing (on : Bool) : Exec Value := do
  modify fun m => { m with tracing := on }
  return .none

/-- Asks for a bail at the next safe point. -/
def requestBail : Exec Value := do
  modify fun m => { m with requested := true }
  return .none

/-- Writes out the arguments. -/
def emitTexts (args : List Value) : Exec Value := do
  let line := Text.join " " (args.map (← heap).repr)
  modify fun m => { m with out := m.out.push line }
  return .none

/-- Whether a generator has ended. -/
def hasFinished (args : List Value) : Exec Value := do
  match args with
  | .generator r :: _ => return .bool ((← heap).generator r).isFinished
  | _ => return .none

/-- Compiles the unit of a function at a level; answers why that failed. -/
def compileAt (args : List Value) : Exec Value := do
  match args with
  | [.function r, .int n] =>
    let unit := ((← heap).function r).code
    match ← modifyGet (·.setLevel unit n.toInt) with
    | .ok () => return .none
    | .error e => return .str e.message
  | _ => return .notImplemented

/-- The tier of the unit of a function. -/
def tierOf (args : List Value) : Exec Value := do
  let m ← get
  match args.head?.bind (unitOf? m.heap) with
  | some unit => return .str (m.profile unit).tier.name
  | none => return .none

/-- Brings the unit of a function back to its first state. -/
def resetTierOf (args : List Value) : Exec Value := do
  match args.head?.bind (unitOf? (← heap)) with
  | some unit => modify (·.resetTier unit)
  | none => pure ()
  return .none

/-- Sets whether guard bails raise an exception. -/
def setBailErrorTo (args : List Value) : Exec Value := do
  let on ← truthOf (args.headD .none)
  modify fun m => { m with bailError := on }
  return .none

/-- Sets a global name. -/
def setGlobalTo (args : List Value) : Exec Value := do
  match args with
  | .str name :: v :: _ => modify fun m => m.mapSpace m.globals (·.set name v)
  | _ => pure ()
  return .none

end BuiltinFn

end TieredMachine
