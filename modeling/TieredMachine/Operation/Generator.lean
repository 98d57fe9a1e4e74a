/-
  Generators.

  A generator holds the frame of its body while the body is suspended.  A resume
  takes the frame out, marks the generator as running, and runs the frame to
  its next exit: when it yields, the frame goes back; when it returns or fails,
  the generator has ended.

  * `sendTo`, `throwTo`: resuming with a value or with an exception;
  * `closeGenerator`: ending a generator.
-/
import TieredMachine.Operation.Basic

namespace TieredMachine

/-- How a generator is resumed. -/
inductive Resumption where
  | send (v : Value)
  | throw_ (exc : Ref)
  deriving DecidableEq, Repr

/-- Changes a generator. -/
def modifyGenerator (r : Ref) (f : Generator → Generator) : Exec Unit :=
  modifyHeap fun h => { h with generators := h.generators.modify r f }

/-- The wording for a generator that is resumed by its own body. -/
def alreadyExecuting {α : Type} : Exec α := valueError "generator already executing"

/-- The entry into the frame of a generator; nothing for a value sent to a
    generator that was not begun. -/
def Resumption.entry? (f : Frame) : Resumption → Option Entry
  | .throw_ exc => some (.throw_ exc)
  | .send v =>
    if f.lasti.isSome then some (.resume v)
    else if v = .none then some .call
    else none

/-- The answer to the resume of a generator that has ended. -/
def resumeEnded : Resumption → Exec Value
  | .send _ => raiseWith .stopIteration []
  | .throw_ exc => throw (.raised exc)

/-- The generator has ended. -/
def endGenerator (r : Ref) : Exec Unit := modifyGenerator r fun gen => { gen with running := false }

/-- Goes on after a run of a generator's frame. -/
def settleGenerator (r : Ref) (exit : Exit) (f : Frame) : Exec Value := do
  match exit with
  | .yield_ v =>
    modifyGenerator r fun gen => { gen with frame := some f, running := false }
    return v
  | .return_ _ =>
    endGenerator r
    raiseWith .stopIteration []

/-- Runs the frame of a generator, which is taken out meanwhile. -/
def runGenerator (g : Guest) (r : Ref) (entry : Entry) (f : Frame) : Exec Value := do
  modifyGenerator r fun gen => { gen with frame := none, running := true }
  let (exit, f) ← tryCatch (nested ((g.run entry).within f)) fun fault => do
    endGenerator r
    throw fault
  settleGenerator r exit f

/-- Resumes a generator. -/
def resumeGenerator (g : Guest) (r : Ref) (how : Resumption) : Exec Value := do
  let gen := (← heap).generator r
  if gen.running then alreadyExecuting else
  match gen.frame with
  | none => resumeEnded how
  | some f =>
    match how.entry? f with
    | none => typeError "can't send non-None value to a just-started generator"
    | some entry => runGenerator g r entry f

/-- Resumes a generator with the value of its pending `yield`. -/
def sendTo (g : Guest) (r : Ref) (v : Value) : Exec Value := resumeGenerator g r (.send v)

/-- Resumes a generator by raising an exception at its pending `yield`. -/
def throwTo (g : Guest) (r : Ref) (exc : Ref) : Exec Value := resumeGenerator g r (.throw_ exc)

/-- Ends a generator: one that was not begun is dropped, a suspended one is
    resumed with `GeneratorExit`, which its body must let out. -/
def closeGenerator (g : Guest) (r : Ref) : Exec Unit := do
  let gen := (← heap).generator r
  if gen.running then alreadyExecuting else
  match gen.frame with
  | none => return
  | some f =>
    if f.lasti.isNone then
      modifyGenerator r fun gen => { gen with frame := none }
    else
      let exit ← newException .generatorExit []
      let ignored ← catching .stopIteration (catching .generatorExit
        (do let _ ← throwTo g r exit; return true) (return false)) (return false)
      if ignored then raise .runtimeError "generator ignored GeneratorExit"

end TieredMachine
