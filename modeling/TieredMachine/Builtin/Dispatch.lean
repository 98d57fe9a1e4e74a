/-
  Running a built-in function by its tag.
-/
import TieredMachine.Builtin.Method
import TieredMachine.Builtin.Knob

namespace TieredMachine

/-- Runs a built-in function. -/
def BuiltinFn.run (g : Guest) (args : List Value) : BuiltinFn → Exec Value
  | len => lenOf args
  | range => rangeList args
  | xrange => rangeIterator args
  | abs => absOf g args
  | min => extremum g "min" .lt args
  | max => extremum g "max" .gt args
  | sum => sumOf g args
  | int => toInt args
  | float => toFloat args
  | str => toStr args
  | repr => toRepr args
  | bool => toBool args
  | list => toList g args
  | tuple => toTuple g args
  | iter => iterOf g args
  | next => nextOf g args
  | isinstance => isInstance args
  | listAppend => append args
  | listPop => popItem args
  | listExtend => extend g args
  | dictGet => getItem args
  | dictKeys => entryList "keys" (fun p => pure p.1) args
  | dictValues => entryList "values" (fun p => pure p.2) args
  | dictItems => entryList "items" (fun p => newTuple [p.1, p.2]) args
  | strJoin => joinTexts g args
  | genSend => send g args
  | genNext => resumeNext g args
  | genThrow => throwInto g args
  | genClose => close g args
  | bail => requestBail
  | traceOn => setTracing true
  | traceOff => setTracing false
  | emit => emitTexts args
  | finished => hasFinished args
  | setLevel => compileAt args
  | tier => tierOf args
  | resetTier => resetTierOf args
  | setBailError => setBailErrorTo args
  | setGlobal => setGlobalTo args

end TieredMachine
