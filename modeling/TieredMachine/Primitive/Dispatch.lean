/-
  Running one primitive.

  `Primitive.run` runs a primitive on a frame that already stands at the
  following instruction.  It is what the interpreter and threaded code
  have in common.
-/
import TieredMachine.Primitive.Call

namespace TieredMachine

namespace Primitive

/-- A step that hands on to the next primitive. -/
def thenNext (x : FrameExec Unit) : FrameExec Flow := do
  x
  return .next

/-- A primitive that takes no argument and is no operator. -/
def runPlain (g : Guest) (site : Site) (op : Opcode) : FrameExec Flow :=
  match op with
  | .nop => return .next
  | .popTop => thenNext do let _ ← pop
  | .rotTwo => thenNext (rotate site 2)
  | .rotThree => thenNext (rotate site 3)
  | .rotFour => thenNext (rotate site 4)
  | .dupTop => thenNext (duplicate site 1)
  | .dupTopTwo => thenNext (duplicate site 2)
  | .dupTopThree => thenNext (duplicate site 3)
  | .storeSubscr => thenNext (storeSubscr g)
  | .deleteSubscr => thenNext (deleteSubscr g)
  | .getIter => thenNext (getIter g)
  | .storeMap => thenNext storeMap
  | .slice0 => thenNext (loadSlice g (false, false))
  | .slice1 => thenNext (loadSlice g (true, false))
  | .slice2 => thenNext (loadSlice g (false, true))
  | .slice3 => thenNext (loadSlice g (true, true))
  | .storeSlice0 => thenNext (storeSlice g (false, false))
  | .storeSlice1 => thenNext (storeSlice g (true, false))
  | .storeSlice2 => thenNext (storeSlice g (false, true))
  | .storeSlice3 => thenNext (storeSlice g (true, true))
  | .deleteSlice0 => thenNext (dropSlice g (false, false))
  | .deleteSlice1 => thenNext (dropSlice g (true, false))
  | .deleteSlice2 => thenNext (dropSlice g (false, true))
  | .deleteSlice3 => thenNext (dropSlice g (true, true))
  | .breakLoop => return .unwind .break_
  | .returnValue => return .unwind (.return_ (← pop))
  | .yieldValue => return .yield_ (← pop)
  | .popBlock => thenNext dropBlock
  | .endFinally => endFinally
  | .withCleanup => thenNext (withCleanup g site)
  | op => throw (.invalidOpcode site.ip op)

/-- A primitive that takes an argument. -/
def runWithArg (g : Guest) (site : Site) (recording : Bool) (op : Opcode) (arg : Nat) :
    FrameExec Flow :=
  match op with
  | .buildSlice => thenNext (buildSlice arg)
  | .unpackSequence => thenNext (unpack g arg)
  | .forIter => forIter g arg
  | .buildTuple => thenNext (buildTuple arg)
  | .buildList => thenNext (buildList arg)
  | .listAppend => thenNext (appendTo arg)
  | .continueLoop => return .unwind (.continue_ arg)
  | .setupLoop | .setupExcept | .setupFinally => thenNext (setupBlock op arg)
  | .raiseVarargs => raiseOf arg
  | .jumpForward | .jumpAbsolute => jump op arg
  | .popJumpIfFalse | .popJumpIfTrue | .jumpIfFalseOrPop | .jumpIfTrueOrPop =>
    testJump site recording op arg
  | .loadConst => thenNext (loadConst arg)
  | .loadFast => thenNext do push (← loadLocal arg)
  | .storeFast => thenNext do storeLocal arg (← pop)
  | .deleteFast => thenNext (deleteLocal arg)
  | .loadGlobal => thenNext (loadGlobal arg)
  | .storeGlobal => thenNext (storeGlobal arg)
  | .deleteGlobal => thenNext (deleteGlobal arg)
  | .loadClosure => thenNext (loadClosure arg)
  | .loadDeref => thenNext (loadDeref arg)
  | .storeDeref => thenNext (storeDeref arg)
  | .loadAttr => thenNext (loadAttr g arg)
  | .storeAttr => thenNext (storeAttr arg)
  | .deleteAttr => thenNext (dropAttr arg)
  | .compareOp => thenNext (applyCompare g arg)
  | .callFunction => thenNext (callFunction g site recording (false, false) arg)
  | .callFunctionVar => thenNext (callFunction g site recording (true, false) arg)
  | .callFunctionKw => thenNext (callFunction g site recording (false, true) arg)
  | .callFunctionVarKw => thenNext (callFunction g site recording (true, true) arg)
  | .makeFunction => thenNext (makeFunction false arg)
  | .makeClosure => thenNext (makeFunction true arg)
  | op => throw (.invalidOpcode site.ip op)

/-- Runs a primitive.  Feedback is recorded when `recording`. -/
def run (g : Guest) (site : Site) (recording : Bool) (p : Primitive) : FrameExec Flow :=
  match p.op.binaryOp?, p.op.inplaceOp?, p.op.unaryOp? with
  | some op, _, _ => thenNext (applyBinary g site recording binary op)
  | none, some op, _ => thenNext (applyBinary g site recording inplace op)
  | none, none, some op => thenNext (applyUnary g op)
  | none, none, none =>
    if p.op = .buildMap then thenNext buildMap
    else if p.op.hasArg then
      match p.arg with
      | some arg => runWithArg g site recording p.op arg
      | none => throw (.missingArgument site.ip p.op)
    else runPlain g site p.op

end Primitive

end TieredMachine
