/-
  Primitives that direct control.

  * `jump`, `testJump`: jumps;
  * `setupBlock`, `dropBlock`: the block stack;
  * `forIter`: the next turn of a loop;
  * `raiseOf`: raising an exception;
  * `withCleanup`: the end of a `with` clause.
-/
import TieredMachine.Primitive.Operand

namespace TieredMachine

namespace Primitive

/-! ## Jumps -/

/-- The target of a jump.  The frame already stands at the following
    instruction. -/
def targetOf (op : Opcode) (arg : Nat) : FrameExec Nat := do
  match Code.jumpTarget? op arg (← frame).ip with
  | some target => return target
  | none => throw (.runtime (.noJumpTarget op))

/-- Jumps. -/
def jump (op : Opcode) (arg : Nat) : FrameExec Flow := return .jump (← targetOf op arg)

/-- Whether a conditional jump is taken on a truth value, and whether the tested
    value is popped then. -/
def decideJump? (op : Opcode) (truth : Bool) : Option (Bool × Bool) :=
  match op with
  | .popJumpIfFalse => some (!truth, true)
  | .popJumpIfTrue => some (truth, true)
  | .jumpIfFalseOrPop => some (!truth, truth)
  | .jumpIfTrueOrPop => some (truth, !truth)
  | _ => none

/-- Jumps depending on the topmost value.  Its truth is recorded when
    `recording`. -/
def testJump (site : Site) (recording : Bool) (op : Opcode) (arg : Nat) : FrameExec Flow := do
  let target ← targetOf op arg
  let tested ← peek 0
  let truth ← onMachine (truthOf tested)
  if recording then report (·.recordBranch site tested truth)
  match decideJump? op truth with
  | none => throw (.runtime (.notConditionalJump op))
  | some (taken, popped) =>
    if popped then
      let _ ← pop
    return if taken then .jump target else .next

/-! ## Blocks -/

/-- Pushes the block of a setup instruction. -/
def setupBlock (op : Opcode) (arg : Nat) : FrameExec Unit := do
  let handler ← targetOf op arg
  pushBlock (op.blockKind?.getD .finally_) handler

/-- Pops the innermost block and cuts the value stack down to its level. -/
def dropBlock : FrameExec Unit := do
  let b ← popBlock
  modifyFrame (·.truncate b.level)

/-! ## Iteration -/

/-- Pushes the next item of the topmost iterator, or pops the iterator and jumps
    past the loop. -/
def forIter (g : Guest) (arg : Nat) : FrameExec Flow := do
  let it ← peek 0
  match ← advance? g it with
  | some item =>
    push item
    return .next
  | none =>
    let _ ← pop
    jump .forIter arg

/-! ## Raising -/

/-- The wording for a value that cannot be raised. -/
def notRaisable {α : Type} (type : String) : Exec α :=
  typeError s!"exceptions must be classes or instances, not {type}"

/-- The exception for a class or an exception, and a value. -/
def exceptionOf (exc : Value) (value : Option Value) : Exec Ref := do
  let h ← heap
  match exc, value with
  | .excType kind, none | .excType kind, some .none => newException kind []
  | .excType kind, some (.exception e) =>
    if (h.exception e).kind.isSubclass kind then return e
    else newException kind [.exception e]
  | .excType kind, some (.tuple r) => newException kind (h.tuple r).toList
  | .excType kind, some v => newException kind [v]
  | .exception e, none | .exception e, some .none => return e
  | .exception _, some _ => typeError "instance exception may not have a separate value"
  | v, _ => notRaisable v.typeName

/-- Raises an exception made of the topmost values; with no values, the one that
    is being handled. -/
def raiseOf (count : Nat) : FrameExec Flow := do
  match count with
  | 0 =>
    match (← frame).excInfo with
    | some exc => return .raise exc false
    | none => onMachine (notRaisable TypeTag.none.name)
  | 1 =>
    let exc ← pop
    return .raise (← exceptionOf exc none) true
  | 2 =>
    let value ← pop
    let exc ← pop
    return .raise (← exceptionOf exc (some value)) true
  | n => throw (.runtime (.badRaiseCount n))

/-! ## `with` clauses -/

/-- The number of values that sent control into a `with` clause's end. -/
def payloadSize (top : Value) : FrameExec Nat := do
  match top with
  | .none => return 1
  | .int n =>
    match UnwindReason.ofCode? n with
    | some .return_ | some .continue_ => return 2
    | _ => return 1
  | .excType _ => return 3
  | v => throw (.runtime (.withCleanupOn ((← onMachine heap).repr v)))

/-- Whether a payload is that of an exception. -/
def isExceptionPayload : Value → Bool
  | .excType _ => true
  | _ => false

/-- The arguments of the exit function: the class, the exception and its
    traceback, or nothing three times. -/
def exitArguments (top : Value) : FrameExec (List Value) := do
  if isExceptionPayload top then return [top, ← peek 1, ← peek 2]
  else return [.none, .none, .none]

/-- Takes the value below the topmost `depth` ones off the stack. -/
def takeBelow (site : Site) (depth : Nat) : FrameExec Value := do
  let stack := (← frame).stack
  match stack[depth]? with
  | none => throw (.stackUnderflow site.ip)
  | some v =>
    modifyFrame fun f => { f with stack := stack.take depth ++ stack.drop (depth + 1) }
    return v

/-- Calls the exit function, which is below the values that sent control here.
    When it is told an exception and answers something true, the exception is
    dropped. -/
def withCleanup (g : Guest) (site : Site) : FrameExec Unit := do
  let top ← peek 0
  let size ← payloadSize top
  let args ← exitArguments top
  let exit ← takeBelow site size
  let answer ← g.call exit args []
  if isExceptionPayload top && (← onMachine (truthOf answer)) then
    let _ ← popN 3
    push .none

end Primitive

end TieredMachine
