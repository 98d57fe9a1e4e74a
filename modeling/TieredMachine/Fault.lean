/-
  Ways in which running code can fail.

  A *fault* ends a run.  `raised` carries a guest exception, the only fault that
  guest code can catch; every other fault means that the code or a frame is not
  what running it requires, and ends the whole call.

  * `Misuse`: the broken expectations that are not tied to one instruction or
    table, each with its wording;
  * `Fault`: all faults, with their names and wording.
-/
import TieredMachine.Code.Word

namespace TieredMachine

/-- A broken expectation on code or on a frame. -/
inductive Misuse where
  /-- a jump instruction without a target -/
  | noJumpTarget (op : Opcode)
  /-- an instruction that is no conditional jump, run as one -/
  | notConditionalJump (op : Opcode)
  /-- a comparison number that names no comparison -/
  | badComparison (arg : Nat)
  /-- a slice of a number of values other than two or three -/
  | badSliceCount (n : Nat)
  /-- a pair stored where no dict is -/
  | storeMapOn (type : String)
  /-- an item appended where no list is -/
  | listAppendOn (type : String)
  /-- a raise of a number of values other than zero, one or two -/
  | badRaiseCount (n : Nat)
  /-- the end of a `with` clause on a value that no clause receives -/
  | withCleanupOn (repr : String)
  /-- a function made from a value that is no code -/
  | functionFrom (type : String)
  /-- a closure that holds a value that is no cell -/
  | closureHolds (type : String)
  /-- a closure made from a value that is no tuple of cells -/
  | closureFrom (type : String)
  /-- a closure with the wrong number of cells -/
  | closureSize (name : String) (needed given : Nat)
  /-- a `finally` clause that finds a number naming no reason -/
  | badReason (code : Int)
  /-- a `finally` clause that finds no target for a `continue` -/
  | badContinueTarget (repr : String)
  /-- a `finally` clause that finds no exception below an exception class -/
  | badExceptionValue (repr : String)
  /-- a `break` that no loop takes -/
  | breakOutsideLoop
  /-- a `continue` that no loop takes -/
  | continueOutsideLoop
  /-- a function that yields without being a generator -/
  | yieldOutsideGenerator (name : String)
  /-- a module body that yields -/
  | moduleYielded (name : String)
  /-- an integer kernel entered other than by a call -/
  | kernelEntry (name entry : String)
  /-- an integer kernel run on a frame with other local variables -/
  | kernelLocals
  /-- an integer kernel that ended at an unknown point -/
  | kernelStatus (n : Nat)
  deriving DecidableEq, Repr

namespace Misuse

/-- The wording of the broken expectation. -/
def message : Misuse → String
  | noJumpTarget op => s!"{op.mnemonic} has no jump target"
  | notConditionalJump op => s!"{op.mnemonic} is not a conditional jump"
  | badComparison arg => s!"bad comparison operator {arg}"
  | badSliceCount n => s!"BUILD_SLICE of {n} values"
  | storeMapOn type => s!"STORE_MAP on {type}"
  | listAppendOn type => s!"LIST_APPEND on {type}"
  | badRaiseCount n => s!"bad RAISE_VARARGS argument {n}"
  | withCleanupOn repr => s!"WITH_CLEANUP with bad stack top {repr}"
  | functionFrom type => s!"MAKE_FUNCTION expects code, got {type}"
  | closureHolds type => s!"closure tuple holds {type}"
  | closureFrom type => s!"MAKE_CLOSURE expects a cell tuple, got {type}"
  | closureSize name needed given => s!"{name} needs {needed} closure cells, got {given}"
  | badReason code => s!"bad unwind reason code {code}"
  | badContinueTarget repr => s!"bad continue target {repr}"
  | badExceptionValue repr => s!"'finally' pops bad exception value {repr}"
  | breakOutsideLoop => "'break' outside loop"
  | continueOutsideLoop => "'continue' not properly in loop"
  | yieldOutsideGenerator name => s!"{name} yielded outside a generator"
  | moduleYielded name => s!"module {name} yielded"
  | kernelEntry name entry => s!"kernel for {name} entered with {entry}"
  | kernelLocals => "kernel local count mismatch"
  | kernelStatus n => s!"unknown kernel status {n}"

end Misuse

/-- Why a run ended without an answer. -/
inductive Fault where
  /-- a guest exception, by its place in the heap -/
  | raised (exc : Nat)
  | stackUnderflow (ip : Nat)
  | invalidOpcode (ip : Nat) (op : Opcode)
  | missingArgument (ip : Nat) (op : Opcode)
  | invalidConstant (index : Nat)
  | invalidName (index : Nat)
  | invalidLocal (index : Nat)
  | invalidCell (index : Nat)
  | blockStackOverflow (ip : Nat)
  | blockStackUnderflow (ip : Nat)
  /-- control left the code or entered an instruction in the middle -/
  | ipOutOfBounds (ip : Nat)
  | runtime (m : Misuse)
  | code (e : CodeError)
  /-- a sequence was asked for that takes more bytes than one can have -/
  | capacityOverflow
  /-- the bound on the length of runs was reached; no run of a program that
      ends gets here -/
  | outOfFuel
  deriving DecidableEq, Repr

namespace Fault

/-- The name of the fault. -/
def label : Fault → String
  | raised _ => "Raised"
  | stackUnderflow _ => "StackUnderflow"
  | invalidOpcode .. => "InvalidOpcode"
  | missingArgument .. => "MissingArgument"
  | invalidConstant _ => "InvalidConstant"
  | invalidName _ => "InvalidName"
  | invalidLocal _ => "InvalidLocal"
  | invalidCell _ => "InvalidCell"
  | blockStackOverflow _ => "BlockStackOverflow"
  | blockStackUnderflow _ => "BlockStackUnderflow"
  | ipOutOfBounds _ => "IpOutOfBounds"
  | runtime _ => "Runtime"
  | code _ => "Code"
  | capacityOverflow => "CapacityOverflow"
  | outOfFuel => "OutOfFuel"

/-- The wording of a fault that is no guest exception. -/
def message : Fault → String
  | raised _ => "guest exception"
  | stackUnderflow ip => s!"Stack underflow at ip {ip}"
  | invalidOpcode ip op => s!"Invalid opcode {op.mnemonic} at ip {ip}"
  | missingArgument ip op => s!"Missing argument for {op.mnemonic} at ip {ip}"
  | invalidConstant index => s!"Invalid constant index: {index}"
  | invalidName index => s!"Invalid name index: {index}"
  | invalidLocal index => s!"Invalid local index: {index}"
  | invalidCell index => s!"Invalid cell index: {index}"
  | blockStackOverflow ip => s!"Block stack overflow at ip {ip}"
  | blockStackUnderflow ip => s!"Block stack underflow at ip {ip}"
  | ipOutOfBounds ip => s!"Instruction pointer {ip} out of bounds"
  | runtime m => s!"Runtime error: {m.message}"
  | code e => s!"Code error: {e.message}"
  | capacityOverflow => "capacity overflow"
  | outOfFuel => "out of fuel"

end Fault

end TieredMachine
