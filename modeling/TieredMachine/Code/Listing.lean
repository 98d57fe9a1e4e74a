/-
  Listings of code units.

  A listing has one line per instruction: the source line where it changes, a
  mark at the targets of jumps, the index, the mnemonic, and the arguments with
  what they stand for.
-/
import TieredMachine.Heap.Text

namespace TieredMachine

namespace CodeUnit

variable (h : Heap) (u : CodeUnit)

/-- An argument with what it stands for. -/
def argumentText (next : Nat) (op : Opcode) (arg : Nat) : String :=
  let meaning (text : String) : String := s!"{arg} ({text})"
  let named (name : Option String) : String := meaning (name.getD "?")
  match op.argKind with
  | .const => named (u.consts[arg]?.map h.repr)
  | .name => named u.names[arg]?
  | .local => named u.varnames[arg]?
  | .free => named (u.cellName? arg)
  | .compare => meaning (((CmpOp.ofArg? arg).map CmpOp.symbol).getD "BAD")
  | .relJump => s!"{arg} (to {next + arg})"
  | .absJump | .count | .none => toString arg

/-- The indices that primitives jump to. -/
def targets : List Nat :=
  u.instrs.toList.flatMap fun i => i.prims.filterMap (·.target? i.next)

/-- The line of an instruction; the source line is shown when it is not the one
    shown last. -/
def instrLine (shown : Option Nat) (i : Instr) : String :=
  let line := Text.padLeft 4 (if shown = some i.line then "" else toString i.line)
  let mark := if (targets u).contains i.ip then ">>" else "  "
  let args := i.prims.filterMap fun p => p.arg.map (argumentText h u i.next p.op)
  Text.join " " [line, mark, Text.padLeft 5 (toString i.ip), Text.padRight 28 i.op.mnemonic,
    Text.join ", " args]

/-- The lines of the instructions of a unit. -/
def listing : List String :=
  u.instrs.toList.zipIdx.map fun p =>
    instrLine h u (if p.2 = 0 then none else u.instrs[p.2 - 1]?.map (·.line)) p.1

/-- The unit in diagnostics, with the flags that it has at present. -/
def inspect (flags : CodeFlags) : String :=
  s!"CodeUnit \x7b name: {Text.inspect u.name}, argcount: {u.argcount}, " ++
    s!"flags: {flags.inspect}, words: {u.words.size} \x7d"

end CodeUnit

end TieredMachine
