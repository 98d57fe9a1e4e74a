/-
  Instruction words.

  Code is a sequence of 32-bit words.  The lowest bit tells opcode words from
  argument words; the other bits hold the opcode's byte or the argument.

  * `Word.ofOpcode`, `Word.ofArg`: the two kinds of words;
  * `CodeError`: what can be wrong with a sequence of words or with a code unit
    under construction.
-/
import TieredMachine.Opcode
import TieredMachine.Text.Columns

namespace TieredMachine

/-- The largest argument that fits in a word. -/
def maxArg : Nat := Nat.pow 2 31 - 1

/-- What is wrong with code. -/
inductive CodeError where
  /-- an opcode word that stands for no opcode -/
  | unknownOpcode (index byte : Nat)
  /-- an argument word in the place of an opcode -/
  | argumentAsOpcode (index : Nat)
  /-- no argument word where a primitive needs one -/
  | missingArgument (index : Nat) (op : Opcode)
  /-- an argument word that belongs to no instruction -/
  | trailingArgument (index : Nat)
  /-- an index past the end of a table -/
  | indexOutOfBounds (index len : Nat)
  /-- an argument for a primitive that takes none, or none for one that does -/
  | argumentMismatch (op : Opcode)
  /-- an argument that does not fit in a word -/
  | argumentTooLarge (arg : Nat)
  /-- a label that was never given a place -/
  | unboundLabel (label : Nat)
  /-- a jump that lands outside the code or inside an instruction -/
  | badJumpTarget (index target : Nat)
  /-- a cell variable that was not declared -/
  | unknownName (name : String)
  /-- code without instructions -/
  | empty
  deriving DecidableEq, Repr

namespace CodeError

/-- The name of the error. -/
def label : CodeError → String
  | unknownOpcode .. => "UnknownOpcode"
  | argumentAsOpcode .. => "ArgumentAsOpcode"
  | missingArgument .. => "MissingArgument"
  | trailingArgument .. => "TrailingArgument"
  | indexOutOfBounds .. => "IndexOutOfBounds"
  | argumentMismatch .. => "ArgumentMismatch"
  | argumentTooLarge .. => "ArgumentTooLarge"
  | unboundLabel .. => "UnboundLabel"
  | badJumpTarget .. => "BadJumpTarget"
  | unknownName .. => "UnknownName"
  | empty => "Empty"

/-- The wording of the error. -/
def message : CodeError → String
  | unknownOpcode index byte => s!"Unknown opcode 0x{Text.hexPadded 2 byte} at index {index}"
  | argumentAsOpcode index => s!"Expected an opcode at index {index}, found an argument"
  | missingArgument index op => s!"Missing argument for {op.mnemonic} at index {index}"
  | trailingArgument index => s!"Decoding would leave an argument at index {index}"
  | indexOutOfBounds index len => s!"Index {index} out of bounds for stream of length {len}"
  | argumentMismatch op => s!"Argument presence does not match opcode {op.mnemonic}"
  | argumentTooLarge arg => s!"Argument {arg} too large"
  | unboundLabel label => s!"Label {label} was never bound"
  | badJumpTarget index target => s!"Jump at index {index} targets invalid index {target}"
  | unknownName name => s!"Unknown name: {name}"
  | empty => "Code unit has no instructions"

end CodeError

/-- One word of code. -/
structure Word where
  raw : UInt32
  deriving DecidableEq, Repr, Inhabited

namespace Word

/-- The word of an opcode. -/
def ofOpcode (op : Opcode) : Word := ⟨.ofNat (2 * op.toByte)⟩

/-- The word of an argument that is small enough. -/
def ofArg (arg : Nat) : Except CodeError Word :=
  if maxArg < arg then .error (.argumentTooLarge arg) else .ok ⟨.ofNat (2 * arg + 1)⟩

/-- Whether the word holds an argument. -/
def isArg (w : Word) : Bool := w.raw.toNat % 2 == 1

/-- The argument or the opcode byte that the word holds. -/
def payload (w : Word) : Nat := w.raw.toNat / 2

/-- The argument that the word holds, if it is an argument word. -/
def arg? (w : Word) : Option Nat := if w.isArg then some w.payload else none

/-- The word in diagnostics. -/
def inspect (w : Word) : String :=
  match w.arg? with
  | some arg => s!"arg({arg})"
  | none =>
    match Opcode.ofByte? w.payload with
    | some op => op.mnemonic
    | none => s!"op(0x{Text.hex w.payload})"

end Word

end TieredMachine
