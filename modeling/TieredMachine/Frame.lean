/-
  Frames.

  A frame is the whole state of one activation of a code unit.  Every way of
  running code works on the same frames, and at the start of any instruction
  the fields mean the same to all of them.

  Stacks are lists with the top in front: `stack.head?` is the value pushed
  last, and the first block is the innermost one.
-/
import TieredMachine.Code.Unit
import TieredMachine.Fault

namespace TieredMachine

/-- The greatest number of nested blocks in a frame. -/
def maxBlocks : Nat := 20

/-- An entry of the block stack: where its handler is, and the height of the
    value stack when it was entered. -/
structure Block where
  kind : BlockKind
  handler : Nat
  level : Nat
  deriving DecidableEq, Repr, Inhabited

/-- One activation of a code unit. -/
structure Frame where
  code : CodeUnit
  /-- the namespace of global names -/
  globals : Ref
  /-- the namespace searched after the globals -/
  builtins : Ref
  stack : List Value := []
  locals : Array (Option Value)
  /-- the cells of the cell variables, then those of the free variables -/
  cells : Array Ref
  blocks : List Block := []
  /-- the index of the next instruction -/
  ip : Nat := 0
  /-- the index of the instruction begun last -/
  lasti : Option Nat := none
  /-- the exception that an `except` clause is handling -/
  excInfo : Option Ref := none
  deriving Inhabited

namespace Frame

variable (f : Frame)

/-- The index that failures of the frame are reported at. -/
def position : Nat := f.lasti.getD f.ip

/-- The source line of the frame. -/
def line : Nat := f.code.lineFor f.position

/-- The frame with a value pushed. -/
def push (v : Value) : Frame := { f with stack := v :: f.stack }

/-- The frame with the value stack cut down to a height. -/
def truncate (level : Nat) : Frame :=
  { f with stack := f.stack.drop (f.stack.length - level) }

/-- The value below the topmost `depth` ones. -/
def peek (depth : Nat) : Except Fault Value :=
  match f.stack[depth]? with
  | some v => .ok v
  | none => .error (.stackUnderflow f.position)

/-- The topmost value and the frame without it. -/
def pop : Except Fault (Value × Frame) :=
  match f.stack with
  | v :: rest => .ok (v, { f with stack := rest })
  | [] => .error (.stackUnderflow f.position)

/-- The topmost `n` values, in the order they were pushed, and the frame without
    them. -/
def popN (n : Nat) : Except Fault (List Value × Frame) :=
  if f.stack.length < n then .error (.stackUnderflow f.position)
  else .ok ((f.stack.take n).reverse, { f with stack := f.stack.drop n })

/-- The frame with a block pushed. -/
def pushBlock (kind : BlockKind) (handler : Nat) : Except Fault Frame :=
  if maxBlocks ≤ f.blocks.length then .error (.blockStackOverflow f.position)
  else .ok { f with blocks := ⟨kind, handler, f.stack.length⟩ :: f.blocks }

/-- The innermost block and the frame without it. -/
def popBlock : Except Fault (Block × Frame) :=
  match f.blocks with
  | b :: rest => .ok (b, { f with blocks := rest })
  | [] => .error (.blockStackUnderflow f.position)

/-- The heap place of a cell. -/
def cell (i : Nat) : Except Fault Ref :=
  match f.cells[i]? with
  | some c => .ok c
  | none => .error (.invalidCell i)

end Frame

end TieredMachine
