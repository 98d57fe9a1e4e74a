/-
  Assembling code units.

  A builder collects primitives, each with the source line in force, and the
  tables that they use.  Jumps name labels; a label is given its place among the
  primitives before or after the jumps to it.  Building groups the primitives
  into instructions, packed or not, gives every primitive its index, and turns
  labels into jump arguments.  A packed instruction never reaches across the
  place of a label, since a jump must land on an instruction.

  * `emit`, `emitArg`, `jump`, `bindLabel`: the primitives and their labels;
  * `constant`, `localSlot`, `nameIndex`, `cellIndex`: the tables;
  * `build`: the code unit.
-/
import TieredMachine.Code.Unit

namespace TieredMachine

/-- The argument of a primitive under construction. -/
inductive Operand where
  | none
  | value (n : Nat)
  | label (l : Nat)
  deriving DecidableEq, Repr, Inhabited

/-- A primitive under construction. -/
structure Draft where
  op : Opcode
  arg : Operand
  line : Nat
  deriving DecidableEq, Repr, Inhabited

/-- A code unit under construction. -/
structure CodeBuilder where
  parts : CodeParts
  /-- the source line of the primitives to come -/
  line : Nat := 1
  /-- whether primitives are packed into superinstructions -/
  fuse : Bool := false
  prims : Array Draft := #[]
  /-- for each label, its place among the primitives -/
  labels : Array (Option Nat) := #[]
  /-- the first thing that went wrong -/
  error : Option CodeError := Option.none
  deriving Inhabited

namespace CodeBuilder

/-- A builder for a unit with a given name. -/
def new (name : String) : CodeBuilder := { parts := { name, firstLine := 1 } }

variable (b : CodeBuilder)

/-- Notes an error, unless there was one before. -/
def fail (e : CodeError) : CodeBuilder := { b with error := b.error.orElse fun _ => some e }

/-! ## Tables -/

/-- The position of a name in a table, where it is added if it is new. -/
def intern (table : Array String) (name : String) : Array String × Nat :=
  match table.findIdx? (· == name) with
  | some i => (table, i)
  | none => (table.push name, table.size)

/-- The slot of a local variable. -/
def localSlot (name : String) : CodeBuilder × Nat :=
  let (varnames, i) := intern b.parts.varnames name
  ({ b with parts := { b.parts with varnames } }, i)

/-- The index of a global or attribute name. -/
def nameIndex (name : String) : CodeBuilder × Nat :=
  let (names, i) := intern b.parts.names name
  ({ b with parts := { b.parts with names } }, i)

/-- Whether equal constants share a place in the table. -/
def isShareable : Value → Bool
  | .none | .bool _ | .int _ | .str _ => true
  | _ => false

/-- The index of a constant.  Scalars and texts are shared, any other constant
    gets a place of its own. -/
def constant (v : Value) : CodeBuilder × Nat :=
  match if isShareable v then b.parts.consts.findIdx? (·.isSame v) else none with
  | some i => (b, i)
  | none =>
    ({ b with parts := { b.parts with consts := b.parts.consts.push v } }, b.parts.consts.size)

/-- The cell of a declared cell or free variable. -/
def cellIndex (name : String) : CodeBuilder × Nat :=
  match b.parts.cellvars.findIdx? (· == name) with
  | some i => (b, i)
  | none =>
    match b.parts.freevars.findIdx? (· == name) with
    | some i => (b, b.parts.cellvars.size + i)
    | none => (b.fail (.unknownName name), 0)

/-! ## Signature -/

/-- Adds properties. -/
def flag (f : CodeFlags) : CodeBuilder :=
  { b with parts := { b.parts with flags := b.parts.flags.union f } }

/-- Declares the positional parameters. -/
def args (names : List String) : CodeBuilder :=
  let b := names.foldl (fun b n => (b.localSlot n).1) b
  { b with parts := { b.parts with argcount := names.length } }

/-- Declares the parameter that collects surplus positional arguments. -/
def varargs (name : String) : CodeBuilder := (b.localSlot name).1.flag .varargs

/-- Declares the parameter that collects surplus keyword arguments. -/
def varkeywords (name : String) : CodeBuilder := (b.localSlot name).1.flag .varkeywords

/-- Declares a cell variable. -/
def cellvar (name : String) : CodeBuilder :=
  { b with parts := { b.parts with cellvars := b.parts.cellvars.push name } }

/-- Declares a free variable. -/
def freevar (name : String) : CodeBuilder :=
  let b := { b with parts := { b.parts with freevars := b.parts.freevars.push name } }
  b.flag .nested

/-- Sets the source line of the primitives to come.  Before the first primitive
    it is the line of the unit as well, as long as that has its first value. -/
def setLine (line : Nat) : CodeBuilder :=
  let firstLine := if b.prims.isEmpty && b.line == b.parts.firstLine then line
    else b.parts.firstLine
  { b with line, parts := { b.parts with firstLine } }

/-- Turns packing on or off. -/
def setFuse (fuse : Bool) : CodeBuilder := { b with fuse }

/-! ## Primitives -/

/-- Adds a primitive. -/
def push (op : Opcode) (arg : Operand) : CodeBuilder :=
  { b with prims := b.prims.push ⟨op, arg, b.line⟩ }

/-- Notes an argument mismatch when a condition holds. -/
def mismatchIf (c : Bool) (op : Opcode) : CodeBuilder :=
  if c then b.fail (.argumentMismatch op) else b

/-- Adds a primitive without an argument. -/
def emit (op : Opcode) : CodeBuilder :=
  (b.mismatchIf (op.hasArg || op.isSuper) op).push op .none

/-- Adds a primitive with an argument. -/
def emitArg (op : Opcode) (arg : Nat) : CodeBuilder :=
  (b.mismatchIf (!op.hasArg) op).push op (.value arg)

/-- A new label, without a place. -/
def label : CodeBuilder × Nat := ({ b with labels := b.labels.push none }, b.labels.size)

/-- Places a label in front of the next primitive. -/
def bindLabel (l : Nat) : CodeBuilder :=
  { b with labels := b.labels.setIfInBounds l (some b.prims.size) }

/-- Adds a jump or a block setup that goes to a label. -/
def jump (op : Opcode) (l : Nat) : CodeBuilder :=
  (b.mismatchIf (op.argKind != .relJump && op.argKind != .absJump) op).push op (.label l)

/-- Adds a primitive that refers to a table, given the place in the table. -/
def emitAt (op : Opcode) (place : CodeBuilder × Nat) : CodeBuilder := place.1.emitArg op place.2

/-- Adds a load of a constant. -/
def loadConst (v : Value) : CodeBuilder := emitAt .loadConst (b.constant v)

/-- Adds a comparison. -/
def compare (op : CmpOp) : CodeBuilder := b.emitArg .compareOp op.toArg

/-- The argument of a call with positional and keyword arguments. -/
def callArg (argc nkw : Nat) : Nat := (nkw * 256 ||| argc) % UInt32.size

/-- Adds a call. -/
def call (argc nkw : Nat) (star dstar : Bool) : CodeBuilder :=
  let op := match star, dstar with
    | false, false => Opcode.callFunction
    | true, false => .callFunctionVar
    | false, true => .callFunctionKw
    | true, true => .callFunctionVarKw
  b.emitArg op (callArg argc nkw)

/-- Adds a slice with the bounds that are on the stack. -/
def slice (lower upper : Bool) : CodeBuilder :=
  b.emit (match lower, upper with
    | false, false => .slice0
    | true, false => .slice1
    | false, true => .slice2
    | true, true => .slice3)

/-! ## Building -/

/-- An instruction with its place: its opcode, its primitives, the index of its
    first word and the index after its last one. -/
structure Placed where
  op : Opcode
  prims : List Draft
  start : Nat
  stop : Nat
  deriving Repr, Inhabited

/-- Gives each group of primitives its place. -/
def place : Nat → List (Opcode × Nat) → List Draft → List Placed
  | _, [], _ => []
  | start, (op, n) :: gs, prims =>
    let mine := prims.take n
    let stop := start + 1 + (mine.filter (·.op.hasArg)).length
    ⟨op, mine, start, stop⟩ :: place stop gs (prims.drop n)

/-- For each primitive, the index of its instruction; at the end, the index
    after the last word. -/
def indices (placed : List Placed) : List Nat :=
  placed.flatMap (fun p => List.replicate p.prims.length p.start) ++
    [(placed.getLast?.map (·.stop)).getD 0]

/-- The argument of a primitive, with its label resolved. -/
def resolve (labels : Array (Option Nat)) (at_ : Array Nat) (i : Placed) (p : Draft) :
    Except CodeError (Option Nat) :=
  match p.arg with
  | .none => .ok Option.none
  | .value n => .ok (some n)
  | .label l =>
    match labels[l]?.join with
    | Option.none => .error (.unboundLabel l)
    | some pos =>
      let target := at_[pos]?.getD 0
      if p.op.argKind = .relJump then
        if target < i.stop then .error (.badJumpTarget i.start target)
        else .ok (some (target - i.stop))
      else .ok (some target)

/-- The words of an instruction in its place. -/
def placedWords (labels : Array (Option Nat)) (at_ : Array Nat) (i : Placed) :
    Except CodeError (List Word) := do
  let args ← i.prims.mapM fun p => do
    match ← resolve labels at_ i p with
    | Option.none => pure []
    | some arg => return [← Word.ofArg arg]
  return .ofOpcode i.op :: args.flatten

/-- The indices where the source line changes, and the new lines. -/
def lineTable (placed : List Placed) : List (Nat × Nat) :=
  (placed.foldl (fun (table : List (Nat × Nat)) i =>
    let line := (i.prims.head?.map (·.line)).getD 0
    if table.head?.map (·.2) = some line then table else (i.start, line) :: table) []).reverse

/-- The primitives as instructions in their places. -/
def layout : List Placed :=
  let isPlace (i : Nat) : Bool := b.labels.contains (some i)
  let gs := Code.groups b.fuse isPlace 0 (b.prims.toList.map (·.op))
  place 0 gs b.prims.toList

/-- The parts of the finished unit. -/
def finish : Except CodeError CodeParts := do
  match b.error with
  | some e => .error e
  | Option.none =>
    let placed := b.layout
    let at_ := (indices placed).toArray
    let words ← placed.mapM (placedWords b.labels at_)
    return { b.parts with words := words.flatten.toArray, lines := lineTable placed }

/-- The finished unit, under a given number. -/
def build (id : Ref) : Except CodeError CodeUnit := do CodeUnit.ofParts id (← b.finish)

end CodeBuilder

end TieredMachine
