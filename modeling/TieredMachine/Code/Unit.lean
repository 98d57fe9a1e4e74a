/-
  Code units.

  A code unit is the compiled form of one function or module body: its words,
  the instructions they decode to, and the tables that arguments index.  It is
  built once from its parts, which are checked as a whole, and never changes.

  * `CodeFlags`: the properties of a unit, as a set of bits;
  * `CodeParts`, `CodeUnit.ofParts`: the checked construction;
  * `instrAt?`, `lineFor`, `isLineStart`, `isSafePoint`: what is known of an
    index of the code.
-/
import TieredMachine.Code.Stream
import TieredMachine.Value.Basic
import TieredMachine.Text.Quoted

namespace TieredMachine

/-! ## Flags -/

/-- A set of properties of a code unit. -/
structure CodeFlags where
  bits : UInt32
  deriving DecidableEq, Repr, Inhabited

namespace CodeFlags

/-- No property. -/
def empty : CodeFlags := ⟨0⟩

/-- It takes surplus positional arguments as a tuple. -/
def varargs : CodeFlags := ⟨0x0004⟩

/-- It takes surplus keyword arguments as a dict. -/
def varkeywords : CodeFlags := ⟨0x0008⟩

/-- It was defined inside another function. -/
def nested : CodeFlags := ⟨0x0010⟩

/-- Calling it makes a generator. -/
def generator : CodeFlags := ⟨0x0020⟩

/-- It has no cell and no free variables. -/
def nofree : CodeFlags := ⟨0x0040⟩

/-- It has blocks other than loops. -/
def blockstack : CodeFlags := ⟨0x0100⟩

/-- Its compiled code relies on bindings of global names. -/
def fdoGlobals : CodeFlags := ⟨0x0200⟩

/-- Every single property and its name. -/
def named : List (CodeFlags × String) :=
  [(varargs, "VARARGS"), (varkeywords, "VARKEYWORDS"), (nested, "NESTED"),
    (generator, "GENERATOR"), (nofree, "NOFREE"), (blockstack, "BLOCKSTACK"),
    (fdoGlobals, "FDO_GLOBALS")]

/-- The property with a given name. -/
def ofName? (s : String) : Option CodeFlags := (named.find? (·.2 == s)).map (·.1)

/-- Whether all properties of `g` are in `f`. -/
def contains (f g : CodeFlags) : Bool := f.bits &&& g.bits == g.bits

/-- The properties of both sets. -/
def union (f g : CodeFlags) : CodeFlags := ⟨f.bits ||| g.bits⟩

/-- The properties of `f` that are not in `g`. -/
def diff (f g : CodeFlags) : CodeFlags := ⟨f.bits &&& ~~~g.bits⟩

/-- `f` with the properties of `g` when a condition holds. -/
def addIf (f : CodeFlags) (c : Bool) (g : CodeFlags) : CodeFlags := if c then f.union g else f

/-- The set in diagnostics. -/
def inspect (f : CodeFlags) : String :=
  let names := (named.filter fun p => f.contains p.1).map (·.2)
  "CodeFlags(" ++ Text.join " | " names ++ ")"

end CodeFlags

/-! ## Blocks and instructions -/

/-- The kinds of blocks on a frame's block stack. -/
inductive BlockKind where
  | loop | except | finally_
  deriving DecidableEq, Repr, Inhabited

namespace BlockKind

/-- The name of the kind in listings. -/
def name : BlockKind → String
  | loop => "loop"
  | except => "except"
  | finally_ => "finally"

/-- The name of the kind in diagnostics. -/
def label : BlockKind → String
  | loop => "Loop"
  | except => "Except"
  | finally_ => "Finally"

/-- The kind with a given name. -/
def ofName? : String → Option BlockKind
  | "loop" => some loop
  | "except" => some except
  | "finally" => some finally_
  | _ => none

end BlockKind

/-- The kind of block that a setup primitive pushes. -/
def Opcode.blockKind? : Opcode → Option BlockKind
  | .setupLoop => some .loop
  | .setupExcept => some .except
  | .setupFinally => some .finally_
  | _ => none

/-- A decoded instruction. -/
structure Instr where
  /-- the index of the opcode word -/
  ip : Nat
  /-- the opcode, possibly a superinstruction -/
  op : Opcode
  /-- the primitives that it runs -/
  prims : List Primitive
  /-- the source line -/
  line : Nat
  deriving Repr, Inhabited

namespace Instr

/-- The index of the following instruction. -/
def next (i : Instr) : Nat := i.ip + i.op.length

/-- The primitive that ends the instruction. -/
def last (i : Instr) : Primitive := i.prims.getLast?.getD ⟨.nop, none⟩

/-- The index that the last primitive jumps to. -/
def target? (i : Instr) : Option Nat := i.last.target? i.next

end Instr

/-- The instructions that `setup` primitives protect, and their handler. -/
structure HandlerEntry where
  start : Nat
  stop : Nat
  handler : Nat
  kind : BlockKind
  deriving DecidableEq, Repr, Inhabited

/-! ## Units -/

/-- What a code unit is made of. -/
structure CodeParts where
  name : String := ""
  argcount : Nat := 0
  flags : CodeFlags := .empty
  firstLine : Nat := 0
  words : Array Word := #[]
  consts : Array Value := #[]
  names : Array String := #[]
  varnames : Array String := #[]
  cellvars : Array String := #[]
  freevars : Array String := #[]
  /-- the indices where source lines begin, and the lines -/
  lines : List (Nat × Nat) := []
  deriving Inhabited

/-- A checked code unit. -/
structure CodeUnit extends CodeParts where
  /-- the number of the unit -/
  id : Ref
  instrs : Array Instr
  /-- for each word, the position of the instruction that starts there -/
  instrOf : Array (Option Nat)
  /-- for each cell variable, the parameter that it starts from -/
  cell2arg : List (Option Nat)
  handlers : List HandlerEntry
  safePoints : Array Bool
  deriving Inhabited

namespace Code

/-- The source line in force at an index. -/
def lineOf (firstLine : Nat) (lines : List (Nat × Nat)) (ip : Nat) : Nat :=
  ((lines.filter (·.1 ≤ ip)).getLast?.map (·.2)).getD firstLine

/-- The instructions from an index on. -/
def instrsFrom (words : Array Word) (line : Nat → Nat) (ip : Nat) :
    Except CodeError (List Instr) :=
  if ip < words.size then do
    let (op, prims) ← decodeAt words ip
    return ⟨ip, op, prims, line ip⟩ :: (← instrsFrom words line (ip + op.length))
  else .ok []
termination_by words.size - ip
decreasing_by
  simp only [Opcode.length]
  omega

/-- For each word, the position of the instruction that starts there. -/
def startTable (size : Nat) (instrs : List Instr) : Array (Option Nat) :=
  instrs.zipIdx.foldl (fun t p => t.setIfInBounds p.1.ip (some p.2)) (.replicate size none)

/-- The length of the table that an argument of a kind indexes. -/
def tableLength? (p : CodeParts) : ArgKind → Option Nat
  | .const => some p.consts.size
  | .name => some p.names.size
  | .local => some p.varnames.size
  | .free => some (p.cellvars.size + p.freevars.size)
  | _ => none

/-- Checks one primitive of an instruction: its argument is in range of its
    table, and a jump lands on an instruction.  Answers the block that it
    sets up, if it sets one up. -/
def checkPrimitive (parts : CodeParts) (starts : Array (Option Nat)) (i : Instr)
    (p : Primitive) : Except CodeError (Option HandlerEntry) :=
  match p.arg with
  | none => .ok none
  | some arg => do
    match tableLength? parts p.op.argKind with
    | some len => if len ≤ arg then .error (.indexOutOfBounds arg len)
    | none => pure ()
    if p.op.argKind = .compare && (CmpOp.ofArg? arg).isNone then
      .error (.argumentMismatch p.op)
    match jumpTarget? p.op arg i.next with
    | none => return none
    | some target =>
      if (starts[target]?.join).isNone then .error (.badJumpTarget i.ip target)
      return p.op.blockKind?.map fun kind => ⟨i.next, target, target, kind⟩

/-- The number of parameters, the collecting ones included. -/
def totalArgs (p : CodeParts) : Nat :=
  p.argcount + (p.flags.contains .varargs).toNat + (p.flags.contains .varkeywords).toNat

/-- The indices where control may be taken from running code: the first
    instruction of every line, and every target of a backward jump. -/
def safePointTable (size : Nat) (instrs : List Instr) : Array Bool :=
  let lineStarts := instrs.foldl (fun (s : Array Bool × Option Nat) i =>
    if s.2 = some i.line then s else (s.1.setIfInBounds i.ip true, some i.line))
    (.replicate size false, none)
  instrs.foldl (fun t i => match i.target? with
    | some target => if target ≤ i.ip then t.setIfInBounds target true else t
    | none => t) lineStarts.1

end Code

namespace CodeUnit

/-- Checks the parts of a unit and decodes its words. -/
def ofParts (id : Ref) (parts : CodeParts) : Except CodeError CodeUnit := do
  if parts.words.isEmpty then .error .empty
  let parts := { parts with lines := parts.lines.mergeSort fun a b => a.1 ≤ b.1 }
  let instrs ← Code.instrsFrom parts.words (Code.lineOf parts.firstLine parts.lines) 0
  let starts := Code.startTable parts.words.size instrs
  let total := Code.totalArgs parts
  if parts.varnames.size < total then .error (.indexOutOfBounds total parts.varnames.size)
  let handlers ← instrs.mapM fun i => i.prims.mapM (Code.checkPrimitive parts starts i)
  let handlers := handlers.flatten.filterMap fun h => h
  let flags := parts.flags
    |>.addIf (handlers.any (·.kind != .loop)) .blockstack
    |>.addIf (parts.cellvars.size + parts.freevars.size == 0) .nofree
    |>.addIf (instrs.any (·.op == .yieldValue)) .generator
  let params := (parts.varnames.extract 0 total).toList
  return {
    toCodeParts := { parts with flags }
    id
    instrs := instrs.toArray
    instrOf := starts
    cell2arg := parts.cellvars.toList.map fun c => params.findIdx? (· == c)
    handlers
    safePoints := Code.safePointTable parts.words.size instrs }

variable (u : CodeUnit)

/-- Whether calling the unit makes a generator. -/
def isGenerator : Bool := u.flags.contains .generator

/-- The number of cells of a frame: cell variables and free variables. -/
def cellCount : Nat := u.cellvars.size + u.freevars.size

/-- The name of a cell: the cell variables come first, then the free
    variables. -/
def cellName? (i : Nat) : Option String :=
  if i < u.cellvars.size then u.cellvars[i]? else u.freevars[i - u.cellvars.size]?

/-- The instruction that starts at an index. -/
def instrAt? (ip : Nat) : Option Instr := u.instrOf[ip]?.join.bind (u.instrs[·]?)

/-- Whether an instruction starts at an index. -/
def isInstrStart (ip : Nat) : Bool := (u.instrAt? ip).isSome

/-- The source line in force at an index. -/
def lineFor (ip : Nat) : Nat := Code.lineOf u.firstLine u.lines ip

/-- Whether running code may be left at an index. -/
def isSafePoint (ip : Nat) : Bool := u.safePoints[ip]?.getD false

/-- Whether a source line starts at an index. -/
def isLineStart (ip : Nat) : Bool :=
  match u.instrOf[ip]?.join with
  | none => false
  | some 0 => true
  | some (k + 1) => (u.instrs[k]?.map (·.line)) != (u.instrs[k + 1]?.map (·.line))

/-- The index after the last instruction. -/
def stop : Nat := (u.instrs.back?.map Instr.next).getD 0

end CodeUnit

end TieredMachine
