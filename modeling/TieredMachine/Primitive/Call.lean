/-
  Primitives that call and that make functions.

  A call finds on the stack the callee, the positional arguments, the keyword
  arguments as names and values in turn, and at last a sequence and a mapping to
  unpack.  Its argument holds both counts, each in one byte.
-/
import TieredMachine.Primitive.Control

namespace TieredMachine

namespace Primitive

/-! ## Arguments -/

/-- The number of positional arguments in the argument of a call. -/
def positionalCount (arg : Nat) : Nat := arg % 256

/-- The number of keyword arguments in the argument of a call. -/
def keywordCount (arg : Nat) : Nat := arg / 256 % 256

/-- Raises the error for a keyword that is no text. -/
def badKeyword {α : Type} : Exec α := typeError "keywords must be strings"

/-- Names and values in turn, as pairs. -/
def keywordPairs : List Value → Exec (List (String × Value))
  | .str name :: v :: rest => return (name, v) :: (← keywordPairs rest)
  | _ :: _ :: _ => badKeyword
  | _ => return []

/-- The positional arguments from an unpacked sequence. -/
def unpackedArguments (g : Guest) (sequence : Value) : Exec (List Value) := do
  let it ← catching .typeError (iterate g sequence) <|
    typeError s!"argument after * must be an iterable, not {sequence.typeName}"
  collect g it

/-- Keyword arguments with the entries of a dictionary added. -/
def addKeywords (kwargs : List (String × Value)) :
    List (Value × Value) → Exec (List (String × Value))
  | [] => return kwargs
  | (.str name, v) :: rest =>
    if kwargs.any (·.1 == name) then
      typeError s!"got multiple values for keyword argument '{name}'"
    else addKeywords (kwargs ++ [(name, v)]) rest
  | _ :: _ => badKeyword

/-- Keyword arguments with those of an unpacked mapping added. -/
def unpackedKeywords (kwargs : List (String × Value)) (mapping : Value) :
    Exec (List (String × Value)) := do
  match mapping with
  | .dict r => addKeywords kwargs ((← heap).dict r).toList
  | other => typeError s!"argument after ** must be a mapping, not {other.typeName}"

/-- Calls with arguments as they are on the stack. -/
def callUnpacking (g : Guest) (callee : Value) (args keywords : List Value)
    (sequence mapping : Option Value) : Exec Value := do
  let kwargs ← keywordPairs keywords
  let args ← match sequence with
    | some v => pure (args ++ (← unpackedArguments g v))
    | none => pure args
  let kwargs ← match mapping with
    | some v => unpackedKeywords kwargs v
    | none => pure kwargs
  g.call callee args kwargs

/-- Pops a value that may be missing. -/
def popIf (present : Bool) : FrameExec (Option Value) :=
  if present then some <$> pop else return none

/-- Calls.  The callee is recorded when `recording`. -/
def callFunction (g : Guest) (site : Site) (recording : Bool) (extras : Bool × Bool)
    (arg : Nat) : FrameExec Unit := do
  let mapping ← popIf extras.2
  let sequence ← popIf extras.1
  let keywords ← popN (keywordCount arg * 2)
  let args ← popN (positionalCount arg)
  let callee ← pop
  if recording then report (·.recordCallee site callee)
  push (← callUnpacking g callee args keywords sequence mapping)

/-! ## Functions -/

/-- The cells of a closure. -/
def closureCells : List Value → FrameExec (List Ref)
  | [] => return []
  | .cell c :: rest => return c :: (← closureCells rest)
  | v :: _ => throw (.runtime (.closureHolds v.typeName))

/-- Takes the cells of a closure off the stack; a plain function has none. -/
def popCells (closure : Bool) : FrameExec (List Ref) := do
  if !closure then return []
  match ← pop with
  | .tuple r => closureCells ((← heap).tuple r).toList
  | other => throw (.runtime (.closureFrom other.typeName))

/-- Makes a function of a unit and cells, with the default values on the stack. -/
def newFunctionOver (unit : Ref) (cells : List Ref) (defaultCount : Nat) : FrameExec Unit := do
  let u := (← heap).unit unit
  if cells.length ≠ u.freevars.size then
    throw (.runtime (.closureSize u.name u.freevars.size cells.length))
  let defaults ← popN defaultCount
  let globals := (← frame).globals
  push (← alloc (·.newFunction
    { name := u.name, code := unit, globals
      defaults := defaults.toArray, closure := cells.toArray }))

/-- Makes a function of code and, for a closure, a tuple of cells, with the
    default values below them. -/
def makeFunction (closure : Bool) (defaultCount : Nat) : FrameExec Unit := do
  match ← pop with
  | .code unit => newFunctionOver unit (← popCells closure) defaultCount
  | other => throw (.runtime (.functionFrom other.typeName))

end Primitive

end TieredMachine
