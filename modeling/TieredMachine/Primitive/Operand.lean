/-
  Primitives that work on the stack, variables, attributes and containers.

  Each of them hands on to the next primitive.  What it pops is gone also when it
  fails later.

  * `rotate`, `duplicate`: the stack;
  * `loadConst`, `loadGlobal`, …: constants, names and cells;
  * `storeMap`, `listAppend`, `unpack`, `sliceOf`: containers.
-/
import TieredMachine.Operation.Comparison
import TieredMachine.Operation.Attribute
import TieredMachine.Run.Unwind

namespace TieredMachine

/-- The value of a global name: the globals are searched first, then the
    builtins. -/
def Heap.lookupGlobal? (h : Heap) (globals builtins : Ref) (name : String) : Option Value :=
  match (h.space globals).get? name with
  | some v => some v
  | none => (h.space builtins).get? name

namespace Primitive

/-! ## The stack -/

/-- Moves the topmost value down below `n - 1` others. -/
def rotate (site : Site) (n : Nat) : FrameExec Unit := do
  match (← frame).stack with
  | top :: rest =>
    if rest.length + 1 < n then throw (.stackUnderflow site.ip)
    modifyFrame fun f => { f with stack := rest.take (n - 1) ++ top :: rest.drop (n - 1) }
  | [] => throw (.stackUnderflow site.ip)

/-- Pushes the topmost `n` values once more. -/
def duplicate (site : Site) (n : Nat) : FrameExec Unit := do
  if (← frame).stack.length < n then throw (.stackUnderflow site.ip)
  modifyFrame fun f => { f with stack := f.stack.take n ++ f.stack }

/-! ## Constants and names -/

/-- Pushes a constant. -/
def loadConst (i : Nat) : FrameExec Unit := do
  match (← frame).code.consts[i]? with
  | some v => push v
  | none => throw (.invalidConstant i)

/-- A name of the unit. -/
def nameAt (i : Nat) : FrameExec String := do
  match (← frame).code.names[i]? with
  | some name => return name
  | none => throw (.invalidName i)

/-- Raises the error for a global name without a value. -/
def undefinedGlobal {α : Type} (name : String) : Exec α :=
  raise .nameError s!"global name '{name}' is not defined"

/-- Pushes the value of a global name. -/
def loadGlobal (i : Nat) : FrameExec Unit := do
  let name ← nameAt i
  let f ← frame
  match (← heap).lookupGlobal? f.globals f.builtins name with
  | some v => push v
  | none => undefinedGlobal name

/-- Sets a global name to the topmost value. -/
def storeGlobal (i : Nat) : FrameExec Unit := do
  let name ← nameAt i
  let v ← pop
  let globals := (← frame).globals
  onMachine (modify (·.mapSpace globals (·.set name v)))

/-- Deletes a global name. -/
def deleteGlobal (i : Nat) : FrameExec Unit := do
  let name ← nameAt i
  let globals := (← frame).globals
  if ((← heap).space globals).contains name then
    onMachine (modify (·.mapSpace globals (·.erase name)))
  else undefinedGlobal name

/-! ## Cells -/

/-- Pushes a cell. -/
def loadClosure (i : Nat) : FrameExec Unit := do push (.cell (← cellRef i))

/-- Raises the error for an empty cell. -/
def emptyCell {α : Type} (u : CodeUnit) (i : Nat) : Exec α :=
  let name := (u.cellName? i).getD "?"
  if i < u.cellvars.size then unboundLocal name
  else raise .nameError <|
    s!"free variable '{name}' referenced before assignment in enclosing scope"

/-- Pushes the content of a cell. -/
def loadDeref (i : Nat) : FrameExec Unit := do
  let c ← cellRef i
  match (← heap).cell c with
  | some v => push v
  | none => emptyCell (← frame).code i

/-- Sets the content of a cell to the topmost value. -/
def storeDeref (i : Nat) : FrameExec Unit := do
  let v ← pop
  let c ← cellRef i
  modifyHeap fun h => { h with cells := h.cells.setIfInBounds c (some v) }

/-! ## Attributes and operators -/

/-- Replaces the topmost value by an attribute of it. -/
def loadAttr (g : Guest) (i : Nat) : FrameExec Unit := do
  let name ← nameAt i
  let v ← pop
  push (← getAttr g v name)

/-- Assigns to an attribute of the topmost value. -/
def storeAttr (i : Nat) : FrameExec Unit := do
  let name ← nameAt i
  let v ← pop
  let a ← pop
  setAttr v name a

/-- Deletes an attribute of the topmost value. -/
def dropAttr (i : Nat) : FrameExec Unit := do
  let name ← nameAt i
  let v ← pop
  deleteAttr v name

/-- Replaces the topmost value by the answer of a unary operator. -/
def applyUnary (g : Guest) (op : UnaryOp) : FrameExec Unit := do
  let v ← pop
  push (← unary g op v)

/-- Changes the feedback of the unit that a frame runs. -/
def report (change : Feedback → Feedback) : FrameExec Unit := do
  let unit := (← frame).code.id
  onMachine (modify (·.mapFeedback unit change))

/-- Replaces the two topmost values by the answer of a binary operator.  The types
    of the operands are recorded when `recording`. -/
def applyBinary (g : Guest) (site : Site) (recording : Bool)
    (operator : Guest → BinaryOp → Value → Value → Exec Value) (op : BinaryOp) :
    FrameExec Unit := do
  let b ← pop
  let a ← pop
  if recording then report (·.recordOperands site a b)
  push (← operator g op a b)

/-- Replaces the two topmost values by the answer of a comparison. -/
def applyCompare (g : Guest) (arg : Nat) : FrameExec Unit := do
  match CmpOp.ofArg? arg with
  | none => throw (.runtime (.badComparison arg))
  | some op =>
    let b ← pop
    let a ← pop
    push (← compare g op a b)

/-! ## Containers -/

/-- Assigns to an index. -/
def storeSubscr (g : Guest) : FrameExec Unit := do
  let index ← pop
  let container ← pop
  let v ← pop
  setItem g container index v

/-- Deletes an index. -/
def deleteSubscr (g : Guest) : FrameExec Unit := do
  let index ← pop
  let container ← pop
  deleteItem g container index

/-- Makes a tuple of the topmost values. -/
def buildTuple (n : Nat) : FrameExec Unit := do
  let items ← popN n
  push (← newTuple items)

/-- Makes a list of the topmost values. -/
def buildList (n : Nat) : FrameExec Unit := do
  let items ← popN n
  push (← newList items)

/-- Makes an empty dictionary. -/
def buildMap : FrameExec Unit := do
  push (← alloc (·.newDict {}))

/-- Makes a slice of the two or three topmost values. -/
def buildSlice (n : Nat) : FrameExec Unit := do
  let step ← match n with
    | 2 => pure Value.none
    | 3 => pop
    | n => throw (.runtime (.badSliceCount n))
  let stop ← pop
  let start ← pop
  push (← alloc (·.newSlice ⟨start, stop, step⟩))

/-- Makes a slice of the bounds that an instruction takes from the stack. -/
def sliceOperand (bounds : Bool × Bool) : FrameExec Value := do
  let stop ← if bounds.2 then pop else pure .none
  let start ← if bounds.1 then pop else pure .none
  alloc (·.newSlice ⟨start, stop, .none⟩)

/-- Replaces the topmost value by a slice of it. -/
def loadSlice (g : Guest) (bounds : Bool × Bool) : FrameExec Unit := do
  let slice ← sliceOperand bounds
  let v ← pop
  push (← binary g .getItem v slice)

/-- Assigns to a slice. -/
def storeSlice (g : Guest) (bounds : Bool × Bool) : FrameExec Unit := do
  let slice ← sliceOperand bounds
  let container ← pop
  let v ← pop
  setItem g container slice v

/-- Deletes a slice. -/
def dropSlice (g : Guest) (bounds : Bool × Bool) : FrameExec Unit := do
  let slice ← sliceOperand bounds
  let container ← pop
  deleteItem g container slice

/-- Adds an entry to the dictionary below a value and its key. -/
def storeMap : FrameExec Unit := do
  let key ← pop
  let v ← pop
  match ← peek 0 with
  | .dict r => dictInsert r key v
  | other => throw (.runtime (.storeMapOn other.typeName))

/-- Appends the topmost value to the list that is `n` places below it. -/
def appendTo (n : Nat) : FrameExec Unit := do
  let v ← pop
  match ← peek (max n 1 - 1) with
  | .list r => modifyList r (·.push v)
  | other => throw (.runtime (.listAppendOn other.typeName))

/-- Replaces the topmost value by its `n` items, the first one topmost. -/
def unpack (g : Guest) (n : Nat) : FrameExec Unit := do
  let v ← pop
  let items ← collect g v
  let count := items.length
  if count < n then
    let s := if count = 1 then "" else "s"
    onMachine (valueError s!"need more than {count} value{s} to unpack")
  else if n < count then onMachine (valueError "too many values to unpack")
  else modifyFrame fun f => { f with stack := items ++ f.stack }

/-- Replaces the topmost value by its iterator. -/
def getIter (g : Guest) : FrameExec Unit := do
  let v ← pop
  push (← iterate g v)

end Primitive

end TieredMachine
