/-
  Subscription of built-in containers.

  * `subscript`: the value at an index or of a slice;
  * `setItem`, `deleteItem`: assignment to an index or a slice, and deletion.

  An index of a sequence counts from the end when it is negative.
-/
import TieredMachine.Operation.Iteration
import TieredMachine.Sequence.Slice

namespace TieredMachine

/-! ## Positions -/

/-- The position that an index names in a sequence of `len` items; `what` is the
    sequence in messages. -/
def positionOf (index : Value) (len : Nat) (what : String) : Exec Nat := do
  match index.asInt? with
  | none => typeError s!"{what} indices must be integers, not {index.typeName}"
  | some i =>
    match Sequence.position? i len with
    | some p => return p
    | none => indexError s!"{what} index out of range"

/-- A bound of a slice. -/
def sliceBound (v : Value) : Exec (Option Int64) := do
  match v, v.asInt? with
  | .none, _ => return none
  | _, some i => return some i
  | _, none => typeError "slice indices must be integers or None"

/-- The step of a slice. -/
def sliceStep (s : SliceObj) : Exec Int64 := do
  let step := (← sliceBound s.step).getD 1
  if step = 0 then valueError "slice step cannot be zero" else return step

/-- The positions that a slice selects in a sequence of `len` items. -/
def spanOf (s : SliceObj) (len : Nat) : Exec Sequence.Span := do
  let step ← sliceStep s
  let start ← sliceBound s.start
  let stop ← sliceBound s.stop
  return .of start stop step len

/-! ## Reading -/

/-- The items of a sequence that a slice selects. -/
def pickSlice {α : Type} (s : SliceObj) (items : Array α) : Exec (Array α) :=
  return Sequence.pick items (← spanOf s items.size).positions

/-- The item of a sequence at an index. -/
def itemAt (items : Array Value) (index : Value) (what : String) : Exec Value :=
  return items[← positionOf index items.size what]?.getD .none

/-- The value at an index or of a slice of a built-in container; other values
    answer `NotImplemented`. -/
def subscript (container index : Value) : Exec Value := do
  let h ← heap
  match container, index with
  | .list r, .slice s => do
    let items ← pickSlice (h.slice s) (h.list r)
    alloc (·.newList items)
  | .tuple r, .slice s => do
    let items ← pickSlice (h.slice s) (h.tuple r)
    alloc (·.newTuple items)
  | .str t, .slice s => return .str (.ofList (← pickSlice (h.slice s) t.toList.toArray).toList)
  | .list r, index => itemAt (h.list r) index "list"
  | .tuple r, index => itemAt (h.tuple r) index "tuple"
  | .str t, index =>
    let chars := t.toList.toArray
    let p ← positionOf index chars.size "string"
    return .str ((chars[p]?.map Char.toString).getD "")
  | .dict r, index =>
    match ← dictGet? r index with
    | some v => return v
    | none => raiseWith .keyError [index]
  | _, _ => return .notImplemented

/-! ## Changing -/

/-- Replaces the items of a list that a slice selects by those of a value. -/
def assignSlice (g : Guest) (r : Ref) (s : SliceObj) (v : Value) : Exec Unit := do
  let new ← collect g v
  let span ← spanOf s ((← heap).list r).size
  if span.step = 1 then
    modifyList r fun items => Sequence.splice items span.start.toNat span.count new.toArray
  else if new.length ≠ span.count then
    valueError <| s!"attempt to assign sequence of size {new.length} " ++
      s!"to extended slice of size {span.count}"
  else modifyList r fun items => Sequence.overwrite items span.positions new

/-- Takes the items that a slice selects out of a list. -/
def deleteSlice (r : Ref) (s : SliceObj) : Exec Unit := do
  let span ← spanOf s ((← heap).list r).size
  modifyList r fun items => Sequence.erase items span.positions

/-- Assigns to an index or a slice of a container. -/
def setItem (g : Guest) (container index v : Value) : Exec Unit := do
  let unsupported : Exec Unit :=
    typeError s!"'{container.typeName}' object does not support item assignment"
  match container, index with
  | .list r, .slice s => assignSlice g r ((← heap).slice s) v
  | .list r, index => do
    let p ← positionOf index ((← heap).list r).size "list assignment"
    modifyList r (·.setIfInBounds p v)
  | .dict r, index => dictInsert r index v
  | .inst _, index =>
    match ← callSpecial g container "__setitem__" [index, v] with
    | .notImplemented => unsupported
    | _ => return
  | _, _ => unsupported

/-- Deletes an index or a slice of a container. -/
def deleteItem (g : Guest) (container index : Value) : Exec Unit := do
  let unsupported : Exec Unit :=
    typeError s!"'{container.typeName}' object does not support item deletion"
  match container, index with
  | .list r, .slice s => deleteSlice r ((← heap).slice s)
  | .list r, index => do
    let p ← positionOf index ((← heap).list r).size "list assignment"
    modifyList r (·.eraseIdxIfInBounds p)
  | .dict r, index =>
    if !(← dictErase r index) then raiseWith .keyError [index]
  | .inst _, index =>
    match ← callSpecial g container "__delitem__" [index] with
    | .notImplemented => unsupported
    | _ => return
  | _, _ => unsupported

end TieredMachine
