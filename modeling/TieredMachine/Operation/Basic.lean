/-
  Operations that every type of value has a part in.

  * `truthOf`, `keyOf`: the truth value and the dictionary key of a value;
  * `callSpecial`: a special method of an instance.
-/
import TieredMachine.Machine.Activation
import TieredMachine.Heap.Truth

namespace TieredMachine

/-- Raises a type error. -/
def typeError {α : Type} (message : String) : Exec α := raise .typeError message

/-- Raises a value error. -/
def valueError {α : Type} (message : String) : Exec α := raise .valueError message

/-- Raises an index error. -/
def indexError {α : Type} (message : String) : Exec α := raise .indexError message

/-- Whether a value counts as true. -/
def truthOf (v : Value) : Exec Bool := return (← heap).truth v

/-- The dictionary key of a value. -/
def keyOf (v : Value) : Exec Key := do
  match (← heap).key v with
  | .ok k => return k
  | .error tag => typeError s!"unhashable type: '{tag.name}'"

/-- The attribute of an instance's class with a given name. -/
def Heap.classAttr? (h : Heap) (inst : Ref) (name : String) : Option Value :=
  (h.classObj (h.inst inst).classRef).attrs[name]?

/-- Calls a special method of a value, with the value as the first argument.  A
    value that is no instance, or whose class has no such method, answers
    `NotImplemented`. -/
def callSpecial (g : Guest) (receiver : Value) (name : String) (args : List Value) :
    Exec Value := do
  match receiver with
  | .inst r =>
    match (← heap).classAttr? r name with
    | some method => g.call method (receiver :: args) []
    | none => return .notImplemented
  | _ => return .notImplemented

/-! ## Dictionaries -/

/-- The value of a key in a dictionary. -/
def dictGet? (r : Ref) (key : Value) : Exec (Option Value) := do
  let k ← keyOf key
  return ((← heap).dict r).get? k

/-- Whether a dictionary has a key. -/
def dictContains (r : Ref) (key : Value) : Exec Bool := do
  let k ← keyOf key
  return ((← heap).dict r).contains k

/-- Sets the value of a key in a dictionary. -/
def dictInsert (r : Ref) (key value : Value) : Exec Unit := do
  let k ← keyOf key
  modifyHeap fun h => { h with dicts := h.dicts.modify r (·.insert k key value) }

/-- Erases a key of a dictionary; answers whether it was there. -/
def dictErase (r : Ref) (key : Value) : Exec Bool := do
  let k ← keyOf key
  let found := ((← heap).dict r).contains k
  modifyHeap fun h => { h with dicts := h.dicts.modify r (·.erase k) }
  return found

/-! ## Lists -/

/-- Changes the items of a list. -/
def modifyList (r : Ref) (f : Array Value → Array Value) : Exec Unit :=
  modifyHeap fun h => { h with lists := h.lists.modify r f }

/-- A new list. -/
def newList (items : List Value) : Exec Value := alloc (·.newList items.toArray)

/-- A new tuple. -/
def newTuple (items : List Value) : Exec Value := alloc (·.newTuple items.toArray)

end TieredMachine
