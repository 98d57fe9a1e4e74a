/-
  Attributes.

  * `getAttr`: the value of an attribute;
  * `setAttr`, `deleteAttr`: assignment to an attribute, and deletion.

  An instance is asked before its class.  A function found in the class is
  bound to the instance; when neither has the attribute, the hook `__getattr__`
  of the class is called.
-/
import TieredMachine.Operation.Basic

namespace TieredMachine

/-- Raises the error for an attribute that a value does not have. -/
def noAttribute {α : Type} (v : Value) (name : String) : Exec α := do
  let h ← heap
  let owner := match v with
    | .inst r => s!"{(h.classObj (h.inst r).classRef).name} instance"
    | .classObj r => s!"class {(h.classObj r).name}"
    | v => s!"'{v.typeName}' object"
  raise .attributeError s!"{owner} has no attribute '{name}'"

/-- A function bound to its first argument. -/
def bindTo (receiver func : Value) : Exec Value := alloc (·.newMethod ⟨receiver, func⟩)

/-- The method of a built-in type with a given name. -/
def builtinMethod? (v : Value) (name : String) : Option BuiltinFn :=
  match v, name with
  | .list _, "append" => some .listAppend
  | .list _, "pop" => some .listPop
  | .list _, "extend" => some .listExtend
  | .dict _, "get" => some .dictGet
  | .dict _, "keys" => some .dictKeys
  | .dict _, "values" => some .dictValues
  | .dict _, "items" => some .dictItems
  | .str _, "join" => some .strJoin
  | .generator _, "send" => some .genSend
  | .generator _, "next" => some .genNext
  | .generator _, "throw" => some .genThrow
  | .generator _, "close" => some .genClose
  | _, _ => none

/-- An attribute that an instance takes from its class. -/
def classAttribute (g : Guest) (inst : Value) (r : Ref) (name : String) : Exec Value := do
  let h ← heap
  match h.classAttr? r name with
  | some (.function f) => bindTo inst (.function f)
  | some (.builtin f) => bindTo inst (.builtin f)
  | some v => return v
  | none =>
    match h.classAttr? r "__getattr__" with
    | some hook => g.call hook [inst, .str name] []
    | none => noAttribute inst name

/-- The value of an attribute. -/
def getAttr (g : Guest) (v : Value) (name : String) : Exec Value := do
  let h ← heap
  match v with
  | .inst r =>
    match (h.inst r).attrs[name]? with
    | some a => return a
    | none => classAttribute g v r name
  | .classObj r =>
    match (h.classObj r).attrs[name]? with
    | some a => return a
    | none => noAttribute v name
  | .exception r =>
    match name with
    | "args" => alloc (·.newTuple (h.exception r).args)
    | "message" => return .str (h.message r)
    | _ => noAttribute v name
  | .function r =>
    match name with
    | "__name__" => return .str (h.function r).name
    | "__code__" | "func_code" => return .code (h.function r).code
    | _ => noAttribute v name
  | v =>
    match builtinMethod? v name with
    | some fn => do bindTo v (← alloc (·.newBuiltin fn))
    | none => noAttribute v name

/-- Assigns to an attribute. -/
def setAttr (v : Value) (name : String) (a : Value) : Exec Unit := do
  match v with
  | .inst r => modifyHeap fun h =>
    { h with instances := h.instances.modify r fun i =>
      { i with attrs := i.attrs.insert name a } }
  | .classObj r => modifyHeap fun h =>
    { h with classes := h.classes.modify r fun c =>
      { c with attrs := c.attrs.insert name a } }
  | v => noAttribute v name

/-- Deletes an attribute. -/
def deleteAttr (v : Value) (name : String) : Exec Unit := do
  let h ← heap
  match v with
  | .inst r =>
    if (h.inst r).attrs.contains name then
      modifyHeap fun h => { h with instances := h.instances.modify r fun i =>
        { i with attrs := i.attrs.erase name } }
    else noAttribute v name
  | .classObj r =>
    if (h.classObj r).attrs.contains name then
      modifyHeap fun h => { h with classes := h.classes.modify r fun c =>
        { c with attrs := c.attrs.erase name } }
    else noAttribute v name
  | v => noAttribute v name

end TieredMachine
