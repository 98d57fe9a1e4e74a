/-
  Calling values.

  A call of a function binds the arguments in a new frame and runs it, or makes a
  generator that holds the frame.  Built-in functions run at once; bound
  methods, classes and instances hand the call on.
-/
import TieredMachine.Run.Binding
import TieredMachine.Builtin.Dispatch

namespace TieredMachine

/-- Calls a guest function. -/
def callGuest (g : Guest) (func : Function) (args : List Value)
    (kwargs : List (String × Value)) : Exec Value := do
  let f ← frameFor func args kwargs
  if f.code.isGenerator then
    alloc (·.newGenerator { name := f.code.name, frame := some f })
  else
    match ← nested ((g.run .call).onNew f) with
    | .return_ v => return v
    | .yield_ _ => throw (.runtime (.yieldOutsideGenerator func.name))

/-- Makes an instance of a class; its `__init__` takes the arguments. -/
def instantiate (g : Guest) (r : Ref) (args : List Value)
    (kwargs : List (String × Value)) : Exec Value := do
  let inst ← alloc (·.newInstance { classRef := r })
  match ((← heap).classObj r).attrs["__init__"]? with
  | some init =>
    if (← g.call init (inst :: args) kwargs) ≠ .none then
      typeError "__init__() should return None"
  | none =>
    if !args.isEmpty || !kwargs.isEmpty then
      typeError "this constructor takes no arguments"
  return inst

/-- Calls a value of a heap with positional and keyword arguments. -/
def callIn (g : Guest) (h : Heap) (callee : Value) (args : List Value)
    (kwargs : List (String × Value)) : Exec Value := do
  match callee with
  | .function r => callGuest g (h.function r) args kwargs
  | .builtin r =>
    match kwargs with
    | (name, _) :: _ =>
      typeError s!"{(h.builtin r).name}() got an unexpected keyword argument '{name}'"
    | [] => (h.builtin r).run g args
  | .method r =>
    let bound := h.method r
    g.call bound.func (bound.receiver :: args) kwargs
  | .classObj r => instantiate g r args kwargs
  | .excType kind =>
    if kwargs.isEmpty then return .exception (← newException kind args)
    else typeError s!"{kind.name} does not take keyword arguments"
  | .inst r =>
    match h.classAttr? r "__call__" with
    | some method => g.call method (callee :: args) kwargs
    | none => raise .attributeError <|
      s!"{(h.classObj (h.inst r).classRef).name} instance has no __call__ method"
  | v => typeError s!"'{v.typeName}' object is not callable"

/-- Calls a value with positional and keyword arguments. -/
def callWith (g : Guest) (callee : Value) (args : List Value)
    (kwargs : List (String × Value)) : Exec Value := do
  callIn g (← heap) callee args kwargs

end TieredMachine
