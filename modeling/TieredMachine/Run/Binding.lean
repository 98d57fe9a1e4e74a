/-
  Binding arguments to parameters.

  Positional arguments fill the parameters in order, keyword arguments fill them
  by name, and defaults fill the last ones that are left.  Surplus arguments go
  into a tuple or a dictionary, if the unit has a place for them.

  * `bindParameters`: the binding as data;
  * `frameFor`: the frame of a call.
-/
import TieredMachine.Operation.Basic

namespace TieredMachine

/-! ## Parameters -/

/-- Why arguments do not fit parameters. -/
inductive BindError where
  /-- too many or too few of them -/
  | count
  /-- a parameter that is filled twice -/
  | twice (name : String)
  /-- a keyword that names no parameter -/
  | unexpected (name : String)
  deriving DecidableEq, Repr

/-- Arguments bound to parameters. -/
structure Binding where
  /-- the value of each parameter -/
  params : Array (Option Value)
  /-- surplus positional arguments -/
  rest : List Value := []
  /-- surplus keyword arguments, in order -/
  keywords : List (String × Value) := []
  deriving Repr, Inhabited

namespace Binding

/-- Fills the parameters in order. -/
def positional (count : Nat) (args : List Value) : Binding :=
  { params := ((args.take count).map some ++ List.replicate (count - args.length) none).toArray
    rest := args.drop count }

/-- Fills a parameter by name, or keeps a surplus keyword when `collecting`. -/
def keyword (names : List String) (collecting : Bool) (b : Binding) (arg : String × Value) :
    Except BindError Binding :=
  match names.findIdx? (· == arg.1) with
  | some i =>
    if (b.params[i]?.join).isSome then .error (.twice arg.1)
    else .ok { b with params := b.params.setIfInBounds i (some arg.2) }
  | none =>
    if collecting then .ok { b with keywords := b.keywords ++ [arg] }
    else .error (.unexpected arg.1)

/-- Fills the parameters that are left with defaults, which belong to the last
    parameters. -/
def fillDefaults (defaults : Array Value) (b : Binding) : Except BindError Binding := do
  let first := b.params.size - defaults.size
  let params ← b.params.toList.zipIdx.mapM fun p =>
    match p.1 with
    | some v => .ok (some v)
    | none =>
      if first ≤ p.2 then .ok defaults[p.2 - first]? else .error BindError.count
  return { b with params := params.toArray }

end Binding

/-- Binds arguments to the parameters of a unit. -/
def bindParameters (u : CodeUnit) (defaults : Array Value) (args : List Value)
    (kwargs : List (String × Value)) : Except BindError Binding := do
  let b := Binding.positional u.argcount args
  if !b.rest.isEmpty && !u.flags.contains .varargs then .error .count
  let names := (u.varnames.extract 0 u.argcount).toList
  let b ← kwargs.foldlM (Binding.keyword names (u.flags.contains .varkeywords)) b
  b.fillDefaults defaults

/-- The wording for a wrong number of arguments. -/
def countMessage (func : Function) (u : CodeUnit) (given : Nat) : String :=
  let flexible := !func.defaults.isEmpty || u.flags.contains .varargs
  let (quantifier, expected) :=
    if flexible then
      if given < u.argcount then ("at least", u.argcount - func.defaults.size)
      else ("at most", u.argcount)
    else ("exactly", u.argcount)
  let s := if expected = 1 then "" else "s"
  s!"{func.name}() takes {quantifier} {expected} argument{s} ({given} given)"

/-- The wording for arguments that do not fit. -/
def BindError.message (func : Function) (u : CodeUnit) (given : Nat) : BindError → String
  | count => countMessage func u given
  | twice name => s!"{func.name}() got multiple values for keyword argument '{name}'"
  | unexpected name => s!"{func.name}() got an unexpected keyword argument '{name}'"

/-! ## Frames -/

/-- A frame of a unit that has not begun, with its own cells empty. -/
def newFrame (u : CodeUnit) (globals : Ref) : Exec Frame := do
  let builtins := (← get).builtins
  let cells ← u.cellvars.mapM fun _ => alloc (·.newCell none)
  return { code := u, globals, builtins, locals := .replicate u.varnames.size none, cells }

/-- Local variables with the surplus arguments in their places. -/
def placeSurplus (u : CodeUnit) (b : Binding) (locals : Array (Option Value)) :
    Exec (Array (Option Value)) := do
  let mut locals := locals
  let mut slot := u.argcount
  if u.flags.contains .varargs then
    locals := locals.setIfInBounds slot (some (← newTuple b.rest))
    slot := slot + 1
  if u.flags.contains .varkeywords then
    let d := b.keywords.foldl (fun d p => d.insert (.str p.1) (.str p.1) p.2) ({} : Dict)
    locals := locals.setIfInBounds slot (some (← alloc (·.newDict d)))
  return locals

/-- Gives the cells that stand for parameters the values of these. -/
def fillCells (f : Frame) : Exec Unit :=
  (f.cells.toList.zip f.code.cell2arg).forM fun p =>
    match p.2.bind (f.locals[·]?.join) with
    | some v => modifyHeap fun h => { h with cells := h.cells.setIfInBounds p.1 (some v) }
    | none => pure ()

/-- The frame of a call of a function. -/
def frameFor (func : Function) (args : List Value) (kwargs : List (String × Value)) :
    Exec Frame := do
  let u := (← heap).unit func.code
  match bindParameters u func.defaults args kwargs with
  | .error e => typeError (e.message func u (args.length + kwargs.length))
  | .ok b =>
    let f ← newFrame u func.globals
    let params := b.params.zipIdx.foldl (fun ls p => ls.setIfInBounds p.2 p.1) f.locals
    let f := { f with locals := ← placeSurplus u b params }
    fillCells f
    return { f with cells := f.cells ++ func.closure }

end TieredMachine
