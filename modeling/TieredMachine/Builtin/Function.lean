/-
  The functions of the builtins namespace.

  Each function takes its arguments as a list, checks how many there are, and
  works on them.

  * `exactly`, `atLeast`, `between`, `intArg`: checking arguments;
  * `lenOf`, `rangeList`, `extremum`, `sumOf`, …: the functions.
-/
import TieredMachine.Operation.Comparison
import TieredMachine.Operation.Attribute

namespace TieredMachine

namespace BuiltinFn

/-! ## Arguments -/

/-- Raises the error for a wrong number of arguments. -/
def arityError {α : Type} (name expected : String) (one : Bool) (given : Nat) : Exec α :=
  let s := if one then "" else "s"
  typeError s!"{name}() takes {expected} argument{s} ({given} given)"

/-- Checks that there are exactly `n` arguments. -/
def exactly (name : String) (n : Nat) (args : List Value) : Exec Unit := do
  if args.length ≠ n then arityError name s!"exactly {n}" (n == 1) args.length

/-- Checks that there are at least `low` arguments. -/
def atLeast (name : String) (low : Nat) (args : List Value) : Exec Unit := do
  if args.length < low then arityError name s!"at least {low}" false args.length

/-- Checks that there are from `low` to `high` arguments. -/
def between (name : String) (low high : Nat) (args : List Value) : Exec Unit := do
  atLeast name low args
  if high < args.length then arityError name s!"at most {high}" false args.length

/-- The integer that an argument is. -/
def intArg (name : String) (v : Value) : Exec Int64 := do
  match v.asInt? with
  | some n => return n
  | none => typeError s!"{name}() integer argument expected, got {v.typeName}"

/-! ## Sequences -/

/-- The number of items of a value. -/
def lenOf (args : List Value) : Exec Value := do
  exactly "len" 1 args
  let h ← heap
  let answer (n : Nat) : Exec Value := return .int (.ofNat n)
  match args with
  | [.str s] => answer s.length
  | [.tuple r] => answer (h.tuple r).size
  | [.list r] => answer (h.list r).size
  | [.dict r] => answer (h.dict r).size
  | args => typeError s!"object of type '{(args.headD .none).typeName}' has no len()"

/-- The progression that the arguments of `range` or `xrange` describe. -/
def rangeOf (name : String) (args : List Value) : Exec Range := do
  between name 1 3 args
  let bounds ← args.mapM (intArg name)
  let r : Range := match bounds with
    | [stop] => ⟨0, stop, 1⟩
    | [start, stop] => ⟨start, stop, 1⟩
    | [start, stop, step] => ⟨start, stop, step⟩
    | _ => ⟨0, 0, 1⟩
  if r.step = 0 then valueError s!"{name}() step argument must not be zero" else return r

/-- The items of a progression, as a list. -/
def rangeList (args : List Value) : Exec Value := do
  newList ((← rangeOf "range" args).toList.map Value.int)

/-- The items of a progression, as an iterator. -/
def rangeIterator (args : List Value) : Exec Value := do
  let r ← rangeOf "xrange" args
  alloc (·.newIterator (.range r))

/-- The first of some values that no later one beats. -/
def best (g : Guest) (op : CmpOp) : Value → List Value → Exec Value
  | v, [] => return v
  | v, w :: rest => do
    if ← truthOf (← compare g op w v) then best g op w rest else best g op v rest

/-- The least or the greatest of the arguments, or of the items of the only
    one. -/
def extremum (g : Guest) (name : String) (op : CmpOp) (args : List Value) : Exec Value := do
  atLeast name 1 args
  let items ← match args with
    | [v] => collect g v
    | args => pure args
  match items with
  | [] => valueError s!"{name}() arg is an empty sequence"
  | v :: rest => best g op v rest

/-- The sum of the items of a value, from a start value on. -/
def sumOf (g : Guest) (args : List Value) : Exec Value := do
  between "sum" 1 2 args
  match args with
  | v :: start =>
    let items ← collect g v
    items.foldlM (binary g .add) (start.headD (.int 0))
  | [] => return .none

/-! ## Numbers -/

/-- The absolute value. -/
def absOf (g : Guest) (args : List Value) : Exec Value := do
  exactly "abs" 1 args
  match args with
  | [.float x] => return .float x.abs
  | args =>
    let v := args.headD .none
    match v.asInt? with
    | some n => return .int (← ofArith (Integer.absolute n))
    | none => unary g .pos v

/-- A value as an integer; a float loses its fraction, a text is read. -/
def toInt (args : List Value) : Exec Value := do
  between "int" 0 1 args
  match args with
  | [] => return .int 0
  | .float x :: _ =>
    if x.isFinite && x.abs.flt (Binary64.ofFloat 9.2e18) then return .int x.toInt64
    else raise .overflowError "cannot convert float to integer"
  | .str s :: _ =>
    match Integer.ofText? (Text.trim s) with
    | some n => return .int n
    | none => valueError <|
      "invalid literal for int() with base 10: " ++ Text.quote s
  | v :: _ =>
    match v.asInt? with
    | some n => return .int n
    | none =>
      typeError s!"int() argument must be a string or a number, not '{v.typeName}'"

/-- A value as a float; a text is read. -/
def toFloat (args : List Value) : Exec Value := do
  between "float" 0 1 args
  match args with
  | [] => return .float .zero
  | .str s :: _ =>
    match Binary64.ofText? (Text.trim s) with
    | some x => return .float x
    | none => valueError s!"could not convert string to float: {s}"
  | v :: _ =>
    match v.asFloat? with
    | some x => return .float x
    | none =>
      typeError s!"float() argument must be a string or a number, not '{v.typeName}'"

/-! ## Conversions -/

/-- A value as a text. -/
def toStr (args : List Value) : Exec Value := do
  between "str" 0 1 args
  let h ← heap
  match args with
  | [] => return .str ""
  | v :: _ => return .str (h.display v)

/-- The written form of a value. -/
def toRepr (args : List Value) : Exec Value := do
  exactly "repr" 1 args
  return .str ((← heap).repr (args.headD .none))

/-- The truth value of a value. -/
def toBool (args : List Value) : Exec Value := do
  between "bool" 0 1 args
  match args with
  | [] => return .bool false
  | v :: _ => return .bool (← truthOf v)

/-- The items of a value, as a new list. -/
def toList (g : Guest) (args : List Value) : Exec Value := do
  between "list" 0 1 args
  match args with
  | [] => newList []
  | v :: _ => newList (← collect g v)

/-- The items of a value, as a tuple; a tuple is its own. -/
def toTuple (g : Guest) (args : List Value) : Exec Value := do
  between "tuple" 0 1 args
  match args with
  | [] => newTuple []
  | .tuple r :: _ => return .tuple r
  | v :: _ => newTuple (← collect g v)

/-! ## Iterators and classes -/

/-- The iterator of a value. -/
def iterOf (g : Guest) (args : List Value) : Exec Value := do
  exactly "iter" 1 args
  iterate g (args.headD .none)

/-- The next item of an iterator, or the default when there is none left. -/
def nextOf (g : Guest) (args : List Value) : Exec Value := do
  between "next" 1 2 args
  match ← advance? g (args.headD .none), args.tail with
  | some v, _ => return v
  | none, default :: _ => return default
  | none, [] => raise .stopIteration ""

/-- Whether a value is an instance of a class or of one in a tuple of
    classes. -/
def isInstanceWithin (h : Heap) : Nat → Value → Value → Bool
  | 0, _, _ => false
  | fuel + 1, v, c =>
    match v, c with
    | .inst i, .classObj r => (h.inst i).classRef = r
    | .exception e, .excType kind => (h.exception e).kind.isSubclass kind
    | v, .tuple r => (h.tuple r).any (isInstanceWithin h fuel v)
    | _, _ => false

/-- Whether a value is an instance of a class. -/
def isInstance (args : List Value) : Exec Value := do
  exactly "isinstance" 2 args
  let h ← heap
  match args with
  | [v, c] => return .bool (isInstanceWithin h (h.depth + 1) v c)
  | _ => return .none

end BuiltinFn

end TieredMachine
