/-
  Values of the guest language.

  A value is a scalar held in place or a reference to an object of the heap.
  Two values are the *same* object exactly when they are equal as data: numbers
  and texts are the same when their contents agree (floats by their bits), all
  other objects when they are one object.
-/
import TieredMachine.Binary64.Basic
import TieredMachine.Value.ExceptionKind

namespace TieredMachine

/-- The number of an object in its table of the heap. -/
abbrev Ref := Nat

/-- A value. -/
inductive Value where
  | none
  | notImplemented
  | bool (b : Bool)
  | int (n : Int64)
  | float (x : Binary64)
  | str (s : String)
  | tuple (ref : Ref)
  | list (ref : Ref)
  | dict (ref : Ref)
  | slice (ref : Ref)
  | function (ref : Ref)
  | builtin (ref : Ref)
  | method (ref : Ref)
  | classObj (ref : Ref)
  | inst (ref : Ref)
  | code (ref : Ref)
  | cell (ref : Ref)
  | iterator (ref : Ref)
  | generator (ref : Ref)
  | excType (kind : ExceptionKind)
  | exception (ref : Ref)
  | traceback (ref : Ref)
  deriving DecidableEq, Repr, Inhabited, Hashable

/-- The kind of a value, which type feedback records. -/
inductive TypeTag where
  | none | notImplemented | bool | int | float | str | tuple | list | dict | slice | function
  | builtin | method | classObj | inst | code | cell | iterator | generator | excType
  | exception | traceback
  deriving DecidableEq, Repr, Inhabited

namespace TypeTag

/-- The name of the type, as the guest sees it. -/
def name : TypeTag → String
  | none => "NoneType"
  | notImplemented => "NotImplementedType"
  | bool => "bool"
  | int => "int"
  | float => "float"
  | str => "str"
  | tuple => "tuple"
  | list => "list"
  | dict => "dict"
  | slice => "slice"
  | function => "function"
  | builtin => "builtin_function_or_method"
  | method => "instancemethod"
  | classObj => "classobj"
  | inst => "instance"
  | code => "code"
  | cell => "cell"
  | iterator => "iterator"
  | generator => "generator"
  | excType => "type"
  | exception => "exception"
  | traceback => "traceback"

end TypeTag

namespace Value

/-- The kind of a value. -/
def tag : Value → TypeTag
  | none => .none
  | notImplemented => .notImplemented
  | bool _ => .bool
  | int _ => .int
  | float _ => .float
  | str _ => .str
  | tuple _ => .tuple
  | list _ => .list
  | dict _ => .dict
  | slice _ => .slice
  | function _ => .function
  | builtin _ => .builtin
  | method _ => .method
  | classObj _ => .classObj
  | inst _ => .inst
  | code _ => .code
  | cell _ => .cell
  | iterator _ => .iterator
  | generator _ => .generator
  | excType _ => .excType
  | exception _ => .exception
  | traceback _ => .traceback

/-- The name of the value's type. -/
def typeName (v : Value) : String := v.tag.name

/-- Whether two values are one object. -/
def isSame (a b : Value) : Bool := decide (a = b)

/-- The integer that a value stands for in integer operations: an integer or a
    truth value. -/
def asInt? : Value → Option Int64
  | int n => some n
  | bool b => some (if b then 1 else 0)
  | _ => Option.none

/-- The number that a value stands for in float operations. -/
def asFloat? : Value → Option Binary64
  | float x => some x
  | v => v.asInt?.map Binary64.ofInt64

/-- The number that tells objects apart in feedback on callees.  Scalars have
    small numbers of their own, which may coincide across types. -/
inductive Identity where
  | scalar (n : UInt64)
  | object (v : Value)
  deriving DecidableEq, Repr, Inhabited

/-- What tells a callee apart from others. -/
def identity : Value → Identity
  | none => .scalar 0
  | notImplemented => .scalar 1
  | bool b => .scalar (if b then 3 else 2)
  | int n => .scalar n.toUInt64
  | float x => .scalar x.bits
  | excType k => .scalar (.ofNat k.index)
  | v => .object v

end Value

end TieredMachine
