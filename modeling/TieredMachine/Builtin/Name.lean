/-
  The functions that are built in.

  A built-in function is a tag; what it does is said with the operations that it
  needs.  There are three groups: the functions of the builtins namespace, the
  methods of built-in types, and the knobs of the engine, which an embedding
  program lets guest code turn.
-/

namespace TieredMachine

/-- A built-in function. -/
inductive BuiltinFn where
  -- functions of the builtins namespace
  | len | range | xrange | abs | min | max | sum | int | float | str | repr | bool | list | tuple
  | iter | next | isinstance
  -- methods of lists, dicts, texts and generators
  | listAppend | listPop | listExtend | dictGet | dictKeys | dictValues | dictItems | strJoin
  | genSend | genNext | genThrow | genClose
  -- knobs of the engine
  | bail | traceOn | traceOff | emit | finished | setLevel | tier | resetTier | setBailError
  | setGlobal
  deriving DecidableEq, Repr, Inhabited

namespace BuiltinFn

/-- The functions of the builtins namespace. -/
def functions : List BuiltinFn :=
  [len, range, xrange, abs, min, max, sum, int, float, str, repr, bool, list, tuple, iter, next,
    isinstance]

/-- The knobs of the engine. -/
def knobs : List BuiltinFn :=
  [bail, traceOn, traceOff, emit, finished, setLevel, tier, resetTier, setBailError, setGlobal]

/-- The name of the function. -/
def name : BuiltinFn → String
  | len => "len"
  | range => "range"
  | xrange => "xrange"
  | abs => "abs"
  | min => "min"
  | max => "max"
  | sum => "sum"
  | int => "int"
  | float => "float"
  | str => "str"
  | repr => "repr"
  | bool => "bool"
  | list => "list"
  | tuple => "tuple"
  | iter => "iter"
  | next => "next"
  | isinstance => "isinstance"
  | listAppend => "append"
  | listPop => "pop"
  | listExtend => "extend"
  | dictGet => "get"
  | dictKeys => "keys"
  | dictValues => "values"
  | dictItems => "items"
  | strJoin => "join"
  | genSend => "send"
  | genNext => "next"
  | genThrow => "throw"
  | genClose => "close"
  | bail => "bail"
  | traceOn => "trace_on"
  | traceOff => "trace_off"
  | emit => "emit"
  | finished => "finished"
  | setLevel => "set_level"
  | tier => "tier"
  | resetTier => "reset_tier"
  | setBailError => "set_bail_error"
  | setGlobal => "set_global"

/-- The knob with a given name. -/
def ofKnobName? (s : String) : Option BuiltinFn := knobs.find? (·.name == s)

end BuiltinFn

end TieredMachine
