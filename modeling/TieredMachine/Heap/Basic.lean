/-
  The heap of guest objects.

  Every kind of object has a table of its own; a reference is a position in the
  table of its kind, and a new object goes to the end of its table.  Objects
  that cannot change are in the heap as well, because the guest can tell two of
  them apart.

  * the object types, from `Function` to `ExceptionObj`;
  * `Heap`, with one reader per kind of object, which answers an empty object
    for a reference that is not in the table;
  * `Heap.new…`: adding an object.
-/
import TieredMachine.Frame
import TieredMachine.Heap.Dict
import TieredMachine.Integer.Range
import TieredMachine.Builtin.Name

namespace TieredMachine

/-! ## Objects -/

/-- A slice: three bounds, each meant to be an integer or `None`. -/
structure SliceObj where
  start : Value
  stop : Value
  step : Value
  deriving DecidableEq, Repr, Inhabited

/-- A guest function: code and the environment that it closes over. -/
structure Function where
  name : String
  code : Ref
  globals : Ref
  /-- the default values of the last parameters -/
  defaults : Array Value := #[]
  /-- the cells of the free variables -/
  closure : Array Ref := #[]
  deriving Inhabited

/-- A callable together with its first argument. -/
structure BoundMethod where
  receiver : Value
  func : Value
  deriving DecidableEq, Repr, Inhabited

/-- A class: a name and its attributes. -/
structure ClassObj where
  name : String
  attrs : Std.HashMap String Value := ∅
  deriving Inhabited

/-- An instance of a class. -/
structure Instance where
  classRef : Ref
  attrs : Std.HashMap String Value := ∅
  deriving Inhabited

/-- The state of an iterator. -/
inductive IterState where
  /-- a position in a list, which may grow meanwhile -/
  | list (ref : Ref) (index : Nat)
  /-- a position in items that do not change -/
  | items (items : Array Value) (index : Nat)
  /-- a progression of integers -/
  | range (r : Range)
  deriving Inhabited

/-- A generator: the frame that it resumes, none while it runs and after it has
    ended. -/
structure Generator where
  name : String
  frame : Option Frame
  running : Bool := false
  deriving Inhabited

namespace Generator

/-- Whether the generator has ended. -/
def isFinished (g : Generator) : Bool := !g.running && g.frame.isNone

end Generator

/-- A frame that an exception passed through, with its bound variables at that
    moment. -/
structure TracebackEntry where
  function : String
  line : Nat
  lasti : Nat
  locals : List (String × Value)
  deriving DecidableEq, Repr, Inhabited

/-- An exception: its class, its arguments, and the frames that it passed
    through, the innermost first. -/
structure ExceptionObj where
  kind : ExceptionKind
  args : Array Value
  traceback : Array TracebackEntry := #[]
  deriving Inhabited

/-- A table of global names. -/
structure Namespace where
  map : Std.HashMap String Value := ∅
  /-- the number of changes so far -/
  changes : Nat := 0
  deriving Inhabited

namespace Namespace

variable (n : Namespace)

/-- The version, which compiled code compares with the one that it relies on: the
    number of changes as a 64-bit word. -/
def version : UInt64 := .ofNat n.changes

/-- The value of a name. -/
def get? (name : String) : Option Value := n.map[name]?

/-- Whether a name has a value. -/
def contains (name : String) : Bool := n.map.contains name

/-- Sets the value of a name. -/
def set (name : String) (v : Value) : Namespace :=
  { map := n.map.insert name v, changes := n.changes + 1 }

/-- Erases a name; there is no change when it has no value. -/
def erase (name : String) : Namespace :=
  if n.map.contains name then { map := n.map.erase name, changes := n.changes + 1 } else n

/-- The names that have values, sorted. -/
def names : List String := n.map.keys.mergeSort fun a b => a ≤ b

/-- The namespace in diagnostics. -/
def inspect : String :=
  let names := Text.join ", " (n.names.map Text.inspect)
  "Namespace \x7b names: [" ++ names ++ s!"], version: {n.version.toNat} \x7d"

end Namespace

/-! ## The heap -/

/-- The tables of objects. -/
structure Heap where
  tuples : Array (Array Value) := #[]
  lists : Array (Array Value) := #[]
  dicts : Array Dict := #[]
  slices : Array SliceObj := #[]
  functions : Array Function := #[]
  builtins : Array BuiltinFn := #[]
  methods : Array BoundMethod := #[]
  classes : Array ClassObj := #[]
  instances : Array Instance := #[]
  units : Array CodeUnit := #[]
  cells : Array (Option Value) := #[]
  iterators : Array IterState := #[]
  generators : Array Generator := #[]
  exceptions : Array ExceptionObj := #[]
  tracebacks : Array (Array TracebackEntry) := #[]
  namespaces : Array Namespace := #[]
  deriving Inhabited

namespace Heap

variable (h : Heap) (r : Ref)

/-! ## Readers -/

/-- The items of a tuple. -/
def tuple : Array Value := h.tuples[r]?.getD #[]

/-- The items of a list. -/
def list : Array Value := h.lists[r]?.getD #[]

/-- A dictionary. -/
def dict : Dict := h.dicts[r]?.getD {}

/-- A slice. -/
def slice : SliceObj := h.slices[r]?.getD default

/-- A function; one of no code unit for a reference that is not in the table. -/
def function : Function := h.functions[r]?.getD { (default : Function) with code := h.units.size }

/-- A built-in function. -/
def builtin : BuiltinFn := h.builtins[r]?.getD default

/-- A bound method. -/
def method : BoundMethod := h.methods[r]?.getD default

/-- A class. -/
def classObj : ClassObj := h.classes[r]?.getD default

/-- An instance. -/
def inst : Instance := h.instances[r]?.getD default

/-- A code unit; an empty one with the same number for a reference that is not in
    the table. -/
def unit : CodeUnit := h.units[r]?.getD { (default : CodeUnit) with id := r }

/-- The content of a cell. -/
def cell : Option Value := h.cells[r]?.join

/-- The state of an iterator. -/
def iterator : IterState := h.iterators[r]?.getD default

/-- A generator. -/
def generator : Generator := h.generators[r]?.getD default

/-- An exception. -/
def exception : ExceptionObj := h.exceptions[r]?.getD default

/-- The entries of a traceback object. -/
def traceback : Array TracebackEntry := h.tracebacks[r]?.getD #[]

/-- A namespace. -/
def space : Namespace := h.namespaces[r]?.getD {}

/-! ## New objects -/

/-- A new tuple. -/
def newTuple (items : Array Value) : Value × Heap :=
  (.tuple h.tuples.size, { h with tuples := h.tuples.push items })

/-- A new list. -/
def newList (items : Array Value) : Value × Heap :=
  (.list h.lists.size, { h with lists := h.lists.push items })

/-- A new dictionary. -/
def newDict (d : Dict) : Value × Heap :=
  (.dict h.dicts.size, { h with dicts := h.dicts.push d })

/-- A new slice. -/
def newSlice (s : SliceObj) : Value × Heap :=
  (.slice h.slices.size, { h with slices := h.slices.push s })

/-- A new function. -/
def newFunction (f : Function) : Value × Heap :=
  (.function h.functions.size, { h with functions := h.functions.push f })

/-- A new object for a built-in function. -/
def newBuiltin (f : BuiltinFn) : Value × Heap :=
  (.builtin h.builtins.size, { h with builtins := h.builtins.push f })

/-- A new bound method. -/
def newMethod (m : BoundMethod) : Value × Heap :=
  (.method h.methods.size, { h with methods := h.methods.push m })

/-- A new class. -/
def newClass (c : ClassObj) : Value × Heap :=
  (.classObj h.classes.size, { h with classes := h.classes.push c })

/-- A new instance. -/
def newInstance (i : Instance) : Value × Heap :=
  (.inst h.instances.size, { h with instances := h.instances.push i })

/-- A new code unit, which has its own place as its number. -/
def newUnit (u : CodeUnit) : Value × Heap :=
  (.code h.units.size, { h with units := h.units.push u })

/-- A new cell. -/
def newCell (v : Option Value) : Ref × Heap :=
  (h.cells.size, { h with cells := h.cells.push v })

/-- A new iterator. -/
def newIterator (s : IterState) : Value × Heap :=
  (.iterator h.iterators.size, { h with iterators := h.iterators.push s })

/-- A new generator. -/
def newGenerator (g : Generator) : Value × Heap :=
  (.generator h.generators.size, { h with generators := h.generators.push g })

/-- A new exception. -/
def newException (e : ExceptionObj) : Ref × Heap :=
  (h.exceptions.size, { h with exceptions := h.exceptions.push e })

/-- A new traceback object. -/
def newTraceback (entries : Array TracebackEntry) : Value × Heap :=
  (.traceback h.tracebacks.size, { h with tracebacks := h.tracebacks.push entries })

/-- A new namespace. -/
def newSpace : Ref × Heap :=
  (h.namespaces.size, { h with namespaces := h.namespaces.push {} })

end Heap

end TieredMachine
