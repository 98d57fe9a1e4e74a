/-
  Operators of the guest language.

  An operator is a tag from a closed set; what it does to two values is said
  where values are defined.  Here each operator has its symbol, as error
  messages show it, and the names of the special methods by which a guest class
  takes part in it.

  * `BinaryOp`, `UnaryOp`: the arithmetic and bitwise operators, subscription
    among the binary ones;
  * `CmpOp`: the comparisons, numbered as the operand of a comparison
    instruction numbers them (`CmpOp.ofArg?`, `CmpOp.toArg`).
-/

namespace TieredMachine

/-! ## Binary operators -/

/-- A binary operator, subscription included. -/
inductive BinaryOp where
  | add | sub | mul | trueDiv | floorDiv | mod | pow | lshift | rshift | and | or | xor | getItem
  deriving DecidableEq, Repr, Inhabited

namespace BinaryOp

/-- Every binary operator. -/
def all : List BinaryOp :=
  [add, sub, mul, trueDiv, floorDiv, mod, pow, lshift, rshift, and, or, xor, getItem]

/-- The operator as error messages show it. -/
def symbol : BinaryOp → String
  | add => "+"
  | sub => "-"
  | mul => "*"
  | trueDiv => "/"
  | floorDiv => "//"
  | mod => "%"
  | pow => "** or pow()"
  | lshift => "<<"
  | rshift => ">>"
  | and => "&"
  | or => "|"
  | xor => "^"
  | getItem => "[]"

/-- The stem of the operator's special methods: `add` of `__add__`,
    `__radd__` and `__iadd__`. -/
def stem : BinaryOp → String
  | add => "add"
  | sub => "sub"
  | mul => "mul"
  | trueDiv => "truediv"
  | floorDiv => "floordiv"
  | mod => "mod"
  | pow => "pow"
  | lshift => "lshift"
  | rshift => "rshift"
  | and => "and"
  | or => "or"
  | xor => "xor"
  | getItem => "getitem"

/-- The method tried on the left operand. -/
def method (op : BinaryOp) : String := s!"__{op.stem}__"

/-- The method tried on the right operand; subscription has none. -/
def reflectedMethod? (op : BinaryOp) : Option String :=
  if op = getItem then none else some s!"__r{op.stem}__"

/-- The method tried first by an augmented assignment; subscription has
    none. -/
def inplaceMethod? (op : BinaryOp) : Option String :=
  if op = getItem then none else some s!"__i{op.stem}__"

/-- The operator with a given left method. -/
def ofMethod? (name : String) : Option BinaryOp := all.find? (·.method == name)

/-- The operator's own name, as messages about unsupported code show it. -/
def label : BinaryOp → String
  | add => "Add"
  | sub => "Sub"
  | mul => "Mul"
  | trueDiv => "TrueDiv"
  | floorDiv => "FloorDiv"
  | mod => "Mod"
  | pow => "Pow"
  | lshift => "LShift"
  | rshift => "RShift"
  | and => "And"
  | or => "Or"
  | xor => "Xor"
  | getItem => "GetItem"

end BinaryOp

/-! ## Unary operators -/

/-- A unary operator. -/
inductive UnaryOp where
  | pos | neg | not | invert
  deriving DecidableEq, Repr, Inhabited

namespace UnaryOp

/-- Every unary operator. -/
def all : List UnaryOp := [pos, neg, not, invert]

/-- The operator as error messages show it. -/
def symbol : UnaryOp → String
  | pos => "unary +"
  | neg => "unary -"
  | not => "not"
  | invert => "unary ~"

/-- The operator's special method; `not` has none, since every value has a
    truth value. -/
def method? : UnaryOp → Option String
  | pos => some "__pos__"
  | neg => some "__neg__"
  | invert => some "__invert__"
  | not => none

/-- The operator with a given symbol. -/
def ofSymbol? (s : String) : Option UnaryOp := all.find? (·.symbol == s)

end UnaryOp

/-! ## Comparisons -/

/-- A comparison operator. -/
inductive CmpOp where
  | lt | le | eq | ne | gt | ge | mem | notMem | is | isNot | excMatch
  deriving DecidableEq, Repr, Inhabited

namespace CmpOp

/-- Every comparison, in the order of the numbers that name them. -/
def all : List CmpOp := [lt, le, eq, ne, gt, ge, mem, notMem, is, isNot, excMatch]

/-- The number that names the comparison in an instruction. -/
def toArg : CmpOp → Nat
  | lt => 0
  | le => 1
  | eq => 2
  | ne => 3
  | gt => 4
  | ge => 5
  | mem => 6
  | notMem => 7
  | is => 8
  | isNot => 9
  | excMatch => 10

/-- The comparison that a number names. -/
def ofArg? (n : Nat) : Option CmpOp := all[n]?

/-- The comparison as source text shows it. -/
def symbol : CmpOp → String
  | lt => "<"
  | le => "<="
  | eq => "=="
  | ne => "!="
  | gt => ">"
  | ge => ">="
  | mem => "in"
  | notMem => "not in"
  | is => "is"
  | isNot => "is not"
  | excMatch => "exception match"

/-- The comparison with a given symbol. -/
def ofSymbol? (s : String) : Option CmpOp := all.find? (·.symbol == s)

/-- Reading a comparison's number gives the comparison back. -/
theorem ofArg?_toArg (op : CmpOp) : ofArg? op.toArg = some op := by
  cases op <;> rfl

end CmpOp

end TieredMachine
