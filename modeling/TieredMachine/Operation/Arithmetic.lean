/-
  Binary and unary operators.

  A binary operator asks the left operand first and, when that answers
  `NotImplemented`, the right one; an augmented assignment asks the left operand
  for its in-place form before both.  Built-in types answer by `builtinBinary`,
  instances by their special methods.

  * `binary`, `inplace`, `unary`: the operators on all values;
  * `integerBinary`, `floatBinary`: the arithmetic of numbers.
-/
import TieredMachine.Operation.Subscript

namespace TieredMachine

/-! ## Numbers -/

/-- The exception of a failed integer operation. -/
def arithError {α : Type} : Integer.ArithError → Exec α
  | .overflow => raise .overflowError "integer overflow"
  | .zeroDivision => raise .zeroDivisionError "integer division or modulo by zero"
  | .negativeShift => valueError "negative shift count"

/-- The answer of an integer operation. -/
def ofArith {α : Type} : Except Integer.ArithError α → Exec α
  | .ok a => return a
  | .error e => arithError e

/-- A binary operator on two floats; bitwise operators answer
    `NotImplemented`. -/
def floatBinary (op : BinaryOp) (a b : Binary64) : Exec Value := do
  let divided (message : String) (r : Binary64) : Exec Value :=
    if b.feq .zero then raise .zeroDivisionError message else return .float r
  match op with
  | .add => return .float (a.add b)
  | .sub => return .float (a.sub b)
  | .mul => return .float (a.mul b)
  | .trueDiv => divided "float division by zero" (a.div b)
  | .floorDiv => divided "float divmod()" (a.div b).floor
  | .mod =>
    let r := a.rem b
    let opposite := !r.feq .zero && (r.flt .zero != b.flt .zero)
    divided "float modulo" (if opposite then r.add b else r)
  | .pow => return .float (a.pow b)
  | _ => return .notImplemented

/-- A binary operator on two integers.  True division and negative powers have
    float results. -/
def integerBinary (op : BinaryOp) (a b : Int64) : Exec Value := do
  match ← ofArith (Integer.binary op a b) with
  | some r => return .int r
  | none =>
    if op = .trueDiv ∧ b = 0 then arithError .zeroDivision
    else floatBinary op (.ofInt64 a) (.ofInt64 b)

/-! ## Sequences -/

/-- How often a sequence is repeated by a value, if it is an integer. -/
def repeatCount? (v : Value) : Option Nat := v.asInt?.map fun n => n.toInt.toNat

/-- The bytes that a value takes in a sequence. -/
def Value.bytes : Nat := 24

/-- Room for a sequence; a run that asks for more bytes than one can have ends. -/
def reserve (bytes : Nat) : Exec Unit :=
  if Nat.pow 2 63 ≤ bytes then throw .capacityOverflow else return ()

/-- The items of a list or a tuple repeated. -/
def repeatItems (items : Array Value) (n : Nat) : Exec (Array Value) := do
  reserve (Value.bytes * Sequence.repeatedLength items.size n)
  return Sequence.repeated items n

/-- A sequence repeated; other values answer `NotImplemented`. -/
def repeatSequence (v : Value) (n : Nat) : Exec Value := do
  let h ← heap
  match v with
  | .str s =>
    reserve (s.utf8ByteSize * n)
    return .str (.ofList (Sequence.repeated s.toList.toArray n).toList)
  | .list r =>
    let items ← repeatItems (h.list r) n
    alloc (·.newList items)
  | .tuple r =>
    let items ← repeatItems (h.tuple r) n
    alloc (·.newTuple items)
  | _ => return .notImplemented

/-- Two sequences of one type in a row; other values answer
    `NotImplemented`. -/
def concat (a b : Value) : Exec Value := do
  let h ← heap
  match a, b with
  | .str s, .str t => return .str (s ++ t)
  | .list r, .list s => alloc (·.newList (h.list r ++ h.list s))
  | .tuple r, .tuple s => alloc (·.newTuple (h.tuple r ++ h.tuple s))
  | _, _ => return .notImplemented

/-- A binary operator on sequences: concatenation and repetition. -/
def sequenceBinary (op : BinaryOp) (a b : Value) : Exec Value := do
  match op with
  | .add => concat a b
  | .mul =>
    match repeatCount? a, repeatCount? b with
    | _, some n => repeatSequence a n
    | some n, none => repeatSequence b n
    | none, none => return .notImplemented
  | _ => return .notImplemented

/-! ## Dispatch -/

/-- Whether a value is a float. -/
def Value.isFloat : Value → Bool
  | .float _ => true
  | _ => false

/-- A binary operator on built-in types; `NotImplemented` when they do not take
    part in it. -/
def builtinBinary (op : BinaryOp) (a b : Value) : Exec Value :=
  if op = .getItem then subscript a b
  else match a.asInt?, b.asInt? with
    | some m, some n => integerBinary op m n
    | _, _ =>
      match a.asFloat?, b.asFloat? with
      | some x, some y => floatBinary op x y
      | _, _ => sequenceBinary op a b

/-- The left operand's answer. -/
def leftBinary (g : Guest) (op : BinaryOp) (a b : Value) : Exec Value :=
  match a with
  | .inst _ => callSpecial g a op.method [b]
  | a => builtinBinary op a b

/-- The right operand's answer. -/
def rightBinary (g : Guest) (op : BinaryOp) (a b : Value) : Exec Value :=
  match op.reflectedMethod? with
  | some name => callSpecial g b name [a]
  | none => return .notImplemented

/-- The wording for operands that no one takes. -/
def unsupportedOperands {α : Type} (op : BinaryOp) (a b : Value) : Exec α :=
  if op = .getItem then typeError s!"'{a.typeName}' object is unsubscriptable"
  else typeError <|
    s!"unsupported operand type(s) for {op.symbol}: '{a.typeName}' and '{b.typeName}'"

/-- A binary operator. -/
def binary (g : Guest) (op : BinaryOp) (a b : Value) : Exec Value := do
  match ← leftBinary g op a b with
  | .notImplemented =>
    match ← rightBinary g op a b with
    | .notImplemented => unsupportedOperands op a b
    | v => return v
  | v => return v

/-- The in-place answer of the left operand of an augmented assignment: a list
    takes in the items of what is added to it. -/
def inplaceLeft (g : Guest) (op : BinaryOp) (a b : Value) : Exec Value := do
  match op, a with
  | .add, .list r =>
    let items ← collect g b
    modifyList r (· ++ items.toArray)
    return a
  | op, .inst _ =>
    match op.inplaceMethod? with
    | some name => callSpecial g a name [b]
    | none => return .notImplemented
  | _, _ => return .notImplemented

/-- A binary operator as an augmented assignment. -/
def inplace (g : Guest) (op : BinaryOp) (a b : Value) : Exec Value := do
  match ← inplaceLeft g op a b with
  | .notImplemented => binary g op a b
  | v => return v

/-! ## Unary operators -/

/-- A unary operator on built-in types and, by its special method, on
    instances; `NotImplemented` when they do not take part in it. -/
def unaryAnswer (g : Guest) (op : UnaryOp) (v : Value) : Exec Value := do
  match op, v with
  | .not, v => return .bool !(← truthOf v)
  | op, .inst _ =>
    match op.method? with
    | some name => callSpecial g v name []
    | none => return .notImplemented
  | .pos, .float x => return .float x
  | .neg, .float x => return .float x.neg
  | op, v =>
    match op, v.asInt? with
    | .pos, some n => return .int n
    | .neg, some n => return .int (← ofArith (Integer.negate n))
    | .invert, some n => return .int (~~~n)
    | _, _ => return .notImplemented

/-- A unary operator. -/
def unary (g : Guest) (op : UnaryOp) (v : Value) : Exec Value := do
  match ← unaryAnswer g op v with
  | .notImplemented => typeError s!"bad operand type for {op.symbol}: '{v.typeName}'"
  | r => return r

end TieredMachine
