/-
  Comparisons.

  * `equalWithin`, `equal`: structural equality;
  * `orderWithin`, `order`: the order of numbers, texts and sequences;
  * `containsItem`: membership;
  * `excMatches`: whether an exception is one that a handler names;
  * `compare`: the comparison operators.

  Equality and order follow containers into each other, as many of them as the
  fuel says.
-/
import TieredMachine.Operation.Arithmetic

namespace TieredMachine

/-! ## Equality -/

/-- Whether both lists have one length and equal items, as a test says. -/
def allEqual (eq : Value → Value → Exec Bool) : List Value → List Value → Exec Bool
  | [], [] => return true
  | a :: as, b :: bs => do
    if ← eq a b then allEqual eq as bs else return false
  | _, _ => return false

/-- Whether the values of a dictionary's entries equal those that another one has
    for the same keys. -/
def entriesEqual (eq : Value → Value → Exec Bool) (other : Dict) :
    List (Value × Value) → Exec Bool
  | [] => return true
  | (k, v) :: entries => do
    match other.get? (← keyOf k) with
    | none => return false
    | some w => if ← eq v w then entriesEqual eq other entries else return false

/-- Structural equality, as far as `fuel` containers into each other. -/
def equalWithin (g : Guest) : Nat → Value → Value → Exec Bool
  | 0, _, _ => throw .outOfFuel
  | fuel + 1, a, b => do
    let sequences (as bs : Array Value) : Exec Bool :=
      if as.size = bs.size then allEqual (equalWithin g fuel) as.toList bs.toList
      else return false
    if a.isFloat || b.isFloat then
      match a.asFloat?, b.asFloat? with
      | some x, some y => return x.feq y
      | _, _ => return false
    else match a, b with
      | .str s, .str t => return s == t
      | .tuple r, .tuple s => do
        let h ← heap
        sequences (h.tuple r) (h.tuple s)
      | .list r, .list s => do
        let h ← heap
        if r = s then return true else sequences (h.list r) (h.list s)
      | .dict r, .dict s => do
        let h ← heap
        if r = s then return true
        else if (h.dict r).size ≠ (h.dict s).size then return false
        else entriesEqual (equalWithin g fuel) (h.dict s) (h.dict r).toList
      | .inst _, b => do
        match ← callSpecial g a "__eq__" [b] with
        | .notImplemented => return a.isSame b
        | answer => truthOf answer
      | a, b =>
        match a.asInt?, b.asInt? with
        | some m, some n => return m == n
        | _, _ => return a.isSame b

/-- Structural equality. -/
def equal (g : Guest) (a b : Value) : Exec Bool := equalWithin g g.fuel a b

/-! ## Order -/

/-- The order of two sequences: that of the first items that are not equal, or
    else that of the lengths. -/
def orderItems (eq : Value → Value → Exec Bool) (ord : Value → Value → Exec Ordering) :
    List Value → List Value → Exec Ordering
  | [], [] => return .eq
  | [], _ :: _ => return .lt
  | _ :: _, [] => return .gt
  | a :: as, b :: bs => do
    if ← eq a b then orderItems eq ord as bs else ord a b

/-- The order of two values, as far as `fuel` sequences into each other. -/
def orderWithin (g : Guest) : Nat → Value → Value → Exec Ordering
  | 0, _, _ => throw .outOfFuel
  | fuel + 1, a, b => do
    let sequences (as bs : Array Value) : Exec Ordering :=
      orderItems (equal g) (orderWithin g fuel) as.toList bs.toList
    match a.asInt?, b.asInt?, a.asFloat?, b.asFloat? with
    | some m, some n, _, _ => return Ord.compare m n
    | _, _, some x, some y =>
      match x.order? y with
      | some o => return o
      | none => valueError "cannot order NaN"
    | _, _, _, _ =>
      match a, b with
      | .str s, .str t => return Ord.compare s t
      | .tuple r, .tuple s => do
        let h ← heap
        sequences (h.tuple r) (h.tuple s)
      | .list r, .list s => do
        let h ← heap
        sequences (h.list r) (h.list s)
      | a, b => typeError s!"unorderable types: {a.typeName}() and {b.typeName}()"

/-- The order of two values. -/
def order (g : Guest) (a b : Value) : Exec Ordering := orderWithin g g.fuel a b

/-! ## Membership -/

/-- Whether an item equals one of a list of values. -/
def anyEqual (g : Guest) (item : Value) : List Value → Exec Bool
  | [] => return false
  | v :: vs => do
    if ← equal g v item then return true else anyEqual g item vs

/-- Whether an item is in a container. -/
def containsItem (g : Guest) (container item : Value) : Exec Bool := do
  let unsupported : Exec Bool :=
    typeError s!"argument of type '{container.typeName}' is not iterable"
  match container with
  | .list r => anyEqual g item ((← heap).list r).toList
  | .tuple r => anyEqual g item ((← heap).tuple r).toList
  | .str s =>
    match item with
    | .str part => return Text.occursIn part.toList s.toList
    | item => typeError <|
      s!"'in <string>' requires string as left operand, not {item.typeName}"
  | .dict r => dictContains r item
  | .inst _ =>
    match ← callSpecial g container "__contains__" [item] with
    | .notImplemented => unsupported
    | answer => truthOf answer
  | _ => unsupported

/-! ## Exceptions -/

/-- The class of an exception or an exception class. -/
def Heap.excKind? (h : Heap) : Value → Option ExceptionKind
  | .excType kind => some kind
  | .exception r => some (h.exception r).kind
  | _ => none

/-- Whether one of the classes that a handler names is a base of `kind`; a
    handler is a class or a tuple of handlers. -/
def handlerMatches (kind : ExceptionKind) : Nat → Value → Exec Bool
  | 0, _ => throw .outOfFuel
  | fuel + 1, handler => do
    match handler with
    | .excType base => return kind.isSubclass base
    | .tuple r => ((← heap).tuple r).toList.anyM (handlerMatches kind fuel)
    | other => typeError <|
      s!"catching '{other.typeName}' that does not inherit from BaseException is not allowed"

/-- Whether a raised value is one that a handler names. -/
def excMatches (exc handler : Value) : Exec Bool := do
  let h ← heap
  match h.excKind? exc with
  | none => return false
  | some kind => handlerMatches kind (h.depth + 1) handler

/-! ## Operators -/

/-- The special method of an order comparison. -/
def CmpOp.method? : CmpOp → Option String
  | .lt => some "__lt__"
  | .le => some "__le__"
  | .gt => some "__gt__"
  | .ge => some "__ge__"
  | _ => none

/-- Whether an order comparison holds between values in a given order. -/
def CmpOp.holds (op : CmpOp) (o : Ordering) : Bool :=
  match op with
  | .lt => o == .lt
  | .le => o != .gt
  | .gt => o == .gt
  | _ => o != .lt

/-- An order comparison. -/
def compareOrder (g : Guest) (op : CmpOp) (a b : Value) : Exec Value := do
  match ← callSpecial g a (op.method?.getD "") [b] with
  | .notImplemented => return .bool (op.holds (← order g a b))
  | answer => return answer

/-- A comparison. -/
def compare (g : Guest) (op : CmpOp) (a b : Value) : Exec Value := do
  match op with
  | .eq => return .bool (← equal g a b)
  | .ne => return .bool !(← equal g a b)
  | .mem => return .bool (← containsItem g b a)
  | .notMem => return .bool !(← containsItem g b a)
  | .is => return .bool (a.isSame b)
  | .isNot => return .bool !(a.isSame b)
  | .excMatch => return .bool (← excMatches a b)
  | .lt | .le | .gt | .ge => compareOrder g op a b

end TieredMachine
