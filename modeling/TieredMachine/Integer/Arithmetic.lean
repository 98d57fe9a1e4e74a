/-
  Checked 64-bit integer arithmetic.

  An operator answers the exact mathematical result when it is a 64-bit
  integer.  It answers nothing when the result is no integer at all (true
  division, a negative exponent, subscription), and an error otherwise.

  * `binary`: the operators on two integers;
  * `negate`, `absolute`: the unary ones that can leave the range.
-/
import TieredMachine.Operator

namespace TieredMachine

namespace Integer

/-- Why an integer operation has no answer. -/
inductive ArithError where
  /-- the result does not fit in 64 bits -/
  | overflow
  /-- a division or a remainder by zero -/
  | zeroDivision
  /-- a shift by a negative count -/
  | negativeShift
  deriving DecidableEq, Repr

/-- The 64-bit integer with a given value, if there is one. -/
def ofInt? (n : Int) : Option Int64 :=
  if -(Int.pow 2 63) ≤ n ∧ n < Int.pow 2 63 then some (Int64.ofInt n) else none

/-- The 64-bit integer with a given value, or overflow. -/
def checked (n : Int) : Except ArithError Int64 :=
  match ofInt? n with
  | some r => .ok r
  | none => .error .overflow

/-- `a` to the power `n`.  Exponents of `2^32` and more count as overflow,
    whatever the base. -/
def power (a : Int64) (n : Nat) : Except ArithError Int64 :=
  if UInt32.size ≤ n then .error .overflow
  else if a = 0 then .ok (if n = 0 then 1 else 0)
  else if a = 1 then .ok 1
  else if a = -1 then .ok (if n % 2 = 0 then 1 else -1)
  else if 63 < n then .error .overflow
  else checked (a.toInt.pow n)

/-- `a` shifted left by `n` places.  A nonzero integer shifted by 63 places or
    more counts as overflow. -/
def shiftLeft (a : Int64) (n : Nat) : Except ArithError Int64 :=
  if a = 0 then .ok 0
  else if 63 ≤ n then .error .overflow
  else checked (a.toInt * Int.pow 2 n)

/-- A binary operator on two integers; nothing when the result is no
    integer. -/
def binary (op : BinaryOp) (a b : Int64) : Except ArithError (Option Int64) :=
  match op with
  | .add => some <$> checked (a.toInt + b.toInt)
  | .sub => some <$> checked (a.toInt - b.toInt)
  | .mul => some <$> checked (a.toInt * b.toInt)
  | .floorDiv =>
    if b = 0 then .error .zeroDivision else some <$> checked (Int.fdiv a.toInt b.toInt)
  | .mod => if b = 0 then .error .zeroDivision else some <$> checked (Int.fmod a.toInt b.toInt)
  | .pow => if b < 0 then .ok none else some <$> power a b.toInt.toNat
  | .lshift => if b < 0 then .error .negativeShift else some <$> shiftLeft a b.toInt.toNat
  | .rshift =>
    if b < 0 then .error .negativeShift
    else some <$> checked (Int.fdiv a.toInt (Int.pow 2 (min b.toInt.toNat 63)))
  | .and => .ok (some (a &&& b))
  | .or => .ok (some (a ||| b))
  | .xor => .ok (some (a ^^^ b))
  | .trueDiv | .getItem => .ok none

/-- The integer with its sign turned. -/
def negate (a : Int64) : Except ArithError Int64 := checked (-a.toInt)

/-- The absolute value. -/
def absolute (a : Int64) : Except ArithError Int64 := checked a.toInt.natAbs

/-! ## Written form -/

/-- The decimal text of an integer. -/
def text (a : Int64) : String := toString a.toInt

/-- The integer that a text spells: an optional sign and at least one digit. -/
def ofText? (s : String) : Option Int64 :=
  let (minus, ds) : Bool × List Char := match s.toList with
    | '-' :: ds => (true, ds)
    | '+' :: ds => (false, ds)
    | ds => (false, ds)
  if ds.isEmpty || !ds.all Char.isDigit then none
  else
    let n : Nat := ds.foldl (fun n c => 10 * n + (c.toNat - 48)) 0
    ofInt? (if minus then -(n : Int) else n)

end Integer

end TieredMachine
