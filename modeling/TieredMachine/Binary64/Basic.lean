/-
  64-bit binary floating-point numbers.

  A `Binary64` is its 64 bits, so two numbers are the same number exactly when
  their bits agree: `0.0` and `-0.0` differ, and a not-a-number is the same as
  itself.  The numeric comparisons (`feq`, `flt`) are the usual ones.

  * `isNaN`, `isFinite`, `isIntegral`, `magnitude`: classification, and the
    exact value of a finite number as `m · 2^e`;
  * `add`, `sub`, `mul`, `div`, `floor`, `rem`, `pow`: arithmetic, rounded to
    nearest.  A not-a-number operand is answered quieted, the left one first
    (`pow` has exceptions); an operation without a value answers `indefinite`.
-/

namespace TieredMachine

/-- A 64-bit floating-point number, as its bits. -/
structure Binary64 where
  bits : UInt64
  deriving DecidableEq, Repr, Inhabited, Hashable

namespace Binary64

/-- The number in the arithmetic type of the host. -/
def toFloat (x : Binary64) : Float := Float.ofBits x.bits

/-- The number of a host float that is not a not-a-number. -/
def ofFloat (x : Float) : Binary64 := ⟨x.toBits⟩

/-- The integer rounded to the nearest number. -/
def ofInt64 (n : Int64) : Binary64 := ofFloat n.toFloat

/-- The natural number rounded to the nearest number. -/
def ofUInt64 (n : UInt64) : Binary64 := ofFloat n.toFloat

/-- The answer of an operation that has no value. -/
def indefinite : Binary64 := ⟨0xfff8000000000000⟩

/-- Positive zero. -/
def zero : Binary64 := ⟨0⟩

/-- Positive infinity. -/
def infinity : Binary64 := ⟨0x7ff0000000000000⟩

/-! ## Parts of a number -/

/-- The sign bit. -/
def isNegative (x : Binary64) : Bool := x.bits >>> 63 == 1

/-- The eleven exponent bits. -/
def exponentBits (x : Binary64) : Nat := ((x.bits >>> 52) &&& 0x7ff).toNat

/-- The fifty-two fraction bits. -/
def fractionBits (x : Binary64) : Nat := (x.bits &&& 0xfffffffffffff).toNat

/-- Neither infinite nor a not-a-number. -/
def isFinite (x : Binary64) : Bool := x.exponentBits != 0x7ff

/-- A not-a-number. -/
def isNaN (x : Binary64) : Bool := x.exponentBits == 0x7ff && x.fractionBits != 0

/-- A finite magnitude, `mantissa · 2^exponent`. -/
structure Magnitude where
  mantissa : Nat
  exponent : Int
  deriving DecidableEq, Repr, Inhabited

/-- The absolute value of a finite number. -/
def magnitude (x : Binary64) : Magnitude :=
  if x.exponentBits = 0 then ⟨x.fractionBits, -1074⟩
  else ⟨x.fractionBits + Nat.pow 2 52, x.exponentBits - 1075⟩

/-- The magnitude as a quotient of natural numbers. -/
def Magnitude.ratio (m : Magnitude) : Nat × Nat :=
  (m.mantissa * Nat.pow 2 m.exponent.toNat, Nat.pow 2 (-m.exponent).toNat)

/-- Finite and without a fraction. -/
def isIntegral (x : Binary64) : Bool :=
  x.isFinite && (let r := x.magnitude.ratio; r.1 % r.2 == 0)

/-- A not-a-number that is not quiet. -/
def isSignaling (x : Binary64) : Bool := x.isNaN && x.bits &&& 0x0008000000000000 == 0

/-- A finite number without a fraction that two does not divide. -/
def isOdd (x : Binary64) : Bool :=
  x.isIntegral && (let r := x.magnitude.ratio; r.1 / r.2 % 2 == 1)

/-- The absolute value. -/
def abs (x : Binary64) : Binary64 := ⟨x.bits &&& 0x7fffffffffffffff⟩

/-- The number with its sign bit turned. -/
def neg (x : Binary64) : Binary64 := ⟨x.bits ^^^ 0x8000000000000000⟩

/-! ## Comparison -/

/-- Numeric equality: zeros of both signs are equal, a not-a-number equals
    nothing. -/
def feq (x y : Binary64) : Bool := x.toFloat == y.toFloat

/-- Numeric order; false when either side is a not-a-number. -/
def flt (x y : Binary64) : Bool := decide (x.toFloat < y.toFloat)

/-- The numeric order of two numbers, undefined on a not-a-number. -/
def order? (x y : Binary64) : Option Ordering :=
  if x.flt y then some .lt else if y.flt x then some .gt else if x.feq y then some .eq else none

/-! ## Arithmetic -/

/-- A not-a-number made quiet. -/
def quiet (x : Binary64) : Binary64 := ⟨x.bits ||| 0x0008000000000000⟩

/-- The host's answer, `indefinite` when it has no value. -/
def ofResult (r : Float) : Binary64 := if r.isNaN then indefinite else ofFloat r

/-- A binary operation that passes a not-a-number operand on, the left one
    first. -/
def lift (f : Float → Float → Float) (x y : Binary64) : Binary64 :=
  if x.isNaN then x.quiet else if y.isNaN then y.quiet else ofResult (f x.toFloat y.toFloat)

/-- The sum. -/
def add : Binary64 → Binary64 → Binary64 := lift (· + ·)

/-- The difference. -/
def sub : Binary64 → Binary64 → Binary64 := lift (· - ·)

/-- The product. -/
def mul : Binary64 → Binary64 → Binary64 := lift (· * ·)

/-- The quotient. -/
def div : Binary64 → Binary64 → Binary64 := lift (· / ·)

/-- The greatest integral number not above `x`. -/
def floor (x : Binary64) : Binary64 := if x.isNaN then x.quiet else ofFloat x.toFloat.floor

/-- The square root of a number that is not negative. -/
def sqrt (x : Binary64) : Binary64 := if x.isNaN then x.quiet else ofResult x.toFloat.sqrt

/-- The power.  An exponent of zero and a base of one answer one even beside a
    not-a-number, if that is quiet.  A not-a-number raised to an odd power loses
    its sign. -/
def pow (x y : Binary64) : Binary64 :=
  if (y.abs = zero && !x.isSignaling) || (x = ofInt64 1 && !y.isSignaling) then ofInt64 1
  else if x.isNaN && y.isOdd then x.quiet.abs
  else lift Float.pow x y

/-- The least exponent and both mantissas at that exponent. -/
def align (a b : Magnitude) : Nat × Nat × Int :=
  let e := min a.exponent b.exponent
  (a.mantissa * Nat.pow 2 (a.exponent - e).toNat,
    b.mantissa * Nat.pow 2 (b.exponent - e).toNat, e)

/-- The number `m · 2^e` of a magnitude that needs no rounding. -/
def ofExact (m : Nat) (e : Int) : Float := Float.scaleB m.toFloat e

/-- The remainder of truncated division, with the sign of `x`; it is always
    exact. -/
def rem (x y : Binary64) : Binary64 :=
  if x.isNaN then x.quiet else if y.isNaN then y.quiet
  else if !x.isFinite || y.abs = zero then indefinite
  else if !y.isFinite then x
  else
    let (a, b, e) := align x.magnitude y.magnitude
    let r := ofFloat (ofExact (a % b) e)
    if x.isNegative then r.neg else r

/-- The integer part of a number whose magnitude is below `2^63`. -/
def toInt64 (x : Binary64) : Int64 := x.toFloat.toInt64

end Binary64

end TieredMachine
