/-
  The shortest decimal that reads back as a given number.

  A finite number `v` is what every real of an interval around it is rounded
  to; the ends belong to the interval when the mantissa is even.  The shortest
  decimal of `v` has the fewest digits among the decimals in the interval, and
  is the nearest to `v` among those.

  * `Decimal`: a natural number times a power of ten;
  * `shortest`: tries 1, 2, … 17 digits.  On the grid of decimals with `n`
    digits only the two neighbours of `v` can be in the interval, so the first
    grid with a hit wins; of two hits the nearer is taken, the upper one on a
    tie.
-/
import TieredMachine.Binary64.Basic

namespace TieredMachine

namespace Binary64

/-- The decimal `digits · 10^exponent`. -/
structure Decimal where
  digits : Nat
  exponent : Int
  deriving DecidableEq, Repr, Inhabited

/-- A quotient of natural numbers times a power of ten. -/
def scaleTen (r : Nat × Nat) (e : Int) : Nat × Nat :=
  (r.1 * Nat.pow 10 e.toNat, r.2 * Nat.pow 10 (-e).toNat)

/-- Whether `a / b < c / d`, for positive denominators. -/
def ratioLt (a c : Nat × Nat) : Bool := a.1 * c.2 < c.1 * a.2

/-- Whether `a / b ≤ c / d`, for positive denominators. -/
def ratioLe (a c : Nat × Nat) : Bool := a.1 * c.2 ≤ c.1 * a.2

/-- The number of decimal digits of a natural number; none for zero. -/
def decimalLength (n : Nat) : Nat := if n = 0 then 0 else (Nat.toDigits 10 n).length

/-- The `k` with `10^(k-1) ≤ r < 10^k`, for a positive quotient `r`. -/
def decimalPoint (r : Nat × Nat) : Int :=
  if r.2 ≤ r.1 then decimalLength (r.1 / r.2)
  else
    let d := decimalLength (r.2 / r.1)
    if ratioLt r (1, Nat.pow 10 (d - 1)) then 1 - (d : Int) else 2 - (d : Int)

/-- The interval of reals that round to a magnitude: its two ends, and whether
    they belong to it. -/
def Magnitude.interval (m : Magnitude) : (Nat × Nat) × (Nat × Nat) × Bool :=
  let low : Magnitude :=
    if m.mantissa = Nat.pow 2 52 && m.exponent != -1074 then ⟨4 * m.mantissa - 1, m.exponent - 2⟩
    else ⟨2 * m.mantissa - 1, m.exponent - 1⟩
  let high : Magnitude := ⟨2 * m.mantissa + 1, m.exponent - 1⟩
  (low.ratio, high.ratio, m.mantissa % 2 = 0)

/-- The decimal with `n` digits that is nearest to the magnitude, if one of its
    two neighbours on that grid rounds to it. -/
def Magnitude.onGrid? (m : Magnitude) (n : Nat) : Option Decimal :=
  let v := m.ratio
  let e : Int := decimalPoint v - n
  let scaled := scaleTen v (-e)
  let below := scaled.1 / scaled.2
  let (low, high, closed) := m.interval
  let inside (c : Nat) : Bool :=
    let r := scaleTen (c, 1) e
    if closed then ratioLe low r && ratioLe r high else ratioLt low r && ratioLt r high
  let up := inside (below + 1)
  if inside below && (!up || 2 * (scaled.1 % scaled.2) < scaled.2) then some ⟨below, e⟩
  else if up then some ⟨below + 1, e⟩
  else none

/-- A power of ten with as few digits as possible. -/
def Decimal.carried (n : Nat) (d : Decimal) : Decimal :=
  if d.digits = Nat.pow 10 n then ⟨1, d.exponent + n⟩ else d

/-- The shortest decimal that rounds to a positive magnitude; seventeen digits
    always suffice.  A neighbour with more digits than its grid is a power of
    ten. -/
def Magnitude.shortest (m : Magnitude) : Decimal :=
  ((List.range 17).findSome? fun n => (m.onGrid? (n + 1)).map (·.carried (n + 1))).getD ⟨0, 0⟩

end Binary64

end TieredMachine
