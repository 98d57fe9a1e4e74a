/-
  Arithmetic progressions of 64-bit integers.

  A `Range` holds the next item, a bound that the items stay before in the
  direction of the step, and the step.  When the item after the next one leaves
  the 64-bit range, the progression ends: the next item becomes the bound.
-/
import TieredMachine.Integer.Arithmetic

namespace TieredMachine

/-- The items `next, next + step, …` strictly before `stop`. -/
structure Range where
  next : Int64
  stop : Int64
  step : Int64
  deriving DecidableEq, Repr, Inhabited

namespace Range

/-- Whether an item is left. -/
def hasNext (r : Range) : Bool := if 0 < r.step then r.next < r.stop else r.stop < r.next

/-- The next item and the rest of the progression. -/
def next? (r : Range) : Option (Int64 × Range) :=
  if r.hasNext then
    some (r.next, { r with next := (Integer.ofInt? (r.next.toInt + r.step.toInt)).getD r.stop })
  else none

/-- A bound on the number of items of a progression with a nonzero step. -/
def bound (r : Range) : Nat := (r.stop.toInt - r.next.toInt).natAbs / r.step.toInt.natAbs + 1

/-- The first `n` items. -/
def take : Nat → Range → List Int64
  | 0, _ => []
  | n + 1, r =>
    match r.next? with
    | none => []
    | some (a, r) => a :: take n r

/-- Every item, in order.  The step is not zero. -/
def toList (r : Range) : List Int64 := take r.bound r

end Range

end TieredMachine
