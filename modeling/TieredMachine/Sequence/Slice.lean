/-
  Positions selected by a slice.

  The bounds of a slice are shifted by the length when they are negative and
  then clamped to the sequence, so every selected position is in range.

  * `Span.of`: the first position, the step and the number of positions;
  * `Span.positions`: the positions, in slice order;
  * `replace`, `erase`: a sequence with the selected part replaced or taken
    out.
-/

namespace TieredMachine

namespace Sequence

/-- The positions `start, start + step, …`, `count` of them. -/
structure Span where
  start : Int
  step : Int
  count : Nat
  deriving DecidableEq, Repr, Inhabited

/-- A bound of a slice, resolved against the positions from `low` to `high` of a
    sequence of `len` items. -/
def clamp (len : Nat) (low high default : Int) : Option Int64 → Int
  | none => default
  | some i => if i < 0 then max (i.toInt + len) low else min i.toInt high

/-- The span of a slice with a nonzero step over `len` items. -/
def Span.of (start stop : Option Int64) (step : Int64) (len : Nat) : Span :=
  let down := step < 0
  let low : Int := if down then -1 else 0
  let high : Int := if down then len - 1 else len
  let first := clamp len low high (if down then high else low) start
  let last := clamp len low high (if down then low else high) stop
  let s := step.toInt
  let count : Int :=
    if down then (if last < first then (first - last - 1) / -s + 1 else 0)
    else if first < last then (last - first - 1) / s + 1
    else 0
  ⟨first, s, count.toNat⟩

/-- The selected positions, in slice order. -/
def Span.positions (s : Span) : List Nat :=
  (List.range s.count).map fun (k : Nat) => (s.start + k * s.step).toNat

variable {α : Type}

/-- The items of a sequence at some positions. -/
def pick (items : Array α) (positions : List Nat) : Array α :=
  (positions.filterMap (items[·]?)).toArray

/-- A sequence with `count` items from `start` on replaced. -/
def splice (items : Array α) (start count : Nat) (new : Array α) : Array α :=
  items.extract 0 start ++ new ++ items.extract (start + count) items.size

/-- A sequence with the items at some positions replaced one by one. -/
def overwrite (items : Array α) (positions : List Nat) (new : List α) : Array α :=
  (positions.zip new).foldl (fun items p => items.setIfInBounds p.1 p.2) items

/-- A sequence without the items at some positions. -/
def erase (items : Array α) (positions : List Nat) : Array α :=
  (positions.mergeSort (fun a b => b ≤ a)).foldl (fun items i => items.eraseIdxIfInBounds i) items

/-- The position that an index names in a sequence of `len` items; a negative
    index counts from the end. -/
def position? (i : Int64) (len : Nat) : Option Nat :=
  let resolved : Int := if i < 0 then i.toInt + len else i.toInt
  if 0 ≤ resolved ∧ resolved < len then some resolved.toNat else none

/-- The length of a sequence of `len` items repeated `count` times, as a 64-bit
    word. -/
def repeatedLength (len count : Nat) : Nat := len * count % UInt64.size

/-- A sequence repeated `count` times: its items in turn, as many as
    `repeatedLength` says. -/
def repeated (items : Array α) (count : Nat) : Array α :=
  (Array.range (repeatedLength items.size count)).filterMap fun i => items[i % items.size]?

end Sequence

end TieredMachine
