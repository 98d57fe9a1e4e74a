/-
  Written forms of floating-point numbers.

  * `text`: how the guest writes a number.  An integral one below `10^16` has
    all its digits and one decimal place; any other has the shortest digits
    that read back, never an exponent; the three special values are `inf`,
    `-inf` and `NaN`.
  * `fixed`: a given number of decimal places, rounded to nearest, ties to the
    even digit.
  * `ofText?`: reads a decimal with an optional sign, fraction and exponent,
    rounded to nearest, and the names of the special values.
-/
import TieredMachine.Binary64.Shortest

namespace TieredMachine

namespace Binary64

/-! ## Writing -/

/-- A decimal without an exponent. -/
def Decimal.positional (d : Decimal) : String :=
  let ds := Nat.toDigits 10 d.digits
  if 0 ≤ d.exponent then String.ofList (ds ++ List.replicate d.exponent.toNat '0')
  else
    let places := (-d.exponent).toNat
    let ds := List.replicate (places + 1 - ds.length) '0' ++ ds
    let cut := ds.length - places
    String.ofList (ds.take cut ++ '.' :: ds.drop cut)

/-- `s` with the sign of the number in front. -/
def signed (x : Binary64) (s : String) : String := if x.isNegative then "-" ++ s else s

/-- Integral numbers from here on are written without a decimal place. -/
def pointLimit : Nat := Nat.pow 10 16

/-- The guest's text of a number. -/
def text (x : Binary64) : String :=
  if x.isNaN then "NaN"
  else if !x.isFinite then x.signed "inf"
  else
    let r := x.magnitude.ratio
    if r.1 % r.2 = 0 && r.1 / r.2 < pointLimit then x.signed s!"{r.1 / r.2}.0"
    else x.signed x.magnitude.shortest.positional

/-- The quotient rounded to the nearest natural number, a tie to the even
    one. -/
def roundHalfEven (num den : Nat) : Nat :=
  let q := num / den
  let twice := 2 * (num % den)
  if den < twice || (twice = den && q % 2 = 1) then q + 1 else q

/-- A number with exactly `places` decimal places, at least one. -/
def fixed (places : Nat) (x : Binary64) : String :=
  if x.isNaN then "NaN"
  else if !x.isFinite then x.signed "inf"
  else
    let r := x.magnitude.ratio
    let n := roundHalfEven (r.1 * Nat.pow 10 places) r.2
    x.signed (Decimal.positional ⟨n, -places⟩)

/-! ## Reading -/

/-- The number nearest to the decimal `digits · 10^exponent`.  Beyond the range
    of the format the size alone decides. -/
def ofDecimal (d : Decimal) : Binary64 :=
  if d.digits = 0 then zero
  else
    let size : Int := decimalLength d.digits + d.exponent
    if 310 < size then infinity
    else if size < -330 then zero
    else if 0 ≤ d.exponent then ofFloat (Float.ofScientific d.digits false d.exponent.toNat)
    else ofFloat (Float.ofScientific d.digits true (-d.exponent).toNat)

/-- The digits at the front of a text, and the rest. -/
def spanDigits (s : List Char) : List Char × List Char := s.span Char.isDigit

/-- The natural number that a list of digits spells. -/
def digitsToNat (ds : List Char) : Nat := ds.foldl (fun n c => 10 * n + (c.toNat - 48)) 0

/-- An optional sign at the front: whether it is a minus, and the rest. -/
def spanSign : List Char → Bool × List Char
  | '-' :: s => (true, s)
  | '+' :: s => (false, s)
  | s => (false, s)

/-- An exponent, or nothing, up to the end of the text. -/
def exponent? : List Char → Option Int
  | [] => some 0
  | c :: s =>
    if c = 'e' || c = 'E' then
      let (minus, s) := spanSign s
      let (ds, rest) := spanDigits s
      if ds.isEmpty || !rest.isEmpty then none
      else some (if minus then -(digitsToNat ds : Int) else digitsToNat ds)
    else none

/-- An unsigned decimal: digits with an optional fraction, at least one digit in
    all, and an optional exponent. -/
def unsigned? (s : List Char) : Option Decimal := do
  let (whole, s) := spanDigits s
  let (fraction, s) := match s with
    | '.' :: s => spanDigits s
    | s => ([], s)
  if whole.isEmpty && fraction.isEmpty then none
  let e ← exponent? s
  return ⟨digitsToNat (whole ++ fraction), e - fraction.length⟩

/-- The number that a text spells, if it spells one. -/
def ofText? (s : String) : Option Binary64 :=
  let (minus, s) := spanSign s.toList
  let word := String.ofList (s.map Char.toLower)
  let value? : Option Binary64 :=
    if word = "inf" || word = "infinity" then some infinity
    else if word = "nan" then some ⟨0x7ff8000000000000⟩
    else (unsigned? s).map ofDecimal
  value?.map fun x => if minus then x.neg else x

end Binary64

end TieredMachine
