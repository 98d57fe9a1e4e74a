/-
  Text in columns: padding to a width.
-/

namespace TieredMachine

namespace Text

/-- `s` filled with blanks on the right up to a width. -/
def padRight (width : Nat) (s : String) : String :=
  s ++ String.ofList (List.replicate (width - s.length) ' ')

/-- `s` filled with blanks on the left up to a width. -/
def padLeft (width : Nat) (s : String) : String :=
  String.ofList (List.replicate (width - s.length) ' ') ++ s

/-- The digits of a number in base sixteen. -/
def hex (n : Nat) : String := String.ofList (Nat.toDigits 16 n)

/-- The digits of a number in base sixteen, zeros in front up to a width. -/
def hexPadded (width : Nat) (n : Nat) : String :=
  let ds := Nat.toDigits 16 n
  String.ofList (List.replicate (width - ds.length) '0' ++ ds)

end Text

end TieredMachine
