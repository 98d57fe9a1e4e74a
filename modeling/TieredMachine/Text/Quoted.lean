/-
  Quoted text.

  * `quote`: the guest's quoting, between single quotes, where a backslash and
    a single quote get a backslash in front;
  * `inspect`: the quoting of diagnostics, between double quotes, where
    characters that cannot be shown are written by their code points;
  * `trim`: a text without the blanks at its ends.
-/
import TieredMachine.Text.Columns
import TieredMachine.Text.Hidden

namespace TieredMachine

namespace Text

/-! ## The guest's quoting -/

/-- The written form of one character between single quotes. -/
def quoteChar (c : Char) : List Char :=
  if c = '\\' then ['\\', '\\'] else if c = '\x27' then ['\\', '\x27'] else [c]

/-- A text between single quotes. -/
def quote (s : String) : String :=
  String.ofList ('\x27' :: s.toList.flatMap quoteChar ++ ['\x27'])

/-! ## The quoting of diagnostics -/

/-- The written form of one character between double quotes. -/
def inspectChar (c : Char) : String :=
  if c = '\x00' then "\\0"
  else if c = '\t' then "\\t"
  else if c = '\r' then "\\r"
  else if c = '\n' then "\\n"
  else if c = '"' then "\\\""
  else if c = '\\' then "\\\\"
  else if c.toNat < 32 || (126 < c.toNat && isHidden c) then
    "\\u\x7b" ++ hex c.toNat ++ "\x7d"
  else c.toString

/-- A text between double quotes. -/
def inspect (s : String) : String :=
  "\"" ++ String.join (s.toList.map inspectChar) ++ "\""

/-! ## Blanks -/

/-- The characters that count as blank. -/
def isBlank (c : Char) : Bool :=
  let n := c.toNat
  (9 ≤ n && n ≤ 13) || n = 0x20 || n = 0x85 || n = 0xa0 || n = 0x1680 ||
    (0x2000 ≤ n && n ≤ 0x200a) || n = 0x2028 || n = 0x2029 || n = 0x202f || n = 0x205f ||
    n = 0x3000

/-- A text without the blanks at both ends. -/
def trim (s : String) : String :=
  String.ofList (((s.toList.dropWhile isBlank).reverse.dropWhile isBlank).reverse)

/-- The parts of a list of texts with a separator between them. -/
def join (sep : String) (parts : List String) : String := sep.intercalate parts

/-- Whether a text occurs in another one; the empty text occurs in every
    text. -/
def occursIn (part : List Char) : List Char → Bool
  | [] => part.isEmpty
  | c :: s => part.isPrefixOf (c :: s) || occursIn part s

end Text

end TieredMachine
