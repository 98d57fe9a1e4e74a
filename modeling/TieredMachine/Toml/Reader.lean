/-
  Reading TOML.

  A reader takes characters off the front of a text and answers nothing when they
  are not what it reads.

  * `readValue`: strings, numbers, truth values, dates, arrays and inline tables;
  * `readStatements`: the statements of a document;
  * `read`: a whole document.

  Arrays and inline tables may be nested 79 deep, and a key has at most 79 parts.
-/
import TieredMachine.Toml.Basic
import TieredMachine.Binary64.Text

namespace TieredMachine

namespace Toml

/-- A reader. -/
abbrev Reader := StateT (List Char) Option

/-! ## Characters -/

/-- The next character, if there is one. -/
def peekChar : Reader (Option Char) := return (← get).head?

/-- Takes the next character. -/
def takeChar : Reader Char := do
  match ← get with
  | c :: rest =>
    set rest
    return c
  | [] => failure

/-- Takes the characters that a test holds of. -/
def takeWhile (p : Char → Bool) : Reader (List Char) := do
  let (taken, rest) := (← get).span p
  set rest
  return taken

/-- Takes a given text, if it is next. -/
def accept (text : String) : Reader Bool := do
  let s ← get
  if text.toList.isPrefixOf s then
    set (s.drop text.length)
    return true
  else return false

/-- Takes a given text. -/
def expect (text : String) : Reader Unit := do
  if !(← accept text) then failure

/-- Takes blanks within a line. -/
def skipBlanks : Reader Unit := do
  let _ ← takeWhile fun c => c = ' ' || c = '\t'

/-- Whether a character may stand in a comment or a literal string. -/
def isVisible (c : Char) : Bool :=
  c = '\t' || (0x20 ≤ c.toNat && c.toNat ≤ 0x7e) || 0x80 ≤ c.toNat

/-- Takes a comment, if there is one. -/
def skipComment : Reader Unit := do
  if ← accept "#" then
    let _ ← takeWhile isVisible

/-- Takes the end of a line, if it is next. -/
def acceptNewline : Reader Bool := do
  if ← accept "\n" then return true else accept "\r\n"

/-- Takes the end of a line, or is at the end of the text. -/
def endLine : Reader Unit := do
  skipBlanks
  skipComment
  if !(← acceptNewline) && (← peekChar).isSome then failure

/-- Takes blanks, comments and ends of lines, at most `fuel` lines of them. -/
def skipLines : Nat → Reader Unit
  | 0 => return
  | fuel + 1 => do
    skipBlanks
    skipComment
    if ← acceptNewline then skipLines fuel

/-- Takes blanks and ends of lines, at most `fuel` lines of them. -/
def skipBlankLines : Nat → Reader Unit
  | 0 => return
  | fuel + 1 => do
    skipBlanks
    if ← acceptNewline then skipBlankLines fuel

/-- Takes all blanks, comments and ends of lines. -/
def skipSpace : Reader Unit := do skipLines ((← get).length + 1)

/-! ## Strings -/

/-- The number that hexadecimal digits spell. -/
def hexNumber? (ds : List Char) : Option Nat :=
  ds.foldlM (fun n c =>
    let d := c.toNat
    if '0'.toNat ≤ d && d ≤ '9'.toNat then some (16 * n + (d - 48))
    else if 'a'.toNat ≤ d && d ≤ 'f'.toNat then some (16 * n + (d - 87))
    else if 'A'.toNat ≤ d && d ≤ 'F'.toNat then some (16 * n + (d - 55))
    else none) 0

/-- The character with a code point of so many hexadecimal digits. -/
def readCodePoint (digits : Nat) : Reader Char := do
  let s ← get
  let ds := s.take digits
  if ds.length < digits then failure
  match hexNumber? ds with
  | none => failure
  | some n =>
    if Nat.isValidChar n then
      set (s.drop digits)
      return Char.ofNat n
    else failure

/-- The character that stands behind a backslash. -/
def readEscape : Reader Char := do
  match ← takeChar with
  | 'b' => return '\x08'
  | 't' => return '\t'
  | 'n' => return '\n'
  | 'f' => return '\x0c'
  | 'r' => return '\r'
  | '"' => return '"'
  | '\\' => return '\\'
  | 'u' => readCodePoint 4
  | 'U' => readCodePoint 8
  | _ => failure

/-- The rest of a string on one line up to a quote; `escaping` when a backslash
    is special. -/
def readShort (quote : Char) (escaping : Bool) : Nat → List Char → Reader String
  | 0, _ => failure
  | fuel + 1, taken => do
    let c ← takeChar
    if c = quote then return .ofList taken.reverse
    else if escaping && c = '\\' then readShort quote escaping fuel ((← readEscape) :: taken)
    else if isVisible c then readShort quote escaping fuel (c :: taken)
    else failure

/-- The rest of a string on several lines up to three quotes. -/
def readLong (quote : Char) (escaping : Bool) : Nat → List Char → Reader String
  | 0, _ => failure
  | fuel + 1, taken => do
    let stop : List Char := [quote, quote, quote]
    let s ← get
    if stop.isPrefixOf s && !(quote :: stop).isPrefixOf s then
      set (s.drop 3)
      return .ofList taken.reverse
    else if (stop ++ stop).isPrefixOf s then failure
    else if ← acceptNewline then readLong quote escaping fuel ('\n' :: taken)
    else
      let c ← takeChar
      if escaping && c = '\\' then
        let here ← get
        skipBlanks
        if ← acceptNewline then
          skipBlankLines fuel
          readLong quote escaping fuel taken
        else
          set here
          readLong quote escaping fuel ((← readEscape) :: taken)
      else if isVisible c then readLong quote escaping fuel (c :: taken)
      else failure

/-- A string on one line. -/
def readString : Reader String := do
  let fuel := (← get).length + 1
  match ← takeChar with
  | '"' => readShort '"' true fuel []
  | '\x27' => readShort '\x27' false fuel []
  | _ => failure

/-- A string on one or several lines. -/
def readAnyString : Reader String := do
  let fuel := (← get).length + 1
  if ← accept "\"\"\"" then
    let _ ← acceptNewline
    readLong '"' true fuel []
  else if ← accept "\x27\x27\x27" then
    let _ ← acceptNewline
    readLong '\x27' false fuel []
  else readString

/-! ## Keys -/

/-- Whether a character may stand in a key without quotes. -/
def isBare (c : Char) : Bool := c.isAlphanum || c = '_' || c = '-'

/-- One part of a key. -/
def readKeyPart : Reader String := do
  match ← peekChar with
  | some '"' | some '\x27' => readString
  | _ =>
    let cs ← takeWhile isBare
    if cs.isEmpty then failure else return .ofList cs

/-- The parts of a key. -/
def readKeyParts : Nat → Reader Path
  | 0 => failure
  | fuel + 1 => do
    skipBlanks
    let part ← readKeyPart
    skipBlanks
    if ← accept "." then return part :: (← readKeyParts fuel) else return [part]

/-- The greatest depth of arrays and inline tables, and the greatest number of
    parts of a key. -/
def maxDepth : Nat := 79

/-- A key. -/
def readKey : Reader Path := do
  let path ← readKeyParts ((← get).length + 1)
  if maxDepth < path.length then failure
  return path

/-! ## Numbers and dates -/

/-- Digits in which single underscores stand between digits, without them. -/
def digits? (isDigit : Char → Bool) : List Char → Option (List Char)
  | [] => none
  | [c] => if isDigit c then some [c] else none
  | c :: '_' :: rest => if isDigit c then (digits? isDigit rest).map (c :: ·) else none
  | c :: rest => if isDigit c then (digits? isDigit rest).map (c :: ·) else none

/-- The number that digits of a base spell. -/
def number? (base : Nat) (ds : List Char) : Option Nat := do
  let isDigit (c : Char) : Bool := match hexNumber? [c] with
    | some d => d < base
    | none => false
  let ds ← digits? isDigit ds
  let value ← ds.mapM fun c => hexNumber? [c]
  return value.foldl (fun n d => base * n + d) 0

/-- Digits of which more than one do not begin with zero. -/
def isPlainNumber (ds : List Char) : Bool :=
  match digits? Char.isDigit ds with
  | some ('0' :: _ :: _) | none => false
  | some _ => true

/-- A sign and the rest. -/
def splitSign : List Char → Option Bool × List Char
  | '-' :: cs => (some true, cs)
  | '+' :: cs => (some false, cs)
  | cs => (none, cs)

/-- The integer that a text spells, if it has 64 bits. -/
def integer? (cs : List Char) : Option Int := do
  let n ← match splitSign cs with
    | (none, '0' :: 'x' :: ds) => (number? 16 ds).map Int.ofNat
    | (none, '0' :: 'o' :: ds) => (number? 8 ds).map Int.ofNat
    | (none, '0' :: 'b' :: ds) => (number? 2 ds).map Int.ofNat
    | (sign, ds) =>
      if isPlainNumber ds then
        (number? 10 ds).map fun n => if sign = some true then -(n : Int) else n
      else none
  if -(Int.pow 2 63) ≤ n ∧ n < Int.pow 2 63 then some n else none

/-- Whether a text is the exponent of a float, sign included. -/
def isExponent (cs : List Char) : Bool := (digits? Char.isDigit (splitSign cs).2).isSome

/-- Whether a decimal is beyond the greatest float. -/
def isTooGreat (cs : List Char) : Bool :=
  Binary64.ofText? (.ofList (cs.filter (· != '_'))) == some Binary64.infinity

/-- Whether a text spells a float.  A decimal may be too low for one but not too
    great. -/
def isFloat (cs : List Char) : Bool :=
  let body := (splitSign cs).2
  if body = "inf".toList || body = "nan".toList then true
  else
    let (mantissa, exponent) := body.span fun c => c != 'e' && c != 'E'
    let (whole, fraction) := mantissa.span (· != '.')
    isPlainNumber whole &&
      (match fraction with
        | [] => !exponent.isEmpty
        | _ :: ds => (digits? Char.isDigit ds).isSome) &&
      (match exponent with
        | [] => true
        | _ :: e => isExponent e) &&
      !isTooGreat cs

/-- Whether a text is so many digits, with a value in a range. -/
def isField (width low high : Nat) (cs : List Char) : Bool :=
  cs.length == width && cs.all Char.isDigit &&
    (match number? 10 cs with
      | some n => low ≤ n && n ≤ high
      | none => false)

/-- The number of days of a month. -/
def daysOf (year month : Nat) : Nat :=
  if month = 2 then
    if (year % 4 = 0 && year % 100 != 0) || year % 400 = 0 then 29 else 28
  else if month = 4 || month = 6 || month = 9 || month = 11 then 30
  else 31

/-- Whether a text spells a date. -/
def isDate (cs : List Char) : Bool :=
  let year := cs.take 4
  let month := (cs.drop 5).take 2
  cs.length == 10 && cs[4]? == some '-' && cs[7]? == some '-' && isField 4 0 9999 year &&
    isField 2 1 12 month &&
    isField 2 1 (daysOf ((number? 10 year).getD 0) ((number? 10 month).getD 0)) (cs.drop 8)

/-- Whether a text spells a time of day. -/
def isTime (cs : List Char) : Bool :=
  let fraction := cs.drop 8
  isField 2 0 23 (cs.take 2) && cs[2]? == some ':' && isField 2 0 59 ((cs.drop 3).take 2) &&
    cs[5]? == some ':' && isField 2 0 60 ((cs.drop 6).take 2) &&
    (match fraction with
      | [] => true
      | '.' :: ds => !ds.isEmpty && ds.all Char.isDigit
      | _ => false)

/-- Whether a text spells a shift against universal time. -/
def isOffset : List Char → Bool
  | [] | ['Z'] | ['z'] => true
  | c :: cs =>
    (c = '+' || c = '-') && cs.length == 5 && isField 2 0 23 (cs.take 2) &&
      cs[2]? == some ':' && isField 2 0 59 (cs.drop 3)

/-- Whether a text spells a date, a time, or both. -/
def isDatetime (cs : List Char) : Bool :=
  if isTime cs || isDate cs then true
  else
    let (time, offset) := (cs.drop 11).span fun c => c.isDigit || c = ':' || c = '.'
    isDate (cs.take 10) && (cs[10]?.any fun c => c = 'T' || c = 't' || c = ' ') &&
      isTime time && isOffset offset

/-- Whether a character may stand in a number or a date. -/
def isScalarChar (c : Char) : Bool :=
  c.isAlphanum || c = '+' || c = '-' || c = '_' || c = '.' || c = ':'

/-- A number, a date or a truth value.  A date and a time of day may have one
    blank between them. -/
def readScalar : Reader Value := do
  let word ← takeWhile isScalarChar
  let here ← get
  let word ← match isDate word, here with
    | true, ' ' :: c :: rest =>
      if c.isDigit then
        set (c :: rest)
        pure (word ++ ' ' :: (← takeWhile isScalarChar))
      else pure word
    | _, _ => pure word
  let text := String.ofList word
  if text = "true" then return .boolean true
  else if text = "false" then return .boolean false
  else match integer? word with
    | some n => return .integer n
    | none =>
      if isFloat word then return .float text
      else if isDatetime word then return .datetime text
      else failure

/-! ## Values -/

/-- The rest of an array up to its bracket. -/
def readItems (readItem : Reader Value) : Nat → Reader (List Value)
  | 0 => failure
  | fuel + 1 => do
    skipSpace
    if ← accept "]" then return []
    let v ← readItem
    skipSpace
    if ← accept "," then return v :: (← readItems readItem fuel)
    expect "]"
    return [v]

/-- The assignments of an inline table up to its brace. -/
def readPairs (readItem : Reader Value) : Nat → Reader (List (Path × Value))
  | 0 => failure
  | fuel + 1 => do
    let key ← readKey
    expect "="
    skipBlanks
    let v ← readItem
    skipBlanks
    if ← accept "," then return (key, v) :: (← readPairs readItem fuel)
    expect "\x7d"
    return [(key, v)]

/-- The table of the assignments of an inline table. -/
def inlineTable (pairs : List (Path × Value)) : Option Value :=
  (ofStatements? (pairs.map fun p => .assign p.1 p.2)).map .table

/-- A value that is no array and no inline table. -/
def readPlain : Reader Value := do
  match ← peekChar with
  | some '"' | some '\x27' => return .string (← readAnyString)
  | _ => readScalar

/-- A value, in which arrays and inline tables are nested at most so deep. -/
def readValue : Nat → Reader Value
  | 0 => readPlain
  | depth + 1 => do
    let fuel := (← get).length + 1
    match ← peekChar with
    | some '[' =>
      let _ ← takeChar
      return .array (← readItems (readValue depth) fuel)
    | some '\x7b' =>
      let _ ← takeChar
      skipBlanks
      if ← accept "\x7d" then return .table []
      else inlineTable (← readPairs (readValue depth) fuel)
    | _ => readPlain

/-! ## Documents -/

/-- A statement, with the end of its line. -/
def readStatement : Reader Statement := do
  if ← accept "[[" then
    let path ← readKey
    expect "]]"
    endLine
    return .itemHeading path
  else if ← accept "[" then
    let path ← readKey
    expect "]"
    endLine
    return .heading path
  else
    let path ← readKey
    expect "="
    skipBlanks
    let v ← readValue maxDepth
    endLine
    return .assign path v

/-- The statements that are left, at most `fuel` of them. -/
def readStatements : Nat → Reader (List Statement)
  | 0 => failure
  | fuel + 1 => do
    skipSpace
    if (← peekChar).isNone then return []
    let s ← readStatement
    return s :: (← readStatements fuel)

/-- The table that a document describes. -/
def read (text : String) : Option (List (String × Value)) := do
  let cs := match text.toList with
    | '\ufeff' :: cs => cs
    | cs => cs
  let (ss, _) ← (readStatements (cs.length + 1)).run cs
  ofStatements? ss

end Toml

end TieredMachine
