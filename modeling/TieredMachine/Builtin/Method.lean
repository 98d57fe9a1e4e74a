/-
  The methods of built-in types.

  A method takes its receiver as the first argument.  A receiver of another type
  is answered by `None`, or by an empty list where a list is answered.
-/
import TieredMachine.Builtin.Function

namespace TieredMachine

namespace BuiltinFn

/-! ## Lists -/

/-- Appends an item to a list. -/
def append (args : List Value) : Exec Value := do
  exactly "append" 2 args
  match args with
  | [.list r, v] => modifyList r (·.push v)
  | _ => pure ()
  return .none

/-- Takes the item at an index, or the last one, out of a list. -/
def popItem (args : List Value) : Exec Value := do
  between "pop" 1 2 args
  match args with
  | .list r :: index =>
    let items := (← heap).list r
    if items.isEmpty then indexError "pop from empty list"
    let p ← match index with
      | i :: _ =>
        match Sequence.position? (← intArg "pop" i) items.size with
        | some p => pure p
        | none => indexError "pop index out of range"
      | [] => pure (items.size - 1)
    let v := items[p]?.getD .none
    modifyList r (·.eraseIdxIfInBounds p)
    return v
  | _ => return .none

/-- Appends the items of a value to a list. -/
def extend (g : Guest) (args : List Value) : Exec Value := do
  exactly "extend" 2 args
  match args with
  | [receiver, v] =>
    let items ← collect g v
    match receiver with
    | .list r => modifyList r (· ++ items.toArray)
    | _ => pure ()
  | _ => pure ()
  return .none

/-! ## Dictionaries and texts -/

/-- The value of a key, or a default. -/
def getItem (args : List Value) : Exec Value := do
  between "get" 2 3 args
  match args with
  | .dict r :: key :: default => return (← dictGet? r key).getD (default.headD .none)
  | _ => return .none

/-- A list of something about the entries of a dictionary. -/
def entryList (name : String) (part : Value × Value → Exec Value) (args : List Value) :
    Exec Value := do
  exactly name 1 args
  match args with
  | [.dict r] => newList (← ((← heap).dict r).toList.mapM part)
  | _ => newList []

/-- The texts among some items, up to the first item that is none. -/
def textParts : Nat → List Value → Exec (List String)
  | _, [] => return []
  | n, .str s :: rest => return s :: (← textParts (n + 1) rest)
  | n, v :: _ => typeError s!"sequence item {n}: expected string, {v.typeName} found"

/-- The items of a value with a separator between them. -/
def joinTexts (g : Guest) (args : List Value) : Exec Value := do
  exactly "join" 2 args
  match args with
  | [.str sep, v] => return .str (Text.join sep (← textParts 0 (← collect g v)))
  | _ => return .none

/-! ## Generators -/

/-- Resumes a generator with a value. -/
def send (g : Guest) (args : List Value) : Exec Value := do
  exactly "send" 2 args
  match args with
  | [.generator r, v] => sendTo g r v
  | _ => return .none

/-- Resumes a generator with `None`. -/
def resumeNext (g : Guest) (args : List Value) : Exec Value := do
  exactly "next" 1 args
  match args with
  | [.generator r] => sendTo g r .none
  | _ => return .none

/-- The exception that a class or an exception object and a value stand for when
    they are thrown. -/
def thrown (exc : Value) (value : Option Value) : Exec Ref := do
  let h ← heap
  match exc, value with
  | .exception e, _ => return e
  | .excType kind, some (.exception e) =>
    if (h.exception e).kind = kind then return e
    else newException kind [.exception e]
  | .excType kind, some v => newException kind [v]
  | .excType kind, none => newException kind []
  | v, _ => typeError s!"exceptions must be classes or instances, not {v.typeName}"

/-- Resumes a generator by raising an exception. -/
def throwInto (g : Guest) (args : List Value) : Exec Value := do
  between "throw" 2 3 args
  match args with
  | receiver :: exc :: value =>
    let e ← thrown exc value.head?
    match receiver with
    | .generator r => throwTo g r e
    | _ => return .none
  | _ => return .none

/-- Ends a generator. -/
def close (g : Guest) (args : List Value) : Exec Value := do
  exactly "close" 1 args
  match args with
  | [.generator r] => closeGenerator g r
  | _ => pure ()
  return .none

end BuiltinFn

end TieredMachine
