/-
  TOML documents as data.

  A document is a table of values.  What a document says is a sequence of
  statements: headings, which name the table that is filled next, and
  assignments to keys of it.  `Table.ofStatements?` collects the statements and
  refuses documents that say one thing twice.
-/

namespace TieredMachine

namespace Toml

/-- A value of a document. -/
inductive Value where
  | string (s : String)
  | integer (n : Int)
  | float (text : String)
  | boolean (b : Bool)
  | datetime (text : String)
  | array (items : List Value)
  | table (entries : List (String × Value))
  deriving Repr, Inhabited

/-- Keys, from a table into the tables in it. -/
abbrev Path := List String

/-- A statement of a document. -/
inductive Statement where
  /-- what follows fills the table at a path -/
  | heading (path : Path)
  /-- what follows fills a new table in the array at a path -/
  | itemHeading (path : Path)
  | assign (path : Path) (v : Value)
  deriving Repr, Inhabited

/-! ## Tables under construction -/

/-- How a table came to be. -/
inductive Origin where
  /-- by a heading of its own -/
  | heading
  /-- by the heading of a table in it -/
  | passed
  /-- by a key of several parts -/
  | dotted
  deriving DecidableEq, Repr, Inhabited

/-- What a key of a table under construction stands for. -/
inductive Node where
  | leaf (v : Value)
  | table (origin : Origin) (entries : List (String × Node))
  /-- an array of tables, the last one in front -/
  | tables (items : List (List (String × Node)))
  deriving Inhabited

/-- The entries of a table under construction. -/
abbrev Entries := List (String × Node)

/-- The entries with the entry of a key changed; `change` is given what was
    there. -/
def alter (key : String) (change : Option Node → Option Node) : Entries → Option Entries
  | [] => (change none).map fun n => [(key, n)]
  | (k, n) :: rest =>
    if k = key then (change (some n)).map fun n => (k, n) :: rest
    else (alter key change rest).map ((k, n) :: ·)

/-- Changes the table at a path of headings. -/
def descend (change : Entries → Option Entries) : Path → Entries → Option Entries
  | [], entries => change entries
  | key :: path, entries => alter key (fun n => match n with
      | none => (descend change path []).map (.table .passed)
      | some (.table origin es) => (descend change path es).map (.table origin)
      | some (.tables (es :: others)) => (descend change path es).map fun es => .tables (es :: others)
      | some _ => none) entries

/-- Opens the table of a heading, which may have been passed before but not
    opened. -/
def openTable (path : Path) (entries : Entries) : Option Entries :=
  match path.getLast? with
  | none => none
  | some key => descend (alter key fun n => match n with
      | none => some (.table .heading [])
      | some (.table .passed es) => some (.table .heading es)
      | some _ => none) path.dropLast entries

/-- Opens a new table in an array of tables. -/
def openItem (path : Path) (entries : Entries) : Option Entries :=
  match path.getLast? with
  | none => none
  | some key => descend (alter key fun n => match n with
      | none => some (.tables [[]])
      | some (.tables items) => some (.tables ([] :: items))
      | some _ => none) path.dropLast entries

/-- Assigns to a key of one or several parts.  The parts before the last lead
    through tables that have no heading of their own and through the last table
    of an array; the table that is added to must have been made by such a key,
    unless the key has one part. -/
def assign (v : Value) : Path → Entries → Option Entries
  | [], _ => none
  | [key], entries => alter key (fun n => match n with
      | none => some (.leaf v)
      | some _ => none) entries
  | key :: path, entries => alter key (fun n => match n with
      | none => (assign v path []).map (.table .dotted)
      | some (.table .dotted es) => (assign v path es).map (.table .dotted)
      | some (.table .passed es) =>
        if path.length = 1 then none else (assign v path es).map (.table .passed)
      | some (.tables (es :: others)) =>
        if path.length = 1 then none
        else (assign v path es).map fun es => .tables (es :: others)
      | some _ => none) entries

/-- One more statement.  `path` is that of the last heading. -/
def addStatement (state : Path × Entries) : Statement → Option (Path × Entries)
  | .heading path => (openTable path state.2).map fun es => (path, es)
  | .itemHeading path => (openItem path state.2).map fun es => (path, es)
  | .assign key v => (descend (assign v key) state.1 state.2).map fun es => (state.1, es)

mutual

/-- The value of a node. -/
def Node.value : Node → Value
  | .leaf v => v
  | .table _ es => .table (entryValues es)
  | .tables items => .array (itemValues items).reverse

/-- The values of some entries. -/
def entryValues : Entries → List (String × Value)
  | [] => []
  | (k, n) :: rest => (k, n.value) :: entryValues rest

/-- The values of some tables. -/
def itemValues : List Entries → List Value
  | [] => []
  | es :: rest => .table (entryValues es) :: itemValues rest

end

/-- The table that some statements describe. -/
def ofStatements? (ss : List Statement) : Option (List (String × Value)) := do
  let (_, entries) ← ss.foldlM addStatement ([], [])
  return entryValues entries

end Toml

end TieredMachine
