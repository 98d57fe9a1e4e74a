/-
  Dictionaries in insertion order.

  A dictionary keeps its entries in the order in which their keys were first
  inserted, and an index from keys to entries.  Keys are compared by their
  `Key`, the part of a value that hashing sees: numbers that compare equal have
  equal keys.  An erased entry leaves a gap, so the positions in the index stay
  right.

  * `Key`: what keys are compared by;
  * `Dict.insert`, `Dict.erase`, `Dict.get?`, `Dict.contains`: by key;
  * `Dict.toList`: the entries in order.
-/
import TieredMachine.Value.Basic
import TieredMachine.Text.Columns
import Std.Data.HashMap

namespace TieredMachine

/-- What keys are compared by.  A tuple is the sequence of its items' keys,
    written with `nil` and `cons`. -/
inductive Key where
  | none
  | int (n : Int64)
  | float (x : Binary64)
  | str (s : String)
  | nil
  | cons (head tail : Key)
  | excType (kind : ExceptionKind)
  /-- an object that is only equal to itself -/
  | object (v : Value)
  deriving DecidableEq, Repr, Inhabited, Hashable

namespace Key

/-- The key of a float: the key of the integer that it equals, if it is one of
    moderate size. -/
def ofFloat (x : Binary64) : Key :=
  if x.isIntegral && x.abs.flt (Binary64.ofFloat 9.2e18) then .int x.toInt64 else .float x

/-- The key in diagnostics. -/
def inspect : Key → String
  | none => "None"
  | int n => s!"Int({n.toInt})"
  | float x => s!"Float({Text.hexPadded 16 x.bits.toNat})"
  | str _ => "Str"
  | nil | cons .. => "Tuple"
  | excType _ => "ExcType"
  | object _ => "Identity"

end Key

/-- A dictionary. -/
structure Dict where
  /-- the position of the entry of each key -/
  index : Std.HashMap Key Nat := ∅
  /-- the entries in order, with a gap for each erased one -/
  entries : Array (Option (Value × Value)) := #[]
  /-- the number of entries that are no gaps -/
  size : Nat := 0
  deriving Inhabited

namespace Dict

variable (d : Dict)

/-- Whether there is no entry. -/
def isEmpty : Bool := d.size == 0

/-- The value of a key. -/
def get? (k : Key) : Option Value := do
  let i ← d.index[k]?
  let entry ← d.entries[i]?.join
  return entry.2

/-- Whether there is an entry of a key. -/
def contains (k : Key) : Bool := d.index.contains k

/-- Sets the value of a key.  An entry that is there keeps its place and the key
    object that it was inserted with. -/
def insert (k : Key) (key value : Value) : Dict :=
  match d.index[k]? with
  | some i =>
    { d with entries := d.entries.modify i fun e => e.map fun p => (p.1, value) }
  | none =>
    { index := d.index.insert k d.entries.size
      entries := d.entries.push (some (key, value))
      size := d.size + 1 }

/-- Erases the entry of a key. -/
def erase (k : Key) : Dict :=
  match d.index[k]? with
  | some i =>
    { index := d.index.erase k, entries := d.entries.setIfInBounds i none, size := d.size - 1 }
  | none => d

/-- The entries, in order. -/
def toList : List (Value × Value) := d.entries.toList.filterMap fun e => e

/-- The keys, in order. -/
def keys : List Value := d.toList.map (·.1)

end Dict

end TieredMachine
