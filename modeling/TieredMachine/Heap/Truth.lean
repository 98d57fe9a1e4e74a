/-
  Truth values and dictionary keys of values.

  * `Heap.truth`: whether a value counts as true;
  * `Heap.key`: what a value is looked up by in a dictionary, or the kind of
    value that cannot be a key.
-/
import TieredMachine.Heap.Text

namespace TieredMachine

namespace Heap

variable (h : Heap)

/-- Whether a value counts as true: it is not nothing, zero or empty. -/
def truth : Value → Bool
  | .none | .notImplemented => false
  | .bool b => b
  | .int n => n ≠ 0
  | .float x => !x.feq .zero
  | .str s => !s.isEmpty
  | .tuple r => !(h.tuple r).isEmpty
  | .list r => !(h.list r).isEmpty
  | .dict r => !(h.dict r).isEmpty
  | _ => true

/-- The dictionary key of a value, following at most `fuel` tuples into each
    other; or the kind of a value in it that is no key. -/
def keyWithin (fuel : Nat) (v : Value) : Except TypeTag Key :=
  match fuel with
  | 0 => .ok (.object v)
  | fuel + 1 =>
    match v with
    | .none => .ok .none
    | .bool b => .ok (.int (if b then 1 else 0))
    | .int n => .ok (.int n)
    | .float x => .ok (.ofFloat x)
    | .str s => .ok (.str s)
    | .tuple r => do
      let keys ← (h.tuple r).toList.mapM (keyWithin fuel)
      return keys.foldr .cons .nil
    | .list _ | .dict _ | .slice _ => .error v.tag
    | .excType kind => .ok (.excType kind)
    | v => .ok (.object v)

/-- The dictionary key of a value, or the kind of a value in it that is no
    key. -/
def key (v : Value) : Except TypeTag Key := h.keyWithin (h.depth + 1) v

end Heap

end TieredMachine
