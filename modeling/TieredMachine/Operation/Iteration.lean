/-
  Iteration.

  * `iterate`: the iterator of a value;
  * `advance?`: the next item of an iterator;
  * `collect`: every item of a value.

  A list is iterated by position, so items appended meanwhile are seen; the keys
  of a dictionary are those at the start.  A generator is its own iterator, and
  so is whatever the special method of an instance answers.
-/
import TieredMachine.Operation.Generator

namespace TieredMachine

/-- The wording for a value that has no iterator. -/
def notIterable {α : Type} (v : Value) : Exec α :=
  typeError s!"'{v.typeName}' object is not iterable"

/-- The iterator of a value. -/
def iterate (g : Guest) (v : Value) : Exec Value := do
  match v with
  | .list r => alloc (·.newIterator (.list r 0))
  | .tuple r => alloc fun h => h.newIterator (.items (h.tuple r) 0)
  | .str s =>
    let chars := s.toList.map fun c => Value.str c.toString
    alloc (·.newIterator (.items chars.toArray 0))
  | .dict r => alloc fun h => h.newIterator (.items (h.dict r).keys.toArray 0)
  | .iterator _ | .generator _ => return v
  | .inst _ =>
    match ← callSpecial g v "__iter__" [] with
    | .notImplemented => notIterable v
    | it => return it
  | v => notIterable v

/-- The next item of an iterator's state, and the state after it. -/
def IterState.next? (h : Heap) : IterState → Option (Value × IterState)
  | .list r i => (h.list r)[i]?.map fun v => (v, .list r (i + 1))
  | .items vs i => vs[i]?.map fun v => (v, .items vs (i + 1))
  | .range r => r.next?.map fun p => (.int p.1, .range p.2)

/-- The wording for a value that is no iterator. -/
def notIterator {α : Type} (v : Value) : Exec α :=
  typeError s!"'{v.typeName}' object is not an iterator"

/-- The next item of an iterator; nothing when there is none left.  A generator
    or an instance says so by raising `StopIteration`. -/
def advance? (g : Guest) (it : Value) : Exec (Option Value) := do
  match it with
  | .iterator r =>
    let h ← heap
    match (h.iterator r).next? h with
    | none => return none
    | some (v, state) =>
      modifyHeap fun h => { h with iterators := h.iterators.setIfInBounds r state }
      return some v
  | .generator r =>
    catching .stopIteration (some <$> sendTo g r .none) (return none)
  | .inst _ =>
    let next : Exec (Option Value) := some <$> callSpecial g it "next" []
    match ← catching .stopIteration next (return none) with
    | some .notImplemented => notIterator it
    | answer => return answer
  | it => notIterator it

/-- Every item that is left in an iterator, after those in `items`. -/
def drain (g : Guest) (it : Value) : Nat → Array Value → Exec (List Value)
  | 0, _ => throw .outOfFuel
  | fuel + 1, items => do
    match ← advance? g it with
    | none => return items.toList
    | some v => drain g it fuel (items.push v)

/-- Every item of a value, in order. -/
def collect (g : Guest) (v : Value) : Exec (List Value) := do
  match v with
  | .list r => return ((← heap).list r).toList
  | .tuple r => return ((← heap).tuple r).toList
  | v => drain g (← iterate g v) g.fuel #[]

end TieredMachine
