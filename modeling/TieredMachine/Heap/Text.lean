/-
  Written forms of values.

  * `Heap.display`: a value as `str` shows it;
  * `Heap.repr`: a value as `repr` shows it, which differs for texts: they are
    quoted;
  * `Heap.message`, `Heap.describe`: an exception's message, and its class with
    the message;
  * `Heap.inspect`: a value in diagnostics, where an exception shows its class.

  A container is written with its items, so writing follows references.  It
  stops after as many references as there are containers; no chain of distinct
  containers is longer.
-/
import TieredMachine.Heap.Basic
import TieredMachine.Binary64.Text
import TieredMachine.Integer.Arithmetic

namespace TieredMachine

namespace Heap

/-- The items of a sequence between brackets. -/
def bracket (left right : String) (items : List String) : String :=
  left ++ Text.join ", " items ++ right

/-- A tuple of written items; a single one is followed by a comma. -/
def tupleText : List String → String
  | [item] => s!"({item},)"
  | items => bracket "(" ")" items

/-- A value as `str` or, quoted, as `repr` shows it, following at most `fuel`
    references. -/
def write (h : Heap) : Nat → Bool → Value → String
  | 0, _, _ => "..."
  | fuel + 1, quoted, v =>
    let item (v : Value) : String := write h fuel true v
    match v with
    | .none => "None"
    | .notImplemented => "NotImplemented"
    | .bool b => if b then "True" else "False"
    | .int n => Integer.text n
    | .float x => x.text
    | .str s => if quoted then Text.quote s else s
    | .tuple r => tupleText ((h.tuple r).toList.map item)
    | .list r => bracket "[" "]" ((h.list r).toList.map item)
    | .dict r =>
      bracket "\x7b" "\x7d" ((h.dict r).toList.map fun p => item p.1 ++ ": " ++ item p.2)
    | .slice r =>
      let s := h.slice r
      bracket "slice(" ")" [item s.start, item s.stop, item s.step]
    | .function r => s!"<function {(h.function r).name}>"
    | .builtin r => s!"<built-in function {(h.builtin r).name}>"
    | .method r => s!"<bound method of {(h.method r).receiver.typeName}>"
    | .classObj r => s!"<class {(h.classObj r).name}>"
    | .inst r => s!"<{(h.classObj (h.inst r).classRef).name} instance>"
    | .code r => s!"<code object {(h.unit r).name}>"
    | .cell _ => "<cell>"
    | .iterator _ => "<iterator>"
    | .generator r => s!"<generator object {(h.generator r).name}>"
    | .excType k => "<type " ++ Text.quote k.name ++ ">"
    | .exception r =>
      match (h.exception r).args.toList with
      | [] => ""
      | [arg] => write h fuel false arg
      | args => tupleText (args.map item)
    | .traceback _ => "<traceback>"

variable (h : Heap)

/-- A bound on the length of a chain of distinct containers. -/
def depth : Nat :=
  h.tuples.size + h.lists.size + h.dicts.size + h.slices.size + h.exceptions.size + 1

/-- A value as `str` shows it. -/
def display (v : Value) : String := h.write (h.depth + 1) false v

/-- A value as `repr` shows it. -/
def repr (v : Value) : String := h.write (h.depth + 1) true v

/-- The message of an exception: its only argument, or all of them as a
    tuple. -/
def message (exc : Ref) : String := h.display (.exception exc)

/-- The class of an exception and, unless it is empty, its message. -/
def describe (exc : Ref) : String :=
  let kind := (h.exception exc).kind.name
  let message := h.message exc
  if message.isEmpty then kind else s!"{kind}: {message}"

/-- A value in diagnostics. -/
def inspect (v : Value) : String :=
  match v with
  | .exception r => s!"{(h.exception r).kind.name}({Text.inspect (h.message r)})"
  | v => h.repr v

/-- A frame of a traceback. -/
def entryText (e : TracebackEntry) : String :=
  let locals := e.locals.map fun p => s!"{p.1}: {h.repr p.2}"
  s!"{e.function} line {e.line} (lasti {e.lasti}) " ++ bracket "\x7b" "\x7d" locals

/-- The frames of an exception's traceback. -/
def tracebackText (exc : Ref) : List String :=
  (h.exception exc).traceback.toList.map h.entryText

/-- The wording of a fault; a guest exception is described. -/
def faultMessage : Fault → String
  | .raised exc => h.describe exc
  | fault => fault.message

/-- A generator in diagnostics. -/
def inspectGenerator (r : Ref) : String :=
  let g := h.generator r
  s!"Generator \x7b name: {Text.inspect g.name}, finished: {g.isFinished} \x7d"

/-- An optional index in diagnostics. -/
def inspectIndex? : Option Nat → String
  | none => "None"
  | some i => s!"Some({i})"

/-- A block in diagnostics. -/
def inspectBlock (b : Block) : String :=
  s!"Block \x7b kind: {b.kind.label}, handler: {b.handler}, level: {b.level} \x7d"

/-- A frame in diagnostics. -/
def inspectFrame (f : Frame) : String :=
  let stack := bracket "[" "]" (f.stack.reverse.map h.inspect)
  let blocks := bracket "[" "]" (f.blocks.reverse.map inspectBlock)
  s!"Frame \x7b code: {Text.inspect f.code.name}, ip: {f.ip}, " ++
    s!"lasti: {inspectIndex? f.lasti}, stack: {stack}, blocks: {blocks} \x7d"

end Heap

end TieredMachine
