/-
  Control-flow graphs of code units.

  Lowering turns a unit into basic blocks.  The operations of a block are the
  primitives of the unit together with what native code needs to stay
  interchangeable with the interpreter: where an instruction begins, where to
  look for a request to leave, and what has to hold for a specialized operation.

  * `Op`, `Terminator`, `GraphBlock`: operations, the ways out of a block, and
    blocks;
  * `Handler`, `Assumption`: the blocks of the block stack that the graph
    knows, and the global bindings it relies on;
  * `Graph`: the lowered unit; `Graph.blockAt?` and `Graph.resumeBlock?` find the
    block to continue in by an index of the code.
-/
import TieredMachine.Tier.Basic
import TieredMachine.Tier.Feedback
import TieredMachine.Code.Unit

namespace TieredMachine

/-- The number of a block in its graph. -/
abbrev BlockId := Nat

/-- The number of a handler in its graph. -/
abbrev HandlerId := Nat

/-- The written form of a block's number. -/
def blockText (b : BlockId) : String := s!"bb{b}"

/-- The written form of a handler's number. -/
def handlerText (h : HandlerId) : String := s!"h{h}"

/-- A block setup of the unit. -/
structure Handler where
  kind : BlockKind
  /-- the instruction that sets the block up -/
  setupIp : Nat
  /-- the instruction that handles -/
  targetIp : Nat
  /-- the block that begins there -/
  target : BlockId
  /-- the height of the value stack at the setup, if it is reached -/
  depth : Option Nat
  /-- the handler around it -/
  parent : Option HandlerId
  deriving DecidableEq, Repr, Inhabited

/-- What is special about a place where running code may be left. -/
inductive SafePointKind where
  /-- a source line begins -/
  | line
  /-- a backward jump lands -/
  | backedge
  deriving DecidableEq, Repr, Inhabited

namespace SafePointKind

/-- The kind's own name. -/
def label : SafePointKind → String
  | line => "Line"
  | backedge => "Backedge"

/-- Why a frame leaves native code here when a tracer is installed. -/
def traceReason : SafePointKind → BailReason
  | line => .lineTrace
  | backedge => .backedgeTrace

end SafePointKind

/-- Namespaces at certain versions. -/
structure Versions where
  globals : Ref
  globalsVersion : UInt64
  builtins : Ref
  builtinsVersion : UInt64
  deriving DecidableEq, Repr, Inhabited

/-- A binding of a global name that specialized code relies on. -/
structure Assumption where
  name : String
  value : Value
  /-- whether the name was found among the builtins -/
  builtin : Bool
  versions : Versions
  deriving DecidableEq, Repr, Inhabited

/-- An operation. -/
inductive Op where
  /-- look for a tracer or a request to leave -/
  | safePoint (kind : SafePointKind)
  /-- leave for good unless the namespaces are as they were -/
  | guardGlobals (v : Versions)
  /-- an instruction begins; the following one starts at `next` -/
  | begin_ (next : Nat)
  /-- run a primitive -/
  | prim (p : Primitive)
  /-- push the block of a handler -/
  | pushHandler (h : HandlerId)
  /-- push the value of an assumption -/
  | loadCached (a : Nat)
  /-- call a callee that is expected -/
  | callDirect (arg : Nat) (expected : Value)
  /-- a binary operator that only saw integers -/
  | intBinary (op : Opcode)
  deriving DecidableEq, Repr, Inhabited

/-- An operation and the place that it comes from. -/
structure Inst where
  site : Site
  op : Op
  deriving DecidableEq, Repr, Inhabited

/-- How control leaves a block. -/
inductive Terminator where
  /-- to another block -/
  | goto (b : BlockId)
  /-- by a conditional jump, either way -/
  | branch (op : Opcode) (arg : Nat) (site : Site) (taken fallthrough : BlockId)
  /-- by a conditional jump that is expected to find `expected` -/
  | speculate (op : Opcode) (arg : Nat) (site : Site) (expected : Bool) (next : BlockId)
  /-- with the next item of an iterator, or past the loop -/
  | forIter (arg : Nat) (site : Site) (body exit : BlockId)
  | return_ (site : Site)
  /-- out of a generator, which resumes in another block -/
  | yield_ (site : Site) (resume : BlockId)
  /-- as the block stack decides -/
  | unwind (p : Primitive) (site : Site) (fallthrough : Option BlockId)
  /-- off the end of the code -/
  | trap (ip : Nat)
  deriving DecidableEq, Repr, Inhabited

namespace Terminator

/-- The blocks that control may go to without the block stack. -/
def successors : Terminator → List BlockId
  | goto b => [b]
  | branch _ _ _ taken fallthrough => [taken, fallthrough]
  | speculate _ _ _ _ next => [next]
  | forIter _ _ body exit => [body, exit]
  | yield_ _ resume => [resume]
  | unwind _ _ fallthrough => fallthrough.toList
  | return_ _ | trap _ => []

/-- The terminator with its successors renamed. -/
def mapBlocks (f : BlockId → BlockId) : Terminator → Terminator
  | goto b => goto (f b)
  | branch op arg site taken fallthrough => branch op arg site (f taken) (f fallthrough)
  | speculate op arg site expected next => speculate op arg site expected (f next)
  | forIter arg site body exit => forIter arg site (f body) (f exit)
  | yield_ site resume => yield_ site (f resume)
  | unwind p site fallthrough => unwind p site (fallthrough.map f)
  | return_ site => return_ site
  | trap ip => trap ip

/-- Renaming blocks renames the successors. -/
theorem successors_mapBlocks (f : BlockId → BlockId) (t : Terminator) :
    (t.mapBlocks f).successors = t.successors.map f := by
  cases t with
  | unwind _ _ o => cases o <;> rfl
  | _ => rfl

end Terminator

/-- A block: operations that run in order, and a way out. -/
structure GraphBlock where
  id : BlockId
  /-- the index of the first instruction -/
  start : Nat
  insts : List Inst
  term : Terminator
  /-- the height of the value stack on entry, if the block is reached -/
  depth : Option Nat
  /-- the handlers in force on entry, the innermost first -/
  handlers : List HandlerId
  deriving Repr, Inhabited

namespace GraphBlock

/-- Whether the block does nothing but begin a jump and go on. -/
def isTrivialJump (b : GraphBlock) : Bool :=
  match b.term, b.insts with
  | .goto _, [⟨_, .begin_ _⟩] => true
  | _, _ => false

end GraphBlock

/-- A lowered code unit. -/
structure Graph where
  name : String
  /-- the number of the unit -/
  unit : Ref
  level : OptLevel
  /-- the blocks in the order of their starts, each at the place of its
      number -/
  blocks : Array GraphBlock
  entry : BlockId
  handlers : Array Handler
  /-- for each suspending instruction, the block to resume in -/
  resume : List (Nat × BlockId)
  assumptions : Array Assumption
  /-- the constants of the unit -/
  consts : Array Value
  /-- the greatest height of the value stack -/
  maxDepth : Nat
  argcount : Nat
  localCount : Nat
  isGenerator : Bool
  /-- the number of binary operators that saw operands other than integers -/
  mixedSites : Nat
  deriving Inhabited

namespace Graph

variable (g : Graph)

/-- A block. -/
def block (b : BlockId) : GraphBlock := g.blocks[b]?.getD default

/-- A handler. -/
def handler (h : HandlerId) : Handler := g.handlers[h]?.getD default

/-- The block that starts exactly at an index. -/
def blockAt? (ip : Nat) : Option BlockId := (g.blocks.find? (·.start == ip)).map (·.id)

/-- The block in which a generator suspended at an index resumes. -/
def resumeBlock? (lasti : Nat) : Option BlockId := g.resume.lookup lasti

/-- Whether the graph relies on bindings of global names. -/
def assumesGlobals : Bool := !g.assumptions.isEmpty

/-- The blocks that control may go to from a block, handlers pushed in it
    included. -/
def successors (b : BlockId) : List BlockId :=
  let blk := g.block b
  blk.term.successors ++ blk.insts.filterMap fun i => match i.op with
    | .pushHandler h => some (g.handler h).target
    | _ => none

/-- The number of guards. -/
def guardCount : Nat :=
  (g.blocks.toList.map fun b =>
    (b.insts.filter fun i => match i.op with
      | .guardGlobals _ | .callDirect _ _ => true
      | _ => false).length +
    (match b.term with
      | .speculate .. => 1
      | _ => 0)).foldl (· + ·) 0

/-- The number of instructions. -/
def instructionCount : Nat :=
  (g.blocks.toList.map fun b =>
    (b.insts.filter fun i => match i.op with
      | .begin_ _ => true
      | _ => false).length).foldl (· + ·) 0

end Graph

end TieredMachine
