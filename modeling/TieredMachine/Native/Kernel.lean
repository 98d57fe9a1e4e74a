/-
  Integer kernels.

  A unit that only computes with integers in its local variables is compiled to
  a kernel: straight-line operations on 64-bit words.  The kinds of the words on
  the stack are settled at compile time, so a running kernel has bare words.

  Stores to local variables wait until their instruction is over.  A kernel that
  cannot go on therefore leaves at the start of an instruction, where the frame
  can be rebuilt: at a *bail point*, which knows the index, the kinds of the
  words on the stack and the blocks in force.

  * `Kernel.compile`: the kernel of a graph, or why there is none;
  * `Kernel.start`, `Kernel.run`: running a kernel on the words of the local
    variables.
-/
import TieredMachine.Graph.Basic
import TieredMachine.Frame

namespace TieredMachine

namespace Kernel

/-! ## Kernel code -/

/-- What a word on the stack stands for. -/
inductive Kind where
  | int
  | bool
  deriving DecidableEq, Repr, Inhabited

/-- Why a kernel is left at a bail point. -/
inductive BailKind where
  | safePoint (kind : SafePointKind)
  | guard
  deriving DecidableEq, Repr, Inhabited

/-- Where a kernel may be left, and the state of the frame there. -/
structure BailPoint where
  ip : Nat
  lasti : Nat
  kind : BailKind
  /-- the kinds of the words on the stack, the top first -/
  stack : List Kind
  blocks : List Block
  deriving DecidableEq, Repr, Inhabited

/-- An operation of a kernel.  `bail` is the number of a bail point. -/
inductive Op where
  /-- write the waiting stores to the local variables -/
  | commit
  /-- leave when a tracer or a request to leave is there -/
  | poll (bail : Nat)
  /-- an instruction begins: remember the stack -/
  | mark
  | const (w : Int64)
  /-- push a local variable, or leave when it is unbound -/
  | load (i : Nat) (bail : Nat)
  /-- push the value of a waiting store -/
  | loadWaiting (i : Nat)
  /-- pop into a waiting store -/
  | store (i : Nat)
  | pop | dup | rotTwo | rotThree
  /-- cut the stack down to a height -/
  | truncate (level : Nat)
  /-- turn the sign, or leave on overflow -/
  | neg (bail : Nat)
  /-- add, subtract or multiply, or leave on overflow -/
  | arith (op : BinaryOp) (bail : Nat)
  | bitwise (op : BinaryOp)
  | compare (op : CmpOp)
  deriving DecidableEq, Repr, Inhabited

/-- The way out of a block of a kernel. -/
inductive Exit where
  | goto (b : BlockId)
  /-- to the first block when the topmost word is not zero -/
  | branch (ifTrue ifFalse : BlockId)
  /-- on when the topmost word is as expected, or leave -/
  | speculate (expected : Bool) (bail : Nat) (next : BlockId)
  | return_ (kind : Kind)
  deriving DecidableEq, Repr, Inhabited

/-- A block of a kernel. -/
structure Code where
  ops : List Op
  exit : Exit
  deriving Repr, Inhabited

end Kernel

/-- A compiled kernel. -/
structure Kernel where
  /-- the code of each block of the graph that is reached -/
  blocks : Array (Option Kernel.Code)
  entry : BlockId
  bails : Array Kernel.BailPoint
  localCount : Nat
  deriving Inhabited

namespace Kernel

/-! ## Compilation -/

/-- What is known at a place of the graph during compilation. -/
structure State where
  bails : Array BailPoint := #[]
  /-- the kinds of the words on the stack, the top first -/
  stack : List Kind := []
  blocks : List Block := []
  /-- the bail point of the instruction's start -/
  start : Option BailPoint := none
  next : Nat := 0
  /-- the local variables with waiting stores -/
  waiting : List Nat := []
  deriving Inhabited

/-- A step of compilation. -/
abbrev Build := StateT State (Except CompileError)

/-- The graph is no kernel. -/
def reject {α : Type} (why : String) : Build α := throw (.notCompilable why)

/-- Adds a bail point and answers its number. -/
def bailAt (p : BailPoint) : Build Nat := do
  let s ← get
  set { s with bails := s.bails.push p }
  return s.bails.size

/-- The bail point of a place, with the state as it is. -/
def pointHere (ip : Nat) (kind : BailKind) : Build BailPoint := do
  let s ← get
  return ⟨ip, ip, kind, s.stack, s.blocks⟩

/-- A bail point at the start of the current instruction. -/
def guardPoint : Build Nat := do
  match (← get).start with
  | some p => bailAt p
  | none => reject "guard outside an instruction"

/-- Pops the kind of the topmost word. -/
def popKind : Build Kind := do
  let s ← get
  match s.stack with
  | k :: rest =>
    set { s with stack := rest }
    return k
  | [] => reject "stack underflow"

/-- Pops a word that must be an integer. -/
def popInt : Build Unit := do
  match ← popKind with
  | .int => return
  | .bool => reject "boolean operand"

/-- Pushes the kind of a word. -/
def pushKind (k : Kind) : Build Unit := modify fun s => { s with stack := k :: s.stack }

/-- The operation of a binary operator. -/
def buildBinary (op : BinaryOp) : Build (List Op) := do
  popInt
  popInt
  let ops ← match op with
    | .add | .sub | .mul => do pure [Op.arith op (← guardPoint)]
    | .and | .or | .xor => pure [Op.bitwise op]
    | op => reject s!"operator {op.label}"
  pushKind .int
  return ops

/-- The comparisons of integers. -/
def isOrder : CmpOp → Bool
  | .lt | .le | .eq | .ne | .gt | .ge => true
  | _ => false

/-- The argument of a primitive that needs one. -/
def argOf (p : Primitive) : Build Nat :=
  match p.arg with
  | some a => return a
  | none => reject s!"{p.op.mnemonic} without argument"

/-- The operations of a primitive. -/
def buildPrimitive (g : Graph) (p : Primitive) : Build (List Op) := do
  match p.op.operator? with
  | some op => buildBinary op
  | none =>
    match p.op with
    | .nop => return []
    | .popTop =>
      let _ ← popKind
      return [.pop]
    | .dupTop =>
      let k ← popKind
      pushKind k
      pushKind k
      return [.dup]
    | .rotTwo =>
      let a ← popKind
      let b ← popKind
      pushKind a
      pushKind b
      return [.rotTwo]
    | .rotThree =>
      let a ← popKind
      let b ← popKind
      let c ← popKind
      pushKind a
      pushKind c
      pushKind b
      return [.rotThree]
    | .loadConst =>
      match g.consts[← argOf p]? with
      | some (.int n) =>
        pushKind .int
        return [.const n]
      | some (.bool b) =>
        pushKind .bool
        return [.const (if b then 1 else 0)]
      | _ => reject "non-integer constant"
    | .loadFast =>
      let i ← argOf p
      if g.localCount ≤ i then reject "local index out of range"
      let op ← if (← get).waiting.contains i then pure (.loadWaiting i)
        else do pure (.load i (← guardPoint))
      pushKind .int
      return [op]
    | .storeFast =>
      let i ← argOf p
      if g.localCount ≤ i then reject "local index out of range"
      popInt
      modify fun s => { s with waiting := i :: s.waiting }
      return [.store i]
    | .unaryNegative =>
      popInt
      let bail ← guardPoint
      pushKind .int
      return [.neg bail]
    | .compareOp =>
      match CmpOp.ofArg? (← argOf p) with
      | some op =>
        if !isOrder op then reject "comparison"
        popInt
        popInt
        pushKind .bool
        return [.compare op]
      | none => reject "comparison"
    | .popBlock =>
      let s ← get
      match s.blocks with
      | b :: rest =>
        set { s with blocks := rest, stack := s.stack.drop (s.stack.length - b.level) }
        return [.truncate b.level]
      | [] => reject "block stack underflow"
    | op => reject s!"opcode {op.mnemonic}"

/-- The waiting stores are written. -/
def buildCommit : Build (List Op) := do
  modify fun s => { s with waiting := [] }
  return [.commit]

/-- The operations of an operation of the graph. -/
def buildInst (g : Graph) (i : Inst) : Build (List Op) := do
  let ip := i.site.ip
  match i.op with
  | .safePoint kind =>
    let ops ← buildCommit
    return ops ++ [.poll (← bailAt (← pointHere ip (.safePoint kind)))]
  | .begin_ next =>
    let ops ← buildCommit
    let p ← pointHere ip .guard
    modify fun s => { s with start := some p, next }
    return ops ++ [.mark]
  | .prim p => buildPrimitive g p
  | .pushHandler h =>
    let h := g.handler h
    modify fun s => { s with blocks := ⟨h.kind, h.targetIp, s.stack.length⟩ :: s.blocks }
    return []
  | .guardGlobals _ | .loadCached _ => reject "global loads"
  | .callDirect .. => reject "calls"
  | .intBinary op => buildPrimitive g ⟨op, none⟩

/-- The number of a block that has code. -/
def targetBlock (g : Graph) (b : BlockId) : Build BlockId :=
  if (g.block b).depth.isSome then return b else reject "edge into unanalyzed block"

/-- Nothing may be on the stack between blocks. -/
def expectEmpty : Build Unit := do
  if !(← get).stack.isEmpty then reject "values live across blocks"

/-- The way out of a block. -/
def buildExit (g : Graph) : Terminator → Build Exit
  | .goto b => do
    expectEmpty
    return .goto (← targetBlock g b)
  | .branch op _ _ taken fallthrough => do
    let _ ← popKind
    expectEmpty
    let taken ← targetBlock g taken
    let fallthrough ← targetBlock g fallthrough
    match op with
    | .popJumpIfFalse => return .branch fallthrough taken
    | .popJumpIfTrue => return .branch taken fallthrough
    | _ => reject "conditional jump keeping its operand"
  | .speculate op arg _ expected next => do
    let _ ← popKind
    expectEmpty
    let s ← get
    match s.start with
    | none => reject "branch outside an instruction"
    | some start =>
      let jumps := (op == .popJumpIfTrue) == expected
      let other ← if jumps then pure s.next
        else match TieredMachine.Code.jumpTarget? op arg s.next with
          | some t => pure t
          | none => reject "jump without target"
      let bail ← bailAt ⟨other, start.ip, .guard, [], s.blocks⟩
      return .speculate expected bail (← targetBlock g next)
  | .return_ _ => return .return_ (← popKind)
  | .forIter .. => reject "iteration"
  | .yield_ .. => reject "generator"
  | .unwind p _ _ => reject s!"unwinding {p.op.mnemonic}"
  | .trap _ => reject "falls off the end"

/-- The blocks of the block stack on entry to a block of the graph. -/
def entryBlocks (g : Graph) (hs : List HandlerId) : Build (List Block) :=
  hs.mapM fun h =>
    let h := g.handler h
    match h.depth with
    | some level => return ⟨h.kind, h.targetIp, level⟩
    | none => reject "handler with unknown depth"

/-- The code of a block; none for a block that is not reached. -/
def buildBlock (g : Graph) (b : GraphBlock) : Build (Option Code) := do
  if b.depth.isNone then return none
  let blocks ← entryBlocks g b.handlers
  modify fun s => { s with stack := [], waiting := [], start := none, blocks }
  let ops ← b.insts.mapM (buildInst g)
  let last ← buildCommit
  let exit ← buildExit g b.term
  return some ⟨ops.flatten ++ last, exit⟩

/-- Why a graph is no kernel, as far as a look at the whole graph tells. -/
def objection? (g : Graph) : Option String :=
  if g.isGenerator then some "generator"
  else if !g.assumptions.isEmpty then some "global loads"
  else if 0 < g.mixedSites then some "operands seen outside the integers"
  else if g.handlers.any (·.kind != .loop) then some "exception handlers"
  else if g.blocks.any (fun b => (b.depth.getD 0) != 0) then some "values live across blocks"
  else none

/-- The kernel of a graph. -/
def compile (g : Graph) : Except CompileError Kernel := do
  match objection? g with
  | some why => throw (.notCompilable why)
  | none => pure ()
  let build : Build (Array (Option Code)) := do
    let _ ← targetBlock g g.entry
    g.blocks.mapM (buildBlock g)
  let (blocks, s) ← build.run {}
  return { blocks, entry := g.entry, bails := s.bails, localCount := g.localCount }

/-! ## Running -/

/-- The words of a running kernel. -/
structure Words where
  locals : Array (Option Int64)
  /-- the top first -/
  stack : List Int64 := []
  /-- the stack at the start of the instruction -/
  marked : List Int64 := []
  /-- the waiting stores, the latest first -/
  waiting : List (Nat × Int64) := []
  deriving Inhabited

/-- How a kernel ended. -/
inductive Outcome where
  | return_ (kind : Kind) (w : Int64)
  /-- at a bail point, with the words of the stack there -/
  | bail (point : Nat) (stack : List Int64) (locals : Array (Option Int64))
  /-- at no place that the kernel knows -/
  | lost
  deriving Inhabited

/-- The sum of two words.  It overflowed when its sign is that of neither. -/
def sum (a b : Int64) : Option Int64 :=
  let r := a + b
  if (a ^^^ r) &&& (b ^^^ r) < 0 then none else some r

/-- The difference of two words.  It overflowed when the signs of the words differ and
    its own is not that of the first. -/
def difference (a b : Int64) : Option Int64 :=
  let r := a - b
  if (a ^^^ b) &&& (a ^^^ r) < 0 then none else some r

/-- The high word of the product of two words. -/
def highProduct (a b : Int64) : Int64 := .ofInt ((a.toInt * b.toInt) / Int.pow 2 64)

/-- The product of two words.  It overflowed when its high word does not just repeat
    the sign of the low one. -/
def product (a b : Int64) : Option Int64 :=
  let r := a * b
  if highProduct a b ≠ r >>> 63 then none else some r

/-- A word with its sign turned, which only the least one does not have. -/
def negation (a : Int64) : Option Int64 := if a = Int64.minValue then none else some (-a)

/-- The result of an operator on words, unless it overflowed. -/
def arithmetic (op : BinaryOp) (a b : Int64) : Option Int64 :=
  match op with
  | .add => sum a b
  | .sub => difference a b
  | .mul => product a b
  | _ => none

/-- A bitwise operator on words. -/
def bitwise (op : BinaryOp) (a b : Int64) : Int64 :=
  match op with
  | .and => a &&& b
  | .or => a ||| b
  | _ => a ^^^ b

/-- A comparison of words. -/
def comparison (op : CmpOp) (a b : Int64) : Bool :=
  match op with
  | .lt => a < b
  | .le => a ≤ b
  | .eq => a = b
  | .ne => a ≠ b
  | .gt => b < a
  | _ => b ≤ a

/-- What a kernel finds when it looks for a tracer or a request to leave, by the blocks
    and the operations of a block that are still to run. -/
abbrev Polls := Nat → Nat → Bool

/-- One operation: the words after it, or the outcome. -/
def step (polled : Bool) (op : Op) (w : Words) : Except Outcome Words :=
  let leave (bail : Nat) : Except Outcome Words := .error (.bail bail w.marked w.locals)
  match op, w.stack with
  | .commit, _ =>
    let locals := w.waiting.foldr (fun p ls => ls.setIfInBounds p.1 (some p.2)) w.locals
    .ok { w with locals, waiting := [] }
  | .poll bail, stack => if polled then .error (.bail bail stack w.locals) else .ok w
  | .mark, stack => .ok { w with marked := stack }
  | .const c, stack => .ok { w with stack := c :: stack }
  | .load i bail, stack =>
    match w.locals[i]?.join with
    | some v => .ok { w with stack := v :: stack }
    | none => leave bail
  | .loadWaiting i, stack =>
    match w.waiting.lookup i with
    | some v => .ok { w with stack := v :: stack }
    | none => .error .lost
  | .store i, v :: rest => .ok { w with stack := rest, waiting := (i, v) :: w.waiting }
  | .pop, _ :: rest => .ok { w with stack := rest }
  | .dup, v :: rest => .ok { w with stack := v :: v :: rest }
  | .rotTwo, a :: b :: rest => .ok { w with stack := b :: a :: rest }
  | .rotThree, a :: b :: c :: rest => .ok { w with stack := b :: c :: a :: rest }
  | .truncate level, stack => .ok { w with stack := stack.drop (stack.length - level) }
  | .neg bail, v :: rest =>
    match negation v with
    | some r => .ok { w with stack := r :: rest }
    | none => leave bail
  | .arith op bail, b :: a :: rest =>
    match arithmetic op a b with
    | some r => .ok { w with stack := r :: rest }
    | none => leave bail
  | .bitwise op, b :: a :: rest => .ok { w with stack := bitwise op a b :: rest }
  | .compare op, b :: a :: rest =>
    .ok { w with stack := (if comparison op a b then 1 else 0) :: rest }
  | _, _ => .error .lost

/-- The operations of a block, in order. -/
def steps (polled : Nat → Bool) : List Op → Words → Except Outcome Words
  | [], w => .ok w
  | op :: ops, w => do steps polled ops (← step (polled ops.length) op w)

/-- Runs blocks from a given one on, at most `fuel` of them.  Answers nothing when the
    fuel is used up. -/
def run (k : Kernel) (polled : Polls) : Nat → BlockId → Words → Option Outcome
  | 0, _, _ => none
  | fuel + 1, b, w =>
    match k.blocks[b]?.join with
    | none => some .lost
    | some code =>
      match steps (polled fuel) code.ops w with
      | .error out => some out
      | .ok w =>
        match code.exit, w.stack with
        | .goto b, _ => run k polled fuel b w
        | .branch ifTrue ifFalse, c :: rest =>
          run k polled fuel (if c ≠ 0 then ifTrue else ifFalse) { w with stack := rest }
        | .speculate expected bail next, c :: rest =>
          if (c ≠ 0) = expected then run k polled fuel next { w with stack := rest }
          else some (.bail bail [] w.locals)
        | .return_ kind, v :: _ => some (.return_ kind v)
        | _, _ => some .lost

/-- The words of local variables that are all integers or unbound. -/
def wordsOf? (locals : Array (Option Value)) : Option Words := do
  let ws ← locals.mapM fun v => match v with
    | none => some none
    | some (.int n) => some (some n)
    | some _ => none
  return { locals := ws }

/-- The value of a word of a kind. -/
def Kind.value : Kind → Int64 → Value
  | .int, w => .int w
  | .bool, w => .bool (w ≠ 0)

/-- The frame at a bail point. -/
def rebuild (p : BailPoint) (stack : List Int64) (locals : Array (Option Int64)) (f : Frame) :
    Frame :=
  { f with
    locals := locals.map fun w => w.map Value.int
    stack := (p.stack.zip stack).map fun s => s.1.value s.2
    blocks := p.blocks
    ip := p.ip
    lasti := some p.lasti }

end Kernel

end TieredMachine
