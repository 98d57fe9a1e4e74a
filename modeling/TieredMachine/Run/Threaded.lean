/-
  Threaded code.

  Threaded code is the graph of a unit run over the frame: the operations of a
  block in order, and then the way out of the block.  Primitives and unwinding are
  those of the interpreter, so a frame can be handed over at the start of any
  instruction as it is.

  * `runOp`: one operation;
  * `land`, `follow`: the block that control goes on in;
  * `leaveBlock`: the way out of a block;
  * `runThreaded`: a whole run, which may end with a bail.
-/
import TieredMachine.Run.Interpreter

namespace TieredMachine

/-- How native code is left, unless it fails. -/
inductive NativeExit where
  | done (exit : Exit)
  /-- the frame is for the interpreter to go on with -/
  | bail (reason : BailReason)
  deriving DecidableEq, Repr, Inhabited

namespace Threaded

/-! ## Operations -/

/-- How control goes on after one operation. -/
inductive Passed where
  /-- with the next operation -/
  | next
  | bail (reason : BailReason)
  /-- out of the block -/
  | flow (f : Flow)
  deriving DecidableEq, Repr, Inhabited

/-- A primitive as an operation. -/
def passed (x : FrameExec Flow) : FrameExec Passed := do
  match ← caught x with
  | .next => return .next
  | flow => return .flow flow

/-- Whether the namespaces of a frame are those of a guard, unchanged. -/
def guardHolds (h : Heap) (f : Frame) (v : Versions) : Bool :=
  f.globals = v.globals && (h.space f.globals).version = v.globalsVersion &&
    f.builtins = v.builtins && (h.space f.builtins).version = v.builtinsVersion

/-- Calls an expected callee, or whatever is there instead. -/
def callDirect (g : Guest) (site : Site) (arg : Nat) (expected : Value) : FrameExec Passed := do
  let argc := Primitive.positionalCount arg
  let direct ← if Primitive.keywordCount arg ≠ 0 then pure false
    else pure ((← peek argc).isSame expected)
  if direct then
    let args ← popN argc
    let _ ← pop
    passed do
      push (← g.call expected args [])
      return .next
  else passed (Primitive.run g site false ⟨.callFunction, some arg⟩)

/-- The integer result of an operator on integers, if it has one. -/
def integerResult? (op : BinaryOp) (a b : Value) : Option Int64 :=
  match a, b with
  | .int m, .int n =>
    match Integer.binary op m n with
    | .ok r => r
    | .error _ => none
  | _, _ => none

/-- A binary operator that takes a short way on integers. -/
def intBinary (g : Guest) (site : Site) (op : Opcode) : FrameExec Passed := do
  match op.operator? with
  | none => passed (Primitive.run g site false ⟨op, none⟩)
  | some operator =>
    let a ← peek 1
    let b ← peek 0
    match integerResult? operator a b with
    | some r =>
      let _ ← popN 2
      push (.int r)
      return .next
    | none => passed (Primitive.run g site false ⟨op, none⟩)

/-- Runs one operation. -/
def runOp (g : Guest) (graph : Graph) (i : Inst) : FrameExec Passed := do
  match i.op with
  | .safePoint kind =>
    match ← onMachine (g.poll kind) with
    | some reason => return .bail reason
    | none => return .next
  | .guardGlobals v =>
    let f ← frame
    return if guardHolds (← onMachine heap) f v then .next else .bail .fatalGuardFail
  | .begin_ next =>
    modifyFrame fun f => { f with lasti := some i.site.ip, ip := next }
    return .next
  | .prim p => passed (Primitive.run g i.site false p)
  | .pushHandler h =>
    let handler := graph.handler h
    pushBlock handler.kind handler.targetIp
    return .next
  | .loadCached a =>
    push ((graph.assumptions[a]?.map (·.value)).getD .none)
    return .next
  | .callDirect arg expected => callDirect g i.site arg expected
  | .intBinary op => intBinary g i.site op

/-- Runs operations up to the first one that does not hand on to the next. -/
def runOps (g : Guest) (graph : Graph) : List Inst → FrameExec Passed
  | [] => return .next
  | i :: is => do
    match ← runOp g graph i with
    | .next => runOps g graph is
    | other => return other

/-! ## Control -/

/-- Where control goes on. -/
inductive Landing where
  | block (b : BlockId)
  | exit (e : Exit)
  | bail (reason : BailReason)
  deriving DecidableEq, Repr, Inhabited

/-- The block that starts where the frame stands; a bail if there is none. -/
def land (graph : Graph) : FrameExec Landing := do
  match graph.blockAt? (← frame).ip with
  | some b => return .block b
  | none => return .bail .guardFail

/-- Unwinds, and goes on where that lands. -/
def unwindTo (graph : Graph) (p : Pending) : FrameExec Landing := do
  match ← dispatchUnwind p .exceptCatchNative with
  | some exit => return .exit exit
  | none => land graph

/-- Follows the flow out of a block. -/
def follow (graph : Graph) : Flow → FrameExec Landing
  | .next => land graph
  | .jump target => do
    modifyFrame fun f => { f with ip := target }
    land graph
  | .yield_ v => return .exit (.yield_ v)
  | .raise exc fresh => do unwindTo graph (← beginRaise exc fresh .exceptRaiseNative)
  | .unwind p => unwindTo graph p

/-- Takes the way out of a block. -/
def leaveBlock (g : Guest) (graph : Graph) : Terminator → FrameExec Landing
  | .goto b => return .block b
  | .branch op arg site taken fallthrough => do
    match ← caught (Primitive.run g site false ⟨op, some arg⟩) with
    | .next => return .block fallthrough
    | .jump _ => return .block taken
    | flow => follow graph flow
  | .speculate op arg site expected next => do
    let jumps := (op == .popJumpIfTrue) == expected
    match ← caught (Primitive.run g site false ⟨op, some arg⟩) with
    | .next => return if jumps then .bail .guardFail else .block next
    | .jump target =>
      if jumps then return .block next
      else
        modifyFrame fun f => { f with ip := target }
        return .bail .guardFail
    | flow => follow graph flow
  | .forIter arg site body exit => do
    match ← caught (Primitive.run g site false ⟨.forIter, some arg⟩) with
    | .next => return .block body
    | .jump _ => return .block exit
    | flow => follow graph flow
  | .return_ site => do
    follow graph (← caught (Primitive.run g site false ⟨.returnValue, none⟩))
  | .yield_ site _ => do
    follow graph (← caught (Primitive.run g site false ⟨.yieldValue, none⟩))
  | .unwind p site fallthrough => do
    match ← caught (Primitive.run g site false p), fallthrough with
    | .next, some b => return .block b
    | .next, none => throw (.ipOutOfBounds (← frame).ip)
    | flow, _ => follow graph flow
  | .trap ip => throw (.ipOutOfBounds ip)

/-- Runs a block. -/
def runBlock (g : Guest) (graph : Graph) (b : BlockId) : FrameExec Landing := do
  let block := graph.block b
  modifyFrame fun f => { f with ip := block.start }
  match ← runOps g graph block.insts with
  | .next => leaveBlock g graph block.term
  | .bail reason => return .bail reason
  | .flow flow => follow graph flow

/-- The block that an entry leads to. -/
def enter (graph : Graph) : Entry → FrameExec Landing
  | .call => return .block graph.entry
  | .resume v => do
    push v
    match (← frame).lasti.bind graph.resumeBlock? with
    | some b => return .block b
    | none => land graph
  | .throw_ exc => follow graph (.raise exc true)
  | .continue_ => land graph

/-- Runs blocks until native code is left, at most `fuel` of them. -/
def runFrom (g : Guest) (graph : Graph) : Nat → Landing → FrameExec NativeExit
  | _, .exit e => return .done e
  | _, .bail reason => return .bail reason
  | 0, .block _ => throw .outOfFuel
  | fuel + 1, .block b => do runFrom g graph fuel (← runBlock g graph b)

end Threaded

/-- Runs a frame as threaded code. -/
def runThreaded (g : Guest) (graph : Graph) (entry : Entry) : FrameExec NativeExit := do
  Threaded.runFrom g graph g.fuel (← Threaded.enter graph entry)

end TieredMachine
