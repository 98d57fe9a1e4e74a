/-
  Lowering code units.

  A unit becomes a control-flow graph in three steps: the instructions that
  start a block are found, the heights of the value stack are analyzed, and
  every block is filled with operations.  At the highest level operations are
  specialized by feedback; from the middle level on the graph is cleaned up.

  * `leaders`: where blocks start;
  * `emitInstr`, `terminatorOf`: the operations of an instruction, and the way
    out of the block that it ends;
  * `speculation?`, `binaryOpFor`, `assumeGlobal`: what feedback and bindings of
    global names decide;
  * `lower`: the graph of a unit.
-/
import TieredMachine.Graph.Depth
import TieredMachine.Graph.CleanUp
import TieredMachine.Heap.Basic

namespace TieredMachine

/-- Tests that a branch needs before it is speculated on, unless configured
    otherwise. -/
def defaultBranchMinSamples : Nat := 200

/-- What a lowering depends on besides the unit. -/
structure LowerOptions where
  level : OptLevel
  /-- the tests that a branch needs before it is speculated on -/
  branchMinSamples : Nat := defaultBranchMinSamples
  /-- the globals and the builtins that the unit runs against, if bindings of
      global names may be relied on -/
  spaces : Option (Ref × Ref) := none
  deriving DecidableEq, Repr, Inhabited

namespace Lowering

/-! ## Leaders -/

/-- Whether control never simply goes on after a primitive. -/
def endsBlock (op : Opcode) : Bool := op.isControlTransfer && !op.isBlockSetup

/-- The indices that an instruction makes the starts of blocks. -/
def leadersOf (stop : Nat) (i : Instr) : List Nat :=
  i.prims.filterMap (·.target? i.next) ++
    if endsBlock i.last.op && i.next < stop then [i.next] else []

/-- The starts of blocks, in order. -/
def leaders (u : CodeUnit) : Array Nat :=
  let all := 0 :: u.instrs.toList.flatMap (leadersOf u.stop)
  let marks := all.foldl (fun (t : Array Bool) i => t.setIfInBounds i true)
    (.replicate u.words.size false)
  (Array.range u.words.size).filter fun i => marks[i]?.getD false

/-- The instructions that a backward jump goes to. -/
def backedgeTargets (u : CodeUnit) : List Nat :=
  u.instrs.toList.filterMap fun i => i.target?.filter (· ≤ i.ip)

/-! ## Emission -/

/-- What emission reads. -/
structure Context where
  heap : Heap
  unit : CodeUnit
  feedback : Feedback
  opts : LowerOptions
  leaders : Array Nat
  backedges : List Nat
  /-- the handlers, each with its block -/
  handlers : Array Handler
  deriving Inhabited

/-- What emission collects. -/
structure Emission where
  assumptions : Array Assumption := #[]
  resume : List (Nat × BlockId) := []
  mixedSites : Nat := 0
  deriving Inhabited

/-- A step of emission. -/
abbrev Emit := StateT Emission (Except CompileError)

/-- The block that starts at an index. -/
def blockId (leaders : Array Nat) (ip : Nat) : Except CompileError BlockId :=
  match leaders.findIdx? (· == ip) with
  | some b => .ok b
  | none => .error (.badControlFlow ip)

/-- The target that a jump must have. -/
def required {α : Type} (ip : Nat) (o : Option α) : Except CompileError α :=
  match o with
  | some a => .ok a
  | none => .error (.badControlFlow ip)

namespace Context

variable (c : Context)

/-- Whether a level is at least the highest one. -/
def specializes : Bool := c.opts.level.atLeast .o2

/-- The outcome that a branch is expected to have. -/
def speculation? (site : Site) : Option Bool :=
  if c.specializes && c.feedback.isConsistentWith site c.opts.branchMinSamples then
    (c.feedback.branch? site).bind (·.direction?)
  else none

/-- The operation for a binary operator. -/
def binaryOpFor (site : Site) (p : Primitive) : Emit Op := do
  match c.feedback.intOperands? site with
  | some true => return if c.specializes then .intBinary p.op else .prim p
  | some false =>
    modify fun e => { e with mixedSites := e.mixedSites + 1 }
    return .prim p
  | none => return .prim p

/-- The assumption on the global name with an index, added when it is new. -/
def assumeGlobal (index : Nat) : Emit (Option Nat) := do
  let some (globals, builtins) := c.opts.spaces | return none
  let some name := c.unit.names[index]? | return none
  let e ← get
  if let some i := e.assumptions.findIdx? (·.name == name) then return some i
  let gs := c.heap.space globals
  let bs := c.heap.space builtins
  let versions : Versions := ⟨globals, gs.version, builtins, bs.version⟩
  match gs.get? name, bs.get? name with
  | some v, _ =>
    set { e with assumptions := e.assumptions.push ⟨name, v, false, versions⟩ }
    return some e.assumptions.size
  | none, some v =>
    set { e with assumptions := e.assumptions.push ⟨name, v, true, versions⟩ }
    return some e.assumptions.size
  | none, none => return none

/-- The assumption that an instruction's leading load of a global name rests
    on. -/
def cachedLoad? (i : Instr) : Emit (Option Nat) :=
  match i.prims.head? with
  | some ⟨.loadGlobal, some index⟩ => if c.specializes then c.assumeGlobal index else pure none
  | _ => pure none

/-- The handler of the setup instruction at an index. -/
def handlerAt (ip : Nat) : Except CompileError HandlerId :=
  match c.handlers.findIdx? (·.setupIp == ip) with
  | some h => .ok h
  | none => .error (.badControlFlow ip)

/-- The operation for a primitive that does not end its block. -/
def operationOf (cached : Option Nat) (i : Instr) (k : Nat) (p : Primitive) : Emit Op := do
  let site : Site := ⟨i.ip, k⟩
  match p.op, cached with
  | .loadGlobal, some a => return if k = 0 then .loadCached a else .prim p
  | .setupLoop, _ | .setupExcept, _ | .setupFinally, _ =>
    return .pushHandler (← c.handlerAt i.ip)
  | .callFunction, _ =>
    match p.arg, c.feedback.stableCallee? site with
    | some arg, some expected =>
      return if c.specializes then .callDirect arg expected else .prim p
    | _, _ => return .prim p
  | _, _ => if p.op.operator?.isSome then c.binaryOpFor site p else return .prim p

/-- The block that an instruction goes on to. -/
def nextBlock (i : Instr) : Except CompileError BlockId :=
  if i.next < c.unit.stop then blockId c.leaders i.next else .error (.badControlFlow i.ip)

/-- The way out of a block that ends with a primitive. -/
def terminatorOf (i : Instr) (site : Site) (p : Primitive) : Emit Terminator := do
  let ip := i.ip
  let target : Except CompileError BlockId := do
    blockId c.leaders (← required ip (p.target? i.next))
  match p.op with
  | .jumpForward | .jumpAbsolute => return .goto (← target)
  | .popJumpIfFalse | .popJumpIfTrue =>
    let taken ← target
    let fallthrough ← c.nextBlock i
    let arg ← required ip p.arg
    match c.speculation? site with
    | some truth =>
      let jumps := (p.op == .popJumpIfTrue) == truth
      return .speculate p.op arg site truth (if jumps then taken else fallthrough)
    | none => return .branch p.op arg site taken fallthrough
  | .jumpIfFalseOrPop | .jumpIfTrueOrPop =>
    let arg ← required ip p.arg
    let taken ← target
    return .branch p.op arg site taken (← c.nextBlock i)
  | .forIter =>
    let arg ← required ip p.arg
    let body ← c.nextBlock i
    return .forIter arg site body (← target)
  | .returnValue => return .return_ site
  | .yieldValue =>
    let resume ← c.nextBlock i
    modify fun e => { e with resume := e.resume ++ [(ip, resume)] }
    return .yield_ site resume
  | .endFinally =>
    if i.next < c.unit.stop then return .unwind p site (some (← blockId c.leaders i.next))
    else return .unwind p site none
  | .raiseVarargs | .breakLoop | .continueLoop => return .unwind p site none
  | op => throw (.unsupported ip op)

/-- The operations of the primitives of an instruction from position `k` on, and
    the way out of the block when the last one ends it. -/
def emitPrims (cached : Option Nat) (i : Instr) :
    Nat → List Primitive → Emit (List Inst × Option Terminator)
  | _, [] => return ([], none)
  | k, p :: ps => do
    let site : Site := ⟨i.ip, k⟩
    if ps.isEmpty && endsBlock p.op then
      return ([], some (← c.terminatorOf i site p))
    let op ← c.operationOf cached i k p
    let (insts, term) ← emitPrims cached i (k + 1) ps
    return (⟨site, op⟩ :: insts, term)

/-- The operations of an instruction, and the way out of the block that it
    ends. -/
def emitInstr (i : Instr) : Emit (List Inst × Option Terminator) := do
  let head : Site := ⟨i.ip, 0⟩
  let polls : List Inst :=
    if c.unit.isSafePoint i.ip then
      [⟨head, .safePoint (if c.backedges.contains i.ip then .backedge else .line)⟩]
    else []
  let cached ← c.cachedLoad? i
  let guards : List Inst := match cached.bind ((← get).assumptions[·]?) with
    | some a => [⟨head, .guardGlobals a.versions⟩]
    | none => []
  let (insts, term) ← c.emitPrims cached i 0 i.prims
  return (polls ++ guards ++ ⟨head, .begin_ i.next⟩ :: insts, term)

/-- The empty block that starts at an instruction. -/
def newBlock (a : Analysis) (id : BlockId) (i : Instr) : GraphBlock :=
  let entry := a.entryAt? c.unit i.ip
  { id
    start := i.ip
    insts := []
    term := .trap c.unit.stop
    depth := entry.map (·.depth)
    handlers := (entry.map (·.handlers)).getD [] }

/-- Fills the blocks with the instructions, in order.  `current` is the block
    being filled. -/
def emitBlocks (a : Analysis) :
    List Instr → Option GraphBlock → Array GraphBlock → Emit (Array GraphBlock)
  | [], current, done => return done ++ current.toArray
  | i :: is, current, done => do
    let starts := c.leaders.contains i.ip
    let (current, done) ← if starts then do
        let done ← match current with
          | some b =>
            let next ← blockId c.leaders i.ip
            pure (done.push { b with term := .goto next })
          | none => pure done
        pure (some (c.newBlock a done.size i), done)
      else pure (current, done)
    match current with
    | none => throw (.badControlFlow i.ip)
    | some b =>
      let (insts, term) ← c.emitInstr i
      let b := { b with insts := b.insts ++ insts }
      match term with
      | some term => emitBlocks a is none (done.push { b with term })
      | none => emitBlocks a is (some b) done

end Context

/-- The handlers of setup instructions that are not reached. -/
def unreachedHandlers (u : CodeUnit) (a : Analysis) : Except CompileError (List Handler) := do
  let hs ← u.instrs.toList.mapM fun i => do
    match i.last.op.blockKind? with
    | none => pure none
    | some kind =>
      if a.handlers.any (·.setupIp == i.ip) then return none
      let target ← required i.ip i.target?
      return some (⟨kind, i.ip, target, 0, none, none⟩ : Handler)
  return hs.filterMap fun h => h

/-- Every handler, with the block that handles. -/
def placedHandlers (u : CodeUnit) (leaders : Array Nat) (a : Analysis) :
    Except CompileError (Array Handler) := do
  let hs := a.handlers ++ (← unreachedHandlers u a).toArray
  hs.mapM fun h => do return { h with target := ← blockId leaders h.targetIp }

end Lowering

open Lowering in
/-- The graph of a unit before it is cleaned up. -/
def lowerPlain (heap : Heap) (u : CodeUnit) (feedback : Feedback) (opts : LowerOptions) :
    Except CompileError Graph := do
  if opts.level = .unoptimized then .error (.invalidOptLevel opts.level.toInt)
  let a ← u.analyze
  let leaders := Lowering.leaders u
  let handlers ← placedHandlers u leaders a
  let c : Context :=
    { heap, unit := u, feedback, opts, leaders, backedges := backedgeTargets u, handlers }
  let (blocks, e) ← (c.emitBlocks a u.instrs.toList none #[]).run {}
  return {
    name := u.name
    unit := u.id
    level := opts.level
    blocks
    entry := 0
    handlers
    resume := e.resume
    assumptions := e.assumptions
    consts := u.consts
    maxDepth := a.maxDepth
    argcount := u.argcount
    localCount := u.varnames.size
    isGenerator := u.isGenerator
    mixedSites := e.mixedSites }

/-- The graph of a unit. -/
def lower (heap : Heap) (u : CodeUnit) (feedback : Feedback) (opts : LowerOptions) :
    Except CompileError Graph := do
  let g ← lowerPlain heap u feedback opts
  return if opts.level.atLeast .o1 then g.cleanUp else g

end TieredMachine
