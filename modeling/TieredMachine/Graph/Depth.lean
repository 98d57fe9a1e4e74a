/-
  Static heights of the value stack.

  For every reachable instruction the analysis finds the height of the value
  stack and the stack of handlers with which control arrives, and checks that
  they agree wherever control meets.  Only one kind of edge is exempt:
  `END_FINALLY` goes on to the next instruction only when its clause was entered
  normally, so what it carries is *weak*, never conflicts, and gives way to
  anything that arrives otherwise.

  * `stackEffect`: the values a plain primitive needs, and the change of the
    height;
  * `Analysis.merge`: one more arrival at an instruction;
  * `Analysis.step`: the arrivals that an instruction causes;
  * `analyze`: from the first instruction until nothing changes.  An
    instruction's entry is set at most twice, once weak and once not, which
    bounds the number of steps.
-/
import TieredMachine.Graph.Basic
import TieredMachine.Frame

namespace TieredMachine

/-! ## Effects of primitives -/

/-- The values that a primitive needs on the stack and the change of the stack's
    height, for primitives that neither jump nor touch the block stack. -/
def stackEffect (p : Primitive) : Nat × Int :=
  let n := p.arg.getD 0
  if p.op.operator?.isSome then (2, -1)
  else if p.op.unaryOp?.isSome then (1, 0)
  else match p.op with
    | .popTop => (1, -1)
    | .rotTwo => (2, 0)
    | .rotThree => (3, 0)
    | .rotFour => (4, 0)
    | .dupTop => (1, 1)
    | .dupTopTwo => (2, 2)
    | .dupTopThree => (3, 3)
    | .storeSubscr => (3, -3)
    | .deleteSubscr => (2, -2)
    | .getIter => (1, 0)
    | .storeMap => (3, -2)
    | .unpackSequence => (1, n - 1)
    | .storeAttr => (2, -2)
    | .deleteAttr => (1, -1)
    | .storeGlobal => (1, -1)
    | .loadConst | .loadFast | .loadGlobal => (0, 1)
    | .loadClosure | .loadDeref | .buildMap => (0, 1)
    | .storeFast | .storeDeref => (1, -1)
    | .buildTuple | .buildList => (n, 1 - n)
    | .loadAttr => (1, 0)
    | .compareOp => (2, -1)
    | .listAppend => (max n 1 + 1, -1)
    | .slice0 => (1, 0)
    | .slice1 | .slice2 => (2, -1)
    | .slice3 => (3, -2)
    | .storeSlice0 => (2, -2)
    | .storeSlice1 | .storeSlice2 => (3, -3)
    | .storeSlice3 => (4, -4)
    | .deleteSlice0 => (1, -1)
    | .deleteSlice1 | .deleteSlice2 => (2, -2)
    | .deleteSlice3 => (3, -3)
    | .buildSlice => (n, 1 - n)
    | .callFunction | .callFunctionVar | .callFunctionKw | .callFunctionVarKw =>
      let extras := p.op.callExtras?.getD (false, false)
      let popped := n % 256 + 2 * (n / 256 % 256) + extras.1.toNat + extras.2.toNat
      (popped + 1, -popped)
    | .makeFunction => (n + 1, -n)
    | .makeClosure => (n + 2, -n - 1)
    | .withCleanup => (2, -1)
    | _ => (0, 0)

/-! ## States -/

/-- How control arrives at an instruction. -/
structure StackState where
  /-- the height of the value stack -/
  depth : Nat
  /-- the handlers in force, the innermost first -/
  handlers : List HandlerId
  /-- whether control only arrives past an `END_FINALLY` -/
  weak : Bool
  deriving DecidableEq, Repr, Inhabited

/-- An analysis in progress. -/
structure Analysis where
  /-- for each instruction, how control arrives -/
  entries : Array (Option StackState)
  /-- the handlers found so far -/
  handlers : Array Handler := #[]
  /-- the instructions whose effects are still to be followed -/
  worklist : List Nat := []
  maxDepth : Nat := 0
  deriving Inhabited

namespace Analysis

/-- The number of stack values that a handler of a kind finds above the level of
    its block, as far as the analysis counts them. -/
def received : BlockKind → Nat
  | .loop => 0
  | .except => 3
  | .finally_ => 1

/-- Whether an arrival has nothing to add to an entry. -/
def isCovered (old new : StackState) : Bool :=
  (old.depth = new.depth && old.handlers = new.handlers && (!old.weak || new.weak)) || new.weak

/-- One more arrival at the instruction at `ip`, coming from the instruction at
    `source`. -/
def merge (u : CodeUnit) (source ip : Nat) (new : StackState) (a : Analysis) :
    Except CompileError Analysis :=
  match u.instrOf[ip]?.join with
  | none => .error (.badControlFlow source)
  | some i =>
    let a := { a with maxDepth := max a.maxDepth new.depth }
    let accept : Analysis :=
      { a with entries := a.entries.setIfInBounds i (some new), worklist := i :: a.worklist }
    match a.entries[i]?.join with
    | none => .ok accept
    | some old =>
      if isCovered old new then .ok a
      else if old.weak then .ok accept
      else if old.handlers ≠ new.handlers then .error (.blockMismatch ip)
      else .error (.stackMismatch ip old.depth new.depth)

/-- The number of the handler that a setup instruction pushes, which is added
    when it is new. -/
def handlerFor (h : Handler) (a : Analysis) : HandlerId × Analysis :=
  match a.handlers.findIdx? (·.setupIp == h.setupIp) with
  | some i => (i, a)
  | none => (a.handlers.size, { a with handlers := a.handlers.push h })

/-- The kind of a handler. -/
def kindOf (a : Analysis) (h : HandlerId) : Option BlockKind := (a.handlers[h]?).map (·.kind)

/-- The recorded height of a handler. -/
def depthOf (a : Analysis) (h : HandlerId) : Option Nat := (a.handlers[h]?).bind (·.depth)

/-- `continue` arrives at the loop's header with the loop's block still in
    place.  When a `finally` clause is in between, the clause resumes the
    `continue` later, and no edge is followed. -/
def continueEdge (u : CodeUnit) (ip target : Nat) (e : StackState) (a : Analysis) :
    Except CompileError Analysis :=
  let inner := e.handlers.takeWhile fun h => a.kindOf h != some .loop
  let outer := e.handlers.dropWhile fun h => a.kindOf h != some .loop
  if outer.isEmpty || inner.any (fun h => a.kindOf h == some .finally_) then .ok a
  else
    let depth := (inner.getLast?.bind a.depthOf).getD e.depth
    a.merge u ip target ⟨depth, outer, e.weak⟩

/-- Fails unless the stack holds enough values. -/
def need (ip depth n : Nat) : Except CompileError Unit :=
  if depth < n then .error (.stackMismatch ip n depth) else .ok ()

/-- The target that a jump must have. -/
def targetOf (ip : Nat) (target : Option Nat) : Except CompileError Nat :=
  match target with
  | some t => .ok t
  | none => .error (.badControlFlow ip)

/-- The arrivals that one primitive of the instruction at `ip` causes.  Answers
    how control arrives at the next primitive, or nothing when it never
    does. -/
def stepPrimitive (u : CodeUnit) (ip next : Nat) (p : Primitive) (e : StackState) (a : Analysis) :
    Except CompileError (Analysis × Option StackState) := do
  let target := p.target? next
  match p.op with
  | .setupLoop | .setupExcept | .setupFinally =>
    let target ← targetOf ip target
    let kind := p.op.blockKind?.getD .finally_
    if maxBlocks ≤ e.handlers.length then .error (.blockMismatch ip)
    let (h, a) := a.handlerFor ⟨kind, ip, target, 0, some e.depth, e.handlers.head?⟩
    let a ← a.merge u ip target { e with depth := e.depth + received kind }
    return (a, some { e with handlers := h :: e.handlers })
  | .popBlock =>
    match e.handlers with
    | [] => .error (.blockMismatch ip)
    | h :: rest =>
      let depth := match a.depthOf h with
        | some level => min e.depth level
        | none => e.depth
      return (a, some { e with depth, handlers := rest })
  | .jumpForward | .jumpAbsolute =>
    let target ← targetOf ip target
    return (← a.merge u ip target e, none)
  | .popJumpIfFalse | .popJumpIfTrue =>
    need ip e.depth 1
    let e := { e with depth := e.depth - 1 }
    let target ← targetOf ip target
    return (← a.merge u ip target e, some e)
  | .jumpIfFalseOrPop | .jumpIfTrueOrPop =>
    need ip e.depth 1
    let target ← targetOf ip target
    return (← a.merge u ip target e, some { e with depth := e.depth - 1 })
  | .forIter =>
    need ip e.depth 1
    let target ← targetOf ip target
    return (← a.merge u ip target { e with depth := e.depth - 1 },
      some { e with depth := e.depth + 1 })
  | .returnValue =>
    need ip e.depth 1
    return (a, none)
  | .raiseVarargs =>
    let argc := p.arg.getD 0
    if 2 < argc then .error (.unsupported ip p.op)
    need ip e.depth argc
    return (a, none)
  | .breakLoop => return (a, none)
  | .continueLoop =>
    let target ← targetOf ip p.arg
    return (← a.continueEdge u ip target e, none)
  | .yieldValue =>
    need ip e.depth 1
    return (a, some e)
  | .endFinally =>
    need ip e.depth 1
    return (a, some { e with depth := e.depth - 1, weak := true })
  | _ =>
    let (needs, delta) := stackEffect p
    need ip e.depth needs
    return (a, some { e with depth := (e.depth + delta).toNat })

/-- The arrivals that the primitives of an instruction cause, and how control
    leaves the last one for the next instruction. -/
def stepPrimitives (u : CodeUnit) (ip next : Nat) :
    List Primitive → StackState → Analysis → Except CompileError (Analysis × Option StackState)
  | [], e, a => .ok (a, some e)
  | p :: ps, e, a => do
    let (a, out) ← stepPrimitive u ip next p e a
    match out with
    | none => return (a, none)
    | some e => stepPrimitives u ip next ps e { a with maxDepth := max a.maxDepth e.depth }

/-- The arrivals that an instruction causes. -/
def step (u : CodeUnit) (i : Instr) (e : StackState) (a : Analysis) :
    Except CompileError Analysis := do
  let (a, out) ← stepPrimitives u i.ip i.next i.prims e a
  match out with
  | some e => if i.next < u.stop then a.merge u i.ip i.next e else return a
  | none => return a

/-- Follows the instructions in the worklist, at most `fuel` of them. -/
def run (u : CodeUnit) : Nat → Analysis → Except CompileError Analysis
  | 0, a => .ok a
  | fuel + 1, a =>
    match a.worklist with
    | [] => .ok a
    | i :: rest => do
      let a := { a with worklist := rest }
      match u.instrs[i]?, a.entries[i]?.join with
      | some instr, some e => run u fuel (← step u instr e a)
      | _, _ => run u fuel a

/-- How control arrives at the instruction at an index. -/
def entryAt? (u : CodeUnit) (ip : Nat) (a : Analysis) : Option StackState :=
  u.instrOf[ip]?.join.bind fun i => a.entries[i]?.join

end Analysis

/-- The analysis of a unit: the first instruction is reached with an empty stack
    and no handler. -/
def CodeUnit.analyze (u : CodeUnit) : Except CompileError Analysis := do
  let a : Analysis := { entries := .replicate u.instrs.size none }
  let a ← a.merge u 0 0 ⟨0, [], false⟩
  a.run u (2 * u.instrs.size + 1)

end TieredMachine
