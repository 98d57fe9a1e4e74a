/-
  Listings of control-flow graphs.

  A listing has one line per fact: a heading, the handlers, the places where a
  generator resumes, the assumptions, and then every block with its operations
  and its way out.
-/
import TieredMachine.Graph.Basic
import TieredMachine.Heap.Text

namespace TieredMachine

namespace Graph

/-- The line of a handler. -/
def handlerLine (p : Handler × Nat) : String :=
  let h := p.1
  let depth := match h.depth with
    | some d => s!" depth {d}"
    | none => ""
  let parent := match h.parent with
    | some p => s!" in {handlerText p}"
    | none => ""
  s!"  {handlerText p.2}: {h.kind.name} @{h.setupIp} -> " ++
    s!"{blockText h.target} (@{h.targetIp})" ++ depth ++ parent

/-- The line of an assumption. -/
def assumptionLine (heap : Heap) (p : Assumption × Nat) : String :=
  let a := p.1
  let origin := if a.builtin then "builtin" else "global"
  let v := a.versions
  s!"  assume g{p.2}: {a.name} = {heap.repr a.value} " ++
    s!"({origin} v{v.globalsVersion.toNat}, builtins v{v.builtinsVersion.toNat})"

/-- The line of an operation. -/
def instLine (heap : Heap) (i : Inst) : String :=
  match i.op with
  | .safePoint kind => s!"    safepoint {kind.label}"
  | .guardGlobals v =>
    s!"    guard_globals v{v.globalsVersion.toNat} builtins v{v.builtinsVersion.toNat}"
  | .begin_ next => s!"  {Text.padLeft 4 (toString i.site.ip)}: begin -> {next}"
  | .prim ⟨op, some arg⟩ => s!"    {op.mnemonic} {arg}"
  | .prim ⟨op, none⟩ => s!"    {op.mnemonic}"
  | .pushHandler h => s!"    push_handler {handlerText h}"
  | .loadCached a => s!"    load_cached g{a}"
  | .callDirect arg expected => s!"    call_direct {arg} expecting {heap.repr expected}"
  | .intBinary op => s!"    {op.mnemonic} [int]"

/-- The line of a way out. -/
def terminatorLine : Terminator → String
  | .goto b => s!"    goto {blockText b}"
  | .branch op _ _ taken fallthrough =>
    s!"    {op.mnemonic} taken {blockText taken} else {blockText fallthrough}"
  | .speculate op _ _ expected next =>
    s!"    speculate {op.mnemonic} {expected} -> {blockText next}"
  | .forIter _ _ body exit => s!"    FOR_ITER body {blockText body} exit {blockText exit}"
  | .return_ _ => "    return"
  | .yield_ _ resume => s!"    yield resume {blockText resume}"
  | .unwind p _ (some b) => s!"    unwind {p.op.mnemonic} else {blockText b}"
  | .unwind p _ none => s!"    unwind {p.op.mnemonic}"
  | .trap ip => s!"    trap @{ip}"

/-- The lines of a block. -/
def blockLines (heap : Heap) (b : GraphBlock) : List String :=
  let depth := match b.depth with
    | some d => s!" depth {d}"
    | none => " unreachable"
  let handlers := if b.handlers.isEmpty then ""
    else " [" ++ Text.join " " (b.handlers.reverse.map handlerText) ++ "]"
  (s!"{blockText b.id} @{b.start}:" ++ depth ++ handlers) ::
    (b.insts.map (instLine heap) ++ [terminatorLine b.term])

/-- The lines of a graph. -/
def listing (heap : Heap) (g : Graph) : List String :=
  s!"function {g.name} (unit {g.unit}) level {g.level.text} max_depth {g.maxDepth}" ::
    (g.handlers.toList.zipIdx.map handlerLine ++
      g.resume.map (fun r => s!"  resume @{r.1} -> {blockText r.2}") ++
      g.assumptions.toList.zipIdx.map (assumptionLine heap) ++
      g.blocks.toList.flatMap (blockLines heap))

/-- The listing of a graph as threaded code. -/
def threadedListing (heap : Heap) (g : Graph) : List String :=
  let ops := (g.blocks.toList.map (·.insts.length)).foldl (· + ·) 0
  s!"threaded {g.name} at {g.level.text}: {g.blocks.size} blocks, {ops} ops" :: g.listing heap

end Graph

end TieredMachine
