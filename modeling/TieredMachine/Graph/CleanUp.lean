/-
  Cleaning up control-flow graphs.

  Edges that go to a block which does nothing but jump are redirected to where
  that jump leads; then blocks that no edge reaches are dropped and the rest is
  numbered anew.  Blocks that can be entered other than by an edge are *pinned*:
  no edge is led past them and they are never dropped.

  * `Graph.pinned`: the entry, the handlers, the places where a generator
    resumes and the targets of `continue`;
  * `Graph.threadJumps`, `Graph.dropUnreachable`: the two passes;
  * `Graph.cleanUp`: one after the other.
-/
import TieredMachine.Graph.Basic

namespace TieredMachine

namespace Graph

variable (g : Graph)

/-- The blocks that the targets of `continue` start. -/
def continueTargets : List BlockId :=
  g.blocks.toList.filterMap fun b => match b.term with
    | .unwind ⟨.continueLoop, some target⟩ _ _ => g.blockAt? target
    | _ => none

/-- The blocks that can be entered other than by an edge. -/
def pinned : List BlockId :=
  g.entry :: (g.handlers.toList.map (·.target) ++ g.resume.map (·.2) ++ g.continueTargets)

/-! ## Threading jumps -/

/-- Where an edge to a block may be led past it. -/
def forward? (pins : List BlockId) (b : BlockId) : Option BlockId :=
  let blk := g.block b
  match blk.term with
  | .goto t => if blk.isTrivialJump && !pins.contains b && t != b then some t else none
  | _ => none

/-- Where an edge to a block ends up after at most `fuel` jumps. -/
def resolve (table : Array (Option BlockId)) : Nat → BlockId → BlockId
  | 0, b => b
  | fuel + 1, b =>
    match table[b]?.join with
    | some next => resolve table fuel next
    | none => b

/-- The graph with all edges led past blocks that only jump. -/
def threadJumps : Graph :=
  let pins := g.pinned
  let table := (Array.range g.blocks.size).map (g.forward? pins)
  let target := resolve table g.blocks.size
  { g with blocks := g.blocks.map fun b => { b with term := b.term.mapBlocks target } }

/-! ## Dropping unreachable blocks -/

/-- Marks the blocks reached from a worklist. -/
def mark : Nat → List BlockId → Array Bool → Array Bool
  | 0, _, seen => seen
  | _, [], seen => seen
  | fuel + 1, b :: rest, seen =>
    if seen[b]?.getD true then mark fuel rest seen
    else mark fuel (g.successors b ++ rest) (seen.setIfInBounds b true)

/-- A bound on the number of edges, and so on the length of a search. -/
def edgeBound : Nat :=
  let edges := (List.range g.blocks.size).map fun b => (g.successors b).length
  g.pinned.length + edges.foldl (· + ·) 0 + 1

/-- For each block, whether it is reached from a pinned one. -/
def reachable : Array Bool :=
  g.mark (g.edgeBound + g.blocks.size) g.pinned (.replicate g.blocks.size false)

/-- The new number of each block: its place among the blocks that stay. -/
def renumbering (live : Array Bool) : Array (Option BlockId) :=
  (live.foldl (fun (s : Array (Option BlockId) × Nat) keep =>
    if keep then (s.1.push (some s.2), s.2 + 1) else (s.1.push none, s.2)) (#[], 0)).1

/-- The graph without the blocks that are not reached. -/
def dropUnreachable : Graph :=
  let live := g.reachable
  if live.all fun b => b then g
  else
    let numbers := renumbering live
    let rename (b : BlockId) : BlockId := (numbers[b]?.join).getD b
    { g with
      blocks := (g.blocks.filter fun b => live[b.id]?.getD false).map fun b =>
        { b with id := rename b.id, term := b.term.mapBlocks rename }
      handlers := g.handlers.map fun h => { h with target := rename h.target }
      resume := g.resume.map fun r => (r.1, rename r.2)
      entry := rename g.entry }

/-- The graph with jumps threaded and unreachable blocks dropped. -/
def cleanUp : Graph := g.threadJumps.dropUnreachable

end Graph

end TieredMachine
