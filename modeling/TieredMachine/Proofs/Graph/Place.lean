/-
  Graphs that do what their units do.

  The operations of a block and its way out are read against the instructions of
  the unit: each operation performs a primitive or attends to an instruction, and
  every edge leads to the block in which the instructions go on, past nothing but
  instructions that only jump.

  * `Hops`: instructions that only jump, one after another;
  * `Place`: where running a block stands in the unit;
  * `Performs`, `Exits`, `At`: operations, ways out, and the rest of a block, against
    the unit;
  * `Faithful`: a graph all of whose blocks are right.
-/
import TieredMachine.Graph.Lowering
import TieredMachine.Primitive.Operand
import TieredMachine.Proofs.Code.Unit

namespace TieredMachine

/-- Whether the primitive always jumps. -/
def Opcode.alwaysJumps (op : Opcode) : Bool := op == .jumpForward || op == .jumpAbsolute

/-- So many instructions that only jump lead from one index to another. -/
inductive Hops (u : CodeUnit) : Nat → Nat → Nat → Prop
  | here {ip} : Hops u 0 ip ip
  | jump {n ip i p target stop} : u.instrAt? ip = some i → i.prims = [p] → p.op.alwaysJumps →
      p.target? i.next = some target → Hops u n target stop → Hops u (n + 1) ip stop

theorem Hops.trans {u : CodeUnit} {m n a b c : Nat} (h : Hops u m a b) (h' : Hops u n b c) :
    Hops u (m + n) a c := by
  induction h with
  | here => rwa [Nat.zero_add]
  | jump hi hp hj ht _ ih =>
    rw [Nat.succ_add]
    exact .jump hi hp hj ht (ih h')

/-! ## Blocks against the unit -/

/-- Where running a block stands in the unit. -/
inductive Place where
  /-- before the instruction at an index -/
  | start (ip : Nat)
  /-- inside an instruction, before the primitives from position `k` on -/
  | inside (i : Instr) (k : Nat) (ps : List Primitive)

/-- Handler `h` is the one that is set up at `ip`, for a kind of block and a target. -/
def SetBy (handlers : Array Handler) (h : HandlerId) (ip : Nat) (kind : BlockKind)
    (target : Nat) : Prop :=
  handlers.findIdx? (·.setupIp == ip) = some h ∧ (handlers[h]?.getD default).kind = kind ∧
    (handlers[h]?.getD default).targetIp = target

/-- What a graph says about its handlers. -/
abbrev Graph.Sets (g : Graph) : HandlerId → Nat → BlockKind → Nat → Prop := SetBy g.handlers

section

variable (u : CodeUnit) (sets : HandlerId → Nat → BlockKind → Nat → Prop)
  (assumptions : Array Assumption) (leads : Nat → BlockId → Prop)

/-- The operation performs a primitive of an instruction. -/
inductive Performs (i : Instr) : Op → Primitive → Prop
  | prim {p} : Performs i (.prim p) p
  | setup {p kind target h} : p.op.blockKind? = some kind → p.target? i.next = some target →
      sets h i.ip kind target → Performs i (.pushHandler h) p
  | call {arg expected} : Performs i (.callDirect arg expected) ⟨.callFunction, some arg⟩
  | int {op} : op.operator?.isSome → Performs i (.intBinary op) ⟨op, none⟩

/-- Whether a conditional jump pops what it tests, whichever way it goes. -/
def Opcode.isPopJump (op : Opcode) : Bool := op == .popJumpIfFalse || op == .popJumpIfTrue

/-- The primitives that never hand on to the next one. -/
def Opcode.isUnwinding (op : Opcode) : Bool :=
  op == .raiseVarargs || op == .breakLoop || op == .continueLoop

/-- The way out of a block does what the last primitive of an instruction does. -/
inductive Exits (i : Instr) (k : Nat) : Primitive → Terminator → Prop
  | goto {p target b} : p.op.alwaysJumps → p.target? i.next = some target → leads target b →
      Exits i k p (.goto b)
  | branch {op arg target taken fallthrough} :
      (op.isPopJump ∨ op = .jumpIfFalseOrPop ∨ op = .jumpIfTrueOrPop) →
      Code.jumpTarget? op arg i.next = some target →
      leads target taken → leads i.next fallthrough →
      Exits i k ⟨op, some arg⟩ (.branch op arg ⟨i.ip, k⟩ taken fallthrough)
  | speculate {op arg target expected next} : op.isPopJump →
      Code.jumpTarget? op arg i.next = some target →
      leads (if (op == .popJumpIfTrue) == expected then target else i.next) next →
      Exits i k ⟨op, some arg⟩ (.speculate op arg ⟨i.ip, k⟩ expected next)
  | forIter {arg target body exit} : Code.jumpTarget? .forIter arg i.next = some target →
      leads i.next body → leads target exit →
      Exits i k ⟨.forIter, some arg⟩ (.forIter arg ⟨i.ip, k⟩ body exit)
  | return_ : Exits i k ⟨.returnValue, none⟩ (.return_ ⟨i.ip, k⟩)
  | yield_ {resume} : leads i.next resume →
      Exits i k ⟨.yieldValue, none⟩ (.yield_ ⟨i.ip, k⟩ resume)
  | unwind {p b} : leads i.next b → p.op = .endFinally →
      Exits i k p (.unwind p ⟨i.ip, k⟩ (some b))
  | unwindOff {p} : (p.op.isUnwinding ∨ p.op = .endFinally ∧ u.instrAt? i.next = none) →
      Exits i k p (.unwind p ⟨i.ip, k⟩ none)

/-- The rest of a block does what the unit does from a place on. -/
inductive At : Place → List Inst → Terminator → Prop
  | poll {ip kind is t} : At (.start ip) is t → At (.start ip) (⟨⟨ip, 0⟩, .safePoint kind⟩ :: is) t
  | begin {ip i is t} : u.instrAt? ip = some i → At (.inside i 0 i.prims) is t →
      At (.start ip) (⟨⟨ip, 0⟩, .begin_ i.next⟩ :: is) t
  | cached {ip i n ps a} {assumed : Assumption} {is t} : u.instrAt? ip = some i →
      i.prims = ⟨.loadGlobal, some n⟩ :: ps → assumptions[a]? = some assumed →
      u.names[n]? = some assumed.name → At (.inside i 1 ps) is t →
      At (.start ip) (⟨⟨ip, 0⟩, .guardGlobals assumed.versions⟩ ::
        ⟨⟨ip, 0⟩, .begin_ i.next⟩ :: ⟨⟨ip, 0⟩, .loadCached a⟩ :: is) t
  | op {i k p ps op is t} : Performs sets i op p → At (.inside i (k + 1) ps) is t →
      At (.inside i k (p :: ps)) (⟨⟨i.ip, k⟩, op⟩ :: is) t
  | next {i k is t} : At (.start i.next) is t → At (.inside i k []) is t
  | exit {i k p t} : Exits u leads i k p t → At (.inside i k [p]) [] t
  | fall {ip b} : leads ip b → At (.start ip) [] (.goto b)
  | trap {ip} : u.instrAt? ip = none → At (.start ip) [] (.trap ip)

end

/-- Renaming no block changes nothing. -/
theorem Terminator.mapBlocks_id (t : Terminator) : t.mapBlocks (fun b => b) = t := by
  cases t with
  | unwind _ _ o => cases o <;> rfl
  | _ => rfl

variable {u : CodeUnit} {sets sets' : HandlerId → Nat → BlockKind → Nat → Prop}
  {assumptions assumptions' : Array Assumption} {leads leads' : Nat → BlockId → Prop}

/-- Renaming blocks keeps ways out right when the new names lead where they should. -/
theorem Exits.mapBlocks {f : BlockId → BlockId} {i : Instr} {k : Nat} {p : Primitive}
    {t : Terminator} (hl : ∀ b ∈ t.successors, ∀ ip, leads ip b → leads' ip (f b))
    (h : Exits u leads i k p t) : Exits u leads' i k p (t.mapBlocks f) := by
  have only {b : BlockId} {ip : Nat} (ht : b ∈ t.successors) (h : leads ip b) :
      leads' ip (f b) := hl b ht ip h
  cases h with
  | goto hj ht hb => exact .goto hj ht (only (by simp [Terminator.successors]) hb)
  | branch hop ht hb hn =>
    exact .branch hop ht (only (by simp [Terminator.successors]) hb)
      (only (by simp [Terminator.successors]) hn)
  | speculate hop ht hb =>
    exact .speculate hop ht (only (by simp [Terminator.successors]) hb)
  | forIter ht hb hx =>
    exact .forIter ht (only (by simp [Terminator.successors]) hb)
      (only (by simp [Terminator.successors]) hx)
  | return_ => exact .return_
  | yield_ hb => exact .yield_ (only (by simp [Terminator.successors]) hb)
  | unwind hb hop => exact .unwind (only (by simp [Terminator.successors]) hb) hop
  | unwindOff h => exact .unwindOff h

theorem Performs.mono (hs : ∀ h ip kind target, sets h ip kind target → sets' h ip kind target)
    {i : Instr} {op : Op} {p : Primitive} (h : Performs sets i op p) : Performs sets' i op p := by
  cases h with
  | prim => exact .prim
  | setup hk ht hh => exact .setup hk ht (hs _ _ _ _ hh)
  | call => exact .call
  | int h => exact .int h

/-- Renaming blocks keeps the rest of a block right when the new names lead where they
    should. -/
theorem At.mapBlocks {f : BlockId → BlockId}
    (hs : ∀ h ip kind target, sets h ip kind target → sets' h ip kind target)
    (ha : ∀ (n : Nat) a, assumptions[n]? = some a → assumptions'[n]? = some a)
    {place : Place} {is : List Inst} {t : Terminator}
    (hl : ∀ b ∈ t.successors, ∀ ip, leads ip b → leads' ip (f b))
    (h : At u sets assumptions leads place is t) :
    At u sets' assumptions' leads' place is (t.mapBlocks f) := by
  induction h with
  | poll _ ih => exact .poll (ih hl)
  | begin hi _ ih => exact .begin hi (ih hl)
  | cached hi hp hc hn _ ih => exact .cached hi hp (ha _ _ hc) hn (ih hl)
  | op hp _ ih => exact .op (hp.mono hs) (ih hl)
  | next _ ih => exact .next (ih hl)
  | exit h => exact .exit (h.mapBlocks hl)
  | fall h => exact .fall (hl _ (by simp [Terminator.successors]) _ h)
  | trap h => exact .trap h

/-- The rest of a block stays right when more is known to lead where it should. -/
theorem At.mono (hs : ∀ h ip kind target, sets h ip kind target → sets' h ip kind target)
    (ha : ∀ (n : Nat) a, assumptions[n]? = some a → assumptions'[n]? = some a)
    (hl : ∀ ip b, leads ip b → leads' ip b) {place : Place} {is : List Inst} {t : Terminator}
    (h : At u sets assumptions leads place is t) : At u sets' assumptions' leads' place is t := by
  rw [← t.mapBlocks_id]
  exact h.mapBlocks hs ha fun b _ ip => hl ip b

/-! ## Faithful graphs -/

/-- Whether the operation begins an instruction. -/
def Op.isBegin : Op → Bool
  | .begin_ _ => true
  | _ => false

/-- The number of instructions that operations begin. -/
def begins (is : List Inst) : Nat := is.countP (·.op.isBegin)

/-- Control at an index goes on in a block, past at most so many instructions that only
    jump. -/
def Graph.Leads (u : CodeUnit) (g : Graph) (most ip : Nat) (b : BlockId) : Prop :=
  b < g.blocks.size ∧ ∃ n ≤ most, Hops u n ip (g.block b).start

/-- The binding that code relies on was there in a heap. -/
def Assumption.HoldsIn (a : Assumption) (h : Heap) : Prop :=
  h.lookupGlobal? a.versions.globals a.versions.builtins a.name = some a.value ∧
    a.versions.globalsVersion = (h.space a.versions.globals).version ∧
    a.versions.builtinsVersion = (h.space a.versions.builtins).version

/-- The graph does what the unit does, relying on bindings of a heap.  Its edges lead
    past at most `most` instructions that only jump. -/
structure Faithful (u : CodeUnit) (h : Heap) (most : Nat) (g : Graph) : Prop where
  unit : u.Checked
  numbered : ∀ b (blk : GraphBlock), g.blocks[b]? = some blk → blk.id = b
  code : ∀ b < g.blocks.size, At u g.Sets g.assumptions (g.Leads u most)
    (.start (g.block b).start) (g.block b).insts (g.block b).term
  opens : ∀ b < g.blocks.size, 0 < begins (g.block b).insts
  entry : g.Leads u most 0 g.entry
  resume : ∀ ip b, (ip, b) ∈ g.resume → ∃ i, u.instrAt? ip = some i ∧ g.Leads u most i.next b
  assumed : ∀ a ∈ g.assumptions, a.HoldsIn h

end TieredMachine
