/-
  Encoding and decoding of instructions.

  An instruction is the word of its opcode followed by the words of its
  arguments.  Decoding expands a superinstruction into its primitives and hands
  out the argument words in order; encoding may pack primitives into
  superinstructions.

  * `decodeAt`, `decodeFrom`: the instruction at an index, and all from it on;
  * `longestFusion?`, `fusionAt?`, `groups`: which primitives a packed encoding
    puts together;
  * `encodeUnfused`, `encode`: primitives as words, one by one or packed;
  * `jumpTarget?`: the index that a jump goes to.
-/
import TieredMachine.Code.Word

namespace TieredMachine

/-- A primitive and its argument, if it takes one. -/
structure Primitive where
  op : Opcode
  arg : Option Nat
  deriving DecidableEq, Repr, Inhabited

namespace Code

/-! ## Decoding -/

/-- The opcode whose word stands at an index. -/
def opcodeAt (words : Array Word) (index : Nat) : Except CodeError Opcode :=
  match words[index]? with
  | none => .error (.indexOutOfBounds index words.size)
  | some w =>
    if w.isArg then .error (.argumentAsOpcode index)
    else match Opcode.ofByte? w.payload with
      | some op => .ok op
      | none => .error (.unknownOpcode index w.payload)

/-- Primitives with the argument words from `index` on handed out in order. -/
def readArgs (words : Array Word) : Nat → List Opcode → Except CodeError (List Primitive)
  | _, [] => .ok []
  | index, op :: ops =>
    if op.hasArg then
      match words[index]?.bind Word.arg? with
      | none => .error (.missingArgument index op)
      | some arg => return ⟨op, some arg⟩ :: (← readArgs words (index + 1) ops)
    else return ⟨op, none⟩ :: (← readArgs words index ops)

/-- The instruction that stands at an index: its opcode and its primitives.  It
    ends `op.length` words later, where no argument word may follow. -/
def decodeAt (words : Array Word) (index : Nat) :
    Except CodeError (Opcode × List Primitive) := do
  let op ← opcodeAt words index
  let prims ← readArgs words (index + 1) op.primitives
  let next := index + op.length
  if (words[next]?.bind Word.arg?).isSome then .error (.trailingArgument next)
  return (op, prims)

/-- The instructions from an index on, each with its index, up to the first one
    that cannot be decoded, and what is wrong with that one. -/
def decodeFrom (words : Array Word) (index : Nat) :
    List (Nat × Opcode × List Primitive) × Option CodeError :=
  if index < words.size then
    match decodeAt words index with
    | .error e => ([], some e)
    | .ok i =>
      let (is, e) := decodeFrom words (index + i.1.length)
      ((index, i) :: is, e)
  else ([], none)
termination_by words.size - index
decreasing_by
  simp only [Opcode.length]
  omega

/-- The index that a jump primitive goes to, in an instruction that ends at
    `next`. -/
def jumpTarget? (op : Opcode) (arg next : Nat) : Option Nat :=
  match op.argKind with
  | .relJump => some (next + arg)
  | .absJump => some arg
  | _ => none

end Code

/-- The index that a primitive jumps to, in an instruction that ends at
    `next`. -/
def Primitive.target? (p : Primitive) (next : Nat) : Option Nat :=
  p.arg.bind fun arg => Code.jumpTarget? p.op arg next

namespace Code

/-! ## Fusion -/

/-- The longest of some opcodes, counted in primitives; the last of several. -/
def longest? (ops : List Opcode) : Option Opcode :=
  ops.foldl (fun best op => match best with
    | some b => if b.primitives.length ≤ op.primitives.length then some op else some b
    | none => some op) none

/-- The longest superinstruction that the primitives at position `i` begin
    with, when no position inside it is a place that jumps go to. -/
def fusionAt? (isPlace : Nat → Bool) (i : Nat) (ops : List Opcode) : Option Opcode :=
  longest? (Opcode.supers.filter fun s =>
    s.primitives.isPrefixOf ops &&
      (List.range (s.primitives.length - 1)).all fun k => !isPlace (i + 1 + k))

/-- The longest superinstruction that a sequence of opcodes begins with. -/
def longestFusion? (ops : List Opcode) : Option Opcode := fusionAt? (fun _ => false) 0 ops

/-- The instructions that stand for the primitives from position `i` on, each
    with its number of primitives. -/
def groups (fuse : Bool) (isPlace : Nat → Bool) (i : Nat) : List Opcode → List (Opcode × Nat)
  | [] => []
  | op :: ops =>
    match if fuse then fusionAt? isPlace i (op :: ops) else none with
    | some s =>
      let n := s.primitives.length
      (s, n) :: groups fuse isPlace (i + n) (ops.drop (n - 1))
    | none => (op, 1) :: groups fuse isPlace (i + 1) ops
termination_by ops => ops.length
decreasing_by
  all_goals simp only [List.length_drop, List.length_cons]
  all_goals omega

/-! ## Encoding -/

/-- The argument word of a primitive, if it has one. -/
def argWord (p : Primitive) : Except CodeError (List Word) :=
  match p.op.hasArg, p.arg with
  | true, some arg => return [← Word.ofArg arg]
  | false, none => return []
  | _, _ => .error (.argumentMismatch p.op)

/-- The words of one instruction that runs some primitives. -/
def instructionWords (op : Opcode) (prims : List Primitive) : Except CodeError (List Word) := do
  let args ← prims.mapM argWord
  return .ofOpcode op :: args.flatten

/-- The words of one primitive. -/
def primitiveWords (p : Primitive) : Except CodeError (List Word) :=
  if p.op.isSuper then .error (.argumentMismatch p.op) else instructionWords p.op [p]

/-- Primitives as words, each an instruction of its own. -/
def encodeUnfused (prims : List Primitive) : Except CodeError (List Word) :=
  return (← prims.mapM primitiveWords).flatten

/-- The words of groups of primitives. -/
def groupWords : List (Opcode × Nat) → List Primitive → Except CodeError (List Word)
  | [], _ => .ok []
  | (op, n) :: gs, prims => do
    let words ← if op.isSuper && 1 < n then instructionWords op (prims.take n)
      else match prims with
        | p :: _ => primitiveWords p
        | [] => .ok []
    return words ++ (← groupWords gs (prims.drop n))

/-- Primitives as words, runs of them packed into superinstructions from the
    front. -/
def encode (prims : List Primitive) : Except CodeError (List Word) :=
  groupWords (groups true (fun _ => false) 0 (prims.map (·.op))) prims

end Code

end TieredMachine
