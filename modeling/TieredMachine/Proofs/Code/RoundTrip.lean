/-
  Encoding and decoding are inverse.

  Packed or not, the words of a sequence of primitives are the words of its groups one
  after another, and a group is either one primitive or the primitives of a
  superinstruction.  What can go wrong is the matter of single primitives, so packing
  does not change it.

  * `Code.Grouped`: a sequence of opcodes cut into groups;
  * `Code.outcome_groupWords`: packing changes neither success nor the error;
  * `Code.Decodes`: decoding, from an index to the end of the code;
  * **`Code.encode_roundTrip`**: when encoding succeeds, and that decoding undoes it.
-/
import TieredMachine.Proofs.Code.Unit

namespace TieredMachine

/-! ## Superinstructions -/

/-- A superinstruction stands for two primitives or more. -/
theorem Opcode.two_le_of_isSuper {s : Opcode} (h : s.isSuper) : 2 ≤ s.primitives.length := by
  have all : ∀ s ∈ Opcode.all, s.isSuper → 2 ≤ s.primitives.length := by decide
  exact all s (by cases s <;> decide) h

/-- What an opcode stands for is no superinstruction, unless it is the opcode itself. -/
theorem Opcode.not_isSuper_of_mem_primitives {s q : Opcode} (h : s.isSuper)
    (hq : q ∈ s.primitives) : q.isSuper = false := by
  have all : ∀ s ∈ Opcode.all, s.isSuper → ∀ q ∈ s.primitives, q.isSuper = false := by decide
  exact all s (by cases s <;> decide) h q hq

theorem Opcode.primitives_of_not_isSuper {op : Opcode} (h : op.isSuper = false) :
    op.primitives = [op] := by
  cases op <;> first | rfl | cases h

namespace Code

/-! ## Groups -/

/-- A sequence of opcodes, the first of them at position `i`, cut into groups: each is one
    opcode, or the primitives of a superinstruction with no place that jumps go to
    inside. -/
inductive Grouped (isPlace : Nat → Bool) : Nat → List (Opcode × Nat) → List Opcode → Prop
  | nil {i} : Grouped isPlace i [] []
  | single {i op gs ops} : Grouped isPlace (i + 1) gs ops →
      Grouped isPlace i ((op, 1) :: gs) (op :: ops)
  | fused {i s gs ops} : s.isSuper →
      (∀ k, i < k → k < i + s.primitives.length → isPlace k = false) →
      Grouped isPlace (i + s.primitives.length) gs ops →
      Grouped isPlace i ((s, s.primitives.length) :: gs) (s.primitives ++ ops)

theorem mem_of_longest? {ops : List Opcode} {s : Opcode} (h : longest? ops = some s) :
    s ∈ ops := by
  unfold longest? at h
  refine List.foldlRecOn (motive := fun best => ∀ s, best = some s → s ∈ ops) ops _
    (fun _ h => by cases h) (fun best hbest op hop s h => ?_) s h
  cases best with
  | none =>
    cases h
    exact hop
  | some b =>
    dsimp only at h
    split at h
    · cases h
      exact hop
    · exact hbest s h

/-- What is known of a fusion that is found. -/
theorem fusionAt?_eq_some {isPlace : Nat → Bool} {i : Nat} {ops : List Opcode} {s : Opcode}
    (h : fusionAt? isPlace i ops = some s) :
    s.isSuper ∧ s.primitives <+: ops ∧
      ∀ k, i < k → k < i + s.primitives.length → isPlace k = false := by
  have hs := mem_of_longest? h
  rw [List.mem_filter, Bool.and_eq_true, List.isPrefixOf_iff_prefix, List.all_eq_true] at hs
  obtain ⟨hsuper, hprefix, hplaces⟩ := hs
  refine ⟨(List.mem_filter.mp hsuper).2, hprefix, fun k hi hk => ?_⟩
  have := hplaces (k - (i + 1)) (List.mem_range.mpr (by omega))
  rwa [Bool.not_eq_true', show i + 1 + (k - (i + 1)) = k by omega] at this

/-- The groups that an encoding makes. -/
theorem grouped_groups (fuse : Bool) (isPlace : Nat → Bool) (i : Nat) (ops : List Opcode) :
    Grouped isPlace i (groups fuse isPlace i ops) ops := by
  induction i, ops using groups.induct fuse isPlace with
  | case1 i =>
    rw [groups]
    exact .nil
  | case2 i op ops s hs n ih =>
    rw [dite_eq_ite] at hs
    have found : fusionAt? isPlace i (op :: ops) = some s := by
      cases fuse with
      | false => cases hs
      | true => exact hs
    obtain ⟨hsuper, ⟨rest, hrest⟩, hplaces⟩ := fusionAt?_eq_some found
    have two : 2 ≤ n := Opcode.two_le_of_isSuper hsuper
    have dropped : ops.drop (n - 1) = rest := by
      have := congrArg (List.drop n) hrest
      rwa [List.drop_left, show n = (n - 1) + 1 by omega, List.drop_succ_cons, eq_comm] at this
    have whole : s.primitives ++ ops.drop (n - 1) = op :: ops := by rw [dropped, hrest]
    rw [groups, hs, ← whole]
    exact .fused hsuper hplaces ih
  | case3 i op ops hno ih =>
    rw [dite_eq_ite] at hno
    rw [groups, hno]
    exact .single ih

/-! ## Success and errors -/

/-- Whether something fails, and how. -/
def outcome {α : Type} (x : Except CodeError α) : Except CodeError Unit := x.map fun _ => ()

section

variable {α β : Type}

theorem outcome_eq_error {x : Except CodeError α} {e : CodeError} :
    outcome x = .error e ↔ x = .error e := by
  cases x with
  | error e' => simp [outcome, Except.map]
  | ok a => simp [outcome, Except.map]

theorem outcome_eq_ok {x : Except CodeError α} {u : Unit} :
    outcome x = .ok u ↔ ∃ a, x = .ok a := by
  cases x with
  | error e' => simp [outcome, Except.map]
  | ok a => simp [outcome, Except.map]

theorem outcome_bind {x : Except CodeError α} {f : α → Except CodeError β}
    {y : Except CodeError Unit} (h : ∀ a, outcome (f a) = y) :
    outcome (x >>= f) = (outcome x >>= fun _ => y) := by
  cases x with
  | error e => rfl
  | ok a => exact h a

theorem outcome_mapM {f : α → Except CodeError β} (as : List α) :
    outcome (as.mapM f) = forM as fun a => outcome (f a) := by
  induction as with
  | nil => rfl
  | cons a as ih =>
    rw [List.mapM_cons, List.forM_cons]
    refine outcome_bind fun b => ?_
    rw [outcome_bind (y := pure ()) fun _ => rfl, ih, bind_pure_unit]

theorem forM_congr {f g : α → Except CodeError Unit} {as : List α}
    (h : ∀ a ∈ as, f a = g a) : forM as f = forM as g := by
  induction as with
  | nil => rfl
  | cons a as ih =>
    rw [List.forM_cons, List.forM_cons, h a List.mem_cons_self,
      ih fun a ha => h a (List.mem_cons_of_mem _ ha)]

end

/-- What single primitives make of an encoding: the first failure counts. -/
def checkEach (prims : List Primitive) : Except CodeError Unit :=
  forM prims fun p => outcome (primitiveWords p)

theorem checkEach_append (ps qs : List Primitive) :
    checkEach (ps ++ qs) = (checkEach ps >>= fun _ => checkEach qs) :=
  List.forM_append

theorem outcome_encodeUnfused (prims : List Primitive) :
    outcome (encodeUnfused prims) = checkEach prims := by
  rw [encodeUnfused, outcome_bind (y := pure ()) fun _ => rfl, outcome_mapM, bind_pure_unit]
  rfl

theorem outcome_instructionWords (op : Opcode) (prims : List Primitive) :
    outcome (instructionWords op prims) = forM prims fun p => outcome (argWord p) := by
  rw [instructionWords, outcome_bind (y := pure ()) fun _ => rfl, outcome_mapM, bind_pure_unit]

theorem outcome_primitiveWords {p : Primitive} (h : p.op.isSuper = false) :
    outcome (primitiveWords p) = outcome (argWord p) := by
  rw [primitiveWords, if_neg (by simp [h]), outcome_instructionWords, List.forM_cons,
    List.forM_nil, bind_pure_unit]

/-- Packing changes neither success nor the error. -/
theorem outcome_groupWords {isPlace : Nat → Bool} {i : Nat} {gs : List (Opcode × Nat)}
    {prims : List Primitive} (h : Grouped isPlace i gs (prims.map (·.op))) :
    outcome (groupWords gs prims) = checkEach prims := by
  generalize hops : prims.map (·.op) = ops at h
  induction h generalizing prims with
  | nil =>
    rw [List.map_eq_nil_iff] at hops
    subst hops
    rfl
  | single _ ih =>
    obtain ⟨p, ps, rfl, rfl, hps⟩ := List.map_eq_cons_iff.mp hops
    rw [groupWords, if_neg (by simp), checkEach, List.forM_cons]
    refine outcome_bind fun ws => ?_
    rw [outcome_bind (y := pure ()) fun _ => rfl, bind_pure_unit, List.drop_one, List.tail_cons,
      ih hps]
    rfl
  | @fused _ s _ ops hsuper _ _ ih =>
    obtain ⟨ps, qs, rfl, hps, hqs⟩ := List.map_eq_append_iff.mp hops
    have len : ps.length = s.primitives.length := by rw [← hps, List.length_map]
    have two := Opcode.two_le_of_isSuper hsuper
    have alone : checkEach ps = outcome (instructionWords s ps) := by
      rw [outcome_instructionWords, checkEach]
      refine forM_congr fun p hp => outcome_primitiveWords ?_
      refine Opcode.not_isSuper_of_mem_primitives hsuper ?_
      rw [← hps]
      exact List.mem_map_of_mem hp
    unfold groupWords
    rw [if_pos (by simp [hsuper]; omega), ← len, List.take_left, List.drop_left,
      checkEach_append, alone]
    refine outcome_bind fun ws => ?_
    rw [outcome_bind (y := pure ()) fun _ => rfl, bind_pure_unit, ih hqs]

/-! ## What can be encoded -/

/-- A primitive that has an encoding: it is no superinstruction, it has an argument exactly
    when it takes one, and the argument fits in a word. -/
def Encodable (p : Primitive) : Prop :=
  p.op.isSuper = false ∧ p.arg.isSome = p.op.hasArg ∧ ∀ a, p.arg = some a → a ≤ maxArg

/-- The argument words of a primitive. -/
def argWords (p : Primitive) : List Word := p.arg.toList.map fun a => ⟨.ofNat (2 * a + 1)⟩

theorem argWord_ok {p : Primitive} {ws : List Word} :
    argWord p = .ok ws ↔ (p.arg.isSome = p.op.hasArg ∧ ∀ a, p.arg = some a → a ≤ maxArg) ∧
      ws = argWords p := by
  rcases p with ⟨op, arg⟩
  cases hop : op.hasArg with
  | false =>
    cases arg with
    | none => simp [argWord, argWords, hop, pure, Except.pure, eq_comm]
    | some a => simp [argWord, hop]
  | true =>
    cases arg with
    | none => simp [argWord, hop]
    | some a =>
      by_cases ha : maxArg < a
      · simp [argWord, hop, Word.ofArg, ha, bind, Except.bind, Nat.not_le.mpr ha]
      · simp [argWord, argWords, hop, Word.ofArg, ha, bind, Except.bind, pure, Except.pure,
          Nat.le_of_not_lt ha, eq_comm]

theorem outcome_primitiveWords_ok {p : Primitive} :
    outcome (primitiveWords p) = .ok () ↔ Encodable p := by
  cases hsuper : p.op.isSuper with
  | true =>
    rw [primitiveWords, if_pos hsuper]
    exact ⟨fun h => (nomatch h), fun h => by rw [h.1] at hsuper; cases hsuper⟩
  | false =>
    rw [outcome_primitiveWords hsuper, outcome_eq_ok]
    exact ⟨fun ⟨_, h⟩ => ⟨hsuper, (argWord_ok.mp h).1⟩, fun h => ⟨_, argWord_ok.mpr ⟨h.2, rfl⟩⟩⟩

theorem checkEach_ok {prims : List Primitive} :
    checkEach prims = .ok () ↔ ∀ p ∈ prims, Encodable p := by
  induction prims with
  | nil => exact ⟨fun _ _ hp => absurd hp List.not_mem_nil, fun _ => rfl⟩
  | cons p ps ih =>
    rw [checkEach, List.forM_cons, except_bind_ok, List.forall_mem_cons,
      ← outcome_primitiveWords_ok, ← ih]
    exact ⟨fun ⟨_, h, h'⟩ => ⟨h, h'⟩, fun ⟨h, h'⟩ => ⟨(), h, h'⟩⟩

/-! ## Decoding -/

/-- Decoding from an index on, each step continuing after the instruction before it, reaches
    the end of the code exactly and yields a sequence of primitives. -/
inductive Decodes (words : Array Word) : Nat → List Primitive → Prop
  | done : Decodes words words.size []
  | step {index op prims rest} : index < words.size → decodeAt words index = .ok (op, prims) →
      Decodes words (index + op.length) rest → Decodes words index (prims ++ rest)

theorem Decodes.decodeFrom {words : Array Word} {index : Nat} {prims : List Primitive}
    (h : Decodes words index prims) :
    ∃ is, decodeFrom words index = (is, none) ∧ is.flatMap (·.2.2) = prims := by
  induction h with
  | done =>
    rw [Code.decodeFrom, if_neg (Nat.lt_irrefl _)]
    exact ⟨[], rfl, rfl⟩
  | @step index op prims rest hlt hd _ ih =>
    obtain ⟨is, his, rfl⟩ := ih
    rw [Code.decodeFrom, if_pos hlt, hd]
    exact ⟨(index, op, prims) :: is, by dsimp only; rw [his], rfl⟩

@[simp] theorem arg?_argWord {a : Nat} (h : a ≤ maxArg) :
    Word.arg? ⟨.ofNat (2 * a + 1)⟩ = some a := by
  have fits : a ≤ 2147483647 := h
  have small : (UInt32.ofNat (2 * a + 1)).toNat = 2 * a + 1 := by
    rw [UInt32.toNat_ofNat']
    omega
  simp only [Word.arg?, Word.isArg, Word.payload, small]
  rw [if_pos (by simp)]
  congr 1
  omega

theorem toNat_ofOpcode (op : Opcode) : (Word.ofOpcode op).raw.toNat = 2 * op.toByte := by
  cases op <;> rfl

theorem arg?_ofOpcode (op : Opcode) : (Word.ofOpcode op).arg? = none := by
  cases op <;> rfl

theorem opcodeAt_ofOpcode {words : Array Word} {index : Nat} {op : Opcode}
    (h : words[index]? = some (.ofOpcode op)) : opcodeAt words index = .ok op := by
  have byte : (Word.ofOpcode op).payload = op.toByte := by
    rw [Word.payload, toNat_ofOpcode]
    omega
  have tag : (Word.ofOpcode op).isArg = false := by
    cases op <;> rfl
  simp only [opcodeAt, h, tag, byte, Opcode.ofByte?_toByte]
  rfl

/-- Reading the arguments of primitives gives the primitives back. -/
theorem readArgs_argWords {words : Array Word} {prims : List Primitive} {before after : List Word}
    (hp : ∀ p ∈ prims, p.arg.isSome = p.op.hasArg ∧ ∀ a, p.arg = some a → a ≤ maxArg)
    (h : words.toList = before ++ (prims.flatMap argWords ++ after)) :
    readArgs words before.length (prims.map (·.op)) = .ok prims := by
  induction prims generalizing before with
  | nil => rfl
  | cons p ps ih =>
    obtain ⟨⟨hpresent, hsmall⟩, hps⟩ := List.forall_mem_cons.mp hp
    rcases p with ⟨op, _ | a⟩
    · have none : op.hasArg = false := hpresent.symm
      rw [List.map_cons, readArgs, if_neg (by simp [none]), ih hps h]
      rfl
    · have some : op.hasArg = true := hpresent.symm
      have here : words[before.length]? = .some ⟨.ofNat (2 * a + 1)⟩ := by
        rw [← Array.getElem?_toList, h]
        simp [argWords]
      have next := @ih (before ++ [⟨.ofNat (2 * a + 1)⟩]) hps (by rw [h]; simp [argWords])
      rw [List.length_append, List.length_singleton] at next
      rw [List.map_cons, readArgs, if_pos some, here]
      simp only [Option.bind_some, arg?_argWord (hsmall a rfl), next]
      rfl

/-- The words of an instruction, when it has an encoding. -/
theorem instructionWords_ok {op : Opcode} {prims : List Primitive} {ws : List Word}
    (h : instructionWords op prims = .ok ws) :
    ws = .ofOpcode op :: prims.flatMap argWords ∧
      ∀ p ∈ prims, p.arg.isSome = p.op.hasArg ∧ ∀ a, p.arg = some a → a ≤ maxArg := by
  obtain ⟨args, hargs, h⟩ := except_bind_ok.mp h
  cases h
  suffices args.flatten = prims.flatMap argWords ∧ _ from ⟨by rw [this.1], this.2⟩
  clear h
  induction prims generalizing args with
  | nil =>
    cases hargs
    exact ⟨rfl, fun _ hp => absurd hp List.not_mem_nil⟩
  | cons p ps ih =>
    rw [List.mapM_cons] at hargs
    obtain ⟨mine, hmine, hargs⟩ := except_bind_ok.mp hargs
    obtain ⟨others, hothers, hargs⟩ := except_bind_ok.mp hargs
    cases hargs
    obtain ⟨hp, rfl⟩ := argWord_ok.mp hmine
    obtain ⟨words, hps⟩ := ih _ hothers
    exact ⟨by rw [List.flatten_cons, words, List.flatMap_cons], List.forall_mem_cons.mpr ⟨hp, hps⟩⟩

/-- An instruction in its place is read back, when what comes after it is no argument. -/
theorem decodeAt_instructionWords {words : Array Word} {op : Opcode} {prims : List Primitive}
    {before ws after : List Word} (hws : instructionWords op prims = .ok ws)
    (hops : prims.map (·.op) = op.primitives)
    (hafter : after.head?.bind Word.arg? = none) (h : words.toList = before ++ (ws ++ after)) :
    decodeAt words before.length = .ok (op, prims) ∧ ws.length = op.length := by
  obtain ⟨rfl, hp⟩ := instructionWords_ok hws
  have len : (prims.flatMap argWords).length = op.argCount := by
    rw [Opcode.argCount, ← hops]
    clear hws hops h
    induction prims with
    | nil => rfl
    | cons p ps ih =>
      obtain ⟨⟨hpresent, -⟩, hps⟩ := List.forall_mem_cons.mp hp
      rw [List.flatMap_cons, List.length_append, ih hps, List.map_cons, List.filter_cons,
        ← hpresent]
      rcases p with ⟨op, _ | a⟩ <;> simp [argWords, Nat.add_comm]
  have here : opcodeAt words before.length = .ok op := by
    refine opcodeAt_ofOpcode ?_
    rw [← Array.getElem?_toList, h]
    simp
  have args := @readArgs_argWords words prims (before ++ [.ofOpcode op]) after hp
    (by rw [h]; simp)
  have next : words[before.length + op.length]? = after.head? := by
    rw [← List.append_assoc] at h
    rw [← Array.getElem?_toList, h, Opcode.length, ← len, List.getElem?_append_right
      (by simp only [List.length_append, List.length_cons]; omega),
      List.head?_eq_getElem?]
    congr 1
    simp only [List.length_append, List.length_cons]
    omega
  rw [List.length_append, List.length_singleton, hops] at args
  refine ⟨?_, by rw [List.length_cons, len, Opcode.length, Nat.add_comm]⟩
  simp only [decodeAt, here, args, next, hafter, bind, Except.bind]
  rfl

/-- Instructions one after another, as primitives and as words. -/
inductive Instructions : List Primitive → List Word → Prop
  | nil : Instructions [] []
  | cons {op prims ws rest others} : prims.map (·.op) = op.primitives →
      instructionWords op prims = .ok ws → Instructions rest others →
      Instructions (prims ++ rest) (ws ++ others)

theorem instructions_of_groupWords {isPlace : Nat → Bool} {i : Nat} {gs : List (Opcode × Nat)}
    {prims : List Primitive} {ws : List Word} (hg : Grouped isPlace i gs (prims.map (·.op)))
    (h : groupWords gs prims = .ok ws) : Instructions prims ws := by
  generalize hops : prims.map (·.op) = ops at hg
  induction hg generalizing prims ws with
  | nil =>
    rw [List.map_eq_nil_iff] at hops
    subst hops
    cases h
    exact .nil
  | single _ ih =>
    obtain ⟨p, ps, rfl, rfl, hps⟩ := List.map_eq_cons_iff.mp hops
    rw [groupWords, if_neg (by simp)] at h
    obtain ⟨mine, hmine, h⟩ := except_bind_ok.mp h
    obtain ⟨others, hothers, h⟩ := except_bind_ok.mp h
    cases h
    rw [primitiveWords] at hmine
    split at hmine
    · cases hmine
    · rename_i hsuper
      have alone : [p].map (·.op) = p.op.primitives :=
        (Opcode.primitives_of_not_isSuper (Bool.eq_false_iff.mpr hsuper)).symm
      exact .cons alone hmine (ih hothers hps)
  | fused hsuper _ _ ih =>
    obtain ⟨ps, qs, rfl, hps, hqs⟩ := List.map_eq_append_iff.mp hops
    have two := Opcode.two_le_of_isSuper hsuper
    unfold groupWords at h
    rw [if_pos (by simp [hsuper]; omega), ← hps, List.length_map, List.take_left,
      List.drop_left] at h
    obtain ⟨mine, hmine, h⟩ := except_bind_ok.mp h
    obtain ⟨others, hothers, h⟩ := except_bind_ok.mp h
    cases h
    exact .cons hps hmine (ih hothers hqs)

namespace Instructions

variable {prims : List Primitive} {ws : List Word}

/-- Instructions begin with the word of an opcode. -/
theorem arg?_head (h : Instructions prims ws) : ws.head?.bind Word.arg? = none := by
  cases h with
  | nil => rfl
  | cons _ hws _ =>
    rw [(instructionWords_ok hws).1]
    exact arg?_ofOpcode _

theorem decodes {words : Array Word} {before : List Word} (h : Instructions prims ws)
    (hwords : words.toList = before ++ ws) : Decodes words before.length prims := by
  induction h generalizing before with
  | nil =>
    rw [show before.length = words.size by rw [← Array.length_toList, hwords, List.append_nil]]
    exact .done
  | @cons op prims ws rest others hops hws hrest ih =>
    obtain ⟨here, len⟩ := decodeAt_instructionWords hws hops hrest.arg?_head hwords
    have inside : before.length < words.size := by
      rw [← Array.length_toList, hwords, (instructionWords_ok hws).1]
      simp
    have next := @ih (before ++ ws) (by rw [hwords, List.append_assoc])
    rw [List.length_append, len] at next
    exact .step inside here next

end Instructions

/-! ## The round trip -/

theorem encodeUnfused_eq_groupWords (prims : List Primitive) :
    encodeUnfused prims = groupWords (prims.map fun p => (p.op, 1)) prims := by
  induction prims with
  | nil => rfl
  | cons p ps ih =>
    rw [List.map_cons, groupWords, if_neg (by simp), List.drop_one, List.tail_cons, ← ih,
      encodeUnfused, encodeUnfused, List.mapM_cons]
    cases primitiveWords p with
    | error e => rfl
    | ok ws => cases ps.mapM primitiveWords <;> rfl

theorem grouped_single (isPlace : Nat → Bool) (i : Nat) (prims : List Primitive) :
    Grouped isPlace i (prims.map fun p => (p.op, 1)) (prims.map (·.op)) := by
  induction prims generalizing i with
  | nil => exact .nil
  | cons p ps ih => exact .single (ih (i + 1))

/-- Both encodings succeed on the same sequences of primitives, those whose primitives all
    have an encoding, and fail with the same error on the others.  Decoding the words of
    either never fails, ends at their end and gives back the primitives. -/
theorem encode_roundTrip (prims : List Primitive) :
    ((∃ ws, encode prims = .ok ws) ↔ ∀ p ∈ prims, Encodable p) ∧
    ((∃ ws, encodeUnfused prims = .ok ws) ↔ ∀ p ∈ prims, Encodable p) ∧
    (∀ e, encode prims = .error e ↔ encodeUnfused prims = .error e) ∧
    ∀ ws, encode prims = .ok ws ∨ encodeUnfused prims = .ok ws →
      Decodes ws.toArray 0 prims ∧
      ∃ is, decodeFrom ws.toArray 0 = (is, none) ∧ is.flatMap (·.2.2) = prims := by
  have packed := grouped_groups true (fun _ => false) 0 (prims.map (·.op))
  have same : outcome (encode prims) = outcome (encodeUnfused prims) := by
    rw [encode, outcome_groupWords packed, outcome_encodeUnfused]
  have unfused : (∃ ws, encodeUnfused prims = .ok ws) ↔ ∀ p ∈ prims, Encodable p := by
    rw [← checkEach_ok, ← outcome_encodeUnfused, outcome_eq_ok]
  refine ⟨?_, unfused, fun e => ?_, fun ws hws => ?_⟩
  · rw [← unfused, ← outcome_eq_ok (u := ()), same, outcome_eq_ok]
  · rw [← outcome_eq_error, same, outcome_eq_error]
  · have is : Instructions prims ws := by
      rcases hws with h | h
      · exact instructions_of_groupWords packed h
      · rw [encodeUnfused_eq_groupWords] at h
        exact instructions_of_groupWords (grouped_single (fun _ => false) 0 prims) h
    have decodes : Decodes ws.toArray ([] : List Word).length prims := is.decodes rfl
    exact ⟨decodes, decodes.decodeFrom⟩

end Code

end TieredMachine
