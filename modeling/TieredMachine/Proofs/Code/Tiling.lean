/-
  Decoding is exact.

  An instruction is read where an opcode's word stands with as many argument words behind it
  as the expansion of the opcode takes, and no more.  Nothing outside of it matters, so the
  instructions of a unit are the only pieces that its words can be cut into.

  * `Opcode.Expands`: superinstructions taken apart until primitives are left;
  * `Code.decodeAt_isOk`, `Code.decodeAt_reads`, `Code.decodeAt_congr`: when an instruction is
    read, what is read, and what it depends on;
  * `Code.Tiling`: instructions that every word is in exactly one of;
  * **`Code.decoding_exact`**: decoding at an index, and the tiling by a unit.
-/
import TieredMachine.Proofs.Code.RoundTrip
import TieredMachine.Proofs.Code.Range

namespace TieredMachine

/-! ## Expansion -/

/-- Opcodes taken apart: a superinstruction gives way to its parts, which may be
    superinstructions again, until only primitives are left. -/
inductive Opcode.Expands : List Opcode → List Opcode → Prop
  | nil : Expands [] []
  | primitive {op ops prims} : op.isSuper = false → Expands ops prims →
      Expands (op :: ops) (op :: prims)
  | super {op ops prims} : op.isSuper = true → Expands (op.components ++ ops) prims →
      Expands (op :: ops) prims

namespace Opcode

/-- The primitives of a superinstruction are those of its parts. -/
theorem primitives_of_isSuper {op : Opcode} (h : op.isSuper = true) :
    op.primitives = op.components.flatMap primitives := by
  cases op <;> first | rfl | cases h

theorem Expands.append {ops prims : List Opcode} (h : Expands ops prims) {ops' prims' : List Opcode}
    (h' : Expands ops' prims') : Expands (ops ++ ops') (prims ++ prims') := by
  induction h with
  | nil => exact h'
  | primitive hop _ ih => exact .primitive hop ih
  | super hop _ ih => exact .super hop (by rwa [List.append_assoc] at ih)

/-- Taking an opcode apart leaves its primitives, and nothing else. -/
theorem expands_iff {op : Opcode} {prims : List Opcode} :
    Expands [op] prims ↔ prims = op.primitives := by
  constructor
  · suffices all : ∀ {ops prims}, Expands ops prims → prims = ops.flatMap primitives by
      exact fun h => by rw [all h, List.flatMap_singleton]
    intro ops prims h
    induction h with
    | nil => rfl
    | primitive hop _ ih => rw [List.flatMap_cons, primitives_of_not_isSuper hop, ih]; rfl
    | super hop _ ih => rw [List.flatMap_cons, primitives_of_isSuper hop, ih, List.flatMap_append]
  · rintro rfl
    -- the parts of a superinstruction nest one level deep
    have one {op : Opcode} (h : op.isSuper = false) : Expands [op] op.primitives := by
      rw [primitives_of_not_isSuper h]
      exact .primitive h .nil
    have parts {ops : List Opcode} (h : ∀ op ∈ ops, Expands [op] op.primitives) :
        Expands ops (ops.flatMap primitives) := by
      induction ops with
      | nil => exact .nil
      | cons op ops ih =>
        obtain ⟨here, rest⟩ := List.forall_mem_cons.mp h
        exact here.append (ih rest)
    have flat {op : Opcode} (h : ∀ part ∈ op.components, part.isSuper = false) :
        Expands [op] op.primitives := by
      cases hop : op.isSuper with
      | false => exact one hop
      | true =>
        rw [primitives_of_isSuper hop]
        exact .super hop (by rw [List.append_nil]; exact parts fun part hp => one (h part hp))
    have shallow : ∀ op ∈ all, ∀ part ∈ op.components, ∀ p ∈ part.components,
        p.isSuper = false := by decide
    cases hop : op.isSuper with
    | false => exact one hop
    | true =>
      rw [primitives_of_isSuper hop]
      refine .super hop ?_
      rw [List.append_nil]
      exact parts fun part hp => flat (shallow op (by cases op <;> decide) part hp)

/-- The byte of an opcode is the only one that stands for it. -/
theorem toByte_of_ofByte? {b : Nat} {op : Opcode} (h : ofByte? b = some op) : op.toByte = b := by
  unfold ofByte? at h
  split at h <;> cases h <;> rfl

end Opcode

/-! ## Pieces of code -/

/-- An instruction in its place: where it starts, its opcode and its primitives. -/
abbrev Piece := Nat × Opcode × List Primitive

namespace Piece

/-- The index behind a piece. -/
def next (x : Piece) : Nat := x.1 + x.2.1.length

/-- The word at an index is part of the piece. -/
def Covers (x : Piece) (j : Nat) : Prop := x.1 ≤ j ∧ j < x.next

theorem lt_next (x : Piece) : x.1 < x.next := by
  rw [next, Opcode.length]
  omega

end Piece

/-- The piece that an instruction is. -/
def Instr.piece (i : Instr) : Piece := (i.ip, i.op, i.prims)

namespace Code

/-! ## One instruction -/

/-- The argument word at an index, if there is one. -/
def argAt? (words : Array Word) (index : Nat) : Option Nat := words[index]?.bind Word.arg?

/-- The arguments of primitives, in order. -/
def arguments (prims : List Primitive) : List Nat := prims.filterMap (·.arg)

variable {words words' : Array Word} {index : Nat} {op : Opcode} {prims : List Primitive}

/-- An opcode is found where its word stands. -/
theorem opcodeAt_ok : opcodeAt words index = .ok op ↔ words[index]? = some (.ofOpcode op) := by
  refine ⟨fun h => ?_, opcodeAt_ofOpcode⟩
  unfold opcodeAt at h
  split at h
  · cases h
  · rename_i w hw
    rw [hw]
    split at h
    · cases h
    · rename_i even
      split at h
      · rename_i op' byte
        cases h
        have same : w.raw.toNat = 2 * op.toByte := by
          have half := Opcode.toByte_of_ofByte? byte
          simp only [Word.payload] at half
          simp only [Word.isArg, beq_iff_eq] at even
          omega
        have raw : w.raw = (Word.ofOpcode op).raw := by
          rw [← UInt32.toNat_inj, same, toNat_ofOpcode]
        exact congrArg (fun raw => some (Word.mk raw)) raw
      · cases h

/-- The arguments that are read are the argument words from the index on, in order. -/
theorem readArgs_reads {ops : List Opcode} (h : readArgs words index ops = .ok prims) :
    (arguments prims).map some =
      (List.range (ops.filter Opcode.hasArg).length).map fun k => argAt? words (index + k) := by
  induction ops generalizing index prims with
  | nil =>
    cases h
    rfl
  | cons op ops ih =>
    unfold readArgs at h
    split at h
    · rename_i hop
      split at h
      · cases h
      · rename_i arg found
        obtain ⟨rest, hrest, h⟩ := except_bind_ok.mp h
        cases h
        rw [List.filter_cons_of_pos hop, List.length_cons, List.range_succ_eq_map, List.map_cons,
          List.map_map]
        show some arg :: (arguments rest).map some = _
        rw [ih hrest]
        refine congrArg₂ List.cons found.symm (List.map_congr_left fun k _ => ?_)
        rw [Function.comp_apply, Nat.succ_eq_add_one, Nat.add_comm k 1, ← Nat.add_assoc]
    · rename_i hop
      obtain ⟨rest, hrest, h⟩ := except_bind_ok.mp h
      cases h
      rw [List.filter_cons_of_neg hop]
      show (arguments rest).map some = _
      exact ih hrest

/-- A primitive is read before others when these are. -/
theorem isOk_cons (p : Primitive) {x : Except CodeError (List Primitive)} :
    (∃ prims, (do return p :: (← x) : Except CodeError (List Primitive)) = .ok prims) ↔
      ∃ rest, x = .ok rest := by
  constructor
  · rintro ⟨prims, h⟩
    obtain ⟨rest, read, -⟩ := except_bind_ok.mp h
    exact ⟨rest, read⟩
  · rintro ⟨rest, read⟩
    exact ⟨p :: rest, except_bind_ok.mpr ⟨rest, read, rfl⟩⟩

/-- Arguments are read when their words are there. -/
theorem readArgs_isOk {ops : List Opcode} : (∃ prims, readArgs words index ops = .ok prims) ↔
    ∀ k < (ops.filter Opcode.hasArg).length, (argAt? words (index + k)).isSome := by
  induction ops generalizing index with
  | nil => exact ⟨fun _ k hk => absurd hk (Nat.not_lt_zero k), fun _ => ⟨[], rfl⟩⟩
  | cons op ops ih =>
    by_cases hop : op.hasArg
    · rw [List.filter_cons_of_pos hop, List.length_cons, Nat.forall_lt_succ_left]
      simp only [readArgs, if_pos hop, Nat.add_zero]
      have rest := @ih (index + 1)
      simp only [Nat.add_assoc, Nat.add_comm 1] at rest
      rw [← rest]
      cases found : words[index]?.bind Word.arg? with
      | none => simp [argAt?, found]
      | some arg =>
        simp only [argAt?, found, Option.isSome_some, true_and]
        exact isOk_cons ⟨op, some arg⟩
    · rw [List.filter_cons_of_neg hop, ← ih]
      simp only [readArgs, if_neg hop]
      exact isOk_cons ⟨op, none⟩

theorem readArgs_congr {ops : List Opcode}
    (h : ∀ k < (ops.filter Opcode.hasArg).length, words'[index + k]? = words[index + k]?) :
    readArgs words' index ops = readArgs words index ops := by
  induction ops generalizing index with
  | nil => rfl
  | cons op ops ih =>
    by_cases hop : op.hasArg
    · rw [List.filter_cons_of_pos hop, List.length_cons, Nat.forall_lt_succ_left] at h
      have rest := @ih (index + 1) fun k hk => by
        rw [Nat.add_right_comm, Nat.add_assoc]
        exact h.2 k hk
      simp only [readArgs, if_pos hop, rest, show words'[index]? = words[index]? from h.1]
    · rw [List.filter_cons_of_neg hop] at h
      simp only [readArgs, if_neg hop, ih h]

/-- An instruction is read where an opcode's word stands, as many argument words follow as it
    takes, and no argument word follows these. -/
theorem decodeAt_isOk : (∃ prims, decodeAt words index = .ok (op, prims)) ↔
    words[index]? = some (.ofOpcode op) ∧
      (∀ k < op.argCount, (argAt? words (index + 1 + k)).isSome) ∧
      argAt? words (index + 1 + op.argCount) = none := by
  have next : index + op.length = index + 1 + op.argCount := by
    rw [Opcode.length, Nat.add_assoc]
  rw [← opcodeAt_ok, show op.argCount = (op.primitives.filter Opcode.hasArg).length from rfl,
    ← readArgs_isOk]
  constructor
  · rintro ⟨prims, h⟩
    obtain ⟨op', found, h⟩ := except_bind_ok.mp h
    obtain ⟨prims', hargs, h⟩ := except_bind_ok.mp h
    dsimp only at h
    split at h
    · cases h
    · rename_i last
      cases h
      rw [Option.not_isSome_iff_eq_none, next] at last
      exact ⟨found, ⟨prims, hargs⟩, last⟩
  · rintro ⟨found, ⟨prims, hargs⟩, last⟩
    refine ⟨prims, except_bind_ok.mpr ⟨op, found, except_bind_ok.mpr ⟨prims, hargs, ?_⟩⟩⟩
    dsimp only
    rw [next, if_neg]
    · rfl
    · rw [Option.not_isSome_iff_eq_none]
      exact last

/-- What is read: the primitives that the opcode expands to, with the argument words handed
    out in order, inside the code. -/
theorem decodeAt_reads (h : decodeAt words index = .ok (op, prims)) :
    Opcode.Expands [op] (prims.map (·.op)) ∧ (∀ p ∈ prims, p.arg.isSome = p.op.hasArg) ∧
      (arguments prims).map some =
        (List.range op.argCount).map (fun k => argAt? words (index + 1 + k)) ∧
      index + 1 + op.argCount ≤ words.size := by
  obtain ⟨ops, takes⟩ := decodeAt_ok h
  have here : words[index]? = some (.ofOpcode op) := (decodeAt_isOk.mp ⟨prims, h⟩).1
  have inside := decodeAt_le h (Array.getElem?_eq_some_iff.mp here).1
  rw [Opcode.length, ← Nat.add_assoc] at inside
  refine ⟨Opcode.expands_iff.mpr ops, takes, ?_, inside⟩
  obtain ⟨op', found, h⟩ := except_bind_ok.mp h
  obtain ⟨prims', hargs, h⟩ := except_bind_ok.mp h
  dsimp only at h
  split at h
  · cases h
  · cases h
    exact readArgs_reads hargs

/-- What is read at an opcode's word, or wrong there, depends on the words up to the one
    behind the instruction only. -/
theorem decodeAt_congr (here : words[index]? = some (.ofOpcode op))
    (same : ∀ j, index ≤ j → j ≤ index + 1 + op.argCount → words'[j]? = words[j]?) :
    decodeAt words' index = decodeAt words index := by
  have here' : words'[index]? = some (.ofOpcode op) := by
    rw [same index (Nat.le_refl _) (by omega), here]
  have args : readArgs words' (index + 1) op.primitives =
      readArgs words (index + 1) op.primitives := by
    refine readArgs_congr fun k hk => same _ (by omega) ?_
    have : k < op.argCount := hk
    omega
  have last : words'[index + op.length]? = words[index + op.length]? := by
    refine same _ (by omega) ?_
    rw [Opcode.length, Nat.add_assoc]
  unfold decodeAt
  rw [opcodeAt_ok.mpr here, opcodeAt_ok.mpr here']
  simp only [bind, Except.bind, args, last]

/-! ## All of them -/

/-- Instructions that are read where they stand, end inside the code, and have every word of
    it in exactly one of them. -/
structure Tiling (words : Array Word) (pieces : Set Piece) : Prop where
  read : ∀ x ∈ pieces, decodeAt words x.1 = .ok x.2
  inside : ∀ x ∈ pieces, x.next ≤ words.size
  exact : ∀ j < words.size, ∃! x, x ∈ pieces ∧ x.Covers j

namespace Contiguous

variable {is : List Instr} {j : Nat}

/-- One instruction after another covers what follows. -/
theorem covered (h : Contiguous words index is) (hj : index ≤ j) (hlt : j < words.size) :
    ∃ i ∈ is, i.piece.Covers j := by
  induction h with
  | nil hle => omega
  | @cons i is _ _ _ ih =>
    by_cases here : j < i.next
    · exact ⟨i, List.mem_cons_self, hj, here⟩
    · obtain ⟨i', hi', covers⟩ := ih (Nat.le_of_not_lt here)
      exact ⟨i', List.mem_cons_of_mem _ hi', covers⟩

/-- No two of them overlap. -/
theorem apart (h : Contiguous words index is) {i i' : Instr} (hi : i ∈ is) (hi' : i' ∈ is)
    (covers : i.piece.Covers j) (covers' : i'.piece.Covers j) : i = i' := by
  have behind {k : Instr} {ks : List Instr} (hks : Contiguous words k.next ks) {l : Instr}
      (hl : l ∈ ks) (hk : k.piece.Covers j) (hc : l.piece.Covers j) : False :=
    absurd (Nat.lt_of_lt_of_le hk.2 (hks.le_ip hl)) (Nat.not_lt.mpr hc.1)
  induction h with
  | nil => exact absurd hi List.not_mem_nil
  | cons _ _ hc ih =>
    rcases List.mem_cons.mp hi with first | later <;>
      rcases List.mem_cons.mp hi' with first' | later'
    · rw [first, first']
    · subst first
      exact (behind hc later' covers covers').elim
    · subst first'
      exact (behind hc later covers' covers).elim
    · exact ih later later'

/-- They come in order. -/
theorem inOrder (h : Contiguous words index is) : is.Pairwise fun i i' => i.next ≤ i'.ip := by
  induction h with
  | nil => exact .nil
  | cons _ _ hc ih => exact .cons (fun _ hi => hc.le_ip hi) ih

theorem tiling (h : Contiguous words 0 is) : Tiling words {x | ∃ i ∈ is, i.piece = x} where
  read := by
    rintro x ⟨i, hi, rfl⟩
    exact h.decoded hi
  inside := by
    rintro x ⟨i, hi, rfl⟩
    exact decodeAt_le (h.decoded hi) (h.ip_lt hi)
  exact j hlt := by
    obtain ⟨i, hi, covers⟩ := h.covered (Nat.zero_le j) hlt
    refine ⟨i.piece, ⟨⟨i, hi, rfl⟩, covers⟩, ?_⟩
    rintro x ⟨⟨i', hi', rfl⟩, covers'⟩
    rw [h.apart hi hi' covers covers']

end Contiguous

namespace Tiling

variable {pieces : Set Piece} {x y : Piece} {j : Nat}

theorem eq_of_covers (h : Tiling words pieces) (hlt : j < words.size) (hx : x ∈ pieces)
    (hy : y ∈ pieces) (cx : x.Covers j) (cy : y.Covers j) : x = y :=
  (h.exact j hlt).unique ⟨hx, cx⟩ ⟨hy, cy⟩

/-- Behind a piece another one starts, unless the code ends. -/
theorem starts_next (h : Tiling words pieces) (hx : x ∈ pieces) (hlt : x.next < words.size) :
    ∃ y ∈ pieces, y.1 = x.next := by
  obtain ⟨y, ⟨hy, covers⟩, -⟩ := h.exact x.next hlt
  refine ⟨y, hy, Nat.le_antisymm covers.1 (Nat.le_of_not_lt fun before => ?_)⟩
  -- otherwise it would share the last word of the first piece
  have some := x.lt_next
  have last : x.Covers (x.next - 1) := ⟨by omega, by omega⟩
  have shared : y.Covers (x.next - 1) := ⟨by omega, by have := covers.2; omega⟩
  obtain rfl := h.eq_of_covers (by omega) hx hy last shared
  exact absurd covers.2 (Nat.lt_irrefl _)

/-- Instructions one after another are among the pieces when the first one starts there. -/
theorem holds (h : Tiling words pieces) {is : List Instr} (hc : Contiguous words index is)
    (start : index < words.size → ∃ x ∈ pieces, x.1 = index) : ∀ i ∈ is, i.piece ∈ pieces := by
  induction hc with
  | nil => exact fun i hi => absurd hi List.not_mem_nil
  | @cons i is hlt hd _ ih =>
    obtain ⟨x, hx, at_⟩ := start hlt
    have same : x = i.piece := by
      have read := h.read x hx
      rw [at_, hd] at read
      exact Prod.ext at_ (Except.ok.inj read).symm
    subst same
    exact List.forall_mem_cons.mpr ⟨hx, ih fun hlt => h.starts_next hx hlt⟩

/-- There is one tiling at most. -/
theorem unique (h : Tiling words pieces) {is : List Instr} (hc : Contiguous words 0 is) :
    pieces = {x | ∃ i ∈ is, i.piece = x} := by
  have start (hlt : 0 < words.size) : ∃ x ∈ pieces, x.1 = 0 := by
    obtain ⟨x, ⟨hx, covers⟩, -⟩ := h.exact 0 hlt
    exact ⟨x, hx, Nat.le_zero.mp covers.1⟩
  have holds := h.holds hc start
  refine Set.Subset.antisymm (fun x hx => ?_) ?_
  · have here := x.lt_next
    have hlt := Nat.lt_of_lt_of_le here (h.inside x hx)
    obtain ⟨i, hi, covers⟩ := hc.covered (Nat.zero_le x.1) hlt
    exact ⟨i, hi, h.eq_of_covers hlt (holds i hi) hx covers ⟨Nat.le_refl _, here⟩⟩
  · rintro x ⟨i, hi, rfl⟩
    exact holds i hi

end Tiling

end Code

/-- The words of a unit are those that it is made of. -/
theorem CodeUnit.words_of_ofParts {id : Ref} {parts : CodeParts} {u : CodeUnit}
    (h : ofParts id parts = .ok u) : u.words = parts.words := by
  obtain ⟨instrs, lines, flags, handlers, -, -, -, -, -, made, -, -⟩ := ofParts_ok h
  rw [made]

namespace Code

/-- **Decoding is exact.**  At an index an instruction is read just where an opcode's word
    stands with the argument words that it takes, and no further one, behind it.  It ends
    inside the code, its primitives are what the opcode expands to and have the argument words
    in order, and only the words up to the one behind it matter.  The instructions of a unit
    come in order and tile its words, and no others do. -/
theorem decoding_exact (words : Array Word) (index : Nat) :
    (∀ op, (∃ prims, decodeAt words index = .ok (op, prims)) ↔
      words[index]? = some (.ofOpcode op) ∧
        (∀ k < op.argCount, (argAt? words (index + 1 + k)).isSome) ∧
        argAt? words (index + 1 + op.argCount) = none) ∧
    (∀ op prims, decodeAt words index = .ok (op, prims) →
      Piece.next (index, op, prims) = index + 1 + op.argCount ∧
        index + 1 + op.argCount ≤ words.size ∧
        Opcode.Expands [op] (prims.map (·.op)) ∧ (∀ p ∈ prims, p.arg.isSome = p.op.hasArg) ∧
        (arguments prims).map some =
          (List.range op.argCount).map (fun k => argAt? words (index + 1 + k)) ∧
        ∀ words' : Array Word,
          (∀ j, index ≤ j → j ≤ index + 1 + op.argCount → words'[j]? = words[j]?) →
            decodeAt words' index = .ok (op, prims)) ∧
    ∀ id parts u, parts.words = words → CodeUnit.ofParts id parts = .ok u →
      u.words = words ∧ u.instrs.toList.Pairwise (fun i i' => i.next ≤ i'.ip) ∧
        Tiling words {x | ∃ i ∈ u.instrs.toList, i.piece = x} ∧
        ∀ pieces, Tiling words pieces → pieces = {x | ∃ i ∈ u.instrs.toList, i.piece = x} := by
  refine ⟨fun op => decodeAt_isOk, fun op prims h => ?_, fun id parts u hwords h => ?_⟩
  · obtain ⟨expands, takes, reads, inside⟩ := decodeAt_reads h
    have next : Piece.next (index, op, prims) = index + 1 + op.argCount := by
      rw [Piece.next, Opcode.length, Nat.add_assoc]
    refine ⟨next, inside, expands, takes, reads, fun words' same => ?_⟩
    rw [decodeAt_congr (decodeAt_isOk.mp ⟨prims, h⟩).1 same, h]
  · have same : u.words = words := by
      rw [← hwords]
      exact CodeUnit.words_of_ofParts h
    have contiguous := (CodeUnit.checked_of_ofParts h).2.contiguous
    rw [same] at contiguous
    exact ⟨same, contiguous.inOrder, contiguous.tiling, fun pieces tiles => tiles.unique contiguous⟩

end Code

/-! ### A comparison taken whole -/

/-- The parts of a unit that is one superinstruction and a return. -/
def CodeParts.compares : CodeParts where
  name := "compares"
  argcount := 1
  words := #[.ofOpcode .loadFastLoadConstCompareOpPopJumpIfFalse, ⟨1⟩, ⟨1⟩, ⟨1⟩, ⟨1⟩,
    .ofOpcode .loadConst, ⟨1⟩, .ofOpcode .returnValue]
  consts := #[.none]
  varnames := #["a"]

/-- The unit with these parts. -/
def CodeUnit.compares : CodeUnit := (CodeUnit.ofParts 0 .compares).toOption.getD default

theorem decoding_exact_of_compares :
    CodeUnit.ofParts 0 .compares = .ok .compares ∧
    (∃ prims, Code.decodeAt CodeParts.compares.words 0 =
        .ok (.loadFastLoadConstCompareOpPopJumpIfFalse, prims) ∧
      Opcode.Expands [.loadFastLoadConstCompareOpPopJumpIfFalse] (prims.map (·.op)) ∧
      (Code.arguments prims).map some = [some 0, some 0, some 0, some 0]) ∧
    ∀ pieces, Code.Tiling CodeParts.compares.words pieces → ∀ x, x ∈ pieces → x.1 ∈ [0, 5, 7] := by
  obtain ⟨isOk, reads, units⟩ := Code.decoding_exact CodeParts.compares.words 0
  have built : CodeUnit.ofParts 0 .compares = .ok .compares := eq_ok_of_isSome (by decide +kernel)
  obtain ⟨prims, h⟩ :=
    (isOk .loadFastLoadConstCompareOpPopJumpIfFalse).mpr (by decide +kernel)
  obtain ⟨-, -, expands, -, args, -⟩ := reads _ _ h
  obtain ⟨-, -, -, only⟩ := units 0 .compares .compares rfl built
  refine ⟨built, ⟨prims, h, expands, args.trans (by decide +kernel)⟩, fun pieces tiles x hx => ?_⟩
  rw [only pieces tiles] at hx
  obtain ⟨i, hi, rfl⟩ := hx
  have starts : ∀ i ∈ CodeUnit.compares.instrs.toList, i.ip ∈ [0, 5, 7] := by decide +kernel
  exact starts i hi

end TieredMachine
