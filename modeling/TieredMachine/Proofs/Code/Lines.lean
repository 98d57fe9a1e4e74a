/-
  The lines of an assembled unit.

  The line table of a unit is run-length compressed: it has an entry where the line changes from
  one instruction to the next.  What is found there for an instruction is the line under which
  the first of its primitives was emitted.  An instruction that takes primitives from several
  lines therefore stands for the first of them; where none does, packing changes no line that a
  traceback or a tracer names.

  * `CodeBuilder.lineOf_lineTable`: the table finds the line of every instruction;
  * `CodeUnit.Carries`, `CodeUnit.carries_of_build`: the primitives that a unit was built from;
  * `CodeUnit.holder?`: the instruction that a primitive is in;
  * `step_tells`, `CodeUnit.toldAlong`: the lines that a tracer is told;
  * **`lines_attributed`**: the lines of primitives, in every build of them.
-/
import TieredMachine.Proofs.Code.Assembly
import TieredMachine.Run.Interpreter

namespace TieredMachine

/-! ## The line table -/

namespace CodeBuilder

/-- The table, its latest entry in front, with one more instruction. -/
def enterLine (table : List (Nat × Nat)) (p : Placed) : List (Nat × Nat) :=
  let line := (p.prims.head?.map (·.line)).getD 0
  if table.head?.map (·.2) = some line then table else (p.start, line) :: table

/-- The last entry of the table that an index has reached. -/
theorem lineOf_reverse (firstLine : Nat) (table : List (Nat × Nat)) (ip : Nat) :
    Code.lineOf firstLine table.reverse ip =
      ((table.find? (·.1 ≤ ip)).map (·.2)).getD firstLine := by
  rw [Code.lineOf, List.filter_reverse, List.getLast?_reverse, List.head?_filter]

variable {start : Nat} {prims : List Draft} {placed : List Placed} {table : List (Nat × Nat)}

/-- An entry that is added is that of the instruction. -/
theorem enterLine_adds (p : Placed) (table : List (Nat × Nat)) :
    ∃ new, enterLine table p = new ++ table ∧ (new = [] ∨ ∃ line, new = [(p.start, line)]) := by
  unfold enterLine
  dsimp only
  split
  · exact ⟨[], rfl, .inl rfl⟩
  · exact ⟨[_], rfl, .inr ⟨_, rfl⟩⟩

/-- The entries that are added are in order, and behind those that were there. -/
theorem foldl_enterLine (laid : Laid start prims placed) (table : List (Nat × Nat)) :
    ∃ new, placed.foldl enterLine table = new ++ table ∧ (∀ e ∈ new, start ≤ e.1) ∧
      new.Pairwise fun e e' => e'.1 < e.1 := by
  induction laid generalizing table with
  | nil => exact ⟨[], rfl, nofun, .nil⟩
  | @cons p _ ps _ stop _ ih =>
    obtain ⟨later, hlater, bound, ordered⟩ := ih (enterLine table p)
    obtain ⟨mine, hmine, one⟩ := enterLine_adds p table
    have before : p.start < p.stop := by
      rw [stop, Opcode.length]
      omega
    refine ⟨later ++ mine, by rw [List.foldl_cons, hlater, hmine, List.append_assoc], ?_, ?_⟩
    · intro e he
      rcases List.mem_append.mp he with he | he
      · exact Nat.le_trans (Nat.le_of_lt before) (bound e he)
      · rcases one with rfl | ⟨line, rfl⟩
        · exact absurd he List.not_mem_nil
        · rw [List.mem_singleton.mp he]
    · refine List.pairwise_append.mpr ⟨ordered, ?_, fun e he e' he' => ?_⟩
      · rcases one with rfl | ⟨line, rfl⟩
        · exact .nil
        · exact List.pairwise_singleton _ _
      · rcases one with rfl | ⟨line, rfl⟩
        · exact absurd he' List.not_mem_nil
        · rw [List.mem_singleton.mp he']
          exact Nat.lt_of_lt_of_le before (bound e he)

/-- Every instruction that is laid out holds some primitive. -/
theorem Laid.exists_head (laid : Laid start prims placed) {p : Placed} (hp : p ∈ placed) :
    ∃ d, p.prims.head? = some d := by
  induction laid with
  | nil => exact absurd hp List.not_mem_nil
  | @cons q _ _ ops _ _ ih =>
    rcases List.mem_cons.mp hp with rfl | hp
    · cases held : p.prims with
      | cons d _ => exact ⟨d, rfl⟩
      | nil =>
        rw [held] at ops
        exact absurd ops.symm p.op.primitives_ne_nil
    · exact ih hp

/-- Right behind an instruction its line is in force. -/
theorem head?_enterLine {p : Placed} {d : Draft} (hd : p.prims.head? = some d)
    (before : ∀ e ∈ table.head?, e.1 ≤ p.start) :
    ∃ s ≤ p.start, (enterLine table p).head? = some (s, d.line) := by
  have line : (p.prims.head?.map (·.line)).getD 0 = d.line := by rw [hd]; rfl
  unfold enterLine
  dsimp only
  rw [line]
  split
  · rename_i same
    obtain ⟨⟨s, l⟩, head, rfl⟩ := Option.map_eq_some_iff.mp same
    exact ⟨s, before _ head, head⟩
  · exact ⟨p.start, Nat.le_refl _, rfl⟩

/-- The whole table finds the line of an instruction's first primitive. -/
theorem find?_foldl_enterLine (laid : Laid start prims placed)
    (before : ∀ e ∈ table.head?, e.1 ≤ start) {p : Placed} (hp : p ∈ placed) :
    ((placed.foldl enterLine table).find? (·.1 ≤ p.start)).map (·.2) =
      p.prims.head?.map (·.line) := by
  have whole := laid
  induction laid generalizing table with
  | nil => exact absurd hp List.not_mem_nil
  | @cons q _ ps _ stop rest ih =>
    obtain ⟨d, hd⟩ := whole.exists_head List.mem_cons_self
    obtain ⟨s, hs, head⟩ := head?_enterLine hd before
    have behind : q.start < q.stop := by
      rw [stop, Opcode.length]
      omega
    rw [List.foldl_cons]
    rcases List.mem_cons.mp hp with rfl | hp
    · -- the entries to come are all behind it
      obtain ⟨later, hlater, bound, -⟩ := foldl_enterLine rest (enterLine table p)
      have none : later.find? (·.1 ≤ p.start) = none := by
        rw [List.find?_eq_none]
        intro e he
        have := bound e he
        simp only [decide_eq_true_eq]
        omega
      obtain ⟨tail, htail⟩ := List.head?_eq_some_iff.mp head
      rw [hlater, List.find?_append, none, Option.none_or, htail,
        List.find?_cons_of_pos (by simpa using hs), hd]
      rfl
    · refine ih (fun e he => ?_) hp rest
      rw [head] at he
      cases he
      omega

/-- The line table finds the line under which the first primitive of an instruction was
    emitted, and its entries are in order. -/
theorem lineOf_lineTable (laid : Laid start prims placed) (firstLine : Nat) :
    (lineTable placed).Pairwise (fun e e' => e.1 < e'.1) ∧
      ∀ p ∈ placed, p.prims.head?.map (·.line) =
        some (Code.lineOf firstLine (lineTable placed) p.start) := by
  have table : lineTable placed = (placed.foldl enterLine []).reverse := rfl
  refine ⟨?_, fun p hp => ?_⟩
  · obtain ⟨new, h, -, ordered⟩ := foldl_enterLine laid []
    rw [table, h, List.append_nil, List.pairwise_reverse]
    exact ordered
  · obtain ⟨d, hd⟩ := laid.exists_head hp
    rw [table, lineOf_reverse, find?_foldl_enterLine laid (by simp) hp, hd]
    rfl

end CodeBuilder

/-! ## What a unit was built from -/

theorem Code.line_of_instrsFrom {words : Array Word} {line : Nat → Nat} (ip : Nat)
    {is : List Instr} (h : instrsFrom words line ip = .ok is) : ∀ i ∈ is, i.line = line i.ip := by
  induction ip using instrsFrom.induct words generalizing is with
  | case1 ip hlt ih =>
    rw [instrsFrom, if_pos hlt] at h
    obtain ⟨⟨op, prims⟩, hd, h⟩ := except_bind_ok.mp h
    obtain ⟨rest, hr, h⟩ := except_bind_ok.mp h
    cases h
    exact List.forall_mem_cons.mpr ⟨rfl, ih op hr⟩
  | case2 ip hge =>
    rw [instrsFrom, if_neg hge] at h
    cases h
    exact fun _ hi => absurd hi List.not_mem_nil

/-- The lines of a unit are those that it is made of, and its instructions have them. -/
theorem CodeUnit.lines_of_ofParts {id : Ref} {parts : CodeParts} {u : CodeUnit}
    (h : ofParts id parts = .ok u) (ordered : parts.lines.Pairwise fun e e' => e.1 ≤ e'.1) :
    u.lines = parts.lines ∧ ∀ i ∈ u.instrs.toList, i.line = u.lineFor i.ip := by
  obtain ⟨instrs, lines, flags, handlers, sorted, -, hi, -, -, made, his, -⟩ := ofParts_ok h
  have same : lines = parts.lines :=
    sorted.trans (List.mergeSort_of_pairwise (by simpa using ordered))
  subst same
  refine ⟨by rw [made], fun i hm => ?_⟩
  rw [his] at hm
  rw [lineFor, made]
  exact Code.line_of_instrsFrom 0 hi i hm

namespace CodeBuilder

variable {b : CodeBuilder}

theorem finish_ok {parts : CodeParts} (h : b.finish = .ok parts) :
    b.error = none ∧ parts.lines = lineTable b.layout ∧
      ∃ pieces, b.layout.mapM (placedWords b.labels (indices b.layout).toArray) = .ok pieces ∧
        parts.words.toList = pieces.flatten := by
  unfold finish at h
  split at h
  · cases h
  · rename_i fine
    obtain ⟨pieces, written, h⟩ := except_bind_ok.mp h
    cases h
    exact ⟨fine, rfl, pieces, written, rfl⟩

/-- A unit that is built holds the primitives under their lines, and has the line of each
    instruction in its table. -/
theorem attributed_of_build (sound : b.error = none → ∀ d ∈ b.prims.toList, d.Sound)
    {id : Ref} {u : CodeUnit} (built : b.build id = .ok u) :
    Attributed u.instrs.toList (b.prims.toList.map fun d => (d.op, d.line)) ∧
      u.instrs.toList.map (·.op) = b.layout.map (·.op) ∧
      ∀ i ∈ u.instrs.toList, i.line = u.lineFor i.ip := by
  obtain ⟨parts, finished, built⟩ := except_bind_ok.mp built
  obtain ⟨fine, table, pieces, written, words⟩ := finish_ok finished
  have laid : Laid 0 b.prims.toList b.layout :=
    laid_of_grouped (Code.grouped_groups b.fuse _ 0 _) (sound fine) 0
  obtain ⟨ordered, found⟩ := lineOf_lineTable laid u.firstLine
  rw [← table] at ordered found
  obtain ⟨lines, told⟩ := CodeUnit.lines_of_ofParts built (ordered.imp Nat.le_of_lt)
  rw [← lines] at found
  have checked := (CodeUnit.checked_of_ofParts built).2
  obtain ⟨attributed, ops⟩ := attributed_of_laid laid (sound fine) found [] written
    (by rw [CodeUnit.words_of_ofParts built, words]; rfl) rfl checked.contiguous told
  exact ⟨attributed, ops, told⟩

/-- Without packing every primitive is an instruction. -/
theorem layout_unfused (h : b.fuse = false) :
    b.layout.map (·.op) = b.prims.toList.map (·.op) := by
  have ops : ∀ (start : Nat) (gs : List (Opcode × Nat)) (prims : List Draft),
      (place start gs prims).map (·.op) = gs.map (·.1) := by
    intro start gs prims
    induction gs generalizing start prims with
    | nil => rfl
    | cons g gs ih => rw [place, List.map_cons, ih, List.map_cons]
  have single (isPlace : Nat → Bool) : ∀ (i : Nat) (ops : List Opcode),
      (Code.groups false isPlace i ops).map (·.1) = ops := by
    intro i ops
    induction ops generalizing i with
    | nil => rw [Code.groups]; rfl
    | cons op ops ih => rw [Code.groups, if_neg Bool.false_ne_true, List.map_cons, ih]
  rw [layout, ops, h, single]

end CodeBuilder

/-! ## The instruction of a primitive -/

/-- The line of the `k`-th of some primitives. -/
def lineAt? (ps : List (Opcode × Nat)) (k : Nat) : Option Nat := ps[k]?.map (·.2)

/-- The instruction with the `k`-th of all primitives, and the place of it there. -/
def holderIn : List Instr → Nat → Option (Instr × Nat)
  | [], _ => none
  | i :: is, k =>
    if k < i.prims.length then some (i, k) else holderIn is (k - i.prims.length)

/-- The number of primitives in the first `n` instructions. -/
def primsBefore (is : List Instr) (n : Nat) : Nat := ((is.take n).flatMap (·.prims)).length

section

variable {is : List Instr} {i : Instr} {n k j : Nat}

@[simp] theorem primsBefore_zero : primsBefore is 0 = 0 := rfl

@[simp] theorem primsBefore_cons_succ :
    primsBefore (i :: is) (n + 1) = i.prims.length + primsBefore is n := by
  rw [primsBefore, List.take_succ_cons, List.flatMap_cons, List.length_append, primsBefore]

theorem primsBefore_succ (hi : is[n]? = some i) :
    primsBefore is (n + 1) = primsBefore is n + i.prims.length := by
  rw [primsBefore, List.take_add_one, hi, List.flatMap_append, List.length_append, primsBefore,
    Option.toList_some, List.flatMap_singleton]

theorem primsBefore_mono (is : List Instr) {m : Nat} (h : n ≤ m) :
    primsBefore is n ≤ primsBefore is m := by
  obtain ⟨d, rfl⟩ := Nat.exists_eq_add_of_le h
  rw [primsBefore, primsBefore, List.take_add, List.flatMap_append, List.length_append]
  exact Nat.le_add_right _ _

theorem holderIn_eq_some : holderIn is k = some (i, j) ↔
    ∃ n, is[n]? = some i ∧ j < i.prims.length ∧ k = primsBefore is n + j := by
  induction is generalizing k with
  | nil => simp [holderIn]
  | cons i' is ih =>
    unfold holderIn
    split
    · rename_i here
      constructor
      · intro h
        cases h
        exact ⟨0, rfl, here, by simp⟩
      · rintro ⟨n, hi, hj, rfl⟩
        cases n with
        | zero =>
          cases hi
          simp
        | succ n =>
          rw [primsBefore_cons_succ] at here
          omega
    · rename_i later
      rw [ih]
      constructor
      · rintro ⟨n, hi, hj, hk⟩
        refine ⟨n + 1, hi, hj, ?_⟩
        rw [primsBefore_cons_succ]
        omega
      · rintro ⟨n, hi, hj, rfl⟩
        cases n with
        | zero =>
          cases hi
          simp at later
          omega
        | succ n =>
          refine ⟨n, hi, hj, ?_⟩
          rw [primsBefore_cons_succ]
          omega

end

namespace Attributed

variable {is : List Instr} {ps : List (Opcode × Nat)} {i : Instr} {n j k : Nat}

theorem length_eq {mine : List (Opcode × Nat)} (h : i.prims.map (·.op) = mine.map (·.1)) :
    i.prims.length = mine.length := by
  simpa using congrArg List.length h

/-- Every primitive is in an instruction. -/
theorem exists_holder (h : Attributed is ps) (hk : k < ps.length) :
    ∃ i j, holderIn is k = some (i, j) := by
  induction h generalizing k with
  | nil => exact absurd hk (Nat.not_lt_zero k)
  | cons ops _ _ ih =>
    unfold holderIn
    split
    · exact ⟨_, _, rfl⟩
    · rw [List.length_append, ← length_eq ops] at hk
      exact ih (by omega)

/-- An instruction runs its primitives. -/
theorem op_eq (h : Attributed is ps) (hi : is[n]? = some i) (hj : j < i.prims.length) :
    i.prims[j]?.map (·.op) = ps[primsBefore is n + j]?.map (·.1) := by
  induction h generalizing n with
  | nil => cases hi
  | cons ops _ _ ih =>
    cases n with
    | zero =>
      cases hi
      rw [primsBefore_zero, Nat.zero_add, List.getElem?_append_left (length_eq ops ▸ hj),
        ← List.getElem?_map, ops, List.getElem?_map]
    | succ n =>
      rw [primsBefore_cons_succ, Nat.add_assoc, length_eq ops,
        List.getElem?_append_right (Nat.le_add_right _ _), Nat.add_sub_cancel_left]
      exact ih hi

/-- The line of an instruction is that of its first primitive. -/
theorem line_eq (h : Attributed is ps) (hi : is[n]? = some i) :
    lineAt? ps (primsBefore is n) = some i.line := by
  unfold lineAt?
  induction h generalizing n with
  | nil => cases hi
  | @cons i' is mine rest ops head _ ih =>
    cases n with
    | zero =>
      cases hi
      cases mine with
      | nil => cases head
      | cons p ps => exact head
    | succ n =>
      rw [primsBefore_cons_succ, length_eq ops,
        List.getElem?_append_right (Nat.le_add_right _ _), Nat.add_sub_cancel_left]
      exact ih hi

/-- No instruction is without primitives. -/
theorem prims_pos (h : Attributed is ps) (hi : i ∈ is) : 0 < i.prims.length := by
  induction h with
  | nil => exact absurd hi List.not_mem_nil
  | cons ops head _ ih =>
    rcases List.mem_cons.mp hi with rfl | hi
    · rw [length_eq ops]
      refine List.length_pos_of_ne_nil fun none => ?_
      rw [none] at head
      cases head
    · exact ih hi

end Attributed

namespace CodeUnit

/-- The instruction of a unit that holds the `k`-th of all primitives, and the place there. -/
def holder? (u : CodeUnit) (k : Nat) : Option (Instr × Nat) := holderIn u.instrs.toList k

/-- No instruction of the unit holds primitives with different lines. -/
def OneLined (u : CodeUnit) (ps : List (Opcode × Nat)) : Prop :=
  ∀ k < ps.length, ∀ x ∈ u.holder? k, lineAt? ps k = lineAt? ps (k - x.2)

instance (u : CodeUnit) (ps : List (Opcode × Nat)) : Decidable (u.OneLined ps) :=
  inferInstanceAs (Decidable (∀ k < ps.length, ∀ x ∈ u.holder? k, _))

/-- A unit that holds primitives with their lines. -/
structure Carries (u : CodeUnit) (ps : List (Opcode × Nat)) : Prop where
  checked : u.Checked
  attributed : Attributed u.instrs.toList ps
  told : ∀ i ∈ u.instrs.toList, i.line = u.lineFor i.ip

/-- What is built carries what was emitted. -/
theorem carries_of_build {name : String} {calls : List BuilderCall} {id : Ref} {u : CodeUnit}
    (built : (assemble name calls).build id = .ok u) : u.Carries (emitted 1 calls) := by
  obtain ⟨held, sound⟩ := assemble_holds name calls
  obtain ⟨attributed, -, told⟩ := CodeBuilder.attributed_of_build sound built
  obtain ⟨parts, -, checked⟩ := except_bind_ok.mp built
  exact ⟨(checked_of_ofParts checked).2, held ▸ attributed, told⟩

/-- Without packing, every primitive begins an instruction. -/
theorem holder?_unfused {name : String} {calls : List BuilderCall} {id : Ref} {u : CodeUnit}
    (built : (assemble name calls).build id = .ok u) (unfused : (assemble name calls).fuse = false)
    {k j : Nat} {i : Instr} (h : u.holder? k = some (i, j)) : j = 0 := by
  obtain ⟨held, sound⟩ := assemble_holds name calls
  obtain ⟨-, ops, -⟩ := CodeBuilder.attributed_of_build sound built
  obtain ⟨parts, finished, checked⟩ := except_bind_ok.mp built
  rw [CodeBuilder.layout_unfused unfused] at ops
  obtain ⟨n, hi, hj, -⟩ := holderIn_eq_some.mp h
  have simple : i.op.isSuper = false := by
    have mem : i.op ∈ u.instrs.toList.map (·.op) :=
      List.mem_map_of_mem (List.mem_of_getElem? hi)
    rw [ops] at mem
    obtain ⟨d, hd, hop⟩ := List.mem_map.mp mem
    rw [← hop]
    exact (sound (CodeBuilder.finish_ok finished).1 d hd).1
  have decoded := (checked_of_ofParts checked).2.contiguous.decoded (List.mem_of_getElem? hi)
  have one : i.prims.length = 1 := by
    have prims := congrArg List.length (Code.decodeAt_ok decoded).1
    rwa [Opcode.primitives_of_not_isSuper simple, List.length_map] at prims
  omega

namespace Carries

variable {u u' : CodeUnit} {ps : List (Opcode × Nat)} {k l j : Nat} {i i' : Instr}

theorem mem_of_holder? (h : u.holder? k = some (i, j)) : i ∈ u.instrs.toList := by
  obtain ⟨n, hi, -, -⟩ := holderIn_eq_some.mp h
  exact List.mem_of_getElem? hi

/-- A primitive of an instruction is among the primitives. -/
theorem op_eq (hu : u.Carries ps) (h : u.holder? k = some (i, j)) :
    ∃ p line, ps[k]? = some (p, line) ∧ i.prims[j]?.map (·.op) = some p := by
  obtain ⟨n, hi, hj, rfl⟩ := holderIn_eq_some.mp h
  have same := hu.attributed.op_eq hi hj
  rw [List.getElem?_eq_getElem hj] at same
  obtain ⟨⟨p, line⟩, found, op⟩ := Option.map_eq_some_iff.mp same.symm
  rw [List.getElem?_eq_getElem hj]
  exact ⟨p, line, found, congrArg some op.symm⟩

theorem lt_of_holder? (hu : u.Carries ps) (h : u.holder? k = some (i, j)) : k < ps.length := by
  obtain ⟨p, line, found, -⟩ := hu.op_eq h
  exact (List.getElem?_eq_some_iff.mp found).1

/-- The line that the table has for the instruction of a primitive: it is that of the
    instruction's first primitive. -/
theorem line_eq (hu : u.Carries ps) (h : u.holder? k = some (i, j)) :
    j ≤ k ∧ lineAt? ps (k - j) = some (u.lineFor i.ip) := by
  obtain ⟨n, hi, -, rfl⟩ := holderIn_eq_some.mp h
  refine ⟨Nat.le_add_left _ _, ?_⟩
  rw [Nat.add_sub_cancel_right, ← hu.told i (mem_of_holder? h)]
  exact hu.attributed.line_eq hi

/-- The line of a primitive, where its instruction has only one. -/
theorem line_of_oneLined (hu : u.Carries ps) (one : u.OneLined ps)
    (h : u.holder? k = some (i, j)) : lineAt? ps k = some (u.lineFor i.ip) := by
  rw [one k (hu.lt_of_holder? h) (i, j) h]
  exact (hu.line_eq h).2

/-- The primitive before the first one of an instruction is in the instruction before. -/
theorem holder?_pred (hu : u.Carries ps) {n : Nat} (hi : u.instrs[n]? = some i) :
    0 < primsBefore u.instrs.toList (n + 1) ∧
      ∃ j, u.holder? (primsBefore u.instrs.toList (n + 1) - 1) = some (i, j) := by
  rw [← Array.getElem?_toList] at hi
  have pos := hu.attributed.prims_pos (List.mem_of_getElem? hi)
  rw [primsBefore_succ hi]
  refine ⟨by omega, i.prims.length - 1, holderIn_eq_some.mpr ⟨n, hi, by omega, by omega⟩⟩

/-- An instruction begins a line when its first primitive does. -/
theorem isLineStart_eq (hu : u.Carries ps) (one : u.OneLined ps)
    (h : u.holder? k = some (i, 0)) :
    u.isLineStart i.ip = (k == 0 || lineAt? ps (k - 1) != lineAt? ps k) := by
  have here := hu.line_of_oneLined one h
  rw [← hu.told i (mem_of_holder? h)] at here
  obtain ⟨n, hi, -, hk⟩ := holderIn_eq_some.mp h
  rw [Nat.add_zero] at hk
  rw [Array.getElem?_toList] at hi
  have number : u.instrOf[i.ip]?.join = some n := hu.checked.instrOf_eq_some.mpr ⟨i, hi, rfl⟩
  unfold isLineStart
  rw [number]
  cases n with
  | zero =>
    rw [primsBefore_zero] at hk
    rw [hk]
    rfl
  | succ n =>
    obtain ⟨i', hi'⟩ : ∃ i', u.instrs[n]? = some i' :=
      ⟨_, Array.getElem?_eq_getElem (Nat.lt_of_succ_lt (Array.getElem?_eq_some_iff.mp hi).1)⟩
    obtain ⟨pos, j, before⟩ := hu.holder?_pred hi'
    rw [← hk] at pos before
    have there := hu.line_of_oneLined one before
    rw [← hu.told i' (mem_of_holder? before)] at there
    have later : (k == 0) = false := beq_eq_false_iff_ne.mpr (Nat.ne_of_gt pos)
    rw [here, there, later]
    simp only [hi, hi', Option.map_some, Bool.false_or]

/-- Instructions are in the order of their primitives. -/
theorem ip_le_iff (hu : u.Carries ps) (h : u.holder? k = some (i, 0))
    (h' : u.holder? l = some (i', j)) : i.ip ≤ i'.ip ↔ k ≤ l := by
  obtain ⟨n, hi, -, rfl⟩ := holderIn_eq_some.mp h
  obtain ⟨m, hi', hj, rfl⟩ := holderIn_eq_some.mp h'
  have order {a b : Nat} {x y : Instr} (hx : u.instrs.toList[a]? = some x)
      (hy : u.instrs.toList[b]? = some y) (hab : a < b) : x.ip < y.ip := by
    obtain ⟨la, rfl⟩ := List.getElem?_eq_some_iff.mp hx
    obtain ⟨lb, rfl⟩ := List.getElem?_eq_some_iff.mp hy
    have apart := List.pairwise_iff_getElem.mp hu.checked.contiguous.inOrder a b la lb hab
    exact Nat.lt_of_lt_of_le (Code.Instr.ip_lt_next _) apart
  rcases Nat.lt_trichotomy n m with lt | rfl | gt
  · have := order hi hi' lt
    have := primsBefore_mono u.instrs.toList (Nat.le_of_lt lt)
    omega
  · rw [hi] at hi'
    cases hi'
    omega
  · have := order hi' hi gt
    have := primsBefore_mono u.instrs.toList gt
    rw [Nat.succ_eq_add_one, primsBefore_succ hi'] at this
    omega

end Carries

end CodeUnit

/-! ## What a tracer is told -/

/-- The lines that begin when a primitive is run after another one: its own, if it is the first
    of all, if the primitive emitted before has another line, or if control did not go
    forward. -/
def linesBetween (ps : List (Opcode × Nat)) (last : Option Nat) (k : Nat) : List Nat :=
  if k == 0 || lineAt? ps (k - 1) != lineAt? ps k || last.any (k ≤ ·) then (lineAt? ps k).toList
  else []

/-- The lines that begin while primitives are run in an order. -/
def linesAlong (ps : List (Opcode × Nat)) : Option Nat → List Nat → List Nat
  | _, [] => []
  | last, k :: ks => linesBetween ps last k ++ linesAlong ps (some k) ks

namespace CodeUnit

/-- The lines that a tracer is told when an instruction is begun, after the one at `lasti`. -/
def toldAt (u : CodeUnit) (lasti : Option Nat) (i : Instr) : List Nat :=
  if u.isLineStart i.ip || lasti.any (i.ip ≤ ·) then [i.line] else []

/-- The lines that a tracer is told when a primitive is run after another one.  They are those
    of its instruction, and nothing is told inside of an instruction. -/
def toldBetween (u : CodeUnit) (last : Option Nat) (k : Nat) : List Nat :=
  match u.holder? k with
  | some (i, 0) => u.toldAt ((last.bind u.holder?).map (·.1.ip)) i
  | _ => []

/-- The lines that a tracer is told while primitives are run in an order. -/
def toldAlong (u : CodeUnit) : Option Nat → List Nat → List Nat
  | _, [] => []
  | last, k :: ks => u.toldBetween last k ++ u.toldAlong (some k) ks

/-- An order in which the unit can run primitives: its instructions are entered at the front. -/
def Allows (u : CodeUnit) : Option Nat → List Nat → Prop
  | _, [] => True
  | last, k :: ks =>
    (∃ x ∈ u.holder? k, x.2 = 0 ∨ last.map (· + 1) = some k) ∧ u.Allows (some k) ks

instance decidableAllows (u : CodeUnit) :
    (last : Option Nat) → (path : List Nat) → Decidable (u.Allows last path)
  | _, [] => isTrue trivial
  | last, k :: ks =>
    have := decidableAllows u (some k) ks
    inferInstanceAs (Decidable ((∃ x ∈ u.holder? k, x.2 = 0 ∨ last.map (· + 1) = some k) ∧ _))

namespace Carries

variable {u : CodeUnit} {ps : List (Opcode × Nat)} {k j : Nat} {i : Instr} {last : Option Nat}

/-- What a tracer is told at one primitive. -/
theorem toldBetween_eq (hu : u.Carries ps) (one : u.OneLined ps)
    (ran : ∀ l ∈ last, (u.holder? l).isSome) (h : u.holder? k = some (i, j))
    (entered : j = 0 ∨ last.map (· + 1) = some k) :
    u.toldBetween last k = linesBetween ps last k := by
  have line : lineAt? ps k = some (u.lineFor i.ip) := hu.line_of_oneLined one h
  unfold toldBetween linesBetween
  rw [h]
  cases j with
  | zero =>
    have start : u.isLineStart i.ip = (k == 0 || lineAt? ps (k - 1) != lineAt? ps k) :=
      hu.isLineStart_eq one h
    have turn : ((last.bind u.holder?).map (·.1.ip)).any (i.ip ≤ ·) = last.any (k ≤ ·) := by
      cases last with
      | none => rfl
      | some l =>
        obtain ⟨⟨i', j'⟩, h'⟩ := Option.isSome_iff_exists.mp (ran l rfl)
        simp only [Option.bind_some, h', Option.map_some, Option.any_some, hu.ip_le_iff h h']
    show u.toldAt _ i = _
    rw [toldAt, start, turn, line, hu.told i (mem_of_holder? h)]
    rfl
  | succ j =>
    -- inside of an instruction control runs on, and the line stays
    obtain ⟨l, rfl, rfl⟩ := Option.map_eq_some_iff.mp (entered.resolve_left nofun)
    obtain ⟨n, hi, hj, hk⟩ := holderIn_eq_some.mp h
    have before : u.holder? l = some (i, j) := holderIn_eq_some.mpr ⟨n, hi, by omega, by omega⟩
    have same : lineAt? ps l = some (u.lineFor i.ip) := hu.line_of_oneLined one before
    simp [line, same]

/-- What a tracer is told on the way. -/
theorem toldAlong_eq (hu : u.Carries ps) (one : u.OneLined ps) {path : List Nat}
    (ran : ∀ l ∈ last, (u.holder? l).isSome) (allowed : u.Allows last path) :
    u.toldAlong last path = linesAlong ps last path := by
  induction path generalizing last with
  | nil => rfl
  | cons k ks ih =>
    obtain ⟨⟨⟨i, j⟩, h, entered⟩, rest⟩ := allowed
    rw [toldAlong, linesAlong, hu.toldBetween_eq one ran h entered, ih (fun l hl => ?_) rest]
    cases hl
    exact Option.isSome_of_eq_some h

end Carries

end CodeUnit

/-- The interpreter tells a tracer just these lines. -/
theorem step_tells (g : Guest) (w : Watch) :
    step g w = (do
      let f ← frame
      match f.code.instrAt? f.ip with
      | none => throw (.ipOutOfBounds f.ip)
      | some i =>
        (f.code.toldAt f.lasti i).forM fun line => tellTracer w (.line line)
        modifyFrame fun f => { f with lasti := some i.ip, ip := i.next }
        runPrimitives g w.recording i.ip 0 i.prims) := by
  refine congrArg (frame >>= ·) (funext fun f => ?_)
  cases hi : f.code.instrAt? f.ip with
  | none => rfl
  | some i =>
    have turn : f.isBackward i.ip = f.lasti.any (i.ip ≤ ·) := rfl
    dsimp only
    rw [CodeUnit.toldAt, ← turn]
    cases f.code.isLineStart i.ip || f.isBackward i.ip with
    | false => simp
    | true => cases traced : w.tracing <;> simp [tellTracer, traced]

/-! ## The lines of primitives -/

/-- **Lines are attributed exactly.**  In a unit that is built every primitive is in an
    instruction, and the line at the index of the instruction is the one under which the first
    primitive of the instruction was emitted.  Without packing that is the primitive itself.
    Two builds of the same primitives, packed or not, name the same lines in tracebacks where
    the instructions begin under the same line, and tell a tracer the same lines where no
    instruction takes primitives from different lines. -/
theorem lines_attributed {name : String} {calls : List BuilderCall} {id : Ref} {u : CodeUnit}
    (built : (assemble name calls).build id = .ok u) :
    (∀ k op line, (emitted 1 calls)[k]? = some (op, line) → ∃ i j,
      u.holder? k = some (i, j) ∧ u.instrAt? i.ip = some i ∧
      i.prims[j]?.map (·.op) = some op ∧ j ≤ k ∧
      lineAt? (emitted 1 calls) (k - j) = some (u.lineFor i.ip) ∧
      ((assemble name calls).fuse = false → u.lineFor i.ip = line) ∧
      (u.OneLined (emitted 1 calls) → u.lineFor i.ip = line)) ∧
    ((assemble name calls).fuse = false → u.OneLined (emitted 1 calls)) ∧
    (u.OneLined (emitted 1 calls) → ∀ path, u.Allows none path →
      u.toldAlong none path = linesAlong (emitted 1 calls) none path) ∧
    ∀ name' calls' id' u', (assemble name' calls').build id' = .ok u' →
      emitted 1 calls' = emitted 1 calls →
      (∀ k i j i' j', u.holder? k = some (i, j) → u'.holder? k = some (i', j') →
        ∀ f f' : Frame, f.code = u → f.lasti = some i.ip → f'.code = u' → f'.lasti = some i'.ip →
          (f.line = f'.line ↔
            lineAt? (emitted 1 calls) (k - j) = lineAt? (emitted 1 calls) (k - j'))) ∧
      (u.OneLined (emitted 1 calls) → u'.OneLined (emitted 1 calls) →
        ∀ path, u.Allows none path → u'.Allows none path →
          u.toldAlong none path = u'.toldAlong none path) := by
  have hu := CodeUnit.carries_of_build built
  have plain (unfused : (assemble name calls).fuse = false) : u.OneLined (emitted 1 calls) := by
    intro k _ x h
    rw [CodeUnit.holder?_unfused (j := x.2) built unfused h, Nat.sub_zero]
  refine ⟨fun k op line hk => ?_, plain, fun one path allowed => ?_,
    fun name' calls' id' u' built' same => ⟨?_, fun one one' path allowed allowed' => ?_⟩⟩
  · obtain ⟨i, j, h⟩ := hu.attributed.exists_holder (List.getElem?_eq_some_iff.mp hk).1
    obtain ⟨le, first⟩ := hu.line_eq h
    obtain ⟨p, line', found, runs⟩ := hu.op_eq h
    rw [hk] at found
    cases found
    have own (one : u.OneLined (emitted 1 calls)) : u.lineFor i.ip = line := by
      have line := hu.line_of_oneLined one h
      rw [lineAt?, hk] at line
      exact (Option.some.inj line).symm
    exact ⟨i, j, h, hu.checked.instrAt?_of_mem (CodeUnit.Carries.mem_of_holder? h), runs, le, first,
      fun unfused => own (plain unfused), own⟩
  · exact hu.toldAlong_eq one (by simp) allowed
  · intro k i j i' j' h h' f f' hf hl hf' hl'
    have hu' := same ▸ CodeUnit.carries_of_build built'
    rw [(hu.line_eq h).2, (hu'.line_eq h').2, Option.some.injEq, Frame.line, Frame.line,
      Frame.position, Frame.position, hf, hf', hl, hl']
    rfl
  · have hu' := same ▸ CodeUnit.carries_of_build built'
    rw [hu.toldAlong_eq one (by simp) allowed, hu'.toldAlong_eq one' (by simp) allowed']

/-! ## A sum -/

/-- The sum of two parameters, where the second one is read on a given line. -/
def sumProgram (line : Nat) (packed : Bool) : List BuilderCall :=
  [.args ["a", "b"], .fuse packed, .emitAt .loadFast (.local "a"), .line line,
    .emitAt .loadFast (.local "b"), .emit .binaryAdd, .emit .returnValue]

/-- On one line, the sum tells a tracer the same whether it is packed or not. -/
theorem lines_attributed_sum : ∃ u u',
    (assemble "sum" (sumProgram 1 true)).build 0 = .ok u ∧
    (assemble "sum" (sumProgram 1 false)).build 0 = .ok u' ∧
    u.instrs.size < u'.instrs.size ∧
    u.toldAlong none [0, 1, 2, 3] = u'.toldAlong none [0, 1, 2, 3] := by
  have built : (assemble "sum" (sumProgram 1 true)).build 0 = .ok _ :=
    eq_ok_of_isSome (by decide +kernel)
  have built' : (assemble "sum" (sumProgram 1 false)).build 0 = .ok _ :=
    eq_ok_of_isSome (by decide +kernel)
  obtain ⟨-, -, -, both⟩ := lines_attributed built
  obtain ⟨-, tracer⟩ := both _ _ _ _ built' (by decide)
  exact ⟨_, _, built, built', by decide +kernel, tracer (by decide +kernel) (by decide +kernel)
    [0, 1, 2, 3] (by decide +kernel) (by decide +kernel)⟩

/-- Packed across lines, an addition is on the line of the instruction's first primitive, and
    not on its own. -/
theorem lines_across : ∃ u u' i i' j j',
    (assemble "sum" (sumProgram 2 true)).build 0 = .ok u ∧
    (assemble "sum" (sumProgram 2 false)).build 0 = .ok u' ∧
    (emitted 1 (sumProgram 2 true))[2]? = some (.binaryAdd, 2) ∧
    (emitted 1 (sumProgram 2 false))[2]? = some (.binaryAdd, 2) ∧
    u.holder? 2 = some (i, j) ∧ u.lineFor i.ip = 1 ∧
    u'.holder? 2 = some (i', j') ∧ u'.lineFor i'.ip = 2 := by
  have line (packed : Bool) (place : Nat) {u : CodeUnit}
      (built : (assemble "sum" (sumProgram 2 packed)).build 0 = .ok u)
      (h : (u.holder? 2).map (·.2) = some place) :
      ∃ i, u.holder? 2 = some (i, place) ∧
        lineAt? (emitted 1 (sumProgram 2 packed)) (2 - place) = some (u.lineFor i.ip) := by
    obtain ⟨⟨i, j⟩, found, rfl⟩ := Option.map_eq_some_iff.mp h
    exact ⟨i, found, ((CodeUnit.carries_of_build built).line_eq found).2⟩
  have built : (assemble "sum" (sumProgram 2 true)).build 0 = .ok _ :=
    eq_ok_of_isSome (by decide +kernel)
  have built' : (assemble "sum" (sumProgram 2 false)).build 0 = .ok _ :=
    eq_ok_of_isSome (by decide +kernel)
  obtain ⟨i, h, first⟩ := line true 2 built (by decide +kernel)
  obtain ⟨i', h', own⟩ := line false 0 built' (by decide +kernel)
  exact ⟨_, _, i, i', 2, 0, built, built', by decide, by decide, h, (Option.some.inj first).symm, h',
    (Option.some.inj own).symm⟩

end TieredMachine
