/-
  What the construction of a unit rules out.

  The index of a table is in range of it wherever an instruction gives one, and what
  follows an instruction is another one or the end of the code.  A frame that stands at a
  boundary of its unit therefore goes on to boundaries only.

  * `CodeUnit.Boundary`: where a frame may stand;
  * `CodeUnit.Checked.next_boundary`: behind an instruction is a boundary;
  * `CodeUnit.index_lt_of_ofParts`: indices are in range of their tables.
-/
import TieredMachine.Proofs.Graph.Leaders

namespace TieredMachine

namespace Code

/-! ## The length of an instruction -/

/-- The arguments that are read are there. -/
theorem readArgs_le {words : Array Word} {ops : List Opcode} {index : Nat}
    {prims : List Primitive} (h : readArgs words index ops = .ok prims)
    (hi : index ≤ words.size) : index + (ops.filter Opcode.hasArg).length ≤ words.size := by
  induction ops generalizing index prims with
  | nil => exact hi
  | cons op ops ih =>
    unfold readArgs at h
    split at h
    · rename_i hop
      split at h
      · cases h
      · rename_i arg harg
        obtain ⟨w, hw, -⟩ := Option.bind_eq_some_iff.mp harg
        obtain ⟨hlt, -⟩ := Array.getElem?_eq_some_iff.mp hw
        obtain ⟨ps, hps, -⟩ := except_bind_ok.mp h
        have := ih hps hlt
        rw [List.filter_cons_of_pos hop, List.length_cons]
        omega
    · rename_i hop
      obtain ⟨ps, hps, -⟩ := except_bind_ok.mp h
      rw [List.filter_cons_of_neg hop]
      exact ih hps hi

/-- An instruction ends inside the code. -/
theorem decodeAt_le {words : Array Word} {index : Nat} {op : Opcode} {prims : List Primitive}
    (h : decodeAt words index = .ok (op, prims)) (hi : index < words.size) :
    index + op.length ≤ words.size := by
  unfold decodeAt at h
  obtain ⟨op', _, h⟩ := except_bind_ok.mp h
  obtain ⟨prims', hp, h⟩ := except_bind_ok.mp h
  dsimp only at h
  split at h
  · cases h
  · cases h
    have := readArgs_le hp hi
    unfold Opcode.length Opcode.argCount
    omega

end Code

namespace CodeUnit

/-! ## Boundaries -/

/-- An instruction of the unit starts at the index, or its code ends there. -/
def Boundary (u : CodeUnit) (ip : Nat) : Prop := (u.instrAt? ip).isSome ∨ ip = u.words.size

variable {u : CodeUnit} {i : Instr}

theorem boundary_of_instrAt? {ip : Nat} (h : u.instrAt? ip = some i) : u.Boundary ip :=
  .inl (Option.isSome_of_eq_some h)

/-- A frame that stands at a boundary, but at no instruction, has run off the end. -/
theorem Boundary.eq_size {ip : Nat} (h : u.Boundary ip) (hi : u.instrAt? ip = none) :
    ip = u.words.size :=
  h.resolve_left (by rw [hi]; decide)

/-- The code begins with an instruction. -/
theorem Checked.first_isSome (hu : u.Checked) : (u.instrAt? 0).isSome := by
  have first {ip : Nat} {is : List Instr} (h : Code.Contiguous u.words ip is)
      (hip : ip < u.words.size) : ∃ i ∈ is, i.ip = ip := by
    cases h with
    | nil hle => exact absurd hip (Nat.not_lt_of_le hle)
    | cons => exact ⟨_, List.mem_cons_self, rfl⟩
  obtain ⟨i, hi, hip⟩ := first hu.contiguous hu.nonempty
  exact Option.isSome_of_eq_some (hu.instrAt?_eq_some.mpr ⟨hi, hip⟩)

/-- Behind an instruction is the next one or the end of the code. -/
theorem Checked.next_boundary (hu : u.Checked) {ip : Nat} (hi : u.instrAt? ip = some i) :
    u.Boundary i.next := by
  obtain ⟨hm, -⟩ := hu.instrAt?_eq_some.mp hi
  have fits : i.next ≤ u.words.size :=
    Code.decodeAt_le (hu.contiguous.decoded hm) (hu.contiguous.ip_lt hm)
  by_cases h : i.next < u.stop
  · obtain ⟨j, hj, hn⟩ := hu.next_start hm h
    rw [← hn]
    exact boundary_of_instrAt? (hu.instrAt?_of_mem hj)
  · exact .inr (Nat.le_antisymm fits (Nat.le_trans hu.size_le_stop (Nat.le_of_not_lt h)))

/-- A jump lands at a boundary, at an instruction in fact. -/
theorem Checked.target_boundary (hu : u.Checked) {ip : Nat} (hi : u.instrAt? ip = some i)
    {p : Primitive} (hp : p ∈ i.prims) {target : Nat} (ht : p.target? i.next = some target) :
    u.Boundary target :=
  .inl (hu.target_isSome hi hp ht)

/-! ## Tables -/

/-- The argument of a primitive that is accepted is in range of its table. -/
theorem lt_of_checkPrimitive {parts : CodeParts} {starts : Array (Option Nat)} {p : Primitive}
    {r : Option HandlerEntry} (h : Code.checkPrimitive parts starts i p = .ok r) {arg len : Nat}
    (ha : p.arg = some arg) (hl : Code.tableLength? parts p.op.argKind = some len) :
    arg < len := by
  unfold Code.checkPrimitive at h
  simp only [ha, hl] at h
  by_cases hle : len ≤ arg
  · rw [if_pos hle] at h
    cases h
  · exact Nat.lt_of_not_le hle

/-- The index of a table is in range of it, wherever an instruction gives one. -/
theorem index_lt_of_ofParts {id : Ref} {parts : CodeParts} (h : ofParts id parts = .ok u)
    (hi : i ∈ u.instrs.toList) {p : Primitive} (hp : p ∈ i.prims) {arg len : Nat}
    (ha : p.arg = some arg) (hl : Code.tableLength? u.toCodeParts p.op.argKind = some len) :
    arg < len := by
  obtain ⟨instrs, lines, flags, handlers, -, -, -, hh, -, made, his, -⟩ := ofParts_ok h
  rw [his] at hi
  obtain ⟨hs, _, hs'⟩ := exists_of_mapM_ok hh hi
  obtain ⟨r, _, hr⟩ := exists_of_mapM_ok hs' hp
  refine lt_of_checkPrimitive hr ha ?_
  rw [← hl, made]
  cases p.op.argKind <;> rfl

end CodeUnit

end TieredMachine
