/-
  The worklist of the analysis.

  The analysis is taken apart into moments: an instruction is taken from the worklist, its
  primitives are followed one after another, and control leaves it for the next instruction.
  Each moment is kept with the entries that were set so far.  An entry is set when there was
  none, or when a weak one gives way to one that is not weak; so no entry is set twice weak,
  nor twice otherwise, whatever the flow of control.  What is set is noted in the worklist,
  and the worklist is empty after at most two steps for each instruction.

  * `Analysis.SetsEntry`, `merge_sets`, `stepPrimitive_sets`: how an arrival changes entries
    and worklist;
  * `Survey`, `CodeUnit.Reaches`: the moments of the analysis of a unit;
  * `Survey.Tallied`, `Reaches.tallied`: the entries that were set;
  * `Analysis.Orderly`, `Reaches.orderly`: handlers that exist, and not too many of them;
  * `Primitive.heightEffect`, `Primitive.jumpChange`: heights by signed arithmetic;
  * **`worklist_ends`**: the analysis of a unit.
-/
import TieredMachine.Proofs.Graph.Solution
import TieredMachine.Proofs.Run.Balance
import TieredMachine.Proofs.Safety.StackEffect

namespace TieredMachine

variable {u : CodeUnit}

namespace Analysis

variable {a a' b : Analysis} {e new s : StackState} {i : Instr} {p : Primitive}
variable {ip next source k : Nat} {out : Option StackState}

/-! ## Setting entries -/

/-- The instructions whose entries are not what they were before, each with whether its entry
    is weak now. -/
def changes (a a' : Analysis) : List (Nat × Bool) :=
  (List.range a'.entries.size).filterMap fun k =>
    if a'.entries[k]?.join = a.entries[k]?.join then none
    else a'.entries[k]?.join.map fun s => (k, s.weak)

/-- The entry of one instruction is set, where there was none or a weak one gives way, and the
    instruction is noted in the worklist. -/
structure SetsEntry (a a' : Analysis) (k : Nat) (new : StackState) : Prop where
  lt : k < a.entries.size
  free : ∀ old, a.entries[k]?.join = some old → old.weak = true ∧ new.weak = false
  entries : a'.entries = a.entries.setIfInBounds k (some new)
  worklist : a'.worklist = k :: a.worklist

/-- Entries and worklist are as before, or one entry is set. -/
def SetsAtMost (a a' : Analysis) : Prop :=
  (a'.entries = a.entries ∧ a'.worklist = a.worklist) ∨ ∃ k new, SetsEntry a a' k new

theorem filterMap_range_eq_singleton {α : Type} {f : Nat → Option α} {x : α} {n k : Nat}
    (hk : k < n) (here : f k = some x) (others : ∀ j, j ≠ k → f j = none) :
    (List.range n).filterMap f = [x] := by
  induction n with
  | zero => exact absurd hk (Nat.not_lt_zero k)
  | succ n ih =>
    rw [List.range_succ, List.filterMap_append]
    rcases Nat.lt_succ_iff_lt_or_eq.mp hk with before | rfl
    · rw [ih before, List.filterMap_cons_none (others n (Nat.ne_of_gt before))]
      rfl
    · have nothing : (List.range k).filterMap f = [] :=
        List.filterMap_eq_nil_iff.mpr fun j hj => others j (Nat.ne_of_lt (List.mem_range.mp hj))
      rw [nothing, List.filterMap_cons_some here]
      rfl

theorem changes_of_same (same : a'.entries = a.entries) : a.changes a' = [] := by
  refine List.filterMap_eq_nil_iff.mpr fun k _ => ?_
  rw [same, if_pos rfl]

namespace SetsEntry

variable (h : SetsEntry a a' k new)
include h

theorem getElem? (j : Nat) :
    a'.entries[j]?.join = if j = k then some new else a.entries[j]?.join := by
  rw [h.entries, Array.getElem?_setIfInBounds]
  by_cases here : j = k
  · rw [if_pos here.symm, if_pos here, if_pos h.lt]
    rfl
  · rw [if_neg (Ne.symm here), if_neg here]

/-- What is set was not there before. -/
theorem changes_eq : a.changes a' = [(k, new.weak)] := by
  have differs : ¬some new = a.entries[k]?.join := fun same => by
    obtain ⟨weak, strong⟩ := h.free new same.symm
    rw [weak] at strong
    cases strong
  have size : a'.entries.size = a.entries.size := by
    rw [h.entries, Array.size_setIfInBounds]
  refine filterMap_range_eq_singleton (size ▸ h.lt) ?_ fun j other => ?_
  · rw [h.getElem? k, if_pos rfl, if_neg differs]
    rfl
  · rw [h.getElem? j, if_neg other, if_pos rfl]

end SetsEntry

/-- One more arrival sets at most one entry. -/
theorem merge_sets (hu : u.Checked) (hs : a.entries.size = u.instrs.size)
    (h : a.merge u source ip new = .ok a') : SetsAtMost a a' := by
  unfold merge at h
  cases hk : u.instrOf[ip]?.join with
  | none =>
    rw [hk] at h
    cases h
  | some k =>
    rw [hk] at h
    dsimp only at h
    have lt : k < a.entries.size := by
      obtain ⟨_, hi, _⟩ := hu.instrOf_eq_some.mp hk
      rw [hs]
      exact (Array.getElem?_eq_some_iff.mp hi).1
    cases hold : a.entries[k]?.join with
    | none =>
      rw [hold] at h
      cases h
      exact .inr ⟨k, new, lt, (fun _ ho => by rw [hold] at ho; cases ho), rfl, rfl⟩
    | some old =>
      rw [hold] at h
      dsimp only at h
      split at h
      · cases h
        exact .inl ⟨rfl, rfl⟩
      · rename_i more
        split at h
        · rename_i weak
          cases h
          refine .inr ⟨k, new, lt, fun _ ho => ?_, rfl, rfl⟩
          rw [hold] at ho
          cases ho
          refine ⟨weak, Bool.eq_false_iff.mpr fun hw => more ?_⟩
          rw [isCovered, hw, Bool.or_true]
        · split at h <;> cases h

theorem noting_same (ip next : Nat) (p : Primitive) (e : StackState) (a : Analysis) :
    (noting ip next p e a).entries = a.entries ∧ (noting ip next p e a).worklist = a.worklist := by
  unfold noting
  split
  · unfold handlerFor
    split <;> exact ⟨rfl, rfl⟩
  · exact ⟨rfl, rfl⟩

/-- A primitive sets at most one entry, that at the end of its edge. -/
theorem stepPrimitive_sets (hu : u.Checked) (hs : a.entries.size = u.instrs.size)
    (h : stepPrimitive u ip next p e a = .ok (a', out)) : SetsAtMost a a' := by
  obtain ⟨arrives, -⟩ := stepPrimitive_ok h
  obtain ⟨entries, worklist⟩ := noting_same ip next p e a
  generalize noting ip next p e a = n at arrives entries worklist
  cases hedge : n.edge? next p e with
  | none =>
    rw [hedge] at arrives
    obtain rfl : a' = n := arrives
    exact .inl ⟨entries, worklist⟩
  | some edge =>
    rw [hedge] at arrives
    rcases merge_sets hu (by rw [entries, hs]) arrives with ⟨same, same'⟩ | ⟨k, new, sets⟩
    · exact .inl ⟨same.trans entries, same'.trans worklist⟩
    · exact .inr ⟨k, new, entries ▸ sets.lt, entries ▸ sets.free,
        sets.entries.trans (by rw [entries]), sets.worklist.trans (by rw [worklist])⟩

theorem leave_sets (hu : u.Checked) (hs : a.entries.size = u.instrs.size)
    (h : leave u i out a = .ok a') : SetsAtMost a a' := by
  unfold leave at h
  split at h
  · split at h
    · exact merge_sets hu hs h
    · cases h
      exact .inl ⟨rfl, rfl⟩
  · cases h
    exact .inl ⟨rfl, rfl⟩

/-! ## Handlers in force -/

/-- The handlers in force exist, and are not more than blocks can be in each other. -/
def Admits (a : Analysis) (e : StackState) : Prop := e.handlers.length ≤ maxBlocks ∧ a.Finds e

theorem Admits.later (h : a.Admits e) (hl : Later a b) : b.Admits e := ⟨h.1, h.2.later hl⟩

/-- Every handler in force at an instruction exists, and so does every handler that encloses
    another one. -/
structure Orderly (u : CodeUnit) (a : Analysis) : Prop where
  size : a.entries.size = u.instrs.size
  admits : ∀ (k : Nat) e, a.entries[k]?.join = some e → a.Admits e
  parents : ∀ h ∈ a.handlers, ∀ k, h.parent = some k → k < a.handlers.size

/-- An edge carries handlers in force where it begins. -/
theorem edge?_suffix {target : Nat} (hs : a.edge? next p e = some (target, s)) :
    s.handlers <:+ e.handlers := by
  have jumps {depth : Nat}
      (hs : ((p.target? next).map fun t => (t, { e with depth })) = some (target, s)) :
      s.handlers <:+ e.handlers := by
    obtain ⟨t, -, hs⟩ := Option.map_eq_some_iff.mp hs
    cases hs
    exact List.suffix_rfl
  unfold edge? at hs
  dsimp only at hs
  split at hs
  case h_11 =>
    obtain ⟨t, -, hs⟩ := Option.bind_eq_some_iff.mp hs
    obtain ⟨s', hr, hs⟩ := Option.map_eq_some_iff.mp hs
    cases hs
    unfold restart? at hr
    dsimp only at hr
    split at hr
    · cases hr
    · cases hr
      exact List.dropWhile_suffix _
  case h_12 => cases hs
  all_goals exact jumps hs

theorem edge?_admits {target : Nat} (h : a.Admits e) (hs : a.edge? next p e = some (target, s)) :
    a.Admits s :=
  ⟨Nat.le_trans (edge?_suffix hs).length_le h.1, edge?_finds h.2 hs⟩

/-- Only a setup goes on with one more handler in force. -/
theorem onward?_length (hs : a.onward? ip p e = some s) :
    s.handlers.length ≤ e.handlers.length + p.op.blockKind?.isSome.toNat := by
  unfold onward? at hs
  split at hs
  case h_1 hop | h_2 hop | h_3 hop =>
    obtain ⟨k, -, hs⟩ := Option.map_eq_some_iff.mp hs
    cases hs
    rw [hop]
    exact Nat.le_refl _
  case h_4 =>
    split at hs
    · cases hs
    · rename_i k rest hh
      cases hs
      rw [hh, List.length_cons]
      exact Nat.le_add_right_of_le (Nat.le_succ _)
  all_goals
    cases hs
    try exact Nat.le_add_right _ _

end Analysis

/-! ## Heights -/

namespace Primitive

variable (p : Primitive)

/-- The values that a primitive needs on the stack and the change of the height, as a signed
    number, where control goes on behind it.  The change at the end of a block is not told: the
    height goes down to that of the block. -/
def heightEffect : Nat × Int :=
  match p.op with
  | .popJumpIfFalse | .popJumpIfTrue | .jumpIfFalseOrPop | .jumpIfTrueOrPop | .endFinally => (1, -1)
  | .forIter => (1, 1)
  | .returnValue | .yieldValue => (1, 0)
  | .raiseVarargs => (p.arg.getD 0, 0)
  | _ => stackEffect p

/-- The change of the height, as a signed number, where a primitive jumps.  That of `continue`
    is not told: it goes back to the height of a block. -/
def jumpChange : Int :=
  match p.op with
  | .setupLoop | .setupExcept | .setupFinally =>
    Analysis.received (p.op.blockKind?.getD .finally_)
  | .popJumpIfFalse | .popJumpIfTrue | .forIter => -1
  | _ => 0

end Primitive

namespace Analysis

variable {a a' b : Analysis} {e new s : StackState} {i : Instr} {p : Primitive}
variable {ip next source k : Nat} {out : Option StackState}

/-- A primitive that is followed finds the values that it needs, and a setup finds room for its
    block. -/
theorem stepPrimitive_checks (h : stepPrimitive u ip next p e a = .ok (a', out)) :
    p.heightEffect.1 ≤ e.depth ∧ (p.op.blockKind?.isSome → e.handlers.length < maxBlocks) := by
  obtain ⟨op, arg⟩ := p
  unfold stepPrimitive at h
  dsimp only at h
  split at h
  case h_1 | h_2 | h_3 =>
    obtain ⟨target, -, h⟩ := except_bind_ok.mp h
    split at h
    · cases h
    · rename_i room
      exact ⟨Nat.zero_le _, fun _ => Nat.lt_of_not_le room⟩
  case h_4 | h_5 | h_6 | h_14 | h_15 => exact ⟨Nat.zero_le _, nofun⟩
  case h_13 =>
    split at h
    · cases h
    · obtain ⟨_, needs, -⟩ := except_bind_ok.mp h
      exact ⟨need_ok needs, nofun⟩
  case h_18 =>
    obtain ⟨_, needs, -⟩ := except_bind_ok.mp h
    have effect : Primitive.heightEffect ⟨op, arg⟩ = stackEffect ⟨op, arg⟩ := by
      unfold Primitive.heightEffect
      split <;> first | rfl | contradiction
    have plain : op.blockKind? = none := by
      unfold Opcode.blockKind?
      split <;> first | rfl | contradiction
    refine ⟨effect ▸ need_ok needs, fun hk => ?_⟩
    rw [plain] at hk
    cases hk
  all_goals
    obtain ⟨_, needs, -⟩ := except_bind_ok.mp h
    exact ⟨need_ok needs, nofun⟩

/-- What goes on behind a primitive has the height of signed arithmetic, which is not below
    zero; behind the end of a block it is no higher than before. -/
theorem onward?_height (enough : p.heightEffect.1 ≤ e.depth) (hs : a.onward? ip p e = some s) :
    if p.op = .popBlock then s.depth ≤ e.depth
    else (s.depth : Int) = e.depth + p.heightEffect.2 := by
  obtain ⟨op, arg⟩ := p
  unfold onward? at hs
  dsimp only at hs
  split at hs
  case h_1 | h_2 | h_3 =>
    obtain ⟨k, -, hs⟩ := Option.map_eq_some_iff.mp hs
    cases hs
    exact (Int.add_zero _).symm
  case h_4 =>
    split at hs
    · cases hs
    · rename_i k rest _
      cases hs
      rw [if_pos rfl]
      dsimp only
      cases a.depthOf k with
      | none => exact Nat.le_refl _
      | some level => exact Nat.min_le_left _ _
  case h_5 | h_6 | h_7 | h_8 | h_17 =>
    -- the value that is taken off is there, so that the difference is not cut off
    cases hs
    exact Int.natCast_sub enough
  case h_9 =>
    cases hs
    exact Int.natCast_succ _
  case h_16 =>
    cases hs
    exact (Int.add_zero _).symm
  case h_18 =>
    -- a primitive leaves no fewer values than it takes off those that it needs
    cases hs
    have effect : Primitive.heightEffect ⟨op, arg⟩ = stackEffect ⟨op, arg⟩ := by
      unfold Primitive.heightEffect
      split <;> first | rfl | contradiction
    have kept := Primitive.stackEffect_nonneg ⟨op, arg⟩
    rw [effect] at enough ⊢
    rw [if_neg (by assumption)]
    dsimp only
    omega
  all_goals cases hs

/-- A `continue` goes on as high as it was, or as a block in force was entered. -/
theorem restart?_height (hs : a.restart? e = some s) :
    s.depth = e.depth ∨ ∃ h ∈ e.handlers, a.depthOf h = some s.depth := by
  unfold restart? at hs
  dsimp only at hs
  split at hs
  · cases hs
  · cases hs
    dsimp only
    cases hl : (e.handlers.takeWhile fun h => a.kindOf h != some .loop).getLast? with
    | none => exact .inl rfl
    | some h =>
      rw [Option.bind_some]
      cases hd : a.depthOf h with
      | none => exact .inl rfl
      | some level =>
        exact .inr ⟨h, (List.takeWhile_prefix _).subset (List.mem_of_getLast? hl), hd⟩

/-- What a primitive jumps with has the height of signed arithmetic, which is not below zero; a
    `continue` takes a height that is known. -/
theorem edge?_height {target : Nat} (enough : p.heightEffect.1 ≤ e.depth)
    (hs : a.edge? next p e = some (target, s)) :
    if p.op = .continueLoop then s.depth = e.depth ∨ ∃ h ∈ e.handlers, a.depthOf h = some s.depth
    else (s.depth : Int) = e.depth + p.jumpChange := by
  obtain ⟨op, arg⟩ := p
  have jumps {depth : Nat} (hs : ((Primitive.target? ⟨op, arg⟩ next).map fun t =>
      (t, { e with depth })) = some (target, s)) : s.depth = depth := by
    obtain ⟨t, -, hs⟩ := Option.map_eq_some_iff.mp hs
    cases hs
    rfl
  unfold edge? at hs
  dsimp only at hs
  split at hs
  case h_1 | h_2 | h_3 =>
    rw [jumps hs]
    exact Int.natCast_add _ _
  case h_4 | h_5 | h_6 | h_7 =>
    rw [jumps hs]
    exact (Int.add_zero _).symm
  case h_8 | h_9 | h_10 =>
    rw [jumps hs]
    exact Int.natCast_sub enough
  case h_11 =>
    obtain ⟨t, -, hs⟩ := Option.bind_eq_some_iff.mp hs
    obtain ⟨s', hr, hs⟩ := Option.map_eq_some_iff.mp hs
    cases hs
    rw [if_pos rfl]
    exact restart?_height hr
  case h_12 => cases hs

/-! ## Following keeps handlers in order -/

namespace Orderly

theorem merge (hu : u.Checked) (ha : Orderly u a) (hn : a.Admits new)
    (h : a.merge u source ip new = .ok a') : Orderly u a' := by
  obtain ⟨grows, -⟩ := merge_grows hu ha.size h
  refine ⟨grows.size.trans ha.size, fun k e he => ?_, ?_⟩
  · rcases (merge_entries h).2 k e he with he | rfl
    · exact (ha.admits k e he).later grows.toLater
    · exact hn.later grows.toLater
  · rw [Adds.merge_handlers h]
    exact ha.parents

theorem noting (ha : Orderly u a) (he : a.Admits e) (ip next : Nat) (p : Primitive) :
    Orderly u (noting ip next p e a) := by
  have later := noting_later ip next p e a
  refine ⟨later.size.trans ha.size, fun k e he => ?_, fun h hm k hk => ?_⟩
  · rw [(noting_same ip next p _ a).1] at he
    exact (ha.admits k e he).later later
  · rcases noting_handlers hm with old | ⟨-, noted⟩
    · exact Nat.lt_of_lt_of_le (ha.parents h old k hk) later.size_le
    · rw [noted.parent] at hk
      exact Nat.lt_of_lt_of_le (he.2 k (List.mem_of_head? hk)) later.size_le

/-- Following a primitive keeps the handlers in order. -/
theorem stepPrimitive (hu : u.Checked) (ha : Orderly u a) (he : a.Admits e)
    (h : stepPrimitive u ip next p e a = .ok (a', out)) :
    Orderly u a' ∧ ∀ e', out = some e' → a'.Admits e' := by
  obtain ⟨arrives, goesOn⟩ := stepPrimitive_ok h
  obtain ⟨-, room⟩ := stepPrimitive_checks h
  have orderly := ha.noting he ip next p
  have known := he.later (noting_later ip next p e a)
  generalize Analysis.noting ip next p e a = n at arrives goesOn orderly known
  have arrived : Orderly u a' ∧ Later n a' := by
    cases hedge : n.edge? next p e with
    | none =>
      rw [hedge] at arrives
      obtain rfl : a' = n := arrives
      exact ⟨orderly, .refl a'⟩
    | some edge =>
      rw [hedge] at arrives
      exact ⟨orderly.merge hu (edge?_admits known hedge) arrives,
        (merge_grows hu orderly.size arrives).1.toLater⟩
  refine ⟨arrived.1, fun e' he' => Admits.later ⟨?_, ?_⟩ arrived.2⟩
  · have more := onward?_length (goesOn.symm.trans he')
    cases hk : p.op.blockKind?.isSome with
    | false =>
      rw [hk] at more
      exact Nat.le_trans more he.1
    | true =>
      rw [hk] at more
      exact Nat.le_trans more (room hk)
  · exact onward?_finds known.2 (goesOn.symm.trans he')

theorem leave (hu : u.Checked) (ha : Orderly u a) (he : a.Admits e)
    (h : leave u i (some e) a = .ok a') : Orderly u a' := by
  unfold Analysis.leave at h
  dsimp only at h
  split at h
  · exact ha.merge hu he h
  · cases h
    exact ha

end Orderly

end Analysis

open Analysis

/-! ## The moments of an analysis -/

/-- The analysis of a unit before control has arrived anywhere. -/
def CodeUnit.unreached (u : CodeUnit) : Analysis := { entries := .replicate u.instrs.size none }

/-- A moment of the analysis of a unit. -/
structure Survey where
  /-- the number of instructions that have been taken from the worklist -/
  taken : Nat
  /-- the entries that have been set, the last one first, each with whether it was weak -/
  sets : List (Nat × Bool)
  /-- the instruction that is followed, if any, with the primitives that are left of it, and how
      control arrives at them -/
  running : Option (Instr × List Primitive × StackState)
  analysis : Analysis

/-- What there is to follow of the instruction at a place of the unit. -/
def CodeUnit.begun (u : CodeUnit) (k : Nat) (a : Analysis) :
    Option (Instr × List Primitive × StackState) :=
  match u.instrs[k]?, a.entries[k]?.join with
  | some i, some e => some (i, i.prims, e)
  | _, _ => none

/-- The moments of the analysis of a unit, however long it takes. -/
inductive CodeUnit.Reaches (u : CodeUnit) : Survey → Prop
  /-- control arrives at the first instruction -/
  | start {a} : merge u 0 0 ⟨0, [], false⟩ u.unreached = .ok a →
      Reaches u ⟨0, u.unreached.changes a, none, a⟩
  /-- an instruction is taken from the worklist -/
  | take {n l a k rest} : Reaches u ⟨n, l, none, a⟩ → a.worklist = k :: rest →
      Reaches u ⟨n + 1, l, u.begun k a, { a with worklist := rest }⟩
  /-- a primitive is followed, and control goes on -/
  | goOn {n l i p ps e a a' e'} : Reaches u ⟨n, l, some (i, p :: ps, e), a⟩ →
      stepPrimitive u i.ip i.next p e a = .ok (a', some e') →
      Reaches u ⟨n, a.changes a' ++ l, some (i, ps, e'),
        { a' with maxDepth := max a'.maxDepth e'.depth }⟩
  /-- a primitive is followed, and control does not go on behind it -/
  | depart {n l i p ps e a a'} : Reaches u ⟨n, l, some (i, p :: ps, e), a⟩ →
      stepPrimitive u i.ip i.next p e a = .ok (a', none) →
      Reaches u ⟨n, a.changes a' ++ l, none, a'⟩
  /-- control leaves an instruction for the next one -/
  | leave {n l i e a a'} : Reaches u ⟨n, l, some (i, [], e), a⟩ →
      leave u i (some e) a = .ok a' → Reaches u ⟨n, a.changes a' ++ l, none, a'⟩

/-- The analysis of a unit is refused at a moment. -/
inductive CodeUnit.RefusedAt (u : CodeUnit) : Survey → CompileError → Prop
  | primitive {n l i p ps e a err} : stepPrimitive u i.ip i.next p e a = .error err →
      RefusedAt u ⟨n, l, some (i, p :: ps, e), a⟩ err
  | leave {n l i e a err} : leave u i (some e) a = .error err →
      RefusedAt u ⟨n, l, some (i, [], e), a⟩ err

/-- Control arrives at an instruction that is taken as its entry says. -/
theorem CodeUnit.entry_of_begun {k : Nat} {a : Analysis} {i : Instr} {ps : List Primitive}
    {e : StackState} (h : u.begun k a = some (i, ps, e)) : a.entries[k]?.join = some e := by
  unfold begun at h
  split at h
  · rename_i he
    cases h
    exact he
  · cases h

/-! ### Handlers -/

/-- At every moment the handlers are in order, those in force where control arrives included. -/
theorem CodeUnit.Reaches.orderly (hu : u.Checked) {m : Survey} (hm : u.Reaches m) :
    Orderly u m.analysis ∧ ∀ i ps e, m.running = some (i, ps, e) → m.analysis.Admits e := by
  induction hm with
  | start h =>
    have empty : Orderly u u.unreached := by
      refine ⟨Array.size_replicate, fun k e he => ?_, fun h hm => absurd hm (Array.not_mem_empty h)⟩
      rw [unreached, replicate_none] at he
      cases he
    exact ⟨empty.merge hu ⟨Nat.zero_le _, fun _ h => absurd h List.not_mem_nil⟩ h, nofun⟩
  | @take n l a k rest _ _ ih =>
    obtain ⟨orderly, -⟩ := ih
    refine ⟨⟨orderly.size, orderly.admits, orderly.parents⟩, fun i ps e run => ?_⟩
    exact orderly.admits k e (entry_of_begun run)
  | goOn _ h ih =>
    obtain ⟨orderly, known⟩ := ih.1.stepPrimitive hu (ih.2 _ _ _ rfl) h
    refine ⟨⟨orderly.size, orderly.admits, orderly.parents⟩, fun i ps e run => ?_⟩
    cases run
    exact known _ rfl
  | depart _ h ih => exact ⟨(ih.1.stepPrimitive hu (ih.2 _ _ _ rfl) h).1, nofun⟩
  | leave _ h ih => exact ⟨ih.1.leave hu (ih.2 _ _ _ rfl) h, nofun⟩

/-! ### Sets -/

namespace Survey

/-- The entries that have been set are accounted for. -/
structure Tallied (m : Survey) : Prop where
  /-- no entry has been set twice weak, nor twice otherwise -/
  once : m.sets.Nodup
  /-- what was set is still there, unless a weak entry has given way -/
  kept : ∀ k weak, (k, weak) ∈ m.sets →
    ∃ s, m.analysis.entries[k]?.join = some s ∧ (weak = false → s.weak = false)
  /-- what is there was set -/
  recorded : ∀ k s, m.analysis.entries[k]?.join = some s → (k, s.weak) ∈ m.sets
  /-- what was set has been followed or is about to be -/
  noted : m.taken + m.analysis.worklist.length = m.sets.length

variable {n k : Nat} {l : List (Nat × Bool)} {x y : Option (Instr × List Primitive × StackState)}
variable {a a' : Analysis} {new : StackState} {weak : Bool}

theorem Tallied.unchanged (h : Tallied ⟨n, l, x, a⟩) (entries : a'.entries = a.entries)
    (worklist : a'.worklist = a.worklist) : Tallied ⟨n, l, y, a'⟩ where
  once := h.once
  kept k weak hk := by
    rw [entries]
    exact h.kept k weak hk
  recorded k s hs := h.recorded k s (entries ▸ hs)
  noted := by
    rw [worklist]
    exact h.noted

/-- If an entry was set before, it is weak and gives way to one that is not. -/
theorem Tallied.weak_of_mem (h : Tallied ⟨n, l, x, a⟩) (sets : SetsEntry a a' k new)
    (hk : (k, weak) ∈ l) : weak = true ∧ new.weak = false := by
  obtain ⟨old, ho, strong⟩ := h.kept k weak hk
  obtain ⟨oldWeak, newStrong⟩ := sets.free old ho
  refine ⟨Bool.eq_true_of_not_eq_false fun hw => ?_, newStrong⟩
  rw [strong hw] at oldWeak
  cases oldWeak

/-- An entry that is set is accounted for. -/
theorem Tallied.set (h : Tallied ⟨n, l, x, a⟩) (sets : SetsEntry a a' k new) :
    Tallied ⟨n, (k, new.weak) :: l, y, a'⟩ where
  once := by
    refine List.nodup_cons.mpr ⟨fun hk => ?_, h.once⟩
    obtain ⟨weak, strong⟩ := h.weak_of_mem sets hk
    rw [weak] at strong
    cases strong
  kept j weak hj := by
    rw [sets.getElem? j]
    by_cases here : j = k
    · rw [if_pos here]
      refine ⟨new, rfl, fun hw => ?_⟩
      rcases List.mem_cons.mp hj with hj | hj
      · rw [← hw]
        exact (congrArg Prod.snd hj).symm
      · exact (h.weak_of_mem sets (here ▸ hj)).2
    · rw [if_neg here]
      rcases List.mem_cons.mp hj with hj | hj
      · exact absurd (congrArg Prod.fst hj) here
      · exact h.kept j weak hj
  recorded j s hs := by
    rw [sets.getElem? j] at hs
    by_cases here : j = k
    · rw [if_pos here] at hs
      cases hs
      rw [here]
      exact List.mem_cons_self
    · rw [if_neg here] at hs
      exact List.mem_cons_of_mem _ (h.recorded j s hs)
  noted := by
    have noted := h.noted
    dsimp only at noted ⊢
    rw [sets.worklist, List.length_cons, List.length_cons]
    omega

/-- An arrival that sets at most one entry is accounted for. -/
theorem Tallied.sets (h : Tallied ⟨n, l, x, a⟩) (sets : SetsAtMost a a') :
    Tallied ⟨n, a.changes a' ++ l, y, a'⟩ := by
  rcases sets with ⟨entries, worklist⟩ | ⟨k, new, sets⟩
  · rw [changes_of_same entries]
    exact h.unchanged entries worklist
  · rw [sets.changes_eq]
    exact h.set sets

end Survey

/-- At every moment the entries that have been set are accounted for. -/
theorem CodeUnit.Reaches.tallied (hu : u.Checked) {m : Survey} (hm : u.Reaches m) :
    m.Tallied := by
  induction hm with
  | start h =>
    have empty : Survey.Tallied ⟨0, [], none, u.unreached⟩ := by
      refine ⟨.nil, fun _ _ h => absurd h List.not_mem_nil, fun k s hs => ?_, rfl⟩
      rw [unreached, replicate_none] at hs
      cases hs
    have sets := merge_sets hu (show u.unreached.entries.size = _ from Array.size_replicate) h
    have tallied := empty.sets (y := none) sets
    rwa [List.append_nil] at tallied
  | take _ hw ih =>
    refine ⟨ih.once, ih.kept, ih.recorded, ?_⟩
    have noted := ih.noted
    dsimp only at noted ⊢
    rw [hw, List.length_cons] at noted
    omega
  | goOn hm h ih =>
    have tallied := ih.sets (y := none) (stepPrimitive_sets hu (hm.orderly hu).1.size h)
    exact tallied.unchanged rfl rfl
  | depart hm h ih => exact ih.sets (stepPrimitive_sets hu (hm.orderly hu).1.size h)
  | leave hm h ih => exact ih.sets (leave_sets hu (hm.orderly hu).1.size h)

/-- Only entries of instructions are set. -/
theorem CodeUnit.Reaches.sets_lt (hu : u.Checked) {m : Survey} (hm : u.Reaches m) {k : Nat}
    {weak : Bool} (hk : (k, weak) ∈ m.sets) : k < u.instrs.size := by
  obtain ⟨s, hs, -⟩ := (hm.tallied hu).kept k weak hk
  rw [← (hm.orderly hu).1.size]
  by_contra outside
  rw [Array.getElem?_eq_none (Nat.le_of_not_lt outside)] at hs
  cases hs

/-- There are at most two sets for each instruction. -/
theorem CodeUnit.Reaches.length_sets_le (hu : u.Checked) {m : Survey} (hm : u.Reaches m) :
    m.sets.length ≤ 2 * u.instrs.size := by
  have inside : m.sets ⊆ List.range u.instrs.size ×ˢ [false, true] := fun ⟨k, weak⟩ hk =>
    List.mem_product.mpr ⟨List.mem_range.mpr (hm.sets_lt hu hk), by cases weak <;> decide⟩
  have le := ((hm.tallied hu).once.subperm inside).length_le
  rw [List.length_product, List.length_range] at le
  exact Nat.le_trans le (Nat.le_of_eq (Nat.mul_comm _ _))

/-- No more instructions are taken from the worklist than were noted in it. -/
theorem CodeUnit.Reaches.taken_le (hu : u.Checked) {m : Survey} (hm : u.Reaches m) :
    m.taken ≤ 2 * u.instrs.size := by
  have noted := (hm.tallied hu).noted
  have sets := hm.length_sets_le hu
  omega

/-! ### The run -/

/-- What a part of the analysis ends with is as told, or it is refused at a moment that is
    reached. -/
def CodeUnit.Ends (u : CodeUnit) (P : Analysis → Prop) : Except CompileError Analysis → Prop
  | .ok a => P a
  | .error err => ∃ m, u.Reaches m ∧ u.RefusedAt m err

namespace CodeUnit.Reaches

variable {n : Nat} {l : List (Nat × Bool)} {a : Analysis}

/-- The primitives of an instruction are followed to the end. -/
theorem step {i : Instr} {ps : List Primitive} {e : StackState}
    (h : u.Reaches ⟨n, l, some (i, ps, e), a⟩) :
    u.Ends (fun a' => ∃ l', u.Reaches ⟨n, l', none, a'⟩)
      (stepPrimitives u i.ip i.next ps e a >>= fun r => Analysis.leave u i r.2 r.1) := by
  induction ps generalizing l e a with
  | nil =>
    show u.Ends _ (Analysis.leave u i (some e) a)
    cases left : Analysis.leave u i (some e) a with
    | ok a' => exact ⟨_, h.leave left⟩
    | error err => exact ⟨_, h, .leave left⟩
  | cons p ps ih =>
    unfold stepPrimitives
    cases step : stepPrimitive u i.ip i.next p e a with
    | error err => exact ⟨_, h, .primitive step⟩
    | ok r =>
      obtain ⟨a', out⟩ := r
      cases out with
      | none => exact ⟨_, h.depart step⟩
      | some e' => exact ih (h.goOn step)

/-- The worklist is followed until it is empty, or for as many steps as there is fuel. -/
theorem run (h : u.Reaches ⟨n, l, none, a⟩) (fuel : Nat) :
    u.Ends (fun a' => ∃ n' l', u.Reaches ⟨n', l', none, a'⟩ ∧
      (a'.worklist = [] ∨ n' = n + fuel)) (a.run u fuel) := by
  induction fuel generalizing n l a with
  | zero => exact ⟨n, l, h, .inr rfl⟩
  | succ fuel ih =>
    unfold Analysis.run
    cases hw : a.worklist with
    | nil => exact ⟨n, l, h, .inl hw⟩
    | cons k rest =>
      have taken := h.take hw
      have more {a'} {l'} (h : u.Reaches ⟨n + 1, l', none, a'⟩) :
          u.Ends (fun a' => ∃ n' l', u.Reaches ⟨n', l', none, a'⟩ ∧
            (a'.worklist = [] ∨ n' = n + (fuel + 1))) (a'.run u fuel) := by
        rw [Nat.add_comm fuel, ← Nat.add_assoc]
        exact ih h
      unfold begun at taken
      dsimp only
      split
      · rename_i i e hi he
        rw [hi, show a.entries[k]?.join = some e from he] at taken
        have ends := taken.step
        rw [← step_eq] at ends
        cases hstep : Analysis.step u i e { a with worklist := rest } with
        | error err =>
          rw [hstep] at ends
          exact ends
        | ok a' =>
          rw [hstep] at ends
          obtain ⟨l', h'⟩ := ends
          exact more h'
      · rename_i missing
        have idle : u.Reaches ⟨n + 1, l, none, { a with worklist := rest }⟩ := by
          split at taken
          · rename_i i e hi he
            exact absurd he (missing i e hi)
          · exact taken
        exact more idle

end CodeUnit.Reaches

/-! ## The analysis of a unit -/

/-- What holds at every moment of the analysis of a unit. -/
structure Survey.InRange (u : CodeUnit) (m : Survey) : Prop extends m.Tallied where
  /-- only entries of instructions are set -/
  inside : ∀ k weak, (k, weak) ∈ m.sets → k < u.instrs.size
  taken_le : m.taken ≤ 2 * u.instrs.size
  /-- the handlers in force at an instruction exist and are not too many, and handlers are
      enclosed by handlers that exist -/
  orderly : Orderly u m.analysis
  /-- so are those in force at the primitive that is next -/
  running : ∀ i ps e, m.running = some (i, ps, e) → m.analysis.Admits e
  /-- no height is cut off at zero -/
  heights : ∀ i p ps e, m.running = some (i, p :: ps, e) → ∀ a' out,
    stepPrimitive u i.ip i.next p e m.analysis = .ok (a', out) →
    let a := noting i.ip i.next p e m.analysis
    (∀ e', out = some e' →
      if p.op = .popBlock then e'.depth ≤ e.depth
      else (e'.depth : Int) = e.depth + p.heightEffect.2) ∧
    ∀ target s, a.edge? i.next p e = some (target, s) →
      if p.op = .continueLoop then s.depth = e.depth ∨ ∃ h ∈ e.handlers, a.depthOf h = some s.depth
      else (s.depth : Int) = e.depth + p.jumpChange

/-- Every moment of the analysis is in range. -/
theorem CodeUnit.Reaches.inRange (hu : u.Checked) {m : Survey} (hm : u.Reaches m) :
    m.InRange u where
  toTallied := hm.tallied hu
  inside _ _ hk := hm.sets_lt hu hk
  taken_le := hm.taken_le hu
  orderly := (hm.orderly hu).1
  running := (hm.orderly hu).2
  heights i p ps e _ a' out h := by
    obtain ⟨-, goesOn⟩ := stepPrimitive_ok h
    obtain ⟨enough, -⟩ := stepPrimitive_checks h
    exact ⟨fun e' he' => onward?_height enough (goesOn.symm.trans he'),
      fun target s hs => edge?_height enough hs⟩

/-- Control arrives at the first instruction of a unit. -/
theorem CodeUnit.Checked.merge_start (hu : u.Checked) :
    ∃ a, merge u 0 0 ⟨0, [], false⟩ u.unreached = .ok a := by
  obtain ⟨i, hi⟩ := Option.isSome_iff_exists.mp hu.first_isSome
  obtain ⟨k, hk, -⟩ := Option.bind_eq_some_iff.mp hi
  unfold merge
  rw [hk]
  dsimp only
  rw [unreached, replicate_none]
  exact ⟨_, rfl⟩

/-- The analysis of a unit ends with an empty worklist, unless it is refused. -/
theorem CodeUnit.Checked.analyze_ends (hu : u.Checked) :
    u.Ends (fun a => ∃ n l, u.Reaches ⟨n, l, none, a⟩ ∧ a.worklist = []) u.analyze := by
  obtain ⟨a, start⟩ := hu.merge_start
  have analysis : u.analyze = a.run u (2 * u.instrs.size + 1) := by
    show (merge u 0 0 ⟨0, [], false⟩ u.unreached >>= fun a => a.run u (2 * u.instrs.size + 1)) = _
    rw [start]
    rfl
  rw [analysis]
  have ends := (Reaches.start start).run (2 * u.instrs.size + 1)
  cases run : a.run u (2 * u.instrs.size + 1) with
  | error err =>
    rw [run] at ends
    exact ends
  | ok a' =>
    rw [run] at ends
    obtain ⟨n, l, reached, rested⟩ := ends
    refine ⟨n, l, reached, rested.resolve_right fun spent => ?_⟩
    have taken : n ≤ 2 * u.instrs.size := reached.taken_le hu
    omega

/-- **The worklist of the analysis ends, and stays in range.**  Whatever the flow of control of
    a unit, at every moment of its analysis each entry has been set at most twice, once weak and
    once not, so that at most twice as many instructions have been taken from the worklist as
    there are; heights are those of signed arithmetic, which never go below zero; the handlers
    in force are never more than blocks can be in each other, and every handler that is named
    exists.  The analysis ends when the worklist is empty, or is refused at such a moment. -/
theorem worklist_ends {id : Ref} {parts : CodeParts} (hu : CodeUnit.ofParts id parts = .ok u) :
    (∀ m, u.Reaches m → m.InRange u) ∧
    u.Ends (fun a => ∃ n l, u.Reaches ⟨n, l, none, a⟩ ∧ a.worklist = []) u.analyze := by
  have hu := (CodeUnit.checked_of_ofParts hu).2
  exact ⟨fun _ hm => hm.inRange hu, hu.analyze_ends⟩

theorem worklist_ends_of_stale :
    CodeUnit.ofParts 0 .stale = .ok .stale ∧
    ∃ n l, CodeUnit.stale.Reaches ⟨n, l, none, .stale⟩ ∧ n = l.length ∧ l.Nodup ∧
      n ≤ 2 * CodeUnit.stale.instrs.size := by
  have built : CodeUnit.ofParts 0 .stale = .ok .stale := eq_ok_of_isSome (by decide +kernel)
  have analyzed : CodeUnit.stale.analyze = .ok .stale := eq_ok_of_isSome (by decide +kernel)
  obtain ⟨inRange, ends⟩ := worklist_ends built
  rw [analyzed] at ends
  obtain ⟨n, l, reached, empty⟩ := ends
  have range := inRange _ reached
  have noted := range.noted
  dsimp only at noted
  rw [empty] at noted
  exact ⟨built, n, l, reached, noted, range.once, range.taken_le⟩

end TieredMachine
