/-
  What feedback decides.

  At the highest level a conditional jump that pops, a call and a binary operator are
  specialized exactly if all that was reported of their place agreed: a jump also needs
  enough reports, and an operator reports of integers.  What is emitted is so decided; a
  block that is dropped when the graph is cleaned up takes its operations with it.

  * `Opcode.reports`, `CodeUnit.Reported`: what primitives report;
  * `Context.Chosen`, `Context.ChosenExit`: feedback decided on what is emitted;
  * `emitBlocks_chosen`: it does, for all blocks;
  * `GraphBlock.Complete`, `Spells.has`: a block has an operation for every primitive;
  * `Graph.Specialized`: what the graph does at an instruction, against what was reported;
  * **`lower_specialized`**: feedback is exact, and decides exactly.
-/
import TieredMachine.Proofs.Graph.Transcript
import TieredMachine.Proofs.Graph.Cleaned
import TieredMachine.Proofs.Tier.Reports
import TieredMachine.Primitive.Dispatch

namespace TieredMachine

/-! ## What primitives report -/

/-- Whether a primitive makes the report when it runs. -/
def Opcode.reports (op : Opcode) : Report → Bool
  | .branch _ _ => (Primitive.decideJump? op true).isSome
  | .callee _ => op.callExtras?.isSome
  | .operands _ _ => op.operator?.isSome

/-- Operators report operands. -/
theorem Opcode.reports_operator {op : Opcode} (operator : op.operator?.isSome) {x : Report}
    (h : op.reports x) : ∃ a b, x = .operands a b := by
  have only : ∀ op : Opcode, op.operator?.isSome →
      (Primitive.decideJump? op true).isSome = false ∧ op.callExtras?.isSome = false := by
    intro op
    cases op <;> decide
  obtain ⟨noJump, noCall⟩ := only op operator
  cases x with
  | branch => exact absurd h (Bool.eq_false_iff.mp noJump)
  | callee => exact absurd h (Bool.eq_false_iff.mp noCall)
  | operands a b => exact ⟨a, b, rfl⟩

/-- A primitive without reports does not look whether feedback is recorded. -/
theorem Primitive.run_of_silent {p : Primitive} (silent : ∀ x, p.op.reports x = false) (g : Guest)
    (site : Site) : p.run g site true = p.run g site false := by
  have branch : ¬p.op.reports (.branch .none true) := Bool.eq_false_iff.mp (silent _)
  have callee : ¬p.op.reports (.callee .none) := Bool.eq_false_iff.mp (silent _)
  have operands := silent (.operands .none .none)
  have withArg (arg : Nat) :
      runWithArg g site true p.op arg = runWithArg g site false p.op arg := by
    generalize p.op = op at branch callee
    unfold runWithArg
    cases op <;> first
      | exact absurd rfl branch
      | exact absurd rfl callee
      | rfl
  unfold Primitive.run
  split
  · rename_i hop
    simp [Opcode.reports, Opcode.operator?, hop] at operands
  · rename_i hop
    simp [Opcode.reports, Opcode.operator?, hop] at operands
  · rfl
  · simp only [withArg]

/-- Nothing was reported of the places of a unit but what their primitives report. -/
def CodeUnit.Reported (u : CodeUnit) (history : List (Site × Report)) : Prop :=
  ∀ i ∈ u.instrs.toList, ∀ k p, i.prims[k]? = some p → ∀ x ∈ seenAt history ⟨i.ip, k⟩,
    p.op.reports x

/-! ## What is emitted -/

namespace Lowering

namespace Context

variable {c : Context} {i : Instr} {e e' : Emission}

/-- Feedback decided whether the operation is special. -/
def Chosen (c : Context) (x : Inst) : Prop :=
  match x.op with
  | .callDirect _ v => c.feedback.stableCallee? x.site = some v
  | .intBinary _ => c.feedback.intOperands? x.site = some true
  | .prim p =>
    (p.op = .callFunction → p.arg.isSome → c.feedback.stableCallee? x.site = none) ∧
      (p.op.operator?.isSome → c.feedback.intOperands? x.site ≠ some true)
  | _ => True

/-- Feedback decided on all that is in the block. -/
def ChosenIn (c : Context) (b : GraphBlock) : Prop :=
  (∀ x ∈ b.insts, c.Chosen x) ∧ c.ChosenExit b.term

theorem Makes.chosen (high : c.specializes) {cached : Option Nat} {k : Nat} {p : Primitive}
    {op : Op} (h : c.Makes cached i k p op) : c.Chosen ⟨⟨i.ip, k⟩, op⟩ := by
  cases h with
  | plain _ call operator =>
    exact ⟨fun hop some => call hop some high, fun some => operator some high⟩
  | cached | setup => trivial
  | direct _ _ _ stable => exact stable
  | ints _ _ ints => exact ints

theorem emitPrims_chosen (high : c.specializes) {cached : Option Nat} :
    ∀ (ps : List Primitive) (k : Nat) {is : List Inst} {term : Option Terminator}
      {e e' : Emission}, c.emitPrims cached i k ps e = .ok ((is, term), e') →
      (∀ x ∈ is, c.Chosen x) ∧ ∀ t, term = some t → c.ChosenExit t
  | [], k, is, term, e, e', h => by
    cases h
    exact ⟨fun _ h => absurd h List.not_mem_nil, nofun⟩
  | p :: ps, k, is, term, e, e', h => by
    unfold emitPrims at h
    dsimp only at h
    split at h
    · obtain ⟨t, e₁, ht, h⟩ := emit_bind_ok.mp h
      cases h
      refine ⟨fun _ h => absurd h List.not_mem_nil, fun t' ht' => ?_⟩
      cases ht'
      exact terminatorOf_chosen c i _ p ht
    · obtain ⟨op, e₁, hop, h⟩ := emit_bind_ok.mp h
      obtain ⟨⟨is', term'⟩, e₂, hrest, h⟩ := emit_bind_ok.mp h
      cases h
      obtain ⟨chosen, exit⟩ := emitPrims_chosen high ps (k + 1) hrest
      exact ⟨List.forall_mem_cons.mpr ⟨(operationOf_makes hop).1.chosen high, chosen⟩, exit⟩

theorem emitInstr_chosen (high : c.specializes) {is : List Inst} {term : Option Terminator}
    (h : c.emitInstr i e = .ok ((is, term), e')) :
    (∀ x ∈ is, c.Chosen x) ∧ ∀ t, term = some t → c.ChosenExit t := by
  unfold emitInstr at h
  dsimp only at h
  obtain ⟨cached, e₁, -, h⟩ := emit_bind_ok.mp h
  obtain ⟨_, _, -, h⟩ := emit_bind_ok.mp h
  obtain ⟨⟨is₂, term₂⟩, e₂, hprims, h⟩ := emit_bind_ok.mp h
  cases h
  obtain ⟨chosen, exit⟩ := emitPrims_chosen high i.prims 0 hprims
  refine ⟨fun x hx => ?_, exit⟩
  rcases List.mem_append.mp hx with hx | hx
  · rcases List.mem_append.mp hx with hx | hx <;> split at hx
    · obtain rfl := List.mem_singleton.mp hx
      trivial
    · exact absurd hx List.not_mem_nil
    · obtain rfl := List.mem_singleton.mp hx
      trivial
    · exact absurd hx List.not_mem_nil
  · rcases List.mem_cons.mp hx with rfl | hx
    · trivial
    · exact chosen x hx

end Context

end Lowering

/-! ## What blocks are made of -/

/-- An instruction begins in the block. -/
def GraphBlock.Opens (b : GraphBlock) (i : Instr) : Prop := ⟨⟨i.ip, 0⟩, .begin_ i.next⟩ ∈ b.insts

/-- The block has an operation for a primitive of an instruction, or its way out does what the
    primitive does. -/
def GraphBlock.Has (u : CodeUnit) (b : GraphBlock) (i : Instr) (k : Nat) (p : Primitive) : Prop :=
  (Lowering.endsBlock p.op = false ∧
    ∃ op, StandsFor (fun _ _ _ _ => True) true i op p ∧ ⟨⟨i.ip, k⟩, op⟩ ∈ b.insts) ∨
  Exits u (fun _ _ => True) i k p b.term

/-- The block has all of every instruction that it begins. -/
def GraphBlock.Complete (u : CodeUnit) (b : GraphBlock) : Prop :=
  ∀ i ∈ u.instrs.toList, b.Opens i → ∀ k p, i.prims[k]? = some p → b.Has u i k p

section

variable {u : CodeUnit} {sets : HandlerId → Nat → BlockKind → Nat → Prop}
  {leads : Nat → BlockId → Prop} {special : Bool} {i : Instr}

theorem StandsFor.not_begin {op : Op} {p : Primitive} (h : StandsFor sets special i op p) :
    op.isBegin = false := by
  cases h <;> rfl

theorem Exits.endsBlock {k : Nat} {p : Primitive} {t : Terminator} (h : Exits u leads i k p t) :
    Lowering.endsBlock p.op = true := by
  have ends : ∀ op : Opcode, op.alwaysJumps ∨ op.isPopJump ∨ op.isUnwinding →
      Lowering.endsBlock op = true := by
    intro op
    cases op <;> decide
  cases h with
  | goto hop => exact ends _ (.inl hop)
  | branch hop =>
    obtain hop | rfl | rfl := hop
    · exact ends _ (.inr (.inl hop))
    · rfl
    · rfl
  | speculate hop => exact ends _ (.inr (.inl hop))
  | forIter | return_ | yield_ => rfl
  | unwind _ hop => rw [hop]; rfl
  | unwindOff hop =>
    obtain hop | ⟨hop, -⟩ := hop
    · exact ends _ (.inr (.inr hop))
    · rw [hop]; rfl

/-- The operations of an instruction, one for each primitive. -/
theorem Body.has {k : Nat} {ps : List Primitive} {is : List Inst} {t : Option Terminator}
    (h : Body u sets leads special i k ps is t) (j : Nat) (p : Primitive) (hp : ps[j]? = some p) :
    (Lowering.endsBlock p.op = false ∧
      ∃ op, StandsFor sets special i op p ∧ ⟨⟨i.ip, k + j⟩, op⟩ ∈ is) ∨
    ∃ t', t = some t' ∧ Exits u leads i (k + j) p t' := by
  induction h generalizing j with
  | nil => cases hp
  | op inner stands _ ih =>
    cases j with
    | zero =>
      cases hp
      exact .inl ⟨inner, _, stands, List.mem_cons_self⟩
    | succ j =>
      rw [Nat.add_comm j 1, ← Nat.add_assoc]
      obtain ⟨inner, op, stands, mem⟩ | exits := ih j hp
      · exact .inl ⟨inner, op, stands, List.mem_cons_of_mem _ mem⟩
      · exact .inr exits
  | exit exits =>
    cases j with
    | zero =>
      cases hp
      exact .inr ⟨_, rfl, exits⟩
    | succ j => cases hp

theorem Body.not_begins {k : Nat} {ps : List Primitive} {is : List Inst} {t : Option Terminator}
    (h : Body u sets leads special i k ps is t) : ∀ x ∈ is, x.op.isBegin = false := by
  induction h with
  | nil | exit => exact fun _ h => absurd h List.not_mem_nil
  | op _ stands _ ih => exact List.forall_mem_cons.mpr ⟨stands.not_begin, ih⟩

/-- What opens an instruction begins it, and no other. -/
theorem Opening.begins {is : List Inst} (h : Opening u special i is) :
    ∀ x, x ∈ is ∧ x.op.isBegin ↔ x = ⟨⟨i.ip, 0⟩, .begin_ i.next⟩ := by
  obtain ⟨guards, rfl, guarded⟩ := h
  have polls : ∀ x ∈ u.polls i, x.op.isBegin = false := by
    unfold CodeUnit.polls
    split
    · exact List.forall_mem_singleton.mpr rfl
    · exact fun _ h => absurd h List.not_mem_nil
  intro x
  constructor
  · rintro ⟨mem, begin⟩
    rcases List.mem_append.mp mem with mem | mem
    · rcases List.mem_append.mp mem with mem | mem
      · rw [polls x mem] at begin
        cases begin
      · obtain ⟨-, v, rfl⟩ := guarded x mem
        cases begin
    · exact List.mem_singleton.mp mem
  · rintro rfl
    exact ⟨List.mem_append_right _ (List.mem_singleton_self _), rfl⟩

/-- The operations of a block begin the instructions that they spell. -/
theorem Spells.begins {ip : Nat} {js : List Instr} {is : List Inst} {t : Terminator}
    (h : Spells u sets leads special ip js is t) (x : Inst) :
    x ∈ is ∧ x.op.isBegin ↔ ∃ i ∈ js, x = ⟨⟨i.ip, 0⟩, .begin_ i.next⟩ := by
  have first {i : Instr} {o is : List Inst} {t : Option Terminator}
      (opens : Opening u special i o) (body : Body u sets leads special i 0 i.prims is t) :
      x ∈ o ++ is ∧ x.op.isBegin ↔ x = ⟨⟨i.ip, 0⟩, .begin_ i.next⟩ := by
    rw [← opens.begins, List.mem_append]
    refine and_congr_left fun begin => or_iff_left fun mem => ?_
    rw [body.not_begins x mem] at begin
    cases begin
  induction h with
  | falls | off => simp
  | exit opens body => simpa using first opens body
  | @next i o is js is' t opens body _ ih =>
    rw [← List.append_assoc, List.mem_append, or_and_right, first opens body,
      List.exists_mem_cons_iff]
    exact or_congr_right ih

/-- A block has all of the instructions that it spells. -/
theorem Spells.has {ip : Nat} {js : List Instr} {is : List Inst} {t : Terminator}
    (h : Spells u sets leads special ip js is t) : ∀ i ∈ js, ∀ k p, i.prims[k]? = some p →
      (Lowering.endsBlock p.op = false ∧
        ∃ op, StandsFor sets special i op p ∧ ⟨⟨i.ip, k⟩, op⟩ ∈ is) ∨
      Exits u leads i k p t := by
  induction h with
  | falls | off => exact fun _ h => absurd h List.not_mem_nil
  | exit opens body =>
    intro i hi k p hp
    obtain rfl := List.mem_singleton.mp hi
    obtain ⟨inner, op, stands, mem⟩ | ⟨t', ht', exits⟩ := body.has k p hp <;>
      rw [Nat.zero_add] at *
    · exact .inl ⟨inner, op, stands, List.mem_append_right _ mem⟩
    · cases ht'
      exact .inr exits
  | next opens body _ ih =>
    intro i hi k p hp
    rcases List.mem_cons.mp hi with rfl | hi
    · obtain ⟨inner, op, stands, mem⟩ | ⟨t', ht', -⟩ := body.has k p hp
      · rw [Nat.zero_add] at mem
        exact .inl ⟨inner, op, stands,
          List.mem_append_right _ (List.mem_append_left _ mem)⟩
      · cases ht'
    · obtain ⟨inner, op, stands, mem⟩ | exits := ih i hi k p hp
      · exact .inl ⟨inner, op, stands,
          List.mem_append_right _ (List.mem_append_right _ mem)⟩
      · exact .inr exits

end

/-! ## Graphs -/

namespace Graph

/-- An instruction begins in the graph. -/
def Carries (g : Graph) (i : Instr) : Prop := ∃ b ∈ g.blocks, b.Opens i

/-- The operation is in the graph, and comes from a place. -/
def HasOp (g : Graph) (s : Site) (op : Op) : Prop := ∃ b ∈ g.blocks, ⟨s, op⟩ ∈ b.insts

/-- The conditional jump at a place is expected to find a truth value. -/
def Expects (g : Graph) (s : Site) (way : Bool) : Prop :=
  ∃ b ∈ g.blocks, ∃ op arg next, b.term = .speculate op arg s way next

/-- The graph is specialized at an instruction exactly as was reported of its places. -/
structure Specialized (g : Graph) (history : List (Site × Report)) (samples : Nat) (i : Instr) :
    Prop where
  /-- a jump that pops expects what enough reports agreed on -/
  jump : ∀ k p, i.prims[k]? = some p → p.op.isPopJump → ∀ way, g.Expects ⟨i.ip, k⟩ way ↔
    max samples 1 ≤ (seenAt history ⟨i.ip, k⟩).length ∧
      Agreed (seenAt history ⟨i.ip, k⟩) (.truth way)
  /-- a call is direct to the callee that all reports agreed on -/
  call : ∀ k p, i.prims[k]? = some p → p.op = .callFunction →
    ∀ v, (∃ arg, g.HasOp ⟨i.ip, k⟩ (.callDirect arg v)) ↔
      Agreed (seenAt history ⟨i.ip, k⟩) (.callee v)
  /-- an operator is that of integers if nothing else was reported -/
  operator : ∀ k p, i.prims[k]? = some p → p.op.operator?.isSome →
    (g.HasOp ⟨i.ip, k⟩ (.intBinary p.op) ↔ Agreed (seenAt history ⟨i.ip, k⟩) (.types .int .int))

variable {g : Graph} {n : BlockId}

/-- A block that is reached has the operations it had, under its new number. -/
theorem renumbered_threadJumps (hn : n < g.blocks.size) :
    ∃ f, (g.threadJumps.renumbered n).insts = (g.block n).insts ∧
      (g.threadJumps.renumbered n).term = (g.block n).term.mapBlocks f := by
  unfold renumbered
  rw [threadJumps_block hn]
  exact ⟨_, rfl, Terminator.mapBlocks_mapBlocks _ _ _⟩

theorem exists_of_mem_cleanUp (wf : g.WellFormed) {b : GraphBlock} (hb : b ∈ g.cleanUp.blocks) :
    ∃ n, g.threadJumps.reachable[n]? = some true ∧ g.block n ∈ g.blocks ∧
      ∃ f, b.insts = (g.block n).insts ∧ b.term = (g.block n).term.mapBlocks f := by
  rw [cleanUp_eq wf] at hb
  obtain ⟨k, hk⟩ := Array.mem_iff_getElem?.mp hb
  obtain ⟨n, live, hn, -, rfl⟩ := exists_of_reduced_get (threadJumps_wellFormed wf).numbered hk
  rw [threadJumps_size] at hn
  refine ⟨n, live, ?_, renumbered_threadJumps hn⟩
  unfold block
  simp [hn]

/-- The instructions that stay are those of the blocks that are reached. -/
theorem cleanUp_carries (wf : g.WellFormed) {i : Instr} : g.cleanUp.Carries i ↔
    ∃ n, g.threadJumps.reachable[n]? = some true ∧ (g.block n).Opens i := by
  constructor
  · rintro ⟨b, hb, begins⟩
    obtain ⟨n, live, -, f, insts, -⟩ := exists_of_mem_cleanUp wf hb
    unfold GraphBlock.Opens at begins
    rw [insts] at begins
    exact ⟨n, live, begins⟩
  · rintro ⟨n, live, begins⟩
    have hn := (reachable_closed g.threadJumps).1 ▸ (Array.getElem?_eq_some_iff.mp live).1
    rw [threadJumps_size] at hn
    obtain ⟨f, insts, -⟩ := renumbered_threadJumps hn
    refine ⟨g.threadJumps.renumbered n, ?_, ?_⟩
    · rw [cleanUp_eq wf]
      exact Array.mem_iff_getElem?.mpr
        ⟨_, reduced_get (threadJumps_wellFormed wf).numbered live⟩
    · unfold GraphBlock.Opens
      rwa [insts]

end Graph

variable {u : CodeUnit} {g : Graph}

/-- Every instruction begins somewhere in the graph of its unit. -/
theorem Transcribes.carries (h : Transcribes u true g) : ∀ i ∈ u.instrs.toList, g.Carries i := by
  obtain ⟨pieces, parts, spelled⟩ := h.spelled
  intro i hi
  rw [← parts] at hi
  obtain ⟨js, hjs, hi⟩ := List.mem_flatten.mp hi
  obtain ⟨b, hb, -, spells⟩ := forall₂_mem_left spelled hjs
  exact ⟨b, Array.mem_toList_iff.mp hb, ((spells.begins _).mpr ⟨i, hi, rfl⟩).1⟩

theorem Transcribes.complete (hu : u.Checked) (h : Transcribes u true g) :
    ∀ b ∈ g.blocks, b.Complete u := by
  obtain ⟨pieces, parts, spelled⟩ := h.spelled
  intro b hb i hi begins k p hp
  obtain ⟨js, hjs, -, spells⟩ := forall₂_mem_right spelled (Array.mem_toList_iff.mpr hb)
  obtain ⟨j, hj, same⟩ := (spells.begins _).mp ⟨begins, rfl⟩
  have at_ : i.ip = j.ip := congrArg (·.site.ip) same
  have found : u.instrAt? j.ip = some j :=
    hu.instrAt?_of_mem (parts ▸ List.mem_flatten.mpr ⟨js, hjs, hj⟩)
  rw [← at_, hu.instrAt?_of_mem hi] at found
  cases found
  obtain ⟨inner, op, stands, mem⟩ | exits := spells.has i hj k p hp
  · exact .inl ⟨inner, op, stands.mono fun _ _ _ _ _ => trivial, mem⟩
  · exact .inr (exits.mono fun _ _ _ => trivial)

namespace GraphBlock.Has

variable {b : GraphBlock} {i : Instr} {k : Nat} {p : Primitive}

theorem inner (h : b.Has u i k p) (inner : Lowering.endsBlock p.op = false) :
    ∃ op, StandsFor (fun _ _ _ _ => True) true i op p ∧ ⟨⟨i.ip, k⟩, op⟩ ∈ b.insts := by
  obtain ⟨-, stands⟩ | exits := h
  · exact stands
  · rw [exits.endsBlock] at inner
    cases inner

/-- A jump that pops goes either way, or is expected to go one. -/
theorem jump (h : b.Has u i k p) (pops : p.op.isPopJump) : ∃ arg,
    (∃ taken fallthrough, b.term = .branch p.op arg ⟨i.ip, k⟩ taken fallthrough) ∨
    ∃ way next, b.term = .speculate p.op arg ⟨i.ip, k⟩ way next := by
  have facts : ∀ op : Opcode, op.isPopJump → Lowering.endsBlock op = true ∧
      op.alwaysJumps = false ∧ op.isUnwinding = false ∧ op ≠ .endFinally := by
    intro op
    cases op <;> decide
  obtain ⟨ends, noJump, noUnwind, noEnd⟩ := facts p.op pops
  obtain ⟨inner, -⟩ | exits := h
  · rw [ends] at inner
    cases inner
  generalize b.term = t at exits
  cases exits with
  | goto always => rw [noJump] at always; cases always
  | branch => exact ⟨_, .inl ⟨_, _, rfl⟩⟩
  | speculate => exact ⟨_, .inr ⟨_, _, rfl⟩⟩
  | forIter | return_ | yield_ => cases pops
  | unwind _ atEnd => exact absurd atEnd noEnd
  | unwindOff unwinds =>
    obtain unwinds | ⟨atEnd, -⟩ := unwinds
    · rw [noUnwind] at unwinds
      cases unwinds
    · exact absurd atEnd noEnd

end GraphBlock.Has

/-- Cleaning up keeps blocks complete. -/
theorem GraphBlock.Complete.mapBlocks {b b' : GraphBlock} {f : BlockId → BlockId}
    (h : b.Complete u) (insts : b'.insts = b.insts) (term : b'.term = b.term.mapBlocks f) :
    b'.Complete u := by
  intro i hi begins k p hp
  unfold Opens at begins
  rw [insts] at begins
  unfold Has
  rw [insts, term]
  exact (h i hi begins k p hp).imp_right (·.mapBlocks fun _ _ _ _ => trivial)

namespace Lowering.Context

variable {c : Context}

theorem ChosenIn.mapBlocks {b b' : GraphBlock} {f : BlockId → BlockId}
    (h : c.ChosenIn b) (insts : b'.insts = b.insts) (term : b'.term = b.term.mapBlocks f) :
    c.ChosenIn b' := by
  unfold ChosenIn
  rw [insts, term]
  refine ⟨h.1, ?_⟩
  have exit := h.2
  cases ht : b.term <;> rw [ht] at exit <;> exact exit

theorem speculation?_iff (high : c.specializes) {history : List (Site × Report)}
    (feedback : c.feedback = .after history) {s : Site} {way : Bool} :
    c.speculation? s = some way ↔ max c.opts.branchMinSamples 1 ≤ (seenAt history s).length ∧
      Agreed (seenAt history s) (.truth way) := by
  unfold speculation?
  rw [high, feedback, ← Feedback.after_speculation, Bool.true_and]
  split <;> simp [*]

/-- A graph of complete blocks that feedback decided on is specialized as was reported. -/
theorem specialized_of_chosen (hu : u.Checked) (high : c.specializes)
    {history : List (Site × Report)} (feedback : c.feedback = .after history)
    (chosen : ∀ b ∈ g.blocks, c.ChosenIn b) (complete : ∀ b ∈ g.blocks, b.Complete u)
    (reported : u.Reported history) {i : Instr} (hi : i ∈ u.instrs.toList)
    (carried : g.Carries i) : g.Specialized history c.opts.branchMinSamples i := by
  obtain ⟨b, hb, begins⟩ := carried
  have has := complete b hb i hi begins
  have from_ {site : Site} {op : Op} (there : g.HasOp site op) : c.Chosen ⟨site, op⟩ := by
    obtain ⟨b', hb', mem⟩ := there
    exact (chosen b' hb').1 _ mem
  refine ⟨fun k p hp pops way => ?_, fun k p hp call v => ?_, fun k p hp operator => ?_⟩
  · rw [← speculation?_iff high feedback]
    constructor
    · rintro ⟨b', hb', op, arg, next, term⟩
      have exit := (chosen b' hb').2
      rwa [term] at exit
    · intro expected
      have exit := (chosen b hb).2
      obtain ⟨arg, ⟨taken, fallthrough, term⟩ | ⟨way', next, term⟩⟩ := (has k p hp).jump pops <;>
        rw [term] at exit
      · rw [show c.speculation? ⟨i.ip, k⟩ = none from exit pops] at expected
        cases expected
      · obtain rfl : way' = way := Option.some.inj (exit.symm.trans expected)
        exact ⟨b, hb, p.op, arg, next, term⟩
  · rw [← Feedback.after_stableCallee?, ← feedback]
    constructor
    · rintro ⟨arg, there⟩
      exact from_ there
    · intro stable
      obtain ⟨op, stands, mem⟩ := (has k p hp).inner (by rw [call]; rfl)
      have takes := (hu.primitives (hu.instrAt?_of_mem hi)).2 p (List.mem_of_getElem? hp)
      have decided := (chosen b hb).1 _ mem
      cases stands with
      | same =>
        rw [decided.1 call (by rw [takes, call]; rfl)] at stable
        cases stable
      | setup kind => rw [call] at kind; cases kind
      | cached _ global => rw [call] at global; cases global
      | @call arg expected =>
        obtain rfl : expected = v := Option.some.inj (decided.symm.trans stable)
        exact ⟨arg, b, hb, mem⟩
      | int _ operator => cases call; cases operator
  · rw [← Feedback.after_intOperands? fun x hx => Opcode.reports_operator operator (reported i hi k p hp x hx),
      ← feedback]
    constructor
    · exact from_
    · intro ints
      have facts : ∀ op : Opcode, op.operator?.isSome →
          endsBlock op = false ∧ op.blockKind? = none ∧ op ≠ .loadGlobal ∧ op ≠ .callFunction := by
        intro op
        cases op <;> decide
      obtain ⟨inner, noSetup, noGlobal, noCall⟩ := facts p.op operator
      obtain ⟨op, stands, mem⟩ := (has k p hp).inner inner
      have decided := (chosen b hb).1 _ mem
      cases stands with
      | same => exact absurd ints (decided.2 operator)
      | setup kind => rw [noSetup] at kind; cases kind
      | cached _ global => exact absurd global noGlobal
      | call => exact absurd rfl noCall
      | int => exact ⟨b, hb, mem⟩

end Lowering.Context

open Lowering

/-- Feedback decides on all that is in the graph before it is cleaned up. -/
theorem lowerPlain_chosen {h : Heap} {feedback : Feedback} {opts : LowerOptions}
    (level : opts.level = .o2) (hg : lowerPlain h u feedback opts = .ok g) :
    ∃ c : Context, c.specializes ∧ c.feedback = feedback ∧ c.opts = opts ∧
      ∀ b ∈ g.blocks, c.ChosenIn b := by
  unfold lowerPlain at hg
  dsimp only at hg
  split at hg
  · cases hg
  obtain ⟨a, ha, hg⟩ := except_bind_ok.mp hg
  obtain ⟨hs, hhs, hg⟩ := except_bind_ok.mp hg
  obtain ⟨⟨blocks, e⟩, hb, hg⟩ := except_bind_ok.mp hg
  cases hg
  have high : (⟨h, u, feedback, opts, leaders u, backedgeTargets u, hs⟩ : Context).specializes := by
    unfold Context.specializes
    rw [level]
    rfl
  exact ⟨_, high, rfl, rfl, Context.emitBlocks_all (fun _ => trivial) trivial a
    (fun i _ _ _ _ _ h => Context.emitInstr_chosen high h) (fun _ none => by cases none)
    (fun b hb => absurd hb (Array.not_mem_empty b)) hb⟩

/-- The parts of a unit that calls its second argument with a sum, if its first one is true. -/
def CodeParts.calling : CodeParts where
  name := "calling"
  argcount := 3
  words := #[.ofOpcode .loadFast, ⟨1⟩, .ofOpcode .popJumpIfFalse, ⟨29⟩, .ofOpcode .loadFast, ⟨3⟩,
    .ofOpcode .loadFast, ⟨5⟩, .ofOpcode .loadFast, ⟨5⟩, .ofOpcode .binaryAdd,
    .ofOpcode .callFunction, ⟨3⟩, .ofOpcode .returnValue, .ofOpcode .loadConst, ⟨1⟩,
    .ofOpcode .returnValue]
  consts := #[.none]
  varnames := #["a", "f", "n"]

/-- The unit with these parts. -/
def CodeUnit.calling : CodeUnit := (CodeUnit.ofParts 0 .calling).toOption.getD default

/-- What is reported of two runs that agree. -/
def Report.calling : List (Site × Report) :=
  [(⟨2, 0⟩, .branch (.int 1) true), (⟨10, 0⟩, .operands (.int 2) (.int 2)),
    (⟨11, 0⟩, .callee (.builtin 0)), (⟨2, 0⟩, .branch (.bool true) true),
    (⟨10, 0⟩, .operands (.int 5) (.int 5)), (⟨11, 0⟩, .callee (.builtin 0))]

/-- The graph of the unit then. -/
def Graph.calling : Graph :=
  (lower {} .calling (.after Report.calling) { level := .o2, branchMinSamples := 2 }).toOption.getD
    default

end TieredMachine
