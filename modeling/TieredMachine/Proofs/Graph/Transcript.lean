/-
  Graphs transcribe their units.

  Read in order, the blocks of a graph that was lowered hold every instruction of the unit
  once: where it begins, and an operation for each of its primitives, the last of which may
  have become the way out of the block.  Edges lead to the blocks that start where the
  instructions go on.

  * `StandsFor`, `Body`, `Opening`: the operations of an instruction;
  * `Spells`: the operations of a block, against the instructions that it holds;
  * `Transcribes`: all blocks, against all instructions;
  * `lowerPlain_transcribes`: graphs that are lowered, at any level;
  * **`lower_transcribes`**: without specialization, nothing else is in the blocks.
-/
import Mathlib.Data.List.Forall2
import TieredMachine.Proofs.Graph.CleanUp

namespace TieredMachine

/-! ## Instructions and their operations -/

/-- Whether only one way out of a conditional jump is expected. -/
def Terminator.isSpeculation : Terminator → Bool
  | .speculate .. => true
  | _ => false

/-- Where running code may be left before an instruction. -/
def CodeUnit.polls (u : CodeUnit) (i : Instr) : List Inst :=
  if u.isSafePoint i.ip then
    [⟨⟨i.ip, 0⟩, .safePoint
      (if (Lowering.backedgeTargets u).contains i.ip then .backedge else .line)⟩]
  else []

section

variable (u : CodeUnit) (sets : HandlerId → Nat → BlockKind → Nat → Prop)
  (leads : Nat → BlockId → Prop) (special : Bool)

/-- The operation stands for a primitive of an instruction. -/
inductive StandsFor (i : Instr) : Op → Primitive → Prop
  | same {p} : p.op.blockKind? = none → StandsFor i (.prim p) p
  | setup {p kind target h} : p.op.blockKind? = some kind → p.target? i.next = some target →
      sets h i.ip kind target → StandsFor i (.pushHandler h) p
  | cached {p a} : special → p.op = .loadGlobal → StandsFor i (.loadCached a) p
  | call {arg expected} : special →
      StandsFor i (.callDirect arg expected) ⟨.callFunction, some arg⟩
  | int {op} : special → op.operator?.isSome → StandsFor i (.intBinary op) ⟨op, none⟩

/-- The operations stand for the primitives of an instruction from position `k` on.  One that
    ends blocks comes last, and is the way out of the block. -/
inductive Body (i : Instr) : Nat → List Primitive → List Inst → Option Terminator → Prop
  | nil {k} : Body i k [] [] none
  | op {k p ps op is t} : Lowering.endsBlock p.op = false → StandsFor sets special i op p →
      Body i (k + 1) ps is t →
      Body i k (p :: ps) (⟨⟨i.ip, k⟩, op⟩ :: is) t
  | exit {k p t} : Exits u leads i k p t → (t.isSpeculation → special) →
      Body i k [p] [] (some t)

/-- The operations open an instruction: its polls come first, and its beginning last. -/
def Opening (i : Instr) (is : List Inst) : Prop :=
  ∃ guards : List Inst, is = u.polls i ++ guards ++ [⟨⟨i.ip, 0⟩, .begin_ i.next⟩] ∧
    ∀ x ∈ guards, special ∧ ∃ v, x = ⟨⟨i.ip, 0⟩, .guardGlobals v⟩

/-- From an index on, the operations and the way out of a block spell instructions that
    follow one another. -/
inductive Spells : Nat → List Instr → List Inst → Terminator → Prop
  | falls {ip b} : leads ip b → Spells ip [] [] (.goto b)
  | off : Spells u.stop [] [] (.trap u.stop)
  | exit {i o is t} : Opening u special i o → Body u sets leads special i 0 i.prims is (some t) →
      Spells i.ip [i] (o ++ is) t
  | next {i o is js is' t} : Opening u special i o →
      Body u sets leads special i 0 i.prims is none → Spells i.next js is' t →
      Spells i.ip (i :: js) (o ++ (is ++ is')) t

/-- A block spells instructions, at least one, from its start on. -/
def SpellsBlock (js : List Instr) (blk : GraphBlock) : Prop :=
  js ≠ [] ∧ Spells u sets leads special blk.start js blk.insts blk.term

end

/-- A block is in the graph, and starts at an index. -/
def Graph.StartsAt (g : Graph) (ip : Nat) (b : BlockId) : Prop :=
  ∃ blk, g.blocks[b]? = some blk ∧ blk.start = ip

/-- A handler is the one that is set up at an index, and the block that handles starts at
    the target. -/
def Graph.Handles (g : Graph) (h : HandlerId) (ip : Nat) (kind : BlockKind) (target : Nat) :
    Prop :=
  ∃ hd, g.handlers[h]? = some hd ∧ hd.setupIp = ip ∧ hd.kind = kind ∧ hd.targetIp = target ∧
    g.StartsAt target hd.target

/-- The blocks of the graph hold the instructions of the unit, each once, in order. -/
structure Transcribes (u : CodeUnit) (special : Bool) (g : Graph) : Prop where
  numbered : ∀ b (blk : GraphBlock), g.blocks[b]? = some blk → blk.id = b
  first : g.StartsAt 0 0
  ascending : (g.blocks.toList.map (·.start)).Pairwise (· < ·)
  /-- every handler is that of an instruction, and its block starts at the target -/
  handlers : ∀ hd ∈ g.handlers, hd.SetUp u ∧ g.StartsAt hd.targetIp hd.target
  /-- a block starts wherever a primitive goes to, a `continue` included -/
  targets : ∀ i ∈ u.instrs.toList, ∀ p ∈ i.prims, ∀ target, p.target? i.next = some target →
    ∃ b, g.StartsAt target b
  entry : g.entry = 0
  /-- the blocks one after another spell the instructions one after another -/
  spelled : ∃ pieces : List (List Instr), pieces.flatten = u.instrs.toList ∧
    List.Forall₂ (SpellsBlock u g.Handles g.StartsAt special) pieces g.blocks.toList
  /-- every suspending instruction resumes in the block of the next one -/
  resume : List.Forall₂ (fun i r => r.1 = i.ip ∧ g.StartsAt i.next r.2)
    (u.instrs.toList.filter (·.yields)) g.resume

variable {u : CodeUnit} {sets sets' : HandlerId → Nat → BlockKind → Nat → Prop}
  {leads leads' : Nat → BlockId → Prop} {special : Bool}

/-! ### More is known to be set up, and to lead where it should -/

theorem StandsFor.mono (hs : ∀ h ip kind target, sets h ip kind target → sets' h ip kind target)
    {i : Instr} {op : Op} {p : Primitive} (h : StandsFor sets special i op p) :
    StandsFor sets' special i op p := by
  cases h with
  | same hp => exact .same hp
  | setup hk ht hh => exact .setup hk ht (hs _ _ _ _ hh)
  | cached hs hp => exact .cached hs hp
  | call hs => exact .call hs
  | int hs hp => exact .int hs hp

theorem Exits.mono (hl : ∀ ip b, leads ip b → leads' ip b) {i : Instr} {k : Nat} {p : Primitive}
    {t : Terminator} (h : Exits u leads i k p t) : Exits u leads' i k p t := by
  rw [← t.mapBlocks_id]
  exact h.mapBlocks fun b _ ip => hl ip b

theorem Body.mono (hs : ∀ h ip kind target, sets h ip kind target → sets' h ip kind target)
    (hl : ∀ ip b, leads ip b → leads' ip b) {i : Instr} {k : Nat} {ps : List Primitive}
    {is : List Inst} {t : Option Terminator} (h : Body u sets leads special i k ps is t) :
    Body u sets' leads' special i k ps is t := by
  induction h with
  | nil => exact .nil
  | op he hp _ ih => exact .op he (hp.mono hs) ih
  | exit hx hsp => exact .exit (hx.mono hl) hsp

theorem Spells.mono (hs : ∀ h ip kind target, sets h ip kind target → sets' h ip kind target)
    (hl : ∀ ip b, leads ip b → leads' ip b) {ip : Nat} {js : List Instr} {is : List Inst}
    {t : Terminator} (h : Spells u sets leads special ip js is t) :
    Spells u sets' leads' special ip js is t := by
  induction h with
  | falls hb => exact .falls (hl _ _ hb)
  | off => exact .off
  | exit ho hb => exact .exit ho (hb.mono hs hl)
  | next ho hb _ ih => exact .next ho (hb.mono hs hl) ih

namespace Lowering

/-! ## Emission -/

namespace Context

variable {c : Context} {i : Instr} {k : Nat} {p : Primitive} {e e' : Emission}

/-- The emission leaves the resume table alone. -/
def KeepsResume {α : Type} (x : Emit α) : Prop :=
  ∀ ⦃e a e'⦄, x e = .ok (a, e') → e'.resume = e.resume

namespace KeepsResume

variable {α β : Type}

theorem ret (a : α) : KeepsResume (pure a : Emit α) := by
  rintro e b e' h
  cases h
  rfl

theorem bind {x : Emit α} {f : α → Emit β} (hx : KeepsResume x) (hf : ∀ a, KeepsResume (f a)) :
    KeepsResume (x >>= f) := by
  intro e b e' h
  obtain ⟨a, e₁, ha, hb⟩ := emit_bind_ok.mp h
  exact (hf a hb).trans (hx ha)

theorem lift (x : Except CompileError α) : KeepsResume (liftM x : Emit α) := by
  intro e a e' h
  obtain ⟨-, rfl⟩ := emit_lift_ok.mp h
  rfl

theorem fail (err : CompileError) : KeepsResume (throw err : Emit α) := nofun

theorem assumeGlobal (index : Nat) : KeepsResume (c.assumeGlobal index) := by
  unfold Context.assumeGlobal
  split
  · rename_i globals builtins _
    split
    · rename_i name _
      intro e a e' h
      obtain ⟨_, _, hget, h⟩ := emit_bind_ok.mp h
      cases hget
      dsimp only at h
      cases hfind : e.assumptions.findIdx? (·.name == name) with
      | some n =>
        rw [hfind] at h
        cases h
        rfl
      | none =>
        rw [hfind] at h
        cases hg : (c.heap.space globals).get? name with
        | some v =>
          rw [hg] at h
          cases h
          rfl
        | none =>
          cases hb : (c.heap.space builtins).get? name <;> rw [hg, hb] at h <;> cases h <;> rfl
    · exact ret _
  · exact ret _

theorem cachedLoad? (i : Instr) : KeepsResume (c.cachedLoad? i) := by
  unfold Context.cachedLoad?
  split
  · split
    · exact assumeGlobal _
    · exact ret _
  · exact ret _

end KeepsResume

/-- Without specialization nothing is assumed. -/
theorem cachedLoad?_plain (plain : c.specializes = false) : c.cachedLoad? i = pure none := by
  unfold cachedLoad?
  split
  · rw [plain]
    rfl
  · rfl

/-- What is emitted for a primitive stands for it. -/
theorem Makes.stands (hc : c.Sound) (hi : c.unit.instrAt? i.ip = some i) (hp : p ∈ i.prims)
    {cached : Option Nat} (hk : cached = none ∨ c.specializes) {op : Op}
    (h : c.Makes cached i k p op) : StandsFor (SetBy c.handlers) c.specializes i op p := by
  cases h with
  | plain none => exact .same none
  | cached hop some =>
    refine .cached (hk.resolve_left fun none => ?_) hop
    rw [none] at some
    cases some
  | setup hset hh =>
    obtain ⟨kind, target, hk, ht, hs⟩ := handlerAt_ok hc hi (hc.unit.setup_alone hi hp hset) hh
    exact .setup hk ht hs
  | direct hop harg high =>
    obtain ⟨op, arg⟩ := p
    cases hop
    cases harg
    exact .call high
  | ints hop high => exact hc.unit.operator_plain hi hp hop ▸ .int high hop

/-- Whatever way out is emitted has the property. -/
def Answers (P : Terminator → Prop) (x : Emit Terminator) : Prop :=
  ∀ ⦃e t e'⦄, x e = .ok (t, e') → P t

namespace Answers

variable {P : Terminator → Prop}

theorem ret {t : Terminator} (h : P t) : Answers P (pure t) := by
  rintro e t' e' h'
  cases h'
  exact h

theorem after {α : Type} {x : Emit α} {f : α → Emit Terminator} (hf : ∀ a, Answers P (f a)) :
    Answers P (x >>= f) := by
  intro e t e' h
  obtain ⟨a, e₁, -, h⟩ := emit_bind_ok.mp h
  exact hf a h

theorem fail {err : CompileError} : Answers P (throw err) := nofun

end Answers

/-- Feedback decided whether one way out is expected. -/
def ChosenExit (c : Context) : Terminator → Prop
  | .speculate _ _ site way _ => c.speculation? site = some way
  | .branch op _ site _ _ => op.isPopJump → c.speculation? site = none
  | _ => True

theorem terminatorOf_chosen (c : Context) (i : Instr) (site : Site) (p : Primitive) :
    Answers c.ChosenExit (c.terminatorOf i site p) := by
  unfold terminatorOf
  dsimp only
  split
  case h_3 | h_4 =>
    refine .after fun _ => .after fun _ => .after fun _ => ?_
    split
    · exact .ret ‹_›
    · exact .ret fun _ => ‹_›
  case h_5 hop | h_6 hop =>
    refine .after fun _ => .after fun _ => .after fun _ => .ret fun pops => ?_
    rw [hop] at pops
    cases pops
  case h_7 => exact .after fun _ => .after fun _ => .after fun _ => .ret trivial
  case h_8 | h_11 | h_12 | h_13 => exact .ret trivial
  case h_9 => exact .after fun _ => .after fun _ => .ret trivial
  case h_10 =>
    split
    · exact .after fun _ => .ret trivial
    · exact .ret trivial
  case h_14 => exact .fail
  all_goals exact .after fun _ => .ret trivial

/-- A way out expects one way only if the level specializes. -/
theorem terminatorOf_speculates (c : Context) (i : Instr) (site : Site) (p : Primitive) :
    Answers (fun t => t.isSpeculation → c.specializes) (c.terminatorOf i site p) := by
  intro e t e' h special
  cases t with
  | speculate op arg s way next =>
    have expected : c.speculation? s = some way := terminatorOf_chosen c i site p h
    unfold speculation? at expected
    split at expected
    · exact ((Bool.and_eq_true _ _).mp ‹_›).1
    · cases expected
  | _ => cases special

/-- A way out is noted in the resume table if it suspends the frame. -/
theorem terminatorOf_resume {site : Site} {t : Terminator}
    (h : c.terminatorOf i site p e = .ok (t, e')) :
    (p.op ≠ .yieldValue ∧ e'.resume = e.resume) ∨ (p.op = .yieldValue ∧
      ∃ b, c.Starts i.next b ∧ e'.resume = e.resume ++ [(i.ip, b)]) := by
  by_cases hop : p.op = .yieldValue
  · refine .inr ⟨hop, ?_⟩
    unfold terminatorOf at h
    dsimp only at h
    rw [hop] at h
    obtain ⟨b, hb, h⟩ := emit_lift_bind_ok.mp h
    cases h
    exact ⟨b, nextBlock_ok hb, rfl⟩
  · have kept : KeepsResume (c.terminatorOf i site p) := by
      unfold terminatorOf
      dsimp only
      split
      case h_3 | h_4 =>
        refine .bind (.lift _) fun _ => .bind (.lift _) fun _ => .bind (.lift _) fun _ => ?_
        split <;> exact .ret _
      case h_5 | h_6 | h_7 =>
        exact .bind (.lift _) fun _ => .bind (.lift _) fun _ => .bind (.lift _) fun _ => .ret _
      case h_8 | h_11 | h_12 | h_13 => exact .ret _
      case h_9 => contradiction
      case h_10 =>
        split
        · exact .bind (.lift _) fun _ => .ret _
        · exact .ret _
      case h_14 => exact .fail _
      all_goals exact .bind (.lift _) fun _ => .ret _
    exact .inl ⟨hop, kept h⟩

/-! ## Instructions -/

/-- What the instructions that suspend their frame add to the resume table. -/
def Suspends (c : Context) (is : List Instr) (added : List (Nat × BlockId)) : Prop :=
  List.Forall₂ (fun i r => r.1 = i.ip ∧ c.Starts i.next r.2) (is.filter (·.yields)) added

theorem Suspends.append {is js : List Instr} {added more : List (Nat × BlockId)}
    (h : c.Suspends is added) (h' : c.Suspends js more) : c.Suspends (is ++ js) (added ++ more) := by
  unfold Suspends at *
  rw [List.filter_append]
  exact List.rel_append h h'

/-- What is emitted for the primitives of an instruction stands for them. -/
theorem emitPrims_body (hc : c.Sound) (hi : c.unit.instrAt? i.ip = some i) {cached : Option Nat}
    (hk : cached = none ∨ c.specializes) :
    ∀ (ps : List Primitive) (k : Nat), ps <:+ i.prims → ∀ {is : List Inst}
      {term : Option Terminator} {e e' : Emission},
      c.emitPrims cached i k ps e = .ok ((is, term), e') →
      Body c.unit (SetBy c.handlers) c.Starts c.specializes i k ps is term ∧
      ∃ added, e'.resume = e.resume ++ added ∧
        List.Forall₂ (fun i r => r.1 = i.ip ∧ c.Starts i.next r.2)
          (if ps.any (·.op == .yieldValue) then [i] else []) added
  | [], k, _, is, term, e, e', h => by
    cases h
    exact ⟨.nil, [], by simp, .nil⟩
  | p :: ps, k, hps, is, term, e, e', h => by
    have hp : p ∈ i.prims := hps.subset List.mem_cons_self
    unfold emitPrims at h
    dsimp only at h
    split at h
    · rename_i hlast
      simp only [Bool.and_eq_true, List.isEmpty_iff] at hlast
      obtain ⟨rfl, -⟩ := hlast
      obtain ⟨t, e₁, ht, h⟩ := emit_bind_ok.mp h
      cases h
      refine ⟨.exit (terminatorOf_ok hc hi hp ht).1 (terminatorOf_speculates _ _ _ _ ht), ?_⟩
      obtain ⟨hop, hr⟩ | ⟨hop, b, hb, hr⟩ := terminatorOf_resume ht
      · exact ⟨[], by rw [hr, List.append_nil], by simp [hop]⟩
      · exact ⟨[(i.ip, b)], hr, by simp [hop, hb]⟩
    · rename_i hmore
      obtain ⟨op, e₁, hop, h⟩ := emit_bind_ok.mp h
      obtain ⟨⟨is', term'⟩, e₂, hrest, h⟩ := emit_bind_ok.mp h
      cases h
      obtain ⟨makes, -, kept⟩ := operationOf_makes hop
      have stands := makes.stands hc hi hp hk
      obtain ⟨body, added, hadded, all⟩ := emitPrims_body hc hi hk ps (k + 1)
        ((List.suffix_cons p ps).trans hps) hrest
      have inner : endsBlock p.op = false := by
        cases ps with
        | nil => simpa using hmore
        | cons q ps => exact hc.unit.inner_goes_on hi hps
      refine ⟨.op inner stands body, added, by rw [hadded, kept], ?_⟩
      -- an instruction that suspends the frame does nothing else
      have other : p.op ≠ .yieldValue := by
        intro hy
        obtain rfl := List.tail_eq_of_cons_eq (hc.unit.alone hi hps List.mem_cons_self
          (by rw [hy]; rfl))
        exact hmore (by rw [hy]; rfl)
      simpa [other] using all

/-- What is emitted for an instruction opens it, and then stands for its primitives. -/
theorem emitInstr_spells (hc : c.Sound) (hb : c.backedges = backedgeTargets c.unit)
    (hi : c.unit.instrAt? i.ip = some i) {is : List Inst} {term : Option Terminator}
    (h : c.emitInstr i e = .ok ((is, term), e')) :
    (∃ o is', is = o ++ is' ∧ Opening c.unit c.specializes i o ∧
      Body c.unit (SetBy c.handlers) c.Starts c.specializes i 0 i.prims is' term) ∧
    ∃ added, e'.resume = e.resume ++ added ∧ c.Suspends [i] added := by
  unfold emitInstr at h
  dsimp only at h
  obtain ⟨cached, e₁, hcached, h⟩ := emit_bind_ok.mp h
  obtain ⟨_, _, hget, h⟩ := emit_bind_ok.mp h
  cases hget
  obtain ⟨⟨is₂, term₂⟩, e₂, hprims, h⟩ := emit_bind_ok.mp h
  cases h
  have kept : e₁.resume = e.resume := KeepsResume.cachedLoad? i hcached
  have hk : cached = none ∨ c.specializes := by
    cases hs : c.specializes with
    | true => exact .inr rfl
    | false =>
      rw [cachedLoad?_plain hs] at hcached
      cases hcached
      exact .inl rfl
  obtain ⟨body, added, hadded, all⟩ := emitPrims_body hc hi hk i.prims 0 List.suffix_rfl hprims
  refine ⟨?_, added, by rw [hadded, kept], ?_⟩
  · have opened {guards : List Inst} {is : List Inst}
        (special : ∀ x ∈ guards, c.specializes ∧ ∃ v, x = ⟨⟨i.ip, 0⟩, .guardGlobals v⟩)
        (his : is = c.unit.polls i ++ guards ++ ⟨⟨i.ip, 0⟩, .begin_ i.next⟩ :: is₂) :
        ∃ o is', is = o ++ is' ∧ Opening c.unit c.specializes i o ∧
          Body c.unit (SetBy c.handlers) c.Starts c.specializes i 0 i.prims is' term₂ :=
      ⟨c.unit.polls i ++ guards ++ [⟨⟨i.ip, 0⟩, .begin_ i.next⟩], is₂,
        by rw [his, List.append_assoc _ [_]]; rfl, ⟨guards, rfl, special⟩, body⟩
    rw [hb]
    cases assumed : cached.bind (e₁.assumptions[·]?) with
    | none => exact opened (fun x hx => absurd hx List.not_mem_nil) rfl
    | some a =>
      have specializes : c.specializes := by
        obtain rfl | hs := hk
        · cases assumed
        · exact hs
      refine opened (fun x hx => ?_) rfl
      obtain rfl := List.mem_singleton.mp hx
      exact ⟨specializes, _, rfl⟩
  · unfold Suspends
    rw [List.filter_singleton, Bool.cond_eq_ite]
    exact all

/-! ## Blocks -/

/-- What becomes of the block being filled, if there is one, and the instructions that go
    into it from an index on. -/
inductive Continued (c : Context) (ip : Nat) :
    Option GraphBlock → List Instr → List GraphBlock → Prop
  | none : Continued c ip none [] []
  | some {b js is t} :
      Spells c.unit (SetBy c.handlers) c.Starts c.specializes ip js is t →
      Continued c ip (some b) js [{ b with insts := b.insts ++ is, term := t }]

/-- What the rest of the instructions adds: they go into the block being filled, and then
    each piece of them into a block of its own. -/
structure Writes (c : Context) (ip : Nat) (is : List Instr) (current : Option GraphBlock)
    (done blocks head tail : List GraphBlock) (mine : List Instr) (pieces : List (List Instr)) :
    Prop where
  all : blocks = done ++ (head ++ tail)
  parts : is = mine ++ pieces.flatten
  continued : c.Continued ip current mine head
  spelled : List.Forall₂ (SpellsBlock c.unit (SetBy c.handlers) c.Starts c.specializes) pieces tail

theorem emitBlocks_spells (hc : c.Sound) (hb : c.backedges = backedgeTargets c.unit) (a : Analysis)
    {ip : Nat} {is : List Instr} (his : Code.Contiguous c.unit.words ip is)
    (hin : ∀ i ∈ is, c.unit.instrAt? i.ip = some i)
    (hstop : (is.getLast?.map (·.next)).getD ip = c.unit.stop) {current : Option GraphBlock}
    {done blocks : Array GraphBlock} {e e' : Emission}
    (hcur : ∀ b, current = some b → b.term = .trap c.unit.stop)
    (h : c.emitBlocks a is current done e = .ok (blocks, e')) :
    (∃ head tail mine pieces,
      c.Writes ip is current done.toList blocks.toList head tail mine pieces) ∧
    ∃ added, e'.resume = e.resume ++ added ∧ c.Suspends is added := by
  induction his generalizing current done blocks e e' with
  | @nil ip _ =>
    cases h
    refine ⟨?_, [], by simp, .nil⟩
    cases current with
    | none => exact ⟨[], [], [], [], by simp, rfl, .none, .nil⟩
    | some b =>
      obtain rfl : ip = c.unit.stop := hstop
      refine ⟨[b], [], [], [], by simp, rfl, ?_, .nil⟩
      have closes : c.Continued c.unit.stop (some b) []
          [{ b with insts := b.insts ++ [], term := .trap c.unit.stop }] := .some .off
      rwa [List.append_nil, ← hcur b rfl] at closes
  | @cons i is hlt hdec hrest ih =>
    have hi := hin i List.mem_cons_self
    have ih := @ih (fun j hj => hin j (List.mem_cons_of_mem i hj)) (by
      cases is with
      | nil => exact hstop
      | cons j js => rwa [List.getLast?_cons_cons] at hstop)
    -- the instruction goes into a block, and so do those after it until one ends the block
    have fill {b : GraphBlock} {done : Array GraphBlock} {e : Emission}
        (hterm : b.term = .trap c.unit.stop)
        (h : c.fill a i is b done e = .ok (blocks, e')) :
        (∃ js is' t tail pieces,
          blocks.toList = done.toList ++ { b with insts := b.insts ++ is', term := t } :: tail ∧
          i :: is = (i :: js) ++ pieces.flatten ∧
          Spells c.unit (SetBy c.handlers) c.Starts c.specializes i.ip (i :: js) is' t ∧
          List.Forall₂ (SpellsBlock c.unit (SetBy c.handlers) c.Starts c.specializes) pieces
            tail) ∧
        ∃ added, e'.resume = e.resume ++ added ∧ c.Suspends (i :: is) added := by
      obtain ⟨⟨insts, term⟩, e₁, hinstr, h⟩ := emit_bind_ok.mp h
      obtain ⟨⟨o, is', rfl, opens, body⟩, first, hfirst, suspends⟩ :=
        emitInstr_spells hc hb hi hinstr
      cases term with
      | some t =>
        obtain ⟨⟨head, tail, mine, pieces, writes⟩, more, hmore, rest⟩ :=
          ih (fun b' h => by cases h) h
        obtain ⟨all, parts, continued, spelled⟩ := writes
        cases continued
        refine ⟨⟨[], o ++ is', t, tail, pieces, by simpa using all, by rw [parts]; rfl,
          .exit opens body, spelled⟩, first ++ more, ?_, suspends.append rest⟩
        rw [hmore, hfirst, List.append_assoc]
      | none =>
        obtain ⟨⟨head, tail, mine, pieces, writes⟩, more, hmore, rest⟩ :=
          ih (fun b' h => by cases h; exact hterm) h
        obtain ⟨all, parts, continued, spelled⟩ := writes
        cases continued with
        | @some _ _ is'' t spells =>
          refine ⟨⟨mine, o ++ (is' ++ is''), t, tail, pieces, by simpa using all,
            by rw [parts]; rfl, .next opens body spells, spelled⟩, first ++ more, ?_,
            suspends.append rest⟩
          rw [hmore, hfirst, List.append_assoc]
    have opened (head : List GraphBlock) {done₁ : Array GraphBlock}
        (hdone : done₁.toList = done.toList ++ head) (continued : c.Continued i.ip current [] head)
        (h : c.fill a i is (c.newBlock a done₁.size i) done₁ e = .ok (blocks, e')) :
        (∃ head tail mine pieces,
          c.Writes i.ip (i :: is) current done.toList blocks.toList head tail mine pieces) ∧
        ∃ added, e'.resume = e.resume ++ added ∧ c.Suspends (i :: is) added := by
      obtain ⟨⟨js, is', t, tail, pieces, all, parts, spells, spelled⟩, resume⟩ :=
        fill (b := c.newBlock a done₁.size i) rfl h
      refine ⟨⟨head, _ :: tail, [], (i :: js) :: pieces,
        by rw [all, hdone, List.append_assoc], parts, continued, .cons ?_ spelled⟩, resume⟩
      exact ⟨List.cons_ne_nil i js, spells⟩
    obtain ⟨-, rfl, hf⟩ | ⟨-, b, next, rfl, hnext, _, rfl, hf⟩ | ⟨-, b, rfl, hf⟩ :=
      emitBlocks_cons h
    · exact opened [] (by simp) .none hf
    · refine opened [{ b with term := .goto next }] (by simp) ?_ hf
      have closes : c.Continued i.ip (some b) []
          [{ b with insts := b.insts ++ [], term := .goto next }] := .some (.falls hnext)
      rwa [List.append_nil] at closes
    · obtain ⟨⟨js, is', t, tail, pieces, all, parts, spells, spelled⟩, resume⟩ :=
        fill (hcur b rfl) hf
      exact ⟨⟨_, tail, i :: js, pieces, by simpa using all, parts, .some spells, spelled⟩, resume⟩

end Context

/-- The block that handles starts at the target of the setup. -/
theorem placedHandlers_placed {starts : Array Nat} {a : Analysis} {hs : Array Handler}
    (h : placedHandlers u starts a = .ok hs) : ∀ hd ∈ hs, starts[hd.target]? = some hd.targetIp := by
  unfold placedHandlers at h
  obtain ⟨more, -, h⟩ := except_bind_ok.mp h
  rw [Array.mapM_eq_mapM_toList] at h
  obtain ⟨l, hl, h⟩ := except_bind_ok.mp h
  cases h
  intro hd hmem
  obtain ⟨hd', -, h⟩ := exists_of_mem_mapM hl (List.mem_toArray.mp hmem)
  obtain ⟨b, hb, h⟩ := except_bind_ok.mp h
  cases h
  exact blockId_ok hb

end Lowering

open Lowering

/-! ## Graphs -/

variable {h : Heap} {feedback : Feedback} {opts : LowerOptions} {g : Graph}

theorem Graph.startsAt_iff {ip : Nat} {b : BlockId} :
    g.StartsAt ip b ↔ (g.blocks.toList.map (·.start))[b]? = some ip := by
  unfold StartsAt
  rw [List.getElem?_map, Array.getElem?_toList]
  exact Option.map_eq_some_iff.symm

/-- **Graphs that are lowered transcribe their units.**  Operations are special only at the
    highest level. -/
theorem lowerPlain_transcribes (hu : u.Checked) (hg : lowerPlain h u feedback opts = .ok g) :
    Transcribes u (opts.level.atLeast .o2) g := by
  obtain ⟨c, a, e, from_, -⟩ := lowerPlain_ok hu hg
  have starts : g.blocks.toList.map (·.start) = (leaders u).toList := by
    rw [from_.starts, from_.leaders]
  have startsAt {ip : Nat} {b : BlockId} (hb : (leaders u)[b]? = some ip) : g.StartsAt ip b := by
    rw [Graph.startsAt_iff, starts, Array.getElem?_toList]
    exact hb
  have numbered : ∀ b (blk : GraphBlock), g.blocks[b]? = some blk → blk.id = b :=
    fun b blk hblk => (from_.filled b blk hblk).id
  have ascending : (g.blocks.toList.map (·.start)).Pairwise (· < ·) := by
    rw [starts]
    exact leaders_pairwise u
  unfold lowerPlain at hg
  dsimp only at hg
  split at hg
  · cases hg
  obtain ⟨a, ha, hg⟩ := except_bind_ok.mp hg
  obtain ⟨hs, hhs, hg⟩ := except_bind_ok.mp hg
  obtain ⟨⟨blocks, e⟩, hb, hg⟩ := except_bind_ok.mp hg
  cases hg
  have setUp := placedHandlers_setUp hu (hu.analyze_settled ha).setUp hhs
  have placed := placedHandlers_placed hhs
  obtain ⟨⟨head, tail, mine, pieces, writes⟩, added, hadded, suspends⟩ :=
    Context.emitBlocks_spells
      (c := ⟨h, u, feedback, opts, leaders u, backedgeTargets u, hs⟩)
      ⟨hu, setUp⟩ rfl a hu.contiguous
      (fun i hi => hu.instrAt?_of_mem hi) (by
        unfold CodeUnit.stop
        rw [← Array.getLast?_toList]) (fun _ h => by cases h) hb
  obtain ⟨all, parts, continued, spelled⟩ := writes
  cases continued
  obtain rfl : blocks.toList = tail := all
  have targets : ∀ i ∈ u.instrs.toList, ∀ p ∈ i.prims, ∀ target, p.target? i.next = some target →
      ∃ b : BlockId, (leaders u)[b]? = some target := by
    intro i hi p hp target ht
    obtain ⟨j, hj⟩ := Option.isSome_iff_exists.mp (hu.target_isSome (hu.instrAt?_of_mem hi) hp ht)
    have leader : target ∈ leaders u := mem_leaders.mpr ⟨hu.ip_lt hj, .inr ⟨i, hi,
      List.mem_append_left _ (List.mem_filterMap.mpr ⟨p, hp, ht⟩)⟩⟩
    exact Array.mem_iff_getElem?.mp leader
  refine ⟨numbered, startsAt (leaders_zero hu), ascending,
    fun hd hmem => ⟨setUp hd hmem, startsAt (placed hd hmem)⟩,
    fun i hi p hp target ht => (targets i hi p hp target ht).imp fun _ => startsAt, rfl,
    ⟨pieces, parts.symm, ?_⟩, ?_⟩
  · refine spelled.imp fun js blk spells => ⟨spells.1, spells.2.mono (fun hd ip kind target set => ?_)
      fun ip b hb => startsAt hb⟩
    obtain ⟨hfind, hkind, htarget⟩ := set
    obtain ⟨hlt, hip, -⟩ := Array.findIdx?_eq_some_iff_getElem.mp hfind
    have get : hs[hd]?.getD default = hs[hd] := by simp [hlt]
    rw [get] at hkind htarget
    refine ⟨hs[hd], Array.getElem?_eq_getElem hlt, eq_of_beq hip, hkind, htarget, startsAt ?_⟩
    rw [← htarget]
    exact placed _ (Array.getElem_mem hlt)
  · have resume : e.resume = added := hadded
    rw [resume]
    exact suspends.imp fun i r hr => ⟨hr.1, startsAt hr.2⟩

/-- **Without specialization, the graph of a unit transcribes it**, whatever feedback there
    is: nothing but the instructions of the unit and the polls before them is in its
    blocks. -/
theorem lower_transcribes {id : Ref} {parts : CodeParts} (hu : CodeUnit.ofParts id parts = .ok u)
    (plain : opts.level = .o0) (hg : lower h u feedback opts = .ok g) :
    Transcribes u false g := by
  obtain ⟨g₀, hg₀, hout⟩ := except_bind_ok.mp hg
  rw [plain] at hout
  obtain rfl : g₀ = g := Except.ok.inj hout
  have transcribed := lowerPlain_transcribes (CodeUnit.checked_of_ofParts hu).2 hg₀
  rwa [plain] at transcribed

/-! ### A generator -/

/-- The parts of a unit that yields each item of its argument. -/
def CodeParts.each : CodeParts where
  name := "each"
  argcount := 1
  flags := .generator
  words := #[.ofOpcode .setupLoop, ⟨21⟩, .ofOpcode .loadFast, ⟨1⟩, .ofOpcode .getIter,
    .ofOpcode .forIter, ⟨9⟩, .ofOpcode .yieldValue, .ofOpcode .popTop, .ofOpcode .jumpAbsolute,
    ⟨11⟩, .ofOpcode .popBlock, .ofOpcode .loadConst, ⟨1⟩, .ofOpcode .returnValue]
  consts := #[.none]
  varnames := #["items"]

/-- The unit with these parts. -/
def CodeUnit.each : CodeUnit := (CodeUnit.ofParts 0 .each).toOption.getD default

/-- Its graph. -/
def Graph.each : Graph := (lower {} .each {} { level := .o0 }).toOption.getD default

theorem lower_transcribes_of_each :
    CodeUnit.ofParts 0 .each = .ok .each ∧ lower {} .each {} { level := .o0 } = .ok .each ∧
    Graph.each.resume = [(7, 3)] ∧ Transcribes .each false .each := by
  have built : CodeUnit.ofParts 0 .each = .ok .each := eq_ok_of_isSome (by decide +kernel)
  have lowered : lower {} .each {} { level := .o0 } = .ok .each :=
    eq_ok_of_isSome (by decide +kernel)
  exact ⟨built, lowered, by decide +kernel, lower_transcribes built rfl lowered⟩

end TieredMachine
