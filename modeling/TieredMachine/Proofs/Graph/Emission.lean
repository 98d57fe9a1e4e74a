/-
  Emission is faithful.

  The operations that are emitted for an instruction do what its primitives do, and the
  way out of the block what the last one does.  Blocks refer to one another by the
  numbers of their leaders.

  * `emit_bind_ok`, `emit_lift_ok`: steps of emission;
  * `Context.Sound`: what emission relies on;
  * `Context.Makes`, `operationOf_makes`: the operations that are emitted;
  * `Makes.performs`, `terminatorOf_ok`, `emitInstr_ok`: what they do;
  * `emitBlocks_cons`, `emitBlocks_ok`: all blocks.
-/
import TieredMachine.Proofs.Graph.Place
import TieredMachine.Proofs.Graph.Leaders
import TieredMachine.Proofs.Graph.Analysis

namespace TieredMachine

/-! ## Primitives of an instruction -/

namespace CodeUnit.Checked

variable {u : CodeUnit} {ip : Nat} {i : Instr} {p : Primitive}

/-- An operator takes no argument. -/
theorem operator_plain (hu : u.Checked) (hi : u.instrAt? ip = some i) (hp : p ∈ i.prims)
    (hop : p.op.operator?.isSome) : p = ⟨p.op, none⟩ := by
  have takes : ∀ op : Opcode, op.operator?.isSome → op.hasArg = false := by
    intro op
    cases op <;> decide
  have harg := (hu.primitives hi).2 p hp
  rw [takes p.op hop] at harg
  obtain ⟨op, arg⟩ := p
  cases arg with
  | none => rfl
  | some arg => cases harg

/-- Only the last primitive of an instruction ends a block. -/
theorem inner_goes_on (hu : u.Checked) (hi : u.instrAt? ip = some i) {q : Primitive}
    {ps : List Primitive} (hps : p :: q :: ps <:+ i.prims) :
    Lowering.endsBlock p.op = false := by
  have last : ∀ op : Opcode, ∀ q ∈ op.primitives.dropLast, Lowering.endsBlock q = false := by
    intro op
    cases op <;> decide
  refine last i.op p.op ?_
  rw [← (hu.primitives hi).1]
  obtain ⟨front, whole⟩ := hps
  rw [← whole, List.map_append, List.map_cons, List.map_cons,
    List.dropLast_append_of_ne_nil (List.cons_ne_nil _ _), List.dropLast_cons_cons]
  exact List.mem_append_right _ List.mem_cons_self

end CodeUnit.Checked

namespace Lowering

/-! ## Steps of emission -/

section

variable {α β : Type} {e e' : Emission}

theorem emit_bind_ok {x : Emit α} {f : α → Emit β} {b : β} :
    (x >>= f) e = .ok (b, e') ↔ ∃ a e₁, x e = .ok (a, e₁) ∧ f a e₁ = .ok (b, e') := by
  show (x e >>= fun p => f p.1 p.2) = .ok (b, e') ↔ _
  rw [except_bind_ok]
  constructor
  · rintro ⟨⟨a, e₁⟩, h, h'⟩
    exact ⟨a, e₁, h, h'⟩
  · rintro ⟨a, e₁, h, h'⟩
    exact ⟨(a, e₁), h, h'⟩

theorem emit_lift_ok {x : Except CompileError α} {a : α} :
    (liftM x : Emit α) e = .ok (a, e') ↔ x = .ok a ∧ e' = e := by
  show (x >>= fun a => .ok (a, e)) = .ok (a, e') ↔ _
  rw [except_bind_ok]
  constructor
  · rintro ⟨b, h, h'⟩
    cases h'
    exact ⟨h, rfl⟩
  · rintro ⟨h, rfl⟩
    exact ⟨a, h, rfl⟩

theorem emit_lift_bind_ok {x : Except CompileError α} {f : α → Emit β} {b : β} :
    ((liftM x : Emit α) >>= f) e = .ok (b, e') ↔ ∃ a, x = .ok a ∧ f a e = .ok (b, e') := by
  rw [emit_bind_ok]
  constructor
  · rintro ⟨a, e₁, h, h'⟩
    obtain ⟨hx, rfl⟩ := emit_lift_ok.mp h
    exact ⟨a, hx, h'⟩
  · rintro ⟨a, hx, h⟩
    exact ⟨a, e, emit_lift_ok.mpr ⟨hx, rfl⟩, h⟩

end

theorem required_ok {α : Type} {ip : Nat} {o : Option α} {a : α} (h : required ip o = .ok a) :
    o = some a := by
  unfold required at h
  split at h <;> cases h
  rfl

namespace Context

variable {c : Context} {i : Instr} {k : Nat} {p : Primitive} {e e' : Emission}

/-- What emission relies on. -/
structure Sound (c : Context) : Prop where
  unit : c.unit.Checked
  handlers : ∀ h ∈ c.handlers, h.SetUp c.unit

/-- Control at an index goes on in the block of a leader. -/
def Starts (c : Context) (ip : Nat) (b : BlockId) : Prop := c.leaders[b]? = some ip

/-- What emission collects. -/
structure Collected (c : Context) (e : Emission) : Prop where
  assumed : ∀ a ∈ e.assumptions, a.HoldsIn c.heap
  resume : ∀ ip b, (ip, b) ∈ e.resume → ∃ i, c.unit.instrAt? ip = some i ∧ c.Starts i.next b

theorem handlerAt_ok (hc : c.Sound) (hi : c.unit.instrAt? i.ip = some i) (hp : i.prims = [p])
    {h : HandlerId} (hh : c.handlerAt i.ip = .ok h) :
    ∃ kind target, p.op.blockKind? = some kind ∧ p.target? i.next = some target ∧
      SetBy c.handlers h i.ip kind target := by
  unfold handlerAt at hh
  split at hh
  · rename_i h' hfind
    cases hh
    obtain ⟨hlt, hip, -⟩ := Array.findIdx?_eq_some_iff_getElem.mp hfind
    obtain ⟨i', p', hi', hp', hk, ht⟩ := hc.handlers _ (Array.getElem_mem hlt)
    rw [eq_of_beq hip, hi] at hi'
    cases hi'
    rw [hp] at hp'
    cases hp'
    refine ⟨_, _, hk, ht, hfind, ?_, ?_⟩ <;> simp [hlt]
  · cases hh

/-- What is emitted for a primitive at position `k` of an instruction. -/
inductive Makes (c : Context) (cached : Option Nat) (i : Instr) (k : Nat) (p : Primitive) :
    Op → Prop
  /-- no more is known of it -/
  | plain : p.op.blockKind? = none →
      (p.op = .callFunction → p.arg.isSome → c.specializes →
        c.feedback.stableCallee? ⟨i.ip, k⟩ = none) →
      (p.op.operator?.isSome → c.specializes → c.feedback.intOperands? ⟨i.ip, k⟩ ≠ some true) →
      Makes c cached i k p (.prim p)
  | cached {a} : p.op = .loadGlobal → cached = some a → k = 0 →
      Makes c cached i k p (.loadCached a)
  | setup {h} : p.op.blockKind?.isSome → c.handlerAt i.ip = .ok h →
      Makes c cached i k p (.pushHandler h)
  | direct {arg v} : p.op = .callFunction → p.arg = some arg → c.specializes →
      c.feedback.stableCallee? ⟨i.ip, k⟩ = some v → Makes c cached i k p (.callDirect arg v)
  | ints : p.op.operator?.isSome → c.specializes →
      c.feedback.intOperands? ⟨i.ip, k⟩ = some true → Makes c cached i k p (.intBinary p.op)

/-- All that emission of an operation can do. -/
theorem operationOf_makes {cached : Option Nat} {op : Op}
    (h : c.operationOf cached i k p e = .ok (op, e')) :
    c.Makes cached i k p op ∧ e'.assumptions = e.assumptions ∧ e'.resume = e.resume := by
  have setup (hset : p.op.blockKind?.isSome)
      (h : (do return .pushHandler (← c.handlerAt i.ip) : Emit Op) e = .ok (op, e')) :
      c.Makes cached i k p op ∧ e'.assumptions = e.assumptions ∧ e'.resume = e.resume := by
    obtain ⟨h', hh, h⟩ := emit_lift_bind_ok.mp h
    cases h
    exact ⟨.setup hset hh, rfl, rfl⟩
  have plain (noSetup : p.op.blockKind? = none)
      (call : p.op = .callFunction → p.arg.isSome → c.specializes →
        c.feedback.stableCallee? ⟨i.ip, k⟩ = none)
      (operator : p.op.operator?.isSome → c.specializes →
        c.feedback.intOperands? ⟨i.ip, k⟩ ≠ some true) : c.Makes cached i k p (.prim p) :=
    .plain noSetup call operator
  generalize hx : c.operationOf cached i k p = x at h
  unfold operationOf at hx
  split at hx
  · rename_i a hop
    subst hx
    cases h
    refine ⟨?_, rfl, rfl⟩
    split
    · exact .cached hop rfl ‹_›
    · exact plain (by rw [hop]; rfl) (by rw [hop]; nofun) (by rw [hop]; nofun)
  · rename_i hop
    exact setup (by rw [hop]; rfl) (hx ▸ h)
  · rename_i hop
    exact setup (by rw [hop]; rfl) (hx ▸ h)
  · rename_i hop
    exact setup (by rw [hop]; rfl) (hx ▸ h)
  · rename_i hop
    have plain (general : p.arg.isSome → c.specializes →
        c.feedback.stableCallee? ⟨i.ip, k⟩ = none) :=
      plain (by rw [hop]; rfl) (fun _ => general) (by rw [hop]; nofun)
    cases harg : p.arg with
    | none =>
      simp only [harg] at hx
      subst hx
      cases h
      exact ⟨plain (by rw [harg]; nofun), rfl, rfl⟩
    | some arg =>
      cases hcallee : c.feedback.stableCallee? ⟨i.ip, k⟩ with
      | none =>
        simp only [harg, hcallee] at hx
        subst hx
        cases h
        exact ⟨plain fun _ _ => hcallee, rfl, rfl⟩
      | some expected =>
        simp only [harg, hcallee] at hx
        subst hx
        cases h
        refine ⟨?_, rfl, rfl⟩
        split
        · exact .direct hop harg ‹_› hcallee
        · exact plain fun _ high => absurd high ‹_›
  · rename_i hloop hexcept hfinally hcall hglobal
    have none : p.op.blockKind? = none := by
      unfold Opcode.blockKind?
      split <;> first | rfl | contradiction
    have plain (general : p.op.operator?.isSome → c.specializes →
        c.feedback.intOperands? ⟨i.ip, k⟩ ≠ some true) :=
      plain none (fun hop => absurd hop hcall) general
    split at hx
    · rename_i operator
      subst hx
      unfold binaryOpFor at h
      cases hseen : c.feedback.intOperands? ⟨i.ip, k⟩ with
      | none =>
        simp only [hseen] at h
        cases h
        exact ⟨plain fun _ _ => by rw [hseen]; nofun, rfl, rfl⟩
      | some ints =>
        cases ints with
        | true =>
          simp only [hseen] at h
          cases h
          refine ⟨?_, rfl, rfl⟩
          split
          · exact .ints operator ‹_› hseen
          · exact plain fun _ high => absurd high ‹_›
        | false =>
          simp only [hseen] at h
          obtain ⟨_, e₁, hm, h⟩ := emit_bind_ok.mp h
          cases hm
          cases h
          exact ⟨plain fun _ _ => by rw [hseen]; nofun, rfl, rfl⟩
    · rename_i operator
      subst hx
      cases h
      exact ⟨plain fun some => absurd some operator, rfl, rfl⟩

/-- An emitted operation performs its primitive. -/
theorem Makes.performs (hc : c.Sound) (hi : c.unit.instrAt? i.ip = some i) (hp : p ∈ i.prims)
    {cached : Option Nat} (hk : cached = none ∨ k ≠ 0) {op : Op} (h : c.Makes cached i k p op) :
    Performs (SetBy c.handlers) i op p := by
  cases h with
  | plain => exact .prim
  | cached _ some zero =>
    obtain none | ne := hk
    · rw [none] at some
      cases some
    · contradiction
  | setup hset hh =>
    obtain ⟨kind, target, hk, ht, hs⟩ := handlerAt_ok hc hi (hc.unit.setup_alone hi hp hset) hh
    exact .setup hk ht hs
  | direct hop harg =>
    obtain ⟨op, arg⟩ := p
    cases hop
    cases harg
    exact .call
  | ints hop => exact hc.unit.operator_plain hi hp hop ▸ .int hop

/-- The block of an index that a leader starts. -/
theorem starts_ok {ip : Nat} {b : BlockId} (h : blockId c.leaders ip = .ok b) : c.Starts ip b :=
  blockId_ok h

theorem nextBlock_ok {b : BlockId} (h : c.nextBlock i = .ok b) : c.Starts i.next b := by
  unfold nextBlock at h
  split at h
  · exact starts_ok h
  · cases h

/-- The block of a jump's target starts there. -/
theorem target_starts {op : Opcode} {arg : Option Nat} {b : BlockId} {n : Nat}
    (harg : required i.ip arg = .ok n)
    (h : (do blockId c.leaders (← required i.ip ((⟨op, arg⟩ : Primitive).target? i.next))) =
      .ok b) : ∃ target, Code.jumpTarget? op n i.next = some target ∧ c.Starts target b := by
  obtain ⟨target, ht, hb⟩ := except_bind_ok.mp h
  rw [required_ok harg] at ht
  exact ⟨target, required_ok ht, starts_ok hb⟩

/-- A jump that pops what it tests becomes a branch, or a speculation on one way. -/
theorem popJump_ok {op : Opcode} {arg : Option Nat} {t : Terminator} (hj : op.isPopJump) (h : (do
    let taken ← (do blockId c.leaders (← required i.ip ((⟨op, arg⟩ : Primitive).target? i.next)) :
      Except CompileError BlockId)
    let fallthrough ← c.nextBlock i
    let n ← required i.ip arg
    match c.speculation? ⟨i.ip, k⟩ with
    | some truth =>
      let jumps := (op == .popJumpIfTrue) == truth
      return .speculate op n ⟨i.ip, k⟩ truth (if jumps then taken else fallthrough)
    | none => return .branch op n ⟨i.ip, k⟩ taken fallthrough : Emit Terminator) e =
      .ok (t, e')) :
    Exits c.unit c.Starts i k ⟨op, arg⟩ t ∧ e'.assumptions = e.assumptions ∧
      (c.Collected e → c.Collected e') := by
  obtain ⟨taken, htaken, h⟩ := emit_lift_bind_ok.mp h
  obtain ⟨fallthrough, hf, h⟩ := emit_lift_bind_ok.mp h
  obtain ⟨n, harg, h⟩ := emit_lift_bind_ok.mp h
  obtain ⟨target, ht, hb⟩ := target_starts harg htaken
  rw [required_ok harg]
  cases hs : c.speculation? ⟨i.ip, k⟩ with
  | some truth =>
    rw [hs] at h
    cases h
    refine ⟨.speculate hj ht ?_, rfl, id⟩
    split
    · exact hb
    · exact nextBlock_ok hf
  | none =>
    rw [hs] at h
    cases h
    exact ⟨.branch (.inl hj) ht hb (nextBlock_ok hf), rfl, id⟩

/-- The way out that is emitted for a primitive does what the primitive does. -/
theorem terminatorOf_ok (hc : c.Sound) (hi : c.unit.instrAt? i.ip = some i) (hp : p ∈ i.prims)
    {t : Terminator} (h : c.terminatorOf i ⟨i.ip, k⟩ p e = .ok (t, e')) :
    Exits c.unit c.Starts i k p t ∧ e'.assumptions = e.assumptions ∧
      (c.Collected e → c.Collected e') := by
  have hasArg := (hc.unit.primitives hi).2 p hp
  obtain ⟨op, arg⟩ := p
  have jump (hj : op.alwaysJumps) (h : (do
      let b ← (do blockId c.leaders (← required i.ip ((⟨op, arg⟩ : Primitive).target? i.next)) :
        Except CompileError BlockId)
      return .goto b : Emit Terminator) e = .ok (t, e')) :
      Exits c.unit c.Starts i k ⟨op, arg⟩ t ∧ e'.assumptions = e.assumptions ∧
        (c.Collected e → c.Collected e') := by
    obtain ⟨b, hb, h⟩ := emit_lift_bind_ok.mp h
    cases h
    obtain ⟨target, ht, hb⟩ := except_bind_ok.mp hb
    exact ⟨.goto hj (required_ok ht) (starts_ok hb), rfl, id⟩
  have orPop (hj : op = .jumpIfFalseOrPop ∨ op = .jumpIfTrueOrPop) (h : (do
      let n ← required i.ip arg
      let taken ← (do blockId c.leaders (← required i.ip ((⟨op, arg⟩ : Primitive).target? i.next)) :
        Except CompileError BlockId)
      return .branch op n ⟨i.ip, k⟩ taken (← c.nextBlock i) : Emit Terminator) e =
        .ok (t, e')) :
      Exits c.unit c.Starts i k ⟨op, arg⟩ t ∧ e'.assumptions = e.assumptions ∧
        (c.Collected e → c.Collected e') := by
    obtain ⟨n, harg, h⟩ := emit_lift_bind_ok.mp h
    obtain ⟨taken, htaken, h⟩ := emit_lift_bind_ok.mp h
    obtain ⟨fallthrough, hf, h⟩ := emit_lift_bind_ok.mp h
    obtain ⟨target, ht, hb⟩ := target_starts harg htaken
    rw [required_ok harg]
    cases h
    exact ⟨.branch (.inr hj) ht hb (nextBlock_ok hf), rfl, id⟩
  have noArg (hn : op.hasArg = false) : arg = none := by
    cases arg with
    | none => rfl
    | some _ =>
      rw [hn] at hasArg
      cases hasArg
  generalize hx : c.terminatorOf i ⟨i.ip, k⟩ ⟨op, arg⟩ = x at h
  unfold terminatorOf at hx
  dsimp only at hx
  split at hx
  · exact jump rfl (hx ▸ h)
  · exact jump rfl (hx ▸ h)
  · exact popJump_ok rfl (hx ▸ h)
  · exact popJump_ok rfl (hx ▸ h)
  · exact orPop (.inl rfl) (hx ▸ h)
  · exact orPop (.inr rfl) (hx ▸ h)
  · rw [← hx] at h
    obtain ⟨n, harg, h⟩ := emit_lift_bind_ok.mp h
    obtain ⟨body, hbody, h⟩ := emit_lift_bind_ok.mp h
    obtain ⟨exit, hexit, h⟩ := emit_lift_bind_ok.mp h
    obtain ⟨target, ht, hb⟩ := target_starts harg hexit
    rw [required_ok harg]
    cases h
    exact ⟨.forIter ht (nextBlock_ok hbody) hb, rfl, id⟩
  · rw [← hx] at h
    cases h
    rw [noArg rfl]
    exact ⟨.return_, rfl, id⟩
  · rw [← hx] at h
    obtain ⟨resume, hr, h⟩ := emit_lift_bind_ok.mp h
    cases h
    rw [noArg rfl]
    refine ⟨.yield_ (nextBlock_ok hr), rfl, fun hcol => ⟨hcol.assumed, fun ip b hmem => ?_⟩⟩
    rcases List.mem_append.mp hmem with hmem | hmem
    · exact hcol.resume ip b hmem
    · cases List.mem_singleton.mp hmem
      exact ⟨i, hi, nextBlock_ok hr⟩
  · split at hx
    · rw [← hx] at h
      obtain ⟨b, hb, h⟩ := emit_lift_bind_ok.mp h
      cases h
      exact ⟨.unwind (starts_ok hb) rfl, rfl, id⟩
    · rename_i hstop
      rw [← hx] at h
      cases h
      exact ⟨.unwindOff (.inr ⟨rfl, hc.unit.instrAt?_of_stop_le (Nat.le_of_not_lt hstop)⟩), rfl, id⟩
  · rw [← hx] at h
    cases h
    exact ⟨.unwindOff (.inl rfl), rfl, id⟩
  · rw [← hx] at h
    cases h
    exact ⟨.unwindOff (.inl rfl), rfl, id⟩
  · rw [← hx] at h
    cases h
    exact ⟨.unwindOff (.inl rfl), rfl, id⟩
  · rw [← hx] at h
    cases h

/-! ## Instructions -/

/-- Operations take a block from a place to the next instruction, or to a way out. -/
def Runs (c : Context) (assumptions : Array Assumption) (place : Place) (next : Nat)
    (is : List Inst) : Option Terminator → Prop
  | some t => At c.unit (SetBy c.handlers) assumptions c.Starts place is t
  | none => ∀ is' t, At c.unit (SetBy c.handlers) assumptions c.Starts (.start next) is' t →
      At c.unit (SetBy c.handlers) assumptions c.Starts place (is ++ is') t

variable {assumptions : Array Assumption}

theorem Runs.of_at {place place' : Place} {next : Nat} {is : List Inst}
    {term : Option Terminator} (h : c.Runs assumptions place next is term) (is' : List Inst)
    (hat : ∀ is'' t, At c.unit (SetBy c.handlers) assumptions c.Starts place is'' t →
      At c.unit (SetBy c.handlers) assumptions c.Starts place' (is' ++ is'') t) :
    c.Runs assumptions place' next (is' ++ is) term := by
  cases term with
  | some t => exact hat is t h
  | none =>
    intro is'' t hn
    rw [List.append_assoc]
    exact hat _ t (h is'' t hn)

/-- What is emitted for the primitives of an instruction does what they do. -/
theorem emitPrims_ok (assumptions : Array Assumption) (hc : c.Sound)
    (hi : c.unit.instrAt? i.ip = some i) (cached : Option Nat) :
    ∀ (ps : List Primitive) (k : Nat), (∀ p ∈ ps, p ∈ i.prims) → (cached = none ∨ k ≠ 0) →
      ∀ {is : List Inst} {term : Option Terminator} {e e' : Emission},
        c.emitPrims cached i k ps e = .ok ((is, term), e') →
        c.Runs assumptions (.inside i k ps) i.next is term ∧
          e'.assumptions = e.assumptions ∧ (c.Collected e → c.Collected e')
  | [], k, _, _, is, term, e, e', h => by
    cases h
    exact ⟨fun is' t ht => .next ht, rfl, id⟩
  | p :: ps, k, hps, hk, is, term, e, e', h => by
    unfold emitPrims at h
    dsimp only at h
    split at h
    · rename_i hlast
      simp only [Bool.and_eq_true, List.isEmpty_iff] at hlast
      obtain ⟨rfl, -⟩ := hlast
      obtain ⟨t, e₁, ht, h⟩ := emit_bind_ok.mp h
      cases h
      obtain ⟨hx, ha, hcol⟩ := terminatorOf_ok hc hi (hps p List.mem_cons_self) ht
      exact ⟨.exit hx, ha, hcol⟩
    · obtain ⟨op, e₁, hop, h⟩ := emit_bind_ok.mp h
      obtain ⟨⟨is', term'⟩, e₂, hrest, h⟩ := emit_bind_ok.mp h
      cases h
      obtain ⟨makes, ha, hr⟩ := operationOf_makes hop
      have hperf := makes.performs hc hi (hps p List.mem_cons_self) hk
      obtain ⟨hruns, ha', hcol⟩ := emitPrims_ok assumptions hc hi cached ps (k + 1)
        (fun q hq => hps q (List.mem_cons_of_mem p hq)) (.inr (Nat.succ_ne_zero k)) hrest
      refine ⟨hruns.of_at [_] fun _ _ hat => .op hperf hat, ha'.trans ha, fun hc => ?_⟩
      exact hcol ⟨by rw [ha]; exact hc.assumed, by rw [hr]; exact hc.resume⟩

/-- Assumptions stay when others are added. -/
def Kept (as as' : Array Assumption) : Prop := ∀ (n : Nat) a, as[n]? = some a → as'[n]? = some a

theorem kept_push (as : Array Assumption) (a : Assumption) : Kept as (as.push a) := by
  intro n a' h
  obtain ⟨hlt, -⟩ := Array.getElem?_eq_some_iff.mp h
  rw [Array.getElem?_push, if_neg (by omega), h]

/-- An assumption on a global name. -/
theorem assumeGlobal_ok {index : Nat} {o : Option Nat}
    (h : c.assumeGlobal index e = .ok (o, e')) :
    Kept e.assumptions e'.assumptions ∧ (c.Collected e → c.Collected e') ∧
      ∀ a, o = some a → ∃ assumed : Assumption, e'.assumptions[a]? = some assumed ∧
        c.unit.names[index]? = some assumed.name := by
  have nothing (h : (pure none : Emit (Option Nat)) e = .ok (o, e')) :
      Kept e.assumptions e'.assumptions ∧ (c.Collected e → c.Collected e') ∧
        ∀ a, o = some a → ∃ assumed : Assumption, e'.assumptions[a]? = some assumed ∧
          c.unit.names[index]? = some assumed.name := by
    cases h
    exact ⟨fun _ _ h => h, id, fun _ h => nomatch h⟩
  have added {assumed : Assumption} (hname : c.unit.names[index]? = some assumed.name)
      (holds : assumed.HoldsIn c.heap)
      (h : (do
        set { e with assumptions := e.assumptions.push assumed }
        return some e.assumptions.size : Emit (Option Nat)) e = .ok (o, e')) :
      Kept e.assumptions e'.assumptions ∧ (c.Collected e → c.Collected e') ∧
        ∀ a, o = some a → ∃ assumed : Assumption, e'.assumptions[a]? = some assumed ∧
          c.unit.names[index]? = some assumed.name := by
    cases h
    refine ⟨kept_push _ _, fun hcol => ⟨fun a ha => ?_, hcol.resume⟩, fun a ha => ?_⟩
    · rcases Array.mem_push.mp ha with ha | rfl
      · exact hcol.assumed a ha
      · exact holds
    · cases ha
      exact ⟨assumed, by simp, hname⟩
  generalize hx : c.assumeGlobal index = x at h
  unfold assumeGlobal at hx
  split at hx
  · split at hx
    · rename_i globals builtins _ _ name hname
      rw [← hx] at h
      obtain ⟨_, _, hget, h⟩ := emit_bind_ok.mp h
      cases hget
      dsimp only at h
      cases hfind : e.assumptions.findIdx? (·.name == name) with
      | some n =>
        rw [hfind] at h
        cases h
        obtain ⟨hlt, heq, -⟩ := Array.findIdx?_eq_some_iff_getElem.mp hfind
        refine ⟨fun _ _ h => h, id, fun a ha => ?_⟩
        cases ha
        refine ⟨e.assumptions[n], Array.getElem?_eq_getElem hlt, ?_⟩
        rw [hname, eq_of_beq heq]
      | none =>
        rw [hfind] at h
        dsimp only at h
        cases hg : (c.heap.space globals).get? name with
        | some v =>
          rw [hg] at h
          exact added hname ⟨by simp [Heap.lookupGlobal?, hg], rfl, rfl⟩ h
        | none =>
          cases hb : (c.heap.space builtins).get? name with
          | some v =>
            rw [hg, hb] at h
            exact added hname ⟨by simp [Heap.lookupGlobal?, hg, hb], rfl, rfl⟩ h
          | none =>
            rw [hg, hb] at h
            exact nothing h
    · exact nothing (hx ▸ h)
  · exact nothing (hx ▸ h)

theorem cachedLoad?_ok {o : Option Nat} (h : c.cachedLoad? i e = .ok (o, e')) :
    Kept e.assumptions e'.assumptions ∧ (c.Collected e → c.Collected e') ∧
      ∀ a, o = some a → ∃ (assumed : Assumption) (n : Nat) (ps : List Primitive),
        i.prims = ⟨.loadGlobal, some n⟩ :: ps ∧ e'.assumptions[a]? = some assumed ∧
          c.unit.names[n]? = some assumed.name := by
  have nothing (h : (pure none : Emit (Option Nat)) e = .ok (o, e')) :
      Kept e.assumptions e'.assumptions ∧ (c.Collected e → c.Collected e') ∧
        ∀ a, o = some a → ∃ (assumed : Assumption) (n : Nat) (ps : List Primitive),
          i.prims = ⟨.loadGlobal, some n⟩ :: ps ∧ e'.assumptions[a]? = some assumed ∧
            c.unit.names[n]? = some assumed.name := by
    cases h
    exact ⟨fun _ _ h => h, id, fun _ h => nomatch h⟩
  generalize hx : c.cachedLoad? i = x at h
  unfold cachedLoad? at hx
  split at hx
  · rename_i index hhead
    split at hx
    · obtain ⟨kept, hcol, ha⟩ := assumeGlobal_ok (hx ▸ h)
      refine ⟨kept, hcol, fun a ho => ?_⟩
      obtain ⟨assumed, has, hn⟩ := ha a ho
      obtain ⟨ps, hps⟩ := List.head?_eq_some_iff.mp hhead
      exact ⟨assumed, index, ps, hps, has, hn⟩
    · exact nothing (hx ▸ h)
  · exact nothing (hx ▸ h)

/-- What is emitted for an instruction does what it does. -/
theorem emitInstr_ok (hc : c.Sound) (hi : c.unit.instrAt? i.ip = some i) {is : List Inst}
    {term : Option Terminator} (h : c.emitInstr i e = .ok ((is, term), e')) :
    Kept e.assumptions e'.assumptions ∧ (c.Collected e → c.Collected e') ∧ 0 < begins is ∧
      ∀ as, Kept e'.assumptions as → c.Runs as (.start i.ip) i.next is term := by
  have polled {as : Array Assumption} (is₁ : List Inst) (h : c.Runs as (.start i.ip) i.next is₁ term) :
      c.Runs as (.start i.ip) i.next ((if c.unit.isSafePoint i.ip then
        [⟨⟨i.ip, 0⟩, .safePoint (if c.backedges.contains i.ip then .backedge else .line)⟩]
        else []) ++ is₁) term := by
    refine h.of_at _ fun _ _ hat => ?_
    split
    · exact .poll hat
    · exact hat
  have opens (is₁ is₂ : List Inst) : 0 < begins (is₁ ++ ⟨⟨i.ip, 0⟩, .begin_ i.next⟩ :: is₂) := by
    simp only [begins, List.countP_append, List.countP_cons, Op.isBegin, if_true]
    exact Nat.lt_of_lt_of_le (Nat.succ_pos _) (Nat.le_add_left _ _)
  unfold emitInstr at h
  dsimp only at h
  obtain ⟨cached, e₁, hcached, h⟩ := emit_bind_ok.mp h
  obtain ⟨_, _, hget, h⟩ := emit_bind_ok.mp h
  cases hget
  obtain ⟨⟨is₂, term₂⟩, e₂, hprims, h⟩ := emit_bind_ok.mp h
  cases h
  obtain ⟨kept, hcol, loads⟩ := cachedLoad?_ok hcached
  cases cached with
  | none =>
    obtain ⟨-, ha, hcol'⟩ := emitPrims_ok #[] hc hi none i.prims 0
      (fun _ h => h) (.inl rfl) hprims
    refine ⟨fun n a h => ha ▸ kept n a h, hcol' ∘ hcol, opens _ _, fun as _ => ?_⟩
    obtain ⟨runs, -⟩ := emitPrims_ok as hc hi none i.prims 0
      (fun _ h => h) (.inl rfl) hprims
    rw [List.append_assoc]
    exact polled _ (runs.of_at [_] fun _ _ hat => .begin hi hat)
  | some a =>
    obtain ⟨assumed, n, ps, hps, has, hn⟩ := loads a rfl
    rw [hps] at hprims
    unfold emitPrims at hprims
    dsimp only at hprims
    rw [if_neg (by simp [endsBlock, Opcode.isControlTransfer])] at hprims
    obtain ⟨op, e₃, hop, hrest⟩ := emit_bind_ok.mp hprims
    cases hop
    obtain ⟨⟨is₃, term₃⟩, e₄, hrest, h⟩ := emit_bind_ok.mp hrest
    cases h
    have rest (as : Array Assumption) := emitPrims_ok as hc hi (some a) ps 1
      (fun p h => by rw [hps]; exact List.mem_cons_of_mem _ h) (.inr Nat.one_ne_zero) hrest
    obtain ⟨-, ha, hcol'⟩ := rest #[]
    refine ⟨fun n a h => ha ▸ kept n a h, hcol' ∘ hcol, opens _ _, fun as hkept => ?_⟩
    have hget : (some a).bind (e₁.assumptions[·]?) = some assumed := has
    rw [hget, List.append_assoc]
    refine polled _ ((rest as).1.of_at [_, _, _] fun _ _ hat => ?_)
    exact .cached hi hps (hkept _ _ (ha ▸ has)) hn hat

/-! ## Blocks -/

/-- A block is finished, and knows how control arrives at it. -/
structure Filled (c : Context) (a : Analysis) (assumptions : Array Assumption) (b : BlockId)
    (blk : GraphBlock) : Prop where
  id : blk.id = b
  code : At c.unit (SetBy c.handlers) assumptions c.Starts (.start blk.start) blk.insts blk.term
  opens : 0 < begins blk.insts
  depth : blk.depth = (a.entryAt? c.unit blk.start).map (·.depth)
  handlers : blk.handlers = ((a.entryAt? c.unit blk.start).map (·.handlers)).getD []

/-- What becomes of the block being filled, if there is one, from an index on. -/
inductive Closes (c : Context) (assumptions : Array Assumption) (ip : Nat) :
    Option GraphBlock → List GraphBlock → Prop
  | none : Closes c assumptions ip none []
  | some {b is t} : At c.unit (SetBy c.handlers) assumptions c.Starts (.start ip) is t →
      Closes c assumptions ip (some b) [{ b with insts := b.insts ++ is, term := t }]

/-- What the rest of the instructions, from an index on, adds to the blocks. -/
structure Adds (c : Context) (a : Analysis) (assumptions : Array Assumption) (ip : Nat)
    (is : List Instr) (current : Option GraphBlock) (done blocks head tail : List GraphBlock) :
    Prop where
  all : blocks = done ++ (head ++ tail)
  closes : Closes c assumptions ip current head
  starts : tail.map (·.start) = (is.filter fun i => c.leaders.contains i.ip).map (·.ip)
  filled : ∀ (n : Nat) blk, tail[n]? = some blk →
    c.Filled a assumptions (done.length + head.length + n) blk

/-- Emission of an instruction into a block, and of the instructions after it. -/
def fill (c : Context) (a : Analysis) (i : Instr) (is : List Instr) (b : GraphBlock)
    (done : Array GraphBlock) : Emit (Array GraphBlock) := do
  let (insts, term) ← c.emitInstr i
  let b := { b with insts := b.insts ++ insts }
  match term with
  | some term => c.emitBlocks a is none (done.push { b with term })
  | none => c.emitBlocks a is (some b) done

/-- An instruction starts a block, which may close the one being filled, or goes into that
    one. -/
theorem emitBlocks_cons {a : Analysis} {is : List Instr} {current : Option GraphBlock}
    {done blocks : Array GraphBlock}
    (h : c.emitBlocks a (i :: is) current done e = .ok (blocks, e')) :
    (c.leaders.contains i.ip ∧ current = none ∧
      c.fill a i is (c.newBlock a done.size i) done e = .ok (blocks, e')) ∨
    (c.leaders.contains i.ip ∧ ∃ b next, current = some b ∧ c.Starts i.ip next ∧
      ∃ done', done' = done.push { b with term := .goto next } ∧
        c.fill a i is (c.newBlock a done'.size i) done' e = .ok (blocks, e')) ∨
    (¬c.leaders.contains i.ip ∧ ∃ b, current = some b ∧
      c.fill a i is b done e = .ok (blocks, e')) := by
  generalize hx : c.emitBlocks a (i :: is) current done = x at h
  unfold emitBlocks at hx
  dsimp only at hx
  split at hx
  · rename_i leader
    rw [← hx] at h
    cases current with
    | none =>
      obtain ⟨_, _, hpure, h⟩ := emit_bind_ok.mp h
      cases hpure
      obtain ⟨_, _, hpure, h⟩ := emit_bind_ok.mp h
      cases hpure
      exact .inl ⟨leader, rfl, h⟩
    | some b =>
      obtain ⟨next, hnext, h⟩ := emit_lift_bind_ok.mp h
      obtain ⟨_, _, hpure, h⟩ := emit_bind_ok.mp h
      cases hpure
      obtain ⟨_, _, hpure, h⟩ := emit_bind_ok.mp h
      cases hpure
      exact .inr (.inl ⟨leader, b, next, rfl, starts_ok hnext, _, rfl, h⟩)
  · rename_i leader
    rw [← hx] at h
    obtain ⟨_, _, hpure, h⟩ := emit_bind_ok.mp h
    cases hpure
    cases current with
    | none => cases h
    | some b => exact .inr (.inr ⟨leader, b, rfl, h⟩)

/-- What holds of all that is emitted for instructions holds of all that is in the blocks. -/
theorem emitBlocks_all {P : Inst → Prop} {Q : Terminator → Prop} (goto : ∀ b, Q (.goto b))
    (trap : Q (.trap c.unit.stop)) (a : Analysis) {is : List Instr}
    (each : ∀ i ∈ is, ∀ {js term} {e e' : Emission}, c.emitInstr i e = .ok ((js, term), e') →
      (∀ x ∈ js, P x) ∧ ∀ t, term = some t → Q t)
    {current : Option GraphBlock} {done blocks : Array GraphBlock} {e e' : Emission}
    (hcur : ∀ b, current = some b → (∀ x ∈ b.insts, P x) ∧ Q b.term)
    (hdone : ∀ b ∈ done, (∀ x ∈ b.insts, P x) ∧ Q b.term)
    (h : c.emitBlocks a is current done e = .ok (blocks, e')) :
    ∀ b ∈ blocks, (∀ x ∈ b.insts, P x) ∧ Q b.term := by
  induction is generalizing current done e with
  | nil =>
    cases h
    intro b hb
    rcases Array.mem_append.mp hb with hb | hb
    · exact hdone b hb
    · exact hcur b (by simpa using hb)
  | cons i is ih =>
    have ih := @ih fun j hj => each j (List.mem_cons_of_mem i hj)
    have pushed {b : GraphBlock} {done : Array GraphBlock}
        (hdone : ∀ b ∈ done, (∀ x ∈ b.insts, P x) ∧ Q b.term)
        (hb : (∀ x ∈ b.insts, P x) ∧ Q b.term) :
        ∀ b' ∈ done.push b, (∀ x ∈ b'.insts, P x) ∧ Q b'.term := by
      intro b' hb'
      rcases Array.mem_push.mp hb' with hb' | rfl
      · exact hdone b' hb'
      · exact hb
    -- the instruction goes into a block
    have fill {b : GraphBlock} {done : Array GraphBlock} {e : Emission}
        (hb : (∀ x ∈ b.insts, P x) ∧ Q b.term)
        (hdone : ∀ b ∈ done, (∀ x ∈ b.insts, P x) ∧ Q b.term)
        (h : c.fill a i is b done e = .ok (blocks, e')) :
        ∀ b ∈ blocks, (∀ x ∈ b.insts, P x) ∧ Q b.term := by
      obtain ⟨⟨insts, term⟩, e₁, hinstr, h⟩ := emit_bind_ok.mp h
      obtain ⟨emitted, exit⟩ := each i List.mem_cons_self hinstr
      have all : ∀ x ∈ b.insts ++ insts, P x := List.forall_mem_append.mpr ⟨hb.1, emitted⟩
      cases term with
      | some t => exact ih (fun _ none => by cases none) (pushed hdone ⟨all, exit t rfl⟩) h
      | none =>
        refine ih (fun b' hb' => ?_) hdone h
        cases hb'
        exact ⟨all, hb.2⟩
    have new (n : Nat) : (∀ x ∈ (c.newBlock a n i).insts, P x) ∧ Q (c.newBlock a n i).term :=
      ⟨fun _ h => absurd h List.not_mem_nil, trap⟩
    obtain ⟨-, rfl, hf⟩ | ⟨-, b, next, rfl, -, _, rfl, hf⟩ | ⟨-, b, rfl, hf⟩ :=
      emitBlocks_cons h
    · exact fill (new _) hdone hf
    · exact fill (new _) (pushed (b := { b with term := .goto next }) hdone
        ⟨(hcur b rfl).1, goto next⟩) hf
    · exact fill (hcur b rfl) hdone hf

theorem emitBlocks_ok (hc : c.Sound) (a : Analysis) {ip : Nat} {is : List Instr}
    (his : Code.Contiguous c.unit.words ip is) (hin : ∀ i ∈ is, c.unit.instrAt? i.ip = some i)
    (hstop : (is.getLast?.map (·.next)).getD ip = c.unit.stop) {current : Option GraphBlock}
    {done blocks : Array GraphBlock} {e e' : Emission}
    (hcur : ∀ b, current = some b → b.term = .trap c.unit.stop)
    (h : c.emitBlocks a is current done e = .ok (blocks, e')) :
    Kept e.assumptions e'.assumptions ∧ (c.Collected e → c.Collected e') ∧
      ∀ as, Kept e'.assumptions as → ∃ head tail,
        c.Adds a as ip is current done.toList blocks.toList head tail := by
  induction his generalizing current done blocks e e' with
  | @nil ip _ =>
    cases h
    refine ⟨fun _ _ h => h, id, fun as _ => ?_⟩
    cases current with
    | none => exact ⟨[], [], by simp, .none, rfl, fun _ _ h => by simp at h⟩
    | some b =>
      have hstop : ip = c.unit.stop := hstop
      refine ⟨[b], [], by simp, ?_, rfl, fun _ _ h => by simp at h⟩
      have closes : Closes c as ip (some b) [{ b with insts := b.insts ++ [], term := .trap ip }] :=
        .some (.trap (hc.unit.instrAt?_of_stop_le (Nat.le_of_eq hstop.symm)))
      rw [List.append_nil, hstop, ← hcur b rfl] at closes
      rw [hstop]
      exact closes
  | @cons i is hlt hdec hrest ih =>
    have hi := hin i List.mem_cons_self
    have ih := @ih (fun j hj => hin j (List.mem_cons_of_mem i hj)) (by
      cases is with
      | nil => exact hstop
      | cons j js => rwa [List.getLast?_cons_cons] at hstop)
    -- the instruction goes into a block, and so do those after it until one ends the block
    have fill {b : GraphBlock} {done : Array GraphBlock} {e : Emission}
        (hb : b.term = .trap c.unit.stop)
        (h : c.fill a i is b done e = .ok (blocks, e')) :
        Kept e.assumptions e'.assumptions ∧ (c.Collected e → c.Collected e') ∧
          ∀ as, Kept e'.assumptions as → ∃ is' t tail,
            blocks.toList = done.toList ++ { b with insts := b.insts ++ is', term := t } :: tail ∧
            At c.unit (SetBy c.handlers) as c.Starts (.start i.ip) is' t ∧ 0 < begins is' ∧
            tail.map (·.start) = (is.filter fun i => c.leaders.contains i.ip).map (·.ip) ∧
            ∀ (n : Nat) blk, tail[n]? = some blk → c.Filled a as (done.size + 1 + n) blk := by
      obtain ⟨⟨insts, term⟩, e₁, hinstr, h⟩ := emit_bind_ok.mp h
      obtain ⟨kept, hcol, opens, runs⟩ := emitInstr_ok hc hi hinstr
      cases term with
      | some t =>
        obtain ⟨kept', hcol', adds⟩ := ih (fun b' h => by cases h) h
        refine ⟨fun n a h => kept' n a (kept n a h), hcol' ∘ hcol, fun as has => ?_⟩
        obtain ⟨head, tail, all, closes, starts, filled⟩ := adds as has
        cases closes
        refine ⟨insts, t, tail, by simpa using all, runs as fun n a h => has n a (kept' n a h),
          opens, starts, ?_⟩
        simpa using filled
      | none =>
        obtain ⟨kept', hcol', adds⟩ := ih (fun b' h => by cases h; exact hb) h
        refine ⟨fun n a h => kept' n a (kept n a h), hcol' ∘ hcol, fun as has => ?_⟩
        obtain ⟨head, tail, all, closes, starts, filled⟩ := adds as has
        cases closes with
        | @some _ is' t hat =>
          refine ⟨insts ++ is', t, tail, by simpa using all,
            runs as (fun n a h => has n a (kept' n a h)) is' t hat, ?_, starts, ?_⟩
          · simp only [begins, List.countP_append] at opens ⊢
            exact Nat.lt_of_lt_of_le opens (Nat.le_add_right _ _)
          · simpa using filled
    have opened (hleader : c.leaders.contains i.ip) (head : List GraphBlock)
        {done₁ : Array GraphBlock} (hdone : done₁.toList = done.toList ++ head)
        (closes : ∀ as, Closes c as i.ip current head)
        (h : c.fill a i is (c.newBlock a done₁.size i) done₁ e = .ok (blocks, e')) :
        Kept e.assumptions e'.assumptions ∧ (c.Collected e → c.Collected e') ∧
          ∀ as, Kept e'.assumptions as → ∃ head tail,
            c.Adds a as i.ip (i :: is) current done.toList blocks.toList head tail := by
      obtain ⟨kept, hcol, adds⟩ := fill (b := c.newBlock a done₁.size i) rfl h
      refine ⟨kept, hcol, fun as has => ?_⟩
      obtain ⟨is', t, tail, all, hat, opens, starts, filled⟩ := adds as has
      have hsize : done₁.size = done.toList.length + head.length := by
        rw [← Array.length_toList, hdone, List.length_append]
      refine ⟨head, _ :: tail, by rw [all, hdone, List.append_assoc], closes as, ?_, ?_⟩
      · rw [List.filter_cons_of_pos (p := fun i : Instr => c.leaders.contains i.ip) hleader,
          List.map_cons, List.map_cons, starts]
        rfl
      · intro n blk hn
        rw [← hsize]
        cases n with
        | zero =>
          cases hn
          exact ⟨rfl, hat, opens, rfl, rfl⟩
        | succ n =>
          rw [Nat.add_comm n 1, ← Nat.add_assoc]
          exact filled n blk hn
    obtain ⟨hleader, rfl, hf⟩ | ⟨hleader, b, next, rfl, hnext, _, rfl, hf⟩ |
      ⟨hleader, b, rfl, hf⟩ := emitBlocks_cons h
    · exact opened hleader [] (by simp) (fun _ => .none) hf
    · refine opened hleader [{ b with term := .goto next }] (by simp) (fun as => ?_) hf
      have closes : Closes c as i.ip (some b)
          [{ b with insts := b.insts ++ [], term := .goto next }] := .some (.fall hnext)
      rwa [List.append_nil] at closes
    · obtain ⟨kept, hcol, adds⟩ := fill (hcur b rfl) hf
      refine ⟨kept, hcol, fun as has => ?_⟩
      obtain ⟨is', t, tail, all, hat, -, starts, filled⟩ := adds as has
      refine ⟨_, tail, by simpa using all, .some hat, ?_, by simpa using filled⟩
      rw [starts, List.filter_cons_of_neg (p := fun i : Instr => c.leaders.contains i.ip) hleader]

end Context

end Lowering

end TieredMachine
