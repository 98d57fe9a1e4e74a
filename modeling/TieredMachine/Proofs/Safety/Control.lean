/-
  Where primitives send control.

  A primitive of an instruction leaves the frame inside the instruction, with the tables of
  its unit.  It sets up blocks whose handlers are starts of instructions, and it jumps to
  starts of instructions.  So does a `continue`, unless an `END_FINALLY` found its target on
  the stack.

  * `Flow.Lands`: where control may go;
  * `Inside`: computations inside an instruction;
  * one lemma for each kind of primitive that directs control;
  * `run_lands`, `runPrimitives_lands`: one primitive, and those of an instruction.
-/
import TieredMachine.Proofs.Safety.Frame
import TieredMachine.Proofs.Agreement.Yield

namespace TieredMachine

open Primitive

variable {us : Array CodeUnit} {stops : Nat → Prop} {u : CodeUnit} {i : Instr} {g : Guest}
  {α β : Type}

/-! ## Flows -/

/-- Control goes on at a start of an instruction, or behind the instruction begun last; a
    `continue` may come from an `END_FINALLY` that found its target on the stack. -/
def Flow.Lands (u : CodeUnit) (f : Frame) : Flow → Prop
  | .next | .yield_ _ => u.Boundary f.ip
  | .jump target => (u.instrAt? target).isSome
  | .unwind (.continue_ target) => (u.instrAt? target).isSome ∨ f.Resumes target
  | .unwind _ | .raise _ _ => True

/-! ## Computations inside an instruction -/

/-- Inside an instruction, the computation stays there and answers as told. -/
def Inside (us : Array CodeUnit) (stops : Nat → Prop) (u : CodeUnit) (i : Instr)
    (x : FrameExec α) (Q : α → Prop) : Prop :=
  Guides (.validated us stops u) (·.Within u i) x (fun a f => f.Within u i ∧ Q a)
    fun e f => f.Within u i ∧ (Regime.validated us stops u).permits e

namespace Inside

variable {Q : α → Prop} {S : β → Prop}

theorem ret {a : α} (h : Q a) : Inside us stops u i (pure a) Q :=
  Guides.ret fun _ hf => ⟨hf, h⟩

theorem fail {e : Fault} (h : (Regime.validated us stops u).permits e) :
    Inside us stops u i (throw e) Q :=
  Guides.fail fun _ hf => ⟨hf, h⟩

/-- What follows inside the instruction may lead out of it. -/
theorem into {x : FrameExec α} {k : α → FrameExec β} {S : β → Frame → Prop}
    (hx : Inside us stops u i x Q) (hk : ∀ a, Q a → Guides (.validated us stops u) (·.Within u i)
      (k a) S fun e f => f.Within u i ∧ (Regime.validated us stops u).permits e) :
    Guides (.validated us stops u) (·.Within u i) (x >>= k) S
      fun e f => f.Within u i ∧ (Regime.validated us stops u).permits e :=
  Guides.andThen hx fun a => (Guides.given (hk a)).strengthen fun _ h => ⟨h.2, h.1⟩

theorem andThen {x : FrameExec α} {k : α → FrameExec β} (hx : Inside us stops u i x Q)
    (hk : ∀ a, Q a → Inside us stops u i (k a) S) : Inside us stops u i (x >>= k) S :=
  hx.into hk

theorem machine {x : Exec α} (hx : Safe (.validated us stops u) x) :
    Inside us stops u i (onMachine x) fun _ => True :=
  Guides.machine hx (fun _ _ hf => ⟨hf, trivial⟩) fun _ _ he hf => ⟨hf, he⟩

theorem brings {k m : Nat} {x : FrameExec α} (hx : Brings (.validated us stops u) k m x) :
    Inside us stops u i x fun _ => True :=
  Guides.brings hx (fun f => Regime.validated_spares k f) (fun _ hf => hf.toFits)
    (fun _ _ _ kept hf => ⟨kept.within hf, trivial⟩) fun _ _ _ kept he hf => ⟨kept.within hf, he⟩

theorem pop : Inside us stops u i TieredMachine.pop fun _ => True := brings (pop_brings (k := 0))

theorem push (v : Value) : Inside us stops u i (TieredMachine.push v) fun _ => True :=
  brings (push_brings (k := 0) v)

theorem peek (d : Nat) : Inside us stops u i (TieredMachine.peek d) fun _ => True :=
  brings (peek_brings d.lt_succ_self)

theorem ite {c : Bool} {x y : FrameExec α} (hx : Inside us stops u i x Q)
    (hy : Inside us stops u i y Q) : Inside us stops u i (if c then x else y) Q :=
  Guides.ite (fun _ => hx) fun _ => hy

theorem misuse {x : Misuse} : Inside us stops u i (throw (.runtime x) : FrameExec α) Q :=
  fail (Regime.Closed.misuse x)

/-- What raises an exception does not answer. -/
theorem raise {kind : ExceptionKind} {message : String} :
    Inside us stops u i (onMachine (TieredMachine.raise kind message) : FrameExec α) Q := by
  intro s hm hf
  have safe := raise_safe (α := α) kind message s.machine hm
  exact ⟨safe.1, hf, safe.2⟩

theorem weaken {x : FrameExec α} {Q' : α → Prop} (hx : Inside us stops u i x Q)
    (h : ∀ a, Q a → Q' a) : Inside us stops u i x Q' :=
  Guides.weaken hx fun a _ hf => ⟨hf.1, h a hf.2⟩

/-! ### Primitives that only use the frame -/

variable {op : Opcode} {arg : Nat}

theorem targetOf : Inside us stops u i (Primitive.targetOf op arg) fun target =>
    (⟨op, some arg⟩ : Primitive).target? i.next = some target := by
  refine Guides.frameThen fun f hf => ?_
  split
  · rename_i target ht
    refine Guides.ret fun f' hf' => ⟨hf' ▸ hf, ?_⟩
    rw [hf.ip] at ht
    exact ht
  · exact Guides.fail fun f' hf' => ⟨hf' ▸ hf, Regime.Closed.misuse _⟩

/-- The handler of a new block is to be the start of an instruction. -/
theorem pushBlock (kind : BlockKind) {handler : Nat} (lands : (u.instrAt? handler).isSome) :
    Inside us stops u i (TieredMachine.pushBlock kind handler) fun _ => True := by
  intro s hm hf
  unfold TieredMachine.pushBlock
  rw [bind_apply, look_apply, Frame.pushBlock]
  by_cases room : maxBlocks ≤ s.frame.blocks.length
  · rw [if_pos room]
    exact ⟨hm, hf, Regime.validated_stackFault rfl⟩
  · rw [if_neg room]
    refine ⟨hm, ⟨⟨hf.code, hf.locals, hf.cells, fun b hb => ?_⟩, hf.lasti, hf.ip⟩, trivial⟩
    obtain rfl | hb := List.mem_cons.mp hb
    · exact lands
    · exact hf.handlers b hb

theorem dropBlock : Inside us stops u i Primitive.dropBlock fun _ => True := by
  have popped : Inside us stops u i popBlock fun _ => True := by
    intro s hm hf
    unfold popBlock
    rw [take_apply, Frame.popBlock]
    cases hb : s.frame.blocks with
    | nil => exact ⟨hm, hf, Regime.validated_stackFault rfl⟩
    | cons b rest =>
      refine ⟨hm, ⟨⟨hf.code, hf.locals, hf.cells, fun b' hb' => ?_⟩, hf.lasti, hf.ip⟩, trivial⟩
      exact hf.handlers b' (hb ▸ List.mem_cons_of_mem b hb')
  refine popped.andThen fun b _ => Guides.change fun f hf => ?_
  exact ⟨⟨⟨hf.code, hf.locals, hf.cells, hf.handlers⟩, hf.lasti, hf.ip⟩, trivial⟩

/-- The end of a `finally` clause makes no jump. -/
theorem endFinally :
    Inside us stops u i TieredMachine.endFinally fun flow => ∀ target, flow ≠ .jump target := by
  have unusable {v : Value} {x : String → Misuse} : Inside us stops u i
      (do throw (.runtime (x ((← onMachine heap).repr v))) : FrameExec Flow)
      fun flow => ∀ target, flow ≠ .jump target :=
    (Inside.machine heap_safe).andThen fun _ _ => .misuse
  refine Inside.pop.andThen fun v _ => ?_
  split
  · exact .ret fun _ => Flow.noConfusion
  · split
    · exact Inside.pop.andThen fun _ _ => .ret fun _ => Flow.noConfusion
    · refine Inside.pop.andThen fun target _ => ?_
      split
      · split
        · exact .ret fun _ => Flow.noConfusion
        · exact unusable
      · exact unusable
    · exact .ret fun _ => Flow.noConfusion
    · exact .misuse
  · refine Inside.pop.andThen fun v _ => Inside.pop.andThen fun _ _ => ?_
    split
    · exact .ret fun _ => Flow.noConfusion
    · exact unusable
  · exact (Inside.machine heap_safe).andThen fun _ _ => .raise

theorem withCleanup (hg : g.Safe (.validated us stops u)) (site : Site) :
    Inside us stops u i (Primitive.withCleanup g site) fun _ => True := by
  have size (top : Value) : Inside us stops u i (payloadSize top) fun _ => True := by
    unfold payloadSize
    split
    · exact .ret trivial
    · split
      · exact .ret trivial
      · exact .ret trivial
      · exact .ret trivial
    · exact .ret trivial
    · exact (Inside.machine heap_safe).andThen fun _ _ => .misuse
  have arguments (top : Value) : Inside us stops u i (exitArguments top) fun _ => True :=
    .ite ((Inside.peek 1).andThen fun _ _ => (Inside.peek 2).andThen fun _ _ => .ret trivial)
      (.ret trivial)
  refine (Inside.peek 0).andThen fun top _ => (size top).andThen fun n _ =>
    (arguments top).andThen fun args _ =>
      (Inside.brings (takeBelow_brings (k := 0) site n)).andThen fun exit _ =>
        (Inside.machine (hg.call exit args [])).andThen fun answer _ => ?_
  have dropped (told : Bool) : Inside us stops u i
      (if told then do let _ ← popN 3; TieredMachine.push .none else pure ()) fun _ => True :=
    .ite ((Inside.brings (popN_brings (k := 3) (m := 0) rfl)).andThen fun _ _ => .push .none)
      (.ret trivial)
  unfold isExceptionPayload
  split
  · exact (Inside.machine (truthOf_safe answer)).andThen fun _ _ => dropped _
  · exact .ret trivial

end Inside

/-! ## Primitives -/

/-- The primitive leaves the frame inside its instruction, and control goes on where it
    may. -/
def Directs (us : Array CodeUnit) (stops : Nat → Prop) (u : CodeUnit) (i : Instr)
    (x : FrameExec Flow) : Prop :=
  Guides (.validated us stops u) (·.Within u i) x (fun flow f => f.Within u i ∧ flow.Lands u f)
    fun e f => f.Within u i ∧ (Regime.validated us stops u).permits e

namespace Directs

/-- What is known of the flow may be enough for it to land. -/
theorem of {x : FrameExec Flow} {Q : Flow → Prop} (h : Inside us stops u i x Q)
    (lands : ∀ flow, Q flow → ∀ f, f.Within u i → flow.Lands u f) : Directs us stops u i x :=
  Guides.weaken h fun flow f hf => ⟨hf.1, lands flow hf.2 f hf.1⟩

theorem raiseOf (count : Nat) : Directs us stops u i (Primitive.raiseOf count) := by
  have raised (exc : Value) (v : Option Value) : Inside us stops u i
      (do return Flow.raise (← exceptionOf exc v) true)
      fun flow => ∃ e fresh, flow = .raise e fresh :=
    (Inside.machine (exceptionOf_safe exc v)).andThen fun e _ => .ret ⟨e, true, rfl⟩
  refine .of (Q := fun flow => ∃ e fresh, flow = .raise e fresh) ?_ (by
    rintro _ ⟨e, fresh, rfl⟩ f _
    trivial)
  unfold Primitive.raiseOf
  split
  · refine Guides.frameThen fun f hf => ?_
    split
    · exact Guides.ret fun f' hf' => ⟨hf' ▸ hf, _, _, rfl⟩
    · exact Guides.strengthen Inside.raise fun _ hf' => hf' ▸ hf
  · exact Inside.pop.andThen fun exc _ => raised exc none
  · exact Inside.pop.andThen fun v _ => Inside.pop.andThen fun exc _ => raised exc (some v)
  · exact .misuse

theorem returnValue : Directs us stops u i
    (do return .unwind (.return_ (← TieredMachine.pop))) :=
  .of (Q := fun flow => ∃ v, flow = .unwind (.return_ v))
    (Inside.pop.andThen fun v _ => .ret ⟨v, rfl⟩) (by
      rintro _ ⟨v, rfl⟩ f _
      trivial)

theorem breakLoop : Directs us stops u i (return .unwind .break_) :=
  Guides.ret fun _ hf => ⟨hf, trivial⟩

end Directs

/-- An instruction of a unit that was accepted. -/
structure Accepted (us : Array CodeUnit) (u : CodeUnit) (i : Instr) : Prop where
  checked : u.Checked
  starts : u.instrAt? i.ip = some i
  suits : ∀ stops, ∀ p ∈ i.prims, (Regime.validated us stops u).Suits p

theorem Accepted.of (hu : Built us) {r : Ref} {ip : Nat}
    (hi : (unitAt us r).instrAt? ip = some i) : Accepted us (unitAt us r) i := by
  have checked := hu.checked_of_instrAt? hi
  exact ⟨checked, by rw [checked.ip_eq hi]; exact hi, fun _ _ hp => validated_suits hu hi hp⟩

namespace Accepted

variable (hi : Accepted us u i)

include hi

theorem boundary {f : Frame} (hf : f.Within u i) : u.Boundary f.ip := by
  rw [hf.ip]
  exact hi.checked.next_boundary hi.starts

theorem thenNext {x : FrameExec Unit} {Q : Unit → Prop} (h : Inside us stops u i x Q) :
    Directs us stops u i (thenNext x) :=
  .of (Q := (· = .next)) (h.andThen fun _ _ => .ret rfl) fun _ hq _ hf => by
    rw [hq]
    exact hi.boundary hf

variable {op : Opcode} {arg : Nat}

theorem jump (hp : ⟨op, some arg⟩ ∈ i.prims) : Directs us stops u i (jump op arg) :=
  .of (Q := fun flow => ∃ target, flow = .jump target ∧ (u.instrAt? target).isSome)
    (Inside.targetOf.andThen fun target ht =>
      .ret ⟨target, rfl, hi.checked.target_isSome hi.starts hp ht⟩) (by
    rintro _ ⟨target, rfl, h⟩ f _
    exact h)

omit hi in
/-- A decided jump goes on behind the instruction, or at the target. -/
theorem decidedJump {target : Nat} (truth : Bool) : Inside us stops u i
    (match decideJump? op truth with
      | none => throw (.runtime (.notConditionalJump op))
      | some (taken, popped) => do
        if popped then
          let _ ← pop
        return if taken then .jump target else .next : FrameExec Flow)
    fun flow => flow = .next ∨ flow = .jump target := by
  have answer (taken : Bool) : Inside us stops u i
      (pure (if taken then Flow.jump target else Flow.next))
      fun flow => flow = .next ∨ flow = .jump target := by
    cases taken with
    | true => exact .ret (.inr rfl)
    | false => exact .ret (.inl rfl)
  split
  · exact .misuse
  · exact .ite (Inside.pop.andThen fun _ _ => answer _) (answer _)

theorem testJump (hp : ⟨op, some arg⟩ ∈ i.prims) (site : Site) (recording : Bool) :
    Directs us stops u i (testJump site recording op arg) := by
  refine Inside.targetOf.into fun target ht => ?_
  refine Directs.of (Q := fun flow => flow = .next ∨ flow = .jump target) ?_ (by
    rintro _ (rfl | rfl) f hf
    · exact hi.boundary hf
    · exact hi.checked.target_isSome hi.starts hp ht)
  refine (Inside.peek 0).andThen fun tested _ => (Inside.machine (truthOf_safe tested)).andThen
    fun truth _ => ?_
  exact .ite ((Inside.brings (report_brings (k := 0) _)).andThen fun _ _ => decidedJump truth)
    (decidedJump truth)

theorem setupBlock (hp : ⟨op, some arg⟩ ∈ i.prims) :
    Inside us stops u i (setupBlock op arg) fun _ => True :=
  Inside.targetOf.andThen fun _ ht => .pushBlock _ (hi.checked.target_isSome hi.starts hp ht)

theorem forIter (hg : g.Safe (.validated us stops u)) (hp : ⟨.forIter, some arg⟩ ∈ i.prims) :
    Directs us stops u i (forIter g arg) := by
  refine (Inside.peek 0).into fun it _ => (Inside.machine (advance?_safe hg it)).into
    fun item _ => ?_
  cases item with
  | some item => exact hi.thenNext (Inside.push item)
  | none => exact Inside.pop.into fun _ _ => hi.jump hp

theorem yieldValue : Directs us stops u i (do return .yield_ (← TieredMachine.pop)) :=
  .of (Q := fun flow => ∃ v, flow = .yield_ v)
    (Inside.pop.andThen fun v _ => .ret ⟨v, rfl⟩) (by
      rintro _ ⟨v, rfl⟩ f hf
      exact hi.boundary hf)

theorem continueLoop (hp : ⟨.continueLoop, some arg⟩ ∈ i.prims) :
    Directs us stops u i (return .unwind (.continue_ arg)) :=
  Guides.ret fun _ hf => ⟨hf, .inl (hi.checked.target_isSome hi.starts hp rfl)⟩

/-- A `continue` that the end of a `finally` clause goes on with is to the operand of a
    `CONTINUE_LOOP`, or the frame resumes it from its stack. -/
theorem endFinally {arg : Option Nat} (hp : ⟨.endFinally, arg⟩ ∈ i.prims) :
    Directs us stops u i TieredMachine.endFinally := by
  refine Guides.weaken Inside.endFinally.answered ?_
  rintro flow f ⟨⟨hf, jumps⟩, found⟩
  refine ⟨hf, ?_⟩
  cases flow with
  | next => exact hi.boundary hf
  | yield_ v => exact hi.boundary hf
  | raise exc fresh => trivial
  | jump target => exact absurd rfl (jumps target)
  | unwind p =>
    cases p with
    | continue_ target =>
      by_cases h : u.ContinuesTo target
      · exact .inl (hi.checked.continuesTo_isSome h)
      · refine .inr ⟨⟨_, ⟨i, hf.lasti, ?_, hp⟩, rfl⟩, found, ?_⟩
        · rw [hf.code]
          exact hi.starts
        · rwa [hf.code]
    | exception exc => trivial
    | return_ v => trivial
    | break_ => trivial

/-- A primitive that neither jumps nor touches the block stack. -/
theorem plain (hg : g.Safe (.validated us stops u)) {p : Primitive} (hp : p ∈ i.prims)
    (hplain : p.op.isPlain) (site : Site) (recording : Bool) :
    Directs us stops u i (run g site recording p) := by
  obtain ⟨y, hy, brings⟩ := run_moves hg site recording (hi.suits stops p hp) hplain
  rw [hy]
  exact hi.thenNext (Inside.brings (brings _ (Nat.le_refl _)))

/-! ### Every primitive -/

/-- Control goes from a primitive where it may. -/
theorem run (hg : g.Safe (.validated us stops u)) {p : Primitive} (hp : p ∈ i.prims)
    (site : Site) (recording : Bool) : Directs us stops u i (run g site recording p) := by
  obtain ⟨-, args⟩ := hi.checked.primitives hi.starts
  have args := args p hp
  obtain ⟨op, arg⟩ := p
  cases op
  case jumpForward | jumpAbsolute =>
    obtain ⟨arg, rfl⟩ := Option.isSome_iff_exists.mp args
    exact hi.jump hp
  case popJumpIfFalse | popJumpIfTrue | jumpIfFalseOrPop | jumpIfTrueOrPop =>
    obtain ⟨arg, rfl⟩ := Option.isSome_iff_exists.mp args
    exact hi.testJump hp site recording
  case setupLoop | setupExcept | setupFinally =>
    obtain ⟨arg, rfl⟩ := Option.isSome_iff_exists.mp args
    exact hi.thenNext (hi.setupBlock hp)
  case forIter =>
    obtain ⟨arg, rfl⟩ := Option.isSome_iff_exists.mp args
    exact hi.forIter hg hp
  case raiseVarargs =>
    obtain ⟨arg, rfl⟩ := Option.isSome_iff_exists.mp args
    exact .raiseOf arg
  case continueLoop =>
    obtain ⟨arg, rfl⟩ := Option.isSome_iff_exists.mp args
    exact hi.continueLoop hp
  case breakLoop => exact .breakLoop
  case returnValue => exact .returnValue
  case yieldValue => exact hi.yieldValue
  case popBlock => exact hi.thenNext .dropBlock
  case withCleanup => exact hi.thenNext (.withCleanup hg site)
  case endFinally => exact hi.endFinally hp
  all_goals exact hi.plain hg hp rfl site recording

end Accepted

/-! ## Instructions -/

/-- A guest exception is raised where it happens. -/
theorem Directs.caught {x : FrameExec Flow} (hx : Directs us stops u i x) :
    Directs us stops u i (caught x) := by
  refine Guides.handle hx fun e => ?_
  cases e with
  | raised exc => exact Guides.ret fun f hf => ⟨hf.1, trivial⟩
  | _ => exact Guides.fail fun f hf => hf

/-- The primitives of an instruction, from one of them on. -/
theorem Accepted.runPrimitives (hi : Accepted us u i) (hg : g.Safe (.validated us stops u))
    (recording : Bool) (ip : Nat) {ps : List Primitive} (hps : ∀ p ∈ ps, p ∈ i.prims) (k : Nat) :
    Directs us stops u i (runPrimitives g recording ip k ps) := by
  induction ps generalizing k with
  | nil => exact Guides.ret fun f hf => ⟨hf, hi.boundary hf⟩
  | cons p ps ih =>
    refine Guides.andThen (hi.run hg (hps p List.mem_cons_self) ⟨ip, k⟩ recording).caught
      fun flow => ?_
    cases flow with
    | next =>
      exact (ih (fun p hp => hps p (List.mem_cons_of_mem _ hp)) (k + 1)).strengthen fun _ h => h.1
    | _ => exact Guides.ret fun f hf => hf

end TieredMachine
