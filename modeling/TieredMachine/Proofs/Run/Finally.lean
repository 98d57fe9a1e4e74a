/-
  What `finally` clauses see of an unwind.

  An unwind that reaches a `finally` clause leaves its payload on the stack, and the end
  of the clause goes on from the payload.  The two have to agree on one to three
  values for each kind of unwind, and so has the end of a `with` clause, which looks
  for its exit function below them.

  * `Block.takes`: the blocks that take an unwind;
  * `Frame.Levelled`: block levels that fit the value stack and each other;
  * `Pending.Fits`: unwinds that a payload can hold;
  * `throughClauses`: an unwind that is taken up again at the end of each clause;
  * `finally_protocol`: all that clauses rely on, for one frame and one unwind.
-/
import TieredMachine.Proofs.Native.Operation
import TieredMachine.Proofs.Run.Flow

namespace TieredMachine

/-! ## Blocks that take an unwind -/

namespace Block

/-- Whether the block is that of a `finally` clause. -/
def isFinally (b : Block) : Bool := b.kind = .finally_

/-- Whether an unwind ends at the block.  A `finally` clause sees every unwind, an
    `except` clause exceptions, and a loop what is about the loop. -/
def takes (b : Block) (p : Pending) : Bool :=
  match b.kind, p with
  | .finally_, _ | .except, .exception _ | .loop, .break_ | .loop, .continue_ _ => true
  | _, _ => false

/-- Where control goes when the block takes an unwind. -/
def landing (b : Block) (p : Pending) : Nat :=
  match b.kind, p with
  | .loop, .continue_ target => target
  | _, _ => b.handler

theorem takes_of_isFinally {b : Block} (h : b.isFinally) (p : Pending) : b.takes p := by
  have kind : b.kind = .finally_ := by simpa [isFinally] using h
  simp [takes, kind]

end Block

/-- Block levels fit: an inner block is not below an outer one, and none is above the
    value stack.  The first block is the innermost one. -/
structure Frame.Levelled (f : Frame) : Prop where
  nested : f.blocks.Pairwise fun inner outer => outer.level ≤ inner.level
  within : ∀ b ∈ f.blocks, b.level ≤ f.stack.length

theorem Frame.truncate_truncate (f : Frame) {a b : Nat} (hab : b ≤ a)
    (ha : a ≤ f.stack.length) : ((f.truncate a).truncate b).stack = (f.truncate b).stack := by
  simp only [Frame.truncate, List.drop_drop, List.length_drop]
  congr 1
  omega

theorem Frame.length_truncate (f : Frame) {a : Nat} (h : a ≤ f.stack.length) :
    (f.truncate a).stack.length = a := by
  simp only [Frame.truncate, List.length_drop]
  omega

/-- A block that does not take an unwind is popped. -/
theorem unwindBlocks_cons_untaken {p : Pending} {b : Block} (h : b.takes p = false)
    (rest : List Block) (f : Frame) (heap : Heap) :
    unwindBlocks p (b :: rest) f heap =
      unwindBlocks p rest (({ f with blocks := rest }).truncate b.level) heap := by
  obtain ⟨kind, handler, level⟩ := b
  cases kind <;> cases p <;> first | rfl | cases h

/-- An unwind goes where the innermost block that takes it says. -/
theorem unwindBlocks_landing (p : Pending) (blocks : List Block) (f : Frame) (heap : Heap) :
    (unwindBlocks p blocks f heap).1 = match blocks.find? (·.takes p) with
      | some b => .handler (b.landing p)
      | none => .exit p := by
  induction blocks generalizing f with
  | nil => rfl
  | cons b rest ih =>
    cases taken : b.takes p with
    | false => rw [unwindBlocks_cons_untaken taken, ih, List.find?_cons_of_neg (by simp [taken])]
    | true =>
      rw [List.find?_cons_of_pos (by exact taken)]
      obtain ⟨kind, handler, level⟩ := b
      cases kind <;> cases p <;> first | rfl | cases taken

/-- An unwind that reaches a `finally` clause cuts the stack down to the block's level
    and leaves its payload there. -/
theorem unwindBlocks_finally {p : Pending} {b : Block} (kind : b.isFinally)
    {inner outer : List Block} (untaken : ∀ c ∈ inner, c.takes p = false) {f : Frame}
    (nested : ∀ c ∈ inner, b.level ≤ c.level)
    (ordered : inner.Pairwise fun c d => d.level ≤ c.level)
    (within : ∀ c ∈ inner, c.level ≤ f.stack.length) (heap : Heap) :
    unwindBlocks p (inner ++ b :: outer) f heap =
      (.handler b.handler,
        { f with stack := (p.payload heap).1 ++ (f.truncate b.level).stack, blocks := outer },
        (p.payload heap).2) := by
  induction inner generalizing f with
  | nil =>
    have kind : b.kind = .finally_ := by simpa [Block.isFinally] using kind
    simp only [List.nil_append, unwindBlocks, kind]
    rfl
  | cons c inner ih =>
    rw [List.forall_mem_cons] at untaken nested within
    rw [List.pairwise_cons] at ordered
    rw [List.cons_append, unwindBlocks_cons_untaken untaken.1]
    let g : Frame := { f with blocks := inner ++ b :: outer }
    have cut (d : Block) (hd : d ∈ inner) : d.level ≤ (g.truncate c.level).stack.length :=
      Nat.le_trans (ordered.1 d hd) (Nat.le_of_eq (g.length_truncate within.1).symm)
    rw [ih untaken.2 nested.2 ordered.2 cut, g.truncate_truncate nested.1 within.1]
    rfl

/-! ## The end of a clause -/

/-- The flow that takes an unwind up again.  An exception is not fresh any more, so the
    frame is not added to its traceback once more. -/
def Pending.resumption : Pending → Flow
  | .exception exc => .raise exc false
  | p => .unwind p

/-- The unwind that a flow starts. -/
def Flow.pending? : Flow → Option Pending
  | .raise exc _ => some (.exception exc)
  | .unwind p => some p
  | _ => none

@[simp]
theorem Pending.pending?_resumption (p : Pending) : p.resumption.pending? = some p := by
  cases p <;> rfl

/-- A payload can hold the unwind: the target of a `continue` is held as a signed number
    of 64 bits. -/
def Pending.Fits : Pending → Prop
  | .continue_ target => target < Nat.pow 2 63
  | _ => True

/-- An activation with other values on its stack. -/
def Activation.withStack (s : Activation) (stack : List Value) : Activation :=
  { s with frame := { s.frame with stack } }

@[simp]
theorem Activation.stack_withStack (s : Activation) (stack : List Value) :
    (s.withStack stack).frame.stack = stack := rfl

@[simp]
theorem Activation.machine_withStack (s : Activation) (stack : List Value) :
    (s.withStack stack).machine = s.machine := rfl

theorem lift_apply {α : Type} (x : Exec α) (s : Activation) :
    (liftM x : FrameExec α) s = match x s.machine with
      | .ok a m => .ok a ⟨s.frame, m⟩
      | .error e m => .error e ⟨s.frame, m⟩ := rfl

theorem frame_apply (s : Activation) : frame s = .ok s.frame s := rfl

theorem pop_withStack (s : Activation) (v : Value) (rest : List Value) :
    pop (s.withStack (v :: rest)) = .ok v (s.withStack rest) :=
  pop_apply rfl

/-- A target that fits is read back. -/
theorem toNat_toInt_ofNat {target : Nat} (h : target < Nat.pow 2 63) :
    0 ≤ Int64.ofNat target ∧ (Int64.ofNat target).toInt.toNat = target := by
  have value : (Int64.ofNat target).toInt = target :=
    Int64.toInt_ofNat_of_lt h
  refine ⟨?_, by rw [value]; rfl⟩
  rw [Int64.le_iff_toInt_le, value]
  exact Int.natCast_nonneg target

/-- The end of a clause takes exactly the payload, and goes on with the unwind. -/
theorem endFinally_payload {p : Pending} (fits : p.Fits) (heap : Heap) (rest : List Value)
    (s : Activation) :
    endFinally (s.withStack ((p.payload heap).1 ++ rest)) = .ok p.resumption (s.withStack rest) := by
  unfold endFinally
  cases p with
  | exception exc =>
    simp only [Pending.payload, exceptionPayload, List.cons_append, List.nil_append, bind_apply,
      pop_withStack]
    rfl
  | return_ v =>
    simp only [Pending.payload, List.cons_append, List.nil_append, bind_apply, pop_withStack]
    rfl
  | break_ =>
    simp only [Pending.payload, List.cons_append, List.nil_append, bind_apply, pop_withStack]
    rfl
  | continue_ target =>
    obtain ⟨nonneg, read⟩ := toNat_toInt_ofNat fits
    have reason : UnwindReason.ofCode? UnwindReason.continue_.code = some .continue_ := rfl
    simp only [Pending.payload, List.cons_append, List.nil_append, bind_apply, pop_withStack,
      reason, Value.asInt?, if_pos nonneg, read]
    rfl

/-- The end of a clause that nothing sent control to. -/
theorem endFinally_none (rest : List Value) (s : Activation) :
    endFinally (s.withStack (.none :: rest)) = .ok .next (s.withStack rest) := by
  unfold endFinally
  rw [bind_apply, pop_withStack]
  rfl

/-- Taking an unwind up again leaves the blocks; nothing is added to a traceback. -/
theorem direct_resumption (w : Watch) (p : Pending) : direct w p.resumption = leaveBlocks w p := by
  cases p with
  | exception exc =>
    funext s
    simp only [Pending.resumption, direct, Bool.false_and, Bool.false_eq_true, if_false, beginRaise]
    rfl
  | return_ | break_ | continue_ => rfl

/-! ## The unwinds of running code -/

/-- A payload can hold the unwind that the flow starts. -/
def Flow.Fits : Flow → Prop
  | .unwind p => p.Fits
  | _ => True

theorem Flow.common_fits : Flow.Common Flow.Fits :=
  ⟨trivial, fun _ => trivial, fun _ => trivial, fun _ => trivial, trivial⟩

theorem toNat_toInt_lt (t : Int64) : t.toInt.toNat < Nat.pow 2 63 := by
  have := t.toInt_lt
  show t.toInt.toNat < 2 ^ 63
  omega

/-- The end of a clause reads back what fits. -/
theorem endFinally_fits : FlowsOut Flow.Fits endFinally := by
  refine .bind fun top => ?_
  split
  · exact .ret trivial
  · split
    · exact .bind fun v => .ret trivial
    · refine .bind fun v => ?_
      split
      · split
        · exact .ret (toNat_toInt_lt _)
        · exact .bind fun _ => .fail _
      · exact .bind fun _ => .fail _
    · exact .ret trivial
    · exact .fail _
  · refine .bind fun v => .bind fun _ => ?_
    split
    · exact .ret trivial
    · exact .bind fun _ => .fail _
  · exact .bind fun _ => .onMachine_raise _ _

/-- Every unwind that a primitive starts fits a payload when its argument does: the
    arguments in code are much smaller. -/
theorem Primitive.run_fits (g : Guest) (site : Site) (recording : Bool) {p : Primitive}
    (small : ∀ arg, p.arg = some arg → arg < Nat.pow 2 63) :
    FlowsOut Flow.Fits (p.run g site recording) := by
  refine run_flows Flow.common_fits g site recording p (fun _ _ => trivial)
    (fun arg h => small arg (by rw [h])) (fun _ => endFinally_fits) fun _ => .bind fun f => ?_
  split
  · exact .ret trivial
  · exact .onMachine_raise _ _

/-! ## The end of a `with` clause -/

/-- What the exit function of a `with` clause is told: the class, the exception and its
    traceback, or nothing three times. -/
def Pending.exitArguments (p : Pending) (heap : Heap) : List Value :=
  if p.isException then (p.payload heap).1 else [.none, .none, .none]

/-- What the end of a `with` clause leaves when its exit function answers: nothing of an
    exception that the function drops. -/
def Pending.remainder (p : Pending) (heap : Heap) (dropped : Bool) : List Value :=
  if p.isException && dropped then [.none] else (p.payload heap).1

theorem payload_ne_nil (p : Pending) (heap : Heap) : ∃ top below,
    (p.payload heap).1 = top :: below ∧ Primitive.isExceptionPayload top = p.isException ∧
      Primitive.payloadSize top = pure (p.payload heap).1.length := by
  cases p <;> exact ⟨_, _, rfl, rfl, rfl⟩

theorem exitArguments_payload (p : Pending) (heap : Heap) (rest : List Value) (s : Activation)
    {top : Value} {below : List Value} (h : (p.payload heap).1 = top :: below) :
    Primitive.exitArguments top (s.withStack ((p.payload heap).1 ++ rest)) =
      .ok (p.exitArguments heap) (s.withStack ((p.payload heap).1 ++ rest)) := by
  cases p <;> cases h <;> rfl

/-- The value below some others is taken from between them and the rest. -/
theorem takeBelow_append (site : Site) (above : List Value) (v : Value) (rest : List Value)
    (s : Activation) :
    Primitive.takeBelow site above.length (s.withStack (above ++ v :: rest)) =
      .ok v (s.withStack (above ++ rest)) := by
  have found : (above ++ v :: rest)[above.length]? = some v := by simp
  have left : (above ++ v :: rest).take above.length ++
      (above ++ v :: rest).drop (above.length + 1) = above ++ rest := by
    simp
  unfold Primitive.takeBelow
  rw [bind_apply, frame_apply]
  simp only [Activation.stack_withStack, found, left]
  rfl

/-- The end of a `with` clause takes the exit function from below the payload and calls
    it once. -/
theorem withCleanup_payload (p : Pending) (heap : Heap) (exit : Value) (rest : List Value)
    (g : Guest) (site : Site) (s : Activation) :
    Primitive.withCleanup g site (s.withStack ((p.payload heap).1 ++ exit :: rest)) =
      match g.call exit (p.exitArguments heap) [] s.machine with
      | .ok answer m =>
        .ok () ⟨(s.withStack (p.remainder heap (m.heap.truth answer) ++ rest)).frame, m⟩
      | .error e m => .error e ⟨(s.withStack ((p.payload heap).1 ++ rest)).frame, m⟩ := by
  obtain ⟨top, below, payload, isException, size⟩ := payload_ne_nil p heap
  have peeked : peek 0 (s.withStack ((p.payload heap).1 ++ exit :: rest)) =
      .ok top (s.withStack ((p.payload heap).1 ++ exit :: rest)) := by
    apply peek_apply
    simp [payload]
  unfold Primitive.withCleanup
  rw [bind_apply, peeked]
  dsimp only
  rw [bind_apply, size]
  show (Primitive.exitArguments top >>= _) _ = _
  rw [bind_apply, exitArguments_payload p heap _ s payload]
  dsimp only
  rw [bind_apply, takeBelow_append]
  dsimp only
  rw [bind_apply, lift_apply]
  dsimp only [Activation.machine_withStack]
  cases g.call exit (p.exitArguments heap) [] s.machine with
  | error e m => rfl
  | ok answer m =>
    dsimp only
    rw [isException]
    cases p with
    | exception exc =>
      rw [bind_apply, onMachine_apply]
      show (if (true && m.heap.truth answer) = true then _ else _ : FrameExec Unit) _ = _
      cases m.heap.truth answer <;> rfl
    | return_ | break_ | continue_ => rfl

/-! ## One clause after another -/

/-- Whether an unwind ends at a block for good. -/
def Pending.endsAt (p : Pending) (b : Block) : Bool := b.takes p && !b.isFinally

/-- The clauses on the way of an unwind: the `finally` blocks in front of the block where
    it ends, from the innermost one on. -/
def Pending.clauses (p : Pending) (blocks : List Block) : List Block :=
  (blocks.takeWhile (!p.endsAt ·)).filter (·.isFinally)

/-- Where an unwind ends at last. -/
def Pending.destination (p : Pending) (blocks : List Block) : Unwound :=
  match blocks.find? (p.endsAt ·) with
  | some b => .handler (b.landing p)
  | none => .exit p

/-- Unwinds, ends each `finally` clause where it begins, and goes on from there; answers
    the blocks of the clauses that were entered, in order, and where the last unwind
    ended. -/
def throughClauses : Nat → Pending → FrameExec (List Block × Unwound)
  | 0, _ => throw .outOfFuel
  | fuel + 1, p => do
    let taker := (← frame).blocks.find? (·.takes p)
    let landed ← unwind p
    match taker with
    | none => return ([], landed)
    | some b =>
      if !b.isFinally then return ([], landed)
      match (← endFinally).pending? with
      | none => return ([b], landed)
      | some q =>
        let (clauses, last) ← throughClauses fuel q
        return (b :: clauses, last)

namespace Pending

variable {p : Pending} {inner : List Block} (untaken : ∀ c ∈ inner, c.takes p = false)
include untaken

theorem endsAt_inner : ∀ c ∈ inner, p.endsAt c = false := by
  intro c hc
  simp [endsAt, untaken c hc]

theorem not_isFinally_inner : ∀ c ∈ inner, c.isFinally = false := by
  intro c hc
  cases kind : c.isFinally with
  | false => rfl
  | true => exact absurd (Block.takes_of_isFinally kind p) (by simp [untaken c hc])

/-- Blocks that do not take an unwind are not on its way. -/
theorem clauses_append (rest : List Block) : p.clauses (inner ++ rest) = p.clauses rest := by
  have passed : ∀ c ∈ inner, (!p.endsAt c) = true := by
    intro c hc
    simp [endsAt_inner untaken c hc]
  have none : inner.filter (·.isFinally) = [] := by
    simpa using not_isFinally_inner untaken
  rw [clauses, List.takeWhile_append_of_pos passed, List.filter_append, none, List.nil_append]
  rfl

theorem destination_append (rest : List Block) :
    p.destination (inner ++ rest) = p.destination rest := by
  have none : inner.find? (p.endsAt ·) = .none := by
    simpa using endsAt_inner untaken
  rw [destination, List.find?_append, none, Option.none_or]
  rfl

end Pending

/-- An unwind that reaches a `finally` clause, on a frame whose block levels fit. -/
theorem unwind_finally {p : Pending} {s : Activation} (levelled : s.frame.Levelled)
    {inner outer : List Block} {b : Block} (kind : b.isFinally)
    (untaken : ∀ c ∈ inner, c.takes p = false) (blocks : s.frame.blocks = inner ++ b :: outer) :
    unwind p s = .ok (.handler b.handler)
      { frame := { s.frame with
          stack := (p.payload s.machine.heap).1 ++ (s.frame.truncate b.level).stack
          blocks := outer }
        machine := { s.machine with heap := (p.payload s.machine.heap).2 } } := by
  obtain ⟨nested, within⟩ := levelled
  rw [blocks] at nested within
  obtain ⟨ordered, -, nested⟩ := List.pairwise_append.mp nested
  have lands : unwindBlocks p (inner ++ b :: outer) s.frame s.machine.heap = _ :=
    unwindBlocks_finally kind untaken (fun c hc => nested c hc b (by simp)) ordered
      (fun c hc => within c (by simp [hc])) s.machine.heap
  rw [unwind_apply, Frame.unwind, blocks, lands]

/-- Below the payload, the block levels that are left fit the stack that is left. -/
theorem Frame.Levelled.outside {f : Frame} (levelled : f.Levelled) {inner outer : List Block}
    {b : Block} (blocks : f.blocks = inner ++ b :: outer) :
    Frame.Levelled { f with stack := (f.truncate b.level).stack, blocks := outer } := by
  obtain ⟨nested, within⟩ := levelled
  rw [blocks] at nested within
  have nested := List.pairwise_cons.mp (List.pairwise_append.mp nested).2.1
  refine ⟨nested.2, fun c hc => ?_⟩
  rw [f.length_truncate (within b (by simp))]
  exact nested.1 c hc

/-- One round: the clause that an unwind reached is entered and left, and the same
    unwind goes on outside of its block. -/
theorem throughClauses_finally {p : Pending} (fits : p.Fits) {s : Activation}
    (levelled : s.frame.Levelled) {inner outer : List Block} {b : Block} (kind : b.isFinally)
    (untaken : ∀ c ∈ inner, c.takes p = false) (blocks : s.frame.blocks = inner ++ b :: outer)
    (fuel : Nat) : ∃ t : Activation, t.frame.Levelled ∧ t.frame.blocks = outer ∧
      throughClauses (fuel + 1) p s =
        (do let (clauses, last) ← throughClauses fuel p; return (b :: clauses, last)) t := by
  let rest := (s.frame.truncate b.level).stack
  let t : Activation :=
    { frame := { s.frame with stack := rest, blocks := outer }
      machine := { s.machine with heap := (p.payload s.machine.heap).2 } }
  refine ⟨t, levelled.outside blocks, rfl, ?_⟩
  have found : s.frame.blocks.find? (·.takes p) = some b := by
    rw [blocks, List.find?_append, List.find?_eq_none.mpr (by simpa using untaken),
      List.find?_cons_of_pos (by exact Block.takes_of_isFinally kind p)]
    rfl
  have landed : unwind p s =
      .ok (.handler b.handler) (t.withStack ((p.payload s.machine.heap).1 ++ rest)) :=
    unwind_finally levelled kind untaken blocks
  have ended : endFinally (t.withStack ((p.payload s.machine.heap).1 ++ rest)) =
      .ok p.resumption t :=
    endFinally_payload fits s.machine.heap rest t
  rw [throughClauses, bind_apply, frame_apply]
  simp only [found]
  rw [bind_apply, landed]
  simp only [kind, Bool.not_true, Bool.false_eq_true, if_false]
  rw [bind_apply, ended]
  simp only [Pending.pending?_resumption]

/-- A last round: nothing on the way of the unwind is a clause. -/
theorem throughClauses_last {p : Pending} {s : Activation}
    (last : ∀ b, s.frame.blocks.find? (·.takes p) = some b → b.isFinally = false) (fuel : Nat) :
    ∃ t, throughClauses (fuel + 1) p s =
      .ok (p.clauses s.frame.blocks, p.destination s.frame.blocks) t := by
  have landed := unwindBlocks_landing p s.frame.blocks s.frame s.machine.heap
  rw [throughClauses, bind_apply, frame_apply]
  dsimp only
  rw [bind_apply, unwind_apply, Frame.unwind, landed]
  cases found : s.frame.blocks.find? (·.takes p) with
  | none =>
    have untaken : ∀ c ∈ s.frame.blocks, c.takes p = false := by
      simpa using List.find?_eq_none.mp found
    rw [← List.append_nil s.frame.blocks, Pending.clauses_append untaken,
      Pending.destination_append untaken]
    exact ⟨_, rfl⟩
  | some b =>
    obtain ⟨takes, inner, outer, blocks, untaken⟩ := List.find?_eq_some_iff_append.mp found
    have untaken : ∀ c ∈ inner, c.takes p = false := by simpa using untaken
    have kind := last b found
    have ends : p.endsAt b := by simp [Pending.endsAt, takes, kind]
    rw [blocks, Pending.clauses_append untaken, Pending.destination_append untaken]
    simp only [kind, Pending.clauses, Pending.destination, List.takeWhile_cons, List.find?_cons,
      ends]
    exact ⟨_, rfl⟩

/-- **Clauses in order.**  An unwind that is taken up again at the end of each clause
    enters the clauses on its way from the innermost to the outermost one, each once. -/
theorem throughClauses_eq {p : Pending} (fits : p.Fits) {fuel : Nat} {s : Activation}
    (levelled : s.frame.Levelled) (enough : s.frame.blocks.length < fuel) :
    ∃ t, throughClauses fuel p s =
      .ok (p.clauses s.frame.blocks, p.destination s.frame.blocks) t := by
  induction fuel generalizing s with
  | zero => exact absurd enough (Nat.not_lt_zero _)
  | succ fuel ih =>
    by_cases more : ∃ b, s.frame.blocks.find? (·.takes p) = some b ∧ b.isFinally
    · obtain ⟨b, found, kind⟩ := more
      obtain ⟨takes, inner, outer, blocks, untaken⟩ := List.find?_eq_some_iff_append.mp found
      have untaken : ∀ c ∈ inner, c.takes p = false := by simpa using untaken
      obtain ⟨t, outside, left, round⟩ :=
        throughClauses_finally fits levelled kind untaken blocks fuel
      have fewer : t.frame.blocks.length < fuel := by
        rw [left]
        rw [blocks, List.length_append, List.length_cons] at enough
        omega
      obtain ⟨u, rounds⟩ := ih outside fewer
      have passes : p.endsAt b = false := by simp [Pending.endsAt, kind]
      refine ⟨u, ?_⟩
      rw [round, bind_apply, rounds, blocks, left, Pending.clauses_append untaken,
        Pending.destination_append untaken]
      simp only [Pending.clauses, Pending.destination, List.takeWhile_cons, List.find?_cons,
        passes, Bool.not_false, if_true, List.filter_cons, kind]
      rfl
    · refine throughClauses_last (fun b found => ?_) fuel
      exact eq_false_of_ne_true fun kind => more ⟨b, found, kind⟩

/-! ## The protocol -/

/-- What `finally` clauses and `with` clauses rely on, for one unwind in one activation. -/
structure FinallyProtocol (s : Activation) (p : Pending) : Prop where
  /-- an unwind goes to the innermost block that takes it -/
  goes : ∃ t, unwind p s = .ok (match s.frame.blocks.find? (·.takes p) with
    | some b => .handler (b.landing p)
    | none => .exit p) t
  /-- an unwind that lands on a clause cuts the stack down to the block's level, leaves
      its payload there, and keeps the blocks outside of the clause's block -/
  lands : ∀ inner b outer, s.frame.blocks = inner ++ b :: outer →
    (∀ c ∈ inner, c.takes p = false) → b.isFinally →
      unwind p s = .ok (.handler b.handler)
        { frame := { s.frame with
            stack := (p.payload s.machine.heap).1 ++ (s.frame.truncate b.level).stack
            blocks := outer }
          machine := { s.machine with heap := (p.payload s.machine.heap).2 } }
  /-- the end of the clause takes exactly the payload and takes the unwind up again -/
  ends : ∀ heap rest, endFinally (s.withStack ((p.payload heap).1 ++ rest)) =
    .ok p.resumption (s.withStack rest)
  /-- what was taken up again leaves the blocks, and no traceback entry is added -/
  resumes : ∀ w t, direct w p.resumption t = leaveBlocks w p t
  /-- the end of a `with` clause takes the exit function from below the payload and
      calls it once; what it leaves is the payload, but nothing of an exception that the
      function drops -/
  cleansUp : ∀ heap exit rest g site,
    Primitive.withCleanup g site (s.withStack ((p.payload heap).1 ++ exit :: rest)) =
      match g.call exit (p.exitArguments heap) [] s.machine with
      | .ok answer m =>
        .ok () ⟨(s.withStack (p.remainder heap (m.heap.truth answer) ++ rest)).frame, m⟩
      | .error e m => .error e ⟨(s.withStack ((p.payload heap).1 ++ rest)).frame, m⟩
  /-- the end of a clause of which nothing is left goes on behind the clause -/
  falls : ∀ rest, endFinally (s.withStack (.none :: rest)) = .ok .next (s.withStack rest)
  /-- the clauses on the way are entered from the innermost to the outermost one, each
      once, and the unwind ends where it would without them -/
  rounds : ∃ t, throughClauses (s.frame.blocks.length + 1) p s =
    .ok (p.clauses s.frame.blocks, p.destination s.frame.blocks) t

/-- **Clauses see every unwind and hand it on**, in a frame whose block levels fit. -/
theorem finally_protocol {s : Activation} {p : Pending} (levelled : s.frame.Levelled)
    (fits : p.Fits) : FinallyProtocol s p where
  goes := ⟨_, by rw [unwind_apply, Frame.unwind, unwindBlocks_landing]⟩
  lands _ _ _ blocks untaken kind := unwind_finally levelled kind untaken blocks
  ends heap rest := endFinally_payload fits heap rest s
  resumes w t := by rw [direct_resumption]
  cleansUp heap exit rest g site := withCleanup_payload p heap exit rest g site s
  falls rest := endFinally_none rest s
  rounds := throughClauses_eq fits levelled (Nat.lt_succ_self _)

theorem finally_protocol_of_return :
    let blocks : List Block := [⟨.loop, 4, 2⟩, ⟨.finally_, 12, 1⟩]
    let s : Activation := { (default : Activation) with
      frame := { (default : Frame) with stack := [.int 3, .int 2, .int 1], blocks } }
    s.frame.Levelled ∧ (Pending.return_ (.int 5)).Fits ∧
      FinallyProtocol s (.return_ (.int 5)) := by
  have levelled : Frame.Levelled { (default : Frame) with
      stack := [.int 3, .int 2, .int 1], blocks := [⟨.loop, 4, 2⟩, ⟨.finally_, 12, 1⟩] } :=
    ⟨by simp, by simp⟩
  exact ⟨levelled, trivial, finally_protocol levelled trivial⟩

/-- A `continue` to a target that no signed number of 64 bits holds is not taken up
    again. -/
theorem far_continue_not_resumed :
    ¬∀ s p, Frame.Levelled (Activation.frame s) → FinallyProtocol s p := by
  intro protocol
  have ends := (protocol default (.continue_ (Nat.pow 2 63)) ⟨.nil, nofun⟩).ends {} []
  exact nomatch ends

end TieredMachine
