/-
  The flows out of primitives.

  A primitive hands on to the next one, jumps, leaves the frame, or starts an unwind or a
  raise.  What an unwind or a raise is about is new, except at the end of a `finally` clause
  and where the exception being handled is raised again.

  * `FlowsOut`: every flow out of a computation is of some kind;
  * `Flow.Common`: the kinds that the flows of all other primitives are of;
  * **`Primitive.run_flows`**: the kinds of flows out of any primitive;
  * `Flow.Stays`: the kind of flows that are no jumps.
-/
import TieredMachine.Primitive.Dispatch
import TieredMachine.Proofs.Agreement.Basic

namespace TieredMachine

/-- Every flow out of a computation is of some kind. -/
def FlowsOut (P : Flow → Prop) (x : FrameExec Flow) : Prop :=
  ∀ s flow t, x s = .ok flow t → P flow

/-- Whether the argument of the opcode is a place that control goes to from where the frame
    stands. -/
def Opcode.isDirected (op : Opcode) : Bool :=
  op ≠ .continueLoop && (op.argKind = .relJump || op.argKind = .absJump)

/-- A kind of flows that all are of which go nowhere and take up nothing again. -/
structure Flow.Common (P : Flow → Prop) : Prop where
  next : P .next
  yield_ : ∀ v, P (.yield_ v)
  raise : ∀ exc, P (.raise exc true)
  return_ : ∀ v, P (.unwind (.return_ v))
  break_ : P (.unwind .break_)

variable {P : Flow → Prop}

namespace FlowsOut

theorem bind {α : Type} {x : FrameExec α} {f : α → FrameExec Flow} (h : ∀ a, FlowsOut P (f a)) :
    FlowsOut P (x >>= f) := by
  intro s flow t run
  obtain ⟨a, u, -, run⟩ := bind_ok.mp run
  exact h a u flow t run

theorem ret {flow : Flow} (h : P flow) : FlowsOut P (pure flow) := by
  intro s flow t run
  cases run
  exact h

theorem fail (e : Fault) : FlowsOut P (throw e) := fun _ _ _ run => nomatch run

theorem onMachine_raise (kind : ExceptionKind) (message : String) :
    FlowsOut P (onMachine (raise kind message)) := fun _ _ _ run => nomatch run

end FlowsOut

namespace Primitive

variable (hP : Flow.Common P)
include hP

/-- What hands on to the next primitive starts nothing. -/
theorem thenNext_flows (x : FrameExec Unit) : FlowsOut P (thenNext x) :=
  .bind fun _ => .ret hP.next

omit hP in
theorem jump_flows (jumps : ∀ target, P (.jump target)) (op : Opcode) (arg : Nat) :
    FlowsOut P (jump op arg) :=
  .bind fun target => .ret (jumps target)

theorem decidedJump_flows (jumps : ∀ target, P (.jump target)) (op : Opcode) (truth : Bool)
    (target : Nat) : FlowsOut P (do
    match decideJump? op truth with
    | none => throw (.runtime (.notConditionalJump op))
    | some (taken, popped) =>
      if popped then
        let _ ← pop
      return if taken then .jump target else .next) := by
  have goes (taken : Bool) : FlowsOut P (pure (if taken then .jump target else .next)) := by
    cases taken
    · exact .ret hP.next
    · exact .ret (jumps target)
  split
  · exact .fail _
  · dsimp only
    split
    · exact .bind fun _ => goes _
    · exact goes _

theorem testJump_flows (jumps : ∀ target, P (.jump target)) (site : Site) (recording : Bool)
    (op : Opcode) (arg : Nat) : FlowsOut P (testJump site recording op arg) := by
  refine .bind fun target => .bind fun tested => .bind fun truth => ?_
  dsimp only
  split
  · exact .bind fun _ => decidedJump_flows hP jumps op truth target
  · exact decidedJump_flows hP jumps op truth target

theorem forIter_flows (jumps : ∀ target, P (.jump target)) (g : Guest) (arg : Nat) :
    FlowsOut P (forIter g arg) := by
  refine .bind fun it => .bind fun item => ?_
  split
  · exact .bind fun _ => .ret hP.next
  · exact .bind fun _ => jump_flows jumps _ _

theorem raiseOf_flows (count : Nat) (again : count = 0 → FlowsOut P (raiseOf 0)) :
    FlowsOut P (raiseOf count) := by
  unfold raiseOf
  split
  · exact again rfl
  · exact .bind fun _ => .bind fun exc => .ret (hP.raise exc)
  · exact .bind fun _ => .bind fun _ => .bind fun exc => .ret (hP.raise exc)
  · exact .fail _

theorem runPlain_flows (g : Guest) (site : Site) (op : Opcode)
    (ended : op = .endFinally → FlowsOut P endFinally) : FlowsOut P (runPlain g site op) := by
  unfold runPlain
  split
  case h_1 => exact .ret hP.next
  case h_25 => exact .ret hP.break_
  case h_26 => exact .bind fun v => .ret (hP.return_ v)
  case h_27 => exact .bind fun v => .ret (hP.yield_ v)
  case h_29 => exact ended rfl
  all_goals first | exact thenNext_flows hP _ | exact .fail _

theorem runWithArg_flows (g : Guest) (site : Site) (recording : Bool) (op : Opcode) (arg : Nat)
    (jumps : op.isDirected = true → ∀ target, P (.jump target))
    (continued : op = .continueLoop → P (.unwind (.continue_ arg)))
    (again : op = .raiseVarargs → arg = 0 → FlowsOut P (raiseOf 0)) :
    FlowsOut P (runWithArg g site recording op arg) := by
  unfold runWithArg
  split
  all_goals first
    | exact thenNext_flows hP _ | exact .fail _ | exact forIter_flows hP (jumps rfl) _ _
    | exact jump_flows (jumps rfl) _ _ | exact testJump_flows hP (jumps rfl) _ _ _ _ | skip
  · exact .ret (continued rfl)
  · exact raiseOf_flows hP arg (again rfl)

/-- **The flows out of a primitive** are of every common kind that the jumps are of which it may
    make, the `continue` which it may start, and what it may take up again. -/
theorem run_flows (g : Guest) (site : Site) (recording : Bool) (p : Primitive)
    (jumps : p.op.isDirected = true → ∀ target, P (.jump target))
    (continued : ∀ arg, p = ⟨.continueLoop, some arg⟩ → P (.unwind (.continue_ arg)))
    (ended : p.op = .endFinally → FlowsOut P endFinally)
    (again : p = ⟨.raiseVarargs, some 0⟩ → FlowsOut P (raiseOf 0)) :
    FlowsOut P (p.run g site recording) := by
  obtain ⟨op, arg⟩ := p
  unfold run
  split
  · exact thenNext_flows hP _
  · exact thenNext_flows hP _
  · exact thenNext_flows hP _
  · split
    · exact thenNext_flows hP _
    · split
      · split
        · rename_i given
          cases given
          exact runWithArg_flows hP g site recording op _ jumps
            (fun h => continued _ (by rw [h])) fun h none => again (by rw [h, none])
        · exact .fail _
      · exact runPlain_flows hP g site op ended

end Primitive

/-! ## Flows that are no jumps -/

/-- The flow is no jump. -/
def Flow.Stays (flow : Flow) : Prop := ∀ target, flow ≠ .jump target

theorem Flow.common_stays : Flow.Common Flow.Stays :=
  ⟨nofun, nofun, nofun, nofun, nofun⟩

theorem endFinally_stays : FlowsOut Flow.Stays endFinally := by
  refine .bind fun top => ?_
  split
  · exact .ret nofun
  · split
    · exact .bind fun v => .ret nofun
    · refine .bind fun v => ?_
      split
      · split
        · exact .ret nofun
        · exact .bind fun _ => .fail _
      · exact .bind fun _ => .fail _
    · exact .ret nofun
    · exact .fail _
  · refine .bind fun v => .bind fun _ => ?_
    split
    · exact .ret nofun
    · exact .bind fun _ => .fail _
  · exact .bind fun _ => .onMachine_raise _ _

theorem Primitive.runPlain_stays (g : Guest) (site : Site) (op : Opcode) :
    FlowsOut Flow.Stays (runPlain g site op) :=
  runPlain_flows Flow.common_stays g site op fun _ => endFinally_stays

theorem Primitive.runWithArg_stays (g : Guest) (site : Site) (recording : Bool) {op : Opcode}
    (h : op.isDirected = false) (arg : Nat) :
    FlowsOut Flow.Stays (runWithArg g site recording op arg) := by
  refine runWithArg_flows Flow.common_stays g site recording op arg
    (fun directed => absurd directed (Bool.eq_false_iff.mp h)) (fun _ => nofun) fun _ _ =>
    .bind fun f => ?_
  split
  · exact .ret nofun
  · exact .onMachine_raise _ _

end TieredMachine
