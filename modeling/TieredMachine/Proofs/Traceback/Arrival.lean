/-
  Where an exception arrives.

  An exception arrives in a frame by a primitive: one that raises it, or one whose call ends
  with it.  It may also be thrown into a frame that stands still.  Such a raise is fresh.
  The end of a clause and a bare `raise` take up again an exception that the frame has to
  do with already; such a raise is not fresh.

  * `Stage.TakesUp`: stages at which an exception is taken up again;
  * `Stage.next_raise`: the ways in which an exception comes to be raised;
  * `fresh_of_next`, `stale_of_next`: which of them are fresh;
  * `Inside`, `Inside.lasti`: stages inside an instruction or a block, and the instruction
    that they belong to.
-/
import TieredMachine.Proofs.Traceback.Sparing
import TieredMachine.Proofs.Graph.CleanUp
import TieredMachine.Proofs.Native.Operation
import TieredMachine.Proofs.Run.Flow
import TieredMachine.Proofs.Safety.Spared

namespace TieredMachine

variable {g : Guest} {e : Ref} {fresh : Bool} {s t : Activation} {α β : Type}

/-! ## Taking up again -/

/-- A raise that is new, if the flow is a raise. -/
def Flow.IsFresh : Flow → Prop
  | .raise _ fresh => fresh = true
  | _ => True

theorem Flow.common_isFresh : Flow.Common Flow.IsFresh :=
  ⟨trivial, fun _ => trivial, fun _ => rfl, fun _ => trivial, trivial⟩

theorem caught_raise {x : FrameExec Flow} (h : caught x s = .ok (.raise e fresh) t) :
    (x s = .error (.raised e) t ∧ fresh = true) ∨ x s = .ok (.raise e fresh) t := by
  unfold caught at h
  rw [tryCatch_apply] at h
  cases hx : x s with
  | ok out u =>
    rw [hx] at h
    exact .inr h
  | error fault u =>
    rw [hx] at h
    cases fault with
    | raised exc =>
      cases h
      exact .inl ⟨rfl, rfl⟩
    | _ => cases h

/-- How a computation ends: with a value and a state, or with a fault. -/
def Concludes (x : FrameExec α) (ends : α → Activation → Prop) (fails : Fault → Prop)
    (s : Activation) : Prop :=
  match x s with
  | .ok a t => ends a t
  | .error fault _ => fails fault

namespace Concludes

variable {ends : β → Activation → Prop} {fails : Fault → Prop}

theorem bind {x : FrameExec α} {f : α → FrameExec β}
    (h : Concludes x (fun a t => Concludes (f a) ends fails t) fails s) :
    Concludes (x >>= f) ends fails s := by
  unfold Concludes at h ⊢
  rw [bind_apply]
  cases hx : x s with
  | ok a t =>
    rw [hx] at h
    exact h
  | error fault t =>
    rw [hx] at h
    exact h

theorem popped {ends : Value → Activation → Prop} (none : fails (.stackUnderflow s.frame.position))
    (some : ∀ v rest, s.frame.stack = v :: rest →
      ends v ⟨{ s.frame with stack := rest }, s.machine⟩) : Concludes pop ends fails s := by
  unfold Concludes
  cases h : s.frame.stack with
  | nil =>
    rw [pop_nil h]
    exact none
  | cons v rest =>
    rw [pop_apply h]
    exact some v rest h

theorem looked {ends : Frame → Activation → Prop} (h : ends s.frame s) :
    Concludes frame ends fails s := h

end Concludes

/-- The end of a clause takes an exception up again that its payload holds, and it fails with
    a new exception only. -/
theorem endFinally_concludes (s : Activation) : Concludes endFinally
    (fun out _ => ∀ e fresh, out = .raise e fresh →
      fresh = false ∧ s.frame.stack[1]? = some (.exception e))
    (fun fault => ∀ e, fault = .raised e → s.machine.heap.exceptions.size ≤ e) s := by
  have mishap {f : Fault} (h : ∀ e, f ≠ .raised e) (e : Ref) (raised : f = .raised e) :
      s.machine.heap.exceptions.size ≤ e := absurd raised (h e)
  refine .bind (.popped (mishap nofun) fun top rest first => ?_)
  split
  · exact nofun
  · split
    · exact .bind (.popped (mishap nofun) fun _ _ _ => nofun)
    · refine .bind (.popped (mishap nofun) fun v _ _ => ?_)
      split
      · split
        · exact nofun
        · exact mishap nofun
      · exact mishap nofun
    · exact nofun
    · exact mishap nofun
  · refine .bind (.popped (mishap nofun) fun v rest' second => ?_)
    refine .bind (.popped (mishap nofun) fun _ _ _ => ?_)
    obtain rfl : rest = v :: rest' := second
    split
    · intro e fresh raised
      cases raised
      rw [first]
      exact ⟨rfl, rfl⟩
    · exact mishap nofun
  · intro e raised
    cases raised
    exact Nat.le_refl _

/-- A bare `raise` takes up again what is being handled, and fails only if there is nothing. -/
theorem raiseAgain_concludes (s : Activation) : Concludes (Primitive.raiseOf 0)
    (fun out _ => ∀ e fresh, out = .raise e fresh → fresh = false ∧ s.frame.excInfo = some e)
    (fun _ => s.frame.excInfo = none) s := by
  refine .bind (.looked ?_)
  split
  · rename_i handled
    intro e fresh raised
    cases raised
    exact ⟨rfl, handled⟩
  · assumption

theorem Primitive.run_endFinally {p : Primitive} (hp : p.op = .endFinally) (site : Site)
    (r : Bool) : Primitive.run g site r p = endFinally := by
  obtain ⟨op, arg⟩ := p
  obtain rfl : op = .endFinally := hp
  rfl

/-- The primitive takes an exception up again: the end of a clause whose payload holds it, or
    a bare `raise` where it is being handled. -/
def Primitive.TakesUp (p : Primitive) (e : Ref) (f : Frame) : Prop :=
  (p.op = .endFinally ∧ f.stack[1]? = some (.exception e)) ∨
    (p = ⟨.raiseVarargs, some 0⟩ ∧ f.excInfo = some e)

/-- A primitive raises what it does not take up again freshly. -/
theorem Primitive.fresh_of_caught {p : Primitive} {site : Site} {r : Bool}
    (h : caught (p.run g site r) s = .ok (.raise e fresh) t) (new : ¬ p.TakesUp e s.frame) :
    fresh = true := by
  obtain ⟨-, h⟩ | h := caught_raise h
  · exact h
  by_cases ended : p.op = .endFinally
  · rw [run_endFinally ended] at h
    have again := endFinally_concludes s
    rw [Concludes, h] at again
    exact absurd (.inl ⟨ended, (again e fresh rfl).2⟩) new
  by_cases bare : p = ⟨.raiseVarargs, some 0⟩
  · subst bare
    have again := raiseAgain_concludes s
    rw [Concludes, show raiseOf 0 s = _ from h] at again
    exact absurd (.inr ⟨rfl, (again e fresh rfl).2⟩) new
  · exact run_flows Flow.common_isFresh g site r p (fun _ _ => trivial) (fun _ _ => trivial)
      (absurd · ended) (absurd · bare) s _ t h

/-- It does not raise freshly an exception that it takes up again. -/
theorem Primitive.stale_of_caught {p : Primitive} {site : Site} {r : Bool}
    (h : caught (p.run g site r) s = .ok (.raise e fresh) t) (again : p.TakesUp e s.frame)
    (known : e < s.machine.heap.exceptions.size) : fresh = false := by
  obtain ⟨ended, -⟩ | ⟨rfl, handled⟩ := again
  · have concludes := endFinally_concludes s
    rw [Concludes] at concludes
    rw [run_endFinally ended] at h
    obtain ⟨h, -⟩ | h := caught_raise h
    · rw [h] at concludes
      exact absurd known (Nat.not_lt_of_le (concludes e rfl))
    · rw [h] at concludes
      exact (concludes e fresh rfl).1
  · have concludes := raiseAgain_concludes s
    rw [Concludes] at concludes
    obtain ⟨h, -⟩ | h := caught_raise h
    · rw [show raiseOf 0 s = _ from h, handled] at concludes
      cases concludes
    · rw [show raiseOf 0 s = _ from h] at concludes
      exact (concludes e fresh rfl).1

/-- What a primitive raises is fresh if it does not take it up again, and only then. -/
structure Primitive.Tells (p : Primitive) (e : Ref) (fresh : Bool) (s : Activation) : Prop where
  new : ¬ p.TakesUp e s.frame → fresh = true
  again : p.TakesUp e s.frame → e < s.machine.heap.exceptions.size → fresh = false

theorem Primitive.tells_of_caught {p : Primitive} {site : Site} {r : Bool}
    (h : caught (p.run g site r) s = .ok (.raise e fresh) t) : p.Tells e fresh s :=
  ⟨fresh_of_caught h, stale_of_caught h⟩

/-! ## Frames inside an instruction -/

theorem serves_self (g : Guest) : Serves (equalWorld.agreement .left) g g where
  fuel := .inl rfl
  call _ _ _ := equal_agrees_self _
  resume _ _ := equal_agrees_self _
  close _ := equal_agrees_self _

/-- A frame stays where it is while a primitive runs. -/
theorem Primitive.caught_stays {p : Primitive} {site : Site} {r : Bool} {out : Flow}
    (h : caught (p.run g site r) s = .ok out t) : s.frame.Stays t.frame := by
  have kept := (caught_agrees (run_agrees (serves_self g) site (.inl rfl) p (r := r))).left s
  rw [h] at kept
  exact kept.1

theorem passed_ok {x : FrameExec Flow} {passed : Threaded.Passed}
    (h : Threaded.passed x s = .ok passed t) :
    ∃ out, caught x s = .ok out t ∧ ∀ flow, passed = .flow flow → out = flow := by
  rw [passed_apply] at h
  cases hx : caught x s with
  | error fault u =>
    rw [hx] at h
    cases h
  | ok out u =>
    rw [hx] at h
    cases out <;> cases h <;> exact ⟨_, rfl, fun _ same => by cases same <;> rfl⟩

section

variable {callee : Value} {args : List Value}

theorem callTaken_stays {out : Flow} (h : caught (callTaken g callee args) s = .ok out t) :
    s.frame.Stays t.frame := by
  have called : Agrees (frameWorld equalWorld) .left (callTaken g callee args)
      (callTaken g callee args) :=
    (onMachine_agrees (equal_agrees_self (g.call callee args []))).andThen fun v =>
      (push_agrees v).andThen fun _ => .ret _
  have kept := (caught_agrees called).left s
  rw [h] at kept
  exact kept.1

theorem callTaken_fresh (h : caught (callTaken g callee args) s = .ok (.raise e fresh) t) :
    fresh = true := by
  obtain ⟨-, h⟩ | h := caught_raise h
  · exact h
  · have flows : FlowsOut Flow.IsFresh (callTaken g callee args) :=
      .bind fun _ => .bind fun _ => .ret trivial
    exact flows s _ t h

end

/-- What a direct call hands on. -/
theorem callDirect_passes {site : Site} {arg : Nat} {expected : Value} {passed : Threaded.Passed}
    (h : Threaded.callDirect g site arg expected s = .ok passed t) : s.frame.Stays t.frame ∧
      ∀ e fresh, passed = .flow (.raise e fresh) →
        Primitive.Tells ⟨.callFunction, some arg⟩ e fresh s := by
  have usual (h : Threaded.passed (Primitive.run g site false ⟨.callFunction, some arg⟩) s =
      .ok passed t) : s.frame.Stays t.frame ∧ ∀ e fresh, passed = .flow (.raise e fresh) →
        Primitive.Tells ⟨.callFunction, some arg⟩ e fresh s := by
    obtain ⟨out, ran, same⟩ := passed_ok h
    exact ⟨Primitive.caught_stays ran, fun e fresh raised =>
      Primitive.tells_of_caught (same _ raised ▸ ran)⟩
  rw [callDirect_apply] at h
  split at h
  · exact usual h
  · split at h
    · cases h
    · split at h
      · obtain ⟨out, ran, same⟩ := passed_ok h
        have taken : s.frame.Stays
            { s.frame with stack := s.frame.stack.drop (Primitive.positionalCount arg + 1) } :=
          ⟨rfl, rfl, rfl, rfl, rfl⟩
        refine ⟨taken.trans (callTaken_stays ran), fun e fresh raised =>
          ⟨fun _ => callTaken_fresh (same _ raised ▸ ran), ?_⟩⟩
        rintro (⟨other, -⟩ | ⟨other, -⟩) <;> cases other
      · exact usual h

/-- What an operation on integers hands on. -/
theorem intBinary_passes {site : Site} {op : Opcode} {passed : Threaded.Passed}
    (h : Threaded.intBinary g site op s = .ok passed t) : s.frame.Stays t.frame ∧
      ∀ e fresh, passed = .flow (.raise e fresh) → Primitive.Tells ⟨op, none⟩ e fresh s := by
  have usual (h : Threaded.passed (Primitive.run g site false ⟨op, none⟩) s = .ok passed t) :
      s.frame.Stays t.frame ∧
        ∀ e fresh, passed = .flow (.raise e fresh) → Primitive.Tells ⟨op, none⟩ e fresh s := by
    obtain ⟨out, ran, same⟩ := passed_ok h
    exact ⟨Primitive.caught_stays ran, fun e fresh raised =>
      Primitive.tells_of_caught (same _ raised ▸ ran)⟩
  cases hop : op.operator? with
  | none =>
    unfold Threaded.intBinary at h
    rw [hop] at h
    exact usual h
  | some operator =>
    rw [intBinary_apply g site hop] at h
    split at h
    · split at h
      · cases h
        exact ⟨⟨rfl, rfl, rfl, rfl, rfl⟩, nofun⟩
      · exact usual h
    · cases h

/-- What an operation hands on: if it does not begin an instruction, the frame stays where
    it is, and what is raised is raised by the primitive that is performed. -/
theorem runOp_passes {G : Graph} {i : Inst} {passed : Threaded.Passed}
    (h : Threaded.runOp g G i s = .ok passed t) :
    ((∀ next, i.op ≠ .begin_ next) → s.frame.Stays t.frame) ∧
      ∀ e fresh, passed = .flow (.raise e fresh) →
        ∃ p, i.op.primitive? = some p ∧ p.Tells e fresh s ∧ s.frame.Stays t.frame := by
  obtain ⟨site, op⟩ := i
  cases op with
  | safePoint kind =>
    obtain ⟨reason, u, polled, h⟩ := bind_ok.mp h
    rw [onMachine_apply] at polled
    cases asked : g.poll kind s.machine with
    | error fault m =>
      rw [asked] at polled
      cases polled
    | ok answer m =>
      rw [asked] at polled
      cases polled
      cases reason <;> cases h <;> exact ⟨fun _ => .refl _, nofun⟩
  | guardGlobals v =>
    cases h
    exact ⟨fun _ => .refl _, fun e fresh raised => by split at raised <;> cases raised⟩
  | begin_ next =>
    cases h
    exact ⟨fun other => absurd rfl (other next), nofun⟩
  | prim p =>
    obtain ⟨out, ran, same⟩ := passed_ok h
    have stays := Primitive.caught_stays ran
    exact ⟨fun _ => stays, fun e fresh raised =>
      ⟨p, rfl, Primitive.tells_of_caught (same _ raised ▸ ran), stays⟩⟩
  | pushHandler hd =>
    obtain ⟨_, u, pushed, h⟩ := bind_ok.mp h
    have agrees : Agrees (frameWorld equalWorld) .left
        (pushBlock (G.handler hd).kind (G.handler hd).targetIp)
        (pushBlock (G.handler hd).kind (G.handler hd).targetIp) := pushBlock_agrees _ _
    have kept := agrees.left s
    rw [pushed] at kept
    cases h
    exact ⟨fun _ => kept.1, nofun⟩
  | loadCached a =>
    cases h
    exact ⟨fun _ => ⟨rfl, rfl, rfl, rfl, rfl⟩, nofun⟩
  | callDirect arg expected =>
    obtain ⟨stays, tells⟩ := callDirect_passes h
    exact ⟨fun _ => stays, fun e fresh raised => ⟨_, rfl, tells e fresh raised, stays⟩⟩
  | intBinary op =>
    obtain ⟨stays, tells⟩ := intBinary_passes h
    exact ⟨fun _ => stays, fun e fresh raised => ⟨_, rfl, tells e fresh raised, stays⟩⟩

/-! ## How exceptions come to be raised -/

namespace Stage

/-- The primitive that is run next, and its site. -/
def primitive? : Stage → Option (Site × Primitive)
  | prims _ ip k (p :: _) => some (⟨ip, k⟩, p)
  | ops _ _ (i :: _) _ => i.op.primitive?.map (i.site, ·)
  | ops _ _ [] t => t.primitive?
  | _ => none

/-- The exception is taken up again next. -/
def TakesUp (e : Ref) (p : Stage) (s : Activation) : Prop :=
  ∃ site prim, p.primitive? = some (site, prim) ∧ prim.TakesUp e s.frame

/-- The exception that is thrown into the frame. -/
def thrown? : Stage → Option Ref
  | enter _ (.throw_ exc) | native _ _ (.throw_ exc) => some exc
  | _ => none

theorem flow?_stepOr (w : Watch) (exit : Option Exit) : (stepOr w exit).flow? = none := by
  cases exit <;> rfl

theorem flow?_ofLanding (unit : Ref) (G : Graph) (l : Threaded.Landing) :
    (ofLanding unit G l).flow? = none := by
  cases l <;> rfl

theorem flow?_ofExit (unit : Ref) (exit : NativeExit) : (ofExit unit exit).flow? = none := by
  cases exit <;> rfl

/-- **An exception comes to be raised** when it is thrown into the frame, or by the primitive
    that is run, where the frame stays. -/
theorem raised_cases {p q : Stage} (h : p.next g s = .ok q t)
    (raised : q.flow? = some (.raise e fresh)) :
    (p.thrown? = some e ∧ fresh = true ∧ t = s) ∨
      ∃ site prim, p.primitive? = some (site, prim) ∧ prim.Tells e fresh s ∧
        s.frame.Stays t.frame := by
  cases p with
  | enter w entry =>
    cases entry with
    | throw_ exc =>
      cases h
      cases raised
      exact .inl ⟨rfl, rfl, rfl⟩
    | _ =>
      obtain ⟨exit, u, -, h⟩ := bind_ok.mp h
      cases h
      rw [flow?_stepOr] at raised
      cases raised
  | step w =>
    obtain ⟨i, u, -, h⟩ := bind_ok.mp h
    cases h
    cases raised
  | prims w ip k ps =>
    cases ps with
    | nil =>
      cases h
      cases raised
    | cons prim ps =>
      obtain ⟨out, u, ran, h⟩ := bind_ok.mp h
      cases out <;> cases h <;> cases raised
      exact .inr ⟨_, prim, rfl, Primitive.tells_of_caught ran, Primitive.caught_stays ran⟩
  | flow w out =>
    obtain ⟨exit, u, -, h⟩ := bind_ok.mp h
    cases h
    rw [flow?_stepOr] at raised
    cases raised
  | native unit G entry =>
    cases entry with
    | throw_ exc =>
      cases h
      cases raised
      exact .inl ⟨rfl, rfl, rfl⟩
    | _ =>
      obtain ⟨l, u, -, h⟩ := bind_ok.mp h
      cases h
      rw [flow?_ofLanding] at raised
      cases raised
  | block unit G b =>
    cases h
    cases raised
  | ops unit G is term =>
    cases is with
    | nil =>
      obtain ⟨out, u, ran, h⟩ := bind_ok.mp h
      cases leads : term.edge? out with
      | some along =>
        simp only [leads] at h
        obtain ⟨l, v, -, h⟩ := bind_ok.mp h
        cases h
        rw [flow?_ofLanding] at raised
        cases raised
      | none =>
        simp only [leads] at h
        cases h
        cases raised
        unfold Terminator.flow at ran
        cases given : term.primitive? with
        | none =>
          simp only [given] at ran
          cases ran
        | some given' =>
          simp only [given] at ran
          exact .inr ⟨given'.1, given'.2, given, Primitive.tells_of_caught ran,
            Primitive.caught_stays ran⟩
    | cons i is =>
      obtain ⟨passed, u, ran, h⟩ := bind_ok.mp h
      cases passed <;> cases h <;> cases raised
      obtain ⟨p, performed, tells, stays⟩ := (runOp_passes ran).2 e fresh rfl
      exact .inr ⟨i.site, p, by rw [primitive?, performed]; rfl, tells, stays⟩
  | way unit G out =>
    obtain ⟨l, u, -, h⟩ := bind_ok.mp h
    cases h
    rw [flow?_ofLanding] at raised
    cases raised
  | kernel unit k entry =>
    obtain ⟨exit, u, -, h⟩ := bind_ok.mp h
    cases h
    rw [flow?_ofExit] at raised
    cases raised
  | bail unit reason =>
    obtain ⟨entry, u, -, h⟩ := bind_ok.mp h
    cases h
    cases raised
  | left exit =>
    cases h
    cases raised

end Stage

end TieredMachine
