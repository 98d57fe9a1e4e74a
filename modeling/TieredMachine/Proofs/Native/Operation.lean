/-
  Operations of threaded code do what primitives do.

  An operation of threaded code stands for a primitive.  It hands on like the
  primitive, with two differences that are not seen: an operation may take a short
  way, and what fails for want of stack values may leave more of them behind.

  * `AnswersAlike`: an operation and a primitive hand on alike;
  * `callDirect_apply`, `intBinary_apply`: the short ways;
  * `Performs.meets`: every operation against its primitive.
-/
import TieredMachine.Proofs.Graph.Place
import TieredMachine.Proofs.Native.Integers
import TieredMachine.Run.Threaded

namespace TieredMachine

variable {us : Array CodeUnit} {side : Side} {g g' : Guest} {α β : Type}

/-! ## Handing on -/

/-- How an operation hands on, against the flow out of the primitive that it
    performs. -/
inductive Answers : Threaded.Passed → Flow → Prop
  | next : Answers .next .next
  | flow {flow} : flow ≠ .next → Answers (.flow flow) flow

/-- An operation and a primitive hand on alike, in states that look alike. -/
def AnswersAlike (us : Array CodeUnit) (p : Threaded.Passed) (t : Activation) (flow : Flow)
    (t' : Activation) : Prop :=
  Answers p flow ∧ (runWorld us).alike t t'

theorem finalState_caught (x : FrameExec Flow) (s : Activation) :
    finalState (caught x s) = finalState (x s) := by
  unfold caught
  rw [tryCatch_apply]
  cases x s with
  | ok a t => rfl
  | error e t => cases e <;> rfl

theorem spent_caught {x : FrameExec Flow} {s : Activation} (h : (runWorld us).Spent (x s)) :
    (runWorld us).Spent (caught x s) := by
  obtain ⟨_, t, h⟩ | h := h
  · refine .inl ⟨trivial, t, ?_⟩
    unfold caught
    rw [tryCatch_apply, h]
    rfl
  · refine .inr ?_
    rw [finalState_caught]
    exact h

/-- Raising guest exceptions where they happen agrees. -/
theorem caught_agree {x y : FrameExec Flow} {s s' : Activation}
    (h : Agree (runWorld us) side (x s) (y s')) :
    Agree (runWorld us) side (caught x s) (caught y s') := by
  have hl : (runWorld us).Spent (x s) → (runWorld us).Spent (caught x s) := spent_caught
  have hr : (runWorld us).Spent (y s') → (runWorld us).Spent (caught y s') := spent_caught
  unfold caught at *
  rw [tryCatch_apply, tryCatch_apply] at *
  generalize x s = r, y s' = r' at h hl hr
  cases h with
  | ok h => exact .ok h
  | left hs h => exact .left hs (hl h)
  | right hs h => exact .right hs (hr h)
  | @error e _ _ h =>
    cases e with
    | raised exc => exact .same ((runWorld us).alike_of_raised h)
    | _ => exact .error h

theorem passed_apply (x : FrameExec Flow) (s : Activation) :
    Threaded.passed x s = match caught x s with
      | .ok .next t => .ok .next t
      | .ok flow t => .ok (.flow flow) t
      | .error e t => .error e t := by
  unfold Threaded.passed
  rw [bind_apply]
  cases caught x s with
  | error e t => rfl
  | ok flow t => cases flow <;> rfl

theorem spent_passed {x : FrameExec Flow} {s : Activation}
    (h : (runWorld us).Spent (caught x s)) : (runWorld us).Spent (Threaded.passed x s) := by
  rw [passed_apply]
  obtain ⟨_, t, h⟩ | h := h
  · rw [h]
    exact .inl ⟨trivial, t, rfl⟩
  · refine .inr ?_
    cases hx : caught x s with
    | error e t => rw [hx] at h; exact h
    | ok flow t => rw [hx] at h; cases flow <;> exact h

theorem caught_congr {x y : FrameExec Flow} {s t : Activation} (h : x s = y t) :
    caught x s = caught y t := by
  unfold caught
  rw [tryCatch_apply, tryCatch_apply, h]

/-- A primitive as an operation hands on like the primitive. -/
theorem passed_meets {x y : FrameExec Flow} {s s' : Activation}
    (h : Agree (runWorld us) side (x s) (y s')) :
    Meet (runWorld us) side (AnswersAlike us) (Threaded.passed x s) (caught y s') := by
  have h := caught_agree h
  have hl : (runWorld us).Spent (caught x s) → (runWorld us).Spent (Threaded.passed x s) :=
    spent_passed
  rw [passed_apply] at *
  generalize caught x s = r, caught y s' = r' at h hl
  cases h with
  | error h => exact .error h
  | left hs h => exact .left hs (hl h)
  | right hs h => exact .right hs h
  | @ok flow _ _ _ h =>
    obtain ⟨rfl, h⟩ := h
    cases flow with
    | next => exact .ok ⟨.next, h⟩
    | _ => exact .ok ⟨.flow (fun h => nomatch h), h⟩

/-! ## Block setups -/

namespace Primitive

theorem setup_run (g : Guest) (site : Site) (r : Bool) {p : Primitive} {s : Activation}
    {kind : BlockKind} {target : Nat} (hk : p.op.blockKind? = some kind)
    (ht : p.target? s.frame.ip = some target) :
    run g site r p s = (do pushBlock kind target; return Flow.next) s := by
  obtain ⟨op, arg⟩ := p
  cases arg with
  | none => simp [Primitive.target?] at ht
  | some arg =>
    simp only [Primitive.target?, Option.bind_some] at ht
    have set : Primitive.setupBlock op arg s = pushBlock kind target s := by
      unfold Primitive.setupBlock
      rw [bind_apply]
      have : Primitive.targetOf op arg s = .ok target s := by
        unfold Primitive.targetOf
        rw [bind_apply]
        simp only [show TieredMachine.frame s = .ok s.frame s from rfl, ht]
        rfl
      simp only [this, hk, Option.getD_some]
    have run : Primitive.run g site r ⟨op, some arg⟩ =
        Primitive.thenNext (Primitive.setupBlock op arg) := by
      have setup : op = .setupLoop ∨ op = .setupExcept ∨ op = .setupFinally := by
        unfold Opcode.blockKind? at hk
        split at hk <;> simp_all
      rcases setup with rfl | rfl | rfl <;> rfl
    rw [run, Primitive.thenNext, bind_apply, set, bind_apply]

end Primitive

/-! ## The stack -/

/-- A call takes the callee and the arguments off the stack. -/
theorem takeCall_apply {argc : Nat} {s : Activation} {callee : Value}
    (k : List Value → Value → FrameExec α) (h : s.frame.stack[argc]? = some callee) :
    (do let args ← popN argc; let callee ← pop; k args callee) s =
      k (s.frame.stack.take argc).reverse callee
        ⟨{ s.frame with stack := s.frame.stack.drop (argc + 1) }, s.machine⟩ := by
  obtain ⟨hlen, hget⟩ := List.getElem?_eq_some_iff.mp h
  have hdrop : s.frame.stack.drop argc = callee :: s.frame.stack.drop (argc + 1) := by
    rw [List.drop_eq_getElem_cons hlen, hget]
  have first : popN argc s = .ok (s.frame.stack.take argc).reverse
      ⟨{ s.frame with stack := s.frame.stack.drop argc }, s.machine⟩ := by
    unfold popN
    rw [take_apply]
    simp only [Frame.popN, if_neg (Nat.not_lt.mpr (Nat.le_of_lt hlen))]
  rw [bind_apply, first]
  dsimp only
  rw [bind_apply, pop_apply hdrop]

/-! ## Direct calls -/

/-- What a call does once the callee and the arguments are off the stack. -/
def callTaken (g : Guest) (callee : Value) (args : List Value) : FrameExec Flow := do
  push (← g.call callee args [])
  return .next

theorem callTaken_agrees (hg : Guests us side g g') (callee : Value) (args : List Value) :
    Agrees (frameWorld (machineWorld us)) side (callTaken g callee args) (callTaken g' callee args) :=
  (lift_agrees (hg.call callee args [])).andThen fun v => (push_agrees v).andThen fun _ => .ret _

/-- A call with positional arguments only. -/
def plainCall (g : Guest) (site : Site) (r : Bool) (argc : Nat) : FrameExec Flow := do
  let args ← popN argc
  let callee ← pop
  if r then Primitive.report (·.recordCallee site callee)
  callTaken g callee args

theorem run_plainCall (g : Guest) (site : Site) (r : Bool) {arg : Nat}
    (h : Primitive.keywordCount arg = 0) :
    Primitive.run g site r ⟨.callFunction, some arg⟩ =
      plainCall g site r (Primitive.positionalCount arg) := by
  have none (s : Activation) :
      Primitive.callFunction g site r (false, false) arg s = (do
        let args ← popN (Primitive.positionalCount arg)
        let callee ← pop
        if r then Primitive.report (·.recordCallee site callee)
        push (← g.call callee args [])) s := by
    unfold Primitive.callFunction
    rw [h]
    rfl
  funext s
  show (Primitive.callFunction g site r (false, false) arg >>= fun _ => pure Flow.next) s = _
  rw [bind_apply, none, ← bind_apply]
  unfold plainCall callTaken
  simp only [bind_assoc]
  rw [bind_apply, bind_apply]
  cases popN (Primitive.positionalCount arg) s with
  | error e t => rfl
  | ok args t =>
    dsimp only
    rw [bind_apply, bind_apply]
    cases pop t with
    | error e t => rfl
    | ok callee t =>
      dsimp only
      split
      · simp only [bind_assoc]
      · simp only [bind_assoc]

/-- A call of what is not there fails for want of stack values. -/
theorem plainCall_underflow (g : Guest) (site : Site) (r : Bool) {argc : Nat} {s : Activation}
    (h : s.frame.stack[argc]? = none) :
    ∃ stack, plainCall g site r argc s = .error (.stackUnderflow s.frame.position)
      { s with frame := { s.frame with stack } } := by
  have hlen : s.frame.stack.length ≤ argc := List.getElem?_eq_none_iff.mp h
  unfold plainCall popN
  rw [bind_apply, take_apply]
  unfold Frame.popN
  by_cases hlt : s.frame.stack.length < argc
  · rw [if_pos hlt]
    exact ⟨s.frame.stack, rfl⟩
  · rw [if_neg hlt]
    refine ⟨[], ?_⟩
    have hnil : s.frame.stack.drop argc = [] := List.drop_eq_nil_of_le hlen
    dsimp only
    rw [bind_apply, pop_nil hnil]
    simp only [hnil]
    rfl

theorem plainCall_apply (us : Array CodeUnit) (g : Guest) (site : Site) (r : Bool) {argc : Nat}
    {s : Activation} {callee : Value} (h : s.frame.stack[argc]? = some callee) :
    ∃ m, s.machine.Veiled us m ∧ plainCall g site r argc s =
      callTaken g callee (s.frame.stack.take argc).reverse
        ⟨{ s.frame with stack := s.frame.stack.drop (argc + 1) }, m⟩ := by
  unfold plainCall
  rw [takeCall_apply _ h]
  dsimp only
  split
  · obtain ⟨m, hr, hm⟩ := (Primitive.quiet_report (·.recordCallee site callee) : Quiet us _)
      ⟨{ s.frame with stack := s.frame.stack.drop (argc + 1) }, s.machine⟩
    refine ⟨m, hm, ?_⟩
    rw [bind_apply, hr]
  · exact ⟨s.machine, .refl _, rfl⟩

/-- A direct call looks for the callee first, and takes the short way when it is the
    expected one. -/
theorem callDirect_apply (g : Guest) (site : Site) (arg : Nat) (expected : Value)
    (s : Activation) :
    Threaded.callDirect g site arg expected s =
      if Primitive.keywordCount arg ≠ 0 then
        Threaded.passed (Primitive.run g site false ⟨.callFunction, some arg⟩) s
      else match s.frame.stack[Primitive.positionalCount arg]? with
        | none => .error (.stackUnderflow s.frame.position) s
        | some v =>
          if v = expected then
            Threaded.passed (callTaken g v
              (s.frame.stack.take (Primitive.positionalCount arg)).reverse)
              ⟨{ s.frame with
                  stack := s.frame.stack.drop (Primitive.positionalCount arg + 1) }, s.machine⟩
          else Threaded.passed (Primitive.run g site false ⟨.callFunction, some arg⟩) s := by
  unfold Threaded.callDirect
  dsimp only
  by_cases hk : Primitive.keywordCount arg ≠ 0
  · rw [if_pos hk, if_pos hk]
    rfl
  · rw [if_neg hk, if_neg hk, bind_apply]
    cases hv : s.frame.stack[Primitive.positionalCount arg]? with
    | none => rw [peek_none hv]
    | some v =>
      rw [peek_apply hv]
      show (if v.isSame expected = true then _ else _ : FrameExec Threaded.Passed) s = _
      dsimp only
      by_cases he : v = expected
      · rw [if_pos (by simpa [Value.isSame] using he), if_pos he, he]
        exact takeCall_apply (fun args _ => Threaded.passed (callTaken g expected args)) hv
      · rw [if_neg (by simpa [Value.isSame] using he), if_neg he]

/-- A direct call hands on like the call that it stands for. -/
theorem callDirect_meets (hg : Guests us side g g') (site : Site) (r : Bool) (arg : Nat)
    (expected : Value) {s s' : Activation} (hs : (runWorld us).alike s s') :
    Meet (runWorld us) side (AnswersAlike us) (Threaded.callDirect g site arg expected s)
      (caught (Primitive.run g' site r ⟨.callFunction, some arg⟩) s') := by
  have usual : Meet (runWorld us) side (AnswersAlike us)
      (Threaded.passed (Primitive.run g site false ⟨.callFunction, some arg⟩) s)
      (caught (Primitive.run g' site r ⟨.callFunction, some arg⟩) s') :=
    passed_meets ((primitive_agrees hg site false r _).inRun.agree hs)
  rw [callDirect_apply]
  split
  · exact usual
  · rename_i hk
    rw [run_plainCall g' site r (Classical.not_not.mp hk)] at usual ⊢
    split
    · rename_i hv
      obtain ⟨stack, hu⟩ := plainCall_underflow g' site r (s := s') (hs.1 ▸ hv)
      have failed : caught (plainCall g' site r (Primitive.positionalCount arg)) s' =
          .error (.stackUnderflow s'.frame.position)
            { s' with frame := { s'.frame with stack } } := by
        unfold caught
        rw [tryCatch_apply, hu]
        rfl
      rw [failed, hs.1]
      exact .error ⟨.inr ⟨rfl, by simp only [Frame.unstacked, hs.1]⟩, hs.2⟩
    · rename_i v hv
      split
      · obtain ⟨m, hm, hr⟩ := plainCall_apply us g' site r (s := s') (hs.1 ▸ hv)
        rw [caught_congr hr, ← hs.1]
        exact passed_meets ((callTaken_agrees hg v _).inRun.agree ⟨rfl, hm.alike_right hs.2⟩)
      · exact usual

/-! ## Operators on integers -/

/-- An operator fails without two values on the stack. -/
theorem applyBinary_underflow (g : Guest) (site : Site) (r : Bool)
    (operator : Guest → BinaryOp → Value → Value → Exec Value) (op : BinaryOp) {s : Activation}
    (h : s.frame.stack.length < 2) :
    ∃ stack, Primitive.applyBinary g site r operator op s =
      .error (.stackUnderflow s.frame.position) { s with frame := { s.frame with stack } } := by
  unfold Primitive.applyBinary
  cases hs : s.frame.stack with
  | nil =>
    refine ⟨[], ?_⟩
    rw [bind_apply, pop_nil hs]
    simp only [← hs]
  | cons b rest =>
    cases rest with
    | nil =>
      refine ⟨[], ?_⟩
      rw [bind_apply, pop_apply hs]
      dsimp only
      rw [bind_apply, pop_nil rfl]
      rfl
    | cons a rest =>
      rw [hs] at h
      exact absurd h (by simp)

/-- An integer operation looks for two integers first, and takes the short way when they
    have a result. -/
theorem intBinary_apply (g : Guest) (site : Site) {op : Opcode} {operator : BinaryOp}
    (hop : op.operator? = some operator) (s : Activation) :
    Threaded.intBinary g site op s = match s.frame.stack with
      | b :: a :: rest =>
        match Threaded.integerResult? operator a b with
        | some v => .ok .next ⟨{ s.frame with stack := .int v :: rest }, s.machine⟩
        | none => Threaded.passed (Primitive.run g site false ⟨op, none⟩) s
      | _ => .error (.stackUnderflow s.frame.position) s := by
  unfold Threaded.intBinary
  rw [hop]
  dsimp only
  rw [bind_apply]
  cases hs : s.frame.stack with
  | nil => rw [peek_none (by simp [hs])]
  | cons b rest =>
    cases rest with
    | nil => rw [peek_none (by simp [hs])]
    | cons a rest =>
      rw [peek_apply (v := a) (by simp [hs])]
      dsimp only
      rw [bind_apply, peek_apply (v := b) (by simp [hs])]
      dsimp only
      cases Threaded.integerResult? operator a b with
      | none => rfl
      | some v =>
        dsimp only
        have two : popN 2 s = .ok [a, b] ⟨{ s.frame with stack := rest }, s.machine⟩ := by
          unfold popN
          rw [take_apply, Frame.popN, if_neg (by simp [hs])]
          simp [hs]
        rw [bind_apply, two]
        rfl

theorem integerResult?_eq_some {op : BinaryOp} {a b : Value} {v : Int64}
    (h : Threaded.integerResult? op a b = some v) :
    ∃ m n, a = .int m ∧ b = .int n ∧ Integer.binary op m n = .ok (some v) := by
  unfold Threaded.integerResult? at h
  split at h
  · split at h
    · subst h
      exact ⟨_, _, rfl, rfl, by assumption⟩
    · cases h
  · cases h

/-- An integer operation hands on like the operator that it stands for. -/
theorem intBinary_meets (hg : Guests us side g g') (site : Site) (r : Bool) {op : Opcode}
    (hop : op.operator?.isSome) {s s' : Activation} (hs : (runWorld us).alike s s') :
    Meet (runWorld us) side (AnswersAlike us) (Threaded.intBinary g site op s)
      (caught (Primitive.run g' site r ⟨op, none⟩) s') := by
  obtain ⟨operator, hop⟩ := Option.isSome_iff_exists.mp hop
  have usual : Meet (runWorld us) side (AnswersAlike us)
      (Threaded.passed (Primitive.run g site false ⟨op, none⟩) s)
      (caught (Primitive.run g' site r ⟨op, none⟩) s') :=
    passed_meets ((primitive_agrees hg site false r _).inRun.agree hs)
  obtain ⟨f, hf, run⟩ := Primitive.run_operator g' site r none hop
  rw [run] at usual ⊢
  rw [intBinary_apply g site hop]
  split
  · rename_i b a rest hstack
    split
    · rename_i v hv
      obtain ⟨m, n, rfl, rfl, hb⟩ := integerResult?_eq_some hv
      obtain ⟨mach, hm, ha⟩ := Primitive.applyBinary_apply us g' site r f operator
        (s := s') (hs.1 ▸ hstack)
      have right : Primitive.thenNext (Primitive.applyBinary g' site r f operator) s' =
          .ok .next ⟨{ s'.frame with stack := .int v :: rest }, mach⟩ := by
        unfold Primitive.thenNext
        rw [bind_apply, ha, hf.int, binary_int g' hb]
        rfl
      have done : caught (Primitive.thenNext (Primitive.applyBinary g' site r f operator)) s' =
          .ok .next ⟨{ s'.frame with stack := .int v :: rest }, mach⟩ := by
        unfold caught
        rw [tryCatch_apply, right]
      rw [done, hs.1]
      exact .ok ⟨.next, rfl, hm.alike_right hs.2⟩
    · exact usual
  · rename_i hshort
    have short : s'.frame.stack.length < 2 := by
      rw [← hs.1]
      match hst : s.frame.stack with
      | [] => simp
      | [_] => simp
      | b :: a :: rest => exact absurd hst (hshort b a rest)
    obtain ⟨stack, hu⟩ := applyBinary_underflow g' site r f operator short
    have failed : caught (Primitive.thenNext (Primitive.applyBinary g' site r f operator)) s' =
        .error (.stackUnderflow s'.frame.position)
          { s' with frame := { s'.frame with stack } } := by
      unfold caught Primitive.thenNext
      rw [tryCatch_apply, bind_apply, hu]
      rfl
    rw [failed, hs.1]
    exact .error ⟨.inr ⟨rfl, by simp only [Frame.unstacked, hs.1]⟩, hs.2⟩

/-! ## All operations -/

/-- An operation hands on like the primitive that it performs. -/
theorem Performs.meets (hg : Guests us side g g') {G : Graph} {i : Instr} {k : Nat} {op : Op}
    {p : Primitive} (h : Performs G.Sets i op p) (r : Bool) {s s' : Activation}
    (hs : (runWorld us).alike s s') (hip : s'.frame.ip = i.next) :
    Meet (runWorld us) side (AnswersAlike us) (Threaded.runOp g G ⟨⟨i.ip, k⟩, op⟩ s)
      (caught (Primitive.run g' ⟨i.ip, k⟩ r p) s') := by
  cases h with
  | prim => exact passed_meets ((primitive_agrees hg ⟨i.ip, k⟩ false r p).inRun.agree hs)
  | call => exact callDirect_meets hg _ r _ _ hs
  | int hop => exact intBinary_meets hg _ r hop hs
  | @setup _ kind target h hk ht hset =>
    have right := Primitive.setup_run g' ⟨i.ip, k⟩ r (s := s') hk (by rw [hip]; exact ht)
    have left : Threaded.runOp g G ⟨⟨i.ip, k⟩, .pushHandler h⟩ =
        (do pushBlock kind target; return Threaded.Passed.next) := by
      have kindOf : (G.handler h).kind = kind := hset.2.1
      have targetOf : (G.handler h).targetIp = target := hset.2.2
      show (do pushBlock (G.handler h).kind (G.handler h).targetIp; return Threaded.Passed.next)
        = _
      rw [kindOf, targetOf]
    have pushed (s : Activation) : Threaded.passed (do pushBlock kind target; return Flow.next) s =
        (do pushBlock kind target; return Threaded.Passed.next) s := by
      rw [passed_apply]
      unfold caught
      rw [tryCatch_apply, bind_apply, bind_apply, pushBlock_eq_take, take_apply]
      unfold Frame.pushBlock
      by_cases full : maxBlocks ≤ s.frame.blocks.length
      · rw [if_pos full]
        rfl
      · rw [if_neg full]
        rfl
    rw [left, ← pushed, caught_congr right]
    exact passed_meets (((pushBlock_agrees kind target).andThen fun _ => .ret _).inRun.agree hs)

end TieredMachine
