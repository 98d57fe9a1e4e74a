/-
  Frames that yield can be resumed.

  Only one primitive yields, and it ends its instruction.  The frame then stands
  behind that instruction, which is the last one that it began.

  * `Unyielding`: computations that do not yield;
  * `Primitive.run_yields`: what a primitive that yields is;
  * `interpret_yields`: the frame that a run of the interpreter leaves suspended.
-/
import TieredMachine.Proofs.Agreement.Interpreter

namespace TieredMachine

variable {us : Array CodeUnit} {g g' : Guest} {α : Type}

/-- The computation does not yield. -/
def Unyielding (x : FrameExec Flow) : Prop := ∀ s v t, x s ≠ .ok (.yield_ v) t

namespace Unyielding

theorem bind {x : FrameExec α} {f : α → FrameExec Flow} (h : ∀ a, Unyielding (f a)) :
    Unyielding (x >>= f) := by
  intro s v t h'
  obtain ⟨a, u, -, h'⟩ := bind_ok.mp h'
  exact h a u v t h'

theorem pure {flow : Flow} (h : ∀ v, flow ≠ .yield_ v) : Unyielding (Pure.pure flow) := by
  intro s v t h'
  cases h'
  exact h v rfl

theorem throw (e : Fault) : Unyielding (MonadExcept.throw e) := fun _ _ _ h => nomatch h

theorem onMachine {x : Exec Flow} (h : ∀ m v t, x m ≠ .ok (.yield_ v) t) :
    Unyielding (onMachine x) := by
  intro s v t h'
  rw [onMachine_apply] at h'
  cases hx : x s.machine with
  | ok a m =>
    rw [hx] at h'
    cases h'
    exact h _ _ _ hx
  | error e m =>
    rw [hx] at h'
    cases h'

theorem ite {c : Prop} [Decidable c] {x y : FrameExec Flow} (hx : Unyielding x)
    (hy : Unyielding y) : Unyielding (if c then x else y) := by
  split
  · exact hx
  · exact hy

end Unyielding

namespace Primitive

/-! ## Primitives -/

theorem unyielding_thenNext (x : FrameExec Unit) : Unyielding (thenNext x) :=
  .bind fun _ => .pure fun _ h => nomatch h

theorem unyielding_jump (op : Opcode) (arg : Nat) : Unyielding (jump op arg) :=
  .bind fun _ => .pure fun _ h => nomatch h

theorem unyielding_testJump (site : Site) (r : Bool) (op : Opcode) (arg : Nat) :
    Unyielding (testJump site r op arg) := by
  have answer (taken : Bool) (target : Nat) :
      Unyielding (Pure.pure (if taken then Flow.jump target else .next)) :=
    .pure fun v h => by cases taken <;> cases h
  refine .bind fun target => .bind fun tested => .bind fun truth => .ite (.bind fun _ => ?_) ?_
  all_goals
    cases decideJump? op truth with
    | none => exact .throw _
    | some d => exact .ite (.bind fun _ => answer d.1 target) (answer d.1 target)

theorem unyielding_forIter (g : Guest) (arg : Nat) : Unyielding (forIter g arg) := by
  refine .bind fun it => .bind fun item => ?_
  cases item with
  | some item => exact .bind fun _ => .pure fun _ h => nomatch h
  | none => exact .bind fun _ => unyielding_jump _ _

theorem unyielding_raiseOf (count : Nat) : Unyielding (raiseOf count) := by
  unfold raiseOf
  split
  · refine .bind fun f => ?_
    cases f.excInfo with
    | some exc => exact .pure fun _ h => nomatch h
    | none => exact .onMachine fun _ _ _ h => nomatch h
  · exact .bind fun _ => .bind fun _ => .pure fun _ h => nomatch h
  · exact .bind fun _ => .bind fun _ => .bind fun _ => .pure fun _ h => nomatch h
  · exact .throw _

theorem unyielding_endFinally : Unyielding endFinally := by
  refine .bind fun v => ?_
  split
  · exact .pure fun _ h => nomatch h
  · split
    · exact .bind fun _ => .pure fun _ h => nomatch h
    · refine .bind fun v => ?_
      split
      · exact .ite (.pure fun _ h => nomatch h) (.bind fun _ => .throw _)
      · exact .bind fun _ => .throw _
    · exact .pure fun _ h => nomatch h
    · exact .throw _
  · refine .bind fun v => .bind fun _ => ?_
    split
    · exact .pure fun _ h => nomatch h
    · exact .bind fun _ => .throw _
  · exact .bind fun h => .onMachine fun _ _ _ h => nomatch h

theorem unyielding_runWithArg (g : Guest) (site : Site) (r : Bool) (op : Opcode) (arg : Nat) :
    Unyielding (runWithArg g site r op arg) := by
  unfold runWithArg
  split <;> first
    | exact unyielding_thenNext _
    | exact unyielding_forIter g arg
    | exact unyielding_raiseOf arg
    | exact unyielding_jump _ arg
    | exact unyielding_testJump site r _ arg
    | exact .pure fun _ h => nomatch h
    | exact .throw _

theorem unyielding_runPlain (g : Guest) (site : Site) {op : Opcode} (hop : op ≠ .yieldValue) :
    Unyielding (runPlain g site op) := by
  unfold runPlain
  split <;> first
    | exact unyielding_thenNext _
    | exact unyielding_endFinally
    | exact absurd rfl hop
    | exact .pure fun _ h => nomatch h
    | exact .bind fun _ => .pure fun _ h => nomatch h
    | exact .throw _

/-- Only one primitive yields. -/
theorem run_yields {site : Site} {r : Bool} {p : Primitive} {s t : Activation} {v : Value}
    (h : run g site r p s = .ok (.yield_ v) t) : p.op = .yieldValue := by
  refine Decidable.byContradiction fun hop => ?_
  have never : Unyielding (run g site r p) := by
    unfold run
    split
    · exact unyielding_thenNext _
    · exact unyielding_thenNext _
    · exact unyielding_thenNext _
    · refine .ite (unyielding_thenNext _) (.ite ?_ (unyielding_runPlain g site hop))
      split
      · exact unyielding_runWithArg g site r p.op _
      · exact .throw _
  exact never s v t h

end Primitive

/-! ## Instructions -/

theorem caught_yields {x : FrameExec Flow} {s t : Activation} {v : Value}
    (h : caught x s = .ok (.yield_ v) t) : x s = .ok (.yield_ v) t := by
  unfold caught at h
  rw [tryCatch_apply] at h
  cases hx : x s with
  | ok flow u =>
    rw [hx] at h
    exact h
  | error e u =>
    rw [hx] at h
    cases e <;> cases h

/-- Primitives that yield end with the one that does. -/
theorem runPrimitives_yields {r : Bool} {ip k : Nat} {ps : List Primitive} {s t : Activation}
    {v : Value} (h : runPrimitives g r ip k ps s = .ok (.yield_ v) t) :
    ∃ p ∈ ps, p.op = .yieldValue := by
  induction ps generalizing k s with
  | nil => cases h
  | cons p ps ih =>
    obtain ⟨flow, u, hp, h⟩ := bind_ok.mp h
    cases flow with
    | next =>
      obtain ⟨q, hq, hop⟩ := ih h
      exact ⟨q, .tail p hq, hop⟩
    | yield_ v => exact ⟨p, .head ps, Primitive.run_yields (caught_yields hp)⟩
    | jump | raise | unwind => cases h

/-- The primitive that yields ends its instruction. -/
theorem Opcode.yieldValue_last (op : Opcode) (h : .yieldValue ∈ op.primitives) :
    op.primitives.getLast? = some .yieldValue := by
  revert h
  cases op <;> decide

theorem Built.checked_of_instrAt? (hu : Built us) {r : Ref} {ip : Nat} {i : Instr}
    (h : (unitAt us r).instrAt? ip = some i) : (unitAt us r).Checked := by
  unfold unitAt at *
  cases hr : us[r]? with
  | none =>
    rw [hr] at h
    cases h
  | some u => exact hu.checked hr

theorem leaveBlocks_yields {w : Watch} {p : Pending} {s t : Activation} {v : Value} :
    leaveBlocks w p s ≠ .ok (some (.yield_ v)) t := by
  intro h
  obtain ⟨exit, u, hd, h⟩ := bind_ok.mp h
  have unyielding : exit ≠ some (.yield_ v) := by
    rintro rfl
    obtain ⟨where_, u, -, hd⟩ := bind_ok.mp hd
    split at hd
    · obtain ⟨_, u, _, hd⟩ := bind_ok.mp hd
      dsimp only at hd
      split at hd
      · obtain ⟨_, u, _, hd⟩ := bind_ok.mp hd
        cases hd
      · cases hd
    all_goals cases hd
  cases exit with
  | none => cases h
  | some exit =>
    cases exit with
    | yield_ v => cases h; exact unyielding rfl
    | return_ v =>
      dsimp only at h
      split at h
      · obtain ⟨_, u, _, h⟩ := bind_ok.mp h
        obtain ⟨_, u, _, h⟩ := bind_ok.mp h
        cases h
      · cases h

/-- A frame is left by yielding only when an instruction yields. -/
theorem direct_yields {w : Watch} {flow : Flow} {s t : Activation} {v : Value}
    (h : direct w flow s = .ok (some (.yield_ v)) t) : flow = .yield_ v ∧ s = t := by
  cases flow with
  | yield_ u =>
    cases h
    exact ⟨rfl, rfl⟩
  | next => cases h
  | unwind p => exact absurd h leaveBlocks_yields
  | jump target =>
    obtain ⟨f, u, -, h⟩ := bind_ok.mp h
    dsimp only at h
    split at h
    · obtain ⟨_, u, _, h⟩ := bind_ok.mp h
      obtain ⟨_, u, _, h⟩ := bind_ok.mp h
      cases h
    · obtain ⟨_, u, _, h⟩ := bind_ok.mp h
      cases h
  | raise exc fresh =>
    have left {s : Activation} (h : (do leaveBlocks w (← beginRaise exc fresh .exceptRaiseEval))
        s = .ok (some (.yield_ v)) t) : False := by
      obtain ⟨p, u, -, h⟩ := bind_ok.mp h
      exact leaveBlocks_yields h
    unfold direct at h
    dsimp only at h
    split at h
    · obtain ⟨_, u, _, h⟩ := bind_ok.mp h
      obtain ⟨_, u, _, h⟩ := bind_ok.mp h
      exact (left h).elim
    · exact (left h).elim

/-- After an instruction that yields the frame is suspended. -/
theorem step_yields (hu : Built us) {side : Side} (hg : Guests us side g g') {w : Watch}
    {s t : Activation} {v : Value} (code : s.frame.code = unitAt us s.frame.code.id)
    (h : step g w s = .ok (.yield_ v) t) : t.frame.Suspended us := by
  cases hi : s.frame.code.instrAt? s.frame.ip with
  | none =>
    unfold step at h
    rw [bind_apply] at h
    simp only [show frame s = .ok s.frame s from rfl, hi] at h
    cases h
  | some i =>
    have checked : s.frame.code.Checked := by
      rw [code] at hi ⊢
      exact hu.checked_of_instrAt? hi
    have ip := checked.ip_eq hi
    obtain ⟨s₁, begun, ran⟩ : ∃ s₁ : Activation, s₁.frame = s.frame.begin i ∧
        runPrimitives g w.recording i.ip 0 i.prims s₁ = .ok (.yield_ v) t := by
      have look : step g w s = (do
          if w.tracing && (s.frame.code.isLineStart i.ip || s.frame.isBackward i.ip) then
            tellTracer w (.line i.line)
          modifyFrame (·.begin i)
          runPrimitives g w.recording i.ip 0 i.prims) s := by
        unfold step
        rw [bind_apply]
        simp only [show frame s = .ok s.frame s from rfl, hi]
        rfl
      rw [look] at h
      dsimp only at h
      split at h
      · obtain ⟨m, ht, -⟩ := (quiet_tellTracer w (.line i.line) : Quiet us _) s
        rw [bind_apply, ht] at h
        exact ⟨⟨s.frame.begin i, m⟩, rfl, h⟩
      · exact ⟨⟨s.frame.begin i, s.machine⟩, rfl, h⟩
    have stays := ((runPrimitives_agrees hg.serves (r := w.recording) (.inl rfl) i.ip 0
      i.prims).left s₁).1
    rw [ran, begun] at stays
    obtain ⟨p, hp, hop⟩ := runPrimitives_yields ran
    have last : i.last.op = .yieldValue := by
      have ops := (checked.primitives hi).1
      have mem : Opcode.yieldValue ∈ i.op.primitives := by
        rw [← ops, ← hop]
        exact List.mem_map_of_mem hp
      have ends := i.op.yieldValue_last mem
      rw [← ops, List.getLast?_map] at ends
      obtain ⟨q, hq, hlast⟩ := Option.map_eq_some_iff.mp ends
      unfold Instr.last
      rw [hq]
      exact hlast
    have same : t.frame.code = s.frame.code := stays.code
    refine ⟨?_, i, ?_, last, stays.lasti, stays.ip⟩
    · rw [same]
      exact code
    · rw [same, ip]
      exact hi

/-! ## Runs -/

theorem interpretFrom_yields (hu : Built us) {side : Side} (hg : Guests us side g g') {w : Watch}
    {n : Nat} {s t : Activation} {v : Value} (code : s.frame.code = unitAt us s.frame.code.id)
    (h : interpretFrom g w n s = .ok (.yield_ v) t) : t.frame.Suspended us := by
  induction n generalizing s with
  | zero => cases h
  | succ n ih =>
    rw [interpretFrom_succ] at h
    have kept := (turn_agrees hg w w).left s
    cases ht : turn g w s with
    | error e u =>
      rw [ht] at h
      cases h
    | ok exit u =>
      rw [ht] at h kept
      cases exit with
      | none =>
        have same : u.frame.code = s.frame.code := kept.1
        exact ih (by rw [same]; exact code) h
      | some exit =>
        cases h
        obtain ⟨flow, u, hs, hd⟩ := bind_ok.mp ht
        obtain ⟨rfl, rfl⟩ := direct_yields hd
        exact step_yields hu hg code hs

/-- A run of the interpreter that yields leaves a frame that can be resumed. -/
theorem interpret_yields (hu : Built us) {side : Side} (hg : Guests us side g g') {entry : Entry}
    {s t : Activation} {v : Value} (code : s.frame.code = unitAt us s.frame.code.id)
    (h : interpret g entry s = .ok (.yield_ v) t) : t.frame.Suspended us := by
  obtain ⟨s₀, s₁, hs, h⟩ := bind_ok.mp h
  cases hs
  obtain ⟨exit, s₂, he, h⟩ := bind_ok.mp h
  cases exit with
  | none =>
    let w := s.machine.watch s.frame.code.id
    have entered : Agrees (runWorld us) side (enter w entry) (enter w entry) :=
      enter_agrees w w entry
    have kept := entered.left s
    rw [he] at kept
    have same : s₂.frame.code = s.frame.code := kept.1
    exact interpretFrom_yields hu hg (by rw [same]; exact code) h
  | some exit =>
    cases h
    cases entry with
    | throw_ exc =>
      have thrown : direct (s.machine.watch s.frame.code.id) (.raise exc true) s =
          .ok (some (.yield_ v)) t := he
      cases (direct_yields thrown).1
    | call =>
      obtain ⟨_, u, _, he⟩ := bind_ok.mp he
      cases he
    | resume u => cases he
    | continue_ => cases he

end TieredMachine
