/-
  Static heights are sound.

  A unit without `END_FINALLY` is lowered, and a frame of it runs in the interpreter from
  its start, resumed as a generator any number of times.  Until an unwind goes to a handler,
  the frame matches at every instruction what the analysis recorded for it.  So no value
  and no block is ever missing, and the stack is never higher than the graph says.

  Two things are exempt.  The analysis takes the end of a `with` clause for one that was
  entered with a single value; and it takes it that a `continue` finds the stack no lower
  than the blocks that it leaves.

  * `Course`: the states of such a run at the starts of instructions;
  * `Frame.Settles`: frames that match what the analysis recorded;
  * `step_leadsTo`, `course_settles`: what an instruction and a run preserve;
  * **`lower_balanced`**: a run of a unit that is lowered.
-/
import Mathlib.Logic.Relation
import TieredMachine.Proofs.Run.Balance
import TieredMachine.Proofs.Native.Simulation

namespace TieredMachine

open Analysis Primitive

variable {u : CodeUnit} {a : Analysis} {e : StackState} {α β : Type}

/-! ## Runs from a call -/

/-- No `WITH_CLEANUP` comes next that finds more than one value to end the clause with. -/
def Frame.EndsAlone (f : Frame) : Prop :=
  ∀ i, f.code.instrAt? f.ip = some i → (∃ p ∈ i.prims, p.op = .withCleanup) →
    ∀ v, f.stack.head? = some v → cameAlone v

/-- Whether a flow out of an instruction stays clear of handlers.  A `continue` does when
    the innermost loop takes it. -/
def Flow.GoesOn (f : Frame) : Flow → Prop
  | .next | .jump _ => True
  | .unwind (.continue_ _) => f.Restarts
  | _ => False

/-- The states, at the starts of instructions, of the runs of a frame from a call, before an
    unwind goes to a handler.  Between a `yield` and the next resume anything may happen to
    the machine. -/
inductive Course (u : CodeUnit) : Activation → Prop
  | call {s : Activation} : s.frame.code = u → s.frame.stack = [] → s.frame.blocks = [] →
      s.frame.ip = 0 → Course u s
  | turn {g : Guest} {w : Watch} {s t t' : Activation} {flow : Flow} : Course u s →
      s.frame.EndsAlone → step g w s = .ok flow t → flow.GoesOn t.frame →
        direct w flow t = .ok none t' → Course u t'
  | resume {g : Guest} {w : Watch} {s t : Activation} {v : Value} (sent : Value) (m : Machine) :
      Course u s → s.frame.EndsAlone → step g w s = .ok (.yield_ v) t →
        Course u ⟨t.frame.push sent, m⟩

/-- The frame of a call is where such a run begins. -/
theorem Course.ofCall {func : Function} {args : List Value} {kwargs : List (String × Value)}
    {m t : Machine} {f : Frame} (h : frameFor func args kwargs m = .ok f t) (m' : Machine) :
    Course (m.heap.unit func.code) ⟨f, m'⟩ := by
  obtain ⟨code, stack, blocks, ip, -⟩ := frameFor_ok h
  exact .call code stack blocks ip

/-! ## Frames at the starts of instructions -/

/-- A frame of the unit that matches what is recorded for the instruction it stands at. -/
structure Frame.Settles (u : CodeUnit) (a : Analysis) (f : Frame) : Prop where
  code : f.code = u
  recorded : ∀ i, u.instrAt? f.ip = some i → ∃ e, a.entryAt? u f.ip = some e ∧ f.Matches a e

/-- A frame of the unit with these blocks, of this height, would match what is recorded for
    an instruction. -/
def Expected (u : CodeUnit) (a : Analysis) (ip height : Nat) (blocks : List Block) : Prop :=
  ∀ i, u.instrAt? ip = some i → ∃ e, a.entryAt? u ip = some e ∧ height = e.depth ∧
    List.Forall₂ (Block.Matches a) blocks e.handlers

theorem Frame.settles_iff {f : Frame} (hf : f.code = u) :
    f.Settles u a ↔ Expected u a f.ip f.stack.length f.blocks := by
  constructor
  · intro h i hi
    obtain ⟨e, he, hm⟩ := h.recorded i hi
    exact ⟨e, he, hm.height, hm.blocks⟩
  · intro h
    refine ⟨hf, fun i hi => ?_⟩
    obtain ⟨e, he, hd, hb⟩ := h i hi
    exact ⟨e, he, hd, hb⟩

/-- Where the flow out of an instruction leaves the frame. -/
def LeadsTo (u : CodeUnit) (a : Analysis) (f : Frame) : Flow → Prop
  | .next => Expected u a f.ip f.stack.length f.blocks
  | .jump target => Expected u a target f.stack.length f.blocks
  | .yield_ _ => Expected u a f.ip (f.stack.length + 1) f.blocks
  | .unwind (.continue_ target) => f.Restarts → Expected u a target f.restartHeight f.outer
  | .unwind _ | .raise _ _ => True

/-! ## One instruction -/

theorem tellTracer_apply (w : Watch) (event : TraceEvent) (s : Activation) :
    ∃ m, tellTracer w event s = .ok () ⟨s.frame, m⟩ := by
  unfold tellTracer
  split
  · exact ⟨_, rfl⟩
  · exact ⟨s.machine, rfl⟩

/-- An instruction runs its primitives, in a machine that does not depend on the engine. -/
theorem step_apply (w : Watch) {s : Activation} {i : Instr}
    (hi : s.frame.code.instrAt? s.frame.ip = some i) :
    ∃ m, ∀ g, step g w s = runPrimitives g w.recording i.ip 0 i.prims ⟨s.frame.begin i, m⟩ := by
  by_cases told : w.tracing && (s.frame.code.isLineStart i.ip || s.frame.isBackward i.ip)
  · obtain ⟨m, hm⟩ := tellTracer_apply w (.line i.line) s
    refine ⟨m, fun g => ?_⟩
    unfold step
    rw [bind_apply]
    simp only [show frame s = .ok s.frame s from rfl, hi, told, if_true]
    rw [bind_apply, hm]
    rfl
  · refine ⟨s.machine, fun g => ?_⟩
    unfold step
    rw [bind_apply]
    simp only [show frame s = .ok s.frame s from rfl, hi, told]
    rfl

theorem step_none (g : Guest) (w : Watch) {s : Activation}
    (hi : s.frame.code.instrAt? s.frame.ip = none) :
    step g w s = .error (.ipOutOfBounds s.frame.ip) s := by
  unfold step
  rw [bind_apply]
  simp only [show frame s = .ok s.frame s from rfl, hi]
  rfl

theorem Lands.leadsTo {b : Analysis} {out : Option StackState} {flow : Flow} {f : Frame}
    (h : Lands u b out flow f) (hb : Steady u b) (later : Later b a)
    (next : ∀ e j, out = some e → u.instrAt? f.ip = some j → a.entryAt? u f.ip = some e) :
    LeadsTo u a f flow := by
  cases flow with
  | next =>
    obtain ⟨e, ho, hm⟩ := h
    exact fun j hj => ⟨e, next e j ho hj, (hm.later later).height, (hm.later later).blocks⟩
  | jump target =>
    obtain ⟨e, he, hm⟩ := h
    exact fun j hj => ⟨e, hb.entryAt?_later later he, hm.height, (hm.later later).blocks⟩
  | yield_ v =>
    obtain ⟨e, ho, hm⟩ := h
    exact fun j hj => ⟨e, next e j ho hj, (hm v).height, ((hm v).later later).blocks⟩
  | raise exc fresh => trivial
  | unwind p =>
    cases p with
    | continue_ target =>
      intro hr j hj
      obtain ⟨e, he, hd, hm⟩ := h hr
      exact ⟨e, hb.entryAt?_later later he, hd, hm.imp fun _ _ hm => hm.later later⟩
    | exception _ => trivial
    | return_ _ => trivial
    | break_ => trivial

/-- What holds of an answer, and of a fault. -/
def Ends {α : Type} (Q : α → Frame → Prop) (F : Fault → Prop) :
    EStateM.Result Fault Activation α → Prop
  | .ok x t => Q x t.frame
  | .error f _ => F f

/-- An instruction leaves the frame as the analysis says, wherever it goes on; and if the
    engine is strict, no value and no block is missing. -/
theorem step_leadsTo {strict : Prop} (hu : u.Checked) (hend : u.NoEndFinally)
    (h : u.analyze = .ok a) {g : Guest} (hg : g.Safe (.heights strict)) (w : Watch)
    {s : Activation} (hs : s.frame.Settles u a) (alone : s.frame.EndsAlone) :
    Ends (fun flow f => f.code = u ∧ LeadsTo u a f flow)
      (fun f => strict → f.isStackFault = false) (step g w s) := by
  obtain ⟨code, recorded⟩ := hs
  cases hi : u.instrAt? s.frame.ip with
  | none =>
    rw [step_none g w (by rw [code]; exact hi)]
    exact fun _ => rfl
  | some i =>
    obtain ⟨e, he, hm⟩ := recorded i hi
    have ip := hu.ip_eq hi
    have hii : u.instrAt? i.ip = some i := ip ▸ hi
    obtain ⟨steady, followed⟩ := hu.analyze_steady hend h
    obtain ⟨a₁, a₂, hstep, steady₁, he₁, later, later'⟩ := followed _ i e hi he
    have steady₂ := step_steady hu hii (hend.at hu hi) steady₁ he₁ hstep
    unfold Analysis.step at hstep
    obtain ⟨⟨b, out⟩, hprims, hnext⟩ := except_bind_ok.mp hstep
    have known := steady₁.known_at he₁
    obtain ⟨steadyb, -, knows⟩ := stepPrimitives_steady hu hii (hend.at hu hi) i.prims
      List.suffix_rfl e a₁ steady₁ known (fun _ => he₁) b out hprims
    obtain ⟨laterb, next⟩ : Later b a₂ ∧ ∀ e' j, out = some e' → u.instrAt? i.next = some j →
        a₂.entryAt? u i.next = some e' := by
      cases out with
      | none =>
        cases hnext
        exact ⟨.refl _, fun _ _ h => nomatch h⟩
      | some e' =>
        dsimp only at hnext
        split at hnext
        · exact ⟨(merge_grows hu steadyb.size hnext).1.toLater, fun _ _ h _ => by
            cases h
            exact (knows e' rfl).arrives hu steadyb hnext⟩
        · rename_i last
          cases hnext
          exact ⟨.refl _, fun _ _ _ hj => absurd (hu.lt_stop hj) last⟩
    obtain ⟨m, runs⟩ := step_apply w (s := s) (by rw [code]; exact hi)
    have begun : (s.frame.begin i).Matches a₁ e :=
      have earlier := hm.earlier (later.trans later') known
      ⟨earlier.height, earlier.blocks⟩
    have landed := stepPrimitives_land hu hii (hend.at hu hi) hg w.recording i.prims
      List.suffix_rfl 0 e a₁ b out ⟨s.frame.begin i, m⟩ ⟨steady₁, known, begun, rfl⟩ (fun _ => he₁)
      (alone i (by rw [code]; exact hi)) hprims
    rw [runs g]
    cases hr : runPrimitives g w.recording i.ip 0 i.prims ⟨s.frame.begin i, m⟩ with
    | error f t =>
      rw [hr] at landed
      exact landed.2
    | ok flow t =>
      rw [hr] at landed
      obtain ⟨stays, landed⟩ := landed
      have stands : t.frame.ip = i.next := stays.ip
      refine ⟨stays.code.trans code, landed.leadsTo steadyb (laterb.trans later') fun e' j ho hj => ?_⟩
      rw [stands] at hj ⊢
      exact steady₂.entryAt?_later later' (next e' j ho hj)

/-! ## Following the flow -/

/-- The computation does not end because a value or a block is missing. -/
def Unstarved (x : FrameExec α) : Prop := ∀ s f t, x s = .error f t → f.isStackFault = false

namespace Unstarved

theorem bind {x : FrameExec α} {f : α → FrameExec β} (hx : Unstarved x) (hf : ∀ b, Unstarved (f b)) :
    Unstarved (x >>= f) := by
  intro s e t h
  rw [bind_apply] at h
  cases hr : x s with
  | ok b v =>
    rw [hr] at h
    exact hf b v e t h
  | error e' v =>
    rw [hr] at h
    cases h
    exact hx s e t hr

theorem ret (b : α) : Unstarved (pure b : FrameExec α) := fun _ _ _ h => nomatch h

theorem fail {f : Fault} (hf : f.isStackFault = false) : Unstarved (throw f : FrameExec α) := by
  intro s e t h
  cases h
  exact hf

theorem ofMachine {x : Exec α} (h : ∀ m, ∃ b m', x m = .ok b m') :
    Unstarved (onMachine x) := by
  intro s f t hx
  obtain ⟨b, m, hm⟩ := h s.machine
  rw [onMachine_apply, hm] at hx
  cases hx

theorem tellTracer (w : Watch) (event : TraceEvent) : Unstarved (tellTracer w event) := by
  intro s f t h
  obtain ⟨m, hm⟩ := tellTracer_apply w event s
  rw [hm] at h
  cases h

theorem recordEvent (kind : EventKind) : Unstarved (onMachine (recordEvent kind)) :=
  .ofMachine fun _ => ⟨_, _, rfl⟩

theorem dispatchUnwind (p : Pending) (event : EventKind) :
    Unstarved (dispatchUnwind p event) := by
  refine .bind (fun _ _ _ h => nomatch h) fun where_ => ?_
  cases where_ with
  | handler ip =>
    refine .bind (fun _ _ _ h => nomatch h) fun _ => ?_
    dsimp only
    split
    · exact (recordEvent event).bind fun _ => .ret none
    · exact .ret none
  | exit p =>
    cases p with
    | return_ v => exact .ret _
    | exception exc => exact .fail rfl
    | break_ => exact .fail rfl
    | continue_ target => exact .fail rfl

theorem leaveBlocks (w : Watch) (p : Pending) : Unstarved (leaveBlocks w p) := by
  refine (dispatchUnwind p _).bind fun exit => ?_
  split
  · split
    · exact .bind (.ofMachine fun _ => ⟨_, _, rfl⟩) fun _ => (tellTracer w _).bind fun _ => .ret _
    · exact .ret _
  · exact .ret _

/-- Following a flow takes nothing off the stack. -/
theorem direct (w : Watch) (flow : Flow) : Unstarved (direct w flow) := by
  cases flow with
  | next => exact .ret none
  | yield_ v => exact .ret _
  | unwind p => exact leaveBlocks w p
  | jump target =>
    have go : Unstarved (modifyFrame (fun f => { f with ip := target }) >>= fun _ => pure (none : Option Exit)) :=
      .bind (fun _ _ _ h => nomatch h) fun _ => .ret none
    refine .bind (fun _ _ _ h => nomatch h) fun f => ?_
    dsimp only
    split
    · exact .bind (.ofMachine fun _ => ⟨_, _, rfl⟩) fun _ => go
    · exact go
  | raise exc fresh =>
    have begun : Unstarved (beginRaise exc fresh .exceptRaiseEval) := by
      unfold beginRaise
      split
      · exact .bind (fun _ _ _ h => nomatch h) fun _ => (recordEvent _).bind fun _ => .ret _
      · exact .ret _
    have go := begun.bind fun p => leaveBlocks w p
    unfold TieredMachine.direct
    dsimp only
    split
    · exact .bind (.ofMachine fun _ => ⟨_, _, rfl⟩) fun _ => (tellTracer w _).bind fun _ => go
    · exact go

end Unstarved

/-- Following a flow that stays clear of handlers leads to what is recorded. -/
theorem direct_settles {w : Watch} {flow : Flow} {t t' : Activation} (code : t.frame.code = u)
    (h : LeadsTo u a t.frame flow) (goes : flow.GoesOn t.frame)
    (hd : direct w flow t = .ok none t') : t'.frame.Settles u a := by
  cases flow with
  | next =>
    cases hd
    exact (Frame.settles_iff code).mpr h
  | jump target =>
    have moved : t'.frame = { t.frame with ip := target } := by
      unfold direct at hd
      dsimp only at hd
      rw [bind_apply, show frame t = .ok t.frame t from rfl] at hd
      dsimp only at hd
      split at hd
      · cases hd
        rfl
      · cases hd
        rfl
    rw [moved]
    exact (Frame.settles_iff (f := { t.frame with ip := target }) code).mpr h
  | unwind p =>
    cases p with
    | continue_ target =>
      obtain ⟨f, unwound, blocks, height⟩ :=
        unwindBlocks_continue target t.machine.heap t.frame.blocks t.frame rfl goes
      have kept : f.code = t.frame.code := by
        have := (unwindBlocks_heap (.continue_ target) t.frame.blocks t.frame t.machine.heap).2
        rwa [unwound] at this
      have moved : t'.frame = { f with ip := target } := by
        unfold direct leaveBlocks dispatchUnwind at hd
        dsimp only at hd
        rw [bind_apply, bind_apply, unwind_apply, Frame.unwind, unwound] at hd
        cases hd
        rfl
      have arrives := h goes
      rw [← blocks, ← height] at arrives
      rw [moved]
      exact (Frame.settles_iff (f := { f with ip := target }) (kept.trans code)).mpr arrives
    | exception _ => exact goes.elim
    | return_ _ => exact goes.elim
    | break_ => exact goes.elim
  | raise exc fresh => exact goes.elim
  | yield_ v => exact goes.elim

/-! ## Runs -/

/-- All along a run, the frame matches what is recorded. -/
theorem Course.settles (hu : u.Checked) (hend : u.NoEndFinally) (h : u.analyze = .ok a)
    {s : Activation} (hs : Course u s) : s.frame.Settles u a := by
  induction hs with
  | call code stack blocks ip =>
    refine ⟨code, fun i _ => ⟨⟨0, [], false⟩, ?_, ?_, ?_⟩⟩
    · rw [ip]
      exact (hu.analyze_settled h).start
    · rw [stack]
      rfl
    · rw [blocks]
      exact .nil
  | @turn g w s t t' flow _ alone hstep goes hd ih =>
    have reached := step_leadsTo hu hend h g.safe w ih alone
    rw [hstep] at reached
    exact direct_settles reached.1 reached.2 goes hd
  | @resume g w s t v sent m _ alone hstep ih =>
    have reached := step_leadsTo hu hend h g.safe w ih alone
    rw [hstep] at reached
    exact (Frame.settles_iff (f := t.frame.push sent) reached.1).mpr reached.2

/-- The states that a run of the interpreter visits at the starts of instructions. -/
def Visits (g : Guest) (w : Watch) : Activation → Activation → Prop :=
  Relation.ReflTransGen fun s s' => turn g w s = .ok none s'

/-- The run goes on to no handler, and the ends of its `with` clauses are told one value. -/
def Clear (g : Guest) (w : Watch) (s : Activation) : Prop :=
  ∀ s', Visits g w s s' → s'.frame.EndsAlone ∧ ∀ flow t t', step g w s' = .ok flow t →
    direct w flow t = .ok none t' → flow.GoesOn t.frame

/-- One instruction misses no value and no block of its own. -/
theorem turn_spared (hu : u.Checked) (hend : u.NoEndFinally) (h : u.analyze = .ok a) {g : Guest}
    {w : Watch} {s t : Activation} (hs : s.frame.Settles u a) (alone : s.frame.EndsAlone) {f : Fault}
    (hf : f.isStackFault) (ht : turn g w s = .error f t) :
    ∃ t', turn g.spared w s = .error .outOfFuel t' := by
  have own := step_leadsTo hu hend h (g.spared_safe : g.spared.Safe (.heights True)) w hs alone
  have stepped : step g w s = .error f t := by
    unfold turn at ht
    rw [bind_apply] at ht
    cases hr : step g w s with
    | ok flow v =>
      rw [hr] at ht
      rw [Unstarved.direct w flow v f t ht] at hf
      cases hf
    | error f' v =>
      rw [hr] at ht
      cases ht
      rfl
  cases hi : s.frame.code.instrAt? s.frame.ip with
  | none =>
    rw [step_none g w hi] at stepped
    cases stepped
    cases hf
  | some i =>
    obtain ⟨m, runs⟩ := step_apply w hi
    rw [runs g] at stepped
    rw [runs g.spared] at own
    obtain ⟨t', spared⟩ := runPrimitives_spared stepped fun v hv => by
      rw [hv] at own
      rw [own trivial] at hf
      cases hf
    refine ⟨t', ?_⟩
    unfold turn
    rw [bind_apply, runs, spared]

/-- A run that goes on to no handler misses no value and no block of its own. -/
theorem interpretFrom_spared (hu : u.Checked) (hend : u.NoEndFinally)
    (h : u.analyze = .ok a) {g : Guest} {w : Watch} (n : Nat) {s t : Activation} (hs : Course u s)
    (clear : Clear g w s) {f : Fault} (hf : f.isStackFault) (ht : interpretFrom g w n s = .error f t) :
    ∃ s' t', Visits g w s s' ∧ turn g.spared w s' = .error .outOfFuel t' := by
  induction n generalizing s with
  | zero =>
    cases ht
    cases hf
  | succ n ih =>
    obtain ⟨alone, goes⟩ := clear s .refl
    rw [interpretFrom_succ] at ht
    cases hr : turn g w s with
    | error f' v =>
      rw [hr] at ht
      cases ht
      obtain ⟨t', spared⟩ := turn_spared hu hend h (hs.settles hu hend h) alone hf hr
      exact ⟨s, t', .refl, spared⟩
    | ok exit v =>
      rw [hr] at ht
      cases exit with
      | some exit => cases ht
      | none =>
        obtain ⟨flow, v', hstep, hd⟩ := bind_ok.mp hr
        have next := Course.turn hs alone hstep (goes flow v' v hstep hd) hd
        obtain ⟨s', t', visits, spared⟩ := ih next
          (fun s' hs' => clear s' (.head hr hs')) ht
        exact ⟨s', t', .head hr visits, spared⟩

/-! ## Units that are lowered -/

/-- Cleaning up leaves the greatest height as it is. -/
theorem Graph.cleanUp_maxDepth (G : Graph) : G.cleanUp.maxDepth = G.maxDepth := by
  unfold cleanUp dropUnreachable
  dsimp only
  split <;> rfl

/-- A unit that is lowered is analyzed, and its graph is as high as the analysis found. -/
theorem lower_analyze {heap : Heap} {feedback : Feedback} {opts : LowerOptions} {G : Graph}
    (hl : lower heap u feedback opts = .ok G) : ∃ a, u.analyze = .ok a ∧ G.maxDepth = a.maxDepth := by
  unfold lower at hl
  obtain ⟨plain, hp, hl⟩ := except_bind_ok.mp hl
  have height : G.maxDepth = plain.maxDepth := by
    split at hl
    · cases hl
      exact plain.cleanUp_maxDepth
    · cases hl
      rfl
  unfold lowerPlain at hp
  dsimp only at hp
  split at hp
  · cases hp
  obtain ⟨a, ha, hp⟩ := except_bind_ok.mp hp
  obtain ⟨hs, -, hp⟩ := except_bind_ok.mp hp
  obtain ⟨⟨blocks, e⟩, -, hp⟩ := except_bind_ok.mp hp
  cases hp
  exact ⟨a, ha, height⟩

/-- **A unit that is lowered keeps to its analysis.**  Wherever a run from a call stands, the
    stack is as high as recorded, the blocks are those recorded, and the stack is no higher
    than the graph says.  A run does not end because a value or a block is missing, or a
    block is too many, unless a call that it makes ends so. -/
theorem CodeUnit.lower_balanced {id : Ref} {parts : CodeParts}
    (hu : CodeUnit.ofParts id parts = .ok u) (hend : u.NoEndFinally) {heap : Heap}
    {feedback : Feedback} {opts : LowerOptions} {G : Graph}
    (hl : lower heap u feedback opts = .ok G) :
    ∃ a, u.analyze = .ok a ∧ ∀ s, Course u s →
      (∀ i, u.instrAt? s.frame.ip = some i → ∃ e, a.entryAt? u s.frame.ip = some e ∧
        s.frame.Matches a e ∧ s.frame.stack.length ≤ G.maxDepth) ∧
      ∀ g w n f t, Clear g w s → interpretFrom g w n s = .error f t → f.isStackFault →
        ∃ s' t', Visits g w s s' ∧ turn g.spared w s' = .error .outOfFuel t' := by
  obtain ⟨a, ha, height⟩ := lower_analyze hl
  have checked := (checked_of_ofParts hu).2
  refine ⟨a, ha, fun s hs => ⟨fun i hi => ?_, fun g w n f t clear ht hf =>
    interpretFrom_spared checked hend ha n hs clear hf ht⟩⟩
  obtain ⟨e, he, hm⟩ := (hs.settles checked hend ha).recorded i hi
  refine ⟨e, he, hm, ?_⟩
  rw [hm.height, height]
  exact (checked.analyze_steady hend ha).1.high_at he

/-! ### A loop -/

/-- The parts of a unit that runs through all items of its argument. -/
def CodeParts.drain : CodeParts where
  name := "t"
  argcount := 1
  words := #[.ofOpcode .loadFast, ⟨1⟩, .ofOpcode .getIter, .ofOpcode .forIter, ⟨9⟩,
    .ofOpcode .storeFast, ⟨1⟩, .ofOpcode .jumpAbsolute, ⟨7⟩, .ofOpcode .loadConst, ⟨1⟩,
    .ofOpcode .returnValue]
  consts := #[.none]
  varnames := #["a"]

/-- The unit with these parts. -/
def CodeUnit.drain : CodeUnit := (CodeUnit.ofParts 0 .drain).toOption.getD default

theorem CodeUnit.ofParts_drain : CodeUnit.ofParts 0 .drain = .ok .drain :=
  eq_ok_of_isSome (by decide +kernel)

/-- Whether no instruction of a unit ends a `finally` clause. -/
def CodeUnit.lacksEndFinally (u : CodeUnit) : Bool :=
  u.instrs.all fun i => i.prims.all fun p => p.op != .endFinally

theorem CodeUnit.noEndFinally_of (h : u.lacksEndFinally) : u.NoEndFinally := by
  intro i hi p hp
  have := List.all_eq_true.mp (Array.all_eq_true_iff_forall_mem.mp h i hi) p hp
  exact bne_iff_ne.mp this

theorem CodeUnit.noEndFinally_drain : CodeUnit.drain.NoEndFinally :=
  noEndFinally_of (by decide +kernel)

/-- The graph of the unit. -/
def Graph.drain : Graph := (lower {} .drain {} { level := .o0 }).toOption.getD default

theorem lower_drain : lower {} .drain {} { level := .o0 } = .ok .drain :=
  eq_ok_of_isSome (by decide +kernel)

theorem CodeUnit.lower_balanced_of_drain :
    CodeUnit.ofParts 0 .drain = .ok .drain ∧ CodeUnit.drain.NoEndFinally ∧
    lower {} .drain {} { level := .o0 } = .ok .drain ∧
    ∃ a, CodeUnit.drain.analyze = .ok a ∧ ∀ s, Course .drain s →
      (∀ i, CodeUnit.drain.instrAt? s.frame.ip = some i →
        ∃ e, a.entryAt? .drain s.frame.ip = some e ∧ s.frame.Matches a e ∧
          s.frame.stack.length ≤ Graph.drain.maxDepth) ∧
      ∀ g w n f t, Clear g w s → interpretFrom g w n s = .error f t → f.isStackFault →
        ∃ s' t', Visits g w s s' ∧ turn g.spared w s' = .error .outOfFuel t' :=
  ⟨CodeUnit.ofParts_drain, CodeUnit.noEndFinally_drain, lower_drain,
    CodeUnit.lower_balanced CodeUnit.ofParts_drain CodeUnit.noEndFinally_drain lower_drain⟩

/-! ### A clause that ends early -/

/-- The parts of a unit that ends a `with` clause which it never entered, as if a value were
    being returned. -/
def CodeParts.earlyCleanup : CodeParts where
  name := "t"
  words := #[.ofOpcode .loadConst, ⟨1⟩, .ofOpcode .loadConst, ⟨3⟩, .ofOpcode .withCleanup,
    .ofOpcode .returnValue]
  consts := #[.none, .int 8]

/-- The unit with these parts. -/
def CodeUnit.earlyCleanup : CodeUnit := (CodeUnit.ofParts 0 .earlyCleanup).toOption.getD default

/-- A new frame of the unit. -/
def Frame.earlyCleanup : Frame where
  code := .earlyCleanup
  globals := 0
  builtins := 1
  locals := #[]
  cells := #[]

/-- A machine that has run nothing. -/
def Machine.earlyCleanup : Machine :=
  { (default : Machine) with heap := { units := #[.earlyCleanup] } }

/-- The unit is lowered and sets up no block, and yet a run of it from a call misses a
    value. -/
theorem early_cleanup_underflows :
    CodeUnit.ofParts 0 .earlyCleanup = .ok .earlyCleanup ∧
    CodeUnit.earlyCleanup.NoEndFinally ∧ CodeUnit.earlyCleanup.handlers = [] ∧
    (lower {} .earlyCleanup {} { level := .o0 }).toOption.isSome ∧
    Course .earlyCleanup ⟨.earlyCleanup, .earlyCleanup⟩ ∧
    failure? (interpret (guestWithin 10) .call ⟨.earlyCleanup, .earlyCleanup⟩) =
      some (.stackUnderflow 4, [.int 8, .none]) :=
  ⟨eq_ok_of_isSome (by decide +kernel), CodeUnit.noEndFinally_of (by decide +kernel),
    by decide +kernel, by decide +kernel, .call rfl rfl rfl rfl, by decide +kernel⟩

end TieredMachine
