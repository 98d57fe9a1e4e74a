/-
  Which frame a run ended in.

  A run that ends because control has left the code does not tell in which frame, which may
  be deep inside of calls.  To tell it, runs of frames are *watched*: one that would end so,
  on a frame of a certain kind, is out of fuel instead.  The two engines do the same until
  then, so when only the watched one is out of fuel, a run has ended on such a frame.

  * `watched`: runs that are watched;
  * `Guest.Echoes`: an engine that does the same, unless it is out of fuel;
  * `Echoes.runFrame_agrees`, `Echoes.callWith_agrees`: runs and calls with such engines;
  * `watched_echoes`: the engine under a host, and the one whose runs are watched.
-/
import TieredMachine.Proofs.Safety.Host
import TieredMachine.Proofs.Safety.Spared

namespace TieredMachine

variable {α : Type} {g g' : Guest}

/-! ## Watching -/

open Classical in
/-- The computation is out of fuel where it would have ended because control has left the
    code of a frame with `P`. -/
noncomputable def watched (P : Frame → Prop) (x : FrameExec α) : FrameExec α := fun s =>
  match x s with
  | .ok a t => .ok a t
  | .error e t =>
    if e = .ipOutOfBounds t.frame.ip ∧ P t.frame then .error .outOfFuel t else .error e t

/-- A run that is watched ends as it would have, or is out of fuel. -/
theorem Agrees.watched {x y : FrameExec α} (h : Agrees (freeWorld equalWorld) .right x y)
    (P : Frame → Prop) : Agrees (freeWorld equalWorld) .right x (TieredMachine.watched P y) := by
  refine ⟨fun _ => trivial, fun _ => trivial, fun {s s'} hs => ?_⟩
  have agree := h.agree hs
  unfold TieredMachine.watched
  generalize x s = r, y s' = r' at agree
  cases agree with
  | ok h => exact .ok h
  | left hs _ => cases hs
  | error h =>
    dsimp only
    split
    · exact .right rfl (.inl ⟨trivial, _, rfl⟩)
    · exact .error h
  | right hs h =>
    obtain ⟨slack, t, rfl⟩ | h := h
    · dsimp only
      split
      · exact .right hs (.inl ⟨slack, t, rfl⟩)
      · exact .right hs (.inl ⟨slack, t, rfl⟩)
    · exact h.elim

/-- What watches for control that has left the code at an index, on a frame of any kind,
    lets a run end with no such fault. -/
theorem watched_watches {us : Array CodeUnit} {stops : Nat → Prop} {P : Frame → Prop}
    (hP : ∀ r f, f.Off (unitAt us r) → stops f.ip ∨ P f) : Watches us stops (watched P) := by
  intro r P' Q x hx s hm hf
  have allowed := hx s hm hf
  unfold watched
  cases hr : x s with
  | ok a t =>
    rw [hr] at allowed
    exact allowed
  | error e t =>
    rw [hr] at allowed
    dsimp only
    split
    · exact ⟨allowed.1, Regime.Closed.outOfFuel⟩
    · rename_i kept
      refine ⟨allowed.1, allowed.2.elim id ?_⟩
      rintro ⟨rfl, off⟩
      refine ⟨rfl, fun ip hip => ?_⟩
      cases hip
      exact (hP r _ off).resolve_right fun h => kept ⟨rfl, h⟩

/-! ## Engines that do the same -/

/-- The engine `g'` does what `g` does, unless it is out of fuel. -/
structure Guest.Echoes (g' g : Guest) : Prop where
  fuel : g.fuel = g'.fuel
  call : ∀ callee args kwargs, Agrees equalWorld .right (g.call callee args kwargs)
    (g'.call callee args kwargs)
  run : ∀ entry, Agrees (freeWorld equalWorld) .right (g.run entry) (g'.run entry)
  poll : g.poll = g'.poll

section

variable {side : Side}

theorem equal_run_self (x : FrameExec α) : Agrees (freeWorld equalWorld) side x x := by
  refine ⟨fun _ => trivial, fun _ => trivial, fun {s s'} h => ?_⟩
  obtain ⟨f, m⟩ := s
  obtain ⟨f', m'⟩ := s'
  obtain ⟨rfl, rfl⟩ : f = f' ∧ m = m' := h
  cases x ⟨f, m⟩ with
  | ok a t => exact .same ⟨rfl, rfl⟩
  | error e t => exact .error ⟨rfl, rfl⟩

/-- A look at the frame and the machine agrees when what follows does. -/
theorem equal_readRun {k k' : Activation → FrameExec α}
    (h : ∀ s, Agrees (freeWorld equalWorld) side (k s) (k' s)) :
    Agrees (freeWorld equalWorld) side (get >>= k) (get >>= k') :=
  (equal_run_self get).andThen h

/-- A run that hands its faults on agrees when the run does. -/
theorem equal_cleanUp {x y : FrameExec α} (h : Agrees (freeWorld equalWorld) side x y)
    (kind : EventKind) : Agrees (freeWorld equalWorld) side
      (tryCatch x fun fault => do onMachine (recordEvent kind); throw fault)
      (tryCatch y fun fault => do onMachine (recordEvent kind); throw fault) :=
  h.handle (fun _ _ => trivial) (fun _ _ => trivial)
    (fun _ _ _ ht => (equal_run_self _).agree ht) (fun _ => ⟨_, rfl⟩) (fun _ => ⟨_, rfl⟩)

theorem equal_within {x y : FrameExec α} (h : Agrees (freeWorld equalWorld) .right x y)
    (f : Frame) : Agrees equalWorld .right (x.within f) (y.within f) := by
  refine ⟨fun _ => trivial, fun _ => trivial, fun {m m'} hm => ?_⟩
  cases hm
  have same : (freeWorld equalWorld).alike ⟨f, m⟩ ⟨f, m⟩ := ⟨rfl, rfl⟩
  have agree := h.agree same
  unfold FrameExec.within
  generalize x ⟨f, m⟩ = r, y ⟨f, m⟩ = r' at agree
  cases agree with
  | ok h =>
    obtain ⟨rfl, hf, hm⟩ := h
    exact .ok ⟨by rw [hf], hm⟩
  | error h => exact .error h.2
  | left h _ => cases h
  | right hs h =>
    obtain ⟨slack, t, rfl⟩ | h := h
    · exact .right hs (.inl ⟨slack, t.machine, rfl⟩)
    · exact h.elim

end

namespace Guest.Echoes

theorem refl (g : Guest) : g.Echoes g :=
  ⟨rfl, fun _ _ _ => equal_agrees_self _, fun _ => equal_run_self _, rfl⟩

variable (hg : g'.Echoes g)

include hg

/-! ## Generators -/

theorem runGenerator_agrees (r : Ref) (entry : Entry) (f : Frame) :
    Agrees equalWorld .right (runGenerator g r entry f) (runGenerator g' r entry f) := by
  refine (equal_agrees_self _).andThen fun _ => Agrees.andThen ?_ fun p => equal_agrees_self _
  exact (nested_equal (equal_within (hg.run entry) f)).handle (fun _ _ => trivial)
    (fun _ _ => trivial) (fun e t t' ht => (equal_agrees_self _).agree ht) (fun _ => ⟨_, rfl⟩)
    fun _ => ⟨_, rfl⟩

theorem resumeGenerator_agrees (r : Ref) (how : Resumption) :
    Agrees equalWorld .right (resumeGenerator g r how) (resumeGenerator g' r how) := by
  refine heap_agrees.andThen fun h => ?_
  dsimp only
  split
  · exact equal_agrees_self _
  · split
    · exact equal_agrees_self _
    · split
      · exact equal_agrees_self _
      · exact hg.runGenerator_agrees r _ _

theorem serves : Serves (equalWorld.agreement .right) g g' where
  fuel := .inl hg.fuel
  call := hg.call
  resume := hg.resumeGenerator_agrees
  close r := closeGenerator_agrees r (World.Generative.changeGenerator _ r fun _ _ h => by cases h)
    (hg.resumeGenerator_agrees r)

/-! ## The interpreter -/

theorem interpretFrom_agrees (w : Watch) (n : Nat) :
    Agrees (freeWorld equalWorld) .right (interpretFrom g w n) (interpretFrom g' w n) := by
  induction n with
  | zero => exact .fail _
  | succ n ih =>
    have step : Agrees (freeWorld equalWorld) .right (step g w) (step g' w) := by
      refine (equal_run_self frame).andThen fun f => ?_
      cases f.code.instrAt? f.ip with
      | none => exact .fail _
      | some i =>
        have begun : Agrees (freeWorld equalWorld) .right
            (do modifyFrame fun f => { f with lasti := some i.ip, ip := i.next }
                runPrimitives g w.recording i.ip 0 i.prims)
            (do modifyFrame fun f => { f with lasti := some i.ip, ip := i.next }
                runPrimitives g' w.recording i.ip 0 i.prims) :=
          (equal_run_self _).andThen fun _ =>
            (runPrimitives_agrees hg.serves (.inl rfl) i.ip 0 i.prims).free
        dsimp only
        split
        · exact (equal_run_self _).andThen fun _ => begun
        · exact begun
    refine step.andThen fun flow => (equal_run_self (direct w flow)).andThen fun exit => ?_
    cases exit with
    | some exit => exact .ret _
    | none => exact ih

theorem interpret_agrees (entry : Entry) :
    Agrees (freeWorld equalWorld) .right (interpret g entry) (interpret g' entry) := by
  refine equal_readRun fun s => (equal_run_self (enter _ entry)).andThen fun exit => ?_
  cases exit with
  | some exit => exact .ret _
  | none =>
    rw [hg.fuel]
    exact hg.interpretFrom_agrees _ _

/-! ## Threaded code -/

theorem primitive_agrees (site : Site) (p : Primitive) :
    Agrees (freeWorld equalWorld) .right (Primitive.run g site false p)
      (Primitive.run g' site false p) :=
  (Primitive.run_agrees hg.serves site (.inl rfl) p).free

omit hg in
theorem passed_agrees {x y : FrameExec Flow} (h : Agrees (freeWorld equalWorld) .right x y) :
    Agrees (freeWorld equalWorld) .right (Threaded.passed x) (Threaded.passed y) :=
  (caught_agrees h).andThen fun _ => equal_run_self _

theorem callDirect_agrees (site : Site) (arg : Nat) (expected : Value) :
    Agrees (freeWorld equalWorld) .right (Threaded.callDirect g site arg expected)
      (Threaded.callDirect g' site arg expected) := by
  have called (args : List Value) : Agrees (freeWorld equalWorld) .right
      (do push (← onMachine (g.call expected args [])); return Flow.next)
      (do push (← onMachine (g'.call expected args [])); return Flow.next) :=
    (hg.call expected args []).onFrame.andThen fun _ => equal_run_self _
  have chosen (direct : Bool) : Agrees (freeWorld equalWorld) .right
      (if direct then do
        let args ← popN (Primitive.positionalCount arg)
        let _ ← pop
        Threaded.passed do push (← onMachine (g.call expected args [])); return .next
      else Threaded.passed (Primitive.run g site false ⟨.callFunction, some arg⟩))
      (if direct then do
        let args ← popN (Primitive.positionalCount arg)
        let _ ← pop
        Threaded.passed do push (← onMachine (g'.call expected args [])); return .next
      else Threaded.passed (Primitive.run g' site false ⟨.callFunction, some arg⟩)) := by
    split
    · exact (equal_run_self _).andThen fun args => (equal_run_self _).andThen fun _ =>
        passed_agrees (called args)
    · exact passed_agrees (hg.primitive_agrees site _)
  unfold Threaded.callDirect
  dsimp only
  split
  · exact chosen false
  · exact (equal_run_self _).andThen fun v => chosen _

theorem intBinary_agrees (site : Site) (op : Opcode) :
    Agrees (freeWorld equalWorld) .right (Threaded.intBinary g site op)
      (Threaded.intBinary g' site op) := by
  have plain := passed_agrees (hg.primitive_agrees site ⟨op, none⟩)
  unfold Threaded.intBinary
  split
  · exact plain
  · refine (equal_run_self _).andThen fun a => (equal_run_self _).andThen fun b => ?_
    split
    · exact equal_run_self _
    · exact plain

theorem runOp_agrees (graph : Graph) (i : Inst) :
    Agrees (freeWorld equalWorld) .right (Threaded.runOp g graph i)
      (Threaded.runOp g' graph i) := by
  obtain ⟨site, op⟩ := i
  cases op with
  | prim p => exact passed_agrees (hg.primitive_agrees site p)
  | callDirect arg expected => exact hg.callDirect_agrees site arg expected
  | intBinary op => exact hg.intBinary_agrees site op
  | safePoint kind =>
    unfold Threaded.runOp
    dsimp only
    rw [hg.poll]
    exact equal_run_self _
  | _ => exact equal_run_self _

theorem runOps_agrees (graph : Graph) (is : List Inst) :
    Agrees (freeWorld equalWorld) .right (Threaded.runOps g graph is)
      (Threaded.runOps g' graph is) := by
  induction is with
  | nil => exact .ret _
  | cons i is ih =>
    refine (hg.runOp_agrees graph i).andThen fun passed => ?_
    cases passed with
    | next => exact ih
    | _ => exact .ret _

/-- A terminator performs at most one primitive; what follows is up to the frame. -/
theorem leaveBlock_agrees (graph : Graph) (t : Terminator) :
    Agrees (freeWorld equalWorld) .right (Threaded.leaveBlock g graph t)
      (Threaded.leaveBlock g' graph t) := by
  have ran (site : Site) (p : Primitive) : Agrees (freeWorld equalWorld) .right
      (caught (Primitive.run g site false p)) (caught (Primitive.run g' site false p)) :=
    caught_agrees (hg.primitive_agrees site p)
  cases t with
  | goto b => exact .ret _
  | trap ip => exact .fail _
  | return_ site => exact (ran site _).andThen fun _ => equal_run_self _
  | yield_ site _ => exact (ran site _).andThen fun _ => equal_run_self _
  | branch op arg site _ _ => exact (ran site _).andThen fun _ => equal_run_self _
  | forIter arg site _ _ => exact (ran site _).andThen fun _ => equal_run_self _
  | speculate op arg site _ _ => exact (ran site _).andThen fun _ => equal_run_self _
  | unwind p site _ => exact (ran site p).andThen fun _ => equal_run_self _

theorem runFrom_agrees (graph : Graph) (n : Nat) (l : Threaded.Landing) :
    Agrees (freeWorld equalWorld) .right (Threaded.runFrom g graph n l)
      (Threaded.runFrom g' graph n l) := by
  induction n generalizing l with
  | zero => cases l <;> exact equal_run_self _
  | succ n ih =>
    cases l with
    | block b =>
      have block : Agrees (freeWorld equalWorld) .right (Threaded.runBlock g graph b)
          (Threaded.runBlock g' graph b) := by
        refine (equal_run_self _).andThen fun _ => (hg.runOps_agrees graph _).andThen
          fun passed => ?_
        cases passed with
        | next => exact hg.leaveBlock_agrees graph _
        | _ => exact equal_run_self _
      exact block.andThen ih
    | exit e => exact .ret _
    | bail reason => exact .ret _

/-! ## Tiers -/

theorem runNative_agrees (n : NativeFunction) (entry : Entry) :
    Agrees (freeWorld equalWorld) .right (runNative g n entry) (runNative g' n entry) := by
  unfold runNative
  split
  · refine (equal_run_self _).andThen fun l => ?_
    rw [hg.fuel]
    exact hg.runFrom_agrees _ _ l
  · -- a kernel asks the engine for fuel and for a reason to leave only
    have same (k : Kernel) : runKernel g k entry = runKernel g' k entry := by
      unfold runKernel runKernelPolled leaveKernel
      rw [hg.fuel, hg.poll]
    rw [same]
    exact equal_run_self _

theorem interpretCounted_agrees (entry : Entry) :
    Agrees (freeWorld equalWorld) .right (interpretCounted g entry)
      (interpretCounted g' entry) := by
  have run := hg.interpret_agrees entry
  unfold interpretCounted
  split
  · exact (equal_run_self _).andThen fun _ => (equal_run_self _).andThen fun _ =>
      (equal_cleanUp run _).andThen fun exit => equal_run_self _
  · exact run

theorem afterNative_agrees (unit : Ref) (exit : NativeExit) :
    Agrees (freeWorld equalWorld) .right (Law.afterNative g unit exit)
      (Law.afterNative g' unit exit) := by
  cases exit with
  | done exit => exact .ret _
  | bail reason =>
    refine (equal_run_self _).andThen fun _ => equal_readRun fun s => ?_
    split
    · exact (equal_run_self _).andThen fun exc => hg.interpret_agrees (.throw_ exc)
    · exact hg.interpret_agrees .continue_

theorem runAs_agrees (unit : Ref) (entry : Entry) (m : Machine) :
    Agrees (freeWorld equalWorld) .right (Law.runAs g unit entry m)
      (Law.runAs g' unit entry m) := by
  have counted := hg.interpretCounted_agrees entry
  unfold Law.runAs
  split
  · exact counted
  · rename_i n _
    split
    · exact (equal_run_self _).andThen fun _ => counted
    · rw [Law.runCompiled_eq, Law.runCompiled_eq]
      refine Agrees.andThen ?_ (hg.afterNative_agrees unit)
      have run := (equal_run_self (onMachine (modify (·.mapStats fun s =>
        { s with nativeRuns := s.nativeRuns + 1 })))).andThen fun _ => hg.runNative_agrees n entry
      unfold Law.runCounted
      split
      · exact (equal_run_self _).andThen fun _ => run
      · exact run

theorem runFrame_agrees (entry : Entry) :
    Agrees (freeWorld equalWorld) .right (runFrame g entry) (runFrame g' entry) := by
  refine ⟨fun _ => trivial, fun _ => trivial, fun {s s'} h => ?_⟩
  obtain ⟨f, m⟩ := s
  obtain ⟨f', m'⟩ := s'
  obtain ⟨rfl, rfl⟩ : f = f' ∧ m = m' := h
  rw [Law.runFrame_apply, Law.runFrame_apply]
  exact (hg.runAs_agrees f.code.id entry _).agree ⟨rfl, rfl⟩

/-! ## Calls -/

theorem nestedRun_agrees (f : Frame) : Agrees equalWorld .right
    (nested ((g.run .call).onNew f)) (nested ((g'.run .call).onNew f)) :=
  nested_equal ((equal_within (hg.run .call) f).andThen fun _ => .ret _)

theorem callGuest_agrees (func : Function) (args : List Value) (kwargs : List (String × Value)) :
    Agrees equalWorld .right (callGuest g func args kwargs) (callGuest g' func args kwargs) := by
  refine (equal_agrees_self _).andThen fun f => ?_
  split
  · exact equal_agrees_self _
  · exact (hg.nestedRun_agrees f).andThen fun _ => equal_agrees_self _

theorem builtin_agrees (args : List Value) (fn : BuiltinFn) :
    Agrees equalWorld .right (fn.run g args) (fn.run g' args) := by
  by_cases h : fn.isTierAware = false ∧ fn ≠ .resetTier
  · exact BuiltinFn.run_agrees hg.serves args h.1 h.2
  · -- the other ones ask nothing of the engine
    cases fn with
    | setLevel | tier | setBailError | resetTier => exact equal_agrees_self _
    | _ => exact absurd ⟨rfl, BuiltinFn.noConfusion⟩ h

theorem callWith_agrees (callee : Value) (args : List Value) (kwargs : List (String × Value)) :
    Agrees equalWorld .right (callWith g callee args kwargs) (callWith g' callee args kwargs) :=
  heap_agrees.andThen fun h => callIn_agrees hg.serves (.refl h) callee args kwargs
    (fun _ _ => hg.callGuest_agrees _ args kwargs) fun _ _ => hg.builtin_agrees args _

theorem moduleOn_agrees (unit : Ref) :
    Agrees equalWorld .right (moduleOn g unit) (moduleOn g' unit) := by
  refine (equal_agrees_self _).andThen fun m => (equal_agrees_self _).andThen fun f => ?_
  exact (hg.nestedRun_agrees f).andThen fun _ => equal_agrees_self _

/-! ## Hosts -/

theorem perform_agrees (a : Alarm) (s : Script) :
    Agrees equalWorld .right (s.perform a g) (s.perform a g') := by
  have attempted {x y : Exec Value} (h : Agrees equalWorld .right x y) :
      Agrees equalWorld .right (attempt x) (attempt y) :=
    (h.mapped Except.ok).handle (fun _ _ => trivial) (fun _ _ => trivial)
      (fun _ _ _ ht => (equal_agrees_self _).agree ht) (fun _ => ⟨_, rfl⟩) fun _ => ⟨_, rfl⟩
  induction s with
  | done v => exact .ret v
  | fail e => exact .fail e
  | look next ih =>
    exact (equal_agrees_self _).andThen fun _ => (equal_agrees_self _).andThen ih
  | turn k next ih =>
    exact (equal_agrees_self _).andThen fun _ => (equal_agrees_self _).andThen ih
  | edit f next ih => exact (equal_agrees_self _).andThen fun _ => ih
  | call callee args kwargs next ih => exact (attempted (hg.call callee args kwargs)).andThen ih
  | resume r how next ih => exact (attempted (hg.resumeGenerator_agrees r how)).andThen ih
  | run unit next ih => exact (attempted (hg.moduleOn_agrees unit)).andThen ih

end Guest.Echoes

/-- An alarm and a host stand before every call and run. -/
theorem Guest.Echoes.callUnder_agrees (hg : g'.Echoes g) (host : Host) (a : Alarm)
    (callee : Value) (args : List Value) (kwargs : List (String × Value)) :
    Agrees equalWorld .right (callUnder host a g callee args kwargs)
      (callUnder host a g' callee args kwargs) := by
  unfold callUnder
  refine (equal_agrees_self _).andThen fun _ => ?_
  cases host callee args kwargs with
  | some script => exact hg.perform_agrees a script
  | none => exact hg.callWith_agrees callee args kwargs

theorem Guest.Echoes.runUnder_agrees (hg : g'.Echoes g) (a : Alarm) (entry : Entry) :
    Agrees (freeWorld equalWorld) .right (runUnder a g entry) (runUnder a g' entry) := by
  unfold runUnder
  exact (equal_run_self _).andThen fun f => (equal_run_self _).andThen fun _ =>
    hg.runFrame_agrees entry

/-- The engine whose runs are watched does what the engine under the host does, unless it is
    out of fuel. -/
theorem watched_echoes (P : Frame → Prop) (host : Host) (a : Alarm) (n : Nat) :
    (watchedBy (watched P) host a n).Echoes (hosted host a n) := by
  rw [← watchedBy_id]
  induction n with
  | zero =>
    rw [watchedBy, watchedBy]
    exact .refl _
  | succ n ih =>
    rw [watchedBy, watchedBy]
    exact ⟨rfl, ih.callUnder_agrees host a, fun entry => (ih.runUnder_agrees a entry).watched P,
      rfl⟩

end TieredMachine
