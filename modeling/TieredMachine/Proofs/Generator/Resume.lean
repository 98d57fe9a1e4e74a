/-
  One resume of a generator.

  A generator that is not running holds the frame of its body, or has ended.  A resume
  takes the frame out, runs it, and puts back what is left of it.  What a resume does is
  written out here for an engine that leaves the record of a running generator alone.

  * `Machine.entering`: the machine in which the body of a generator is run;
  * `Guest.Respects`: engines that leave the record of a running generator alone;
  * `Generator.answer`, `resume_holding`: what a resume answers;
  * `Generator.closed`, `close_begun`: what closing a generator answers.
-/
import TieredMachine.Proofs.Agreement.Machine

namespace TieredMachine

/-! ## Records -/

namespace Machine

variable (m : Machine) (r : Ref)

/-- The record of a generator, if there is one. -/
def generator? : Option Generator := m.heap.generators[r]?

/-- The machine with the record of a generator changed. -/
def mapGenerator (f : Generator → Generator) : Machine :=
  m.mapHeap fun h => { h with generators := h.generators.modify r f }

/-- The machine with another record of a generator. -/
def setGenerator (gen : Generator) : Machine := m.mapGenerator r fun _ => gen

/-- A new exception is raised, and nothing else changes. -/
def raising {α : Type} (kind : ExceptionKind) (args : List Value) :
    EStateM.Result Fault Machine α :=
  .error (.raised m.heap.exceptions.size)
    (m.mapHeap fun h => (h.newException { kind, args := args.toArray }).2)

variable {m r} {gen gen' : Generator} {f : Generator → Generator}

theorem raiseWith_apply {α : Type} (kind : ExceptionKind) (args : List Value) :
    (raiseWith kind args : Exec α) m = m.raising kind args := rfl

theorem raise_apply {α : Type} (kind : ExceptionKind) (message : String) :
    (TieredMachine.raise kind message : Exec α) m = m.raising kind [.str message] := rfl

theorem generator_eq : m.heap.generator r = (m.generator? r).getD default := rfl

@[simp]
theorem generator?_mapGenerator : (m.mapGenerator r f).generator? r = (m.generator? r).map f := by
  show (m.heap.generators.modify r f)[r]? = _
  rw [Array.getElem?_modify, if_pos rfl]
  rfl

theorem generator?_mapGenerator_of_ne {r' : Ref} (h : r' ≠ r) :
    (m.mapGenerator r' f).generator? r = m.generator? r := by
  show (m.heap.generators.modify r' f)[r]? = _
  rw [Array.getElem?_modify, if_neg h]
  rfl

/-- A change of a record that is known. -/
theorem mapGenerator_eq (h : m.generator? r = some gen) :
    m.mapGenerator r f = m.setGenerator r (f gen) := by
  have same : m.heap.generators.modify r f = m.heap.generators.modify r fun _ => f gen := by
    refine Array.ext_getElem? fun i => ?_
    rw [Array.getElem?_modify, Array.getElem?_modify]
    split
    · rename_i hi
      subst hi
      have known : m.heap.generators[r]? = some gen := h
      rw [known]
      rfl
    · rfl
  exact congrArg (fun gens => ({ m with heap := { m.heap with generators := gens } } : Machine)) same

theorem setGenerator_setGenerator :
    (m.setGenerator r gen).setGenerator r gen' = m.setGenerator r gen' := by
  have same : (m.heap.generators.modify r fun _ => gen).modify r (fun _ => gen') =
      m.heap.generators.modify r fun _ => gen' := by
    refine Array.ext_getElem? fun i => ?_
    simp only [Array.getElem?_modify]
    split
    · rw [Option.map_map]
      rfl
    · rfl
  exact congrArg (fun gens => ({ m with heap := { m.heap with generators := gens } } : Machine)) same

theorem generator?_setGenerator (h : m.generator? r = some gen) :
    (m.setGenerator r gen').generator? r = some gen' := by
  rw [setGenerator, generator?_mapGenerator, h]
  rfl

end Machine

/-! ## Runs of a body -/

/-- The machine in which the body of a generator is run: its frame is taken out, and there
    is one more nested call. -/
def Machine.entering (m : Machine) (r : Ref) (name : String) : Machine :=
  (m.setGenerator r { name, frame := none, running := true }).mapDepth (· + 1)

/-- The machine after a run of the body of a generator, which has left its record so. -/
def Machine.leaving (m : Machine) (r : Ref) (gen : Generator) : Machine :=
  (m.mapDepth (· - 1)).setGenerator r gen

/-- Runs of frames leave the record of a generator alone that is running. -/
def Guest.Respects (g : Guest) (r : Ref) : Prop :=
  ∀ entry s gen, s.machine.generator? r = some gen → gen.running →
    (finalState (g.run entry s)).machine.generator? r = some gen

/-- What a resume of a generator answers after a run of its body, and the machine then: the
    generator holds the frame that was left by a `yield`, or has ended. -/
def Generator.answer (r : Ref) (name : String) :
    EStateM.Result Fault Activation Exit → EStateM.Result Fault Machine Value
  | .ok (.yield_ v) s => .ok v (s.machine.leaving r { name, frame := some s.frame })
  | .ok (.return_ _) s =>
    (s.machine.leaving r { name, frame := none }).raising .stopIteration []
  | .error e s => .error e (s.machine.leaving r { name, frame := none })

/-- What closing a generator answers after a resume with `GeneratorExit`. -/
def Generator.closed : EStateM.Result Fault Machine Value → EStateM.Result Fault Machine Unit
  | .ok _ m => m.raising .runtimeError [.str "generator ignored GeneratorExit"]
  | .error e m =>
    if e.isException m.heap .generatorExit ∨ e.isException m.heap .stopIteration then .ok () m
    else .error e m

variable {g : Guest} {m : Machine} {r : Ref} {how : Resumption} {entry : Entry} {f : Frame}
  {name : String}

theorem nested_apply {α : Type} (x : Exec α) : nested x m =
    if m.config.recursionLimit ≤ m.depth then
      m.raising .runtimeError [.str "maximum recursion depth exceeded"]
    else match x (m.mapDepth (· + 1)) with
      | .ok a m' => .ok a (m'.mapDepth (· - 1))
      | .error e m' => .error e (m'.mapDepth (· - 1)) := by
  unfold nested
  rw [bind_apply]
  show (if m.config.recursionLimit ≤ m.depth then _ else _ : Exec α) m = _
  split
  · rfl
  · show (tryCatch x _ >>= _) (m.mapDepth (· + 1)) = _
    rw [bind_apply, tryCatch_apply]
    cases x (m.mapDepth (· + 1)) <;> rfl

/-- A run of a frame in a nested call that there is room for. -/
theorem nested_within {α : Type} (x : FrameExec α) (f : Frame)
    (room : m.depth < m.config.recursionLimit) :
    nested (x.within f) m = match x ⟨f, m.mapDepth (· + 1)⟩ with
      | .ok a s => .ok (a, s.frame) (s.machine.mapDepth (· - 1))
      | .error e s => .error e (s.machine.mapDepth (· - 1)) := by
  rw [nested_apply, if_neg (Nat.not_le_of_lt room)]
  unfold FrameExec.within
  cases x ⟨f, m.mapDepth (· + 1)⟩ <;> rfl

/-- A run of a body, when there is room for a nested call. -/
theorem runGenerator_apply (hg : g.Respects r)
    (h : m.generator? r = some { name, frame := some f })
    (room : m.depth < m.config.recursionLimit) :
    runGenerator g r entry f m =
      Generator.answer r name (g.run entry ⟨f, m.entering r name⟩) := by
  have taken : m.mapGenerator r (fun gen => { gen with frame := none, running := true }) =
      m.setGenerator r { name, frame := none, running := true } := Machine.mapGenerator_eq h
  have entered : (m.entering r name).generator? r =
      some { name, frame := none, running := true } := Machine.generator?_setGenerator h
  have left := hg entry ⟨f, m.entering r name⟩ _ entered rfl
  -- the record is as it was when the body began
  have settled (s : Activation) (change : Generator → Generator)
      (hs : s.machine.generator? r = some { name, frame := none, running := true }) :
      (s.machine.mapDepth (· - 1)).mapGenerator r change =
        s.machine.leaving r (change { name, frame := none, running := true }) :=
    Machine.mapGenerator_eq hs
  have ran : nested ((g.run entry).within f)
      (m.mapGenerator r fun gen => { gen with frame := none, running := true }) =
        match g.run entry ⟨f, m.entering r name⟩ with
        | .ok exit s => .ok (exit, s.frame) (s.machine.mapDepth (· - 1))
        | .error e s => .error e (s.machine.mapDepth (· - 1)) := by
    rw [taken]
    have entering : (m.setGenerator r { name, frame := none, running := true }).mapDepth (· + 1) =
      m.entering r name := rfl
    refine (nested_within (m := m.setGenerator r { name, frame := none, running := true })
      (g.run entry) f room).trans ?_
    rw [entering]
    cases g.run entry ⟨f, m.entering r name⟩ <;> rfl
  show (tryCatch (nested ((g.run entry).within f)) _ >>= _) (m.mapGenerator r _) = _
  rw [bind_apply, tryCatch_apply, ran]
  cases hr : g.run entry ⟨f, m.entering r name⟩ with
  | ok exit s =>
    rw [hr] at left
    cases exit with
    | yield_ v => exact congrArg (EStateM.Result.ok v) (settled s _ left)
    | return_ v => exact congrArg (Machine.raising · .stopIteration []) (settled s _ left)
  | error e s =>
    rw [hr] at left
    exact congrArg (EStateM.Result.error e) (settled s _ left)

/-- A run of a body that the recursion limit refuses ends the generator. -/
theorem runGenerator_refused (h : m.generator? r = some { name, frame := some f })
    (full : m.config.recursionLimit ≤ m.depth) :
    runGenerator g r entry f m = (m.setGenerator r { name, frame := none }).raising .runtimeError
      [.str "maximum recursion depth exceeded"] := by
  have taken : m.mapGenerator r (fun gen => { gen with frame := none, running := true }) =
      m.setGenerator r { name, frame := none, running := true } := Machine.mapGenerator_eq h
  have ended : (m.setGenerator r { name, frame := none, running := true }).mapGenerator r
      (fun gen => { gen with running := false }) = m.setGenerator r { name, frame := none } := by
    rw [Machine.mapGenerator_eq (Machine.generator?_setGenerator h),
      Machine.setGenerator_setGenerator]
  have ran : nested ((g.run entry).within f)
      (m.mapGenerator r fun gen => { gen with frame := none, running := true }) =
        (m.setGenerator r { name, frame := none, running := true }).raising .runtimeError
          [.str "maximum recursion depth exceeded"] := by
    rw [nested_apply, taken]
    exact if_pos full
  show (tryCatch (nested ((g.run entry).within f)) _ >>= _) (m.mapGenerator r _) = _
  rw [bind_apply, tryCatch_apply, ran]
  exact congrArg (Machine.raising · .runtimeError [.str "maximum recursion depth exceeded"]) ended

/-! ## Resumes -/

theorem heap_apply (m : Machine) : heap m = .ok m.heap m := rfl

/-- A generator cannot be resumed by its own body. -/
theorem resume_running (h : (m.heap.generator r).running) :
    resumeGenerator g r how m = m.raising .valueError [.str "generator already executing"] := by
  show (if (m.heap.generator r).running then alreadyExecuting else _ : Exec Value) m = _
  rw [if_pos h]
  rfl

/-- A generator that has ended answers a value with `StopIteration`, and an exception with
    that exception. -/
theorem resume_ended (still : ¬ (m.heap.generator r).running)
    (ended : (m.heap.generator r).frame = none) :
    resumeGenerator g r how m = resumeEnded how m := by
  unfold resumeGenerator
  rw [bind_apply, heap_apply]
  simp only [still, ended, Bool.false_eq_true, if_false]

theorem generator_of_holding (h : m.generator? r = some { name, frame := some f }) :
    m.heap.generator r = { name, frame := some f } := by
  rw [Machine.generator_eq, h]
  rfl

/-- The body of a generator that was not begun takes no value but `None`. -/
theorem resume_rejected (h : m.generator? r = some { name, frame := some f })
    (he : how.entry? f = none) : resumeGenerator g r how m =
      m.raising .typeError [.str "can't send non-None value to a just-started generator"] := by
  unfold resumeGenerator
  rw [bind_apply, heap_apply]
  simp only [generator_of_holding h, he, Bool.false_eq_true, if_false]
  rfl

/-- A resume takes out the frame that the generator holds. -/
theorem resume_run (h : m.generator? r = some { name, frame := some f })
    (he : how.entry? f = some entry) :
    resumeGenerator g r how m = runGenerator g r entry f m := by
  unfold resumeGenerator
  rw [bind_apply, heap_apply]
  simp only [generator_of_holding h, he, Bool.false_eq_true, if_false]

/-- A resume runs the body from the frame that the generator holds. -/
theorem resume_holding (hg : g.Respects r) (h : m.generator? r = some { name, frame := some f })
    (he : how.entry? f = some entry) (room : m.depth < m.config.recursionLimit) :
    resumeGenerator g r how m =
      Generator.answer r name (g.run entry ⟨f, m.entering r name⟩) := by
  rw [resume_run h he]
  exact runGenerator_apply hg h room

/-- A resume that the recursion limit refuses ends the generator. -/
theorem resume_refused (h : m.generator? r = some { name, frame := some f })
    (he : how.entry? f = some entry) (full : m.config.recursionLimit ≤ m.depth) :
    resumeGenerator g r how m = (m.setGenerator r { name, frame := none }).raising .runtimeError
      [.str "maximum recursion depth exceeded"] := by
  rw [resume_run h he]
  exact runGenerator_refused h full

/-! ## Closing -/

theorem close_running (h : (m.heap.generator r).running) :
    closeGenerator g r m = m.raising .valueError [.str "generator already executing"] := by
  show (if (m.heap.generator r).running then alreadyExecuting else _ : Exec Unit) m = _
  rw [if_pos h]
  rfl

theorem close_ended (still : ¬ (m.heap.generator r).running)
    (ended : (m.heap.generator r).frame = none) : closeGenerator g r m = .ok () m := by
  unfold closeGenerator
  rw [bind_apply, heap_apply]
  simp only [still, ended, Bool.false_eq_true, if_false]
  rfl

/-- A generator that was not begun is dropped, whatever the engine. -/
theorem close_unbegun (h : m.generator? r = some { name, frame := some f })
    (unbegun : f.lasti = none) :
    closeGenerator g r m = .ok () (m.setGenerator r { name, frame := none }) := by
  have dropped : m.mapGenerator r (fun gen => { gen with frame := none }) =
      m.setGenerator r { name, frame := none } := Machine.mapGenerator_eq h
  unfold closeGenerator
  rw [bind_apply, heap_apply]
  simp only [generator_of_holding h, unbegun, Option.isNone_none, Bool.false_eq_true, if_false,
    if_true]
  exact congrArg (EStateM.Result.ok ()) dropped

theorem catching_apply {α : Type} (kind : ExceptionKind) (x handle : Exec α) :
    catching kind x handle m = match x m with
      | .ok a m' => .ok a m'
      | .error e m' => if e.isException m'.heap kind then handle m' else .error e m' := by
  unfold catching
  rw [tryCatch_apply]
  cases x m with
  | ok a m' => rfl
  | error e m' =>
    show (if e.isException m'.heap kind then handle else throw e : Exec α) m' =
      if e.isException m'.heap kind then handle m' else .error e m'
    split <;> rfl

/-- Two classes of exceptions are handled when a generator is closed. -/
theorem exited_apply (x : Exec Value) (m : Machine) :
    (do
      let ignored ← catching .stopIteration (catching .generatorExit
        (do let _ ← x; return true) (return false)) (return false)
      if ignored then raise .runtimeError "generator ignored GeneratorExit" : Exec Unit) m =
      Generator.closed (x m) := by
  have thrown : (do let _ ← x; return true : Exec Bool) m = match x m with
      | .ok _ m' => .ok true m'
      | .error e m' => .error e m' := by
    rw [bind_apply]
    cases x m <;> rfl
  rw [bind_apply, catching_apply, catching_apply, thrown]
  cases x m with
  | ok v m' => rfl
  | error e m' =>
    unfold Generator.closed
    by_cases exits : e.isException m'.heap .generatorExit
    · simp only [exits, if_true, true_or]
      rfl
    · by_cases stops : e.isException m'.heap .stopIteration
      · simp only [exits, stops, Bool.false_eq_true, if_true, if_false, or_true]
        rfl
      · simp only [exits, stops, Bool.false_eq_true, if_false, or_self]

/-- A generator that was begun is resumed with `GeneratorExit`. -/
theorem close_begun (h : m.generator? r = some { name, frame := some f })
    (begun : f.lasti ≠ none) :
    closeGenerator g r m = Generator.closed (resumeGenerator g r (.throw_ m.heap.exceptions.size)
      (m.mapHeap fun h => (h.newException { kind := .generatorExit, args := #[] }).2)) := by
  unfold closeGenerator
  rw [bind_apply, heap_apply]
  simp only [generator_of_holding h, begun, Option.isNone_iff_eq_none, Bool.false_eq_true, if_false]
  exact exited_apply _ _

end TieredMachine
