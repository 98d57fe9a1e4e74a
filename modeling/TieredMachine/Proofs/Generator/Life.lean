/-
  The life of a generator.

  Whatever a session does, the record of a generator changes in turns only.  A turn runs
  the body once, from the frame that the generator holds; or it drops that frame, because
  the generator is closed before it began or because the recursion limit refuses the run.
  While the body runs, nothing changes the record.

  * `Generator.Turn`, `Generator.Lives`: turns, and what becomes of a record;
  * `lifeLaw`: the law that the record of a generator lives;
  * `Guest.LifeCycle`: what resuming and closing a generator do in each of its states;
  * `generator_lives`: **every generator lives its life**.
-/
import Mathlib.Logic.Relation
import TieredMachine.Proofs.Generator.Resume
import TieredMachine.Proofs.Host.Objects
import TieredMachine.Proofs.Tier.Standing

namespace TieredMachine

open Relation

/-! ## Turns -/

/-- The frame that a run of a body leaves to its generator, if there is one. -/
def heldAfter : EStateM.Result Fault Activation Exit → Option Frame
  | .ok (.yield_ _) s => some s.frame
  | _ => none

/-- What happens to the record of a generator under a host. -/
inductive Generator.Turn (host : Host) (a : Alarm) (r : Ref) :
    Option Generator → Option Generator → Prop
  /-- it is made, and holds the frame of a call -/
  | made (name : String) (f : Frame) : Turn host a r none (some { name, frame := some f })
  /-- a resume runs its body from the frame that it holds, up to where it yields or is
      left -/
  | ran {name : String} {f : Frame} {how : Resumption} {entry : Entry} {m : Machine} (fuel : Nat) :
      how.entry? f = some entry →
      m.generator? r = some { name, frame := none, running := true } →
      Turn host a r (some { name, frame := some f })
        (some { name, frame := heldAfter ((hosted host a fuel).run entry ⟨f, m⟩) })
  /-- the recursion limit refuses a resume -/
  | refused {name : String} {f : Frame} {m : Machine} : m.config.recursionLimit ≤ m.depth →
      Turn host a r (some { name, frame := some f }) (some { name, frame := none })
  /-- it is closed before it began -/
  | dropped {name : String} {f : Frame} : f.lasti = none →
      Turn host a r (some { name, frame := some f }) (some { name, frame := none })

/-- What becomes of the record of a generator: while its body runs it stays as it is, and
    else it takes turns. -/
def Generator.Lives (host : Host) (a : Alarm) (r : Ref) (o o' : Option Generator) : Prop :=
  if o.any (·.running) then o' = o else ReflTransGen (Generator.Turn host a r) o o'

namespace Generator

variable {host : Host} {a : Alarm} {r : Ref} {o o' o'' : Option Generator}

/-- After a turn the body does not run. -/
theorem Turn.still (h : Turn host a r o o') : o'.any (·.running) = false := by
  cases h <;> rfl

theorem still_of_turns (h : ReflTransGen (Turn host a r) o o') (still : ¬ o.any (·.running)) :
    ¬ o'.any (·.running) := by
  induction h with
  | refl => exact still
  | tail _ turn _ => rw [turn.still]; exact Bool.false_ne_true

/-- A generator that has ended takes no turns. -/
theorem eq_of_turns {name : String}
    (h : ReflTransGen (Turn host a r) (some { name, frame := none }) o) :
    o = some { name, frame := none } := by
  induction h with
  | refl => rfl
  | tail _ turn ih => subst ih; cases turn

theorem Lives.refl (o : Option Generator) : Lives host a r o o := by
  unfold Lives
  split
  · rfl
  · exact .refl

theorem Lives.of_eq (h : o' = o) : Lives host a r o o' := by
  rw [h]
  exact .refl o

theorem Lives.turn (h : Turn host a r o o') (still : o.any (·.running) = false) :
    Lives host a r o o' := by
  rw [Lives, if_neg (by rw [still]; exact Bool.false_ne_true)]
  exact .single h

theorem Lives.same {gen : Generator} (h : Lives host a r (some gen) o) (running : gen.running) :
    o = some gen := by
  rw [Lives, if_pos (by simpa using running)] at h
  exact h

theorem Lives.turns {gen : Generator} (h : Lives host a r (some gen) o)
    (still : gen.running = false) : ReflTransGen (Turn host a r) (some gen) o := by
  rw [Lives, if_neg (by simp [still])] at h
  exact h

theorem Lives.trans (h : Lives host a r o o') (h' : Lives host a r o' o'') :
    Lives host a r o o'' := by
  by_cases running : o.any (·.running)
  · rw [Lives, if_pos running] at h
    exact h ▸ h'
  · rw [Lives, if_neg running] at h
    rw [Lives, if_neg (still_of_turns h running)] at h'
    rw [Lives, if_neg running]
    exact h.trans h'

end Generator

/-! ## The law -/

/-- The law that the record of a generator lives. -/
def lifeLaw (host : Host) (a : Alarm) (r : Ref) : Law where
  config := {}
  holds _ := False
  past _ := False
  kept m m' := Generator.Lives host a r (m.generator? r) (m'.generator? r)
  kept_refl _ := .refl _
  kept_trans := .trans
  past_of_kept _ h := h

variable {host : Host} {a : Alarm} {r : Ref}

/-- Steps that leave the records of generators alone. -/
theorem lifeLaw_bears {m m' : Machine} (h : m'.generator? r = m.generator? r) :
    (lifeLaw host a r).Bears m m' := ⟨.of_eq h, False.elim⟩

instance : (lifeLaw host a r).HeapOnly where
  same h := lifeLaw_bears (by rw [Machine.generator?, h]; rfl)

instance : (lifeLaw host a r).Running where
  configured h := h.elim
  aside h := ⟨.of_eq (congrArg (·[r]?) h.generators), False.elim⟩
  mark _ _ _ := lifeLaw_bears rfl
  addEntry m exc entry := lifeLaw_bears rfl
  newGenerator m name f := by
    have made : (m.withHeap (m.heap.newGenerator { name, frame := some f }).2).generator? r =
        if r = m.heap.generators.size then some { name, frame := some f } else m.generator? r :=
      Array.getElem?_push
    refine ⟨?_, False.elim⟩
    show Generator.Lives host a r (m.generator? r) _
    rw [made]
    split
    · rename_i new
      have none : m.generator? r = none := Array.getElem?_eq_none (Nat.le_of_eq new.symm)
      rw [none]
      exact .turn (.made name f) rfl
    · exact .refl _

/-! ## Resumes -/

theorem generator?_resumeEnded (m : Machine) (how : Resumption) :
    (finalState (resumeEnded how m)).generator? r = m.generator? r := by
  cases how <;> rfl

theorem generator?_closed (res : EStateM.Result Fault Machine Value) :
    (finalState (Generator.closed res)).generator? r = (finalState res).generator? r := by
  cases res with
  | ok v m => rfl
  | error e m =>
    unfold Generator.closed
    dsimp only
    split <;> rfl

/-- After a run of its body a generator holds the frame that was left to it. -/
theorem generator?_answer {name : String} {res : EStateM.Result Fault Activation Exit}
    {gen : Generator} (h : (finalState res).machine.generator? r = some gen) :
    (finalState (Generator.answer r name res)).generator? r =
      some { name, frame := heldAfter res } := by
  cases res with
  | ok exit s =>
    cases exit with
    | yield_ v => exact Machine.generator?_setGenerator h
    | return_ v => exact Machine.generator?_setGenerator h
  | error e s => exact Machine.generator?_setGenerator h

variable {fuel : Nat}

/-- A generator lives through a resume of it. -/
theorem lives_resume (hg : (hosted host a fuel).Respects r) (how : Resumption) (m : Machine) :
    Generator.Lives host a r (m.generator? r)
      ((finalState (resumeGenerator (hosted host a fuel) r how m)).generator? r) := by
  cases known : m.generator? r with
  | none =>
    have gen : m.heap.generator r = default := by rw [Machine.generator_eq, known]; rfl
    rw [resume_ended (by rw [gen]; exact Bool.false_ne_true) (by rw [gen]; rfl),
      generator?_resumeEnded, known]
    exact .refl _
  | some gen =>
    have same : m.heap.generator r = gen := by rw [Machine.generator_eq, known]; rfl
    obtain ⟨name, frame, running⟩ := gen
    cases running with
    | true =>
      rw [resume_running (by rw [same])]
      exact .of_eq known
    | false =>
      cases frame with
      | none =>
        rw [resume_ended (by rw [same]; exact Bool.false_ne_true) (by rw [same]),
          generator?_resumeEnded, known]
        exact .refl _
      | some f =>
        cases he : how.entry? f with
        | none =>
          rw [resume_rejected known he]
          exact .of_eq known
        | some entry =>
          by_cases full : m.config.recursionLimit ≤ m.depth
          · rw [resume_refused known he full]
            have ended : (m.setGenerator r { name, frame := none }).generator? r =
                some { name, frame := none } := Machine.generator?_setGenerator known
            show Generator.Lives host a r _ ((m.setGenerator r _).generator? r)
            rw [ended]
            exact .turn (.refused full) rfl
          · have entered : (m.entering r name).generator? r =
                some { name, frame := none, running := true } :=
              Machine.generator?_setGenerator known
            have left := hg entry ⟨f, m.entering r name⟩ _ entered rfl
            rw [resume_holding hg known he (Nat.lt_of_not_le full), generator?_answer left]
            exact .turn (.ran fuel he entered) rfl

/-- A generator lives through being closed. -/
theorem lives_close (hg : (hosted host a fuel).Respects r) (m : Machine) :
    Generator.Lives host a r (m.generator? r)
      ((finalState (closeGenerator (hosted host a fuel) r m)).generator? r) := by
  cases known : m.generator? r with
  | none =>
    have gen : m.heap.generator r = default := by rw [Machine.generator_eq, known]; rfl
    rw [close_ended (by rw [gen]; exact Bool.false_ne_true) (by rw [gen]; rfl)]
    exact .of_eq known
  | some gen =>
    have same : m.heap.generator r = gen := by rw [Machine.generator_eq, known]; rfl
    obtain ⟨name, frame, running⟩ := gen
    cases running with
    | true =>
      rw [close_running (by rw [same])]
      exact .of_eq known
    | false =>
      cases frame with
      | none =>
        rw [close_ended (by rw [same]; exact Bool.false_ne_true) (by rw [same])]
        exact .of_eq known
      | some f =>
        cases begun : f.lasti with
        | none =>
          rw [close_unbegun known begun, finalState_ok, Machine.generator?_setGenerator known]
          exact .turn (.dropped begun) rfl
        | some i =>
          rw [close_begun known (by rw [begun]; exact Option.some_ne_none i), generator?_closed]
          have lives := lives_resume hg (.throw_ m.heap.exceptions.size)
            (m.mapHeap fun h => (h.newException { kind := .generatorExit, args := #[] }).2)
          exact known ▸ lives

/-! ## Engines -/

/-- Under the law runs of frames leave the record of a running generator alone. -/
theorem Guest.respects_of_keeps {g : Guest}
    (hg : ∀ entry, Keeps (freeWorld (lawWorld (lifeLaw host a r))) (g.run entry)) :
    g.Respects r := by
  intro entry s gen known running
  have lives : Generator.Lives host a r (s.machine.generator? r)
    ((finalState (g.run entry s)).machine.generator? r) := hg entry s
  rw [known] at lives
  exact lives.same running

/-- Engines agree under the law on resumed generators: on this one, and on others. -/
theorem lifeLaw_resumes (runs : (lifeLaw host a r).RunsAlike .right (hosted host a fuel)
    (hosted host a fuel)) :
    (lifeLaw host a r).ResumesAlike .right (hosted host a fuel) (hosted host a fuel) := by
  have hg : (hosted host a fuel).Respects r := Guest.respects_of_keeps fun entry => (runs entry).left
  have change {r' : Ref} (h : r' ≠ r) (f : Generator → Generator) :
      Agrees (lawWorld (lifeLaw host a r)) .right (modifyGenerator r' f) (modifyGenerator r' f) :=
    Law.change_agrees fun m => lifeLaw_bears (Machine.generator?_mapGenerator_of_ne (m := m) h)
  refine ⟨fun r' how => ?_, fun r' => ?_⟩
  · by_cases h : r' = r
    · subst h
      exact ⟨lives_resume hg how, lives_resume hg how, fun h => h.2.elim⟩
    · exact Law.resumeGenerator_agrees runs (change h) how
  · by_cases h : r' = r
    · subst h
      exact ⟨lives_close hg, lives_close hg, fun h => h.2.elim⟩
    · exact .of (closeGenerator_agrees r' (change h _)
        (Law.resumeGenerator_agrees runs (change h)))

/-- A change of the heap that leaves the records of generators alone. -/
def Heap.KeepsGenerators (f : Heap → Heap) : Prop := ∀ h, (f h).generators = h.generators

theorem lifeLaw_admits {f : Heap → Heap} (h : Heap.KeepsGenerators f) :
    (lifeLaw host a r).Admits f := fun m => lifeLaw_bears (congrArg (·[r]?) (h m.heap))

/-- Engines under a host that leaves the records of generators alone. -/
theorem lifeLaw_aligned (host : Host) (hh : host.Edits Heap.KeepsGenerators) (fuel : Nat) :
    Aligned (lifeLaw host a r) .right (hosted host a fuel) (hosted host a fuel) :=
  Law.hosted_aligned (Law.HeapOnly.carried a) (fun answered => (hh answered).mono lifeLaw_admits)
    (fun _ => lifeLaw_resumes) fuel

/-! ## Life cycles -/

/-- What resuming and closing a generator do on an engine in each of its states. -/
structure Guest.LifeCycle (g : Guest) (r : Ref) : Prop where
  /-- while the body runs, any attempt raises a new `ValueError` and changes nothing else -/
  executing : ∀ {m : Machine}, (m.heap.generator r).running →
    (∀ how, resumeGenerator g r how m =
      m.raising .valueError [.str "generator already executing"]) ∧
    closeGenerator g r m = m.raising .valueError [.str "generator already executing"]
  /-- and what the body does in a run or in a call leaves the record alone -/
  untouched : g.Respects r ∧ ∀ callee args kwargs m gen, m.generator? r = some gen → gen.running →
    (finalState (g.call callee args kwargs m)).generator? r = some gen
  /-- a resume goes on from the frame that the generator holds -/
  resumed : ∀ {m name f how entry}, m.generator? r = some { name, frame := some f } →
    how.entry? f = some entry → m.depth < m.config.recursionLimit →
    resumeGenerator g r how m = Generator.answer r name (g.run entry ⟨f, m.entering r name⟩)
  /-- a body that was not begun takes no value but `None`, and none is given to it -/
  rejected : ∀ {m name f how}, m.generator? r = some { name, frame := some f } →
    how.entry? f = none → resumeGenerator g r how m =
      m.raising .typeError [.str "can't send non-None value to a just-started generator"]
  /-- a resume that the recursion limit refuses ends the generator -/
  refused : ∀ {m name f how entry}, m.generator? r = some { name, frame := some f } →
    how.entry? f = some entry → m.config.recursionLimit ≤ m.depth →
    resumeGenerator g r how m = (m.setGenerator r { name, frame := none }).raising .runtimeError
      [.str "maximum recursion depth exceeded"]
  /-- nothing is run of a generator that has ended -/
  ended : ∀ {m : Machine}, ¬ (m.heap.generator r).running → (m.heap.generator r).frame = none →
    (∀ v, resumeGenerator g r (.send v) m = m.raising .stopIteration []) ∧
    (∀ exc, resumeGenerator g r (.throw_ exc) m = .error (.raised exc) m) ∧
    closeGenerator g r m = .ok () m
  /-- nothing is run when a generator is closed before it began -/
  unbegun : ∀ {m name f}, m.generator? r = some { name, frame := some f } → f.lasti = none →
    closeGenerator g r m = .ok () (m.setGenerator r { name, frame := none })
  /-- closing it later resumes it with a new `GeneratorExit` -/
  closed : ∀ {m name f}, m.generator? r = some { name, frame := some f } → f.lasti ≠ none →
    closeGenerator g r m = Generator.closed (resumeGenerator g r (.throw_ m.heap.exceptions.size)
      (m.mapHeap fun h => (h.newException { kind := .generatorExit, args := #[] }).2))

/-- An engine under the law of a generator handles it so. -/
theorem lifeCycle_of_aligned {g : Guest} (hg : Aligned (lifeLaw host a r) .right g g) :
    g.LifeCycle r := by
  have respects : g.Respects r := Guest.respects_of_keeps fun entry => (hg.run entry).left
  exact {
    executing := fun running => ⟨fun _ => resume_running running, close_running running⟩
    untouched := ⟨respects, fun callee args kwargs m gen known running => by
      have lives : Generator.Lives host a r (m.generator? r)
        ((finalState (g.call callee args kwargs m)).generator? r) :=
          (hg.call callee args kwargs).left m
      rw [known] at lives
      exact lives.same running⟩
    resumed := fun known he room => resume_holding respects known he room
    rejected := fun known he => resume_rejected known he
    refused := fun known he full => resume_refused known he full
    ended := fun still ended => ⟨fun _ => resume_ended still ended,
      fun _ => resume_ended still ended, close_ended still ended⟩
    unbegun := fun known unbegun => close_unbegun known unbegun
    closed := fun known begun => close_begun known begun }

/-- How a frame goes on where it stands when its generator is resumed, in either tier. -/
structure Guest.GoesOn (g : Guest) : Prop where
  /-- with the value that was sent on top of the stack -/
  sent : ∀ v f m, interpret g (.resume v) ⟨f, m⟩ = interpret g .continue_ ⟨f.push v, m⟩
  sentNative : ∀ graph v f m, runThreaded g graph (.resume v) ⟨f, m⟩ =
    match f.lasti.bind graph.resumeBlock? with
    | some b => Threaded.runFrom g graph g.fuel (.block b) ⟨f.push v, m⟩
    | none => runThreaded g graph .continue_ ⟨f.push v, m⟩
  /-- with the exception that was thrown, raised by the instruction begun last -/
  thrown : ∀ exc f m, interpret g (.throw_ exc) ⟨f, m⟩ =
    (direct (m.watch f.code.id) (.raise exc true) >>= goOn g (m.watch f.code.id) g.fuel) ⟨f, m⟩
  thrownNative : ∀ graph exc f m, runThreaded g graph (.throw_ exc) ⟨f, m⟩ =
    (Threaded.follow graph (.raise exc true) >>= Threaded.runFrom g graph g.fuel) ⟨f, m⟩

theorem Guest.goesOn (g : Guest) : g.GoesOn where
  sent _ _ _ := rfl
  sentNative graph v f m := by
    have entered : Threaded.enter graph (.resume v) ⟨f, m⟩ =
        (match f.lasti.bind graph.resumeBlock? with
          | some b => pure (.block b)
          | none => Threaded.land graph : FrameExec Threaded.Landing) ⟨f.push v, m⟩ := rfl
    unfold runThreaded
    rw [bind_apply, entered]
    cases f.lasti.bind graph.resumeBlock? with
    | some b => rfl
    | none => exact (bind_apply (Threaded.land graph) _ ⟨f.push v, m⟩).symm
  thrown _ _ _ := rfl
  thrownNative _ _ _ _ := rfl

/-- **Every generator lives its life.**  Under a host that leaves the records of generators
    alone, on every engine and for every generator:

    * resuming and closing it do in each of its states what `Guest.LifeCycle` says, and a
      body that goes on does so with the value sent or the exception thrown;
    * in whatever a session does, its record takes turns, each from the frame that the turn
      before left, and none while the body runs;
    * once it has ended, it has ended for good. -/
theorem generator_lives {host : Host} (hh : host.Edits Heap.KeepsGenerators) (a : Alarm)
    (r : Ref) (fuel : Nat) :
    (hosted host a fuel).LifeCycle r ∧ (hosted host a fuel).GoesOn ∧
    ∀ script : Script, script.Edits Heap.KeepsGenerators → ∀ m : Machine,
      let m' := finalState (session host a fuel script m)
      Generator.Lives host a r (m.generator? r) (m'.generator? r) ∧
      ∀ name, m.generator? r = some { name, frame := none } →
        m'.generator? r = some { name, frame := none } := by
  have aligned := lifeLaw_aligned (a := a) (r := r) host hh
  refine ⟨lifeCycle_of_aligned (aligned fuel), Guest.goesOn _, fun script hs m => ?_⟩
  have lives : Generator.Lives host a r (m.generator? r)
      ((finalState (session host a fuel script m)).generator? r) :=
    (Law.perform_agrees (Law.HeapOnly.carried a) (aligned fuel) script
      (hs.mono lifeLaw_admits)).left m
  refine ⟨lives, fun name ended => ?_⟩
  rw [ended] at lives
  exact Generator.eq_of_turns (lives.turns rfl)

/-- A generator that yields, goes on with a value and yields again. -/
theorem generator_lives_of_two_yields :
    let m := Machine.generating {}
    let script := Script.call (.function 0) [] [] fun _ => .resume 0 (.send .none) fun _ =>
      .resume 0 (.send (.int 7)) fun _ => .done .none
    let m' := finalState (session .idle .never 9 script m)
    (∀ {callee args kwargs script}, Host.idle callee args kwargs = some script →
      script.Edits Heap.KeepsGenerators) ∧ script.Edits Heap.KeepsGenerators ∧
    (m'.generator? 0).map (fun gen => (gen.running, gen.frame.map (·.lasti))) =
      some (false, some (some 6)) ∧
    Generator.Lives .idle .never 0 (m.generator? 0) (m'.generator? 0) ∧
    (hosted .idle .never 9).LifeCycle 0 := by
  intro m script m'
  have host {callee args kwargs script} (h : Host.idle callee args kwargs = some script) :
      script.Edits Heap.KeepsGenerators := by cases h
  have edits : script.Edits Heap.KeepsGenerators := fun _ _ _ => trivial
  obtain ⟨cycle, -, lives⟩ := generator_lives host .never 0 9
  exact ⟨host, edits, by decide +kernel, (lives script edits m).1, cycle⟩

/-! ### A refused resume -/

/-- The parts of a unit that asks its argument for one value. -/
def CodeParts.asksOnce : CodeParts where
  name := "h"
  argcount := 1
  words := #[.ofOpcode .loadFast, ⟨1⟩, .ofOpcode .forIter, ⟨3⟩, .ofOpcode .returnValue,
    .ofOpcode .loadConst, ⟨1⟩, .ofOpcode .returnValue]
  consts := #[.none]
  varnames := #["x"]

/-- The unit with these parts. -/
def CodeUnit.asksOnce : CodeUnit := (CodeUnit.ofParts 1 .asksOnce).toOption.getD default

/-- A machine that allows no call nested in another one, with a generator function and a
    function over that unit. -/
def Machine.narrow : Machine :=
  let m := generating { recursionLimit := 1 }
  let h := { m.heap with
    units := #[.yieldsTwice, .asksOnce]
    functions := m.heap.functions.push { name := "h", code := 1, globals := 0 } }
  { m with heap := h, units := #[{}, {}] }

/-- A generator has yielded once.  Then a guest function asks it for the next value, which
    the recursion limit refuses.  The generator has ended by that, and what it would have
    yielded next is lost: the next resume raises an exception. -/
theorem refused_resume_ends :
    let begun (next : Script) := Script.call (.function 0) [] [] fun _ =>
      .resume 0 (.send .none) fun _ => next
    let last := Script.resume 0 (.send .none) fun
      | .ok v => .done v
      | .error e => .fail e
    let held (script : Script) :=
      ((finalState (session .idle .never 9 script .narrow)).generator? 0).map fun gen =>
        (gen.running, gen.frame.map (·.lasti))
    let faulted (script : Script) := match session .idle .never 9 script .narrow with
      | .ok _ _ => false
      | .error _ _ => true
    held (begun (.done .none)) = some (false, some (some 2)) ∧
    held (begun (.call (.function 1) [.generator 0] [] fun _ => .done .none)) =
      some (false, none) ∧
    faulted (begun last) = false ∧
    faulted (begun (.call (.function 1) [.generator 0] [] fun _ => last)) = true := by
  decide +kernel

end TieredMachine
