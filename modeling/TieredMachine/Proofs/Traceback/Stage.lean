/-
  Stages of a run.

  A run of a frame is taken apart into steps so small that each runs one primitive or
  follows one flow, in whichever tier the frame is, and on from a bail.  The tiers do in
  one go what these steps do one after another.

  * `Stage`, `Stage.next`: where a frame stands in its run, and what it does next;
  * `Stage.Ends`: how a run ends that goes on from a stage;
  * **`runFrame_ends`**: every run of a frame goes from stage to stage to its end.
-/
import TieredMachine.Proofs.Host.Native
import TieredMachine.Proofs.Native.Block

namespace TieredMachine

/-! ## Stages -/

/-- Where a frame stands in its run.  Native code is that of a unit, which a bail is
    counted for. -/
inductive Stage where
  /-- the interpreter is entered -/
  | enter (w : Watch) (entry : Entry)
  /-- the interpreter is to begin the instruction that the frame stands at -/
  | step (w : Watch)
  /-- the interpreter is inside an instruction, before the primitives from position `k` on -/
  | prims (w : Watch) (ip k : Nat) (ps : List Primitive)
  /-- the interpreter is to follow the flow out of an instruction -/
  | flow (w : Watch) (flow : Flow)
  /-- threaded code is entered -/
  | native (unit : Ref) (G : Graph) (entry : Entry)
  /-- threaded code is to begin a block -/
  | block (unit : Ref) (G : Graph) (b : BlockId)
  /-- threaded code is inside a block -/
  | ops (unit : Ref) (G : Graph) (is : List Inst) (t : Terminator)
  /-- threaded code is to follow the flow out of a block -/
  | way (unit : Ref) (G : Graph) (flow : Flow)
  /-- a kernel is entered -/
  | kernel (unit : Ref) (k : Kernel) (entry : Entry)
  /-- native code was left to the interpreter -/
  | bail (unit : Ref) (reason : BailReason)
  /-- the frame was left -/
  | left (exit : Exit)
  deriving Inhabited

namespace Stage

/-- The stage in which threaded code lands. -/
def ofLanding (unit : Ref) (G : Graph) : Threaded.Landing → Stage
  | .block b => block unit G b
  | .exit exit => left exit
  | .bail reason => bail unit reason

/-- The stage in which native code was left. -/
def ofExit (unit : Ref) : NativeExit → Stage
  | .done exit => left exit
  | .bail reason => bail unit reason

/-- The stage in which the interpreter is entered. -/
def entering (entry : Entry) : FrameExec Stage := do
  let s ← get
  return enter (s.machine.watch s.frame.code.id) entry

/-- How the interpreter is entered after a bail. -/
def afterBail (unit : Ref) (reason : BailReason) : FrameExec Entry := do
  onMachine (modify (·.bail unit reason))
  if reason.isGuard && (← get).machine.bailError then
    return .throw_ (← newException .runtimeError [.str bailMessage])
  else return .continue_

/-- Goes on with the next instruction, unless the frame was left. -/
def stepOr (w : Watch) : Option Exit → Stage
  | some exit => left exit
  | none => step w

/-- Begins the instruction that the frame stands at. -/
def begin (w : Watch) : FrameExec Instr := do
  let f ← frame
  match f.code.instrAt? f.ip with
  | none => throw (.ipOutOfBounds f.ip)
  | some i =>
    if w.tracing && (f.code.isLineStart i.ip || f.isBackward i.ip) then
      tellTracer w (.line i.line)
    modifyFrame fun f => { f with lasti := some i.ip, ip := i.next }
    return i

/-- What a frame does next. -/
def next (g : Guest) : Stage → FrameExec Stage
  | enter w (.throw_ exc) => return flow w (.raise exc true)
  | enter w entry => return stepOr w (← TieredMachine.enter w entry)
  | step w => do
    let i ← begin w
    return prims w i.ip 0 i.prims
  | prims w _ _ [] => return flow w .next
  | prims w ip k (p :: ps) => do
    match ← caught (Primitive.run g ⟨ip, k⟩ w.recording p) with
    | .next => return prims w ip (k + 1) ps
    | out => return flow w out
  | flow w out => return stepOr w (← direct w out)
  | native unit G (.throw_ exc) => return way unit G (.raise exc true)
  | native unit G entry => return ofLanding unit G (← Threaded.enter G entry)
  | block unit G b => do
    modifyFrame fun f => { f with ip := (G.block b).start }
    return ops unit G (G.block b).insts (G.block b).term
  | ops unit G [] t => do
    let out ← t.flow g
    match t.edge? out with
    | some along => return ofLanding unit G (← along)
    | none => return way unit G out
  | ops unit G (i :: is) t => do
    match ← Threaded.runOp g G i with
    | .next => return ops unit G is t
    | .bail reason => return bail unit reason
    | .flow out => return way unit G out
  | way unit G out => return ofLanding unit G (← Threaded.follow G out)
  | kernel unit k entry => return ofExit unit (← runKernel g k entry)
  | bail unit reason => do entering (← afterBail unit reason)
  | left exit => return left exit

/-- How a run ends that goes on from a stage; it may be out of fuel anywhere. -/
inductive Ends (g : Guest) : Stage → Activation → EStateM.Result Fault Activation Exit → Prop
  | left {exit s} : Ends g (left exit) s (.ok exit s)
  | fault {p : Stage} {s e t} : p.next g s = .error e t → Ends g p s (.error e t)
  | next {p : Stage} {s q t r} : p.next g s = .ok q t → Ends g q t r → Ends g p s r
  | spent {p s t} : Ends g p s (.error .outOfFuel t)

variable {g : Guest} {w : Watch} {unit : Ref} {G : Graph} {s : Activation}

/-- A run that ends with a fault before a computation ends so with it. -/
theorem Ends.bind {α : Type} {p : Stage} {x : FrameExec α} {q : α → Stage}
    {k : α → FrameExec Exit} (hp : p.next g s = (do return q (← x)) s)
    (h : ∀ a t, Ends g (q a) t (k a t)) : Ends g p s ((x >>= k) s) := by
  rw [bind_apply] at hp ⊢
  cases hx : x s with
  | ok a t =>
    rw [hx] at hp
    exact .next hp (h a t)
  | error e t =>
    rw [hx] at hp
    exact .fault hp

/-! ## Runs of the interpreter -/

theorem step_eq (g : Guest) (w : Watch) : TieredMachine.step g w = begin w >>= fun i =>
    runPrimitives g w.recording i.ip 0 i.prims := by
  unfold TieredMachine.step begin
  rw [bind_assoc]
  refine congrArg (_ >>= ·) (funext fun f => ?_)
  cases f.code.instrAt? f.ip with
  | none => rfl
  | some i =>
    dsimp only
    split
    · rw [bind_assoc]
      rfl
    · rfl

theorem Ends.follow {n : Nat} (ih : ∀ s, Ends g (step w) s (interpretFrom g w n s)) (out : Flow)
    (s : Activation) : Ends g (flow w out) s ((direct w out >>= goOn g w n) s) :=
  .bind (q := stepOr w) rfl fun exit t => by
    cases exit with
    | some exit => exact .left
    | none => exact ih t

theorem Ends.inside {k : Flow → FrameExec Exit} (h : ∀ out t, Ends g (flow w out) t (k out t))
    (ip : Nat) : ∀ (j : Nat) (ps : List Primitive) (s : Activation),
      Ends g (prims w ip j ps) s ((runPrimitives g w.recording ip j ps >>= k) s)
  | _, [], s => .next rfl (h .next s)
  | j, p :: ps, s => by
    have rest := Ends.inside h ip (j + 1) ps
    rw [runPrimitives, bind_assoc]
    refine .bind (q := fun
      | .next => prims w ip (j + 1) ps
      | out => flow w out) ?_ fun out t => ?_
    · exact congrFun (congrArg (_ >>= ·) (funext fun out => by cases out <;> rfl)) s
    · cases out with
      | next => exact rest t
      | _ => exact h _ t

theorem interpretFrom_ends (g : Guest) (w : Watch) : ∀ (n : Nat) (s : Activation),
    Ends g (step w) s (interpretFrom g w n s)
  | 0, _ => .spent
  | n + 1, s => by
    have ih := interpretFrom_ends g w n
    have apart : interpretFrom g w (n + 1) = begin w >>= fun i =>
        runPrimitives g w.recording i.ip 0 i.prims >>= fun out => direct w out >>= goOn g w n := by
      rw [← bind_assoc, ← step_eq]
      exact congrArg (_ >>= ·) (funext fun out => congrArg (_ >>= ·) (funext fun exit => by
        cases exit <;> rfl))
    rw [apart]
    exact .bind (q := fun i => prims w i.ip 0 i.prims) rfl fun i t =>
      .inside (fun out t => .follow ih out t) i.ip 0 i.prims t

/-- A run of the interpreter. -/
theorem interpret_ends (g : Guest) (entry : Entry) (s : Activation) :
    Ends g (enter (s.machine.watch s.frame.code.id) entry) s (interpret g entry s) := by
  let w := s.machine.watch s.frame.code.id
  have entered : interpret g entry s = (TieredMachine.enter w entry >>= goOn g w g.fuel) s := by
    show (TieredMachine.enter w entry >>= _) s = _
    exact congrFun (congrArg (_ >>= ·) (funext fun exit => by cases exit <;> rfl)) s
  have on (exit : Option Exit) (t : Activation) :
      Ends g (stepOr w exit) t (goOn g w g.fuel exit t) := by
    cases exit with
    | some exit => exact .left
    | none => exact interpretFrom_ends g w g.fuel t
  rw [entered]
  cases entry with
  | throw_ exc => exact .next rfl (.follow (interpretFrom_ends g w g.fuel) (.raise exc true) s)
  | call | resume | continue_ => exact .bind (q := stepOr w) rfl on

/-! ## Runs of native code -/

theorem afterNative_bail (g : Guest) (unit : Ref) (reason : BailReason) :
    Law.afterNative g unit (.bail reason) = afterBail unit reason >>= interpret g := by
  unfold Law.afterNative afterBail
  rw [bind_assoc]
  refine congrArg (_ >>= ·) (funext fun _ => funext fun s => ?_)
  show (if _ then _ else _ : FrameExec Exit) s = ((if _ then _ else _ : FrameExec Entry) >>= _) s
  split <;> rfl

/-- The interpreter goes on after a bail. -/
theorem Ends.bailed (unit : Ref) (reason : BailReason) (s : Activation) :
    Ends g (bail unit reason) s (Law.afterNative g unit (.bail reason) s) := by
  have next : (bail unit reason).next g s = (afterBail unit reason >>= entering) s := rfl
  rw [afterNative_bail, bind_apply]
  rw [bind_apply] at next
  cases h : afterBail unit reason s with
  | ok entry t =>
    rw [h] at next
    exact .next next (interpret_ends g entry t)
  | error e t =>
    rw [h] at next
    exact .fault next

variable {k : Threaded.Landing → FrameExec Exit}

theorem Ends.along (ih : ∀ l t, Ends g (ofLanding unit G l) t (k l t)) (out : Flow)
    (s : Activation) : Ends g (way unit G out) s ((Threaded.follow G out >>= k) s) :=
  .bind (q := ofLanding unit G) rfl ih

theorem Ends.within (ih : ∀ l t, Ends g (ofLanding unit G l) t (k l t)) (t : Terminator) :
    ∀ (is : List Inst) (s : Activation),
      Ends g (ops unit G is t) s ((Threaded.rest g G is t >>= k) s)
  | [], s => by
    have next : (ops unit G [] t).next g s = (t.flow g >>= fun out =>
        match t.edge? out with
        | some along => along >>= fun l => pure (ofLanding unit G l)
        | none => pure (way unit G out)) s := rfl
    rw [Threaded.rest_nil, Terminator.leaveBlock_eq, bind_assoc, bind_apply]
    rw [bind_apply] at next
    cases hf : t.flow g s with
    | error e u =>
      rw [hf] at next
      exact .fault next
    | ok out u =>
      rw [hf] at next
      dsimp only at next ⊢
      cases he : t.edge? out with
      | none =>
        rw [he] at next
        exact .next next (.along ih out u)
      | some along =>
        rw [he] at next
        dsimp only [Option.getD] at next ⊢
        rw [bind_apply] at next ⊢
        cases hl : along u with
        | ok l v =>
          rw [hl] at next
          exact .next next (ih l v)
        | error e v =>
          rw [hl] at next
          exact .fault next
  | i :: is, s => by
    have rest := Ends.within ih t is
    rw [Threaded.rest_cons, bind_assoc]
    refine .bind (q := fun
      | .next => ops unit G is t
      | .bail reason => bail unit reason
      | .flow out => way unit G out) ?_ fun passed u => ?_
    · exact congrFun (congrArg (_ >>= ·) (funext fun passed => by cases passed <;> rfl)) s
    · cases passed with
      | next => exact rest u
      | bail reason => exact ih (.bail reason) u
      | flow out => exact .along ih out u

theorem runFrom_ends (g : Guest) (unit : Ref) (G : Graph) : ∀ (n : Nat) (l : Threaded.Landing)
    (s : Activation), Ends g (ofLanding unit G l) s
      ((Threaded.runFrom g G n l >>= Law.afterNative g unit) s)
  | 0, .exit _, _ | _ + 1, .exit _, _ => .left
  | 0, .bail reason, s | _ + 1, .bail reason, s => .bailed unit reason s
  | 0, .block _, _ => .spent
  | n + 1, .block b, s => by
    have ih := runFrom_ends g unit G n
    have apart : Threaded.runFrom g G (n + 1) (.block b) >>= Law.afterNative g unit =
        modifyFrame (fun f => { f with ip := (G.block b).start }) >>= fun _ =>
          Threaded.rest g G (G.block b).insts (G.block b).term >>= fun l =>
            Threaded.runFrom g G n l >>= Law.afterNative g unit := by
      show (Threaded.runBlock g G b >>= Threaded.runFrom g G n) >>= _ = _
      rw [Threaded.runBlock_eq]
      simp only [bind_assoc]
    rw [apart]
    exact .bind (q := fun _ => ops unit G (G.block b).insts (G.block b).term) rfl
      fun _ t => .within ih _ _ t

theorem runThreaded_ends (g : Guest) (unit : Ref) (G : Graph) (entry : Entry) (s : Activation) :
    Ends g (native unit G entry) s ((runThreaded g G entry >>= Law.afterNative g unit) s) := by
  have on := runFrom_ends g unit G g.fuel
  unfold runThreaded
  rw [bind_assoc]
  cases entry with
  | throw_ exc => exact .next rfl (.along on (.raise exc true) s)
  | call | resume | continue_ => exact .bind (q := ofLanding unit G) rfl on

theorem runKernel_ends (g : Guest) (unit : Ref) (k : Kernel) (entry : Entry) (s : Activation) :
    Ends g (kernel unit k entry) s ((runKernel g k entry >>= Law.afterNative g unit) s) :=
  .bind (q := ofExit unit) rfl fun exit t => by
    cases exit with
    | done exit => exact .left
    | bail reason => exact .bailed unit reason t

/-! ## Runs of frames -/

/-- The stage in which a run of a frame begins. -/
def first (entry : Entry) (f : Frame) (m : Machine) : Stage :=
  let interpreted := enter ((m.begun entry f).watch f.code.id) entry
  match ((Law.entered entry f m).profile f.code.id).runnable? with
  | none => interpreted
  | some n =>
    if (Law.entered entry f m).tracing then interpreted
    else match n.code with
      | .threaded G => native f.code.id G entry
      | .kernel k => kernel f.code.id k entry

/-- Whether the end of a run that begins so is recorded: it is that of an activation which
    the interpreter was to run. -/
def isRecorded : Stage → Bool
  | enter _ entry => entry.isCall
  | _ => false

end Stage

/-- The end of a run of a frame, recorded if it has to be. -/
def recordEnd (recorded : Bool) (r : EStateM.Result Fault Activation Exit) :
    EStateM.Result Fault Activation Exit :=
  if recorded then
    match r with
    | .ok exit s => .ok exit { s with machine := s.machine.record .callEndEval }
    | .error e s => .error e { s with machine := s.machine.record .callEndEval }
  else r

theorem interpretEnded_apply (g : Guest) (entry : Entry) (s : Activation) :
    Law.interpretEnded g entry s = recordEnd entry.isCall (interpret g entry s) := by
  unfold Law.interpretEnded recordEnd
  split
  · rw [bind_apply, tryCatch_apply]
    cases interpret g entry s <;> rfl
  · rfl

/-- **A run of a frame goes from stage to stage to its end**, whatever the tier, or is out of
    fuel. -/
theorem runFrame_ends (g : Guest) (entry : Entry) (f : Frame) (m : Machine) :
    ∃ r, Stage.Ends g (.first entry f m) ⟨f, m.begun entry f⟩ r ∧
      runFrame g entry ⟨f, m⟩ = recordEnd (Stage.first entry f m).isRecorded r := by
  have interpreted : Stage.Ends g (.enter ((m.begun entry f).watch f.code.id) entry)
      ⟨f, m.begun entry f⟩ (interpret g entry ⟨f, m.begun entry f⟩) :=
    Stage.interpret_ends g entry ⟨f, m.begun entry f⟩
  rw [Law.runFrame_begun]
  unfold Law.runBegun Stage.first
  dsimp only
  cases ((Law.entered entry f m).profile f.code.id).runnable? with
  | none => exact ⟨_, interpreted, interpretEnded_apply g entry _⟩
  | some n =>
    dsimp only
    split
    · exact ⟨_, interpreted, interpretEnded_apply g entry _⟩
    · unfold Law.compiledRest runNative
      cases n.code with
      | threaded G => exact ⟨_, Stage.runThreaded_ends g f.code.id G entry _, rfl⟩
      | kernel k => exact ⟨_, Stage.runKernel_ends g f.code.id k entry _, rfl⟩

end TieredMachine
