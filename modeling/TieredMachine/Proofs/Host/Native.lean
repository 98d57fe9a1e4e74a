/-
  Native code and tiers under a law.

  Native code concerns the tier of its unit only when it ends with a bail, which the law
  has to stand.  With that, and with what the law says of activations, a frame is run
  alike in whichever tier is in force.

  * `runThreaded_agrees`, `runKernel_agrees`: runs of native code;
  * `compiledRest_agree`: a run of native code that was found installed;
  * `runFrame_agree`: a run of a frame.
-/
import TieredMachine.Proofs.Host.Frame

namespace TieredMachine

namespace Law

variable {L : Law} [L.Eventful] {side : Side} {g g' : Guest}

/-! ## Threaded code -/

omit [L.Eventful] in
theorem passed_agrees {x y : FrameExec Flow} (h : Agrees (freeWorld (lawWorld L)) side x y) :
    Agrees (freeWorld (lawWorld L)) side (Threaded.passed x) (Threaded.passed y) := by
  refine (caught_agrees h).andThen fun flow => ?_
  cases flow with
  | next => exact .ret _
  | _ => exact .ret _

theorem primitive_agrees (hg : Aligned L side g g') (site : Site) (p : Primitive) :
    Agrees (freeWorld (lawWorld L)) side (Primitive.run g site false p)
      (Primitive.run g' site false p) :=
  (Primitive.run_agrees hg.serves site (.inl rfl) p).free

theorem callDirect_agrees (hg : Aligned L side g g') (site : Site) (arg : Nat)
    (expected : Value) :
    Agrees (freeWorld (lawWorld L)) side (Threaded.callDirect g site arg expected)
      (Threaded.callDirect g' site arg expected) := by
  have taken (direct : Bool) : Agrees (freeWorld (lawWorld L)) side
      (if direct then do
        let args ← popN (Primitive.positionalCount arg)
        let _ ← pop
        Threaded.passed do
          push (← g.call expected args [])
          return .next
      else Threaded.passed (Primitive.run g site false ⟨.callFunction, some arg⟩))
      (if direct then do
        let args ← popN (Primitive.positionalCount arg)
        let _ ← pop
        Threaded.passed do
          push (← g'.call expected args [])
          return .next
      else Threaded.passed (Primitive.run g' site false ⟨.callFunction, some arg⟩)) := by
    split
    · exact (popN_agrees _).free.andThen fun args => pop_agrees.free.andThen fun _ =>
        passed_agrees ((hg.call expected args []).onFrame.andThen fun v =>
          (push_agrees v).free.andThen fun _ => .ret _)
    · exact passed_agrees (primitive_agrees hg site _)
  unfold Threaded.callDirect
  dsimp only
  split
  · exact taken false
  · exact (peek_agrees _).free.andThen fun v => taken (v.isSame expected)

theorem intBinary_agrees (hg : Aligned L side g g') (site : Site) (op : Opcode) :
    Agrees (freeWorld (lawWorld L)) side (Threaded.intBinary g site op)
      (Threaded.intBinary g' site op) := by
  unfold Threaded.intBinary
  split
  · exact passed_agrees (primitive_agrees hg site _)
  · refine (peek_agrees 1).free.andThen fun a => (peek_agrees 0).free.andThen fun b => ?_
    split
    · exact (popN_agrees 2).free.andThen fun _ => (push_agrees _).free.andThen fun _ => .ret _
    · exact passed_agrees (primitive_agrees hg site _)

theorem runOp_agrees (hg : Aligned L side g g') (graph : Graph) (i : Inst) :
    Agrees (freeWorld (lawWorld L)) side (Threaded.runOp g graph i)
      (Threaded.runOp g' graph i) := by
  unfold Threaded.runOp
  split
  · refine (hg.poll _).onFrame.andThen fun reason => ?_
    cases reason with
    | some reason => exact .ret _
    | none => exact .ret _
  · exact frame_agrees.free.andThen fun f => heap_agrees.onFrame.andThen fun h => .ret _
  · exact (moveFrame_agrees _).andThen fun _ => .ret _
  · exact passed_agrees (primitive_agrees hg i.site _)
  · exact (pushBlock_agrees _ _).free.andThen fun _ => .ret _
  · exact (push_agrees _).free.andThen fun _ => .ret _
  · exact callDirect_agrees hg i.site _ _
  · exact intBinary_agrees hg i.site _

theorem runOps_agrees (hg : Aligned L side g g') (graph : Graph) :
    ∀ is, Agrees (freeWorld (lawWorld L)) side (Threaded.runOps g graph is)
      (Threaded.runOps g' graph is)
  | [] => .ret _
  | i :: is => by
    have ih := runOps_agrees hg graph is
    refine (runOp_agrees hg graph i).andThen fun passed => ?_
    cases passed with
    | next => exact ih
    | _ => exact .ret _

omit [L.Eventful] in
theorem land_agrees (graph : Graph) :
    Agrees (freeWorld (lawWorld L)) side (Threaded.land graph) (Threaded.land graph) := by
  refine frame_agrees.free.andThen fun f => ?_
  split
  · exact .ret _
  · exact .ret _

theorem unwindTo_agrees (graph : Graph) (p : Pending) :
    Agrees (freeWorld (lawWorld L)) side (Threaded.unwindTo graph p)
      (Threaded.unwindTo graph p) := by
  refine (dispatchUnwind_agrees p rfl).andThen fun exit => ?_
  cases exit with
  | some exit => exact .ret _
  | none => exact land_agrees graph

theorem follow_agrees (graph : Graph) {flow : Flow} (adds : AddsAlike L side flow) :
    Agrees (freeWorld (lawWorld L)) side (Threaded.follow graph flow)
      (Threaded.follow graph flow) := by
  cases flow with
  | next => exact land_agrees graph
  | jump target => exact (moveFrame_agrees _).andThen fun _ => land_agrees graph
  | yield_ v => exact .ret _
  | raise exc fresh =>
    exact (beginRaise_agrees adds rfl).andThen fun p => unwindTo_agrees graph p
  | unwind p => exact unwindTo_agrees graph p

omit [L.Eventful]

variable [L.Running]

theorem leaveBlock_agrees (hg : Aligned L side g g') (graph : Graph) (t : Terminator) :
    Agrees (freeWorld (lawWorld L)) side (Threaded.leaveBlock g graph t)
      (Threaded.leaveBlock g' graph t) := by
  have ran (site : Site) (p : Primitive) : Agrees (freeWorld (lawWorld L)) side
      (caught (Primitive.run g site false p)) (caught (Primitive.run g' site false p)) :=
    caught_agrees (primitive_agrees hg site p)
  cases t with
  | goto b => exact .ret _
  | trap ip => exact .fail _
  | return_ site => exact (ran site _).andThen fun flow => follow_agrees graph (addsAlike flow)
  | yield_ site _ => exact (ran site _).andThen fun flow => follow_agrees graph (addsAlike flow)
  | branch op arg site taken fallthrough =>
    refine (ran site _).andThen fun flow => ?_
    cases flow with
    | next => exact .ret _
    | jump _ => exact .ret _
    | _ => exact follow_agrees graph (addsAlike _)
  | forIter arg site body exit =>
    refine (ran site _).andThen fun flow => ?_
    cases flow with
    | next => exact .ret _
    | jump _ => exact .ret _
    | _ => exact follow_agrees graph (addsAlike _)
  | speculate op arg site expected next =>
    refine (ran site _).andThen fun flow => ?_
    cases flow with
    | next => exact .ret _
    | jump target =>
      dsimp only
      split
      · exact .ret _
      · exact (moveFrame_agrees _).andThen fun _ => .ret _
    | _ => exact follow_agrees graph (addsAlike _)
  | unwind p site fallthrough =>
    refine (ran site p).andThen fun flow => ?_
    cases flow with
    | next =>
      cases fallthrough with
      | some b => exact .ret _
      | none => exact frame_agrees.free.andThen fun f => .fail _
    | _ => exact follow_agrees graph (addsAlike _)

theorem runBlock_agrees (hg : Aligned L side g g') (graph : Graph) (b : BlockId) :
    Agrees (freeWorld (lawWorld L)) side (Threaded.runBlock g graph b)
      (Threaded.runBlock g' graph b) := by
  refine (moveFrame_agrees _).andThen fun _ => (runOps_agrees hg graph _).andThen fun passed => ?_
  cases passed with
  | next => exact leaveBlock_agrees hg graph _
  | bail reason => exact .ret _
  | flow flow => exact follow_agrees graph (addsAlike flow)

theorem enterThreaded_agrees (graph : Graph) (entry : Entry) :
    Agrees (freeWorld (lawWorld L)) side (Threaded.enter graph entry)
      (Threaded.enter graph entry) := by
  cases entry with
  | call => exact .ret _
  | resume v =>
    refine (push_agrees v).free.andThen fun _ => frame_agrees.free.andThen fun f => ?_
    split
    · exact .ret _
    · exact land_agrees graph
  | throw_ exc => exact follow_agrees graph (addsAlike (.raise exc true))
  | continue_ => exact land_agrees graph

theorem runFrom_agrees (hg : Aligned L side g g') (graph : Graph) (n : Nat) (l : Threaded.Landing) :
    Agrees (freeWorld (lawWorld L)) side (Threaded.runFrom g graph n l)
      (Threaded.runFrom g' graph n l) := by
  induction n generalizing l with
  | zero => cases l <;> first | exact .ret _ | exact .fail _
  | succ n ih =>
    cases l with
    | block b => exact (runBlock_agrees hg graph b).andThen fun l => ih l
    | exit e => exact .ret _
    | bail reason => exact .ret _

/-- A run of threaded code agrees. -/
theorem runThreaded_agrees (hg : Aligned L side g g') (graph : Graph) (entry : Entry) :
    Agrees (freeWorld (lawWorld L)) side (runThreaded g graph entry)
      (runThreaded g' graph entry) := by
  refine (enterThreaded_agrees graph entry).andThen fun l => ?_
  rw [hg.fuel]
  exact runFrom_agrees hg graph g'.fuel l

/-! ## Kernels -/

omit [L.Running] in
theorem leaveKernel_agrees (hg : Aligned L side g g') (k : Kernel) (n : Nat)
    (stack : List Int64) (locals : Array (Option Int64)) :
    Agrees (freeWorld (lawWorld L)) side (leaveKernel g k n stack locals)
      (leaveKernel g' k n stack locals) := by
  unfold leaveKernel
  split
  · exact .fail _
  · refine (moveFrame_agrees _).andThen fun _ => ?_
    split
    · exact (hg.poll _).onFrame.andThen fun reason => .ret _
    · exact .ret _

/-- The run of a kernel over the local variables of a frame. -/
def kernelBody (g : Guest) (k : Kernel) (polled : Kernel.Polls) (fuel : Nat) (f : Frame) :
    FrameExec NativeExit :=
  match Kernel.wordsOf? f.locals with
  | none => return .bail .fatalGuardFail
  | some words =>
    match k.run polled fuel k.entry words with
    | none => throw .outOfFuel
    | some (.return_ kind w) => return .done (.return_ (kind.value w))
    | some (.bail n stack locals) => leaveKernel g k n stack locals
    | some .lost => throw (.runtime (.kernelStatus k.bails.size))

omit [L.Running] in
/-- A run of a kernel agrees. -/
theorem runKernel_agrees (hg : Aligned L side g g') (k : Kernel) (entry : Entry) :
    Agrees (freeWorld (lawWorld L)) side (runKernel g k entry) (runKernel g' k entry) := by
  refine .readRun fun s₀ => ?_
  unfold runKernelPolled
  refine .readRun fun s => ?_
  rw [hg.fuel]
  let polled : Kernel.Polls := fun _ _ => s₀.machine.tracing || s₀.machine.requested
  have ran : Agrees (freeWorld (lawWorld L)) side (kernelBody g k polled g'.fuel s.frame)
      (kernelBody g' k polled g'.fuel s.frame) := by
    unfold kernelBody
    split
    · exact .ret _
    · split
      · exact .fail _
      · exact .ret _
      · exact leaveKernel_agrees hg k _ _ _
      · exact .fail _
  have sized : Agrees (freeWorld (lawWorld L)) side
      (do if s.frame.locals.size ≠ k.localCount then throw (.runtime .kernelLocals)
          kernelBody g k polled g'.fuel s.frame)
      (do if s.frame.locals.size ≠ k.localCount then throw (.runtime .kernelLocals)
          kernelBody g' k polled g'.fuel s.frame) := by
    dsimp only
    split
    · exact (Agrees.fail _).andThen fun _ => ran
    · exact ran
  dsimp only
  split
  · exact (Agrees.fail _).andThen fun _ => sized
  · exact sized

/-- A run of native code agrees. -/
theorem runNative_agrees (hg : Aligned L side g g') (n : NativeFunction) (entry : Entry) :
    Agrees (freeWorld (lawWorld L)) side (runNative g n entry) (runNative g' n entry) := by
  unfold runNative
  split
  · exact runThreaded_agrees hg _ entry
  · exact runKernel_agrees hg _ entry

/-! ## Tiers -/

variable {a b : Alarm}

/-- A run of the interpreter that has begun: its end is recorded if it was an
    activation. -/
def interpretEnded (g : Guest) (entry : Entry) : FrameExec Exit := do
  if entry.isCall then
    let exit ← tryCatch (interpret g entry) fun fault => do
      recordEvent .callEndEval
      throw fault
    recordEvent .callEndEval
    return exit
  else interpret g entry

theorem interpretCounted_apply (g : Guest) (entry : Entry) (f : Frame) (m : Machine) :
    interpretCounted g entry ⟨f, m⟩ = interpretEnded g entry ⟨f, m.beginEval entry⟩ := by
  unfold interpretCounted interpretEnded Machine.beginEval
  by_cases call : entry.isCall
  · simp only [call, if_true]
    rfl
  · simp only [call]
    rfl

theorem interpretEnded_agrees (hL : L.Carried a b) (hg : Aligned L side g g') (entry : Entry) :
    Agrees (freeWorld (lawWorld L)) side (interpretEnded g entry) (interpretEnded g' entry) := by
  have ended : Agrees (freeWorld (lawWorld L)) side (recordEvent .callEndEval : FrameExec Unit)
      (recordEvent .callEndEval) := record_agrees rfl
  have run : Agrees (freeWorld (lawWorld L)) side
      (tryCatch (interpret g entry) fun fault => do recordEvent .callEndEval; throw fault)
      (tryCatch (interpret g' entry) fun fault => do recordEvent .callEndEval; throw fault) :=
    (interpret_agrees hL hg entry).handle (fun e => ended.left.bind fun _ => .throw e)
      (fun e => ended.right.bind fun _ => .throw e)
      (fun e _ _ ht => (ended.andThen fun _ => .fail e).agree ht)
      (fun _ => ⟨_, rfl⟩) (fun _ => ⟨_, rfl⟩)
  unfold interpretEnded
  split
  · exact run.andThen fun exit => ended.andThen fun _ => .ret exit
  · exact interpret_agrees hL hg entry

theorem resumeAfterBail_agrees (hL : L.Carried a b) (hg : Aligned L side g g')
    (reason : BailReason) :
    Agrees (freeWorld (lawWorld L)) side (resumeAfterBail g reason)
      (resumeAfterBail g' reason) := by
  refine .readRun fun s => ?_
  split
  · exact (Agrees.of (newException_agrees _ _)).onFrame.andThen fun exc =>
      interpret_agrees hL hg (.throw_ exc)
  · exact interpret_agrees hL hg .continue_

/-- What follows a run of native code. -/
def afterNative (g : Guest) (unit : Ref) : NativeExit → FrameExec Exit
  | .done exit => return exit
  | .bail reason => do
    onMachine (modify (·.bail unit reason))
    resumeAfterBail g reason

/-- A run of native code that is counted. -/
def runCounted (g : Guest) (n : NativeFunction) (entry : Entry) : FrameExec NativeExit := do
  if entry.isCall then recordEvent .callEnterNative
  onMachine (modify (·.mapStats fun s => { s with nativeRuns := s.nativeRuns + 1 }))
  runNative g n entry

theorem runCompiled_eq (g : Guest) (unit : Ref) (n : NativeFunction) (entry : Entry) :
    runCompiled g unit n entry = runCounted g n entry >>= afterNative g unit := by
  have rest (x : FrameExec NativeExit) : (do
      match ← x with
      | .done exit => return exit
      | .bail reason =>
        onMachine (modify (·.bail unit reason))
        resumeAfterBail g reason) = x >>= afterNative g unit :=
    congrArg (x >>= ·) (funext fun exit => by cases exit <;> rfl)
  unfold runCompiled runCounted
  dsimp only
  split
  · rw [bind_assoc, bind_assoc]
    exact congrArg _ (funext fun _ => congrArg _ (funext fun _ => rest _))
  · rw [bind_assoc]
    exact congrArg _ (funext fun _ => rest _)

omit [L.Running] in
theorem bail_keeps (hL : L.Endures b) (unit : Ref) (reason : BailReason) :
    Keeps (freeWorld (lawWorld L)) (onMachine (modify (·.bail unit reason))) :=
  fun s => hL.bail s.machine unit reason

theorem keeps_afterNative (hL : L.Carried a b) (hg : Aligned L side g g') (unit : Ref)
    (exit : NativeExit) : Keeps (freeWorld (lawWorld L)) (afterNative g unit exit) ∧
      Keeps (freeWorld (lawWorld L)) (afterNative g' unit exit) := by
  cases exit with
  | done exit => exact ⟨.pure _, .pure _⟩
  | bail reason =>
    have resumed := resumeAfterBail_agrees hL hg reason
    have counted := bail_keeps hL.endures unit reason
    exact ⟨counted.bind fun _ => resumed.left, counted.bind fun _ => resumed.right⟩

/-- A run of native code that has begun, and what follows it. -/
def compiledRest (g : Guest) (unit : Ref) (n : NativeFunction) (entry : Entry) :
    FrameExec Exit :=
  runNative g n entry >>= afterNative g unit

theorem runCompiled_apply (g : Guest) (unit : Ref) (n : NativeFunction) (entry : Entry)
    (f : Frame) (m : Machine) :
    runCompiled g unit n entry ⟨f, m⟩ =
      compiledRest g unit n entry ⟨f, m.beginNative entry⟩ := by
  have counted : runCounted g n entry ⟨f, m⟩ = runNative g n entry ⟨f, m.beginNative entry⟩ := by
    unfold runCounted Machine.beginNative
    by_cases call : entry.isCall
    · simp only [call, if_true]
      rfl
    · simp only [call]
      rfl
  rw [runCompiled_eq, compiledRest, bind_apply, bind_apply, counted]

theorem keeps_compiledRest (hL : L.Carried a b) (hg : Aligned L side g g') (unit : Ref)
    (n : NativeFunction) (entry : Entry) :
    Keeps (freeWorld (lawWorld L)) (compiledRest g unit n entry) ∧
      Keeps (freeWorld (lawWorld L)) (compiledRest g' unit n entry) := by
  have run := runNative_agrees hg n entry
  exact ⟨run.left.bind fun exit => (keeps_afterNative hL hg unit exit).1,
    run.right.bind fun exit => (keeps_afterNative hL hg unit exit).2⟩

/-- A run of native code that is installed agrees: the law stands the bail it may end
    with. -/
theorem compiledRest_agree (hL : L.Carried a b) (hg : Aligned L side g g') {m : Machine}
    {unit : Ref} {n : NativeFunction} (f : Frame) (entry : Entry) (hm : L.holds m)
    (hn : (m.profile unit).runnable? = some n) :
    Agree (freeWorld (lawWorld L)) side (compiledRest g unit n entry ⟨f, m⟩)
      (compiledRest g' unit n entry ⟨f, m⟩) := by
  have run := runNative_agrees hg n entry
  refine (run.agree ⟨rfl, rfl, hm⟩).bind (fun exit => (keeps_afterNative hL hg unit exit).1)
    (fun exit => (keeps_afterNative hL hg unit exit).2) fun exit t _ t' ht _ h => ?_
  have kept : L.kept m t.machine := by
    have := run.left ⟨f, m⟩
    rw [ht] at this
    exact this
  obtain ⟨f₁, m₁⟩ := t
  obtain ⟨f₂, m₂⟩ := t'
  obtain ⟨rfl, rfl, rfl, holds⟩ := h
  cases exit with
  | done exit => exact Agree.same ⟨rfl, rfl, holds⟩
  | bail reason =>
    have resumed := resumeAfterBail_agrees hL hg reason
    show Agree _ side (resumeAfterBail g reason ⟨f₁, m₁.bail unit reason⟩)
      (resumeAfterBail g' reason ⟨f₁, m₁.bail unit reason⟩)
    obtain stands | past := hL.bail reason hm hn kept holds
    · exact resumed.agree ⟨rfl, rfl, stands⟩
    · exact .past (resumed.left.worn past) (resumed.right.worn past)

/-- The run of a frame, once it is known how the machine stands. -/
def runAs (g : Guest) (unit : Ref) (entry : Entry) (m : Machine) : FrameExec Exit :=
  match (m.profile unit).runnable? with
  | none => interpretCounted g entry
  | some n =>
    if m.tracing then do
      onMachine (modify (·.bail unit .traceOnEntry))
      interpretCounted g entry
    else runCompiled g unit n entry

/-! ## Frames -/

theorem runFrame_apply (g : Guest) (entry : Entry) (f : Frame) (m : Machine) :
    runFrame g entry ⟨f, m⟩ =
      runAs g f.code.id entry (entered entry f m) ⟨f, entered entry f m⟩ := by
  unfold runFrame entered
  by_cases call : entry.isCall
  · simp only [call, if_true]
    rfl
  · simp only [call]
    rfl

/-- The rest of a run of a frame that has begun, once it is known how the machine stood. -/
def runBegun (g : Guest) (unit : Ref) (entry : Entry) (m : Machine) : FrameExec Exit :=
  match (m.profile unit).runnable? with
  | none => interpretEnded g entry
  | some n => if m.tracing then interpretEnded g entry else compiledRest g unit n entry

/-- A run of a frame begins at once, before guest code runs. -/
theorem runFrame_begun (g : Guest) (entry : Entry) (f : Frame) (m : Machine) :
    runFrame g entry ⟨f, m⟩ =
      runBegun g f.code.id entry (entered entry f m) ⟨f, m.begun entry f⟩ := by
  rw [runFrame_apply]
  cases hn : ((entered entry f m).profile f.code.id).runnable? with
  | none =>
    simp only [runAs, runBegun, Machine.begun, hn]
    exact interpretCounted_apply g entry f _
  | some n =>
    by_cases tracing : (entered entry f m).tracing
    · simp only [runAs, runBegun, Machine.begun, hn, tracing, if_true]
      exact interpretCounted_apply g entry f _
    · simp only [runAs, runBegun, Machine.begun, hn, tracing]
      exact runCompiled_apply g f.code.id n entry f _

theorem keeps_runBegun (hL : L.Carried a b) (hg : Aligned L side g g') (unit : Ref)
    (entry : Entry) (m : Machine) :
    Keeps (freeWorld (lawWorld L)) (runBegun g unit entry m) ∧
      Keeps (freeWorld (lawWorld L)) (runBegun g' unit entry m) := by
  have interpreted := interpretEnded_agrees hL hg entry
  unfold runBegun
  split
  · exact ⟨interpreted.left, interpreted.right⟩
  · split
    · exact ⟨interpreted.left, interpreted.right⟩
    · exact keeps_compiledRest hL hg unit _ entry

theorem runBegun_agree (hL : L.Carried a b) (hg : Aligned L side g g') (entry : Entry) (f : Frame)
    {m : Machine} (hm : L.holds (m.begun entry f)) :
    Agree (freeWorld (lawWorld L)) side
      (runBegun g f.code.id entry (entered entry f m) ⟨f, m.begun entry f⟩)
      (runBegun g' f.code.id entry (entered entry f m) ⟨f, m.begun entry f⟩) := by
  have interpreted := (interpretEnded_agrees hL hg entry).agree (s := ⟨f, m.begun entry f⟩)
    ⟨rfl, rfl, hm⟩
  cases hn : ((entered entry f m).profile f.code.id).runnable? with
  | none =>
    simp only [runBegun, hn]
    exact interpreted
  | some n =>
    by_cases tracing : (entered entry f m).tracing
    · simp only [runBegun, hn, tracing, if_true]
      exact interpreted
    · have begun : m.begun entry f = (entered entry f m).beginNative entry := by
        simp only [Machine.begun, hn, tracing]
        rfl
      simp only [runBegun, hn, tracing]
      refine compiledRest_agree hL hg f entry hm ?_
      rw [begun, (Machine.sameTiers_beginNative entry _).profile, hn]

theorem keeps_runFrame (hL : L.Carried a b) (hg : Aligned L side g g') (entry : Entry) :
    Keeps (freeWorld (lawWorld L)) (runFrame g entry) ∧
      Keeps (freeWorld (lawWorld L)) (runFrame g' entry) := by
  refine ⟨fun s => ?_, fun s => ?_⟩
  · rw [runFrame_begun]
    exact L.kept_trans (hL.endures.begun s.machine entry s.frame)
      ((keeps_runBegun hL hg s.frame.code.id entry _).1 ⟨s.frame, s.machine.begun entry s.frame⟩)
  · rw [runFrame_begun]
    exact L.kept_trans (hL.endures.begun s.machine entry s.frame)
      ((keeps_runBegun hL hg s.frame.code.id entry _).2 ⟨s.frame, s.machine.begun entry s.frame⟩)

/-- Where the law is over when the run has begun, it is over after the run. -/
theorem runFrame_past (hL : L.Carried a b) (hg : Aligned L side g g') {entry : Entry} {f : Frame}
    {m : Machine} (h : L.past (m.begun entry f)) :
    L.past (finalState (runFrame g entry ⟨f, m⟩)).machine ∧
      L.past (finalState (runFrame g' entry ⟨f, m⟩)).machine := by
  rw [runFrame_begun, runFrame_begun]
  have keeps := keeps_runBegun hL hg f.code.id entry (entered entry f m)
  exact ⟨keeps.1.worn (s := ⟨f, m.begun entry f⟩) h, keeps.2.worn (s := ⟨f, m.begun entry f⟩) h⟩

/-- A frame is run alike when the alarm lets its run begin. -/
theorem runFrame_agree (hL : L.Carried a b) (hg : Aligned L side g g') {entry : Entry} {f : Frame}
    {m : Machine} (hm : L.holds m) (silent : a (.run entry f) m = false) :
    Agree (freeWorld (lawWorld L)) side (runFrame g entry ⟨f, m⟩) (runFrame g' entry ⟨f, m⟩) := by
  obtain holds | past := hL.begun hm silent
  · rw [runFrame_begun, runFrame_begun]
    exact runBegun_agree hL hg entry f holds
  · have ended := runFrame_past hL hg past
    exact .past ended.1 ended.2

end Law

end TieredMachine
