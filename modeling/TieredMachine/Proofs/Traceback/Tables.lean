/-
  The tables of a frame.

  A frame runs the code it was made for, over the cells it was made with, and has as many
  slots as it had at first.  Slots and cells are filled and emptied, but never exchanged for
  others, in whichever tier the frame runs and however it is entered or left.

  * `Frame.Retains`, `tableWorld`: what a frame keeps of its tables;
  * `Primitive.run_retains`: one primitive;
  * `direct_retains`, `follow_retains`, `runKernel_retains`: flows, and kernels;
  * `Stage.next_retains`: one stage;
  * **`Frame.Reaches.retains`**: a whole run.
-/
import TieredMachine.Proofs.Safety.Kernel
import TieredMachine.Proofs.Traceback.Position

namespace TieredMachine

/-! ## Frames -/

/-- The frame runs the same code over the same cells, with as many slots. -/
structure Frame.Retains (f f' : Frame) : Prop where
  code : f'.code = f.code
  locals : f'.locals.size = f.locals.size
  cells : f'.cells = f.cells

variable {f f' : Frame} {g : Guest} {s t : Activation} {k m : Nat} {α : Type}

namespace Frame.Retains

theorem refl (f : Frame) : f.Retains f := ⟨rfl, rfl, rfl⟩

theorem trans {f g h : Frame} (hg : f.Retains g) (hh : g.Retains h) : f.Retains h :=
  ⟨hh.code.trans hg.code, hh.locals.trans hg.locals, hh.cells.trans hg.cells⟩

end Frame.Retains

theorem Frame.Kept.retains (h : f.Kept f') : f.Retains f' := ⟨h.code, h.locals, h.cells⟩

/-- The world in which computations are only asked to keep the tables of their frame. -/
def tableWorld : World Activation where
  alike _ _ := False
  failed _ _ _ := False
  kept s t := s.frame.Retains t.frame
  worn _ := False
  slack := False
  kept_refl s := .refl s.frame
  kept_trans h h' := h.trans h'
  worn_of_kept _ h := h
  failed_of_alike h := h
  alike_of_raised h := h

/-! ## Ways of using a frame -/

theorem machine_retains (x : Exec α) : Keeps tableWorld (onMachine x) := by
  intro s
  rw [onMachine_apply]
  cases x s.machine <;> exact .refl s.frame

theorem frame_retains : Keeps tableWorld frame := fun s => .refl s.frame

theorem get_retains : Keeps tableWorld (get : FrameExec Activation) := fun s => .refl s.frame

theorem modifyFrame_retains {h : Frame → Frame} (hh : ∀ f : Frame, f.Retains (h f)) :
    Keeps tableWorld (modifyFrame h) := fun s => hh s.frame

/-- The frame may be sent to another index first. -/
theorem moveTo_retains (ip : Nat) {x : FrameExec α} (hx : Keeps tableWorld x) :
    Keeps tableWorld (modifyFrame (fun f => { f with ip }) >>= fun _ => x) :=
  .bind (modifyFrame_retains fun _ => ⟨rfl, rfl, rfl⟩ : Keeps tableWorld
    (modifyFrame fun f => { f with ip })) fun _ => hx

/-- A computation that only works on the stack and on the contents of variables. -/
theorem Brings.retains {x : FrameExec α} (hx : Brings (.heights False) k m x) :
    Keeps tableWorld x := by
  intro s
  have h := hx s trivial trivial (.inr fun _ _ h => h.elim)
  cases hr : x s with
  | ok a t =>
    rw [hr] at h
    exact h.2.1.retains
  | error e t =>
    rw [hr] at h
    exact h.2.1.retains

theorem pop_retains : Keeps tableWorld pop := (pop_brings (k := 0)).retains

theorem push_retains (v : Value) : Keeps tableWorld (push v) := (push_brings (k := 0) v).retains

theorem peek_retains (d : Nat) : Keeps tableWorld (peek d) := (peek_brings d.lt_succ_self).retains

theorem popN_retains (n : Nat) : Keeps tableWorld (popN n) :=
  (popN_brings (k := n) (m := 0) (Nat.zero_add n).symm).retains

theorem pushBlock_retains (kind : BlockKind) (handler : Nat) :
    Keeps tableWorld (pushBlock kind handler) := by
  intro s
  unfold pushBlock
  rw [bind_apply, look_apply, Frame.pushBlock]
  by_cases room : maxBlocks ≤ s.frame.blocks.length
  · rw [if_pos room]
    exact .refl s.frame
  · rw [if_neg room]
    exact ⟨rfl, rfl, rfl⟩

theorem popBlock_retains : Keeps tableWorld popBlock := by
  intro s
  unfold popBlock
  rw [take_apply, Frame.popBlock]
  cases s.frame.blocks with
  | nil => exact .refl s.frame
  | cons b rest => exact ⟨rfl, rfl, rfl⟩

theorem caught_retains {x : FrameExec Flow} (hx : Keeps tableWorld x) :
    Keeps tableWorld (caught x) :=
  hx.tryCatch fun e => by cases e <;> first | exact .pure _ | exact .throw _

/-! ## Primitives -/

namespace Primitive

variable {op : Opcode} {arg : Nat}

theorem targetOf_retains : Keeps tableWorld (targetOf op arg) := by
  refine frame_retains.bind fun f => ?_
  split
  · exact .pure _
  · exact .throw _

theorem jump_retains : Keeps tableWorld (jump op arg) := targetOf_retains.bind fun _ => .pure _

theorem testJump_retains (site : Site) (recording : Bool) :
    Keeps tableWorld (testJump site recording op arg) := by
  refine targetOf_retains.bind fun target => (peek_retains 0).bind fun tested =>
    (machine_retains (truthOf tested)).bind fun truth => ?_
  have recorded {x : FrameExec Flow} (hx : Keeps tableWorld x) :
      Keeps tableWorld (if recording then do
          report (·.recordBranch site tested truth)
          x
        else x) := by
    split
    · exact (report_brings (k := 0) _).retains.bind fun _ => hx
    · exact hx
  cases decideJump? op truth with
  | none => exact recorded (.throw _)
  | some decided =>
    refine recorded ?_
    dsimp only
    split
    · exact pop_retains.bind fun _ => .pure _
    · exact .pure _

theorem setupBlock_retains : Keeps tableWorld (setupBlock op arg) :=
  targetOf_retains.bind fun _ => pushBlock_retains _ _

theorem dropBlock_retains : Keeps tableWorld dropBlock :=
  popBlock_retains.bind fun _ => modifyFrame_retains fun _ => ⟨rfl, rfl, rfl⟩

theorem forIter_retains : Keeps tableWorld (forIter g arg) := by
  refine (peek_retains 0).bind fun it => (machine_retains _).bind fun item => ?_
  cases item with
  | some item => exact (push_retains item).bind fun _ => .pure _
  | none => exact pop_retains.bind fun _ => jump_retains

theorem raiseOf_retains (count : Nat) : Keeps tableWorld (raiseOf count) := by
  have raised (exc : Value) (v : Option Value) :
      Keeps tableWorld (do return Flow.raise (← exceptionOf exc v) true) :=
    (machine_retains _).bind fun _ => .pure _
  unfold raiseOf
  split
  · refine frame_retains.bind fun f => ?_
    split
    · exact .pure _
    · exact machine_retains _
  · exact pop_retains.bind fun exc => raised exc none
  · exact pop_retains.bind fun v => pop_retains.bind fun exc => raised exc (some v)
  · exact .throw _

theorem endFinally_retains : Keeps tableWorld endFinally := by
  have unusable {v : Value} {x : String → Misuse} :
      Keeps tableWorld (do throw (.runtime (x ((← onMachine heap).repr v))) : FrameExec Flow) :=
    (machine_retains _).bind fun _ => .throw _
  refine pop_retains.bind fun v => ?_
  split
  · exact .pure _
  · split
    · exact pop_retains.bind fun _ => .pure _
    · refine pop_retains.bind fun target => ?_
      split
      · split
        · exact .pure _
        · exact unusable
      · exact unusable
    · exact .pure _
    · exact .throw _
  · refine pop_retains.bind fun v => pop_retains.bind fun _ => ?_
    split
    · exact .pure _
    · exact unusable
  · exact (machine_retains _).bind fun _ => machine_retains _

theorem withCleanup_retains (site : Site) : Keeps tableWorld (withCleanup g site) := by
  have size (top : Value) : Keeps tableWorld (payloadSize top) := by
    unfold payloadSize
    split
    · exact .pure _
    · split <;> exact .pure _
    · exact .pure _
    · exact (machine_retains _).bind fun _ => .throw _
  have arguments (top : Value) : Keeps tableWorld (exitArguments top) := by
    unfold exitArguments
    split
    · exact (peek_retains 1).bind fun _ => (peek_retains 2).bind fun _ => .pure _
    · exact .pure _
  refine (peek_retains 0).bind fun top => (size top).bind fun n => (arguments top).bind fun args =>
    (takeBelow_brings (k := 0) site n).retains.bind fun exit =>
      (machine_retains _).bind fun answer => ?_
  have dropped (told : Bool) : Keeps tableWorld
      (if told then do let _ ← popN 3; push .none else pure ()) := by
    split
    · exact (popN_retains 3).bind fun _ => push_retains .none
    · exact .pure _
  unfold isExceptionPayload
  split
  · exact (machine_retains _).bind fun _ => dropped _
  · exact .pure _

theorem thenNext_retains {x : FrameExec Unit} (hx : Keeps tableWorld x) :
    Keeps tableWorld (thenNext x) := hx.bind fun _ => .pure _

/-- **Every primitive keeps the tables of its frame.** -/
theorem run_retains (g : Guest) (site : Site) (recording : Bool) (p : Primitive) :
    Keeps tableWorld (run g site recording p) := by
  by_cases plain : p.op.isPlain
  · obtain ⟨y, hy, brings⟩ := run_moves g.safe site recording (Regime.heights_suits p) plain
    rw [hy]
    exact thenNext_retains (brings _ (Nat.le_refl _)).retains
  obtain ⟨op, arg⟩ := p
  have noArg (h : op.hasArg = true) (hb : op.binaryOp? = none) (hi : op.inplaceOp? = none)
      (hu : op.unaryOp? = none) (hm : op ≠ .buildMap) :
      Keeps tableWorld (run g site recording ⟨op, none⟩) := by
    unfold run
    simp only [hb, hi, hu, hm, h, if_true, if_false]
    exact .throw _
  cases op
  case setupLoop | setupExcept | setupFinally =>
    cases arg with
    | none => exact noArg rfl rfl rfl rfl nofun
    | some arg => exact thenNext_retains setupBlock_retains
  case jumpForward | jumpAbsolute =>
    cases arg with
    | none => exact noArg rfl rfl rfl rfl nofun
    | some arg => exact jump_retains
  case popJumpIfFalse | popJumpIfTrue | jumpIfFalseOrPop | jumpIfTrueOrPop =>
    cases arg with
    | none => exact noArg rfl rfl rfl rfl nofun
    | some arg => exact testJump_retains site recording
  case forIter =>
    cases arg with
    | none => exact noArg rfl rfl rfl rfl nofun
    | some arg => exact forIter_retains
  case raiseVarargs =>
    cases arg with
    | none => exact noArg rfl rfl rfl rfl nofun
    | some arg => exact raiseOf_retains arg
  case continueLoop =>
    cases arg with
    | none => exact noArg rfl rfl rfl rfl nofun
    | some arg => exact .pure _
  case breakLoop => exact .pure _
  case returnValue | yieldValue => exact pop_retains.bind fun _ => .pure _
  case popBlock => exact thenNext_retains dropBlock_retains
  case withCleanup => exact thenNext_retains (withCleanup_retains site)
  case endFinally => exact endFinally_retains
  all_goals exact absurd rfl plain

end Primitive

/-! ## Flows -/

/-- Unwinding pops blocks, and changes the value stack. -/
theorem unwindBlocks_retains (p : Pending) (bs : List Block) (f : Frame) (h : Heap) :
    f.Retains (unwindBlocks p bs f h).2.1 := by
  induction bs generalizing f with
  | nil => exact ⟨rfl, rfl, rfl⟩
  | cons b rest ih =>
    have popped (f' : Frame) (same : f.Retains f') : f.Retains (unwindBlocks p rest f' h).2.1 :=
      same.trans (ih f')
    unfold unwindBlocks
    dsimp only
    split <;> first | exact ⟨rfl, rfl, rfl⟩ | exact popped _ ⟨rfl, rfl, rfl⟩

theorem tellTracer_retains (w : Watch) (event : TraceEvent) :
    Keeps tableWorld (tellTracer w event) := by
  unfold tellTracer
  split
  · exact frame_retains.bind fun _ => machine_retains _
  · exact .pure _

theorem dispatchUnwind_retains (p : Pending) (event : EventKind) :
    Keeps tableWorld (dispatchUnwind p event) := by
  have unwound : Keeps tableWorld (unwind p) := fun s => unwindBlocks_retains p _ s.frame _
  refine unwound.bind fun where_ => ?_
  split
  · refine moveTo_retains _ ?_
    dsimp only
    split
    · exact (machine_retains _).bind fun _ => .pure _
    · exact .pure _
  · exact .pure _
  all_goals exact .throw _

theorem beginRaise_retains (exc : Ref) (fresh : Bool) (event : EventKind) :
    Keeps tableWorld (beginRaise exc fresh event) := by
  have recorded : Keeps tableWorld (recordTraceback exc) := fun s => .refl s.frame
  unfold beginRaise
  split
  · exact recorded.bind fun _ => (machine_retains _).bind fun _ => .pure _
  · exact .pure _

theorem leaveBlocks_retains (w : Watch) (p : Pending) : Keeps tableWorld (leaveBlocks w p) := by
  refine (dispatchUnwind_retains p _).bind fun exit => ?_
  split
  · split
    · exact (machine_retains _).bind fun _ => (tellTracer_retains w _).bind fun _ => .pure _
    · exact .pure _
  · exact .pure _

theorem direct_retains (w : Watch) (flow : Flow) : Keeps tableWorld (direct w flow) := by
  have moved (target : Nat) : Keeps tableWorld
      (do modifyFrame fun f => { f with ip := target }; return none : FrameExec (Option Exit)) :=
    moveTo_retains target (.pure _)
  have raised (exc : Ref) (fresh : Bool) :
      Keeps tableWorld (do leaveBlocks w (← beginRaise exc fresh .exceptRaiseEval)) :=
    (beginRaise_retains exc fresh _).bind fun p => leaveBlocks_retains w p
  cases flow with
  | next | yield_ => exact .pure _
  | unwind p => exact leaveBlocks_retains w p
  | jump target =>
    refine frame_retains.bind fun f => ?_
    dsimp only
    split
    · exact (machine_retains _).bind fun _ => moved target
    · exact moved target
  | raise exc fresh =>
    unfold direct
    dsimp only
    split
    · exact (machine_retains _).bind fun _ => (tellTracer_retains w _).bind fun _ =>
        raised exc fresh
    · exact raised exc fresh

theorem enter_retains (w : Watch) (entry : Entry) : Keeps tableWorld (enter w entry) := by
  cases entry with
  | call => exact (tellTracer_retains w _).bind fun _ => .pure _
  | resume v => exact (push_retains v).bind fun _ => .pure _
  | throw_ exc => exact direct_retains w (.raise exc true)
  | continue_ => exact .pure _

/-! ## Native code -/

namespace Threaded

theorem land_retains (G : Graph) : Keeps tableWorld (land G) := by
  refine frame_retains.bind fun f => ?_
  split <;> exact .pure _

theorem unwindTo_retains (G : Graph) (p : Pending) : Keeps tableWorld (unwindTo G p) := by
  refine (dispatchUnwind_retains p _).bind fun exit => ?_
  split
  · exact .pure _
  · exact land_retains G

theorem follow_retains (G : Graph) (flow : Flow) : Keeps tableWorld (follow G flow) := by
  cases flow with
  | next => exact land_retains G
  | jump target => exact moveTo_retains target (land_retains G)
  | yield_ => exact .pure _
  | raise exc fresh => exact (beginRaise_retains exc fresh _).bind fun p => unwindTo_retains G p
  | unwind p => exact unwindTo_retains G p

theorem enter_retains (G : Graph) (entry : Entry) : Keeps tableWorld (enter G entry) := by
  cases entry with
  | call => exact .pure _
  | resume v =>
    refine (push_retains v).bind fun _ => frame_retains.bind fun f => ?_
    split
    · exact .pure _
    · exact land_retains G
  | throw_ exc => exact follow_retains G (.raise exc true)
  | continue_ => exact land_retains G

theorem passed_retains {x : FrameExec Flow} (hx : Keeps tableWorld x) :
    Keeps tableWorld (passed x) :=
  (caught_retains hx).bind fun flow => by cases flow <;> exact .pure _

theorem callDirect_retains (site : Site) (arg : Nat) (expected : Value) :
    Keeps tableWorld (callDirect g site arg expected) := by
  have chosen (direct : Bool) : Keeps tableWorld (if direct then do
        let args ← popN (Primitive.positionalCount arg)
        let _ ← pop
        passed do push (← onMachine (g.call expected args [])); return .next
      else passed (Primitive.run g site false ⟨.callFunction, some arg⟩)) := by
    split
    · exact (popN_retains _).bind fun args => pop_retains.bind fun _ =>
        passed_retains ((machine_retains _).bind fun v => (push_retains v).bind fun _ => .pure _)
    · exact passed_retains (Primitive.run_retains g site false _)
  unfold callDirect
  dsimp only
  split
  · exact chosen false
  · exact (peek_retains _).bind fun v => chosen _

theorem intBinary_retains (site : Site) (op : Opcode) :
    Keeps tableWorld (intBinary g site op) := by
  have usual := passed_retains (Primitive.run_retains g site false ⟨op, none⟩)
  unfold intBinary
  split
  · exact usual
  · refine (peek_retains 1).bind fun a => (peek_retains 0).bind fun b => ?_
    split
    · exact (popN_retains 2).bind fun _ => (push_retains _).bind fun _ => .pure _
    · exact usual

theorem runOp_retains (G : Graph) (i : Inst) : Keeps tableWorld (runOp g G i) := by
  unfold runOp
  split
  · exact (machine_retains _).bind fun reason => by cases reason <;> exact .pure _
  · exact frame_retains.bind fun f => (machine_retains _).bind fun h => .pure _
  · refine .bind (modifyFrame_retains ?_) fun _ => .pure _
    exact fun _ => ⟨rfl, rfl, rfl⟩
  · exact passed_retains (Primitive.run_retains g _ false _)
  · exact (pushBlock_retains _ _).bind fun _ => .pure _
  · exact (push_retains _).bind fun _ => .pure _
  · exact callDirect_retains _ _ _
  · exact intBinary_retains _ _

end Threaded

/-- A kernel that is left writes back as many slots as it was entered with. -/
theorem leaveKernel_retains (k : Kernel) (n : Nat) (stack : List Int64)
    {locals : Array (Option Int64)} (size : locals.size = s.frame.locals.size) :
    tableWorld.kept s (finalState (leaveKernel g k n stack locals s)) := by
  unfold leaveKernel
  cases k.bails[n]? with
  | none => exact .refl s.frame
  | some p =>
    have rebuilt : s.frame.Retains (Kernel.rebuild p stack locals s.frame) :=
      ⟨rfl, (Array.size_map ..).trans size, rfl⟩
    refine rebuilt.trans ?_
    dsimp only
    cases p.kind with
    | safePoint kind => exact Keeps.bind (machine_retains _) (fun _ => .pure _) ⟨_, s.machine⟩
    | guard => exact .refl _

theorem kernelBody_retains (k : Kernel) (polled : Kernel.Polls) (fuel : Nat) (s : Activation) :
    tableWorld.kept s (finalState (Law.kernelBody g k polled fuel s.frame s)) := by
  unfold Law.kernelBody
  cases hw : Kernel.wordsOf? s.frame.locals with
  | none => exact .refl s.frame
  | some words =>
    dsimp only
    cases hrun : k.run polled fuel k.entry words with
    | none => exact .refl s.frame
    | some out =>
      cases out with
      | bail n stack locals =>
        exact leaveKernel_retains k n stack
          (Kernel.run_sized k polled fuel k.entry (Kernel.wordsOf?_sized hw) hrun)
      | return_ | lost => exact .refl s.frame

theorem runKernel_retains (k : Kernel) (entry : Entry) :
    Keeps tableWorld (runKernel g k entry) := by
  refine get_retains.bind fun s₀ => fun s => ?_
  let polled : Kernel.Polls := fun _ _ => s₀.machine.tracing || s₀.machine.requested
  have sized : tableWorld.kept s (finalState
      ((do if s.frame.locals.size ≠ k.localCount then throw (.runtime .kernelLocals)
           Law.kernelBody g k polled g.fuel s.frame : FrameExec NativeExit) s)) := by
    split
    · exact .refl s.frame
    · exact kernelBody_retains k polled g.fuel s
  show tableWorld.kept s (finalState ((if _ then _ else _ : FrameExec NativeExit) s))
  split
  · exact .refl s.frame
  · exact sized

/-! ## Stages -/

namespace Stage

theorem begin_retains (w : Watch) : Keeps tableWorld (begin w) := by
  refine frame_retains.bind fun f => ?_
  cases f.code.instrAt? f.ip with
  | none => exact .throw _
  | some i =>
    have begun : Keeps tableWorld
        (do modifyFrame fun f => { f with lasti := some i.ip, ip := i.next }
            return i) := by
      refine .bind (modifyFrame_retains ?_) fun _ => .pure _
      exact fun _ => ⟨rfl, rfl, rfl⟩
    dsimp only
    split
    · exact (tellTracer_retains w _).bind fun _ => begun
    · exact begun

theorem flow_retains (t : Terminator) : Keeps tableWorld (t.flow g) := by
  unfold Terminator.flow
  split
  · exact caught_retains (Primitive.run_retains g _ false _)
  · exact .pure _

theorem edge?_retains {t : Terminator} {out : Flow} {along : FrameExec Threaded.Landing}
    (h : t.edge? out = some along) : Keeps tableWorld along := by
  unfold Terminator.edge? at h
  split at h <;> cases h
  case h_2 | h_10 => first | exact .throw _ | exact frame_retains.bind fun _ => .throw _
  case h_8 =>
    split
    · exact .pure _
    · exact moveTo_retains _ (.pure _)
  all_goals exact .pure _

/-- **What a frame does next keeps its tables.** -/
theorem next_retains (g : Guest) (p : Stage) : Keeps tableWorld (p.next g) := by
  cases p with
  | enter w entry =>
    cases entry with
    | throw_ exc => exact .pure _
    | _ => exact (enter_retains w _).bind fun _ => .pure _
  | step w => exact (begin_retains w).bind fun _ => .pure _
  | prims w ip k ps =>
    cases ps with
    | nil => exact .pure _
    | cons p ps =>
      refine (caught_retains (Primitive.run_retains g _ _ p)).bind fun out => ?_
      cases out <;> exact .pure _
  | flow w out => exact (direct_retains w out).bind fun _ => .pure _
  | native unit G entry =>
    cases entry with
    | throw_ exc => exact .pure _
    | _ => exact (Threaded.enter_retains G _).bind fun _ => .pure _
  | block unit G b => exact moveTo_retains _ (.pure _)
  | ops unit G is t =>
    cases is with
    | nil =>
      refine (flow_retains t).bind fun out => ?_
      split
      · rename_i edge
        exact (edge?_retains edge).bind fun _ => .pure _
      · exact .pure _
    | cons i is =>
      refine (Threaded.runOp_retains G i).bind fun passed => ?_
      cases passed <;> exact .pure _
  | way unit G out => exact (Threaded.follow_retains G out).bind fun _ => .pure _
  | kernel unit k entry => exact (runKernel_retains k entry).bind fun _ => .pure _
  | bail unit reason =>
    have counted : Keeps tableWorld (onMachine (modify (·.bail unit reason))) := machine_retains _
    refine .bind (counted.bind fun _ => get_retains.bind fun s => ?_) fun _ =>
      get_retains.bind fun _ => .pure _
    split
    · exact (machine_retains _).bind fun _ => .pure _
    · exact .pure _
  | left exit => exact .pure _

end Stage

/-! ## Runs -/

/-- The stages that a run of the frame comes to, over some machine. -/
inductive Frame.Reaches (g : Guest) (f : Frame) : Stage → Activation → Prop
  | first {entry m} : Reaches g f (.first entry f m) ⟨f, m.begun entry f⟩
  | next {p s q t} : Reaches g f p s → p.next g s = .ok q t → Reaches g f q t

/-- **A run keeps the tables of its frame.** -/
theorem Frame.Reaches.retains {p : Stage} (h : f.Reaches g p s) : f.Retains s.frame := by
  induction h with
  | first => exact .refl f
  | @next p s q t _ hq ih =>
    have kept := Stage.next_retains g p s
    rw [hq] at kept
    exact ih.trans kept

end TieredMachine
