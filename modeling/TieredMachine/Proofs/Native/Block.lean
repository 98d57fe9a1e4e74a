/-
  Blocks of threaded code.

  A block is run operation by operation, and the flow out of it is followed as the
  interpreter follows the flow out of an instruction.

  * `Polls`: looks for a reason to leave, whatever they find;
  * `Terminator.leaveBlock_eq`: the way out of a block runs a primitive;
  * `Threaded.rest`: the rest of a block;
  * `Threaded.heading_agrees`: what the flow out of a block does;
  * `Threaded.keeps_rest`: what a block keeps.
-/
import TieredMachine.Proofs.Native.Lag
import TieredMachine.Proofs.Native.Operation

namespace TieredMachine

variable {us : Array CodeUnit} {side : Side} {g g' : Guest} {G : Graph}

/-- A look for a reason to leave native code always finds an answer, and changes
    nothing that running code sees. -/
def Polls (us : Array CodeUnit) (g : Guest) : Prop :=
  ∀ kind m, ∃ reason m', g.poll kind m = .ok reason m' ∧ m.Veiled us m'

/-! ## Ways out of blocks -/

/-- The primitive that an operation performs. -/
def Op.primitive? : Op → Option Primitive
  | .prim p => some p
  | .callDirect arg _ => some ⟨.callFunction, some arg⟩
  | .intBinary op => some ⟨op, none⟩
  | _ => none

namespace Terminator

/-- The primitive that a way out runs, and its site. -/
def primitive? : Terminator → Option (Site × Primitive)
  | goto _ | trap _ => none
  | branch op arg site _ _ | speculate op arg site _ _ => some (site, ⟨op, some arg⟩)
  | forIter arg site _ _ => some (site, ⟨.forIter, some arg⟩)
  | return_ site => some (site, ⟨.returnValue, none⟩)
  | yield_ site _ => some (site, ⟨.yieldValue, none⟩)
  | unwind p site _ => some (site, p)

/-- The flow out of that primitive. -/
def flow (g : Guest) (t : Terminator) : FrameExec Flow :=
  match t.primitive? with
  | some (site, p) => caught (Primitive.run g site false p)
  | none => return .next

/-- Where a way out leads with a flow that it has an edge for. -/
def edge? : Terminator → Flow → Option (FrameExec Threaded.Landing)
  | goto b, _ => some (return .block b)
  | trap ip, _ => some (throw (.ipOutOfBounds ip))
  | branch _ _ _ _ fallthrough, .next => some (return .block fallthrough)
  | branch _ _ _ taken _, .jump _ => some (return .block taken)
  | forIter _ _ body _, .next => some (return .block body)
  | forIter _ _ _ exit, .jump _ => some (return .block exit)
  | speculate op _ _ expected next, .next => some <|
    return if (op == .popJumpIfTrue) == expected then .bail .guardFail else .block next
  | speculate op _ _ expected next, .jump target => some <|
    if (op == .popJumpIfTrue) == expected then return .block next
    else do
      modifyFrame fun f => { f with ip := target }
      return .bail .guardFail
  | unwind _ _ (some b), .next => some (return .block b)
  | unwind _ _ none, .next => some do throw (.ipOutOfBounds (← frame).ip)
  | _, _ => none

/-- A way out runs its primitive and takes the edge for its flow, or follows the flow. -/
theorem leaveBlock_eq (g : Guest) (G : Graph) (t : Terminator) :
    Threaded.leaveBlock g G t = t.flow g >>= fun flow =>
      (t.edge? flow).getD (Threaded.follow G flow) := by
  cases t with
  | goto b => rfl
  | trap ip => rfl
  | return_ site => exact congrArg (_ >>= ·) (funext fun flow => by cases flow <;> rfl)
  | yield_ site b => exact congrArg (_ >>= ·) (funext fun flow => by cases flow <;> rfl)
  | branch op arg site taken fallthrough =>
    exact congrArg (_ >>= ·) (funext fun flow => by cases flow <;> rfl)
  | forIter arg site body exit =>
    exact congrArg (_ >>= ·) (funext fun flow => by cases flow <;> rfl)
  | speculate op arg site expected next =>
    exact congrArg (_ >>= ·) (funext fun flow => by cases flow <;> rfl)
  | unwind p site b => exact congrArg (_ >>= ·) (funext fun flow => by cases b <;> cases flow <;> rfl)

end Terminator

namespace Threaded

/-! ## The rest of a block -/

/-- The rest of a block: operations and the way out. -/
def rest (g : Guest) (G : Graph) (is : List Inst) (t : Terminator) : FrameExec Landing := do
  match ← runOps g G is with
  | .next => leaveBlock g G t
  | .bail reason => return .bail reason
  | .flow flow => follow G flow

theorem rest_nil (g : Guest) (G : Graph) (t : Terminator) :
    rest g G [] t = leaveBlock g G t := rfl

theorem rest_cons (g : Guest) (G : Graph) (i : Inst) (is : List Inst) (t : Terminator) :
    rest g G (i :: is) t = (do
      match ← runOp g G i with
      | .next => rest g G is t
      | .bail reason => return .bail reason
      | .flow flow => follow G flow) := by
  unfold rest
  rw [runOps, bind_assoc]
  congr 1
  funext passed
  cases passed <;> rfl

/-- A look for a reason to leave that finds none. -/
theorem rest_poll_none {m : Machine} {kind : SafePointKind} {s : Activation}
    (h : g.poll kind s.machine = .ok none m) (site : Site) (is : List Inst) (t : Terminator) :
    rest g G (⟨site, .safePoint kind⟩ :: is) t s = rest g G is t ⟨s.frame, m⟩ := by
  have polled : onMachine (g.poll kind) s = .ok none ⟨s.frame, m⟩ := by
    rw [onMachine_apply, h]
  have passed : runOp g G ⟨site, .safePoint kind⟩ s = .ok .next ⟨s.frame, m⟩ := by
    show (onMachine (g.poll kind) >>= _) s = _
    rw [bind_apply, polled]
    rfl
  rw [rest_cons, bind_apply, passed]

/-- A look for a reason to leave that finds one. -/
theorem rest_poll_some {m : Machine} {kind : SafePointKind} {reason : BailReason} {s : Activation}
    (h : g.poll kind s.machine = .ok (some reason) m) (site : Site) (is : List Inst)
    (t : Terminator) :
    rest g G (⟨site, .safePoint kind⟩ :: is) t s = .ok (.bail reason) ⟨s.frame, m⟩ := by
  have polled : onMachine (g.poll kind) s = .ok (some reason) ⟨s.frame, m⟩ := by
    rw [onMachine_apply, h]
  have passed : runOp g G ⟨site, .safePoint kind⟩ s = .ok (.bail reason) ⟨s.frame, m⟩ := by
    show (onMachine (g.poll kind) >>= _) s = _
    rw [bind_apply, polled]
    rfl
  rw [rest_cons, bind_apply, passed]
  rfl

theorem rest_guard (g : Guest) (G : Graph) (site : Site) (v : Versions) (is : List Inst)
    (t : Terminator) (s : Activation) :
    rest g G (⟨site, .guardGlobals v⟩ :: is) t s =
      if guardHolds s.machine.heap s.frame v then rest g G is t s
      else .ok (.bail .fatalGuardFail) s := by
  have guarded : runOp g G ⟨site, .guardGlobals v⟩ s =
      .ok (if guardHolds s.machine.heap s.frame v then .next else .bail .fatalGuardFail) s := rfl
  rw [rest_cons, bind_apply, guarded]
  cases guardHolds s.machine.heap s.frame v <;> rfl

theorem rest_begin (g : Guest) (G : Graph) (site : Site) (next : Nat) (is : List Inst)
    (t : Terminator) (s : Activation) :
    rest g G (⟨site, .begin_ next⟩ :: is) t s =
      rest g G is t ⟨{ s.frame with lasti := some site.ip, ip := next }, s.machine⟩ := by
  rw [rest_cons]
  rfl

theorem rest_cached (g : Guest) (site : Site) {a : Nat} {assumed : Assumption}
    (ha : G.assumptions[a]? = some assumed) (is : List Inst) (t : Terminator) (s : Activation) :
    rest g G (⟨site, .loadCached a⟩ :: is) t s =
      rest g G is t ⟨s.frame.push assumed.value, s.machine⟩ := by
  have pushed : runOp g G ⟨site, .loadCached a⟩ s =
      .ok .next ⟨s.frame.push assumed.value, s.machine⟩ := by
    show (push ((G.assumptions[a]?.map (·.value)).getD .none) >>= fun _ => pure Passed.next :
      FrameExec Passed) s = _
    rw [ha]
    rfl
  rw [rest_cons, bind_apply, pushed]

theorem runBlock_eq (g : Guest) (G : Graph) (b : BlockId) :
    runBlock g G b = (do
      modifyFrame fun f => { f with ip := (G.block b).start }
      rest g G (G.block b).insts (G.block b).term) := rfl

/-! ## Following the flow -/

/-- How the flow out of a block leaves the frame, if it does. -/
def heading : Flow → FrameExec (Option Exit)
  | .next => return none
  | .jump target => do
    modifyFrame fun f => { f with ip := target }
    return none
  | .yield_ v => return some (.yield_ v)
  | .raise exc fresh => do
    dispatchUnwind (← beginRaise exc fresh .exceptRaiseNative) .exceptCatchNative
  | .unwind p => dispatchUnwind p .exceptCatchNative

/-- Lands in a block, unless the frame is left. -/
def landOr (G : Graph) : Option Exit → FrameExec Landing
  | some exit => return .exit exit
  | none => land G

theorem follow_eq (G : Graph) (flow : Flow) : follow G flow = heading flow >>= landOr G := by
  cases flow with
  | raise exc fresh =>
    show (beginRaise exc fresh .exceptRaiseNative >>= unwindTo G) = _
    unfold heading
    rw [bind_assoc]
    rfl
  | _ => rfl

theorem leaveBlocks_told (w : Watch) (p : Pending) :
    Agrees (runWorld us) side (dispatchUnwind p .exceptCatchNative) (leaveBlocks w p) := by
  have told : Agrees (runWorld us) side
      (dispatchUnwind p .exceptCatchNative >>= fun exit => pure exit) (leaveBlocks w p) := by
    refine (dispatchUnwind_agrees p _ _).andThen fun exit => ?_
    have done : Agrees (runWorld us) side (pure exit : FrameExec (Option Exit)) (pure exit) :=
      .ret _
    dsimp only
    split
    · split
      · exact .readRight fun h => (quiet_tellTracer w _).right done
      · exact done
    · exact done
  rwa [bind_pure] at told

/-- Threaded code follows the flow as the interpreter does. -/
theorem heading_agrees (w : Watch) (flow : Flow) :
    Agrees (runWorld us) side (heading flow) (direct w flow) := by
  cases flow with
  | next => exact .ret _
  | yield_ v => exact .ret _
  | unwind p => exact leaveBlocks_told w p
  | jump target =>
    have hotter (r : Ref) : Quiet us
        (onMachine (modify (·.mapProfile r (·.recordBackedge w.backedgeWeight)))) :=
      .ofUnseen (.mapProfile r fun _ _ h => h)
    have jumped := (changeFrame_agrees (h := fun f => { f with ip := target })
      fun _ => rfl).andThen fun _ =>
        (.ret none : Agrees (runWorld us) side (pure none : FrameExec (Option Exit)) (pure none))
    have look (s : Activation) : frame s = .ok s.frame s := rfl
    refine ⟨jumped.left, ?_, fun {s s'} hs => ?_⟩
    · refine keeps_frame.inRun.bind fun f => ?_
      dsimp only
      split
      · exact (hotter _).keeps.bind fun _ => jumped.right
      · exact jumped.right
    · rw [direct, bind_apply, look]
      dsimp only
      split
      · exact ((hotter _).right jumped).agree hs
      · exact jumped.agree hs
  | raise exc fresh =>
    have left : Agrees (runWorld us) side (heading (.raise exc fresh))
        (do leaveBlocks w (← beginRaise exc fresh .exceptRaiseEval)) :=
      (beginRaise_agrees exc fresh _ _).andThen fun p => leaveBlocks_told w p
    unfold direct
    dsimp only
    split
    · exact .readRight fun h => (quiet_tellTracer w _).right left
    · exact left

/-! ## What threaded code keeps -/

theorem land_apply (G : Graph) (s : Activation) : land G s =
    .ok (match G.blockAt? s.frame.ip with
      | some b => .block b
      | none => .bail .guardFail) s := by
  unfold land
  rw [bind_apply]
  show (match G.blockAt? s.frame.ip with
    | some b => pure (Landing.block b)
    | none => pure (Landing.bail .guardFail) : FrameExec Landing) s = _
  cases G.blockAt? s.frame.ip <;> rfl

theorem keeps_land (G : Graph) : Keeps (runWorld us) (land G) := by
  intro s
  rw [land_apply]
  exact (runWorld us).kept_refl s

theorem keeps_moveTo (target : Nat) :
    Keeps (runWorld us) (modifyFrame fun f => { f with ip := target }) :=
  fun s => ⟨rfl, (machineWorld us).kept_refl s.machine⟩

theorem keeps_landOr (G : Graph) (exit : Option Exit) : Keeps (runWorld us) (landOr G exit) := by
  cases exit with
  | none => exact keeps_land G
  | some exit => exact .pure _

theorem keeps_follow (G : Graph) (flow : Flow) : Keeps (runWorld us) (follow G flow) := by
  have headed : Agrees (runWorld us) .left (heading flow) (direct default flow) :=
    heading_agrees default flow
  rw [follow_eq]
  exact headed.left.bind fun exit => keeps_landOr G exit

theorem keeps_caught (hg : Guests us side g g') (site : Site) (r : Bool) (p : Primitive) :
    Keeps (runWorld us) (caught (Primitive.run g site r p)) :=
  (caught_agrees (primitive_agrees hg site r r p)).inRun.left

theorem keeps_passed {x : FrameExec Flow} (h : Keeps (runWorld us) (caught x)) :
    Keeps (runWorld us) (passed x) :=
  h.bind fun flow => by cases flow <;> exact .pure _

theorem keeps_leaveBlock (hg : Guests us side g g') (G : Graph) (t : Terminator) :
    Keeps (runWorld us) (leaveBlock g G t) := by
  have run := fun site p => keeps_caught hg site false p
  cases t with
  | goto b => exact .pure _
  | branch op arg site taken fallthrough =>
    refine (run _ _).bind fun flow => ?_
    cases flow with
    | next => exact .pure _
    | jump target => exact .pure _
    | _ => exact keeps_follow G _
  | speculate op arg site expected next =>
    refine (run _ _).bind fun flow => ?_
    cases flow with
    | next => exact .pure _
    | jump target =>
      dsimp only
      split
      · exact .pure _
      · exact (keeps_moveTo target).bind fun _ => .pure _
    | _ => exact keeps_follow G _
  | forIter arg site body exit =>
    refine (run _ _).bind fun flow => ?_
    cases flow with
    | next => exact .pure _
    | jump target => exact .pure _
    | _ => exact keeps_follow G _
  | return_ site => exact (run _ _).bind fun flow => keeps_follow G flow
  | yield_ site resume => exact (run _ _).bind fun flow => keeps_follow G flow
  | unwind p site fallthrough =>
    refine (run _ _).bind fun flow => ?_
    cases flow with
    | next =>
      cases fallthrough with
      | some b => exact .pure _
      | none => exact keeps_frame.inRun.bind fun f => .throw _
    | _ => exact keeps_follow G _
  | trap ip => exact .throw _

theorem keeps_callDirect (hg : Guests us side g g') (site : Site) (arg : Nat) (expected : Value) :
    Keeps (runWorld us) (callDirect g site arg expected) := by
  intro s
  have usual := keeps_passed (keeps_caught hg site false ⟨.callFunction, some arg⟩) s
  rw [callDirect_apply]
  split
  · exact usual
  · split
    · exact (runWorld us).kept_refl s
    · rename_i v _
      split
      · exact keeps_passed (caught_agrees (callTaken_agrees hg v _)).inRun.left
          ⟨{ s.frame with stack := s.frame.stack.drop (Primitive.positionalCount arg + 1) },
            s.machine⟩
      · exact usual

theorem keeps_intBinary (hg : Guests us side g g') (site : Site) (op : Opcode) :
    Keeps (runWorld us) (intBinary g site op) := by
  intro s
  have usual := keeps_passed (keeps_caught hg site false ⟨op, none⟩) s
  cases hop : op.operator? with
  | none =>
    unfold intBinary
    rw [hop]
    exact usual
  | some operator =>
    rw [intBinary_apply g site hop]
    split
    · split
      · exact ⟨rfl, (machineWorld us).kept_refl _⟩
      · exact usual
    · exact (runWorld us).kept_refl s

theorem keeps_runOp (hg : Guests us side g g') (hp : Polls us g) (G : Graph) (i : Inst) :
    Keeps (runWorld us) (runOp g G i) := by
  obtain ⟨site, op⟩ := i
  cases op with
  | safePoint kind =>
    have poll : Keeps (runWorld us) (onMachine (g.poll kind)) := by
      intro s
      obtain ⟨reason, m, h, hm⟩ := hp kind s.machine
      rw [onMachine_apply, h]
      exact ⟨rfl, hm.kept⟩
    refine poll.bind fun reason => ?_
    cases reason <;> exact .pure _
  | guardGlobals v =>
    exact keeps_frame.inRun.bind fun f =>
      (keeps_onMachine keeps_heap).inRun.bind fun h => .pure _
  | begin_ next =>
    have begun : Keeps (runWorld us)
        (modifyFrame fun f => { f with lasti := some site.ip, ip := next }) :=
      fun s => ⟨rfl, (machineWorld us).kept_refl s.machine⟩
    exact begun.bind fun _ => .pure _
  | prim p => exact keeps_passed (keeps_caught hg site false p)
  | pushHandler h =>
    have pushed : Agrees (frameWorld (machineWorld us)) .left
        (pushBlock (G.handler h).kind (G.handler h).targetIp)
        (pushBlock (G.handler h).kind (G.handler h).targetIp) := pushBlock_agrees _ _
    exact pushed.left.inRun.bind fun _ => .pure _
  | loadCached a =>
    have pushed (v : Value) : Agrees (frameWorld (machineWorld us)) .left (push v) (push v) := push_agrees v
    exact (pushed _).left.inRun.bind fun _ => .pure _
  | callDirect arg expected => exact keeps_callDirect hg site arg expected
  | intBinary op => exact keeps_intBinary hg site op

theorem keeps_rest (hg : Guests us side g g') (hp : Polls us g) (G : Graph) (is : List Inst)
    (t : Terminator) : Keeps (runWorld us) (rest g G is t) := by
  induction is with
  | nil => exact keeps_leaveBlock hg G t
  | cons i is ih =>
    rw [rest_cons]
    refine (keeps_runOp hg hp G i).bind fun passed => ?_
    cases passed with
    | next => exact ih
    | bail reason => exact .pure _
    | flow flow => exact keeps_follow G flow

end Threaded

end TieredMachine
