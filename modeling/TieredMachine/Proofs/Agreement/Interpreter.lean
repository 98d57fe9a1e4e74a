/-
  Interpreter runs agree.

  With engines that agree, the interpreter runs a frame alike on both sides,
  whatever is traced or recorded.  Two runs may leave different value stacks behind
  only when they fail for want of stack values.

  * `runWorld`: the comparison of runs of frames;
  * `Machine.Veiled`, `Quiet`: changes that running code does not see;
  * `turn`, `turns`: one instruction of the interpreter, and some number of them;
  * `interpret_agrees`: whole runs.
-/
import TieredMachine.Proofs.Agreement.Generator
import TieredMachine.Proofs.Agreement.Primitive
import TieredMachine.Proofs.Agreement.Repetition

namespace TieredMachine

variable {us : Array CodeUnit} {side : Side} {g g' : Guest} {α β : Type}

/-! ## Runs of frames -/

/-- The frame without its value stack. -/
def Frame.unstacked (f : Frame) : Frame := { f with stack := [] }

/-- Whether a fault is the want of a value on the stack. -/
def Fault.isUnderflow : Fault → Bool
  | .stackUnderflow _ => true
  | _ => false

/-- The comparison of runs of frames. -/
def runWorld (us : Array CodeUnit) : World Activation where
  alike s s' := s.frame = s'.frame ∧ (machineWorld us).alike s.machine s'.machine
  failed e s s' := (s.frame = s'.frame ∨ e.isUnderflow ∧ s.frame.unstacked = s'.frame.unstacked) ∧
    (machineWorld us).alike s.machine s'.machine
  kept s s' := s'.frame.code = s.frame.code ∧ (machineWorld us).kept s.machine s'.machine
  worn s := (machineWorld us).worn s.machine
  slack := True
  kept_refl s := ⟨rfl, (machineWorld us).kept_refl s.machine⟩
  kept_trans h h' := ⟨h'.1.trans h.1, (machineWorld us).kept_trans h.2 h'.2⟩
  worn_of_kept h := (machineWorld us).worn_of_kept h.2
  failed_of_alike h := ⟨.inl h.1, h.2⟩
  alike_of_raised h := ⟨h.1.resolve_right (fun h => nomatch h.1), h.2⟩

theorem Keeps.inRun {x : FrameExec α} (h : Keeps (frameWorld (machineWorld us)) x) : Keeps (runWorld us) x :=
  fun s => ⟨(h s).1.code, (h s).2⟩

theorem Agree.inRun {r r' : EStateM.Result Fault Activation α}
    (h : Agree (frameWorld (machineWorld us)) side r r') : Agree (runWorld us) side r r' := by
  cases h with
  | ok h => exact .ok h
  | error h => exact .error ⟨.inl h.1, h.2⟩
  | left hs h => exact .left hs h
  | right hs h => exact .right hs h

/-- What agrees inside an instruction agrees in a run. -/
@[grind →]
theorem Agrees.inRun {x y : FrameExec α} (h : Agrees (frameWorld (machineWorld us)) side x y) :
    Agrees (runWorld us) side x y where
  left := h.left.inRun
  right := h.right.inRun
  agree hs := (h.agree hs).inRun

/-- A change of the frame that leaves its code alone agrees with itself. -/
theorem changeFrame_agrees {h : Frame → Frame} (hh : ∀ f : Frame, (h f).code = f.code) :
    Agrees (runWorld us) side (modifyFrame h) (modifyFrame h) where
  left s := ⟨hh s.frame, (machineWorld us).kept_refl s.machine⟩
  right s := ⟨hh s.frame, (machineWorld us).kept_refl s.machine⟩
  agree hs := .same ⟨congrArg h hs.1, hs.2⟩

/-! ## What is not seen -/

/-- One machine differs from another in nothing that running code sees. -/
structure Machine.Veiled (us : Array CodeUnit) (m m' : Machine) : Prop where
  sight : m'.sight = m.sight
  sound : m.Sound us → m'.Sound us

namespace Machine.Veiled

theorem refl (m : Machine) : Veiled us m m := ⟨rfl, fun h => h⟩

theorem trans {m m' m'' : Machine} (h : Veiled us m m') (h' : Veiled us m' m'') :
    Veiled us m m'' :=
  ⟨h'.sight.trans h.sight, fun hm => h'.sound (h.sound hm)⟩

theorem kept {m m' : Machine} (h : Veiled us m m') : (machineWorld us).kept m m' := by
  have e : m'.heap = m.heap := congrArg Sight.heap h.sight
  show m.heap.Evolves m'.heap
  rw [e]
  exact .refl _

theorem alike_left {m n m' : Machine} (h : Veiled us m n) (ha : (machineWorld us).alike m m') :
    (machineWorld us).alike n m' :=
  ⟨h.sight.trans ha.1, h.sound ha.2.1, ha.2.2⟩

theorem alike_right {m m' n' : Machine} (h : Veiled us m' n')
    (ha : (machineWorld us).alike m m') : (machineWorld us).alike m n' :=
  ⟨ha.1.trans h.sight.symm, ha.2.1, h.sound ha.2.2⟩

end Machine.Veiled

theorem Machine.Unseen.veiled {f : Machine → Machine} (hf : Unseen us f) (m : Machine) :
    m.Veiled us (f m) :=
  ⟨hf.sight m, hf.sound m⟩

/-- A computation that changes nothing that running code sees. -/
def Quiet (us : Array CodeUnit) (x : FrameExec Unit) : Prop :=
  ∀ s, ∃ m, x s = .ok () ⟨s.frame, m⟩ ∧ s.machine.Veiled us m

namespace Quiet

theorem done : Quiet us (pure ()) := fun s => ⟨s.machine, rfl, .refl _⟩

theorem ofUnseen {f : Machine → Machine} (hf : Machine.Unseen us f) :
    Quiet us (onMachine (modify f)) :=
  fun s => ⟨f s.machine, rfl, hf.veiled s.machine⟩

theorem keeps {x : FrameExec Unit} (hx : Quiet us x) : Keeps (runWorld us) x := by
  intro s
  obtain ⟨m, h, hm⟩ := hx s
  rw [h]
  exact ⟨rfl, hm.kept⟩

theorem left {x : FrameExec Unit} {f : Unit → FrameExec α} {y : FrameExec α} (hx : Quiet us x)
    (h : Agrees (runWorld us) side (f ()) y) : Agrees (runWorld us) side (x >>= f) y where
  left := hx.keeps.bind fun _ => h.left
  right := h.right
  agree {s s'} hs := by
    obtain ⟨m, hm, veiled⟩ := hx s
    rw [bind_apply, hm]
    exact h.agree ⟨hs.1, veiled.alike_left hs.2⟩

theorem right {x : FrameExec α} {y : FrameExec Unit} {f : Unit → FrameExec α} (hy : Quiet us y)
    (h : Agrees (runWorld us) side x (f ())) : Agrees (runWorld us) side x (y >>= f) where
  left := h.left
  right := hy.keeps.bind fun _ => h.right
  agree {s s'} hs := by
    obtain ⟨m, hm, veiled⟩ := hy s'
    rw [bind_apply, hm]
    exact h.agree ⟨hs.1, veiled.alike_right hs.2⟩

/-- Whatever is not seen agrees. -/
theorem agrees {x y : FrameExec Unit} (hx : Quiet us x) (hy : Quiet us y) :
    Agrees (runWorld us) side x y where
  left := hx.keeps
  right := hy.keeps
  agree {s s'} hs := by
    obtain ⟨m, hm, veiled⟩ := hx s
    obtain ⟨m', hm', veiled'⟩ := hy s'
    rw [hm, hm']
    exact .same ⟨hs.1, veiled'.alike_right (veiled.alike_left hs.2)⟩

end Quiet

theorem quiet_recordEvent (kind : EventKind) : Quiet us (recordEvent kind) :=
  .ofUnseen (.record kind)

theorem quiet_tellTracer (w : Watch) (event : TraceEvent) : Quiet us (tellTracer w event) := by
  unfold tellTracer
  split
  · intro s
    exact ⟨_, rfl, ⟨rfl, fun h => ⟨h.units, h.resting, h.discreet, h.lenient, h.backed⟩⟩⟩
  · exact .done

theorem Quiet.ite {c : Prop} [Decidable c] {x : FrameExec Unit} (hx : Quiet us x) :
    Quiet us (if c then x else pure ()) := by
  split
  · exact hx
  · exact .done

/-! ## Unwinding -/

theorem unwind_agrees (p : Pending) : Agrees (runWorld us) side (unwind p) (unwind p) := by
  have mild (tb) : Heap.Mild fun h : Heap => { h with tracebacks := tb } :=
    ⟨fun _ => rfl, fun _ => rfl, fun _ => rfl, fun _ => rfl, fun _ _ _ => rfl,
      fun a => { a with tracebacks := rfl }⟩
  have keeps : Keeps (runWorld us) (unwind p) := by
    intro s
    obtain ⟨⟨tb, hh⟩, hc⟩ := unwindBlocks_heap p s.frame.blocks s.frame s.machine.heap
    refine ⟨hc, ?_⟩
    show s.machine.heap.Evolves (unwindBlocks p s.frame.blocks s.frame s.machine.heap).2.2
    rw [hh]
    exact (mild tb).evolves _
  refine ⟨keeps, keeps, fun {s s'} hs => ?_⟩
  have heap : s.machine.heap = s'.machine.heap := congrArg Sight.heap hs.2.1
  obtain ⟨⟨tb, hh⟩, -⟩ := unwindBlocks_heap p s.frame.blocks s.frame s.machine.heap
  rw [unwind_apply, unwind_apply, ← hs.1, ← heap]
  refine .same ⟨rfl, ?_⟩
  have sound {m : Machine} (hm : m.Sound us) (e : m.heap = s.machine.heap) :
      ({ m with heap := (s.frame.unwind p s.machine.heap).2.2 } : Machine).Sound us := by
    have := hm.mild (mild tb)
    rw [Machine.mapHeap, e] at this
    rw [show (s.frame.unwind p s.machine.heap).2.2 = _ from hh]
    exact this
  refine ⟨?_, sound hs.2.2.1 rfl, sound hs.2.2.2 heap.symm⟩
  show (s.machine.mapHeap fun _ => (s.frame.unwind p s.machine.heap).2.2).sight =
    (s'.machine.mapHeap fun _ => (s.frame.unwind p s.machine.heap).2.2).sight
  rw [Machine.sight_mapHeap, Machine.sight_mapHeap, hs.2.1]

/-- Unwinding agrees, whatever event tells of it. -/
theorem dispatchUnwind_agrees (p : Pending) (event event' : EventKind) :
    Agrees (runWorld us) side (dispatchUnwind p event) (dispatchUnwind p event') := by
  refine (unwind_agrees p).andThen fun where_ => ?_
  cases where_ with
  | handler ip =>
    dsimp only
    refine (changeFrame_agrees (h := fun f => { f with ip }) fun _ => rfl).andThen fun _ => ?_
    split
    · exact ((quiet_recordEvent event).agrees (quiet_recordEvent event')).andThen fun _ => .ret none
    · exact .ret none
  | exit p =>
    cases p with
    | exception exc => exact .fail _
    | return_ v => exact .ret _
    | break_ => exact .fail _
    | continue_ target => exact .fail _

theorem beginRaise_agrees (exc : Ref) (fresh : Bool) (event event' : EventKind) :
    Agrees (runWorld us) side (beginRaise exc fresh event) (beginRaise exc fresh event') := by
  unfold beginRaise
  dsimp only
  split
  · exact (recordTraceback_agrees exc).inRun.andThen fun _ =>
      ((quiet_recordEvent event).agrees (quiet_recordEvent event')).andThen fun _ => .ret _
  · exact .ret _

/-! ## Turns -/

/-- The frame when an instruction begins. -/
def Frame.begin (f : Frame) (i : Instr) : Frame := { f with lasti := some i.ip, ip := i.next }

/-- A primitive agrees, whoever records feedback. -/
theorem primitive_agrees (hg : Guests us side g g') (site : Site) (r r' : Bool) (p : Primitive) :
    Agrees (frameWorld (machineWorld us)) side (Primitive.run g site r p)
      (Primitive.run g' site r' p) :=
  Primitive.run_agrees hg.serves site (.inr machineWorld_loose) p

theorem step_agrees (hg : Guests us side g g') (w w' : Watch) :
    Agrees (runWorld us) side (step g w) (step g' w') := by
  refine frame_agrees.inRun.andThen fun f => ?_
  cases f.code.instrAt? f.ip with
  | none => exact .fail _
  | some i =>
    have body : Agrees (runWorld us) side
        (do modifyFrame (·.begin i); runPrimitives g w.recording i.ip 0 i.prims)
        (do modifyFrame (·.begin i); runPrimitives g' w'.recording i.ip 0 i.prims) :=
      (changeFrame_agrees (h := (·.begin i)) fun _ => rfl).andThen fun _ =>
        (runPrimitives_agrees hg.serves (.inr machineWorld_loose) i.ip 0 i.prims).inRun
    dsimp only
    split
    · refine (quiet_tellTracer w _).left ?_
      split
      · exact (quiet_tellTracer w' _).right body
      · exact body
    · split
      · exact (quiet_tellTracer w' _).right body
      · exact body

/-- A look at the heap for what is not seen, on the left. -/
theorem Agrees.readLeft {f : Heap → FrameExec α} {y : FrameExec α}
    (h : ∀ h, Agrees (runWorld us) side (f h) y) :
    Agrees (runWorld us) side (onMachine heap >>= f) y where
  left s := (h s.machine.heap).left s
  right := (h {}).right
  agree {s _} hs := (h s.machine.heap).agree hs

/-- A look at the heap for what is not seen, on the right. -/
theorem Agrees.readRight {x : FrameExec α} {f : Heap → FrameExec α}
    (h : ∀ h, Agrees (runWorld us) side x (f h)) :
    Agrees (runWorld us) side x (onMachine heap >>= f) where
  left := (h {}).left
  right s := (h s.machine.heap).right s
  agree {_ s'} hs := (h s'.machine.heap).agree hs

theorem leaveBlocks_agrees (w w' : Watch) (p : Pending) :
    Agrees (runWorld us) side (leaveBlocks w p) (leaveBlocks w' p) := by
  refine (dispatchUnwind_agrees p _ _).andThen fun exit => ?_
  have done : Agrees (runWorld us) side (pure exit : FrameExec (Option Exit)) (pure exit) := .ret _
  dsimp only
  split
  · split
    · refine .readLeft fun h => (quiet_tellTracer w _).left ?_
      split
      · exact .readRight fun h => (quiet_tellTracer w' _).right done
      · exact done
    · split
      · exact .readRight fun h => (quiet_tellTracer w' _).right done
      · exact done
  · exact done

/-- What the flow out of an instruction does agrees. -/
theorem direct_agrees (w w' : Watch) (flow : Flow) :
    Agrees (runWorld us) side (direct w flow) (direct w' flow) := by
  have backedge (w : Watch) (r : Ref) : Quiet us
      (onMachine (modify (·.mapProfile r (·.recordBackedge w.backedgeWeight)))) :=
    .ofUnseen (.mapProfile r fun _ _ h => h)
  cases flow with
  | next => exact .ret _
  | yield_ v => exact .ret _
  | unwind p => exact leaveBlocks_agrees w w' p
  | jump target =>
    refine frame_agrees.inRun.andThen fun f => ?_
    have done : Agrees (runWorld us) side (pure none : FrameExec (Option Exit)) (pure none) :=
      .ret _
    have jumped := (changeFrame_agrees (h := fun f => { f with ip := target })
      fun _ => rfl).andThen fun _ => done
    dsimp only
    split
    · exact (backedge w _).left ((backedge w' _).right jumped)
    · exact jumped
  | raise exc fresh =>
    have left : Agrees (runWorld us) side
        (do leaveBlocks w (← beginRaise exc fresh .exceptRaiseEval))
        (do leaveBlocks w' (← beginRaise exc fresh .exceptRaiseEval)) :=
      (beginRaise_agrees exc fresh _ _).andThen fun p => leaveBlocks_agrees w w' p
    unfold direct
    dsimp only
    split
    · refine .readLeft fun h => (quiet_tellTracer w _).left ?_
      split
      · exact .readRight fun h => (quiet_tellTracer w' _).right left
      · exact left
    · split
      · exact .readRight fun h => (quiet_tellTracer w' _).right left
      · exact left

/-- One instruction of the interpreter: answers how the frame is left, if it is. -/
def turn (g : Guest) (w : Watch) : FrameExec (Option Exit) := do direct w (← step g w)

/-- So many instructions of the interpreter, or fewer when the frame is left before. -/
def turns (g : Guest) (w : Watch) : Nat → FrameExec (Option Exit) := times (turn g w)

/-- The rest of a run, unless the frame is left already. -/
def goOn (g : Guest) (w : Watch) (n : Nat) : Option Exit → FrameExec Exit
  | some exit => return exit
  | none => interpretFrom g w n

/-- A run of the interpreter repeats its turn. -/
theorem interpretFrom_eq (g : Guest) (w : Watch) (n : Nat) :
    interpretFrom g w n = repeating (turn g w) n := by
  induction n with
  | zero => rfl
  | succ n ih =>
    unfold interpretFrom repeating
    rw [turn, bind_assoc, ih]
    congr 1
    funext flow
    congr 1
    funext exit
    cases exit <;> rfl

theorem goOn_eq (g : Guest) (w : Watch) (n : Nat) : goOn g w n = orRepeating (turn g w) n := by
  funext exit
  cases exit with
  | some exit => rfl
  | none => exact interpretFrom_eq g w n

theorem interpretFrom_succ (g : Guest) (w : Watch) (n : Nat) (s : Activation) :
    interpretFrom g w (n + 1) s = match turn g w s with
      | .ok (some exit) t => .ok exit t
      | .ok none t => interpretFrom g w n t
      | .error e t => .error e t := by
  rw [interpretFrom_eq, interpretFrom_eq, repeating_succ]
  cases turn g w s with
  | error e t => rfl
  | ok exit t => cases exit <;> rfl

theorem turns_succ (g : Guest) (w : Watch) (k : Nat) (s : Activation) :
    turns g w (k + 1) s = match turn g w s with
      | .ok (some exit) t => .ok (some exit) t
      | .ok none t => turns g w k t
      | .error e t => .error e t := by
  rw [turns, times_succ]
  cases turn g w s with
  | error e t => rfl
  | ok exit t => cases exit <;> rfl

/-- A run of the interpreter begins with so many instructions. -/
theorem interpretFrom_add (g : Guest) (w : Watch) (k n : Nat) (s : Activation) :
    interpretFrom g w (k + n) s = (turns g w k >>= goOn g w n) s := by
  rw [interpretFrom_eq, goOn_eq]
  exact repeating_add (turn g w) k n s

theorem turns_add (g : Guest) (w : Watch) (j k : Nat) (s : Activation) :
    turns g w (j + k) s = (turns g w j >>= unlessLeft (turns g w k)) s :=
  times_add (turn g w) j k s

/-- A run that its instructions do not leave is out of fuel. -/
theorem interpretFrom_out {g : Guest} {w : Watch} {j k : Nat} {s t : Activation}
    (h : turns g w j s = .ok none t) (hk : k ≤ j) :
    ∃ u, interpretFrom g w k s = .error .outOfFuel u := by
  rw [interpretFrom_eq]
  exact repeating_out h hk

/-- More fuel changes nothing for a run that is not out of it. -/
theorem interpretFrom_more (g : Guest) (w : Watch) (n k : Nat) (s : Activation)
    (h : ∀ t, interpretFrom g w n s ≠ .error .outOfFuel t) :
    interpretFrom g w (n + k) s = interpretFrom g w n s := by
  rw [interpretFrom_eq] at h
  rw [interpretFrom_eq, interpretFrom_eq]
  exact repeating_more (turn g w) n k s h

theorem turn_agrees (hg : Guests us side g g') (w w' : Watch) :
    Agrees (runWorld us) side (turn g w) (turn g' w') :=
  (step_agrees hg w w').andThen fun flow => direct_agrees w w' flow

theorem unlessLeft_agrees {x y : FrameExec (Option Exit)} (h : Agrees (runWorld us) side x y)
    (exit : Option Exit) : Agrees (runWorld us) side (unlessLeft x exit) (unlessLeft y exit) := by
  cases exit with
  | none => exact h
  | some exit => exact .ret _

theorem turns_agrees (hg : Guests us side g g') (w w' : Watch) :
    ∀ k, Agrees (runWorld us) side (turns g w k) (turns g' w' k)
  | 0 => .ret none
  | k + 1 => (turn_agrees hg w w').andThen (unlessLeft_agrees (turns_agrees hg w w' k))

/-! ## Inside an instruction -/

/-- The rest of an instruction from position `k` on, and so many instructions more. -/
def inside (g : Guest) (w : Watch) (i : Instr) (k : Nat) (ps : List Primitive) (j : Nat) :
    FrameExec (Option Exit) := do
  let flow ← runPrimitives g w.recording i.ip k ps
  unlessLeft (turns g w j) (← direct w flow)

theorem inside_nil (g : Guest) (w : Watch) (i : Instr) (k j : Nat) :
    inside g w i k [] j = turns g w j := rfl

/-- What follows the primitive at position `k`, once its flow is known. -/
def insideAfter (g : Guest) (w : Watch) (i : Instr) (k : Nat) (ps : List Primitive) (j : Nat) :
    Flow → FrameExec (Option Exit)
  | .next => inside g w i (k + 1) ps j
  | flow => do unlessLeft (turns g w j) (← direct w flow)

theorem inside_cons (g : Guest) (w : Watch) (i : Instr) (k : Nat) (p : Primitive)
    (ps : List Primitive) (j : Nat) :
    inside g w i k (p :: ps) j =
      caught (Primitive.run g ⟨i.ip, k⟩ w.recording p) >>= insideAfter g w i k ps j := by
  unfold inside
  rw [runPrimitives, bind_assoc]
  congr 1
  funext flow
  cases flow <;> rfl

theorem inside_agrees (hg : Guests us side g g') (w w' : Watch) (i : Instr) (k : Nat)
    (ps : List Primitive) (j : Nat) :
    Agrees (runWorld us) side (inside g w i k ps j) (inside g' w' i k ps j) :=
  (runPrimitives_agrees hg.serves (.inr machineWorld_loose) i.ip k ps).inRun.andThen fun flow =>
    (direct_agrees w w' flow).andThen (unlessLeft_agrees (turns_agrees hg w w' j))

theorem keeps_insideAfter (hg : Guests us side g g') (w : Watch) (i : Instr) (k : Nat)
    (ps : List Primitive) (j : Nat) (flow : Flow) :
    Keeps (runWorld us) (insideAfter g' w i k ps j flow) := by
  have went (flow : Flow) : Keeps (runWorld us)
      (direct w flow >>= fun exit => unlessLeft (turns g' w j) exit) := by
    have headed : Agrees (runWorld us) side (direct w flow) (direct w flow) :=
      direct_agrees w w flow
    exact headed.right.bind fun exit => (unlessLeft_agrees (turns_agrees hg w w j) exit).right
  cases flow with
  | next => exact (inside_agrees hg w w i (k + 1) ps j).right
  | _ => exact went _

/-- An instruction begins, and its primitives run. -/
theorem turns_begin (us : Array CodeUnit) (g : Guest) (w : Watch) {s : Activation} {i : Instr}
    (hi : s.frame.code.instrAt? s.frame.ip = some i) :
    ∃ m, s.machine.Veiled us m ∧ ∀ j, turns g w (j + 1) s =
      inside g w i 0 i.prims j ⟨s.frame.begin i, m⟩ := by
  have begun : ∃ m, s.machine.Veiled us m ∧
      step g w s = runPrimitives g w.recording i.ip 0 i.prims ⟨s.frame.begin i, m⟩ := by
    have look : step g w s = (do
        if w.tracing && (s.frame.code.isLineStart i.ip || s.frame.isBackward i.ip) then
          tellTracer w (.line i.line)
        modifyFrame (·.begin i)
        runPrimitives g w.recording i.ip 0 i.prims) s := by
      unfold step
      rw [bind_apply]
      simp only [show frame s = .ok s.frame s from rfl, hi]
      rfl
    rw [look]
    dsimp only
    split
    · obtain ⟨m, ht, hm⟩ := (quiet_tellTracer w (.line i.line) : Quiet us _) s
      refine ⟨m, hm, ?_⟩
      rw [bind_apply, ht]
      rfl
    · exact ⟨s.machine, .refl _, rfl⟩
  obtain ⟨m, hm, hs⟩ := begun
  refine ⟨m, hm, fun j => ?_⟩
  show ((step g w >>= direct w) >>= unlessLeft (turns g w j)) s = _
  rw [bind_assoc, bind_apply, hs]
  unfold inside
  rw [bind_apply]

/-! ## Whole runs -/

theorem interpretFrom_agrees (hg : Guests us side g g') (w w' : Watch) {n n' : Nat}
    (h : side.bounds n n') :
    Agrees (runWorld us) side (interpretFrom g w n) (interpretFrom g' w' n') := by
  have step (n n' : Nat) (ih : ∀ _ : Unit, Agrees (runWorld us) side (interpretFrom g w n)
      (interpretFrom g' w' n')) (_ : Unit) : Agrees (runWorld us) side
        (interpretFrom g w (n + 1)) (interpretFrom g' w' (n' + 1)) := by
    refine (step_agrees hg w w').andThen fun flow => (direct_agrees w w' flow).andThen fun exit => ?_
    cases exit with
    | none => exact ih ()
    | some exit => exact .ret _
  exact .fueled (f := fun n (_ : Unit) => interpretFrom g w n) (fun _ => rfl) (fun _ => rfl) step (.inr ⟨trivial, h⟩) ()

theorem goOn_agrees (hg : Guests us side g g') (w w' : Watch) {n n' : Nat}
    (h : side.bounds n n') (exit : Option Exit) :
    Agrees (runWorld us) side (goOn g w n exit) (goOn g' w' n' exit) := by
  cases exit with
  | none => exact interpretFrom_agrees hg w w' h
  | some exit => exact .ret _

theorem enter_agrees (w w' : Watch) (entry : Entry) :
    Agrees (runWorld us) side (enter w entry) (enter w' entry) := by
  cases entry with
  | call => exact ((quiet_tellTracer w _).agrees (quiet_tellTracer w' _)).andThen fun _ => .ret _
  | resume v => exact (push_agrees v).inRun.andThen fun _ => .ret _
  | throw_ exc => exact direct_agrees w w' (.raise exc true)
  | continue_ => exact .ret _

/-- What `interpret` does once it is settled what is watched. -/
def interpretWatched (g : Guest) (w : Watch) (n : Nat) (entry : Entry) : FrameExec Exit := do
  goOn g w n (← enter w entry)

theorem interpretWatched_agrees (hg : Guests us side g g') (w w' : Watch) {n n' : Nat}
    (h : side.bounds n n') (entry : Entry) :
    Agrees (runWorld us) side (interpretWatched g w n entry)
      (interpretWatched g' w' n' entry) :=
  (enter_agrees w w' entry).andThen (goOn_agrees hg w w' h)

/-- With engines that agree, whole runs of the interpreter agree. -/
theorem interpret_agrees (hg : Guests us side g g') (entry : Entry) :
    Agrees (runWorld us) side (interpret g entry) (interpret g' entry) where
  left s := (interpretWatched_agrees hg (s.machine.watch s.frame.code.id) default hg.fuel
    entry).left s
  right s := (interpretWatched_agrees hg default (s.machine.watch s.frame.code.id) hg.fuel
    entry).right s
  agree {s s'} hs := (interpretWatched_agrees hg (s.machine.watch s.frame.code.id)
    (s'.machine.watch s'.frame.code.id) hg.fuel entry).agree hs

end TieredMachine
