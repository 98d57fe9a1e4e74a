/-
  Runs of frames under a law.

  Under a law that is upheld, a frame is run alike by engines that agree, in whichever
  tier it runs.  The interpreter concerns tiers where it counts backward jumps, native
  code where it ends with a bail, and the entry where it counts an activation.

  * `interpret_agrees`: a run of the interpreter;
  * `runNative_agrees`: a run of native code;
  * `runFrame_agrees`: a run in whichever tier is in force.
-/
import TieredMachine.Proofs.Host.Upheld
import TieredMachine.Run.Guest

namespace TieredMachine

namespace Law

variable {L : Law} [L.Eventful] {side : Side} {g g' : Guest} {α : Type}

/-- A computation that changes nothing that a law is about agrees with itself. -/
theorem still {x : FrameExec α} (hx : ∀ s : Activation, s.machine.Aside (finalState (x s)).machine) :
    Agrees (freeWorld (lawWorld L)) side x x where
  left s := (Steady.aside (hx s)).1
  right s := (Steady.aside (hx s)).1
  agree {s s'} hs := by
    obtain ⟨f, m⟩ := s
    obtain ⟨f', m'⟩ := s'
    obtain ⟨rfl, rfl, hm⟩ := hs
    have h := (Steady.aside (hx ⟨f, m⟩)).2 hm
    generalize x ⟨f, m⟩ = r at h
    cases r with
    | ok a t => exact .same ⟨rfl, rfl, h⟩
    | error e t => exact .error ⟨rfl, rfl, h⟩

/-- The entry that a flow adds to the traceback of an exception agrees with itself. -/
def AddsAlike (L : Law) (side : Side) (flow : Flow) : Prop :=
  ∀ exc, flow = .raise exc true →
    Agrees (freeWorld (lawWorld L)) side (recordTraceback exc) (recordTraceback exc)

omit [L.Eventful] in
theorem addsAlike [L.Running] (flow : Flow) : AddsAlike L side flow :=
  fun exc _ => (recordTraceback_agrees exc).free

theorem record_agrees {kind : EventKind} (h : kind.isMark) : Agrees (freeWorld (lawWorld L)) side
    (recordEvent kind : FrameExec Unit) (recordEvent kind) :=
  (L.mark_agrees h).onFrame

/-! ## The interpreter -/

theorem tellTracer_agrees (w : Watch) (event : TraceEvent) :
    Agrees (freeWorld (lawWorld L)) side (tellTracer w event) (tellTracer w event) := by
  unfold tellTracer
  split
  · exact frame_agrees.free.andThen fun f =>
      (L.aside_agrees (f := fun m => { m with trace := m.trace.push (f.code.name, event) })
        fun _ => .of (.of rfl rfl rfl rfl) rfl rfl rfl).onFrame
  · exact .ret ()

theorem dispatchUnwind_agrees (p : Pending) {event : EventKind} (mark : event.isMark) :
    Agrees (freeWorld (lawWorld L)) side (dispatchUnwind p event) (dispatchUnwind p event) := by
  have unwound : Agrees (freeWorld (lawWorld L)) side (unwind p) (unwind p) :=
    still fun s => by
      obtain ⟨⟨tb, heap⟩, -⟩ := unwindBlocks_heap p s.frame.blocks s.frame s.machine.heap
      rw [unwind_apply, show (s.frame.unwind p s.machine.heap).2.2 = _ from heap]
      exact ⟨.of rfl rfl rfl rfl, rfl, rfl, rfl, fun _ _ => rfl⟩
  refine unwound.andThen fun where_ => ?_
  cases where_ with
  | handler ip =>
    refine (moveFrame_agrees _).andThen fun _ => ?_
    dsimp only
    split
    · exact (record_agrees mark).andThen fun _ => .ret none
    · exact .ret none
  | exit p =>
    cases p with
    | exception exc => exact .fail _
    | return_ v => exact .ret _
    | break_ => exact .fail _
    | continue_ target => exact .fail _

theorem beginRaise_agrees {exc : Ref} {fresh : Bool} (adds : AddsAlike L side (.raise exc fresh))
    {event : EventKind} (mark : event.isMark) :
    Agrees (freeWorld (lawWorld L)) side (beginRaise exc fresh event)
      (beginRaise exc fresh event) := by
  unfold beginRaise
  cases fresh with
  | false => exact .ret _
  | true =>
    exact (adds exc rfl).andThen fun _ => (record_agrees mark).andThen fun _ => .ret _

theorem step_agrees (hg : Aligned L side g g') (w : Watch) :
    Agrees (freeWorld (lawWorld L)) side (step g w) (step g' w) := by
  refine frame_agrees.free.andThen fun f => ?_
  cases f.code.instrAt? f.ip with
  | none => exact .fail _
  | some i =>
    have body : Agrees (freeWorld (lawWorld L)) side
        (do modifyFrame fun f => { f with lasti := some i.ip, ip := i.next }
            runPrimitives g w.recording i.ip 0 i.prims)
        (do modifyFrame fun f => { f with lasti := some i.ip, ip := i.next }
            runPrimitives g' w.recording i.ip 0 i.prims) :=
      (moveFrame_agrees _).andThen fun _ =>
        (runPrimitives_agrees hg.serves (.inl rfl) i.ip 0 i.prims).free
    dsimp only
    split
    · exact (tellTracer_agrees w _).andThen fun _ => body
    · exact body

theorem leaveBlocks_agrees (w : Watch) (p : Pending) :
    Agrees (freeWorld (lawWorld L)) side (leaveBlocks w p) (leaveBlocks w p) := by
  refine (dispatchUnwind_agrees p rfl).andThen fun exit => ?_
  dsimp only
  split
  · split
    · exact heap_agrees.onFrame.andThen fun h =>
        (tellTracer_agrees w _).andThen fun _ => .ret _
    · exact .ret _
  · exact .ret _

/-- What the flow out of an instruction does agrees, unless it is a jump. -/
theorem direct_agrees_of_ne_jump (w : Watch) {flow : Flow} (adds : AddsAlike L side flow)
    (h : ∀ target, flow ≠ .jump target) :
    Agrees (freeWorld (lawWorld L)) side (direct w flow) (direct w flow) := by
  cases flow with
  | next => exact .ret _
  | yield_ v => exact .ret _
  | unwind p => exact leaveBlocks_agrees w p
  | jump target => exact absurd rfl (h target)
  | raise exc fresh =>
    have raised : Agrees (freeWorld (lawWorld L)) side
        (do leaveBlocks w (← beginRaise exc fresh .exceptRaiseEval))
        (do leaveBlocks w (← beginRaise exc fresh .exceptRaiseEval)) :=
      (beginRaise_agrees adds rfl).andThen fun p => leaveBlocks_agrees w p
    unfold direct
    dsimp only
    split
    · exact heap_agrees.onFrame.andThen fun h => (tellTracer_agrees w _).andThen fun _ => raised
    · exact raised

/-- What jumping does, once the frame is known. -/
def jumpFrom (w : Watch) (target : Nat) (f : Frame) : FrameExec (Option Exit) := do
  if f.isBackward target then
    onMachine (modify (·.mapProfile f.code.id (·.recordBackedge w.backedgeWeight)))
  modifyFrame fun f => { f with ip := target }
  return none

variable {a b : Alarm}

/-- What the flow out of an instruction does agrees. -/
theorem direct_agrees (hL : L.Carried a b) {w : Watch}
    (hw : w.backedgeWeight = .ofNat L.config.backedgeWeight) {flow : Flow}
    (adds : AddsAlike L side flow) :
    Agrees (freeWorld (lawWorld L)) side (direct w flow) (direct w flow) := by
  cases flow with
  | jump target =>
    refine frame_agrees.free.andThen (f := jumpFrom w target) (g := jumpFrom w target) fun f => ?_
    have jumped : Agrees (freeWorld (lawWorld L)) side
        (do modifyFrame fun f => { f with ip := target }
            return (none : Option Exit))
        (do modifyFrame fun f => { f with ip := target }
            return (none : Option Exit)) :=
      (moveFrame_agrees _).andThen fun _ => .ret _
    have counted : Agrees (lawWorld L) side
        (modify (·.mapProfile f.code.id (·.recordBackedge w.backedgeWeight)))
        (modify (·.mapProfile f.code.id (·.recordBackedge w.backedgeWeight))) :=
      L.change_agrees fun m => ⟨hL.endures.backedge m f.code.id w.backedgeWeight,
        fun hm => hw ▸ hL.backedge f.code.id hm⟩
    unfold jumpFrom
    dsimp only
    split
    · exact counted.onFrame.andThen fun _ => jumped
    · exact jumped
  | _ => exact direct_agrees_of_ne_jump w adds fun _ => Flow.noConfusion

/-- Whatever weight a jump has, what lasts is kept. -/
theorem keeps_direct (hL : L.Endures b) (w : Watch) {flow : Flow}
    (adds : AddsAlike L .left flow) : Keeps (freeWorld (lawWorld L)) (direct w flow) := by
  have other (h : ∀ target, flow ≠ .jump target) :
      Agrees (freeWorld (lawWorld L)) .left (direct w flow) (direct w flow) :=
    direct_agrees_of_ne_jump w adds h
  cases flow with
  | jump target =>
    intro s
    have counted := hL.backedge s.machine s.frame.code.id w.backedgeWeight
    show L.kept s.machine (finalState (jumpFrom w target s.frame s)).machine
    unfold jumpFrom
    dsimp only
    split
    · exact counted
    · exact L.kept_refl _
  | _ => exact (other fun _ => Flow.noConfusion).left

omit [L.Eventful]

variable [L.Running]

theorem keeps_interpretFrom (hL : L.Endures b) (hg : Aligned L side g g') (w : Watch) :
    ∀ n, Keeps (freeWorld (lawWorld L)) (interpretFrom g w n) ∧
      Keeps (freeWorld (lawWorld L)) (interpretFrom g' w n)
  | 0 => ⟨.throw _, .throw _⟩
  | n + 1 => by
    have ih := keeps_interpretFrom hL hg w n
    have stepped := step_agrees hg w
    refine ⟨stepped.left.bind fun flow => (keeps_direct hL w (addsAlike flow)).bind fun exit => ?_,
      stepped.right.bind fun flow => (keeps_direct hL w (addsAlike flow)).bind fun exit => ?_⟩
    · cases exit with
      | some exit => exact .pure _
      | none => exact ih.1
    · cases exit with
      | some exit => exact .pure _
      | none => exact ih.2

theorem interpretFrom_agrees (hL : L.Carried a b) (hg : Aligned L side g g') {w : Watch}
    (hw : w.backedgeWeight = .ofNat L.config.backedgeWeight) :
    ∀ n, Agrees (freeWorld (lawWorld L)) side (interpretFrom g w n) (interpretFrom g' w n)
  | 0 => .fail _
  | n + 1 => by
    have ih := interpretFrom_agrees hL hg hw n
    refine (step_agrees hg w).andThen fun flow => (direct_agrees hL hw (addsAlike flow)).andThen fun exit => ?_
    cases exit with
    | some exit => exact .ret _
    | none => exact ih

/-- A run of the interpreter once it is settled what is watched. -/
def interpretAs (g : Guest) (w : Watch) (entry : Entry) : FrameExec Exit := do
  match ← enter w entry with
  | some exit => return exit
  | none => interpretFrom g w g.fuel

theorem enter_agrees (hL : L.Carried a b) {w : Watch}
    (hw : w.backedgeWeight = .ofNat L.config.backedgeWeight) (entry : Entry) :
    Agrees (freeWorld (lawWorld L)) side (enter w entry) (enter w entry) := by
  cases entry with
  | call => exact (tellTracer_agrees w _).andThen fun _ => .ret _
  | resume v => exact (push_agrees v).free.andThen fun _ => .ret _
  | throw_ exc => exact direct_agrees hL hw (addsAlike (.raise exc true))
  | continue_ => exact .ret _

theorem keeps_enter (hL : L.Endures b) (w : Watch) (entry : Entry) :
    Keeps (freeWorld (lawWorld L)) (enter w entry) := by
  have told : Agrees (freeWorld (lawWorld L)) .left (tellTracer w .call) (tellTracer w .call) :=
    tellTracer_agrees w _
  have pushed (v : Value) : Agrees (freeWorld (lawWorld L)) .left (push v) (push v) :=
    (push_agrees v).free
  cases entry with
  | call => exact told.left.bind fun _ => .pure _
  | resume v => exact (pushed v).left.bind fun _ => .pure _
  | throw_ exc => exact keeps_direct hL w (addsAlike (.raise exc true))
  | continue_ => exact .pure _

theorem keeps_interpretAs (hL : L.Endures b) (hg : Aligned L side g g') (w : Watch)
    (entry : Entry) : Keeps (freeWorld (lawWorld L)) (interpretAs g w entry) ∧
      Keeps (freeWorld (lawWorld L)) (interpretAs g' w entry) := by
  refine ⟨(keeps_enter hL w entry).bind fun exit => ?_,
    (keeps_enter hL w entry).bind fun exit => ?_⟩
  · cases exit with
    | some exit => exact .pure _
    | none => exact (keeps_interpretFrom hL hg w g.fuel).1
  · cases exit with
    | some exit => exact .pure _
    | none => exact (keeps_interpretFrom hL hg w g'.fuel).2

/-- A run of the interpreter agrees. -/
theorem interpret_agrees (hL : L.Carried a b) (hg : Aligned L side g g') (entry : Entry) :
    Agrees (freeWorld (lawWorld L)) side (interpret g entry) (interpret g' entry) where
  left s := (keeps_interpretAs hL.endures hg (s.machine.watch s.frame.code.id) entry).1 s
  right s := (keeps_interpretAs hL.endures hg (s.machine.watch s.frame.code.id) entry).2 s
  agree {s s'} hs := by
    obtain ⟨f, m⟩ := s
    obtain ⟨f', m'⟩ := s'
    obtain ⟨rfl, rfl, hm⟩ := hs
    have hw : (m.watch f.code.id).backedgeWeight = .ofNat L.config.backedgeWeight := by
      rw [← Steady.configured hm]
      rfl
    have run : Agrees (freeWorld (lawWorld L)) side
        (interpretAs g (m.watch f.code.id) entry) (interpretAs g' (m.watch f.code.id) entry) := by
      refine (enter_agrees hL hw entry).andThen fun exit => ?_
      cases exit with
      | some exit => exact .ret _
      | none =>
        rw [hg.fuel]
        exact interpretFrom_agrees hL hg hw g'.fuel
    exact run.agree ⟨rfl, rfl, hm⟩

end Law

end TieredMachine
