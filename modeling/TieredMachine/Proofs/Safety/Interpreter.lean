/-
  Where the interpreter takes a frame.

  Between two instructions the frame stands at a boundary of its unit, unless it has gone
  astray.  A frame that stands at no instruction ends the run at once, so a fault tells of
  control that left the code only at the end of the code, or where a frame has gone astray.

  * `Frame.Off`, `Frame.Ends`, `Frame.Leaves`: how a run ends;
  * `unwind_guides`: unwinding goes to handlers, or where a `continue` says;
  * `step_guides`, `direct_guides`: one instruction;
  * `interpret_guides`: a whole run.
-/
import TieredMachine.Proofs.Safety.Control
import TieredMachine.Proofs.Safety.Tier
import TieredMachine.Proofs.Run.Finally

namespace TieredMachine

variable {us : Array CodeUnit} {stops : Nat → Prop} {u : CodeUnit} {g : Guest} {w : Watch}
  {P : Frame → Prop} {E : Fault → Frame → Prop}

/-! ## Ends of runs -/

/-- Control has left the code: it ran off the end, or the frame has gone astray. -/
structure Frame.Off (u : CodeUnit) (f : Frame) : Prop extends f.Fits u where
  gone : f.ip = u.words.size ∨ f.Astray

/-- A run may end with the fault and the frame: validation permits the fault, or control has
    left the code. -/
def Frame.Ends (us : Array CodeUnit) (stops : Nat → Prop) (u : CodeUnit) (e : Fault)
    (f : Frame) : Prop :=
  (Regime.validated us stops u).permits e ∨ e = .ipOutOfBounds f.ip ∧ f.Off u

/-- A frame that is suspended rests. -/
def Frame.Leaves (u : CodeUnit) (f : Frame) : Exit → Prop
  | .yield_ _ => f.Rests u
  | .return_ _ => True

/-- Control was sent to the start of an instruction, or astray. -/
structure Frame.Sent (u : CodeUnit) (f : Frame) : Prop extends f.Fits u where
  there : (u.instrAt? f.ip).isSome ∨ f.Astray

/-- A frame may be entered where it stands; one that a value is sent to rests. -/
def Frame.Enters (u : CodeUnit) (f : Frame) : Entry → Prop
  | .resume _ => f.Rests u
  | _ => f.Stands u

/-- Where the frame is when it is not left, and how it is left. -/
def Frame.Follows (u : CodeUnit) (P : Frame → Prop) : Option Exit → Frame → Prop
  | none, f => P f
  | some exit, f => f.Leaves u exit

theorem Frame.Sent.stands {f : Frame} (h : f.Sent u) : f.Stands u :=
  ⟨h.toFits, h.there.imp_left .inl⟩

theorem Frame.Rests.enters {f : Frame} (h : f.Rests u) (entry : Entry) : f.Enters u entry := by
  cases entry with
  | resume v => exact h
  | _ => exact h.stands

/-- Only the tables and the handlers matter. -/
theorem Frame.Fits.at {f : Frame} (h : f.Fits u) (ip : Nat) : ({ f with ip } : Frame).Fits u :=
  ⟨h.code, h.locals, h.cells, h.handlers⟩

/-! ## Records -/

theorem recordEvent_safe (kind : EventKind) : Safe (.validated us stops u) (recordEvent kind) :=
  fun _ hm => Machine.Valid.record hm kind

theorem tellTracer_guides (event : TraceEvent) :
    Guides (.validated us stops u) P (tellTracer w event) (fun _ => P) E := by
  intro s hm hf
  unfold tellTracer
  split
  · exact ⟨Machine.Valid.of_heap hm rfl fun _ _ h => h, hf⟩
  · exact ⟨hm, hf⟩

theorem heap_guides : Guides (.validated us stops u) P (onMachine heap) (fun _ => P) E :=
  fun _ hm hf => ⟨hm, hf⟩

theorem recordTraceback_guides (exc : Ref) :
    Guides (.validated us stops u) P (recordTraceback exc) (fun _ => P) E :=
  fun _ hm hf => ⟨Machine.Valid.of hm rfl rfl (fun gen hgen _ h => .inl ⟨gen, hgen, h⟩)
    fun _ _ h => h, hf⟩

theorem recordEvent_guides (kind : EventKind) :
    Guides (.validated us stops u) P (onMachine (recordEvent kind)) (fun _ => P) E :=
  fun _ hm hf => ⟨Machine.Valid.record hm kind, hf⟩

/-! ## Unwinding -/

/-- A block takes an unwind at its handler, or at the target of a `continue`. -/
theorem Block.landing_eq (b : Block) (p : Pending) :
    b.landing p = b.handler ∨ p = .continue_ (b.landing p) := by
  unfold landing
  split
  · exact .inr rfl
  · exact .inl rfl

/-- Unwinding goes to the handler of a block, or where a `continue` says. -/
theorem handler_of_unwindBlocks {p : Pending} {bs : List Block} {f : Frame} {h : Heap} {ip : Nat}
    (hu : (unwindBlocks p bs f h).1 = .handler ip) :
    (∃ b ∈ bs, b.handler = ip) ∨ p = .continue_ ip := by
  rw [unwindBlocks_landing] at hu
  cases hb : bs.find? (·.takes p) with
  | none =>
    rw [hb] at hu
    cases hu
  | some b =>
    rw [hb] at hu
    cases hu
    exact (b.landing_eq p).imp_left fun h => ⟨b, List.mem_of_find?_eq_some hb, h.symm⟩

/-- Unwinding pops blocks, and changes the value stack. -/
theorem unwindBlocks_fits {p : Pending} {bs : List Block} {f : Frame} {h : Heap}
    (hf : f.Fits u) (hbs : ∀ b ∈ bs, (u.instrAt? b.handler).isSome) :
    (unwindBlocks p bs f h).2.1.Fits u := by
  induction bs generalizing f with
  | nil => exact ⟨hf.code, hf.locals, hf.cells, nofun⟩
  | cons b rest ih =>
    have outer : ∀ b ∈ rest, (u.instrAt? b.handler).isSome :=
      fun b hb => hbs b (List.mem_cons_of_mem _ hb)
    unfold unwindBlocks
    dsimp only
    split
    · exact ⟨hf.code, hf.locals, hf.cells, hbs⟩
    · exact ⟨hf.code, hf.locals, hf.cells, outer⟩
    · exact ih ⟨hf.code, hf.locals, hf.cells, outer⟩ outer
    · exact ⟨hf.code, hf.locals, hf.cells, outer⟩
    · exact ih ⟨hf.code, hf.locals, hf.cells, outer⟩ outer
    · exact ⟨hf.code, hf.locals, hf.cells, outer⟩

theorem unwind_guides (p : Pending) : Guides (.validated us stops u)
    (fun f => f.Fits u ∧ (Flow.unwind p).Lands u f) (unwind p)
    (fun where_ f => f.Fits u ∧ ∀ ip, where_ = .handler ip → ({ f with ip } : Frame).Sent u) E := by
  rintro s hm ⟨hf, lands⟩
  rw [unwind_apply]
  obtain ⟨⟨tb, heap⟩, -⟩ := unwindBlocks_heap p s.frame.blocks s.frame s.machine.heap
  have fits : (s.frame.unwind p s.machine.heap).2.1.Fits u := unwindBlocks_fits hf hf.handlers
  have units := congrArg Heap.units heap
  have functions := congrArg Heap.functions heap
  have generators := congrArg Heap.generators heap
  refine ⟨?_, fits, fun ip hip => ⟨fits.at ip, ?_⟩⟩
  · exact Machine.Valid.of hm units functions (fun gen hgen _ h => .inl ⟨gen, generators ▸ hgen, h⟩)
      fun _ _ h => h
  · obtain ⟨b, hb, rfl⟩ | rfl := handler_of_unwindBlocks hip
    · exact .inl (hf.handlers b hb)
    · exact lands.imp id fun resumes => ⟨s.frame, (s.frame.unwind _ s.machine.heap).2.1,
        s.machine.heap, (s.frame.unwind _ s.machine.heap).2.2, resumes, Prod.ext hip rfl, rfl⟩

theorem dispatchUnwind_guides (p : Pending) (event : EventKind) :
    Guides (.validated us stops u) (fun f => f.Fits u ∧ (Flow.unwind p).Lands u f)
      (dispatchUnwind p event) (Frame.Follows u (·.Sent u)) (Frame.Ends us stops u) := by
  refine (unwind_guides p).andThen fun where_ => ?_
  cases where_ with
  | handler ip =>
    have moved : Guides (.validated us stops u)
        (fun f => f.Fits u ∧ ∀ ip', Unwound.handler ip = .handler ip' →
          ({ f with ip := ip' } : Frame).Sent u)
        (modifyFrame fun f => { f with ip }) (fun _ => (·.Sent u)) (Frame.Ends us stops u) :=
      Guides.change fun f hf => hf.2 ip rfl
    exact moved.andThen fun _ => .ite
      (fun _ => (recordEvent_guides event).andThen fun _ => .ret fun _ hf => hf)
      fun _ => .ret fun _ hf => hf
  | exit p =>
    cases p with
    | return_ v => exact .ret fun _ _ => trivial
    | exception exc => exact .fail fun _ _ => .inl (Regime.Closed.raised exc)
    | break_ => exact .fail fun _ _ => .inl (Regime.Closed.misuse _)
    | continue_ target => exact .fail fun _ _ => .inl (Regime.Closed.misuse _)

/-- An exception goes wherever the frame stands. -/
theorem beginRaise_guides (exc : Ref) (fresh : Bool) (event : EventKind) :
    Guides (.validated us stops u) (·.Fits u) (beginRaise exc fresh event)
      (fun p f => f.Fits u ∧ (Flow.unwind p).Lands u f) E := by
  have started : Guides (.validated us stops u) (·.Fits u)
      (pure (.exception exc) : FrameExec Pending)
      (fun p f => f.Fits u ∧ (Flow.unwind p).Lands u f) E := .ret fun _ hf => ⟨hf, trivial⟩
  exact .ite (fun _ => (recordTraceback_guides exc).andThen fun _ =>
    (recordEvent_guides event).andThen fun _ => started) fun _ => started

theorem leaveBlocks_guides (p : Pending) :
    Guides (.validated us stops u) (fun f => f.Fits u ∧ (Flow.unwind p).Lands u f)
      (leaveBlocks w p) (Frame.Follows u (·.Sent u)) (Frame.Ends us stops u) := by
  refine (dispatchUnwind_guides p _).andThen fun exit => ?_
  cases exit with
  | none => exact .ret fun _ hf => hf
  | some exit =>
    cases exit with
    | yield_ v => exact .ret fun _ hf => hf
    | return_ v =>
      exact .ite (fun _ => heap_guides.andThen fun h => (tellTracer_guides _).andThen fun _ =>
        .ret fun _ hf => hf) fun _ => .ret fun _ hf => hf

/-! ## One instruction -/

/-- The flow out of an instruction is followed to where it lands. -/
theorem direct_guides (flow : Flow) :
    Guides (.validated us stops u) (fun f => f.Fits u ∧ flow.Lands u f) (direct w flow)
      (Frame.Follows u fun f => f.Stands u ∧ (flow ≠ .next → f.Sent u))
      (Frame.Ends us stops u) := by
  have sent {x : FrameExec (Option Exit)} {P : Frame → Prop}
      (hx : Guides (.validated us stops u) P x (Frame.Follows u (·.Sent u))
        (Frame.Ends us stops u)) :
      Guides (.validated us stops u) P x
        (Frame.Follows u fun f => f.Stands u ∧ (flow ≠ .next → f.Sent u)) (Frame.Ends us stops u) :=
    hx.weaken fun exit f hf => by
      cases exit with
      | none => exact ⟨Frame.Sent.stands hf, fun _ => hf⟩
      | some exit => exact hf
  cases flow with
  | next => exact .ret fun f hf => ⟨⟨hf.1, .inl hf.2⟩, fun h => absurd rfl h⟩
  | yield_ v => exact .ret fun f hf => ⟨hf.1, hf.2⟩
  | unwind p => exact sent (leaveBlocks_guides p)
  | raise exc fresh =>
    refine sent (Guides.strengthen (P := (·.Fits u)) ?_ fun _ hf => hf.1)
    have raised : Guides (.validated us stops u) (·.Fits u)
        (do leaveBlocks w (← beginRaise exc fresh .exceptRaiseEval))
        (Frame.Follows u (·.Sent u)) (Frame.Ends us stops u) :=
      (beginRaise_guides exc fresh _).andThen fun p => leaveBlocks_guides p
    exact .ite (fun _ => heap_guides.andThen fun h => (tellTracer_guides _).andThen fun _ =>
      raised) fun _ => raised
  | jump target =>
    refine sent (Guides.frameThen fun f hf => ?_)
    have moved : Guides (.validated us stops u) (· = f)
        (do modifyFrame fun f => { f with ip := target }; return none)
        (Frame.Follows u (·.Sent u)) (Frame.Ends us stops u) :=
      (Guides.change (Q := fun _ f => f.Sent u) fun f' hf' => by
        rw [hf']
        exact ⟨hf.1.at target, .inl hf.2⟩).andThen fun _ => .ret fun _ hf => hf
    refine .ite (fun _ => Guides.andThen (Q := fun _ => (· = f)) ?_ fun _ => moved) fun _ => moved
    exact fun s hm hs =>
      ⟨Machine.Valid.mapProfile (f := (·.recordBackedge w.backedgeWeight)) hm _ fun _ _ h => h, hs⟩

/-- An instruction is begun where the frame stands, and control goes on where it may. -/
theorem step_guides (hu : Built us) {r : Ref}
    (hg : g.Safe (.validated us stops (unitAt us r))) :
    Guides (.validated us stops (unitAt us r)) (·.Stands (unitAt us r)) (step g w)
      (fun flow f => f.Fits (unitAt us r) ∧ flow.Lands (unitAt us r) f)
      (Frame.Ends us stops (unitAt us r)) := by
  refine Guides.frameThen fun f hf => ?_
  rw [hf.code]
  split
  · rename_i absent
    refine .fail fun f' hf' => ?_
    rw [hf']
    exact .inr ⟨rfl, hf.toFits, hf.here.imp_left fun h => h.eq_size absent⟩
  · rename_i i found
    have hi := Accepted.of hu found
    have begun : Guides (.validated us stops (unitAt us r)) (· = f)
        (do modifyFrame fun f => { f with lasti := some i.ip, ip := i.next }
            runPrimitives g w.recording i.ip 0 i.prims)
        (fun flow f => f.Fits (unitAt us r) ∧ flow.Lands (unitAt us r) f)
        (Frame.Ends us stops (unitAt us r)) := by
      refine (Guides.change (Q := fun _ f => f.Within (unitAt us r) i) fun f' hf' => ?_).andThen
        fun _ => (hi.runPrimitives hg w.recording i.ip (fun _ hp => hp) 0).mono (fun _ h => h)
          (fun flow f h => ⟨h.1.toFits, h.2⟩) fun e f h => .inl h.2
      rw [hf']
      exact ⟨⟨hf.code, hf.locals, hf.cells, hf.handlers⟩, rfl, rfl⟩
    exact .ite (fun _ => (tellTracer_guides _).andThen fun _ => begun) fun _ => begun

/-- One instruction leaves the frame standing between two, unless it leaves the frame. -/
theorem turn_guides (hu : Built us) {r : Ref}
    (hg : g.Safe (.validated us stops (unitAt us r))) :
    Guides (.validated us stops (unitAt us r)) (·.Stands (unitAt us r)) (turn g w)
      (Frame.Follows (unitAt us r) (·.Stands (unitAt us r))) (Frame.Ends us stops (unitAt us r)) :=
  (step_guides hu hg).andThen fun flow => (direct_guides flow).weaken fun exit f hf => by
    cases exit with
    | none => exact hf.1
    | some exit => exact hf

/-! ## Runs -/

theorem interpretFrom_guides (hu : Built us) {r : Ref}
    (hg : g.Safe (.validated us stops (unitAt us r))) (n : Nat) :
    Guides (.validated us stops (unitAt us r)) (·.Stands (unitAt us r))
      (interpretFrom g w n) (fun exit f => f.Leaves (unitAt us r) exit)
      (Frame.Ends us stops (unitAt us r)) := by
  induction n with
  | zero => exact .fail fun _ _ => .inl Regime.Closed.outOfFuel
  | succ n ih =>
    refine (step_guides hu hg).andThen fun flow => (direct_guides flow).andThen
      fun exit => ?_
    cases exit with
    | some exit => exact .ret fun _ hf => hf
    | none => exact ih.strengthen fun _ hf => hf.1

theorem enter_guides (entry : Entry) :
    Guides (.validated us stops u) (·.Enters u entry) (enter w entry)
      (Frame.Follows u (·.Stands u)) (Frame.Ends us stops u) := by
  cases entry with
  | call => exact (tellTracer_guides _).andThen fun _ => .ret fun _ hf => hf
  | continue_ => exact .ret fun _ hf => hf
  | throw_ exc =>
    exact (direct_guides (.raise exc true)).mono (fun _ hf => ⟨hf.toFits, trivial⟩)
      (fun exit f hf => by
        cases exit with
        | none => exact hf.1
        | some exit => exact hf) fun _ _ h => h
  | resume v =>
    refine Guides.andThen (Q := fun _ f => f.Stands u) ?_ fun _ => .ret fun _ hf => hf
    refine Guides.brings (push_brings (k := 0) v) (fun f => Regime.validated_spares 0 f)
      (fun _ hf => hf.toFits) (fun _ f f' kept hf => ?_) fun e f f' _ he _ => .inl he
    exact ⟨kept.fits hf.toFits, .inl (kept.ip ▸ hf.boundary)⟩

/-- A run of the interpreter ends as it may, and a frame that is suspended rests. -/
theorem interpret_guides (hu : Built us) {r : Ref}
    (hg : g.Safe (.validated us stops (unitAt us r))) (entry : Entry) :
    Guides (.validated us stops (unitAt us r)) (·.Enters (unitAt us r) entry)
      (interpret g entry) (fun exit f => f.Leaves (unitAt us r) exit)
      (Frame.Ends us stops (unitAt us r)) := by
  refine Guides.getThen fun s hm hf => ?_
  refine Guides.andThen (enter_guides entry) (fun exit => ?_) s hm hf
  cases exit with
  | some exit => exact .ret fun _ hf => hf
  | none => exact interpretFrom_guides hu hg g.fuel

end TieredMachine
