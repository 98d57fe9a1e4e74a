/-
  Runs that an exception is not raised in.

  A run may be watched for an exception, and stopped where that exception is raised, in the
  frame that is run or in one that it calls.  What other exceptions are raised and handled
  in a run that is not stopped leaves the traceback of this one alone.

  * `Stage.raises`: the exception is raised where a frame stands;
  * `Stage.run`, `sparing`: runs, and the engine, stopped where it is raised;
  * `tracebackLaw`: the law that a traceback stays as it is;
  * `Stage.keeps_next`, `sparing_aligned`: what is not stopped keeps to the law.
-/
import TieredMachine.Proofs.Traceback.Stage
import TieredMachine.Proofs.Host.Objects

namespace TieredMachine

/-! ## Engines that stop -/

namespace Stage

/-- The flow that is followed next. -/
def flow? : Stage → Option Flow
  | flow _ out | way _ _ out => some out
  | _ => none

/-- Whether an exception is raised where the frame stands. -/
def raises (e : Ref) (p : Stage) : Bool :=
  match p.flow? with
  | some (.raise exc _) => exc == e
  | _ => false

/-- Goes on from a stage to the end of the run, unless the exception is raised on the way. -/
def run (e : Ref) (g : Guest) : Nat → Stage → FrameExec Exit
  | _, left exit => return exit
  | 0, _ => throw .outOfFuel
  | n + 1, p => if p.raises e then throw .outOfFuel else do run e g n (← p.next g)

/-- Runs a frame to its next exit, unless the exception is raised on the way. -/
def runSparing (e : Ref) (g : Guest) (entry : Entry) : FrameExec Exit := fun ⟨f, m⟩ =>
  let p := first entry f m
  recordEnd p.isRecorded (p.run e g g.fuel ⟨f, m.begun entry f⟩)

end Stage

/-- The engine under a host, stopped where the exception is raised, with at most `fuel` calls
    and runs nested. -/
def sparing (host : Host) (e : Ref) : Nat → Guest
  | 0 => ⟨0, fun _ _ _ => throw .outOfFuel, fun _ => throw .outOfFuel, pollNow⟩
  | fuel + 1 =>
    let g := sparing host e fuel
    { fuel := fuel + 1
      call := fun callee args kwargs => match host callee args kwargs with
        | some script => script.perform .never g
        | none => callWith g callee args kwargs
      run := Stage.runSparing e g
      poll := pollNow }

/-! ## Tracebacks -/

namespace Machine

/-- The traceback of an exception, if there is such an exception. -/
def traceback? (m : Machine) (e : Ref) : Option (Array TracebackEntry) :=
  m.heap.exceptions[e]?.map (·.traceback)

variable {m m' : Machine} {e : Ref} {T : Array TracebackEntry}

theorem traceback?_of_heap (h : m'.heap = m.heap) : m'.traceback? e = m.traceback? e := by
  rw [traceback?, h]
  rfl

theorem lt_size_of_traceback? (h : m.traceback? e = some T) : e < m.heap.exceptions.size := by
  refine Nat.lt_of_not_le fun out => ?_
  rw [traceback?, Array.getElem?_eq_none out] at h
  cases h

theorem traceback?_addEntry (exc : Ref) (entry : Heap → TracebackEntry) :
    (m.mapHeap (·.addEntry exc entry)).traceback? e =
      if exc = e then (m.traceback? e).map (·.push (entry m.heap)) else m.traceback? e := by
  unfold traceback?
  show ((m.heap.exceptions.modify exc _)[e]?).map _ = _
  rw [Array.getElem?_modify]
  split
  · rw [Option.map_map, Option.map_map]
    rfl
  · rfl

end Machine

/-- What leaves the exceptions as they are that there are. -/
def Heap.SameExceptions (h h' : Heap) : Prop :=
  ∀ i < h.exceptions.size, h'.exceptions[i]? = h.exceptions[i]?

/-- The law that the traceback of an exception stays as it is. -/
def tracebackLaw (e : Ref) : Law where
  config := {}
  holds _ := False
  past _ := False
  kept m m' := ∀ T, m.traceback? e = some T → m'.traceback? e = some T
  kept_refl _ _ h := h
  kept_trans h h' T hT := h' T (h T hT)
  past_of_kept _ h := h

variable {host : Host} {e : Ref} {side : Side} {g : Guest} {α : Type}

theorem tracebackLaw_kept {m m' : Machine} (h : m.heap.SameExceptions m'.heap) :
    (tracebackLaw e).kept m m' := fun T hT => by
  rw [Machine.traceback?, h e (Machine.lt_size_of_traceback? hT)]
  exact hT

theorem tracebackLaw_bears {m m' : Machine} (h : m.heap.SameExceptions m'.heap) :
    (tracebackLaw e).Bears m m' := ⟨tracebackLaw_kept h, False.elim⟩

instance : (tracebackLaw e).HeapOnly where
  same h := tracebackLaw_bears fun _ _ => by rw [h]

instance : (tracebackLaw e).Eventful where
  configured h := h.elim
  aside h := ⟨tracebackLaw_kept h.exceptions, False.elim⟩
  mark _ _ _ := Law.HeapOnly.same rfl
  newGenerator _ _ _ := tracebackLaw_bears fun _ _ => rfl

/-- What keeps to the law on its own agrees with itself. -/
theorem tracebackLaw_agrees {x : Exec α} (h : Keeps (lawWorld (tracebackLaw e)) x) :
    Agrees (lawWorld (tracebackLaw e)) side x x := ⟨h, h, fun h => h.2.elim⟩

/-- A flow that does not raise the exception adds nothing to its traceback. -/
theorem addsAlike_of_ne {out : Flow} (h : ∀ fresh, out ≠ .raise e fresh) :
    Law.AddsAlike (tracebackLaw e) side out := by
  intro exc raised
  have other : exc ≠ e := fun same => h true (same ▸ raised)
  refine frame_agrees.free.andThen fun f => Agrees.onFrame (tracebackLaw_agrees fun m T hT => ?_)
  show (m.mapHeap (·.addEntry exc f.tracebackEntry)).traceback? e = some T
  rw [Machine.traceback?_addEntry, if_neg other]
  exact hT

/-! ## What is not stopped -/

namespace Law

variable {L : Law} [L.Eventful] [L.HeapOnly]

omit [L.HeapOnly] in
theorem begin_agrees (w : Watch) :
    Agrees (freeWorld (lawWorld L)) side (Stage.begin w) (Stage.begin w) := by
  refine frame_agrees.free.andThen fun f => ?_
  cases f.code.instrAt? f.ip with
  | none => exact .fail _
  | some i =>
    have begun : Agrees (freeWorld (lawWorld L)) side
        (do modifyFrame fun f => { f with lasti := some i.ip, ip := i.next }
            return i)
        (do modifyFrame fun f => { f with lasti := some i.ip, ip := i.next }
            return i) := (moveFrame_agrees _).andThen fun _ => .ret i
    dsimp only
    split
    · exact (tellTracer_agrees w _).andThen fun _ => begun
    · exact begun

omit [L.Eventful] [L.HeapOnly] in
theorem edge?_agrees {t : Terminator} {out : Flow} {along : FrameExec Threaded.Landing}
    (h : t.edge? out = some along) : Agrees (freeWorld (lawWorld L)) side along along := by
  unfold Terminator.edge? at h
  split at h <;> cases h
  case h_2 | h_10 => first | exact .fail _ | exact frame_agrees.free.andThen fun _ => .fail _
  case h_8 =>
    split
    · exact .ret _
    · exact (moveFrame_agrees _).andThen fun _ => .ret _
  all_goals exact .ret _

/-- A stage keeps to a law that is about the heap, if the law puts up with the entry that
    its flow adds to a traceback. -/
theorem keeps_next (hg : Aligned L .left g g) (p : Stage)
    (adds : ∀ out, p.flow? = some out → AddsAlike L .left out) :
    Keeps (freeWorld (lawWorld L)) (p.next g) := by
  have primitive (site : Site) (r : Bool) (p : Primitive) :
      Agrees (freeWorld (lawWorld L)) .left (caught (Primitive.run g site r p))
        (caught (Primitive.run g site r p)) :=
    caught_agrees (Primitive.run_agrees hg.serves site (.inl rfl) p).free
  have pushed (v : Value) : Agrees (freeWorld (lawWorld L)) .left (push v) (push v) :=
    (push_agrees v).free
  have landed (G : Graph) : Agrees (freeWorld (lawWorld L)) .left (Threaded.land G)
    (Threaded.land G) := land_agrees G
  cases p with
  | enter w entry =>
    cases entry with
    | throw_ exc => exact .pure _
    | call =>
      have told : Agrees (freeWorld (lawWorld L)) .left (tellTracer w .call)
        (tellTracer w .call) := tellTracer_agrees w _
      exact (told.left.bind fun _ => .pure _).bind fun _ => .pure _
    | resume v => exact ((pushed v).left.bind fun _ => .pure _).bind fun _ => .pure _
    | continue_ => exact .bind (.pure _) fun _ => .pure _
  | step w =>
    have begun : Agrees (freeWorld (lawWorld L)) .left (Stage.begin w) (Stage.begin w) :=
      begin_agrees w
    exact begun.left.bind fun _ => .pure _
  | prims w ip k ps =>
    cases ps with
    | nil => exact .pure _
    | cons p ps =>
      refine (primitive _ _ _).left.bind fun out => ?_
      cases out <;> exact .pure _
  | flow w out =>
    exact (keeps_direct (HeapOnly.carried .never).endures w (adds out rfl)).bind fun _ => .pure _
  | native unit G entry =>
    cases entry with
    | throw_ exc => exact .pure _
    | call => exact .bind (.pure _) fun _ => .pure _
    | continue_ => exact (landed G).left.bind fun _ => .pure _
    | resume v =>
      have entered : Agrees (freeWorld (lawWorld L)) .left (Threaded.enter G (.resume v))
          (Threaded.enter G (.resume v)) := by
        refine (pushed v).andThen fun _ => frame_agrees.free.andThen fun f => ?_
        split
        · exact .ret _
        · exact landed G
      exact entered.left.bind fun _ => .pure _
  | block unit G b =>
    have moved : Agrees (freeWorld (lawWorld L)) .left
      (modifyFrame fun f => { f with ip := (G.block b).start })
      (modifyFrame fun f => { f with ip := (G.block b).start }) := moveFrame_agrees _
    exact moved.left.bind fun _ => .pure _
  | ops unit G is t =>
    cases is with
    | nil =>
      have flow : Keeps (freeWorld (lawWorld L)) (t.flow g) := by
        unfold Terminator.flow
        split
        · exact (primitive _ _ _).left
        · exact .pure _
      refine flow.bind fun out => ?_
      split
      · rename_i along edge
        have agrees : Agrees (freeWorld (lawWorld L)) .left along along := edge?_agrees edge
        exact agrees.left.bind fun _ => .pure _
      · exact .pure _
    | cons i is =>
      refine (runOp_agrees hg G i).left.bind fun passed => ?_
      cases passed <;> exact .pure _
  | way unit G out => exact (follow_agrees G (adds out rfl)).left.bind fun _ => .pure _
  | kernel unit k entry => exact (runKernel_agrees hg k entry).left.bind fun _ => .pure _
  | bail unit reason =>
    have counted : Keeps (freeWorld (lawWorld L)) (onMachine (modify (·.bail unit reason))) :=
      fun s => (HeapOnly.carried (L := L) .never).endures.bail s.machine unit reason
    have made : Agrees (lawWorld L) .left (newException .runtimeError [.str bailMessage])
      (newException .runtimeError [.str bailMessage]) := .of (newException_agrees _ _)
    refine .bind (counted.bind fun _ => .bind (fun s => L.kept_refl s.machine) fun s => ?_) fun _ =>
      fun s => L.kept_refl s.machine
    split
    · exact made.onFrame.left.bind fun _ => .pure _
    · exact .pure _
  | left exit => exact .pure _

end Law

/-- The traceback of an exception stays as it is at every stage where that exception is not
    raised. -/
theorem Stage.keeps_next (hg : Aligned (tracebackLaw e) .left g g) {p : Stage}
    (hp : p.raises e = false) : Keeps (freeWorld (lawWorld (tracebackLaw e))) (p.next g) := by
  refine Law.keeps_next hg p fun out hout => addsAlike_of_ne fun fresh raised => ?_
  rw [raises, hout, raised] at hp
  exact absurd hp (by simp)

theorem keeps_recordEnd {recorded : Bool} {s : Activation}
    {r : EStateM.Result Fault Activation Exit}
    (h : (tracebackLaw e).kept s.machine (finalState r).machine) :
    (tracebackLaw e).kept s.machine (finalState (recordEnd recorded r)).machine := by
  cases recorded with
  | false => exact h
  | true => cases r <;> exact h

namespace Stage

theorem keeps_run (hg : Aligned (tracebackLaw e) .left g g) : ∀ (n : Nat) (p : Stage),
    Keeps (freeWorld (lawWorld (tracebackLaw e))) (p.run e g n)
  | 0, p | n + 1, p => by
    cases p with
    | left exit => exact .pure _
    | _ =>
      first
        | exact .throw _
        | unfold run
          split
          · exact .throw _
          · exact (keeps_next hg (Bool.eq_false_iff.mpr ‹_›)).bind fun q => keeps_run hg n q

theorem keeps_runSparing (hg : Aligned (tracebackLaw e) .left g g) (entry : Entry) :
    Keeps (freeWorld (lawWorld (tracebackLaw e))) (runSparing e g entry) := fun ⟨f, m⟩ =>
  keeps_recordEnd ((tracebackLaw e).kept_trans
    ((Law.HeapOnly.carried .never).endures.begun m entry f)
    (keeps_run hg g.fuel (first entry f m) ⟨f, m.begun entry f⟩))

end Stage

/-- A change of the heap that leaves the exceptions alone that there are. -/
def Heap.KeepsExceptions (f : Heap → Heap) : Prop := ∀ h : Heap, h.SameExceptions (f h)

theorem tracebackLaw_admits {f : Heap → Heap} (h : Heap.KeepsExceptions f) :
    (tracebackLaw e).Admits f := fun m => tracebackLaw_bears (h m.heap)

/-- The engine that stops where the exception is raised keeps to the law. -/
theorem sparing_aligned (hh : host.Edits Heap.KeepsExceptions) (e : Ref) :
    ∀ fuel, Aligned (tracebackLaw e) .left (sparing host e fuel) (sparing host e fuel) := by
  have resumes {g : Guest} (runs : (tracebackLaw e).RunsAlike .left g g) :
      (tracebackLaw e).ResumesAlike .left g g := by
    have change (r : Ref) (f : Generator → Generator) :
        Agrees (lawWorld (tracebackLaw e)) .left (modifyGenerator r f) (modifyGenerator r f) :=
      Law.change_agrees fun m => tracebackLaw_bears fun _ _ => rfl
    exact ⟨fun r how => Law.resumeGenerator_agrees runs (change r) how, fun r =>
      .of (closeGenerator_agrees r (change r _) (Law.resumeGenerator_agrees runs (change r)))⟩
  intro fuel
  induction fuel with
  | zero =>
    exact .of resumes rfl (fun _ _ _ => .fail _) (fun _ => .fail _) Law.pollNow_agrees
  | succ fuel ih =>
    refine .of resumes rfl (fun callee args kwargs => ?_) (fun entry => ?_) Law.pollNow_agrees
    · have carried : (tracebackLaw e).Carried .never .never := Law.HeapOnly.carried .never
      unfold sparing
      dsimp only
      cases answered : host callee args kwargs with
      | none => exact Law.callWith_agrees carried ih callee args kwargs
      | some script =>
        exact Law.perform_agrees carried ih script ((hh answered).mono tracebackLaw_admits)
    · have kept := Stage.keeps_runSparing ih entry
      exact ⟨kept, kept, fun h => h.2.2.elim⟩

end TieredMachine
