/-
  Tracebacks are exact.

  An exception that escapes from a chain of frames has one entry for each of them, the
  innermost first.  The entry says where the exception arrived in the frame and what the
  variables were then, whatever the clauses did that ran before the frame was left.

  * `Stage.next_raised`: what raising an exception adds to its traceback;
  * `Meanwhile`, `Clause`: what goes on while an exception is kept back;
  * `Escapes`: how an exception leaves a frame;
  * `Chain`: frames that an exception leaves one after another;
  * **`Chain.traceback_exact`**: the traceback of the exception then.
-/
import TieredMachine.Proofs.Run.Validation
import TieredMachine.Proofs.Traceback.Position

namespace TieredMachine

variable {us : Array CodeUnit} {host : Host} {g : Guest} {e : Ref} {fresh : Bool}
  {s t u : Activation} {m m' : Machine} {T : Array TracebackEntry} {α β : Type}

/-! ## Raising -/

/-- What leaves the traceback alone after the frame was added to it. -/
theorem recordTraceback_adds {x : FrameExec α}
    (hx : Keeps (freeWorld (lawWorld (tracebackLaw e))) x)
    (known : s.machine.traceback? e = some T) :
    (finalState ((recordTraceback e >>= fun _ => x) s)).machine.traceback? e =
      some (T.push (s.frame.tracebackEntry s.machine.heap)) := by
  let added : Activation :=
    ⟨s.frame, s.machine.mapHeap (·.addEntry e s.frame.tracebackEntry)⟩
  have recorded : recordTraceback e s = .ok () added := rfl
  rw [bind_apply, recorded]
  refine hx added _ ?_
  rw [Machine.traceback?_addEntry, if_pos rfl, known]
  rfl

/-- A fresh raise adds the frame, before control goes on. -/
theorem beginRaise_adds {k : Pending → FrameExec α}
    (hk : Keeps (freeWorld (lawWorld (tracebackLaw e))) (k (.exception e))) {event : EventKind}
    (mark : event.isMark) (known : s.machine.traceback? e = some T) :
    (finalState ((beginRaise e true event >>= k) s)).machine.traceback? e =
      some (T.push (s.frame.tracebackEntry s.machine.heap)) := by
  have recorded : Agrees (freeWorld (lawWorld (tracebackLaw e))) .left
      (recordEvent event : FrameExec Unit) (recordEvent event) := Law.record_agrees mark
  have apart : beginRaise e true event >>= k = recordTraceback e >>= fun _ =>
      recordEvent event >>= fun _ => k (.exception e) := by
    unfold beginRaise
    simp only [if_true, bind_assoc, pure_bind]
  rw [apart]
  exact recordTraceback_adds (recorded.left.bind fun _ => hk) known

/-- Being told of an exception leaves the frame and the heap alone. -/
theorem tellTracer_heap (w : Watch) (event : TraceEvent) (s : Activation) :
    ∃ m, m.heap = s.machine.heap ∧ tellTracer w event s = .ok () ⟨s.frame, m⟩ := by
  unfold tellTracer
  split
  · exact ⟨{ s.machine with trace := s.machine.trace.push (s.frame.code.name, event) }, rfl, rfl⟩
  · exact ⟨s.machine, rfl, rfl⟩

theorem keeps_leaveBlocks (w : Watch) (p : Pending) :
    Keeps (freeWorld (lawWorld (tracebackLaw e))) (leaveBlocks w p) := by
  have left : Agrees (freeWorld (lawWorld (tracebackLaw e))) .left (leaveBlocks w p)
    (leaveBlocks w p) := Law.leaveBlocks_agrees w p
  exact left.left

theorem direct_adds (w : Watch) (known : s.machine.traceback? e = some T) :
    (finalState (direct w (.raise e true) s)).machine.traceback? e =
      some (T.push (s.frame.tracebackEntry s.machine.heap)) := by
  unfold direct
  dsimp only
  split
  · obtain ⟨m, same, told⟩ :=
      tellTracer_heap w (.exception (s.machine.heap.describe e)) s
    have looked : onMachine heap s = .ok s.machine.heap s := rfl
    rw [bind_apply, looked]
    dsimp only
    rw [bind_apply, told]
    dsimp only
    rw [← same]
    exact beginRaise_adds (s := ⟨s.frame, m⟩) (keeps_leaveBlocks w _) rfl
      ((Machine.traceback?_of_heap same).trans known)
  · exact beginRaise_adds (keeps_leaveBlocks w _) rfl known

theorem follow_adds (G : Graph) (known : s.machine.traceback? e = some T) :
    (finalState (Threaded.follow G (.raise e true) s)).machine.traceback? e =
      some (T.push (s.frame.tracebackEntry s.machine.heap)) := by
  have unwound : Agrees (freeWorld (lawWorld (tracebackLaw e))) .left
      (Threaded.unwindTo G (.exception e)) (Threaded.unwindTo G (.exception e)) :=
    Law.unwindTo_agrees G _
  exact beginRaise_adds unwound.left rfl known

theorem finalState_map (x : FrameExec α) (f : α → β) :
    finalState ((do return f (← x) : FrameExec β) s) = finalState (x s) := by
  rw [bind_apply]
  cases x s <;> rfl

/-- **What raising an exception adds to its traceback**: a fresh raise adds the frame as it
    stands, any other nothing. -/
theorem Stage.next_raised {p : Stage} (raised : p.flow? = some (.raise e fresh))
    (known : s.machine.traceback? e = some T) :
    (finalState (p.next g s)).machine.traceback? e =
      some (if fresh then T.push (s.frame.tracebackEntry s.machine.heap) else T) := by
  have stale (exc : Ref) (same : Flow.raise e false = .raise exc true) : False := by cases same
  cases p with
  | flow w out =>
    cases raised
    unfold next
    rw [finalState_map]
    cases fresh with
    | true => exact direct_adds w known
    | false =>
      have directed : Keeps (freeWorld (lawWorld (tracebackLaw e))) (direct w (.raise e false)) :=
        Law.keeps_direct (Law.HeapOnly.carried .never).endures w
          fun exc same => (stale exc same).elim
      exact directed s T known
  | way unit G out =>
    cases raised
    unfold next
    rw [finalState_map]
    cases fresh with
    | true => exact follow_adds G known
    | false =>
      have followed : Agrees (freeWorld (lawWorld (tracebackLaw e))) .left
          (Threaded.follow G (.raise e false)) (Threaded.follow G (.raise e false)) :=
        Law.follow_agrees G fun exc same => (stale exc same).elim
      exact followed.left s T known
  | _ => cases raised

/-! ## While the exception is not raised -/

/-- What may happen on the machine without the exception being raised. -/
inductive Passes (host : Host) (e : Ref) : Machine → Machine → Prop
  /-- what goes on beside frames leaves the exceptions alone that there are -/
  | beside {m m' : Machine} : m.heap.SameExceptions m'.heap → Passes host e m m'
  | call {m : Machine} (n : Nat) (callee : Value) (args : List Value)
      (kwargs : List (String × Value)) : Passes host e m (finalState ((sparing host e n).call callee args kwargs m))
  | run {m : Machine} (n : Nat) (entry : Entry) (f : Frame) :
      Passes host e m (finalState ((sparing host e n).run entry ⟨f, m⟩)).machine

/-- Any number of such things, one after another. -/
abbrev Meanwhile (host : Host) (e : Ref) : Machine → Machine → Prop :=
  Relation.ReflTransGen (Passes host e)

/-- The frame goes on from one stage to the next, and the exception is not raised meanwhile:
    neither is it what the frame is to unwind for, nor is the run stopped that looks out for
    it. -/
structure Goes (host : Host) (e : Ref) (p : Stage) (s : Activation) (q : Stage)
    (t : Activation) : Prop where
  quiet : p.raises e = false
  next : ∃ n, p.next (hosted host .never n) s = .ok q t
  spared : ∃ n, p.next (sparing host e n) s = .ok q t

/-- The frame runs code while the exception is kept back in it.  It may call other code,
    raise and handle other exceptions, and go from one tier to the next; a generator may
    also yield and be resumed. -/
inductive Clause (host : Host) (e : Ref) : Stage → Activation → Stage → Activation → Prop
  | done {p s} : Clause host e p s p s
  | next {p s q t r u} : Goes host e p s q t → Clause host e q t r u → Clause host e p s r u
  | resumed {v f m m' entry r u} : Meanwhile host e m m' →
      Clause host e (.first entry f m') ⟨f, m'.begun entry f⟩ r u →
      Clause host e (.left (.yield_ v)) ⟨f, m⟩ r u

theorem Passes.kept (hh : host.Edits Heap.KeepsExceptions) (h : Passes host e m m') :
    (tracebackLaw e).kept m m' := by
  have aligned (n : Nat) : Aligned (tracebackLaw e) .left (sparing host e n) (sparing host e n) :=
    sparing_aligned hh e n
  cases h with
  | beside same => exact tracebackLaw_kept same
  | call n callee args kwargs => exact ((aligned n).call callee args kwargs).left m
  | run n entry f => exact ((aligned n).run entry).left ⟨f, m⟩

theorem Meanwhile.kept (hh : host.Edits Heap.KeepsExceptions) (h : Meanwhile host e m m') :
    (tracebackLaw e).kept m m' := by
  induction h with
  | refl => exact (tracebackLaw e).kept_refl m
  | tail _ h ih => exact (tracebackLaw e).kept_trans ih (h.kept hh)

theorem Goes.kept (hh : host.Edits Heap.KeepsExceptions) {p q : Stage} (h : Goes host e p s q t) :
    (tracebackLaw e).kept s.machine t.machine := by
  obtain ⟨n, next⟩ := h.spared
  have aligned : Aligned (tracebackLaw e) .left (sparing host e n) (sparing host e n) :=
    sparing_aligned hh e n
  have kept := Stage.keeps_next aligned h.quiet s
  rw [next] at kept
  exact kept

/-- A clause leaves the traceback alone. -/
theorem Clause.kept (hh : host.Edits Heap.KeepsExceptions) {p q : Stage}
    (h : Clause host e p s q t) : (tracebackLaw e).kept s.machine t.machine := by
  induction h with
  | done => exact (tracebackLaw e).kept_refl _
  | next goes _ ih => exact (tracebackLaw e).kept_trans (goes.kept hh) ih
  | resumed meanwhile _ ih =>
    have begun := (Law.HeapOnly.carried (L := tracebackLaw e) .never).endures.begun
    exact (tracebackLaw e).kept_trans (meanwhile.kept hh)
      ((tracebackLaw e).kept_trans (begun _ _ _) ih)

/-! ## Leaving a frame -/

/-- The exception, which is raised at a stage, leaves the frame.  On its way out it may cross
    blocks whose clauses run until they take it up again: to the end of the clause, or to a
    bare `raise`. -/
inductive Escapes (host : Host) (e : Ref) : Stage → Activation → Machine → Prop
  | leaves {p s n t} : p.raises e → p.next (hosted host .never n) s = .error (.raised e) t →
      Escapes host e p s t.machine
  | crosses {p s n q t r u r' v m} : p.raises e → p.next (hosted host .never n) s = .ok q t →
      Clause host e q t r u → r.TakesUp e u → Goes host e r u r' v → r'.raises e →
      Escapes host e r' v m → Escapes host e p s m

theorem Stage.raises_iff {p : Stage} :
    p.raises e ↔ ∃ fresh, p.flow? = some (.raise e fresh) := by
  unfold raises
  split
  · rename_i exc fresh raised
    rw [raised, beq_iff_eq]
    exact ⟨fun same => ⟨fresh, by rw [same]⟩, fun ⟨_, same⟩ => by cases same; rfl⟩
  · rename_i other
    exact ⟨nofun, fun ⟨fresh, raised⟩ => absurd raised (other e fresh)⟩

/-- What is taken up again is not raised freshly. -/
theorem Stage.TakesUp.stale {p q : Stage} (again : p.TakesUp e s) (h : p.next g s = .ok q t)
    (known : e < s.machine.heap.exceptions.size) (raised : q.flow? = some (.raise e fresh)) :
    fresh = false := by
  obtain ⟨site, prim, runs, taken⟩ := again
  obtain ⟨thrown, -, -⟩ | ⟨site', prim', runs', tells, -⟩ := raised_cases h raised
  · cases p with
    | enter | native => cases runs
    | _ => cases thrown
  · obtain ⟨rfl, rfl⟩ := Prod.mk.inj (Option.some.inj (runs.symm.trans runs'))
    exact tells.again taken known

/-- **Leaving a frame** adds to the traceback what the raise adds that it begins with. -/
theorem Escapes.traceback (hh : host.Edits Heap.KeepsExceptions) {p : Stage}
    (h : Escapes host e p s m) : ∀ {fresh T}, p.flow? = some (.raise e fresh) →
      s.machine.traceback? e = some T → m.traceback? e =
        some (if fresh then T.push (s.frame.tracebackEntry s.machine.heap) else T) := by
  induction h with
  | @leaves p s n t _ left =>
    intro fresh T raised known
    have added := Stage.next_raised (g := hosted host .never n) raised known
    rwa [left] at added
  | @crosses p s n q t r u r' v m _ next clause again goes raises _ ih =>
    intro fresh T raised known
    have added := Stage.next_raised (g := hosted host .never n) raised known
    rw [next] at added
    have kept := clause.kept hh _ added
    obtain ⟨fresh', raised'⟩ := Stage.raises_iff.mp raises
    obtain ⟨n', onward⟩ := goes.next
    obtain rfl := again.stale onward (Machine.lt_size_of_traceback? kept) raised'
    exact ih raised' (goes.kept hh _ kept)

/-! ## Chains of frames -/

/-- Where an exception arrived in a frame: the instruction, and the frame and the machine at
    that moment. -/
structure Arrival where
  ip : Nat
  state : Activation

/-- What a traceback says of it. -/
def Arrival.entry (a : Arrival) : TracebackEntry where
  function := a.state.frame.code.name
  line := a.state.frame.code.lineFor a.ip
  lasti := a.ip
  locals := a.state.frame.snapshot a.state.machine.heap

/-- The exception, which had no traceback, was raised in a frame and left it, arrived in the
    frame that had called that, left it, and so on: where it arrived, the innermost frame
    first, and the machine that it left behind. -/
inductive Chain (us : Array CodeUnit) (host : Host) (e : Ref) : List Arrival → Machine → Prop
  | innermost {n ip p s m} : ArrivesAt us (hosted host .never n) e ip p s →
      s.machine.traceback? e = some #[] → Escapes host e p s m → Chain us host e [⟨ip, s⟩] m
  | outer {as m n ip p s m'} : Chain us host e as m → Meanwhile host e m s.machine →
      ArrivesAt us (hosted host .never n) e ip p s → Escapes host e p s m' →
      Chain us host e (as ++ [⟨ip, s⟩]) m'

/-- A frame that an exception leaves adds the entry of where it arrived. -/
theorem Escapes.adds (hu : Built us) (hh : host.Edits Heap.KeepsExceptions) {n ip : Nat} {p : Stage}
    (arrives : ArrivesAt us (hosted host .never n) e ip p s) (h : Escapes host e p s m)
    (known : s.machine.traceback? e = some T) :
    m.traceback? e = some (T.push (Arrival.entry ⟨ip, s⟩)) := by
  obtain ⟨raised, position⟩ := arrives.reported hu
  have entry : s.frame.tracebackEntry s.machine.heap = Arrival.entry ⟨ip, s⟩ := by
    unfold Frame.tracebackEntry Frame.line
    rw [position]
    rfl
  rw [h.traceback hh raised known, if_pos rfl, entry]

/-- **Tracebacks are exact.**  Whenever an exception has left a chain of frames, each in
    whichever tier, its traceback has exactly one entry for each of them, the innermost
    first, which says where it arrived in the frame, and what the variables were then. -/
theorem Chain.traceback_exact (hu : Built us) (hh : host.Edits Heap.KeepsExceptions)
    {as : List Arrival} (h : Chain us host e as m) :
    ∀ m', Meanwhile host e m m' → m'.traceback? e = some (as.map (·.entry)).toArray := by
  induction h with
  | innermost arrives untraced escapes =>
    exact fun m' later => later.kept hh _ (escapes.adds hu hh arrives untraced)
  | @outer as m n ip p s m'' _ before arrives escapes ih =>
    intro m' later
    rw [List.map_append, List.map_singleton, ← List.push_toArray]
    exact later.kept hh _ (escapes.adds hu hh arrives (ih _ before))

/-! ### A clause that unbinds a variable -/

namespace Stage

/-- Whether the frame minds its own affairs next, and the exception is not raised. -/
def isOwn (e : Ref) (p : Stage) : Bool :=
  !p.raises e && match p with
    | step _ | flow _ _ | prims _ _ _ [] => true
    | prims _ _ _ (prim :: _) => prim.op == .endFinally || prim.op == .deleteFast
    | _ => false

theorem next_of_own {p : Stage} (h : p.isOwn e) (g g' : Guest) : p.next g = p.next g' := by
  obtain ⟨-, h⟩ := (Bool.and_eq_true _ _).mp h
  cases p with
  | step | flow => rfl
  | prims w ip k ps =>
    cases ps with
    | nil => rfl
    | cons prim ps =>
      have same : Primitive.run g ⟨ip, k⟩ w.recording prim =
          Primitive.run g' ⟨ip, k⟩ w.recording prim := by
        obtain ⟨op, arg⟩ := prim
        simp only [Bool.or_eq_true, beq_iff_eq] at h
        obtain rfl | rfl := h
        · rfl
        · cases arg <;> rfl
      simp only [next, same]
  | _ => cases h

/-- Whether the frame goes on from a stage. -/
def goesOn (g : Guest) (x : Stage × Activation) : Bool :=
  match x.1.next g x.2 with
  | .ok _ _ => true
  | .error _ _ => false

/-- Where it goes on, if it does. -/
def onward (g : Guest) (x : Stage × Activation) : Stage × Activation :=
  match x.1.next g x.2 with
  | .ok q t => (q, t)
  | .error _ _ => x

theorem next_onward {x : Stage × Activation} (h : goesOn g x) :
    x.1.next g x.2 = .ok (onward g x).1 (onward g x).2 := by
  unfold goesOn at h
  unfold onward
  split at h
  · rename_i next
    simp only [next]
  · cases h

/-- Whether the frame fails with the exception. -/
def fails (g : Guest) (e : Ref) (x : Stage × Activation) : Bool :=
  match x.1.next g x.2 with
  | .error (.raised exc) _ => exc == e
  | _ => false

theorem next_of_fails {x : Stage × Activation} (h : fails g e x) :
    x.1.next g x.2 = .error (.raised e) (finalState (x.1.next g x.2)) := by
  unfold fails at h
  split at h
  · rename_i exc t next
    rw [beq_iff_eq] at h
    rw [next, h]
    rfl
  · cases h

end Stage

theorem Goes.own {x : Stage × Activation} (own : x.1.isOwn e) (h : Stage.goesOn g x) :
    Goes host e x.1 x.2 (Stage.onward g x).1 (Stage.onward g x).2 where
  quiet := by simpa using ((Bool.and_eq_true _ _).mp own).1
  next := ⟨0, (congrFun (Stage.next_of_own own _ g) x.2).trans (Stage.next_onward h)⟩
  spared := ⟨0, (congrFun (Stage.next_of_own own _ g) x.2).trans (Stage.next_onward h)⟩

/-- The parts of a unit that raises its argument, and unbinds it on the way out. -/
def CodeParts.keeper : CodeParts where
  name := "keeper"
  argcount := 1
  firstLine := 7
  words := #[.ofOpcode .setupFinally, ⟨9⟩, .ofOpcode .loadFast, ⟨1⟩, .ofOpcode .raiseVarargs, ⟨3⟩,
    .ofOpcode .deleteFast, ⟨1⟩, .ofOpcode .endFinally, .ofOpcode .loadConst, ⟨1⟩,
    .ofOpcode .returnValue]
  consts := #[.none]
  varnames := #["e"]

/-- The parts of a unit that calls its first argument on the second. -/
def CodeParts.relay : CodeParts where
  name := "relay"
  argcount := 2
  firstLine := 3
  words := #[.ofOpcode .loadFast, ⟨1⟩, .ofOpcode .loadFast, ⟨3⟩, .ofOpcode .callFunction, ⟨3⟩,
    .ofOpcode .returnValue]
  varnames := #["f", "e"]

/-- The units with these parts. -/
def CodeUnit.relay : CodeUnit := (CodeUnit.ofParts 0 .relay).toOption.getD default

@[inherit_doc CodeUnit.relay]
def CodeUnit.keeper : CodeUnit := (CodeUnit.ofParts 1 .keeper).toOption.getD default

theorem built_relay : Built #[.relay, .keeper] where
  parts r u h := by
    match r with
    | 0 =>
      cases h
      exact ⟨.relay, eq_ok_of_isSome (by decide +kernel)⟩
    | 1 =>
      cases h
      exact ⟨.keeper, eq_ok_of_isSome (by decide +kernel)⟩
    | r + 2 => cases h

/-- A machine with a function over each unit and an exception, which has run nothing. -/
def Machine.relay : Machine where
  config := {}
  heap := { units := #[.relay, .keeper], namespaces := #[{}, {}]
            exceptions := #[{ kind := .valueError, args := #[] }]
            functions := #[{ name := "relay", code := 0, globals := 0 },
              { name := "keeper", code := 1, globals := 0 }] }
  units := #[{}, {}]
  globals := 0
  builtins := 1
  bailError := false
  control := .whenHot
  timer := .new 1 false

theorem Machine.valid_relay : Machine.relay.Valid #[.relay, .keeper] where
  units := rfl
  functions := by
    have all : ∀ func ∈ Machine.relay.heap.functions.toList,
      func.closure.size = (unitAt #[.relay, .keeper] func.code).freevars.size := by decide +kernel
    exact fun func h => all func (Array.mem_toList_iff.mpr h)
  generators _ h := absurd h (Array.not_mem_empty _)
  native r n h := by
    match r with
    | 0 | 1 | r + 2 => cases h

/-- The frame of a call. -/
def Frame.relay : Frame where
  code := .relay
  globals := 0
  builtins := 1
  locals := #[some (.function 1), some (.exception 0)]
  cells := #[]

/-- The frame of the call that it makes. -/
def Frame.keeper : Frame where
  code := .keeper
  globals := 0
  builtins := 1
  locals := #[some (.exception 0)]
  cells := #[]

deriving instance DecidableEq for ExceptionObj

/-- Where a call over the machine begins. -/
def Frame.opening (f : Frame) : Stage × Activation :=
  (.first .call f .relay, ⟨f, Machine.relay.begun .call f⟩)

/-- The engine that the calls are made on. -/
abbrev Guest.small : Guest := hosted .idle .never 12

/-- Where the frame is so many steps on. -/
def Frame.after (f : Frame) : Nat → Stage × Activation
  | 0 => f.opening
  | n + 1 => Stage.onward .small (f.after n)

theorem Frame.comes (f : Frame) : ∀ n, (∀ k < n, Stage.goesOn .small (f.after k)) →
    Comes #[.relay, .keeper] .small (f.after n).1 (f.after n).2
  | 0, _ => .first Machine.valid_relay
  | n + 1, h => .next (f.comes n fun k hk => h k (Nat.lt_succ_of_lt hk))
      (Stage.next_onward (h n (Nat.lt_succ_self n)))

theorem Frame.clause (f : Frame) : ∀ n k, (∀ j < n, (f.after (k + j)).1.isOwn e ∧
    Stage.goesOn .small (f.after (k + j))) →
    Clause host e (f.after k).1 (f.after k).2 (f.after (k + n)).1 (f.after (k + n)).2
  | 0, _, _ => .done
  | n + 1, k, h => by
    have rest := f.clause n (k + 1) fun j hj => by
      rw [Nat.add_right_comm]
      exact h (j + 1) (Nat.succ_lt_succ hj)
    rw [Nat.add_right_comm] at rest
    obtain ⟨own, goes⟩ := h 0 (Nat.succ_pos n)
    exact .next (.own own goes) rest

/-- The machine that the frame leaves behind when it fails. -/
def Frame.leaving (f : Frame) (n : Nat) : Machine :=
  (finalState ((f.after n).1.next .small (f.after n).2)).machine

theorem Frame.keeper_chain :
    Chain #[.relay, .keeper] .idle 0 [⟨4, (keeper.after 11).2⟩] (keeper.leaving 18) := by
  have arrives : ArrivesAt #[.relay, .keeper] .small 0 4 (keeper.after 11).1
      (keeper.after 11).2 := by
    have runs : (keeper.after 10).1.primitive? = some (⟨4, 0⟩, ⟨.raiseVarargs, some 1⟩) := by
      decide +kernel
    have raised : (keeper.after 11).1.flow? = some (.raise 0 true) := by decide +kernel
    exact .raised (keeper.comes 10 (by decide +kernel)) runs rfl
      (by rintro (⟨other, -⟩ | ⟨other, -⟩) <;> cases other)
      (Stage.next_onward (by decide +kernel)) raised
  have ended : (keeper.after 17).1.TakesUp 0 (keeper.after 17).2 :=
    ⟨⟨8, 0⟩, ⟨.endFinally, none⟩, by decide +kernel, .inl ⟨rfl, by decide +kernel⟩⟩
  have leaves : Escapes .idle 0 (keeper.after 18).1 (keeper.after 18).2 (keeper.leaving 18) :=
    .leaves (by decide +kernel) (Stage.next_of_fails (by decide +kernel))
  refine .innermost arrives (by decide +kernel) (.crosses (by decide +kernel)
    (Stage.next_onward (x := keeper.after 11) (by decide +kernel))
    (keeper.clause 5 12 (by decide +kernel)) ended
    (Goes.own (g := .small) (x := keeper.after 17) (by decide +kernel) (by decide +kernel))
    (by decide +kernel) leaves)

theorem Frame.relay_chain :
    Chain #[.relay, .keeper] .idle 0 [⟨4, (keeper.after 11).2⟩, ⟨4, (relay.after 11).2⟩]
      (relay.leaving 11) := by
  have same : (relay.after 11).2.machine.heap.exceptions = (keeper.leaving 18).heap.exceptions := by
    decide +kernel
  have meanwhile : Meanwhile .idle 0 (keeper.leaving 18) (relay.after 11).2.machine :=
    .single (.beside fun i _ => by rw [same])
  have arrives : ArrivesAt #[.relay, .keeper] .small 0 4 (relay.after 11).1
      (relay.after 11).2 := by
    have runs : (relay.after 10).1.primitive? = some (⟨4, 0⟩, ⟨.callFunction, some 1⟩) := by
      decide +kernel
    have raised : (relay.after 11).1.flow? = some (.raise 0 true) := by decide +kernel
    exact .raised (relay.comes 10 (by decide +kernel)) runs rfl
      (by rintro (⟨other, -⟩ | ⟨other, -⟩) <;> cases other)
      (Stage.next_onward (by decide +kernel)) raised
  exact .outer keeper_chain meanwhile arrives
    (.leaves (by decide +kernel) (Stage.next_of_fails (by decide +kernel)))

/-- The traceback tells of the variable that the clause unbound. -/
theorem Chain.traceback_exact_of_relay :
    Built #[.relay, .keeper] ∧ Host.idle.Edits Heap.KeepsExceptions ∧
    Chain #[.relay, .keeper] .idle 0 [⟨4, (Frame.keeper.after 11).2⟩, ⟨4, (Frame.relay.after 11).2⟩]
      (Frame.relay.leaving 11) ∧
    (Frame.relay.leaving 11).traceback? 0 = some #[⟨"keeper", 7, 4, [("e", .exception 0)]⟩,
      ⟨"relay", 3, 4, [("f", .function 1), ("e", .exception 0)]⟩] := by
  have edits : Host.idle.Edits Heap.KeepsExceptions := nofun
  refine ⟨built_relay, edits, Frame.relay_chain, ?_⟩
  rw [Chain.traceback_exact built_relay edits Frame.relay_chain _ .refl]
  decide +kernel

end TieredMachine
