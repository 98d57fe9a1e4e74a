/-
  What upholds a law.

  Running code concerns the tier state and the records in a few ways: a backward jump is
  counted, a run of a frame begins, which may count an activation and compile its unit, a
  bail is counted, and a knob is turned.  A law is *carried* when it puts up with all of
  these, as long as an alarm that watches the run does not go off.  A law that is about
  tiers only is carried when it is *upheld*.

  * `Moment.turned?`, `Machine.activate`, `Machine.begun`: the moments that concern tiers;
  * `Law.Lasts`, `Law.Upheld`: what a law that is about tiers only puts up with;
  * `Law.Endures`, `Law.Carried`: what any law does;
  * `Aligned`: engines that agree under a law, on calls and on runs of frames;
  * `Law.ResumesAlike`: engines that agree on resumed generators, as they do under a law
    that says nothing of the heap.
-/
import TieredMachine.Engine.Host
import TieredMachine.Proofs.Host.Law

namespace TieredMachine

/-! ## What concerns tiers -/

/-- The knob that concerns the tier of a unit and is turned at a moment, by the host or
    by guest code. -/
def Moment.turned? (m : Machine) : Moment → Option Knob
  | turn k => some k
  | call (.builtin r) args [] =>
    match m.heap.builtin r, args with
    | .setLevel, [.function f, .int n] => some (.setLevel (m.heap.function f).code n.toInt)
    | .resetTier, args => (args.head?.bind (BuiltinFn.unitOf? m.heap)).map .resetTier
    | _, _ => none
  | _ => none

/-- The machine after an activation of a unit was counted, and the unit compiled if that
    was due. -/
def Machine.activate (m : Machine) (unit globals : Ref) : Machine :=
  ((m.record .callStartEval).mapProfile unit (·.recordEntry)).promote unit globals

theorem countEntry_eq (unit globals : Ref) :
    countEntry unit globals = modify (·.activate unit globals) := rfl

/-- The machine in which a frame is run: an activation is counted. -/
def Law.entered (entry : Entry) (f : Frame) (m : Machine) : Machine :=
  if entry.isCall then m.activate f.code.id f.globals else m

namespace Machine

/-- The machine after a run of a frame in the interpreter has begun. -/
def beginEval (entry : Entry) (m : Machine) : Machine :=
  if entry.isCall then
    (m.record .callEnterEval).mapStats fun s => { s with interpretedRuns := s.interpretedRuns + 1 }
  else m

/-- The machine after a run of a frame in native code has begun. -/
def beginNative (entry : Entry) (m : Machine) : Machine :=
  (if entry.isCall then m.record .callEnterNative else m).mapStats fun s =>
    { s with nativeRuns := s.nativeRuns + 1 }

/-- The machine after a run of a frame has begun, in whichever tier is in force. -/
def begun (entry : Entry) (f : Frame) (m : Machine) : Machine :=
  let m := Law.entered entry f m
  match (m.profile f.code.id).runnable? with
  | none => m.beginEval entry
  | some _ =>
    if m.tracing then (m.bail f.code.id .traceOnEntry).beginEval entry
    else m.beginNative entry

theorem sameTiers_beginEval (entry : Entry) (m : Machine) : m.SameTiers (m.beginEval entry) := by
  unfold beginEval
  split
  · exact .of rfl rfl rfl rfl
  · exact .refl m

theorem sameTiers_beginNative (entry : Entry) (m : Machine) :
    m.SameTiers (m.beginNative entry) := by
  unfold beginNative
  split <;> exact .of rfl rfl rfl rfl

end Machine

namespace Law

variable (L : Law)

/-- What a machine has in common with later ones lasts, unless the alarm goes off. -/
structure Lasts (b : Alarm) : Prop where
  backedge : ∀ m unit weight, L.kept m (m.mapProfile unit (·.recordBackedge weight))
  activate : ∀ m unit globals, L.kept m (m.activate unit globals)
  bail : ∀ m unit reason, L.kept m (m.bail unit reason)
  turn : ∀ {m x k}, x.turned? m = some k → b x m = false → L.kept m (k.turn m).2

/-- The law stands whatever happens while the alarm `a` does not go off.  A run with the
    alarm `b` goes on longer, and only after an activation with which the law is
    over. -/
structure Upheld (a b : Alarm) : Prop where
  lasts : L.Lasts b
  le : ∀ {x m}, b x m = true → a x m = true
  ahead : ∀ {x m}, L.holds m → a x m = true → b x m = false →
    ∃ f, x = .run .call f ∧ L.past (m.activate f.code.id f.globals)
  backedge : ∀ {m} unit, L.holds m →
    L.Stands (m.mapProfile unit (·.recordBackedge (.ofNat L.config.backedgeWeight)))
  activate : ∀ {m f}, L.holds m → a (.run .call f) m = false →
    L.Stands (m.activate f.code.id f.globals)
  /-- a bail from native code that was entered in a machine before -/
  bail : ∀ {m m' unit n} reason, L.holds m → (m.profile unit).runnable? = some n →
    L.kept m m' → L.holds m' → L.Stands (m'.bail unit reason)
  turn : ∀ {m x k}, x.turned? m = some k → L.holds m → a x m = false → L.Stands (k.turn m).2

/-- What a machine has in common with later ones lasts, unless the alarm goes off. -/
structure Endures (b : Alarm) : Prop where
  backedge : ∀ m unit weight, L.kept m (m.mapProfile unit (·.recordBackedge weight))
  begun : ∀ m entry f, L.kept m (m.begun entry f)
  bail : ∀ m unit reason, L.kept m (m.bail unit reason)
  turn : ∀ {m x k}, x.turned? m = some k → b x m = false → L.kept m (k.turn m).2

/-- The law stands whatever happens while the alarm `a` does not go off.  A run with the
    alarm `b` goes on longer, and only into a run of a frame with whose beginning the law
    is over. -/
structure Carried (a b : Alarm) : Prop where
  endures : L.Endures b
  le : ∀ {x m}, b x m = true → a x m = true
  ahead : ∀ {x m}, L.holds m → a x m = true → b x m = false →
    ∃ entry f, x = .run entry f ∧ L.past (m.begun entry f)
  backedge : ∀ {m} unit, L.holds m →
    L.Stands (m.mapProfile unit (·.recordBackedge (.ofNat L.config.backedgeWeight)))
  begun : ∀ {m entry f}, L.holds m → a (.run entry f) m = false → L.Stands (m.begun entry f)
  /-- a bail from native code that was entered in a machine before -/
  bail : ∀ {m m' unit n} reason, L.holds m → (m.profile unit).runnable? = some n →
    L.kept m m' → L.holds m' → L.Stands (m'.bail unit reason)
  turn : ∀ {m x k}, x.turned? m = some k → L.holds m → a x m = false → L.Stands (k.turn m).2

variable {L} [L.TierOnly] {a b : Alarm}

theorem Lasts.begun (h : L.Lasts b) (m : Machine) (entry : Entry) (f : Frame) :
    L.kept (entered entry f m) (m.begun entry f) := by
  unfold Machine.begun
  dsimp only
  split
  · exact TierOnly.kept_of_same (Machine.sameTiers_beginEval entry _)
  · split
    · exact L.kept_trans (h.bail _ _ _)
        (TierOnly.kept_of_same (Machine.sameTiers_beginEval entry _))
    · exact TierOnly.kept_of_same (Machine.sameTiers_beginNative entry _)

/-- What lasts of a law that is about tiers only. -/
theorem Lasts.endures (h : L.Lasts b) : L.Endures b where
  backedge := h.backedge
  bail := h.bail
  turn := h.turn
  begun m entry f := by
    refine L.kept_trans ?_ (h.begun m entry f)
    unfold entered
    split
    · exact h.activate m _ _
    · exact L.kept_refl m

/-- A law that is about tiers only is carried when it is upheld. -/
theorem Upheld.carried (h : L.Upheld a b) : L.Carried a b where
  endures := h.lasts.endures
  le := h.le
  backedge := h.backedge
  bail := h.bail
  turn := h.turn
  ahead {x m} hm ha hb := by
    obtain ⟨f, rfl, past⟩ := h.ahead hm ha hb
    exact ⟨.call, f, rfl, L.past_of_kept (h.lasts.begun m .call f) past⟩
  begun {m entry f} hm ha := by
    have stands : L.Stands (entered entry f m) := by
      unfold entered
      split
      · rename_i call
        obtain rfl : entry = .call := by simpa [Entry.isCall] using call
        exact h.activate hm ha
      · exact .inl hm
    obtain holds | past := stands
    · unfold Machine.begun
      dsimp only
      split
      · exact (Bears.same (Machine.sameTiers_beginEval entry _)).stands holds
      · rename_i n hn
        split
        · obtain bailed | past := h.bail .traceOnEntry holds hn (L.kept_refl _) holds
          · exact (Bears.same (Machine.sameTiers_beginEval entry _)).stands bailed
          · exact .inr (L.past_of_kept
              (TierOnly.kept_of_same (Machine.sameTiers_beginEval entry _)) past)
        · exact (Bears.same (Machine.sameTiers_beginNative entry _)).stands holds
    · exact .inr (L.past_of_kept (h.lasts.begun m entry f) past)

end Law

/-! ## Engines under a law -/

/-- Engines that agree under a law on runs of frames. -/
abbrev Law.RunsAlike (L : Law) (side : Side) (g g' : Guest) : Prop :=
  ∀ entry, Agrees (freeWorld (lawWorld L)) side (g.run entry) (g'.run entry)

/-- Engines that agree under a law on calls, resumed generators, runs of frames and looks
    for requests. -/
structure Aligned (L : Law) (side : Side) (g g' : Guest) : Prop where
  fuel : g.fuel = g'.fuel
  call : ∀ callee args kwargs, Agrees (lawWorld L) side (g.call callee args kwargs)
    (g'.call callee args kwargs)
  resume : ∀ r how, Agrees (lawWorld L) side (resumeGenerator g r how) (resumeGenerator g' r how)
  close : ∀ r, Agrees (lawWorld L) side (closeGenerator g r) (closeGenerator g' r)
  run : L.RunsAlike side g g'
  poll : ∀ kind, Agrees (lawWorld L) side (g.poll kind) (g'.poll kind)

/-- Engines that agree under a law on resumed and closed generators. -/
structure Law.ResumesAlike (L : Law) (side : Side) (g g' : Guest) : Prop where
  resume : ∀ r how,
    Agrees (lawWorld L) side (resumeGenerator g r how) (resumeGenerator g' r how)
  close : ∀ r, Agrees (lawWorld L) side (closeGenerator g r) (closeGenerator g' r)

section

variable {L : Law} [L.Steady] {side : Side} {g g' : Guest} {r : Ref}

/-- Engines that agree on runs of frames agree on running the frame of a generator whose
    record the law lets change. -/
theorem Law.runGenerator_agrees (hg : L.RunsAlike side g g')
    (change : ∀ f, Agrees (lawWorld L) side (modifyGenerator r f) (modifyGenerator r f))
    (entry : Entry) (f : Frame) :
    Agrees (lawWorld L) side (runGenerator g r entry f) (runGenerator g' r entry f) := by
  have ended : Agrees (lawWorld L) side (endGenerator r) (endGenerator r) := change _
  have run : Agrees (lawWorld L) side
      (tryCatch (TieredMachine.nested ((g.run entry).within f)) fun fault => do
        endGenerator r
        throw fault)
      (tryCatch (TieredMachine.nested ((g'.run entry).within f)) fun fault => do
        endGenerator r
        throw fault) :=
    (Law.nested ((hg entry).within f)).handle (fun e => ended.left.bind fun _ => .throw e)
      (fun e => ended.right.bind fun _ => .throw e)
      (fun e _ _ ht => (ended.andThen fun _ => .fail e).agree ht)
      (fun _ => ⟨_, rfl⟩) (fun _ => ⟨_, rfl⟩)
  refine (change _).andThen fun _ => run.andThen fun p => ?_
  obtain ⟨exit, f⟩ := p
  cases exit with
  | yield_ v => exact (change _).andThen fun _ => .ret v
  | return_ _ => exact ended.andThen fun _ => .of (raiseWith_agrees _ _)

theorem Law.resumeGenerator_agrees (hg : L.RunsAlike side g g')
    (change : ∀ f, Agrees (lawWorld L) side (modifyGenerator r f) (modifyGenerator r f))
    (how : Resumption) :
    Agrees (lawWorld L) side (resumeGenerator g r how) (resumeGenerator g' r how) := by
  refine heap_agrees.andThen fun h => ?_
  dsimp only
  split
  · exact .of alreadyExecuting_agrees
  · split
    · exact .of (resumeEnded_agrees how)
    · split
      · exact .of (typeError_agrees _)
      · exact Law.runGenerator_agrees hg change _ _

/-- Under a law that says nothing of the heap this is so for all generators. -/
theorem Law.RunsAlike.resumes [L.Heapless] (hg : L.RunsAlike side g g') :
    L.ResumesAlike side g g' where
  resume _ := Law.resumeGenerator_agrees hg fun _ => L.editHeap _
  close r := .of (closeGenerator_agrees r (L.editHeap _)
    (Law.resumeGenerator_agrees hg fun _ => L.editHeap _))

end

namespace Aligned

variable {L : Law} {side : Side} {g g' : Guest}

/-- Engines that agree on calls, on runs of frames and hence on resumed generators. -/
theorem of (resumes : L.RunsAlike side g g' → L.ResumesAlike side g g') (fuel : g.fuel = g'.fuel)
    (call : ∀ callee args kwargs, Agrees (lawWorld L) side (g.call callee args kwargs)
      (g'.call callee args kwargs))
    (run : L.RunsAlike side g g') (poll : ∀ kind, Agrees (lawWorld L) side (g.poll kind) (g'.poll kind)) :
    Aligned L side g g' :=
  ⟨fuel, call, (resumes run).resume, (resumes run).close, run, poll⟩

theorem serves (hg : Aligned L side g g') : Serves ((lawWorld L).agreement side) g g' :=
  ⟨.inl hg.fuel, hg.call, hg.resume, hg.close⟩

/-! ### Calls -/

theorem onNew_agrees (hg : Aligned L side g g') (f : Frame) :
    Agrees (lawWorld L) side ((g.run .call).onNew f) ((g'.run .call).onNew f) :=
  ((hg.run .call).within f).andThen fun _ => .ret _

variable [L.Eventful]

theorem callGuest_agrees (hg : Aligned L side g g') (func : Function) (args : List Value)
    (kwargs : List (String × Value)) :
    Agrees (lawWorld L) side (callGuest g func args kwargs) (callGuest g' func args kwargs) := by
  refine (frameFor_agrees func args kwargs).andThen fun f => ?_
  split
  · exact L.answer_agrees fun m => Law.Eventful.newGenerator m _ _
  · refine (Law.nested (hg.onNew_agrees f)).andThen fun exit => ?_
    cases exit with
    | return_ v => exact .ret v
    | yield_ _ => exact .fail _

theorem moduleOn_agrees (hg : Aligned L side g g') (unit : Ref) :
    Agrees (lawWorld L) side (moduleOn g unit) (moduleOn g' unit) := by
  refine .read fun m => (Agrees.of (newFrame_agrees _ _)).andThen fun f => ?_
  refine (Law.nested (hg.onNew_agrees f)).andThen fun exit => ?_
  cases exit with
  | return_ v => exact .ret v
  | yield_ _ => exact .fail _

omit [L.Eventful] in
/-- Looking at the tier of a unit agrees. -/
theorem tierOf_agrees (args : List Value) :
    Agrees (lawWorld L) side (BuiltinFn.tierOf args) (BuiltinFn.tierOf args) := by
  refine .read fun m => ?_
  split
  · exact .ret _
  · exact .ret _

theorem setBailErrorTo_agrees (args : List Value) :
    Agrees (lawWorld L) side (BuiltinFn.setBailErrorTo args) (BuiltinFn.setBailErrorTo args) :=
  (Agrees.of (truthOf_agrees _)).andThen fun on =>
    (L.aside_agrees (f := fun m => { m with bailError := on })
      fun _ => .of (.of rfl rfl rfl rfl) rfl rfl rfl).andThen fun _ => .ret _

/-- A call agrees when it turns no knob that concerns a unit. -/
theorem callIn_agrees (hg : Aligned L side g g') (h : Heap) (callee : Value) (args : List Value)
    (kwargs : List (String × Value))
    (calm : ∀ r, callee = .builtin r → h.builtin r ≠ .setLevel ∧ h.builtin r ≠ .resetTier) :
    Agrees (lawWorld L) side (callIn g h callee args kwargs)
      (callIn g' h callee args kwargs) := by
  refine TieredMachine.callIn_agrees hg.serves (.refl h) callee args kwargs
    (fun _ _ => hg.callGuest_agrees _ args kwargs) fun r hr => ?_
  obtain ⟨level, reset⟩ := calm r hr
  by_cases tier : h.builtin r = .tier
  · rw [tier]
    exact tierOf_agrees args
  by_cases bail : h.builtin r = .setBailError
  · rw [bail]
    exact setBailErrorTo_agrees args
  refine BuiltinFn.run_agrees hg.serves args ?_ reset
  unfold BuiltinFn.isTierAware
  split
  · exact absurd ‹_› level
  · exact absurd ‹_› tier
  · exact absurd ‹_› bail
  · rfl

end Aligned

end TieredMachine
