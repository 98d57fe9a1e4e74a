/-
  Calls keep machines valid.

  The frame of a call has the tables of its unit, and stands at its start.  A suspended
  frame rests, so a generator may be given it back.  With an engine that keeps machines
  valid, calls of all values, resumed generators and runs of modules do so too.

  * `Safe.andThenOf`, `Guides.within_safe`: what is known of an answer;
  * `frameFor_rests`: the frame of a call;
  * `Guest.Valid`: engines that keep machines valid;
  * `Guest.Valid.safe`, `callWith_safe`, `moduleOn_safe`: the ways of running code.
-/
import TieredMachine.Proofs.Safety.Builtin
import TieredMachine.Proofs.Safety.Interpreter
import TieredMachine.Proofs.Host.Plain

namespace TieredMachine

section

variable {R : Regime} {α β : Type} {P : Frame → Prop} {Q : α → Frame → Prop}
  {E : Fault → Frame → Prop}

/-! ## What is known of an answer -/

/-- What follows may rely on what is known of the answer. -/
theorem Safe.andThenOf {x : Exec α} {k : α → Exec β} (S : α → Prop) (hx : Safe R x)
    (hS : ∀ m a t, R.holds m → x m = .ok a t → S a) (hk : ∀ a, S a → Safe R (k a)) :
    Safe R (x >>= k) := by
  intro m hm
  have h := hx m hm
  rw [bind_apply]
  cases hr : x m with
  | ok a t =>
    rw [hr] at h
    exact hk a (hS m a t hm hr) t h
  | error e t =>
    rw [hr] at h
    exact h

/-- A look at a machine that is as the regime wants it. -/
theorem Safe.lookThen {k : Machine → Exec α} (hk : ∀ m, R.holds m → Safe R (k m)) :
    Safe R (get >>= k) :=
  fun m hm => hk m hm m hm

theorem Safe.heapThen {k : Heap → Exec α} (hk : ∀ m, R.holds m → Safe R (k m.heap)) :
    Safe R (heap >>= k) :=
  fun m hm => hk m hm m hm

theorem Safe.forM {f : α → Exec Unit} (hf : ∀ a, Safe R (f a)) (as : List α) :
    Safe R (as.forM f) := by
  induction as with
  | nil => exact .ret ()
  | cons a as ih => exact (hf a).andThen fun _ => ih

/-- A run of a frame, as a computation on the machine. -/
theorem Guides.within_safe {x : FrameExec α} {f : Frame} (hx : Guides R P x Q E) (hf : P f)
    (hE : ∀ e f, E e f → R.permits e) : Safe R (x.within f) := by
  intro m hm
  have h := hx ⟨f, m⟩ hm hf
  unfold FrameExec.within
  cases hr : x ⟨f, m⟩ with
  | ok a t =>
    rw [hr] at h
    exact h.1
  | error e t =>
    rw [hr] at h
    exact ⟨h.1, hE e _ h.2⟩

theorem Guides.of_within {x : FrameExec α} {f f' : Frame} {m t : Machine} {a : α}
    (hx : Guides R P x Q E) (hf : P f) (hm : R.holds m) (h : x.within f m = .ok (a, f') t) :
    Q a f' := by
  have allowed := hx ⟨f, m⟩ hm hf
  rw [within_ok h] at allowed
  exact allowed.2

/-! ## Frames of calls -/

theorem length_of_mapM {f : α → Exec β} {as : List α} {bs : List β} {m t : Machine}
    (h : as.mapM f m = .ok bs t) : bs.length = as.length := by
  induction as generalizing bs m with
  | nil =>
    cases h
    rfl
  | cons a as ih =>
    rw [List.mapM_cons] at h
    obtain ⟨b, _, -, h⟩ := bind_ok.mp h
    obtain ⟨bs', _, hbs, h⟩ := bind_ok.mp h
    cases h
    exact congrArg (· + 1) (ih hbs)

/-- A new frame has its own cells. -/
theorem newFrame_ok {u : CodeUnit} {globals : Ref} {m t : Machine} {f : Frame}
    (h : newFrame u globals m = .ok f t) : f.code = u ∧ f.blocks = [] ∧ f.ip = 0 ∧
      f.locals.size = u.varnames.size ∧ f.cells.size = u.cellvars.size := by
  obtain ⟨m', m'', hm, h⟩ := bind_ok.mp h
  obtain ⟨cells, m₄, hc, h⟩ := bind_ok.mp h
  cases h
  refine ⟨rfl, rfl, rfl, Array.size_replicate, ?_⟩
  rw [Array.mapM_eq_mapM_toList, ← bind_pure_comp] at hc
  obtain ⟨bs, _, hbs, h⟩ := bind_ok.mp hc
  cases h
  exact length_of_mapM hbs

/-- The frame of a call has its own cells and those of the function. -/
theorem frameFor_cells {func : Function} {args : List Value} {kwargs : List (String × Value)}
    {m t : Machine} {f : Frame} (h : frameFor func args kwargs m = .ok f t) :
    f.cells.size = f.code.cellvars.size + func.closure.size := by
  obtain ⟨h₀, m₀, hh, h⟩ := bind_ok.mp h
  cases hh
  cases hb : bindParameters (m.heap.unit func.code) func.defaults args kwargs with
  | error e =>
    rw [hb] at h
    obtain ⟨_, _, he, ht⟩ := bind_ok.mp h
    cases he
    cases ht
  | ok b =>
    rw [hb] at h
    obtain ⟨f₀, m₁, hf, h⟩ := bind_ok.mp h
    obtain ⟨locals, m₂, -, h⟩ := bind_ok.mp h
    obtain ⟨_, m₃, -, h⟩ := bind_ok.mp h
    cases h
    obtain ⟨code, -, -, -, cells⟩ := newFrame_ok hf
    show (f₀.cells ++ func.closure).size = f₀.code.cellvars.size + func.closure.size
    rw [Array.size_append, cells, code]

variable [R.Closed]

theorem newFrame_safe (u : CodeUnit) (globals : Ref) : Safe R (newFrame u globals) := by
  have cell (name : String) : Safe R (alloc (·.newCell none)) :=
    alloc_safe ⟨fun _ => rfl, fun _ => rfl, fun _ => rfl, fun _ => rfl⟩
  refine .readThen fun m => ?_
  rw [Array.mapM_eq_mapM_toList]
  exact ((Safe.mapM cell u.cellvars.toList).mapped _).andThen fun _ => .ret _

theorem placeSurplus_safe (u : CodeUnit) (b : Binding) (locals : Array (Option Value)) :
    Safe R (placeSurplus u b locals) := by
  unfold placeSurplus Heap.newDict
  grind -funext

theorem fillCells_safe (f : Frame) : Safe R (fillCells f) := by
  refine .forM (fun p => ?_) _
  split
  · exact modifyHeap_safe ⟨fun _ => rfl, fun _ => rfl, fun _ => rfl, fun _ => rfl⟩
  · exact .ret ()

theorem frameFor_safe (func : Function) (args : List Value) (kwargs : List (String × Value)) :
    Safe R (frameFor func args kwargs) := by
  refine heap_safe.andThen fun h => ?_
  dsimp only
  split
  · exact typeError_safe _
  · exact (newFrame_safe _ _).andThen fun f => (placeSurplus_safe _ _ _).andThen fun ls =>
      (fillCells_safe _).andThen fun _ => .ret _

end

variable {us : Array CodeUnit} {stops : Nat → Prop} {u : CodeUnit} {g : Guest} {m t : Machine}

/-- A frame may begin at the start of any unit. -/
theorem Built.boundary_zero (hu : Built us) (r : Ref) : (unitAt us r).Boundary 0 := by
  unfold unitAt
  cases hr : us[r]? with
  | some u => exact .inl (hu.checked hr).first_isSome
  | none => exact .inr rfl

/-- The frame of a call rests at the start of its unit. -/
theorem frameFor_rests (hu : Built us) (hm : m.Valid us) {func : Function}
    (closure : func.closure.size = (unitAt us func.code).freevars.size) {args : List Value}
    {kwargs : List (String × Value)} {f : Frame} (h : frameFor func args kwargs m = .ok f t) :
    f.Rests (unitAt us func.code) := by
  have cells := frameFor_cells h
  obtain ⟨code, -, blocks, ip, -, locals⟩ := frameFor_ok h
  rw [hm.unit] at code
  rw [code] at locals cells
  refine ⟨⟨code, locals, ?_, ?_⟩, ?_⟩
  · rw [cells, closure]
    rfl
  · rw [blocks]
    exact fun b hb => absurd hb List.not_mem_nil
  · rw [ip]
    exact hu.boundary_zero _

/-- So does the frame of a module without free variables. -/
theorem newFrame_rests (hu : Built us) {unit : Ref} (closed : (unitAt us unit).freevars.size = 0)
    {globals : Ref} {f : Frame} (h : newFrame (unitAt us unit) globals m = .ok f t) :
    f.Rests (unitAt us unit) := by
  obtain ⟨code, blocks, ip, locals, cells⟩ := newFrame_ok h
  refine ⟨⟨code, locals, ?_, ?_⟩, ?_⟩
  · rw [cells, CodeUnit.cellCount, closed]
    rfl
  · rw [blocks]
    exact fun b hb => absurd hb List.not_mem_nil
  · rw [ip]
    exact hu.boundary_zero _

/-! ## Engines -/

/-- An engine that keeps machines valid: its calls and runs end as they may, and the frames
    that it suspends rest. -/
structure Guest.Valid (us : Array CodeUnit) (stops : Nat → Prop) (g : Guest) : Prop where
  call : ∀ u callee args kwargs, TieredMachine.Safe (.validated us stops u)
    (g.call callee args kwargs)
  run : ∀ r entry, Guides (.validated us stops (unitAt us r)) (·.Rests (unitAt us r))
    (g.run entry) (fun exit f => f.Leaves (unitAt us r) exit)
    fun e _ => (Regime.validated us stops (unitAt us r)).permits e
  poll : ∀ u kind, TieredMachine.Safe (.validated us stops u) (g.poll kind)

section

variable (hg : g.Valid us stops)

include hg

theorem Guest.Valid.run_safe {r : Ref} {f : Frame} (hf : f.Rests (unitAt us r)) (entry : Entry) :
    TieredMachine.Safe (.validated us stops u) ((g.run entry).within f) :=
  Safe.validated ((hg.run r entry).within_safe hf fun _ _ he => he)

/-- A run of a frame that is not needed any more. -/
theorem onNew_safe {r : Ref} {f : Frame} (hf : f.Rests (unitAt us r)) (entry : Entry) :
    Safe (.validated us stops u) (nested ((g.run entry).onNew f)) :=
  nested_safe ((hg.run_safe hf entry).andThen fun _ => .ret _)

/-! ## Generators -/

omit hg in
theorem settleGenerator_safe (ref : Ref) (exit : Exit) {r : Ref} {f : Frame}
    (hf : f.Leaves (unitAt us r) exit) :
    Safe (.validated us stops u) (settleGenerator ref exit f) := by
  cases exit with
  | return_ v => exact (endGenerator_safe ref).andThen fun _ => raiseWith_safe _ _
  | yield_ v =>
    have kept : Safe (.validated us stops u)
        (modifyGenerator ref fun gen => { gen with frame := some f, running := false }) :=
      fun m hm => Machine.Valid.changeGenerator hm ref fun gen fr h => by
        cases h
        exact .inr ⟨r, hf⟩
    exact kept.andThen fun _ => .ret v

/-- A generator is run from a frame that rests, and is given back one that does. -/
theorem runGenerator_safe (ref : Ref) (entry : Entry) {r : Ref} {f : Frame}
    (hf : f.Rests (unitAt us r)) : Safe (.validated us stops u) (runGenerator g ref entry f) := by
  have taken : Safe (.validated us stops u)
      (modifyGenerator ref fun gen => { gen with frame := none, running := true }) :=
    changeGenerator_safe ref fun _ _ h => by cases h
  have ran : Safe (.validated us stops u)
      (tryCatch (nested ((g.run entry).within f)) fun fault => do endGenerator ref; throw fault) :=
    (nested_safe (hg.run_safe hf entry)).handle fun e he =>
      (endGenerator_safe ref).andThen fun _ => .fail he
  refine taken.andThen fun _ => ran.andThenOf (fun p => p.2.Leaves (unitAt us r) p.1)
    (fun m p t hm hp => ?_) fun p hp => settleGenerator_safe ref p.1 hp
  -- the frame was left one level down
  obtain ⟨_, h⟩ := nested_ok (tryCatch_ok (fun e u a t h => by cases h) hp)
  have deeper : (m.mapDepth (· + 1)).Valid us := Machine.Valid.of_heap hm rfl fun _ _ h => h
  exact (hg.run r entry).of_within hf deeper h

theorem resumeGenerator_safe (ref : Ref) (how : Resumption) :
    Safe (.validated us stops u) (resumeGenerator g ref how) := by
  refine .heapThen fun m hm => ?_
  dsimp only
  split
  · exact alreadyExecuting_safe
  · split
    · exact resumeEnded_safe how
    · rename_i f hf
      obtain ⟨r, rests⟩ := Machine.Valid.generator hm hf
      split
      · exact typeError_safe _
      · exact runGenerator_safe hg ref _ rests

/-- Calls and resumed generators that such an engine is asked for are safe. -/
theorem Guest.Valid.safe : g.Safe (.validated us stops u) where
  call := hg.call u
  resume := resumeGenerator_safe hg

/-! ## Calls -/

theorem callFrame_safe (name : String) {r : Ref} {f : Frame} (hf : f.Rests (unitAt us r)) :
    Safe (.validated us stops u) (callFrame g name f) := by
  unfold callFrame
  split
  · exact fun m hm => Machine.Valid.newGenerator hm fun fr h => by
      cases h
      exact ⟨r, hf⟩
  · refine (onNew_safe hg hf .call).andThen fun exit => ?_
    cases exit with
    | return_ v => exact .ret v
    | yield_ v => exact .fail (Regime.Closed.misuse _)

/-- A function with as many cells as its unit has free variables may be called. -/
theorem callGuest_safe (hu : Built us) {func : Function}
    (closure : func.closure.size = (unitAt us func.code).freevars.size) (args : List Value)
    (kwargs : List (String × Value)) :
    Safe (.validated us stops u) (callGuest g func args kwargs) :=
  (frameFor_safe func args kwargs).andThenOf (·.Rests (unitAt us func.code))
    (fun _ _ _ hm h => frameFor_rests hu hm closure h) fun _ hf => callFrame_safe hg func.name hf

theorem instantiate_safe (r : Ref) (args : List Value) (kwargs : List (String × Value)) :
    Safe (.validated us stops u) (instantiate g r args kwargs) := by
  have safe : g.Safe (.validated us stops u) := hg.safe
  unfold instantiate Heap.newInstance
  grind -funext

/-- A value of the heap of a valid machine may be called. -/
theorem callIn_safe (hu : Built us) (hm : m.Valid us) (callee : Value) (args : List Value)
    (kwargs : List (String × Value)) :
    Safe (.validated us stops u) (callIn g m.heap callee args kwargs) := by
  unfold callIn
  cases callee with
  | function r => exact callGuest_safe hg hu (hm.function r) args kwargs
  | builtin r =>
    dsimp only
    split
    · exact typeError_safe _
    · exact BuiltinFn.run_safe hg.safe args _
  | method r => exact hg.call u _ _ kwargs
  | classObj r => exact instantiate_safe hg r args kwargs
  | excType kind =>
    dsimp only
    split
    · exact (newException_safe kind args).andThen fun _ => .ret _
    · exact typeError_safe _
  | inst r =>
    dsimp only
    split
    · exact hg.call u _ _ kwargs
    · exact raise_safe _ _
  | _ => exact typeError_safe _

/-- **A call of any value** keeps the machine valid. -/
theorem callWith_safe (hu : Built us) (callee : Value) (args : List Value)
    (kwargs : List (String × Value)) :
    Safe (.validated us stops u) (callWith g callee args kwargs) :=
  .heapThen fun _ hm => callIn_safe hg hu hm callee args kwargs

/-- So does a run of a module whose unit has no free variables. -/
theorem moduleOn_safe (hu : Built us) {unit : Ref}
    (closed : (unitAt us unit).freevars.size = 0) :
    Safe (.validated us stops u) (moduleOn g unit) := by
  refine .lookThen fun m hm => ?_
  rw [Machine.Valid.unit hm]
  refine (newFrame_safe _ _).andThenOf (·.Rests (unitAt us unit))
    (fun _ _ _ _ h => newFrame_rests hu closed h) fun f hf =>
      (onNew_safe hg hf .call).andThen fun exit => ?_
  cases exit with
  | return_ v => exact .ret v
  | yield_ v => exact .fail (Regime.Closed.misuse _)

end

end TieredMachine
