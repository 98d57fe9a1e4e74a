/-
  Machines that look alike to the code that runs on them.

  Running code sees the heap, the namespaces, the number of nested calls and
  what it emitted.  It does not see the tier state of the units, the pending
  requests, the tracer and the records.  Machines with one sight are alike when
  both are *sound*: their native code was lowered from the units, their suspended
  frames stand where a generator yielded, and no built-in function tells tiers
  apart.

  * `Frame.Fresh`, `Frame.Suspended`, `Frame.Ready`: frames that can be entered;
  * `Backed`, `Machine.Sound`: what a machine relies on;
  * `machineWorld`: the comparison of machines, which the basic steps respect;
  * `Machine.Unseen`: changes that running code does not see.
-/
import TieredMachine.Run.Frame
import TieredMachine.Proofs.Agreement.Step
import TieredMachine.Proofs.Code.Unit

namespace TieredMachine

/-! ## Frames that can be entered -/

namespace Frame

variable (us : Array CodeUnit) (f : Frame)

/-- The frame has not begun. -/
structure Fresh : Prop where
  code : f.code = unitAt us f.code.id
  stack : f.stack = []
  blocks : f.blocks = []
  ip : f.ip = 0
  lasti : f.lasti = none
  locals : f.locals.size = f.code.varnames.size

/-- The frame stands after an instruction that yields. -/
structure Suspended : Prop where
  code : f.code = unitAt us f.code.id
  yielded : ∃ i, f.code.instrAt? i.ip = some i ∧ i.last.op = .yieldValue ∧
    f.lasti = some i.ip ∧ f.ip = i.next

/-- A frame that a generator may hold. -/
def Resting : Prop := f.Fresh us ∨ f.Suspended us

/-- A frame that may be entered in a given way. -/
def Ready : Entry → Prop
  | .call => f.Fresh us
  | .resume _ => f.Suspended us
  | .throw_ _ => f.Resting us
  | .continue_ => False

end Frame

/-! ## Sound machines -/

/-- The graph was lowered from the unit, over a heap from which `h` evolved. -/
def Lowered (us : Array CodeUnit) (h : Heap) (r : Ref) (graph : Graph) : Prop :=
  ∃ h₀ feedback opts, Heap.Evolves h₀ h ∧ lower h₀ (unitAt us r) feedback opts = .ok graph

/-- The native code was made from a graph of the unit. -/
def Backed (us : Array CodeUnit) (h : Heap) (r : Ref) (n : NativeFunction) : Prop :=
  ∃ graph, Lowered us h r graph ∧
    (n.code = .threaded graph ∨ ∃ k, Kernel.compile graph = .ok k ∧ n.code = .kernel k)

theorem Backed.evolves {us : Array CodeUnit} {h h' : Heap} {r : Ref} {n : NativeFunction}
    (hn : Backed us h r n) (e : h.Evolves h') : Backed us h' r n := by
  obtain ⟨graph, ⟨h₀, feedback, opts, e₀, hl⟩, hc⟩ := hn
  exact ⟨graph, ⟨h₀, feedback, opts, e₀.trans e, hl⟩, hc⟩

/-- What a machine over some units relies on. -/
structure Machine.Sound (us : Array CodeUnit) (m : Machine) : Prop where
  units : m.heap.units = us
  resting : ∀ gen ∈ m.heap.generators, ∀ f, gen.frame = some f → f.Resting us
  discreet : ∀ fn ∈ m.heap.builtins, fn.isTierAware = false
  lenient : m.bailError = false
  backed : ∀ r n, (m.profile r).state.native = some n → Backed us m.heap r n

/-- What running code can see of a machine. -/
structure Sight where
  heap : Heap
  globals : Ref
  builtins : Ref
  depth : Nat
  out : Array String
  recursionLimit : Nat

/-- What running code can see of the machine. -/
def Machine.sight (m : Machine) : Sight :=
  ⟨m.heap, m.globals, m.builtins, m.depth, m.out, m.config.recursionLimit⟩

/-- The comparison of machines over some units. -/
def machineWorld (us : Array CodeUnit) : World Machine where
  alike m m' := m.sight = m'.sight ∧ m.Sound us ∧ m'.Sound us
  failed _ m m' := m.sight = m'.sight ∧ m.Sound us ∧ m'.Sound us
  kept m m' := m.heap.Evolves m'.heap
  worn m := m.heap.Worn
  slack := True
  kept_refl m := .refl m.heap
  kept_trans h h' := h.trans h'
  worn_of_kept h := h.worn
  failed_of_alike h := h
  alike_of_raised h := h

/-! ## Steps on the machine -/

section Steps

variable {us : Array CodeUnit} {side : Side} {α β : Type}

/-- Looking at the machine agrees when what follows does for machines that look
    alike. -/
theorem Agrees.getThen {f g : Machine → Exec α} (hl : ∀ m, Keeps (machineWorld us) (f m))
    (hr : ∀ m, Keeps (machineWorld us) (g m))
    (h : ∀ m m', m.sight = m'.sight → Agrees (machineWorld us) side (f m) (g m')) :
    Agrees (machineWorld us) side (get >>= f) (get >>= g) where
  left m := hl m m
  right m := hr m m
  agree {m m'} hm := (h m m' hm.1).agree hm

theorem keeps_heap : Keeps (machineWorld us) heap := fun m => .refl m.heap

/-- What the heap of a sound machine is known for. -/
structure Heap.Fair (us : Array CodeUnit) (h : Heap) : Prop where
  unit : ∀ r, h.unit r = unitAt us r
  resting : ∀ r f, (h.generator r).frame = some f → f.Resting us
  discreet : ∀ r, (h.builtin r).isTierAware = false

theorem Machine.Sound.fair {m : Machine} (hm : m.Sound us) : m.heap.Fair us where
  unit r := by rw [← hm.units]; rfl
  resting r f hf := by
    simp only [Heap.generator] at hf
    cases hg : m.heap.generators[r]? with
    | none =>
      rw [hg] at hf
      cases hf
    | some gen =>
      rw [hg] at hf
      exact hm.resting gen (Array.mem_of_getElem? hg) f hf
  discreet r := by
    simp only [Heap.builtin]
    cases hb : m.heap.builtins[r]? with
    | none => rfl
    | some fn => exact hm.discreet fn (Array.mem_of_getElem? hb)

/-- Looking at the heap agrees when what follows does for heaps of sound
    machines. -/
theorem Agrees.heapThen {f g : Heap → Exec α} (hl : ∀ h, Keeps (machineWorld us) (f h))
    (hr : ∀ h, Keeps (machineWorld us) (g h))
    (h : ∀ h : Heap, h.Fair us → Agrees (machineWorld us) side (f h) (g h)) :
    Agrees (machineWorld us) side (heap >>= f) (heap >>= g) where
  left := keeps_heap.bind hl
  right := keeps_heap.bind hr
  agree {m m'} hm := by
    have e : m.heap = m'.heap := congrArg Sight.heap hm.1
    show Agree _ side (f m.heap m) (g m'.heap m')
    rw [← e]
    exact (h m.heap hm.2.1.fair).agree hm

/-! ### Changes of the heap -/

namespace Machine

/-- A machine stays sound when its heap changes with care. -/
theorem Sound.mapHeap {m : Machine} (hm : m.Sound us) (f : Heap → Heap)
    (evolves : m.heap.Evolves (f m.heap))
    (resting : ∀ gen ∈ (f m.heap).generators, ∀ fr, gen.frame = some fr → fr.Resting us)
    (discreet : ∀ fn ∈ (f m.heap).builtins, fn.isTierAware = false) :
    (m.mapHeap f).Sound us where
  units := evolves.1.trans hm.units
  resting := resting
  discreet := discreet
  lenient := hm.lenient
  backed r n hn := (hm.backed r n hn).evolves evolves

theorem Sound.mild {m : Machine} (hm : m.Sound us) {f : Heap → Heap} (hf : Heap.Mild f) :
    (m.mapHeap f).Sound us :=
  hm.mapHeap f (hf.evolves _) (by rw [hf.generators]; exact hm.resting)
    (by rw [hf.builtins]; exact hm.discreet)

theorem sight_mapHeap (m : Machine) (f : Heap → Heap) :
    (m.mapHeap f).sight = { m.sight with heap := f m.sight.heap } := rfl

end Machine

/-- A change of the heap that keeps machines sound agrees with itself. -/
theorem Agrees.changeHeap {f : Heap → Heap} (hf : ∀ h, Heap.Evolves h (f h))
    (sound : ∀ m : Machine, m.Sound us → (m.mapHeap f).Sound us) :
    Agrees (machineWorld us) side (modifyHeap f) (modifyHeap f) :=
  .change (fun m => hf m.heap) (fun m => hf m.heap) fun {m m'} hm =>
    ⟨by simp only [Machine.sight_mapHeap, hm.1], sound m hm.2.1, sound m' hm.2.2⟩

/-- Adding an object agrees with itself when it keeps machines sound. -/
theorem Agrees.allocate {f : Heap → α × Heap} (hf : ∀ h, Heap.Evolves h (f h).2)
    (sound : ∀ m : Machine, m.Sound us → (m.mapHeap fun h => (f h).2).Sound us) :
    Agrees (machineWorld us) side (alloc f) (alloc f) where
  left m := hf m.heap
  right m := hf m.heap
  agree {m m'} hm := by
    have e : m.heap = m'.heap := congrArg Sight.heap hm.1
    show Agree _ side (.ok (f m.heap).1 _) (.ok (f m'.heap).1 _)
    rw [e]
    refine .same ⟨?_, ?_, sound m' hm.2.2⟩
    · show (m.mapHeap fun _ => (f m'.heap).2).sight = (m'.mapHeap fun h => (f h).2).sight
      simp only [Machine.sight_mapHeap, hm.1]
      rfl
    · have := sound m hm.2.1
      simp only [Machine.mapHeap, e] at this
      exact this

/-- A change of a generator agrees when it gives the generator no frame that cannot
    be resumed. -/
theorem modifyGenerator_agrees (r : Ref) {f : Generator → Generator}
    (hf : ∀ gen fr, (f gen).frame = some fr → gen.frame = some fr ∨ fr.Resting us) :
    Agrees (machineWorld us) side (modifyGenerator r f) (modifyGenerator r f) :=
  .changeHeap (fun h => ⟨rfl, fun _ => .refl _⟩) fun m hm =>
    hm.mapHeap _ ⟨rfl, fun _ => .refl _⟩ (fun gen hgen fr hfr => by
      obtain ⟨i, hi⟩ := Array.mem_iff_getElem?.mp hgen
      rw [Array.getElem?_modify] at hi
      split at hi
      · obtain ⟨old, ho, rfl⟩ := Option.map_eq_some_iff.mp hi
        cases hf old fr hfr with
        | inl h => exact hm.resting old (Array.mem_of_getElem? ho) fr h
        | inr h => exact h
      · exact hm.resting gen (Array.mem_of_getElem? hi) fr hfr) hm.discreet

theorem alike_mapSpace (r : Ref) {f : Namespace → Namespace}
    (hf : ∀ n : Namespace, n.Evolves (f n)) {m m' : Machine} (h : (machineWorld us).alike m m') :
    (machineWorld us).alike (m.mapSpace r f) (m'.mapSpace r f) := by
  have sound (m : Machine) (hm : m.Sound us) : (m.mapSpace r f).Sound us :=
    hm.mapHeap _ (m.heap.evolves_mapSpace r hf) hm.resting hm.discreet
  refine ⟨?_, sound m h.2.1, sound m' h.2.2⟩
  have e : ∀ m : Machine, (m.mapSpace r f).sight =
      { m.sight with heap := m.sight.heap.mapSpace r f } := fun _ => rfl
  rw [e, e, h.1]

/-! ### What is not seen -/

/-- A change of the machine that running code does not see. -/
structure Machine.Unseen (us : Array CodeUnit) (f : Machine → Machine) : Prop where
  sight : ∀ m, (f m).sight = m.sight
  sound : ∀ m : Machine, m.Sound us → (f m).Sound us

namespace Machine.Unseen

theorem heap {f : Machine → Machine} (hf : Unseen us f) (m : Machine) : (f m).heap = m.heap :=
  congrArg Sight.heap (hf.sight m)

theorem kept {f : Machine → Machine} (hf : Unseen us f) (m : Machine) :
    (machineWorld us).kept m (f m) := by
  show m.heap.Evolves (f m).heap
  rw [hf.heap m]
  exact .refl _

/-- Changes that install no native code and do not touch what is seen. -/
theorem of {f : Machine → Machine} (sight : ∀ m, (f m).sight = m.sight)
    (lenient : ∀ m, (f m).bailError = m.bailError)
    (native : ∀ m r n, ((f m).profile r).state.native = some n →
      (m.profile r).state.native = some n) : Unseen us f where
  sight := sight
  sound m hm := by
    have e : (f m).heap = m.heap := congrArg Sight.heap (sight m)
    refine ⟨?_, ?_, ?_, ?_, ?_⟩
    · rw [e]; exact hm.units
    · rw [e]; exact hm.resting
    · rw [e]; exact hm.discreet
    · rw [lenient]; exact hm.lenient
    · intro r n hn
      rw [e]
      exact hm.backed r n (native m r n hn)

theorem id : Unseen us fun m => m := ⟨fun _ => rfl, fun _ hm => hm⟩

theorem comp {f g : Machine → Machine} (hf : Unseen us f) (hg : Unseen us g) :
    Unseen us fun m => g (f m) where
  sight m := (hg.sight (f m)).trans (hf.sight m)
  sound m hm := hg.sound _ (hf.sound m hm)

theorem ite {f g : Machine → Machine} (c : Machine → Bool) (hf : Unseen us f)
    (hg : Unseen us g) : Unseen us fun m => if c m then f m else g m where
  sight m := by
    split
    · exact hf.sight m
    · exact hg.sight m
  sound m hm := by
    split
    · exact hf.sound m hm
    · exact hg.sound m hm

theorem record (kind : EventKind) : Unseen us (·.record kind) :=
  .of (fun _ => rfl) (fun _ => rfl) fun _ _ _ h => h

theorem mapStats (f : Statistics → Statistics) : Unseen us (·.mapStats f) :=
  .of (fun _ => rfl) (fun _ => rfl) fun _ _ _ h => h

theorem forget (unit : Ref) : Unseen us (·.forget unit) :=
  .of (fun _ => rfl) (fun _ => rfl) fun _ _ _ h => h

theorem ask (b : Bool) : Unseen us fun m => { m with requested := b } :=
  .of (fun _ => rfl) (fun _ => rfl) fun _ _ _ h => h

theorem trace (on : Bool) : Unseen us fun m => { m with tracing := on } :=
  .of (fun _ => rfl) (fun _ => rfl) fun _ _ _ h => h

end Machine.Unseen

/-- The state of a unit after a change of one. -/
theorem Machine.unitState_mapUnit (m : Machine) (unit r : Ref) (f : UnitState → UnitState) :
    (m.mapUnit unit f).unitState r =
      if unit = r ∧ r < m.units.size then f (m.unitState r) else m.unitState r := by
  simp only [unitState, mapUnit, Array.getElem?_modify]
  by_cases h : unit = r
  · subst h
    by_cases hlt : unit < m.units.size
    · simp [hlt]
    · simp [hlt]
  · simp [h]

/-- A change of a unit's state that installs no native code is not seen. -/
theorem Machine.Unseen.mapUnit (unit : Ref) {f : UnitState → UnitState}
    (hf : ∀ s n, (f s).profile.state.native = some n → s.profile.state.native = some n) :
    Unseen us (·.mapUnit unit f) :=
  .of (fun _ => rfl) (fun _ => rfl) fun m r n h => by
    rw [profile, unitState_mapUnit] at h
    split at h
    · exact hf _ n h
    · exact h

theorem Machine.Unseen.mapFeedback (unit : Ref) (f : Feedback → Feedback) :
    Unseen us (·.mapFeedback unit f) :=
  .mapUnit unit fun _ _ h => h

theorem Machine.Unseen.mapProfile (unit : Ref) {f : Profile → Profile}
    (hf : ∀ p n, (f p).state.native = some n → p.state.native = some n) :
    Unseen us (·.mapProfile unit f) :=
  .mapUnit unit fun s n h => hf s.profile n h

/-- Changes that are not seen agree, whatever they are. -/
theorem Agrees.unseen {f g : Machine → Machine} (hf : Machine.Unseen us f)
    (hg : Machine.Unseen us g) : Agrees (machineWorld us) side (modify f) (modify g) :=
  .change hf.kept hg.kept fun {m m'} h =>
    ⟨(hf.sight m).trans (h.1.trans (hg.sight m').symm), hf.sound m h.2.1, hg.sound m' h.2.2⟩

theorem recordEvent_agrees (kind : EventKind) :
    Agrees (machineWorld us) side (recordEvent kind) (recordEvent kind) :=
  .unseen (.record kind) (.record kind)

/-! ### Basic steps -/

/-- Emitting a text to machines that look alike. -/
theorem alike_emit (line : String) {m m' : Machine} (h : (machineWorld us).alike m m') :
    (machineWorld us).alike { m with out := m.out.push line } { m' with out := m'.out.push line } := by
  refine ⟨?_, ?_, ?_⟩
  · have e : ∀ m : Machine, ({ m with out := m.out.push line } : Machine).sight =
        { m.sight with out := m.sight.out.push line } := fun _ => rfl
    rw [e, e, h.1]
  · exact ⟨h.2.1.units, h.2.1.resting, h.2.1.discreet, h.2.1.lenient, h.2.1.backed⟩
  · exact ⟨h.2.2.units, h.2.2.resting, h.2.2.discreet, h.2.2.lenient, h.2.2.backed⟩

instance : (machineWorld us).Closed where
  look side := by
    refine ⟨keeps_heap, keeps_heap, fun {m m'} hm => ?_⟩
    have : m.heap = m'.heap := congrArg Sight.heap hm.1
    show Agree _ side (.ok m.heap m) (.ok m'.heap m')
    rw [this]
    exact .same hm
  names _ _ _ h := .getThen (fun m => (h m.builtins).left) (fun m => (h m.builtins).right)
    fun m m' e => by
      rw [show m.builtins = m'.builtins from congrArg Sight.builtins e]
      exact h m'.builtins
  change _ _ hf := .changeHeap hf.evolves fun _ hm => hm.mild hf
  add _ _ _ hf := .allocate hf.evolves fun _ hm => hm.mild hf
  addBuiltin _ fn h := .allocate (fun h => ⟨rfl, fun _ => .refl _⟩) fun m hm =>
    hm.mapHeap _ ⟨rfl, fun _ => .refl _⟩ hm.resting fun fn' hfn => by
      rcases Array.mem_push.mp hfn with hfn | rfl
      · exact hm.discreet fn' hfn
      · exact h
  bind _ r _ hf := .change (fun m => m.heap.evolves_mapSpace r hf)
    (fun m => m.heap.evolves_mapSpace r hf) (alike_mapSpace r hf)
  bindGlobal _ name v := by
    have keeps (m : Machine) :
        (machineWorld us).kept m (m.mapSpace m.globals (·.set name v)) :=
      m.heap.evolves_mapSpace m.globals fun n => n.evolves_set name v
    refine .change keeps keeps fun {m m'} hm => ?_
    have globals : m.globals = m'.globals := congrArg Sight.globals hm.1
    rw [globals]
    exact alike_mapSpace _ (fun n => n.evolves_set name v) hm
  emit _ line := .change (fun m => .refl m.heap) (fun m => .refl m.heap) (alike_emit line)
  trace _ on := .unseen (.trace on) (.trace on)
  ask _ := .unseen (.ask true) (.ask true)
  report _ r f := .unseen (.mapFeedback r f) (.mapFeedback r f)

instance : (machineWorld us).Generative where
  changeGenerator _ r _ hf := modifyGenerator_agrees r fun gen fr h => .inl (hf gen fr h)

instance : (machineWorld us).Framed where
  addEntry _ _ _ := .changeHeap (fun _ => ⟨rfl, fun _ => .refl _⟩) fun _ hm =>
    hm.mapHeap _ ⟨rfl, fun _ => .refl _⟩ hm.resting hm.discreet

theorem machineWorld_loose : (machineWorld us).Loose := by
  have hidden (r : Ref) (f : Feedback → Feedback) : Machine.Unseen us (·.mapFeedback r f) :=
    .mapFeedback r f
  refine ⟨fun m r f => (hidden r f).kept m, fun {m m'} r f h => ?_, fun {m m'} r f h => ?_⟩
  · exact ⟨((hidden r f).sight m).trans h.1, (hidden r f).sound m h.2.1, h.2.2⟩
  · exact ⟨h.1.trans ((hidden r f).sight m').symm, h.2.1, (hidden r f).sound m' h.2.2⟩

/-! ### Calls that are counted -/

/-- The machine with another number of nested calls. -/
def Machine.mapDepth (f : Nat → Nat) (m : Machine) : Machine := { m with depth := f m.depth }

theorem Machine.alike_mapDepth (f : Nat → Nat) {m m' : Machine}
    (h : (machineWorld us).alike m m') :
    (machineWorld us).alike (m.mapDepth f) (m'.mapDepth f) := by
  refine ⟨?_, ?_, ?_⟩
  · have e : ∀ m : Machine, (m.mapDepth f).sight = { m.sight with depth := f m.sight.depth } :=
      fun _ => rfl
    rw [e, e, h.1]
  · exact ⟨h.2.1.units, h.2.1.resting, h.2.1.discreet, h.2.1.lenient, h.2.1.backed⟩
  · exact ⟨h.2.2.units, h.2.2.resting, h.2.2.discreet, h.2.2.lenient, h.2.2.backed⟩

theorem Agrees.mapDepth (f : Nat → Nat) :
    Agrees (machineWorld us) side (modify (Machine.mapDepth f)) (modify (Machine.mapDepth f)) :=
  .change (fun m => .refl m.heap) (fun m => .refl m.heap) (Machine.alike_mapDepth f)

theorem Keeps.ite {c : Prop} [Decidable c] {x y : Exec α} (hx : Keeps (machineWorld us) x)
    (hy : Keeps (machineWorld us) y) : Keeps (machineWorld us) (if c then x else y) := by
  split
  · exact hx
  · exact hy

theorem keeps_nested {x : Exec α} (h : Keeps (machineWorld us) x) :
    Keeps (machineWorld us) (nested x) := by
  have leave : Keeps (machineWorld us) (modify (Machine.mapDepth (· - 1))) :=
    fun m => .refl m.heap
  have run : Keeps (machineWorld us)
      (tryCatch x fun fault => do modify (Machine.mapDepth (· - 1)); throw fault) :=
    h.tryCatch fun e => leave.bind fun _ => .throw e
  have enter : Keeps (machineWorld us) (modify (Machine.mapDepth (· + 1))) :=
    fun m => .refl m.heap
  have body := enter.bind fun _ => run.bind fun a => leave.bind fun _ => .pure a
  have raised : Keeps (machineWorld us)
      (raise .runtimeError "maximum recursion depth exceeded" : Exec PUnit) :=
    fun m => ⟨rfl, fun _ => .refl _⟩
  have look : Keeps (machineWorld us) get := fun m => .refl m.heap
  exact look.bind fun m => .ite (raised.bind fun _ => body) body

/-- Counting a nested call agrees when the call does. -/
theorem nested_agrees {x y : Exec α} (h : Agrees (machineWorld us) side x y) :
    Agrees (machineWorld us) side (nested x) (nested y) := by
  have enter : Agrees (machineWorld us) side (modify (Machine.mapDepth (· + 1)))
      (modify (Machine.mapDepth (· + 1))) := .mapDepth _
  have leave : Agrees (machineWorld us) side (modify (Machine.mapDepth (· - 1)))
      (modify (Machine.mapDepth (· - 1))) := .mapDepth _
  have run : Agrees (machineWorld us) side
      (tryCatch x fun fault => do modify (Machine.mapDepth (· - 1)); throw fault)
      (tryCatch y fun fault => do modify (Machine.mapDepth (· - 1)); throw fault) :=
    h.handle (fun e => leave.left.bind fun _ => .throw e)
      (fun e => leave.right.bind fun _ => .throw e)
      (fun e t t' ht => (leave.andThen fun _ => .fail e).agree ht)
      (fun t => ⟨_, rfl⟩) (fun t => ⟨_, rfl⟩)
  have body := enter.andThen fun _ => run.andThen fun a => leave.andThen fun _ => Agrees.ret a
  have raised : Agrees (machineWorld us) side
      (raise .runtimeError "maximum recursion depth exceeded" : Exec PUnit)
      (raise .runtimeError "maximum recursion depth exceeded") := .of (raise_agrees _ _)
  have full := raised.andThen fun _ => body
  refine .getThen (fun m => ?_) (fun m => ?_) fun m m' e => ?_
  · exact .ite full.left body.left
  · exact .ite full.right body.right
  · have limit : m.config.recursionLimit = m'.config.recursionLimit :=
      congrArg Sight.recursionLimit e
    have depth : m.depth = m'.depth := congrArg Sight.depth e
    rw [limit, depth]
    by_cases c : m'.config.recursionLimit ≤ m'.depth
    · simp only [c, if_true]
      exact full
    · simp only [c, if_false]
      exact body

/-- What a nested call answers, it answers one level down. -/
theorem nested_ok {x : Exec α} {m t : Machine} {a : α} (h : nested x m = .ok a t) :
    ∃ u, x (m.mapDepth (· + 1)) = .ok a u := by
  obtain ⟨m', u, hm, h⟩ := bind_ok.mp h
  cases hm
  split at h
  · obtain ⟨b, u, hr, -⟩ := bind_ok.mp h
    cases hr
  · obtain ⟨_, u, hm, h⟩ := bind_ok.mp h
    cases hm
    obtain ⟨b, v, hx, h⟩ := bind_ok.mp h
    obtain ⟨_, w, _, h⟩ := bind_ok.mp h
    cases h
    exact ⟨v, tryCatch_ok (fun e u a t h => by cases h) hx⟩

end Steps

end TieredMachine
