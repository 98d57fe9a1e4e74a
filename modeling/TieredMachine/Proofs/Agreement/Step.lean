/-
  The basic steps of running code.

  What running code does to a machine comes down to a few kinds of steps: it looks at
  the heap, changes or adds objects, binds names, and emits texts.  A comparison of
  machines is *closed* when each of them compares well with itself; every operation then
  does.

  * `Heap.Evolves`: namespaces change by counted steps only;
  * `Heap.Mild`: changes that leave units, namespaces, generators and built-in functions
    alone;
  * `Comparison.Closed`: comparisons that the basic steps respect;
  * `World.Closed`: worlds in which the basic steps agree with themselves;
  * `World.Loose`: worlds in which feedback is not seen.
-/
import TieredMachine.Operation.Generator
import TieredMachine.Proofs.Agreement.Akin
import TieredMachine.Proofs.Agreement.Comparison

namespace TieredMachine

/-! ## Heaps over time -/

/-- The namespace changed by counted steps only. -/
def Namespace.Evolves (n n' : Namespace) : Prop :=
  n.changes ≤ n'.changes ∧ (n.changes = n'.changes → n = n')

theorem Namespace.Evolves.refl (n : Namespace) : n.Evolves n := ⟨Nat.le_refl _, fun _ => rfl⟩

theorem Namespace.Evolves.trans {n m k : Namespace} (h : n.Evolves m) (h' : m.Evolves k) :
    n.Evolves k := by
  refine ⟨Nat.le_trans h.1 h'.1, fun e => ?_⟩
  have hm : n.changes = m.changes := Nat.le_antisymm h.1 (e ▸ h'.1)
  rw [h.2 hm, h'.2 (hm ▸ e)]

/-- Below the range of versions, namespaces with one version are one. -/
theorem Namespace.Evolves.eq_of_version {n n' : Namespace} (h : n.Evolves n')
    (hn : n'.changes < UInt64.size) (hv : n.version = n'.version) : n = n' := by
  apply h.2
  have hv' := congrArg UInt64.toNat hv
  simp only [Namespace.version, UInt64.toNat_ofNat', UInt64.size] at hv' hn
  have := h.1
  omega

/-- The code units are the same, and the namespaces changed by counted steps
    only. -/
def Heap.Evolves (h h' : Heap) : Prop :=
  h'.units = h.units ∧ ∀ r, (h.space r).Evolves (h'.space r)

theorem Heap.Evolves.refl (h : Heap) : h.Evolves h := ⟨rfl, fun _ => .refl _⟩

theorem Heap.Evolves.trans {h i j : Heap} (hi : h.Evolves i) (hj : i.Evolves j) :
    h.Evolves j :=
  ⟨hj.1.trans hi.1, fun r => (hi.2 r).trans (hj.2 r)⟩

/-- A namespace has changed more often than versions can tell. -/
def Heap.Worn (h : Heap) : Prop := ∃ r, UInt64.size ≤ (h.space r).changes

theorem Heap.Evolves.worn {h h' : Heap} (e : h.Evolves h') : h.Worn → h'.Worn
  | ⟨r, hr⟩ => ⟨r, Nat.le_trans hr (e.2 r).1⟩

/-- A change of the heap that leaves units, namespaces, generators, built-in functions and
    the exceptions that there are alone, and heaps that look alike looking alike. -/
structure Heap.Mild (f : Heap → Heap) : Prop where
  units : ∀ h, (f h).units = h.units
  namespaces : ∀ h, (f h).namespaces = h.namespaces
  generators : ∀ h, (f h).generators = h.generators
  builtins : ∀ h, (f h).builtins = h.builtins
  exceptions : ∀ h i, i < h.exceptions.size → (f h).exceptions[i]? = h.exceptions[i]?
  alike : ∀ {h h' : Heap}, h.Akin h' → (f h).Akin (f h')

@[grind =]
theorem Heap.mild_iff (f : Heap → Heap) : Heap.Mild f ↔
    (∀ h, (f h).units = h.units) ∧ (∀ h, (f h).namespaces = h.namespaces) ∧
      (∀ h, (f h).generators = h.generators) ∧ (∀ h, (f h).builtins = h.builtins) ∧
        (∀ h i, i < h.exceptions.size → (f h).exceptions[i]? = h.exceptions[i]?) ∧
          ∀ h h' : Heap, h.Akin h' → (f h).Akin (f h') :=
  ⟨fun h => ⟨h.1, h.2, h.3, h.4, h.5, fun _ _ a => h.6 a⟩,
    fun ⟨h₁, h₂, h₃, h₄, h₅, h₆⟩ => ⟨h₁, h₂, h₃, h₄, h₅, h₆ _ _⟩⟩

theorem Heap.Mild.evolves {f : Heap → Heap} (hf : Heap.Mild f) (h : Heap) : h.Evolves (f h) := by
  refine ⟨hf.units h, fun r => ?_⟩
  simp only [Heap.space, hf.namespaces h]
  exact .refl _

/-! ### Namespaces -/

theorem Namespace.evolves_set (n : Namespace) (name : String) (v : Value) :
    n.Evolves (n.set name v) :=
  ⟨Nat.le_succ _, fun h => absurd h (Nat.ne_of_lt (Nat.lt_succ_self _))⟩

theorem Namespace.evolves_erase (n : Namespace) (name : String) : n.Evolves (n.erase name) := by
  unfold Namespace.erase
  split
  · exact ⟨Nat.le_succ _, fun h => absurd h (Nat.ne_of_lt (Nat.lt_succ_self _))⟩
  · exact .refl n

/-- The heap with a namespace changed. -/
def Heap.mapSpace (h : Heap) (r : Ref) (f : Namespace → Namespace) : Heap :=
  { h with namespaces := h.namespaces.modify r f }

theorem Heap.evolves_mapSpace (h : Heap) (r : Ref) {f : Namespace → Namespace}
    (hf : ∀ n : Namespace, n.Evolves (f n)) : h.Evolves (h.mapSpace r f) := by
  refine ⟨rfl, fun k => ?_⟩
  simp only [Heap.space, Heap.mapSpace, Array.getElem?_modify]
  split
  · cases h.namespaces[k]? with
    | none => exact .refl _
    | some n => exact hf n
  · exact .refl _

/-- The heap with an entry added to the traceback of an exception. -/
def Heap.addEntry (exc : Ref) (entry : Heap → TracebackEntry) (h : Heap) : Heap :=
  { h with exceptions := h.exceptions.modify exc fun e =>
      { e with traceback := e.traceback.push (entry h) } }

/-! ## Closed comparisons -/

/-- Whether a built-in function tells tiers apart, or lets bails show as
    exceptions. -/
def BuiltinFn.isTierAware : BuiltinFn → Bool
  | .setLevel | .tier | .setBailError => true
  | _ => false

/-- The basic steps of running code compare well with themselves. -/
class Comparison.Closed (C : Comparison Machine) : Prop extends C.Lawful where
  /-- what follows a look at the heap may depend on what heaps that look alike have in
      common -/
  heapThen : ∀ {α : Type} {f g : Heap → Exec α}, (∀ h h', h.Akin h' → C.Same (f h) (g h')) →
    C.Same (heap >>= f) (heap >>= g)
  /-- the namespace of built-in names is looked up -/
  names : ∀ {α : Type} {f : Ref → Exec α}, (∀ r, C.Same (f r) (f r)) →
    C.Same (get >>= fun m => f m.builtins) (get >>= fun m => f m.builtins)
  change : ∀ {f : Heap → Heap}, Heap.Mild f → C.Same (modifyHeap f) (modifyHeap f)
  add : ∀ {α : Type} {f : Heap → α × Heap}, Heap.Mild (fun h => (f h).2) →
    (∀ h h', h.Akin h' → (f h).1 = (f h').1) → C.Same (alloc f) (alloc f)
  addBuiltin : ∀ fn : BuiltinFn, fn.isTierAware = false →
    C.Same (alloc (·.newBuiltin fn)) (alloc (·.newBuiltin fn))
  bind : ∀ r {f : Namespace → Namespace}, (∀ n : Namespace, n.Evolves (f n)) →
    C.Same (modify (·.mapSpace r f)) (modify (·.mapSpace r f))
  bindGlobal : ∀ name v, C.Same (modify fun m => m.mapSpace m.globals (·.set name v))
    (modify fun m => m.mapSpace m.globals (·.set name v))
  emit : ∀ line, C.Same (modify fun m => { m with out := m.out.push line })
    (modify fun m => { m with out := m.out.push line })
  trace : ∀ on, C.Same (modify fun m => { m with tracing := on })
    (modify fun m => { m with tracing := on })
  ask : C.Same (modify fun m => { m with requested := true })
    (modify fun m => { m with requested := true })
  report : ∀ r f, C.Same (modify (·.mapFeedback r f)) (modify (·.mapFeedback r f))

/-- The basic steps of running code agree with themselves. -/
class World.Closed (W : World Machine) : Prop where
  look : ∀ side, Agrees W side heap heap
  /-- the namespace of built-in names is looked up -/
  names : ∀ side {α : Type} {f : Ref → Exec α}, (∀ r, Agrees W side (f r) (f r)) →
    Agrees W side (get >>= fun m => f m.builtins) (get >>= fun m => f m.builtins)
  change : ∀ side {f : Heap → Heap}, Heap.Mild f → Agrees W side (modifyHeap f) (modifyHeap f)
  add : ∀ side {α : Type} {f : Heap → α × Heap}, Heap.Mild (fun h => (f h).2) →
    Agrees W side (alloc f) (alloc f)
  addBuiltin : ∀ side (fn : BuiltinFn), fn.isTierAware = false →
    Agrees W side (alloc (·.newBuiltin fn)) (alloc (·.newBuiltin fn))
  bind : ∀ side r {f : Namespace → Namespace}, (∀ n : Namespace, n.Evolves (f n)) →
    Agrees W side (modify (·.mapSpace r f)) (modify (·.mapSpace r f))
  bindGlobal : ∀ side name v,
    Agrees W side (modify fun m => m.mapSpace m.globals (·.set name v))
      (modify fun m => m.mapSpace m.globals (·.set name v))
  emit : ∀ side line, Agrees W side (modify fun m => { m with out := m.out.push line })
    (modify fun m => { m with out := m.out.push line })
  trace : ∀ side on, Agrees W side (modify fun m => { m with tracing := on })
    (modify fun m => { m with tracing := on })
  ask : ∀ side, Agrees W side (modify fun m => { m with requested := true })
    (modify fun m => { m with requested := true })
  report : ∀ side r f, Agrees W side (modify (·.mapFeedback r f)) (modify (·.mapFeedback r f))

/-- So does a generator that is changed and not given a frame. -/
class World.Generative (W : World Machine) : Prop where
  changeGenerator : ∀ side r {f : Generator → Generator},
    (∀ gen fr, (f gen).frame = some fr → gen.frame = some fr) →
      Agrees W side (modifyGenerator r f) (modifyGenerator r f)

/-- So does an exception that is given an entry of a traceback. -/
class World.Framed (W : World Machine) : Prop where
  addEntry : ∀ side exc (entry : Heap → TracebackEntry),
    Agrees W side (modifyHeap (·.addEntry exc entry)) (modifyHeap (·.addEntry exc entry))

/-- Feedback is not seen: it may be recorded on one side only. -/
structure World.Loose (W : World Machine) : Prop where
  kept : ∀ m r f, W.kept m (m.mapFeedback r f)
  left : ∀ {m m'} r f, W.alike m m' → W.alike (m.mapFeedback r f) m'
  right : ∀ {m m'} r f, W.alike m m' → W.alike m (m'.mapFeedback r f)

section

variable {W : World Machine} [W.Closed] {side : Side} {α : Type}

theorem heap_agrees : Agrees W side heap heap := World.Closed.look side

instance : (W.agreement side).Closed where
  heapThen h := heap_agrees.andThen fun heap => h heap heap (.refl heap)
  names h := World.Closed.names side h
  change := World.Closed.change side
  add hf _ := World.Closed.add side hf
  addBuiltin := World.Closed.addBuiltin side
  bind := World.Closed.bind side
  bindGlobal := World.Closed.bindGlobal side
  emit := World.Closed.emit side
  trace := World.Closed.trace side
  ask := World.Closed.ask side
  report := World.Closed.report side

end

section

variable {C : Comparison Machine} [C.Closed] {α : Type}

/-- What follows a look at the heap. -/
@[grind .]
theorem heapThen {f g : Heap → Exec α} (h : ∀ h h', h.Akin h' → C.Same (f h) (g h')) :
    C.Same (heap >>= f) (heap >>= g) :=
  Comparison.Closed.heapThen h

@[grind .]
theorem modifyHeap_agrees {f : Heap → Heap} (hf : Heap.Mild f) :
    C.Same (modifyHeap f) (modifyHeap f) :=
  Comparison.Closed.change hf

@[grind .]
theorem alloc_agrees {f : Heap → α × Heap} (hf : Heap.Mild fun h => (f h).2)
    (answer : ∀ h h', h.Akin h' → (f h).1 = (f h').1) : C.Same (alloc f) (alloc f) :=
  Comparison.Closed.add hf answer

theorem Heap.Akin.exceptionCount {h h' : Heap} (a : h.Akin h') :
    h.exceptions.size = h'.exceptions.size := by
  simpa using congrArg Array.size a.exceptions

@[grind .]
theorem newException_agrees (kind : ExceptionKind) (args : List Value) :
    C.Same (newException kind args) (newException kind args) :=
  alloc_agrees ⟨fun _ => rfl, fun _ => rfl, fun _ => rfl, fun _ => rfl,
    fun _ _ hi => Array.getElem?_push_lt hi |>.trans (Array.getElem?_eq_getElem hi).symm,
    fun a => { a with exceptions := by simp only [Heap.newException, Array.map_push, a.exceptions] }⟩
    fun _ _ a => a.exceptionCount

@[grind .]
theorem raiseWith_agrees (kind : ExceptionKind) (args : List Value) :
    C.Same (raiseWith kind args : Exec α) (raiseWith kind args) :=
  (newException_agrees kind args).andThen fun exc => .fail (.raised exc)

@[grind .]
theorem raise_agrees (kind : ExceptionKind) (message : String) :
    C.Same (raise kind message : Exec α) (raise kind message) :=
  raiseWith_agrees kind [.str message]

end

end TieredMachine
