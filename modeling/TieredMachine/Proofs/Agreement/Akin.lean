/-
  Heaps that look alike.

  Guest code sees objects through the readers of the heap.  It does not see the words of
  code units, the frames that generators hold, nor what tracebacks say.  Heaps that differ
  in these only look alike, and everything that is read from them is the same.

  * `CodeUnit.bare`, `Generator.outside`, `ExceptionObj.bare`: what guest code sees of an
    object;
  * `Heap.Akin`: heaps that look alike;
  * `Heap.Akin.list`, …, `Heap.Akin.write`, `Heap.Akin.key`: what is read from them.
-/
import TieredMachine.Builtin.Dispatch
import TieredMachine.Primitive.Operand

namespace TieredMachine

/-! ## What code sees of an object -/

/-- The unit without its code. -/
def CodeUnit.bare (u : CodeUnit) : CodeUnit :=
  { u with words := #[], lines := [], instrs := #[], instrOf := #[], handlers := []
           safePoints := #[] }

/-- What is seen of a generator: its name, whether it runs, and whether it holds a frame
    that has begun. -/
def Generator.outside (gen : Generator) : String × Bool × Option Bool :=
  (gen.name, gen.running, gen.frame.map (·.lasti.isSome))

/-- The exception without its traceback. -/
def ExceptionObj.bare (e : ExceptionObj) : ExceptionObj := { e with traceback := #[] }

/-! ## Heaps -/

/-- The heaps look alike. -/
structure Heap.Akin (h h' : Heap) : Prop where
  tuples : h.tuples = h'.tuples
  lists : h.lists = h'.lists
  dicts : h.dicts = h'.dicts
  slices : h.slices = h'.slices
  functions : h.functions = h'.functions
  builtins : h.builtins = h'.builtins
  methods : h.methods = h'.methods
  classes : h.classes = h'.classes
  instances : h.instances = h'.instances
  units : h.units.map CodeUnit.bare = h'.units.map CodeUnit.bare
  cells : h.cells = h'.cells
  iterators : h.iterators = h'.iterators
  generators : h.generators.map Generator.outside = h'.generators.map Generator.outside
  exceptions : h.exceptions.map ExceptionObj.bare = h'.exceptions.map ExceptionObj.bare
  tracebacks : h.tracebacks.size = h'.tracebacks.size
  namespaces : h.namespaces = h'.namespaces

@[grind =]
theorem Heap.akin_iff (h h' : Heap) : h.Akin h' ↔
    h.tuples = h'.tuples ∧ h.lists = h'.lists ∧ h.dicts = h'.dicts ∧ h.slices = h'.slices ∧
      h.functions = h'.functions ∧ h.builtins = h'.builtins ∧ h.methods = h'.methods ∧
      h.classes = h'.classes ∧ h.instances = h'.instances ∧
      h.units.map CodeUnit.bare = h'.units.map CodeUnit.bare ∧ h.cells = h'.cells ∧
      h.iterators = h'.iterators ∧
      h.generators.map Generator.outside = h'.generators.map Generator.outside ∧
      h.exceptions.map ExceptionObj.bare = h'.exceptions.map ExceptionObj.bare ∧
      h.tracebacks.size = h'.tracebacks.size ∧ h.namespaces = h'.namespaces := by
  constructor
  · intro a
    exact ⟨a.1, a.2, a.3, a.4, a.5, a.6, a.7, a.8, a.9, a.10, a.11, a.12, a.13, a.14, a.15, a.16⟩
  · rintro ⟨h₁, h₂, h₃, h₄, h₅, h₆, h₇, h₈, h₉, h₁₀, h₁₁, h₁₂, h₁₃, h₁₄, h₁₅, h₁₆⟩
    exact ⟨h₁, h₂, h₃, h₄, h₅, h₆, h₇, h₈, h₉, h₁₀, h₁₁, h₁₂, h₁₃, h₁₄, h₁₅, h₁₆⟩

/-- Entries of tables that agree in what is seen of them. -/
theorem map_getElem?_getD {α β : Type} (f : α → β) {as bs : Array α} (h : as.map f = bs.map f)
    (i : Nat) (d : α) : f (as[i]?.getD d) = f (bs[i]?.getD d) := by
  have same : (as[i]?).map f = (bs[i]?).map f := by
    rw [← Array.getElem?_map, ← Array.getElem?_map, h]
  cases ha : as[i]? with
  | none =>
    rw [ha, Option.map_none, eq_comm, Option.map_eq_none_iff] at same
    rw [same]
  | some a =>
    rw [ha, Option.map_some, eq_comm, Option.map_eq_some_iff] at same
    obtain ⟨b, hb, hab⟩ := same
    rw [hb]
    exact hab.symm

namespace Heap.Akin

variable {h h' : Heap} (a : h.Akin h') (r : Ref)

theorem refl (h : Heap) : h.Akin h :=
  ⟨rfl, rfl, rfl, rfl, rfl, rfl, rfl, rfl, rfl, rfl, rfl, rfl, rfl, rfl, rfl, rfl⟩

/-! ### Objects -/

include a

@[grind =>]
theorem tuple : h.tuple r = h'.tuple r := by rw [Heap.tuple, a.tuples, Heap.tuple]

@[grind =>]
theorem list : h.list r = h'.list r := by rw [Heap.list, a.lists, Heap.list]

@[grind =>]
theorem dict : h.dict r = h'.dict r := by rw [Heap.dict, a.dicts, Heap.dict]

@[grind =>]
theorem slice : h.slice r = h'.slice r := by rw [Heap.slice, a.slices, Heap.slice]

@[grind =>]
theorem unitCount : h.units.size = h'.units.size := by
  simpa using congrArg Array.size a.units

@[grind =>]
theorem function : h.function r = h'.function r := by
  rw [Heap.function, a.functions, a.unitCount, Heap.function]

@[grind =>]
theorem builtin : h.builtin r = h'.builtin r := by rw [Heap.builtin, a.builtins, Heap.builtin]

@[grind =>]
theorem method : h.method r = h'.method r := by rw [Heap.method, a.methods, Heap.method]

@[grind =>]
theorem classObj : h.classObj r = h'.classObj r := by
  rw [Heap.classObj, a.classes, Heap.classObj]

@[grind =>]
theorem inst : h.inst r = h'.inst r := by rw [Heap.inst, a.instances, Heap.inst]

@[grind =>]
theorem cell : h.cell r = h'.cell r := by rw [Heap.cell, a.cells, Heap.cell]

@[grind =>]
theorem iterator : h.iterator r = h'.iterator r := by
  rw [Heap.iterator, a.iterators, Heap.iterator]

@[grind =>]
theorem space : h.space r = h'.space r := by rw [Heap.space, a.namespaces, Heap.space]

theorem unit : (h.unit r).bare = (h'.unit r).bare := map_getElem?_getD CodeUnit.bare a.units r _

theorem generator : (h.generator r).outside = (h'.generator r).outside :=
  map_getElem?_getD Generator.outside a.generators r _

theorem exception : (h.exception r).bare = (h'.exception r).bare :=
  map_getElem?_getD ExceptionObj.bare a.exceptions r _

theorem unitName : (h.unit r).name = (h'.unit r).name := congrArg (·.name) (a.unit r)

theorem freevars : (h.unit r).freevars = (h'.unit r).freevars := congrArg (·.freevars) (a.unit r)

@[grind =>]
theorem kind : (h.exception r).kind = (h'.exception r).kind :=
  congrArg (·.kind) (a.exception r)

@[grind =>]
theorem args : (h.exception r).args = (h'.exception r).args :=
  congrArg (·.args) (a.exception r)

@[grind =>]
theorem running : (h.generator r).running = (h'.generator r).running :=
  congrArg (·.2.1) (a.generator r)

/-- The generators hold frames, if they hold any, that have both begun or both not. -/
theorem begun : Option.Rel (fun f f' : Frame => f.lasti.isNone = f'.lasti.isNone)
    (h.generator r).frame (h'.generator r).frame := by
  have held : (h.generator r).frame.map (·.lasti.isSome) =
      (h'.generator r).frame.map (·.lasti.isSome) := congrArg (·.2.2) (a.generator r)
  generalize (h.generator r).frame = frame, (h'.generator r).frame = frame' at held
  cases frame <;> cases frame' <;> simp only [Option.map_none, Option.map_some, reduceCtorEq,
    Option.some.injEq] at held
  · exact .none
  · refine .some ?_
    rw [← Option.not_isSome, held, Option.not_isSome]

/-! ### What is made of them -/

@[grind =>]
theorem depth : h.depth = h'.depth := by
  have exceptions : h.exceptions.size = h'.exceptions.size := by
    simpa using congrArg Array.size a.exceptions
  rw [Heap.depth, a.tuples, a.lists, a.dicts, a.slices, exceptions, Heap.depth]

theorem write (fuel : Nat) : ∀ quoted v, h.write fuel quoted v = h'.write fuel quoted v := by
  induction fuel with
  | zero => exact fun _ _ => rfl
  | succ fuel ih =>
    intro quoted v
    have generatorName (r : Ref) : (h.generator r).name = (h'.generator r).name :=
      congrArg (·.1) (a.generator r)
    unfold Heap.write
    cases v <;>
      simp only [ih, a.tuple, a.list, a.dict, a.slice, a.function, a.builtin, a.method,
        a.classObj, a.inst, a.args, a.unitName, generatorName]

@[grind =>]
theorem display (v : Value) : h.display v = h'.display v := by
  rw [Heap.display, a.depth, a.write, Heap.display]

@[grind =>]
theorem repr (v : Value) : h.repr v = h'.repr v := by
  rw [Heap.repr, a.depth, a.write, Heap.repr]

@[grind =>]
theorem message (exc : Ref) : h.message exc = h'.message exc := a.display _

@[grind =>]
theorem truth (v : Value) : h.truth v = h'.truth v := by
  unfold Heap.truth
  cases v <;> simp only [a.tuple, a.list, a.dict]

theorem keyWithin (fuel : Nat) : ∀ v, h.keyWithin fuel v = h'.keyWithin fuel v := by
  induction fuel with
  | zero => exact fun _ => rfl
  | succ fuel ih =>
    intro v
    unfold Heap.keyWithin
    cases v <;> simp only [a.tuple, funext ih]

@[grind =>]
theorem key (v : Value) : h.key v = h'.key v := by
  rw [Heap.key, a.depth, a.keyWithin, Heap.key]

@[grind =>]
theorem classAttr? (name : String) : h.classAttr? r name = h'.classAttr? r name := by
  rw [Heap.classAttr?, a.inst, a.classObj, Heap.classAttr?]

@[grind =>]
theorem excKind? (v : Value) : h.excKind? v = h'.excKind? v := by
  unfold Heap.excKind?
  cases v <;> simp only [a.kind]

@[grind =>]
theorem lookupGlobal? (globals builtins : Ref) (name : String) :
    h.lookupGlobal? globals builtins name = h'.lookupGlobal? globals builtins name := by
  unfold Heap.lookupGlobal?
  simp only [a.space]

@[grind =>]
theorem next? (s : IterState) : s.next? h = s.next? h' := by
  unfold IterState.next?
  cases s <;> simp only [a.list]

@[grind =>]
theorem isException (kind : ExceptionKind) (e : Fault) :
    e.isException h kind = e.isException h' kind := by
  unfold Fault.isException
  cases e <;> simp only [a.kind]

@[grind =>]
theorem isInstanceWithin (fuel : Nat) :
    ∀ v c, BuiltinFn.isInstanceWithin h fuel v c = BuiltinFn.isInstanceWithin h' fuel v c := by
  induction fuel with
  | zero => exact fun _ _ => rfl
  | succ fuel ih =>
    intro v c
    unfold BuiltinFn.isInstanceWithin
    simp only [ih, a.inst, a.kind, a.tuple]

@[grind =>]
theorem isFinished : (h.generator r).isFinished = (h'.generator r).isFinished := by
  have held : (h.generator r).frame.isNone = (h'.generator r).frame.isNone := by
    have held := a.begun r
    generalize (h.generator r).frame = frame, (h'.generator r).frame = frame' at held
    cases held <;> rfl
  rw [Generator.isFinished, a.running, held, Generator.isFinished]

end Heap.Akin

end TieredMachine
