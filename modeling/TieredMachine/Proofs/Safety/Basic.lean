/-
  What runs uphold, and the faults they end with.

  A *regime* says what holds of the machine at every moment and which faults may come up.
  A computation is *safe* when it upholds the regime: begun in a machine that is as it
  should be it leaves one that is, and it ends with a fault only if that is permitted.
  Operations on values fail of themselves by raising an exception, or because the bound on
  the length of runs is reached; any other fault came out of a call or of a frame.

  * `Regime`, `Safe`: regimes, and computations that uphold one;
  * `Regime.Closed`: regimes that the basic steps uphold;
  * `Safe.andThen`, `Safe.handle`, …: composed computations.
-/
import TieredMachine.Proofs.Host.Law

namespace TieredMachine

/-- What a computation inside an instruction leaves of a frame: all but the value stack and
    the contents of variables. -/
structure Frame.Kept (f f' : Frame) : Prop extends f.Stays f' where
  blocks : f'.blocks = f.blocks
  locals : f'.locals.size = f.locals.size
  cells : f'.cells = f.cells

namespace Frame.Kept

theorem refl (f : Frame) : f.Kept f := ⟨.refl f, rfl, rfl, rfl⟩

theorem trans {f g h : Frame} (hg : f.Kept g) (hh : g.Kept h) : f.Kept h :=
  ⟨hg.toStays.trans hh.toStays, hh.blocks.trans hg.blocks, hh.locals.trans hg.locals,
    hh.cells.trans hg.cells⟩

end Frame.Kept

/-- What runs are to uphold. -/
structure Regime where
  /-- what holds of the machine at every moment -/
  holds : Machine → Prop
  /-- what holds of the frame that runs, inside an instruction -/
  fits : Frame → Prop
  /-- the faults that a run may end with -/
  permits : Fault → Prop

/-- An outcome that a regime accepts. -/
def Regime.Accepts {α : Type} (R : Regime) : EStateM.Result Fault Machine α → Prop
  | .ok _ m => R.holds m
  | .error e m => R.holds m ∧ R.permits e

/-- The computation upholds the regime. -/
def Safe {α : Type} (R : Regime) (x : Exec α) : Prop := ∀ m, R.holds m → R.Accepts (x m)

/-- A change of the heap that leaves code units, namespaces, functions and generators
    alone. -/
structure Heap.Tame (f : Heap → Heap) : Prop where
  units : ∀ h, (f h).units = h.units
  namespaces : ∀ h, (f h).namespaces = h.namespaces
  functions : ∀ h, (f h).functions = h.functions
  generators : ∀ h, (f h).generators = h.generators

@[grind =]
theorem Heap.tame_iff (f : Heap → Heap) : Heap.Tame f ↔
    (∀ h, (f h).units = h.units) ∧ (∀ h, (f h).namespaces = h.namespaces) ∧
      (∀ h, (f h).functions = h.functions) ∧ ∀ h, (f h).generators = h.generators :=
  ⟨fun h => ⟨h.1, h.2, h.3, h.4⟩, fun ⟨h₁, h₂, h₃, h₄⟩ => ⟨h₁, h₂, h₃, h₄⟩⟩

/-- The basic steps of running code uphold the regime. -/
class Regime.Closed (R : Regime) : Prop where
  raised : ∀ exc, R.permits (.raised exc)
  outOfFuel : R.permits .outOfFuel
  capacityOverflow : R.permits .capacityOverflow
  misuse : ∀ m, R.permits (.runtime m)
  fits_of_kept : ∀ {f f'}, f.Kept f' → R.fits f → R.fits f'
  edit : ∀ {m} {f : Heap → Heap}, Heap.Tame f → R.holds m → R.holds (m.mapHeap f)
  bind : ∀ {m} r {f : Namespace → Namespace}, (∀ n : Namespace, n.Evolves (f n)) → R.holds m →
    R.holds (m.mapSpace r f)
  /-- a generator that is not given a frame -/
  changeGenerator : ∀ {m} r {f : Generator → Generator},
    (∀ gen fr, (f gen).frame = some fr → gen.frame = some fr) → R.holds m →
      R.holds (m.mapHeap fun h => { h with generators := h.generators.modify r f })
  /-- a new function that has as many cells as its unit has free variables -/
  addFunction : ∀ {m : Machine} (func : Function),
    func.closure.size = (m.heap.unit func.code).freevars.size → R.holds m →
      R.holds (m.mapHeap fun h => (h.newFunction func).2)
  /-- a change that concerns neither the heap nor tiers -/
  touch : ∀ {m m' : Machine}, m.SameTiers m' → m'.heap = m.heap → R.holds m → R.holds m'

variable {R : Regime} {α β : Type}

/-! ## Composition -/

namespace Safe

@[grind .]
theorem ret (a : α) : Safe R (pure a : Exec α) := fun _ hm => hm

@[grind .]
theorem fail {e : Fault} (he : R.permits e) : Safe R (throw e : Exec α) := fun _ hm => ⟨hm, he⟩

@[grind .]
theorem andThen {x : Exec α} {f : α → Exec β} (hx : Safe R x) (hf : ∀ a, Safe R (f a)) :
    Safe R (x >>= f) := by
  intro m hm
  have h := hx m hm
  rw [bind_apply]
  cases hr : x m with
  | ok a m' =>
    rw [hr] at h
    exact hf a m' h
  | error e m' =>
    rw [hr] at h
    exact h

@[grind .]
theorem mapped {x : Exec α} (f : α → β) (hx : Safe R x) : Safe R (f <$> x) := by
  rw [← bind_pure_comp]
  exact hx.andThen fun _ => .ret _

theorem handle {x : Exec α} {f : Fault → Exec α} (hx : Safe R x)
    (hf : ∀ e, R.permits e → Safe R (f e)) : Safe R (tryCatch x f) := by
  intro m hm
  have h := hx m hm
  rw [tryCatch_apply]
  cases hr : x m with
  | ok a m' =>
    rw [hr] at h
    exact h
  | error e m' =>
    rw [hr] at h
    exact hf e h.2 m' h.1

theorem readThen {f : Machine → Exec α} (hf : ∀ m, Safe R (f m)) : Safe R (get >>= f) :=
  fun m hm => hf m m hm

theorem mapM {f : α → Exec β} (hf : ∀ a, Safe R (f a)) (as : List α) : Safe R (as.mapM f) := by
  induction as with
  | nil => exact .ret []
  | cons a as ih =>
    rw [List.mapM_cons]
    exact (hf a).andThen fun b => ih.andThen fun bs => .ret (b :: bs)

theorem foldlM {f : β → α → Exec β} (hf : ∀ b a, Safe R (f b a)) (b : β) (as : List α) :
    Safe R (as.foldlM f b) := by
  induction as generalizing b with
  | nil => exact .ret b
  | cons a as ih =>
    rw [List.foldlM_cons]
    exact (hf b a).andThen ih

theorem anyM {f : α → Exec Bool} (hf : ∀ a, Safe R (f a)) (as : List α) : Safe R (as.anyM f) := by
  induction as with
  | nil => exact .ret false
  | cons a as ih =>
    rw [List.anyM_cons]
    refine (hf a).andThen fun b => ?_
    cases b with
    | false => exact ih
    | true => exact .ret true

end Safe

/-! ## The basic steps -/

@[grind .]
theorem heap_safe : Safe R heap := fun _ hm => hm

section

variable [R.Closed]

/-- A change that concerns neither the heap nor tiers. -/
theorem Safe.touch {f : Machine → Machine} (hf : ∀ m : Machine, m.SameTiers (f m))
    (hh : ∀ m, (f m).heap = m.heap) : Safe R (modify f) :=
  fun m hm => Regime.Closed.touch (hf m) (hh m) hm

@[grind .]
theorem modifyHeap_safe {f : Heap → Heap} (hf : Heap.Tame f) : Safe R (modifyHeap f) :=
  fun _ hm => Regime.Closed.edit hf hm

@[grind .]
theorem alloc_safe {f : Heap → α × Heap} (hf : Heap.Tame fun h => (f h).2) : Safe R (alloc f) :=
  fun _ hm => Regime.Closed.edit hf hm

theorem outOfFuel_safe : Safe R (throw .outOfFuel : Exec α) := .fail Regime.Closed.outOfFuel

@[grind .]
theorem raised_safe (exc : Ref) : Safe R (throw (.raised exc) : Exec α) :=
  .fail (Regime.Closed.raised exc)

@[grind .]
theorem newException_safe (kind : ExceptionKind) (args : List Value) :
    Safe R (newException kind args) :=
  alloc_safe ⟨fun _ => rfl, fun _ => rfl, fun _ => rfl, fun _ => rfl⟩

@[grind .]
theorem raiseWith_safe (kind : ExceptionKind) (args : List Value) :
    Safe R (raiseWith kind args : Exec α) :=
  (newException_safe kind args).andThen raised_safe

@[grind .]
theorem raise_safe (kind : ExceptionKind) (message : String) :
    Safe R (raise kind message : Exec α) :=
  raiseWith_safe kind [.str message]

omit [R.Closed] in
/-- A handler of some exceptions lets the other faults out. -/
@[grind .]
theorem catching_safe (kind : ExceptionKind) {x handler : Exec α} (hx : Safe R x)
    (hh : Safe R handler) : Safe R (catching kind x handler) := by
  refine hx.handle fun e he => heap_safe.andThen fun h => ?_
  split
  · exact hh
  · exact .fail he

theorem nested_safe {x : Exec α} (hx : Safe R x) : Safe R (nested x) := by
  have enter : Safe R (modify fun m : Machine => { m with depth := m.depth + 1 }) :=
    .touch (fun _ => .of rfl rfl rfl rfl) fun _ => rfl
  have leave : Safe R (modify fun m : Machine => { m with depth := m.depth - 1 }) :=
    .touch (fun _ => .of rfl rfl rfl rfl) fun _ => rfl
  have run := enter.andThen fun _ => (hx.handle fun e he => leave.andThen fun _ => Safe.fail he)
    |>.andThen fun a => leave.andThen fun _ => Safe.ret a
  refine .readThen fun m => ?_
  dsimp only
  split
  · exact (raise_safe _ _).andThen fun _ => run
  · exact run

end

end TieredMachine
