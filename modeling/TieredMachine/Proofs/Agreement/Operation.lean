/-
  Operations agree.

  An operation on values asks the engine for calls and for resumed generators.  With
  engines that agree, it agrees in every comparison that the basic steps respect.

  * `Serves`: engines that agree on calls and on resumed generators;
  * one lemma for each operation, in the order of the operations.
-/
import TieredMachine.Operation.Comparison
import TieredMachine.Operation.Attribute
import TieredMachine.Proofs.Agreement.Step

namespace TieredMachine

/-- Engines that agree on calls and on resumed generators. -/
structure Serves (C : Comparison Machine) (g g' : Guest) : Prop where
  fuel : C.Fits g.fuel g'.fuel
  call : ∀ callee args kwargs, C.Same (g.call callee args kwargs)
    (g'.call callee args kwargs)
  resume : ∀ r how, C.Same (resumeGenerator g r how) (resumeGenerator g' r how)
  close : ∀ r, C.Same (closeGenerator g r) (closeGenerator g' r)

attribute [grind .] Comparison.Same.ret Comparison.Same.fail Comparison.Same.andThen
  Comparison.Same.mapped Serves.call Serves.resume Serves.close

variable {C : Comparison Machine} [C.Closed] {g g' : Guest} {α : Type}

/-! ## Raising -/

@[grind .]
theorem typeError_agrees (s : String) :
    C.Same (typeError s : Exec α) (typeError s) :=
  raise_agrees _ s

@[grind .]
theorem valueError_agrees (s : String) :
    C.Same (valueError s : Exec α) (valueError s) :=
  raise_agrees _ s

@[grind .]
theorem indexError_agrees (s : String) :
    C.Same (indexError s : Exec α) (indexError s) :=
  raise_agrees _ s

/-- Handling guest exceptions of a class agrees. -/
@[grind .]
theorem catching_agrees (kind : ExceptionKind) {x y handle handle' : Exec α}
    (h : C.Same x y) (hh : C.Same handle handle') :
    C.Same (catching kind x handle) (catching kind y handle') := by
  unfold catching
  refine h.catchRaised (fun exc => ?_) (fun e he => ?_) fun e he => ?_
  · refine heapThen fun h h' alike => ?_
    rw [alike.isException]
    split
    · exact hh
    · exact .fail _
  · cases e with
    | raised exc => exact absurd rfl (he exc)
    | _ => rfl
  · cases e with
    | raised exc => exact absurd rfl (he exc)
    | _ => rfl

/-! ## Values, dictionaries and lists -/

@[grind .]
theorem truthOf_agrees (v : Value) : C.Same (truthOf v) (truthOf v) := by
  unfold truthOf
  grind -funext

@[grind .]
theorem keyOf_agrees (v : Value) : C.Same (keyOf v) (keyOf v) := by
  unfold keyOf
  grind -funext

@[grind .]
theorem callSpecial_agrees (hg : Serves C g g') (v : Value) (name : String)
    (args : List Value) :
    C.Same (callSpecial g v name args) (callSpecial g' v name args) := by
  unfold callSpecial
  grind -funext

@[grind .]
theorem dictGet?_agrees (r : Ref) (key : Value) :
    C.Same (dictGet? r key) (dictGet? r key) := by
  unfold dictGet?
  grind -funext

@[grind .]
theorem dictContains_agrees (r : Ref) (key : Value) :
    C.Same (dictContains r key) (dictContains r key) := by
  unfold dictContains
  grind -funext

@[grind .]
theorem dictInsert_agrees (r : Ref) (key v : Value) :
    C.Same (dictInsert r key v) (dictInsert r key v) := by
  unfold dictInsert
  grind -funext

@[grind .]
theorem dictErase_agrees (r : Ref) (key : Value) :
    C.Same (dictErase r key) (dictErase r key) := by
  unfold dictErase
  grind -funext

@[grind .]
theorem modifyList_agrees (r : Ref) (f : Array Value → Array Value) :
    C.Same (modifyList r f) (modifyList r f) := by
  unfold modifyList
  grind -funext

@[grind .]
theorem newList_agrees (items : List Value) :
    C.Same (newList items)
      (newList items) := by
  unfold newList Heap.newList
  grind -funext

@[grind .]
theorem newTuple_agrees (items : List Value) :
    C.Same (newTuple items)
      (newTuple items) := by
  unfold newTuple Heap.newTuple
  grind -funext

theorem newSlice_agrees (s : SliceObj) :
    C.Same (alloc (·.newSlice s)) (alloc (·.newSlice s)) := by
  unfold Heap.newSlice
  grind -funext

theorem newFunction_agrees (func : Function) :
    C.Same (alloc (·.newFunction func)) (alloc (·.newFunction func)) := by
  unfold Heap.newFunction
  grind -funext

/-! ## Attributes -/

@[grind .]
theorem noAttribute_agrees (v : Value) (name : String) :
    C.Same (noAttribute v name : Exec α)
      (noAttribute v name : Exec α) := by
  unfold noAttribute
  grind -funext

@[grind .]
theorem bindTo_agrees (v func : Value) :
    C.Same (bindTo v func) (bindTo v func) := by
  unfold bindTo Heap.newMethod
  grind -funext

@[grind .]
theorem newBuiltin_agrees (fn : BuiltinFn) (h : fn.isTierAware = false) :
    C.Same (alloc (·.newBuiltin fn)) (alloc (·.newBuiltin fn)) :=
  Comparison.Closed.addBuiltin fn h

theorem builtinMethod?_discreet {v : Value} {name : String} {fn : BuiltinFn}
    (h : builtinMethod? v name = some fn) : fn.isTierAware = false := by
  unfold builtinMethod? at h
  split at h <;> grind [BuiltinFn.isTierAware]

@[grind .]
theorem classAttribute_agrees (hg : Serves C g g') (inst : Value) (r : Ref)
    (name : String) :
    C.Same (classAttribute g inst r name)
      (classAttribute g' inst r name) := by
  unfold classAttribute
  grind -funext

@[grind .]
theorem getAttr_agrees (hg : Serves C g g') (v : Value) (name : String) :
    C.Same (getAttr g v name) (getAttr g' v name) := by
  unfold getAttr Heap.newTuple
  refine heapThen fun h h' alike => ?_
  simp only [alike.inst, alike.classObj, alike.args, alike.message, alike.function]
  split
  all_goals try grind -funext
  split
  · rename_i fn hfn
    exact (newBuiltin_agrees fn (builtinMethod?_discreet hfn)).andThen fun b => bindTo_agrees _ b
  · exact noAttribute_agrees _ _

@[grind .]
theorem setAttr_agrees (v : Value) (name : String) (a : Value) :
    C.Same (setAttr v name a) (setAttr v name a) := by
  unfold setAttr
  grind -funext

@[grind .]
theorem deleteAttr_agrees (v : Value) (name : String) :
    C.Same (deleteAttr v name) (deleteAttr v name) := by
  unfold deleteAttr
  grind -funext

/-! ## Generators -/

@[grind .]
theorem alreadyExecuting_agrees :
    C.Same (alreadyExecuting : Exec α) alreadyExecuting :=
  valueError_agrees _

@[grind .]
theorem resumeEnded_agrees (how : Resumption) :
    C.Same (resumeEnded how) (resumeEnded how) := by
  unfold resumeEnded
  grind -funext

theorem endGenerator_agrees {W : World Machine} [W.Generative] {side : Side} (r : Ref) :
    Agrees W side (endGenerator r) (endGenerator r) :=
  World.Generative.changeGenerator side r fun _ _ h => h

omit [C.Closed] in
@[grind .]
theorem sendTo_agrees (hg : Serves C g g') (r : Ref) (v : Value) :
    C.Same (sendTo g r v) (sendTo g' r v) := by
  unfold sendTo
  grind -funext

omit [C.Closed] in
@[grind .]
theorem throwTo_agrees (hg : Serves C g g') (r exc : Ref) :
    C.Same (throwTo g r exc) (throwTo g' r exc) := by
  unfold throwTo
  grind -funext

/-- Engines that agree on resumed generators agree on closed ones. -/
theorem closeGenerator_agrees (r : Ref)
    (drop : C.Same (modifyGenerator r fun gen => { gen with frame := none })
      (modifyGenerator r fun gen => { gen with frame := none }))
    (resume : ∀ how, C.Same (resumeGenerator g r how) (resumeGenerator g' r how)) :
    C.Same (closeGenerator g r) (closeGenerator g' r) := by
  unfold closeGenerator
  refine heapThen fun h h' alike => ?_
  have held := alike.begun r
  dsimp only
  rw [alike.running]
  split
  · exact alreadyExecuting_agrees
  · generalize (h.generator r).frame = frame, (h'.generator r).frame = frame' at held
    cases held with
    | none => exact .ret ()
    | some begun =>
      dsimp only
      rw [begun]
      split
      · exact drop
      · refine (newException_agrees _ _).andThen fun exit => ?_
        have thrown := (resume (.throw_ exit)).andThen fun _ => .ret true
        exact (catching_agrees _ (catching_agrees _ thrown (.ret false)) (.ret false)).andThen
          fun ignored => by grind -funext

/-! ## Iteration -/

@[grind .]
theorem notIterable_agrees (v : Value) :
    C.Same (notIterable v : Exec α) (notIterable v : Exec α) := by
  unfold notIterable
  grind -funext

/-- A new iterator over what heaps that look alike have in common. -/
theorem newIterator_agrees {state : Heap → IterState}
    (hs : ∀ h h' : Heap, h.Akin h' → state h = state h') :
    C.Same (alloc fun h => h.newIterator (state h)) (alloc fun h => h.newIterator (state h)) := by
  refine alloc_agrees ⟨fun _ => rfl, fun _ => rfl, fun _ => rfl, fun _ => rfl, fun _ _ _ => rfl,
    fun a => { a with iterators := ?_ }⟩ fun h h' a => ?_
  · simp only [Heap.newIterator, a.iterators, hs _ _ a]
  · simp only [Heap.newIterator, a.iterators]

@[grind .]
theorem iterate_agrees (hg : Serves C g g') (v : Value) :
    C.Same (iterate g v) (iterate g' v) := by
  unfold iterate
  split
  · exact newIterator_agrees fun _ _ _ => rfl
  · exact newIterator_agrees fun _ _ alike => by rw [alike.tuple]
  · exact newIterator_agrees fun _ _ _ => rfl
  · exact newIterator_agrees fun _ _ alike => by rw [alike.dict]
  all_goals grind -funext

@[grind .]
theorem notIterator_agrees (v : Value) :
    C.Same (notIterator v : Exec α) (notIterator v : Exec α) := by
  unfold notIterator
  grind -funext

@[grind .]
theorem advance?_agrees (hg : Serves C g g') (it : Value) :
    C.Same (advance? g it) (advance? g' it) := by
  unfold advance?
  split
  · refine heapThen fun h h' alike => ?_
    rw [alike.iterator, alike.next?]
    split
    · exact .ret none
    · grind -funext
  · grind -funext
  · grind -funext
  · grind -funext

theorem drain_agrees (hg : Serves C g g') (it : Value) (items : Array Value) :
    C.Same (drain g it g.fuel items) (drain g' it g'.fuel items) := by
  refine .fueled (fun _ => rfl) (fun _ => rfl) (fun n n' ih items => ?_) hg.fuel items
  unfold drain
  grind -funext

@[grind .]
theorem collect_agrees (hg : Serves C g g') (v : Value) :
    C.Same (collect g v) (collect g' v) := by
  unfold collect
  grind -funext [drain_agrees]

/-! ## Subscription -/

@[grind .]
theorem positionOf_agrees (index : Value) (len : Nat) (what : String) :
    C.Same (positionOf index len what) (positionOf index len what) := by
  unfold positionOf
  grind -funext

@[grind .]
theorem sliceBound_agrees (v : Value) :
    C.Same (sliceBound v) (sliceBound v) := by
  unfold sliceBound
  grind -funext

@[grind .]
theorem sliceStep_agrees (s : SliceObj) :
    C.Same (sliceStep s) (sliceStep s) := by
  unfold sliceStep
  grind -funext

@[grind .]
theorem spanOf_agrees (s : SliceObj) (len : Nat) :
    C.Same (spanOf s len) (spanOf s len) := by
  unfold spanOf
  grind -funext

@[grind .]
theorem pickSlice_agrees (s : SliceObj) (items : Array α) :
    C.Same (pickSlice s items) (pickSlice s items) := by
  unfold pickSlice
  grind -funext

@[grind .]
theorem itemAt_agrees (items : Array Value) (index : Value) (what : String) :
    C.Same (itemAt items index what) (itemAt items index what) := by
  unfold itemAt
  grind -funext

@[grind .]
theorem subscript_agrees (container index : Value) :
    C.Same (subscript container index) (subscript container index) := by
  unfold subscript Heap.newList Heap.newTuple
  grind -funext

@[grind .]
theorem assignSlice_agrees (hg : Serves C g g') (r : Ref) (s : SliceObj) (v : Value) :
    C.Same (assignSlice g r s v) (assignSlice g' r s v) := by
  unfold assignSlice
  grind -funext

@[grind .]
theorem deleteSlice_agrees (r : Ref) (s : SliceObj) :
    C.Same (deleteSlice r s) (deleteSlice r s) := by
  unfold deleteSlice
  grind -funext

@[grind .]
theorem setItem_agrees (hg : Serves C g g') (container index v : Value) :
    C.Same (setItem g container index v)
      (setItem g' container index v) := by
  unfold setItem
  grind -funext

@[grind .]
theorem deleteItem_agrees (hg : Serves C g g') (container index : Value) :
    C.Same (deleteItem g container index)
      (deleteItem g' container index) := by
  unfold deleteItem
  grind -funext

end TieredMachine
