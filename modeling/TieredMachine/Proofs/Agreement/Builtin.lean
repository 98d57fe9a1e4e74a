/-
  Built-in functions agree.

  With engines that agree, every built-in function agrees that has nothing to do with
  tiers.
-/
import TieredMachine.Builtin.Dispatch
import TieredMachine.Proofs.Agreement.Operator

namespace TieredMachine

variable {C : Comparison Machine} [C.Closed] {g g' : Guest} {α : Type}

namespace BuiltinFn

/-! ## Arguments -/

@[grind .]
theorem arityError_agrees (name expected : String) (one : Bool) (given : Nat) :
    C.Same (arityError name expected one given : Exec α)
      (arityError name expected one given : Exec α) := by
  unfold arityError
  grind -funext

@[grind .]
theorem exactly_agrees (name : String) (n : Nat) (args : List Value) :
    C.Same (exactly name n args) (exactly name n args) := by
  unfold exactly
  grind -funext

@[grind .]
theorem atLeast_agrees (name : String) (low : Nat) (args : List Value) :
    C.Same (atLeast name low args) (atLeast name low args) := by
  unfold atLeast
  grind -funext

@[grind .]
theorem between_agrees (name : String) (low high : Nat) (args : List Value) :
    C.Same (between name low high args) (between name low high args) := by
  unfold between
  grind -funext

@[grind .]
theorem intArg_agrees (name : String) (v : Value) :
    C.Same (intArg name v) (intArg name v) := by
  unfold intArg
  grind -funext

/-! ## Functions -/

@[grind .]
theorem lenOf_agrees (args : List Value) :
    C.Same (lenOf args) (lenOf args) := by
  unfold lenOf
  grind -funext

@[grind .]
theorem rangeOf_agrees (name : String) (args : List Value) :
    C.Same (rangeOf name args) (rangeOf name args) := by
  unfold rangeOf
  have bounds : C.Same (args.mapM (intArg name))
      (args.mapM (intArg name)) := .mapM (intArg_agrees name) args
  grind -funext

@[grind .]
theorem rangeList_agrees (args : List Value) :
    C.Same (rangeList args) (rangeList args) := by
  unfold rangeList
  grind -funext

@[grind .]
theorem rangeIterator_agrees (args : List Value) :
    C.Same (rangeIterator args) (rangeIterator args) := by
  unfold rangeIterator Heap.newIterator
  grind -funext

@[grind .]
theorem best_agrees (hg : Serves C g g') (op : CmpOp) :
    ∀ vs v, C.Same (best g op v vs) (best g' op v vs)
  | [], v => .ret v
  | w :: vs, v => by
    have ih := best_agrees hg op vs
    unfold best
    grind -funext

@[grind .]
theorem extremum_agrees (hg : Serves C g g') (name : String) (op : CmpOp)
    (args : List Value) :
    C.Same (extremum g name op args) (extremum g' name op args) := by
  unfold extremum
  grind -funext

@[grind .]
theorem sumOf_agrees (hg : Serves C g g') (args : List Value) :
    C.Same (sumOf g args) (sumOf g' args) := by
  unfold sumOf
  have sum := Comparison.Same.foldlM (binary_agrees hg .add)
  grind -funext

@[grind .]
theorem absOf_agrees (hg : Serves C g g') (args : List Value) :
    C.Same (absOf g args) (absOf g' args) := by
  unfold absOf
  grind -funext

@[grind .]
theorem toInt_agrees (args : List Value) :
    C.Same (toInt args) (toInt args) := by
  unfold toInt
  grind -funext

@[grind .]
theorem toFloat_agrees (args : List Value) :
    C.Same (toFloat args) (toFloat args) := by
  unfold toFloat
  grind -funext

@[grind .]
theorem toStr_agrees (args : List Value) :
    C.Same (toStr args) (toStr args) := by
  unfold toStr
  grind -funext

@[grind .]
theorem toRepr_agrees (args : List Value) :
    C.Same (toRepr args) (toRepr args) := by
  unfold toRepr
  grind -funext

@[grind .]
theorem toBool_agrees (args : List Value) :
    C.Same (toBool args) (toBool args) := by
  unfold toBool
  grind -funext

@[grind .]
theorem toList_agrees (hg : Serves C g g') (args : List Value) :
    C.Same (toList g args) (toList g' args) := by
  unfold toList
  grind -funext

@[grind .]
theorem toTuple_agrees (hg : Serves C g g') (args : List Value) :
    C.Same (toTuple g args) (toTuple g' args) := by
  unfold toTuple
  grind -funext

@[grind .]
theorem iterOf_agrees (hg : Serves C g g') (args : List Value) :
    C.Same (iterOf g args) (iterOf g' args) := by
  unfold iterOf
  grind -funext

@[grind .]
theorem nextOf_agrees (hg : Serves C g g') (args : List Value) :
    C.Same (nextOf g args) (nextOf g' args) := by
  unfold nextOf
  grind -funext

@[grind .]
theorem isInstance_agrees (args : List Value) :
    C.Same (isInstance args) (isInstance args) := by
  unfold isInstance
  grind -funext

/-! ## Methods -/

@[grind .]
theorem append_agrees (args : List Value) :
    C.Same (append args) (append args) := by
  unfold append
  grind -funext

@[grind .]
theorem popItem_agrees (args : List Value) :
    C.Same (popItem args) (popItem args) := by
  unfold popItem
  refine (between_agrees "pop" 1 2 args).andThen fun _ => ?_
  split
  · rename_i r index
    refine heapThen fun h h' alike => ?_
    rw [← alike.list]
    have taken (p : Nat) : C.Same
        (do modifyList r (·.eraseIdxIfInBounds p); return (h.list r)[p]?.getD .none)
        (do modifyList r (·.eraseIdxIfInBounds p); return (h.list r)[p]?.getD .none) :=
      (modifyList_agrees r _).andThen fun _ => .ret _
    cases index <;> grind -funext
  · exact .ret _

@[grind .]
theorem extend_agrees (hg : Serves C g g') (args : List Value) :
    C.Same (extend g args) (extend g' args) := by
  unfold extend
  grind -funext

@[grind .]
theorem getItem_agrees (args : List Value) :
    C.Same (getItem args) (getItem args) := by
  unfold getItem
  grind -funext

theorem entryList_agrees (name : String) {part : Value × Value → Exec Value}
    (h : ∀ p, C.Same (part p) (part p)) (args : List Value) :
    C.Same (entryList name part args) (entryList name part args) := by
  have parts := Comparison.Same.mapM h
  unfold entryList
  grind -funext

@[grind .]
theorem textParts_agrees :
    ∀ vs n, C.Same (textParts n vs) (textParts n vs)
  | [], _ => .ret []
  | v :: vs, n => by
    have ih := textParts_agrees vs
    unfold textParts
    grind -funext

@[grind .]
theorem joinTexts_agrees (hg : Serves C g g') (args : List Value) :
    C.Same (joinTexts g args) (joinTexts g' args) := by
  unfold joinTexts
  grind -funext

@[grind .]
theorem send_agrees (hg : Serves C g g') (args : List Value) :
    C.Same (send g args) (send g' args) := by
  unfold send
  grind -funext

@[grind .]
theorem resumeNext_agrees (hg : Serves C g g') (args : List Value) :
    C.Same (resumeNext g args) (resumeNext g' args) := by
  unfold resumeNext
  grind -funext

@[grind .]
theorem thrown_agrees (exc : Value) (value : Option Value) :
    C.Same (thrown exc value) (thrown exc value) := by
  unfold thrown
  grind -funext

@[grind .]
theorem throwInto_agrees (hg : Serves C g g') (args : List Value) :
    C.Same (throwInto g args) (throwInto g' args) := by
  unfold throwInto
  grind -funext

@[grind .]
theorem close_agrees (hg : Serves C g g') (args : List Value) :
    C.Same (close g args) (close g' args) := by
  unfold close
  grind -funext

/-! ## Requests and texts -/

@[grind .]
theorem setTracing_agrees (on : Bool) : C.Same (setTracing on) (setTracing on) :=
  (Comparison.Closed.trace on).andThen fun _ => .ret _

@[grind .]
theorem requestBail_agrees : C.Same requestBail requestBail :=
  Comparison.Closed.ask.andThen fun _ => .ret _

@[grind .]
theorem emitTexts_agrees (args : List Value) :
    C.Same (emitTexts args) (emitTexts args) :=
  heapThen fun _ _ alike => by
    rw [funext alike.repr]
    exact (Comparison.Closed.emit _).andThen fun _ => .ret _

@[grind .]
theorem hasFinished_agrees (args : List Value) :
    C.Same (hasFinished args) (hasFinished args) := by
  unfold hasFinished
  grind -funext

@[grind .]
theorem setGlobalTo_agrees (args : List Value) :
    C.Same (setGlobalTo args) (setGlobalTo args) := by
  unfold setGlobalTo
  split
  · exact (Comparison.Closed.bindGlobal _ _).andThen fun _ => .ret _
  · exact (Comparison.Same.ret _).andThen fun _ => .ret _

attribute [grind .] entryList_agrees

/-- Every built-in function agrees but those that look at tiers or turn them. -/
theorem run_agrees (hg : Serves C g g') (args : List Value) {fn : BuiltinFn}
    (discreet : fn.isTierAware = false) (h : fn ≠ .resetTier) :
    C.Same (fn.run g args) (fn.run g' args) := by
  cases fn with
  | setLevel | tier | setBailError => simp [isTierAware] at discreet
  | resetTier => exact absurd rfl h
  | _ => unfold run; grind -funext

end BuiltinFn

end TieredMachine
