/-
  Built-in functions are safe.

  With an engine whose calls and resumed generators uphold a regime, every built-in function
  upholds it that has nothing to do with tiers.  Knobs turned from guest code leave a valid
  machine valid.

  * one lemma for each function, in the order of the functions;
  * `BuiltinFn.run_safe`: every built-in function, on valid machines.
-/
import TieredMachine.Builtin.Dispatch
import TieredMachine.Proofs.Safety.Operation
import TieredMachine.Proofs.Safety.Tier

namespace TieredMachine

namespace BuiltinFn

section

variable {R : Regime} [R.Closed] {g : Guest} {α : Type}

/-! ## Arguments -/

@[grind .]
theorem arityError_safe (name expected : String) (one : Bool) (given : Nat) :
    Safe R (arityError name expected one given : Exec α) :=
  typeError_safe _

@[grind .]
theorem exactly_safe (name : String) (n : Nat) (args : List Value) :
    Safe R (exactly name n args) := by
  unfold exactly
  grind -funext

@[grind .]
theorem atLeast_safe (name : String) (low : Nat) (args : List Value) :
    Safe R (atLeast name low args) := by
  unfold atLeast
  grind -funext

@[grind .]
theorem between_safe (name : String) (low high : Nat) (args : List Value) :
    Safe R (between name low high args) := by
  unfold between
  grind -funext

@[grind .]
theorem intArg_safe (name : String) (v : Value) : Safe R (intArg name v) := by
  unfold intArg
  grind -funext

/-! ## Functions -/

theorem lenOf_safe (args : List Value) : Safe R (lenOf args) := by
  unfold lenOf
  grind -funext

@[grind .]
theorem rangeOf_safe (name : String) (args : List Value) : Safe R (rangeOf name args) := by
  have checked (r : Range) : Safe R
      (if r.step = 0 then valueError s!"{name}() step argument must not be zero"
      else return r) := by
    split
    · exact valueError_safe _
    · exact .ret r
  exact (between_safe name 1 3 args).andThen fun _ =>
    (Safe.mapM (intArg_safe name) args).andThen fun bounds => checked _

theorem rangeList_safe (args : List Value) : Safe R (rangeList args) :=
  (rangeOf_safe "range" args).andThen fun _ => newList_safe _

theorem rangeIterator_safe (args : List Value) : Safe R (rangeIterator args) := by
  unfold rangeIterator Heap.newIterator
  grind -funext

@[grind .]
theorem best_safe (hg : g.Safe R) (op : CmpOp) (v : Value) (vs : List Value) :
    Safe R (best g op v vs) := by
  induction vs generalizing v with
  | nil => exact .ret v
  | cons w vs ih =>
    refine (compare_safe hg op w v).andThen fun answer => (truthOf_safe answer).andThen
      fun beats => ?_
    cases beats with
    | true => exact ih w
    | false => exact ih v

theorem extremum_safe (hg : g.Safe R) (name : String) (op : CmpOp) (args : List Value) :
    Safe R (extremum g name op args) := by
  unfold extremum
  grind -funext

theorem sumOf_safe (hg : g.Safe R) (args : List Value) : Safe R (sumOf g args) := by
  refine (between_safe "sum" 1 2 args).andThen fun _ => ?_
  cases args with
  | nil => exact .ret _
  | cons v start =>
    exact (collect_safe hg v).andThen fun items => Safe.foldlM (binary_safe hg .add) _ items

theorem absOf_safe (hg : g.Safe R) (args : List Value) : Safe R (absOf g args) := by
  unfold absOf
  grind -funext

theorem toInt_safe (args : List Value) : Safe R (toInt args) := by
  unfold toInt
  grind -funext

theorem toFloat_safe (args : List Value) : Safe R (toFloat args) := by
  unfold toFloat
  grind -funext

theorem toStr_safe (args : List Value) : Safe R (toStr args) := by
  unfold toStr
  grind -funext

theorem toRepr_safe (args : List Value) : Safe R (toRepr args) :=
  (exactly_safe "repr" 1 args).andThen fun _ => heap_safe.andThen fun _ => .ret _

theorem toBool_safe (args : List Value) : Safe R (toBool args) := by
  unfold toBool
  grind -funext

theorem toList_safe (hg : g.Safe R) (args : List Value) : Safe R (toList g args) := by
  unfold toList
  grind -funext

theorem toTuple_safe (hg : g.Safe R) (args : List Value) : Safe R (toTuple g args) := by
  unfold toTuple
  grind -funext

theorem iterOf_safe (hg : g.Safe R) (args : List Value) : Safe R (iterOf g args) :=
  (exactly_safe "iter" 1 args).andThen fun _ => iterate_safe hg _

theorem nextOf_safe (hg : g.Safe R) (args : List Value) : Safe R (nextOf g args) := by
  unfold nextOf
  grind -funext

theorem isInstance_safe (args : List Value) : Safe R (isInstance args) := by
  unfold isInstance
  grind -funext

/-! ## Methods -/

theorem append_safe (args : List Value) : Safe R (append args) := by
  unfold append
  grind -funext

theorem popItem_safe (args : List Value) : Safe R (popItem args) := by
  refine (between_safe "pop" 1 2 args).andThen fun _ => ?_
  split
  · rename_i r index
    refine heap_safe.andThen fun h => ?_
    have taken (p : Nat) : Safe R
        (do modifyList r (·.eraseIdxIfInBounds p); return (h.list r)[p]?.getD .none) :=
      (modifyList_safe r _).andThen fun _ => .ret _
    cases index <;> grind -funext
  · exact .ret _

theorem extend_safe (hg : g.Safe R) (args : List Value) : Safe R (extend g args) := by
  unfold extend
  grind -funext

theorem getItem_safe (args : List Value) : Safe R (getItem args) := by
  unfold getItem
  grind -funext

theorem entryList_safe (name : String) {part : Value × Value → Exec Value}
    (h : ∀ p, Safe R (part p)) (args : List Value) : Safe R (entryList name part args) := by
  refine (exactly_safe name 1 args).andThen fun _ => ?_
  split
  · exact heap_safe.andThen fun heap => (Safe.mapM h _).andThen fun _ => newList_safe _
  · exact newList_safe _

@[grind .]
theorem textParts_safe (n : Nat) (vs : List Value) : Safe R (textParts n vs) := by
  induction vs generalizing n with
  | nil => exact .ret []
  | cons v vs ih =>
    unfold textParts
    grind -funext

theorem joinTexts_safe (hg : g.Safe R) (args : List Value) : Safe R (joinTexts g args) := by
  unfold joinTexts
  grind -funext

theorem send_safe (hg : g.Safe R) (args : List Value) : Safe R (send g args) := by
  unfold send
  grind -funext

theorem resumeNext_safe (hg : g.Safe R) (args : List Value) : Safe R (resumeNext g args) := by
  unfold resumeNext
  grind -funext

@[grind .]
theorem thrown_safe (exc : Value) (value : Option Value) : Safe R (thrown exc value) := by
  unfold thrown
  grind -funext

theorem throwInto_safe (hg : g.Safe R) (args : List Value) : Safe R (throwInto g args) := by
  unfold throwInto
  grind -funext

theorem close_safe (hg : g.Safe R) (args : List Value) : Safe R (close g args) := by
  unfold close
  grind -funext

/-! ## Requests, texts and names -/

/-- A change that concerns neither the heap nor tiers, and an answer. -/
theorem touched_safe {f : Machine → Machine} (hf : ∀ m : Machine, m.SameTiers (f m))
    (hh : ∀ m, (f m).heap = m.heap) (a : α) : Safe R (do modify f; return a) :=
  (Safe.touch hf hh).andThen fun _ => .ret a

theorem setTracing_safe (on : Bool) : Safe R (setTracing on) :=
  touched_safe (f := fun m => { m with tracing := on }) (fun _ => .of rfl rfl rfl rfl)
    (fun _ => rfl) _

theorem requestBail_safe : Safe R requestBail :=
  touched_safe (f := fun m => { m with requested := true }) (fun _ => .of rfl rfl rfl rfl)
    (fun _ => rfl) _

theorem emitTexts_safe (args : List Value) : Safe R (emitTexts args) :=
  heap_safe.andThen fun h => touched_safe
    (f := fun m => { m with out := m.out.push (Text.join " " (args.map h.repr)) })
    (fun _ => .of rfl rfl rfl rfl) (fun _ => rfl) _

omit [R.Closed] in
theorem hasFinished_safe (args : List Value) : Safe R (hasFinished args) := by
  unfold hasFinished
  grind -funext

theorem setBailErrorTo_safe (args : List Value) : Safe R (setBailErrorTo args) :=
  (truthOf_safe _).andThen fun on => touched_safe (f := fun m => { m with bailError := on })
    (fun _ => .of rfl rfl rfl rfl) (fun _ => rfl) _

theorem setGlobalTo_safe (args : List Value) : Safe R (setGlobalTo args) := by
  unfold setGlobalTo
  split
  · rename_i name v _
    have bound : Safe R (modify fun m : Machine => m.mapSpace m.globals (·.set name v)) :=
      fun m hm => Regime.Closed.bind m.globals (fun n => n.evolves_set name v) hm
    exact bound.andThen fun _ => .ret _
  · exact (Safe.ret ()).andThen fun _ => .ret _

end

/-! ## Knobs -/

variable {us : Array CodeUnit} {stops : Nat → Prop} {u : CodeUnit} {g : Guest}

theorem compileAt_safe (args : List Value) : Safe (.validated us stops u) (compileAt args) := by
  unfold compileAt
  split
  · rename_i r n
    refine heap_safe.andThen fun h => ?_
    have set : Safe (.validated us stops u)
        (modifyGet (·.setLevel (h.function r).code n.toInt) : Exec (Except CompileError Unit)) :=
      fun m hm => Machine.Valid.setLevel hm _ _
    refine set.andThen fun answer => ?_
    cases answer with
    | ok _ => exact .ret _
    | error e => exact .ret _
  · exact .ret _

theorem tierOf_safe (args : List Value) : Safe (.validated us stops u) (tierOf args) := by
  refine .readThen fun m => ?_
  split
  · exact .ret _
  · exact .ret _

theorem resetTierOf_safe (args : List Value) : Safe (.validated us stops u) (resetTierOf args) := by
  refine heap_safe.andThen fun h => ?_
  split
  · rename_i unit _
    have reset : Safe (.validated us stops u) (modify (·.resetTier unit) : Exec Unit) :=
      fun m hm => Machine.Valid.resetTier hm unit
    exact reset.andThen fun _ => .ret _
  · exact (Safe.ret ()).andThen fun _ => .ret _

/-- Every built-in function leaves a valid machine valid. -/
theorem run_safe (hg : g.Safe (.validated us stops u)) (args : List Value) (fn : BuiltinFn) :
    Safe (.validated us stops u) (fn.run g args) := by
  cases fn with
  | len => exact lenOf_safe args
  | range => exact rangeList_safe args
  | xrange => exact rangeIterator_safe args
  | abs => exact absOf_safe hg args
  | min => exact extremum_safe hg "min" .lt args
  | max => exact extremum_safe hg "max" .gt args
  | sum => exact sumOf_safe hg args
  | int => exact toInt_safe args
  | float => exact toFloat_safe args
  | str => exact toStr_safe args
  | repr => exact toRepr_safe args
  | bool => exact toBool_safe args
  | list => exact toList_safe hg args
  | tuple => exact toTuple_safe hg args
  | iter => exact iterOf_safe hg args
  | next => exact nextOf_safe hg args
  | isinstance => exact isInstance_safe args
  | listAppend => exact append_safe args
  | listPop => exact popItem_safe args
  | listExtend => exact extend_safe hg args
  | dictGet => exact getItem_safe args
  | dictKeys => exact entryList_safe _ (fun _ => .ret _) args
  | dictValues => exact entryList_safe _ (fun _ => .ret _) args
  | dictItems => exact entryList_safe _ (fun _ => newTuple_safe _) args
  | strJoin => exact joinTexts_safe hg args
  | genSend => exact send_safe hg args
  | genNext => exact resumeNext_safe hg args
  | genThrow => exact throwInto_safe hg args
  | genClose => exact close_safe hg args
  | bail => exact requestBail_safe
  | traceOn => exact setTracing_safe true
  | traceOff => exact setTracing_safe false
  | emit => exact emitTexts_safe args
  | finished => exact hasFinished_safe args
  | setLevel => exact compileAt_safe args
  | tier => exact tierOf_safe args
  | resetTier => exact resetTierOf_safe args
  | setBailError => exact setBailErrorTo_safe args
  | setGlobal => exact setGlobalTo_safe args

end BuiltinFn

end TieredMachine
