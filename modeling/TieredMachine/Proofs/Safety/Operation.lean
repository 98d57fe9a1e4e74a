/-
  Operations are safe.

  With an engine whose calls and resumed generators uphold a regime, every operation on
  values upholds it: what it adds are exceptions and used up fuel.

  * `Guest.Safe`: engines that uphold a regime;
  * one lemma for each operation, in the order of the operations.
-/
import TieredMachine.Operation.Comparison
import TieredMachine.Operation.Attribute
import TieredMachine.Proofs.Safety.Basic

namespace TieredMachine

/-- Calls and resumed generators that an engine is asked for uphold the regime. -/
structure Guest.Safe (R : Regime) (g : Guest) : Prop where
  call : ∀ callee args kwargs, TieredMachine.Safe R (g.call callee args kwargs)
  resume : ∀ r how, TieredMachine.Safe R (resumeGenerator g r how)

attribute [grind .] Guest.Safe.call Guest.Safe.resume

variable {R : Regime} [R.Closed] {g : Guest} {α : Type}

/-! ## Raising -/

@[grind .]
theorem typeError_safe (s : String) : Safe R (typeError s : Exec α) := raise_safe _ s

@[grind .]
theorem valueError_safe (s : String) : Safe R (valueError s : Exec α) := raise_safe _ s

@[grind .]
theorem indexError_safe (s : String) : Safe R (indexError s : Exec α) := raise_safe _ s

/-! ## Values, dictionaries and lists -/

omit [R.Closed] in
@[grind .]
theorem truthOf_safe (v : Value) : Safe R (truthOf v) := heap_safe.andThen fun _ => .ret _

@[grind .]
theorem keyOf_safe (v : Value) : Safe R (keyOf v) := by
  unfold keyOf
  grind -funext

omit [R.Closed] in
@[grind .]
theorem callSpecial_safe (hg : g.Safe R) (v : Value) (name : String) (args : List Value) :
    Safe R (callSpecial g v name args) := by
  unfold callSpecial
  grind -funext

@[grind .]
theorem dictGet?_safe (r : Ref) (key : Value) : Safe R (dictGet? r key) :=
  (keyOf_safe key).andThen fun _ => heap_safe.andThen fun _ => .ret _

@[grind .]
theorem dictContains_safe (r : Ref) (key : Value) : Safe R (dictContains r key) :=
  (keyOf_safe key).andThen fun _ => heap_safe.andThen fun _ => .ret _

@[grind .]
theorem dictInsert_safe (r : Ref) (key v : Value) : Safe R (dictInsert r key v) :=
  (keyOf_safe key).andThen fun _ =>
    modifyHeap_safe ⟨fun _ => rfl, fun _ => rfl, fun _ => rfl, fun _ => rfl⟩

@[grind .]
theorem dictErase_safe (r : Ref) (key : Value) : Safe R (dictErase r key) :=
  (keyOf_safe key).andThen fun _ => heap_safe.andThen fun _ => Safe.andThen
    (modifyHeap_safe ⟨fun _ => rfl, fun _ => rfl, fun _ => rfl, fun _ => rfl⟩) fun _ => .ret _

@[grind .]
theorem modifyList_safe (r : Ref) (f : Array Value → Array Value) : Safe R (modifyList r f) :=
  modifyHeap_safe ⟨fun _ => rfl, fun _ => rfl, fun _ => rfl, fun _ => rfl⟩

@[grind .]
theorem newList_safe (items : List Value) : Safe R (newList items) :=
  alloc_safe ⟨fun _ => rfl, fun _ => rfl, fun _ => rfl, fun _ => rfl⟩

@[grind .]
theorem newTuple_safe (items : List Value) : Safe R (newTuple items) :=
  alloc_safe ⟨fun _ => rfl, fun _ => rfl, fun _ => rfl, fun _ => rfl⟩

/-! ## Attributes -/

@[grind .]
theorem noAttribute_safe (v : Value) (name : String) : Safe R (noAttribute v name : Exec α) :=
  heap_safe.andThen fun _ => raise_safe _ _

@[grind .]
theorem bindTo_safe (v func : Value) : Safe R (bindTo v func) :=
  alloc_safe ⟨fun _ => rfl, fun _ => rfl, fun _ => rfl, fun _ => rfl⟩

@[grind .]
theorem classAttribute_safe (hg : g.Safe R) (inst : Value) (r : Ref) (name : String) :
    Safe R (classAttribute g inst r name) := by
  unfold classAttribute
  grind -funext

@[grind .]
theorem getAttr_safe (hg : g.Safe R) (v : Value) (name : String) :
    Safe R (getAttr g v name) := by
  unfold getAttr Heap.newTuple Heap.newBuiltin
  grind -funext

@[grind .]
theorem setAttr_safe (v : Value) (name : String) (a : Value) : Safe R (setAttr v name a) := by
  unfold setAttr
  grind -funext

@[grind .]
theorem deleteAttr_safe (v : Value) (name : String) : Safe R (deleteAttr v name) := by
  unfold deleteAttr
  grind -funext

/-! ## Generators -/

/-- A generator is not given a frame that it did not hold. -/
theorem changeGenerator_safe (r : Ref) {f : Generator → Generator}
    (hf : ∀ gen fr, (f gen).frame = some fr → gen.frame = some fr) :
    Safe R (modifyGenerator r f) :=
  fun _ hm => Regime.Closed.changeGenerator r hf hm

@[grind .]
theorem alreadyExecuting_safe : Safe R (alreadyExecuting : Exec α) := valueError_safe _

@[grind .]
theorem resumeEnded_safe (how : Resumption) : Safe R (resumeEnded how) := by
  cases how with
  | send v => exact raiseWith_safe _ _
  | throw_ exc => exact raised_safe exc

@[grind .]
theorem endGenerator_safe (r : Ref) : Safe R (endGenerator r) :=
  changeGenerator_safe r fun _ _ h => h

omit [R.Closed] in
@[grind .]
theorem sendTo_safe (hg : g.Safe R) (r : Ref) (v : Value) : Safe R (sendTo g r v) :=
  hg.resume r _

omit [R.Closed] in
@[grind .]
theorem throwTo_safe (hg : g.Safe R) (r exc : Ref) : Safe R (throwTo g r exc) :=
  hg.resume r _

@[grind .]
theorem closeGenerator_safe (hg : g.Safe R) (r : Ref) : Safe R (closeGenerator g r) := by
  refine heap_safe.andThen fun h => ?_
  dsimp only
  split
  · exact alreadyExecuting_safe
  · split
    · exact .ret ()
    · split
      · exact changeGenerator_safe r fun _ _ h => by cases h
      · refine (newException_safe _ _).andThen fun exit => ?_
        have thrown := (throwTo_safe hg r exit).andThen fun _ => Safe.ret true
        refine (catching_safe _ (catching_safe _ thrown (.ret false)) (.ret false)).andThen
          fun ignored => ?_
        split
        · exact raise_safe _ _
        · exact .ret ()

/-! ## Iteration -/

@[grind .]
theorem notIterable_safe (v : Value) : Safe R (notIterable v : Exec α) := typeError_safe _

@[grind .]
theorem iterate_safe (hg : g.Safe R) (v : Value) : Safe R (iterate g v) := by
  unfold iterate Heap.newIterator
  grind -funext

@[grind .]
theorem notIterator_safe (v : Value) : Safe R (notIterator v : Exec α) := typeError_safe _

@[grind .]
theorem advance?_safe (hg : g.Safe R) (it : Value) : Safe R (advance? g it) := by
  unfold advance?
  grind -funext

@[grind .]
theorem drain_safe (hg : g.Safe R) (it : Value) (fuel : Nat) (items : Array Value) :
    Safe R (drain g it fuel items) := by
  induction fuel generalizing items with
  | zero => exact outOfFuel_safe
  | succ fuel ih =>
    refine (advance?_safe hg it).andThen fun next => ?_
    cases next with
    | none => exact .ret _
    | some v => exact ih _

@[grind .]
theorem collect_safe (hg : g.Safe R) (v : Value) : Safe R (collect g v) := by
  unfold collect
  grind -funext

/-! ## Subscription -/

@[grind .]
theorem positionOf_safe (index : Value) (len : Nat) (what : String) :
    Safe R (positionOf index len what) := by
  unfold positionOf
  grind -funext

@[grind .]
theorem sliceBound_safe (v : Value) : Safe R (sliceBound v) := by
  unfold sliceBound
  grind -funext

@[grind .]
theorem sliceStep_safe (s : SliceObj) : Safe R (sliceStep s) := by
  unfold sliceStep
  grind -funext

@[grind .]
theorem spanOf_safe (s : SliceObj) (len : Nat) : Safe R (spanOf s len) :=
  (sliceStep_safe s).andThen fun _ => (sliceBound_safe s.start).andThen fun _ =>
    (sliceBound_safe s.stop).andThen fun _ => .ret _

@[grind .]
theorem pickSlice_safe (s : SliceObj) (items : Array α) : Safe R (pickSlice s items) :=
  (spanOf_safe s _).andThen fun _ => .ret _

@[grind .]
theorem itemAt_safe (items : Array Value) (index : Value) (what : String) :
    Safe R (itemAt items index what) :=
  (positionOf_safe index _ what).andThen fun _ => .ret _

@[grind .]
theorem subscript_safe (container index : Value) : Safe R (subscript container index) := by
  unfold subscript Heap.newList Heap.newTuple
  grind -funext

@[grind .]
theorem assignSlice_safe (hg : g.Safe R) (r : Ref) (s : SliceObj) (v : Value) :
    Safe R (assignSlice g r s v) := by
  unfold assignSlice
  grind -funext

@[grind .]
theorem deleteSlice_safe (r : Ref) (s : SliceObj) : Safe R (deleteSlice r s) :=
  heap_safe.andThen fun _ => (spanOf_safe s _).andThen fun _ => modifyList_safe r _

@[grind .]
theorem setItem_safe (hg : g.Safe R) (container index v : Value) :
    Safe R (setItem g container index v) := by
  unfold setItem
  grind -funext

@[grind .]
theorem deleteItem_safe (hg : g.Safe R) (container index : Value) :
    Safe R (deleteItem g container index) := by
  unfold deleteItem
  grind -funext

/-! ## Operators -/

@[grind .]
theorem arithError_safe (e : Integer.ArithError) : Safe R (arithError e : Exec α) := by
  unfold arithError
  grind -funext

@[grind .]
theorem ofArith_safe (r : Except Integer.ArithError α) : Safe R (ofArith r) := by
  unfold ofArith
  grind -funext

@[grind .]
theorem floatBinary_safe (op : BinaryOp) (a b : Binary64) : Safe R (floatBinary op a b) := by
  unfold floatBinary
  grind -funext

@[grind .]
theorem integerBinary_safe (op : BinaryOp) (a b : Int64) : Safe R (integerBinary op a b) := by
  unfold integerBinary
  grind -funext

@[grind .]
theorem reserve_safe (bytes : Nat) : Safe R (reserve bytes) := by
  unfold reserve
  split
  · exact .fail Regime.Closed.capacityOverflow
  · exact .ret ()

@[grind .]
theorem repeatItems_safe (items : Array Value) (n : Nat) : Safe R (repeatItems items n) :=
  (reserve_safe _).andThen fun _ => .ret _

@[grind .]
theorem repeatSequence_safe (v : Value) (n : Nat) : Safe R (repeatSequence v n) := by
  unfold repeatSequence Heap.newList Heap.newTuple
  grind -funext

@[grind .]
theorem concat_safe (a b : Value) : Safe R (concat a b) := by
  unfold concat Heap.newList Heap.newTuple
  grind -funext

@[grind .]
theorem sequenceBinary_safe (op : BinaryOp) (a b : Value) :
    Safe R (sequenceBinary op a b) := by
  unfold sequenceBinary
  grind -funext

@[grind .]
theorem builtinBinary_safe (op : BinaryOp) (a b : Value) :
    Safe R (builtinBinary op a b) := by
  unfold builtinBinary
  grind -funext

@[grind .]
theorem leftBinary_safe (hg : g.Safe R) (op : BinaryOp) (a b : Value) :
    Safe R (leftBinary g op a b) := by
  unfold leftBinary
  grind -funext

omit [R.Closed] in
@[grind .]
theorem rightBinary_safe (hg : g.Safe R) (op : BinaryOp) (a b : Value) :
    Safe R (rightBinary g op a b) := by
  unfold rightBinary
  grind -funext

@[grind .]
theorem unsupportedOperands_safe (op : BinaryOp) (a b : Value) :
    Safe R (unsupportedOperands op a b : Exec α) := by
  unfold unsupportedOperands
  grind -funext

@[grind .]
theorem binary_safe (hg : g.Safe R) (op : BinaryOp) (a b : Value) :
    Safe R (binary g op a b) := by
  unfold binary
  grind -funext

@[grind .]
theorem inplaceLeft_safe (hg : g.Safe R) (op : BinaryOp) (a b : Value) :
    Safe R (inplaceLeft g op a b) := by
  unfold inplaceLeft
  grind -funext

@[grind .]
theorem inplace_safe (hg : g.Safe R) (op : BinaryOp) (a b : Value) :
    Safe R (inplace g op a b) := by
  unfold inplace
  grind -funext

@[grind .]
theorem unaryAnswer_safe (hg : g.Safe R) (op : UnaryOp) (v : Value) :
    Safe R (unaryAnswer g op v) := by
  unfold unaryAnswer
  grind -funext

@[grind .]
theorem unary_safe (hg : g.Safe R) (op : UnaryOp) (v : Value) : Safe R (unary g op v) := by
  unfold unary
  grind -funext

/-! ## Comparisons -/

omit [R.Closed] in
theorem allEqual_safe {eq : Value → Value → Exec Bool} (heq : ∀ a b, Safe R (eq a b))
    (as bs : List Value) : Safe R (allEqual eq as bs) := by
  induction as generalizing bs with
  | nil => cases bs <;> exact .ret _
  | cons a as ih =>
    cases bs with
    | nil => exact .ret _
    | cons b bs =>
      refine (heq a b).andThen fun same => ?_
      cases same with
      | false => exact .ret false
      | true => exact ih bs

theorem entriesEqual_safe {eq : Value → Value → Exec Bool} (heq : ∀ a b, Safe R (eq a b))
    (other : Dict) (entries : List (Value × Value)) : Safe R (entriesEqual eq other entries) := by
  induction entries with
  | nil => exact .ret true
  | cons e entries ih =>
    refine (keyOf_safe e.1).andThen fun k => ?_
    split
    · exact .ret false
    · refine (heq e.2 _).andThen fun same => ?_
      cases same with
      | false => exact .ret false
      | true => exact ih

theorem equalWithin_safe (hg : g.Safe R) (fuel : Nat) (a b : Value) :
    Safe R (equalWithin g fuel a b) := by
  induction fuel generalizing a b with
  | zero => exact outOfFuel_safe
  | succ fuel ih =>
    have all := allEqual_safe ih
    have entries := entriesEqual_safe ih
    unfold equalWithin
    grind -funext

@[grind .]
theorem equal_safe (hg : g.Safe R) (a b : Value) : Safe R (equal g a b) :=
  equalWithin_safe hg _ a b

omit [R.Closed] in
theorem orderItems_safe {eq : Value → Value → Exec Bool} {ord : Value → Value → Exec Ordering}
    (heq : ∀ a b, Safe R (eq a b)) (hord : ∀ a b, Safe R (ord a b)) (as bs : List Value) :
    Safe R (orderItems eq ord as bs) := by
  induction as generalizing bs with
  | nil => cases bs <;> exact .ret _
  | cons a as ih =>
    cases bs with
    | nil => exact .ret _
    | cons b bs =>
      refine (heq a b).andThen fun same => ?_
      cases same with
      | false => exact hord a b
      | true => exact ih bs

theorem orderWithin_safe (hg : g.Safe R) (fuel : Nat) (a b : Value) :
    Safe R (orderWithin g fuel a b) := by
  induction fuel generalizing a b with
  | zero => exact outOfFuel_safe
  | succ fuel ih =>
    have items := orderItems_safe (equal_safe hg) ih
    unfold orderWithin
    grind -funext

@[grind .]
theorem order_safe (hg : g.Safe R) (a b : Value) : Safe R (order g a b) :=
  orderWithin_safe hg _ a b

@[grind .]
theorem anyEqual_safe (hg : g.Safe R) (item : Value) (vs : List Value) :
    Safe R (anyEqual g item vs) := by
  induction vs with
  | nil => exact .ret false
  | cons v vs ih =>
    refine (equal_safe hg v item).andThen fun same => ?_
    cases same with
    | false => exact ih
    | true => exact .ret true

@[grind .]
theorem containsItem_safe (hg : g.Safe R) (container item : Value) :
    Safe R (containsItem g container item) := by
  unfold containsItem
  grind -funext

@[grind .]
theorem handlerMatches_safe (kind : ExceptionKind) (fuel : Nat) (handler : Value) :
    Safe R (handlerMatches kind fuel handler) := by
  induction fuel generalizing handler with
  | zero => exact outOfFuel_safe
  | succ fuel ih =>
    have each := Safe.anyM ih
    unfold handlerMatches
    grind -funext

@[grind .]
theorem excMatches_safe (exc handler : Value) : Safe R (excMatches exc handler) := by
  unfold excMatches
  grind -funext

@[grind .]
theorem compareOrder_safe (hg : g.Safe R) (op : CmpOp) (a b : Value) :
    Safe R (compareOrder g op a b) := by
  unfold compareOrder
  grind -funext

@[grind .]
theorem compare_safe (hg : g.Safe R) (op : CmpOp) (a b : Value) :
    Safe R (compare g op a b) := by
  unfold compare
  grind -funext

end TieredMachine
