/-
  Operators and comparisons agree.

  With engines that agree, the operators agree, and so do the comparisons, which
  follow containers into each other as far as the engine's bound says.
-/
import TieredMachine.Proofs.Agreement.Operation

namespace TieredMachine

variable {C : Comparison Machine} [C.Closed] {g g' : Guest} {α : Type}

/-! ## Arithmetic -/

@[grind .]
theorem arithError_agrees (e : Integer.ArithError) :
    C.Same (arithError e : Exec α) (arithError e : Exec α) := by
  unfold arithError
  grind -funext

@[grind .]
theorem ofArith_agrees (r : Except Integer.ArithError α) :
    C.Same (ofArith r) (ofArith r) := by
  unfold ofArith
  grind -funext

@[grind .]
theorem floatBinary_agrees (op : BinaryOp) (a b : Binary64) :
    C.Same (floatBinary op a b) (floatBinary op a b) := by
  unfold floatBinary
  grind -funext

@[grind .]
theorem integerBinary_agrees (op : BinaryOp) (a b : Int64) :
    C.Same (integerBinary op a b) (integerBinary op a b) := by
  unfold integerBinary
  grind -funext

@[grind .]
theorem reserve_agrees (bytes : Nat) : C.Same (reserve bytes) (reserve bytes) := by
  unfold reserve
  grind -funext

@[grind .]
theorem repeatItems_agrees (items : Array Value) (n : Nat) :
    C.Same (repeatItems items n) (repeatItems items n) := by
  unfold repeatItems
  grind -funext

@[grind .]
theorem repeatSequence_agrees (v : Value) (n : Nat) :
    C.Same (repeatSequence v n) (repeatSequence v n) := by
  unfold repeatSequence Heap.newList Heap.newTuple
  grind -funext

@[grind .]
theorem concat_agrees (a b : Value) :
    C.Same (concat a b) (concat a b) := by
  unfold concat Heap.newList Heap.newTuple
  refine heapThen fun h h' alike => ?_
  simp only [alike.list, alike.tuple]
  grind -funext

@[grind .]
theorem sequenceBinary_agrees (op : BinaryOp) (a b : Value) :
    C.Same (sequenceBinary op a b) (sequenceBinary op a b) := by
  unfold sequenceBinary
  grind -funext

@[grind .]
theorem builtinBinary_agrees (op : BinaryOp) (a b : Value) :
    C.Same (builtinBinary op a b) (builtinBinary op a b) := by
  unfold builtinBinary
  grind -funext

@[grind .]
theorem leftBinary_agrees (hg : Serves C g g') (op : BinaryOp) (a b : Value) :
    C.Same (leftBinary g op a b) (leftBinary g' op a b) := by
  unfold leftBinary
  grind -funext

@[grind .]
theorem rightBinary_agrees (hg : Serves C g g') (op : BinaryOp) (a b : Value) :
    C.Same (rightBinary g op a b) (rightBinary g' op a b) := by
  unfold rightBinary
  grind -funext

@[grind .]
theorem unsupportedOperands_agrees (op : BinaryOp) (a b : Value) :
    C.Same (unsupportedOperands op a b : Exec α)
      (unsupportedOperands op a b : Exec α) := by
  unfold unsupportedOperands
  grind -funext

@[grind .]
theorem binary_agrees (hg : Serves C g g') (op : BinaryOp) (a b : Value) :
    C.Same (binary g op a b) (binary g' op a b) := by
  unfold binary
  grind -funext

@[grind .]
theorem inplaceLeft_agrees (hg : Serves C g g') (op : BinaryOp) (a b : Value) :
    C.Same (inplaceLeft g op a b) (inplaceLeft g' op a b) := by
  unfold inplaceLeft
  grind -funext

@[grind .]
theorem inplace_agrees (hg : Serves C g g') (op : BinaryOp) (a b : Value) :
    C.Same (inplace g op a b) (inplace g' op a b) := by
  unfold inplace
  grind -funext

@[grind .]
theorem unaryAnswer_agrees (hg : Serves C g g') (op : UnaryOp) (v : Value) :
    C.Same (unaryAnswer g op v) (unaryAnswer g' op v) := by
  unfold unaryAnswer
  grind -funext

@[grind .]
theorem unary_agrees (hg : Serves C g g') (op : UnaryOp) (v : Value) :
    C.Same (unary g op v) (unary g' op v) := by
  unfold unary
  grind -funext

/-! ## Equality -/

theorem allEqual_agrees {eq eq' : Value → Value → Exec Bool}
    (h : ∀ a b, C.Same (eq a b) (eq' a b)) :
    ∀ as bs, C.Same (allEqual eq as bs) (allEqual eq' as bs)
  | [], [] => .ret true
  | [], _ :: _ | _ :: _, [] => .ret false
  | a :: as, b :: bs => by
    have ih := allEqual_agrees h as bs
    unfold allEqual
    grind -funext

theorem entriesEqual_agrees {eq eq' : Value → Value → Exec Bool}
    (h : ∀ a b, C.Same (eq a b) (eq' a b)) (other : Dict) :
    ∀ entries, C.Same (entriesEqual eq other entries)
      (entriesEqual eq' other entries)
  | [] => .ret true
  | (k, v) :: entries => by
    have ih := entriesEqual_agrees h other entries
    unfold entriesEqual
    grind -funext

/-- Equality at one depth agrees when equality one level down does. -/
theorem equalWithin_step (hg : Serves C g g') {n n' : Nat}
    (ih : ∀ a b, C.Same (equalWithin g n a b) (equalWithin g' n' a b))
    (a b : Value) :
    C.Same (equalWithin g (n + 1) a b) (equalWithin g' (n' + 1) a b) := by
  have items := allEqual_agrees ih
  have entries := entriesEqual_agrees ih
  unfold equalWithin
  grind -funext

@[grind .]
theorem equal_agrees (hg : Serves C g g') (a b : Value) :
    C.Same (equal g a b) (equal g' a b) :=
  Comparison.Same.fueled (f := fun n (p : Value × Value) => equalWithin g n p.1 p.2)
    (g := fun n p => equalWithin g' n p.1 p.2) (fun _ => rfl) (fun _ => rfl)
    (fun _ _ ih p => equalWithin_step hg (fun a b => ih (a, b)) p.1 p.2) hg.fuel (a, b)

/-! ## Order -/

theorem orderItems_agrees {eq eq' : Value → Value → Exec Bool}
    {ord ord' : Value → Value → Exec Ordering}
    (he : ∀ a b, C.Same (eq a b) (eq' a b))
    (ho : ∀ a b, C.Same (ord a b) (ord' a b)) :
    ∀ as bs, C.Same (orderItems eq ord as bs) (orderItems eq' ord' as bs)
  | [], [] => .ret Ordering.eq
  | [], _ :: _ => .ret Ordering.lt
  | _ :: _, [] => .ret Ordering.gt
  | a :: as, b :: bs => by
    have ih := orderItems_agrees he ho as bs
    unfold orderItems
    grind -funext

/-- The order at one depth agrees when the order one level down does. -/
theorem orderWithin_step (hg : Serves C g g') {n n' : Nat}
    (ih : ∀ a b, C.Same (orderWithin g n a b) (orderWithin g' n' a b))
    (a b : Value) :
    C.Same (orderWithin g (n + 1) a b) (orderWithin g' (n' + 1) a b) := by
  have items := orderItems_agrees (equal_agrees hg) ih
  unfold orderWithin
  grind -funext

@[grind .]
theorem order_agrees (hg : Serves C g g') (a b : Value) :
    C.Same (order g a b) (order g' a b) :=
  Comparison.Same.fueled (f := fun n (p : Value × Value) => orderWithin g n p.1 p.2)
    (g := fun n p => orderWithin g' n p.1 p.2) (fun _ => rfl) (fun _ => rfl)
    (fun _ _ ih p => orderWithin_step hg (fun a b => ih (a, b)) p.1 p.2) hg.fuel (a, b)

/-! ## Comparison -/

@[grind .]
theorem anyEqual_agrees (hg : Serves C g g') (item : Value) :
    ∀ vs, C.Same (anyEqual g item vs) (anyEqual g' item vs)
  | [] => .ret false
  | v :: vs => by
    have ih := anyEqual_agrees hg item vs
    unfold anyEqual
    grind -funext

@[grind .]
theorem containsItem_agrees (hg : Serves C g g') (container item : Value) :
    C.Same (containsItem g container item)
      (containsItem g' container item) := by
  unfold containsItem
  grind -funext

@[grind .]
theorem handlerMatches_agrees (kind : ExceptionKind) :
    ∀ n handler, C.Same (handlerMatches kind n handler)
      (handlerMatches kind n handler)
  | 0, _ => .fail _
  | n + 1, handler => by
    have ih := Comparison.Same.anyM (handlerMatches_agrees kind n)
    unfold handlerMatches
    grind -funext

@[grind .]
theorem excMatches_agrees (exc handler : Value) :
    C.Same (excMatches exc handler) (excMatches exc handler) := by
  unfold excMatches
  grind -funext

@[grind .]
theorem compareOrder_agrees (hg : Serves C g g') (op : CmpOp) (a b : Value) :
    C.Same (compareOrder g op a b) (compareOrder g' op a b) := by
  unfold compareOrder
  grind -funext

@[grind .]
theorem compare_agrees (hg : Serves C g g') (op : CmpOp) (a b : Value) :
    C.Same (compare g op a b) (compare g' op a b) := by
  unfold compare
  grind -funext

end TieredMachine
