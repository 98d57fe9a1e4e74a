/-
  Operators on integers.

  On two integers an operator asks no one: it computes, or raises what its arithmetic
  fails with.  That is what the short ways of native code rely on.

  * `binary_int`, `inplace_int`: operators on integers;
  * `applyBinary_apply`: the primitive of an operator, on the stack.
-/
import TieredMachine.Proofs.Agreement.Interpreter

namespace TieredMachine

variable {us : Array CodeUnit} {g : Guest}

/-! ## Operators -/

theorem integerBinary_ok {op : BinaryOp} {a b r : Int64}
    (h : Integer.binary op a b = .ok (some r)) : integerBinary op a b = pure (.int r) := by
  unfold integerBinary ofArith
  rw [h]
  rfl

theorem integerBinary_error {op : BinaryOp} {a b : Int64} {e : Integer.ArithError}
    (h : Integer.binary op a b = .error e) : integerBinary op a b = arithError e := by
  unfold integerBinary ofArith
  rw [h]
  cases e <;> rfl

/-- The left operand answers when both are integers. -/
theorem leftBinary_int (g : Guest) {op : BinaryOp} (a b : Int64) (hop : op ≠ .getItem) :
    leftBinary g op (.int a) (.int b) = integerBinary op a b := by
  simp only [leftBinary, builtinBinary, if_neg hop, Value.asInt?]

/-- An operator on integers that has an integer result. -/
theorem binary_int (g : Guest) {op : BinaryOp} {a b r : Int64}
    (h : Integer.binary op a b = .ok (some r)) :
    binary g op (.int a) (.int b) = pure (.int r) := by
  have hop : op ≠ .getItem := fun e => by rw [e] at h; cases h
  unfold binary
  rw [leftBinary_int g a b hop, integerBinary_ok h]
  rfl

/-- An operator on integers that fails. -/
theorem binary_int_error (g : Guest) {op : BinaryOp} {a b : Int64} {e : Integer.ArithError}
    (h : Integer.binary op a b = .error e) :
    binary g op (.int a) (.int b) = arithError e := by
  have hop : op ≠ .getItem := fun e => by rw [e] at h; cases h
  unfold binary
  rw [leftBinary_int g a b hop, integerBinary_error h]
  cases e <;> rfl

/-- On integers an augmented assignment is the operator. -/
theorem inplace_int (g : Guest) (op : BinaryOp) (a b : Int64) :
    inplace g op (.int a) (.int b) = binary g op (.int a) (.int b) := by
  unfold inplace inplaceLeft
  cases op <;> rfl

/-! ## Primitives -/

namespace Primitive

/-- An operator of the interpreter, plain or augmented. -/
def IsOperator (operator : Guest → BinaryOp → Value → Value → Exec Value) : Prop :=
  operator = binary ∨ operator = inplace

/-- On integers both forms of an operator are the plain one. -/
theorem IsOperator.int {operator : Guest → BinaryOp → Value → Value → Exec Value}
    (h : IsOperator operator) (g : Guest) (op : BinaryOp) (a b : Int64) :
    operator g op (.int a) (.int b) = binary g op (.int a) (.int b) := by
  rcases h with rfl | rfl
  · rfl
  · exact inplace_int g op a b

theorem run_operator (g : Guest) (site : Site) (r : Bool) {op : Opcode} {operator : BinaryOp}
    (arg : Option Nat) (h : op.operator? = some operator) :
    ∃ f, IsOperator f ∧ run g site r ⟨op, arg⟩ = thenNext (applyBinary g site r f operator) := by
  unfold run
  unfold Opcode.operator? at h
  cases hb : op.binaryOp? with
  | some o =>
    rw [hb] at h
    cases h
    exact ⟨binary, .inl rfl, rfl⟩
  | none =>
    rw [hb] at h
    replace h : op.inplaceOp? = some operator := h
    rw [h]
    exact ⟨inplace, .inr rfl, rfl⟩

theorem quiet_report (change : Feedback → Feedback) : Quiet us (report change) := fun s =>
  ⟨s.machine.mapFeedback s.frame.code.id change, rfl,
    (Machine.Unseen.mapFeedback s.frame.code.id change).veiled s.machine⟩

/-- The primitive of an operator with two values on the stack. -/
theorem applyBinary_apply (us : Array CodeUnit) (g : Guest) (site : Site) (r : Bool)
    (operator : Guest → BinaryOp → Value → Value → Exec Value) (op : BinaryOp) {s : Activation}
    {a b : Value} {rest : List Value} (hs : s.frame.stack = b :: a :: rest) :
    ∃ m, s.machine.Veiled us m ∧ applyBinary g site r operator op s =
      match operator g op a b m with
      | .ok v m => .ok () ⟨{ s.frame with stack := v :: rest }, m⟩
      | .error e m => .error e ⟨{ s.frame with stack := rest }, m⟩ := by
  have popped : ∀ k : Value → Value → FrameExec Unit,
      (do let b ← pop; let a ← pop; k b a) s =
        k b a { s with frame := { s.frame with stack := rest } } := by
    intro k
    rw [bind_apply]
    have first : pop s = .ok b { s with frame := { s.frame with stack := a :: rest } } := by
      unfold pop
      rw [take_apply]
      simp only [Frame.pop, hs]
    rw [first]
    rfl
  have push_apply (m : Machine) :
      (onMachine (operator g op a b) >>= push) ⟨{ s.frame with stack := rest }, m⟩ =
        match operator g op a b m with
        | .ok v m => .ok () ⟨{ s.frame with stack := v :: rest }, m⟩
        | .error e m => .error e ⟨{ s.frame with stack := rest }, m⟩ := by
    rw [bind_apply, onMachine_apply]
    cases operator g op a b m <;> rfl
  unfold applyBinary
  rw [popped]
  dsimp only
  split
  · obtain ⟨m, hr, hm⟩ := (quiet_report (·.recordOperands site a b) : Quiet us _)
      { s with frame := { s.frame with stack := rest } }
    refine ⟨m, hm, ?_⟩
    rw [bind_apply, hr]
    exact push_apply m
  · exact ⟨s.machine, .refl _, push_apply s.machine⟩

end Primitive

end TieredMachine
