/-
  The effects of primitives on the height of the value stack.

  `stackEffect` tells for each primitive that neither jumps nor touches the block stack how
  many values it needs and how the height changes.  Running the primitive bears that out:
  on a stack that is high enough no value is missing, and a run that hands on to the next
  primitive has changed the height as told.

  * `Regime.Suits`: primitives whose arguments are in range;
  * `Moves`: a step with a given effect on the height;
  * `run_moves`: every plain primitive has its effect;
  * `withCleanup_moves`: the end of a `with` clause, unless it was told more than one value.
-/
import TieredMachine.Proofs.Safety.Primitive
import TieredMachine.Graph.Depth

namespace TieredMachine

variable {R : Regime} {g : Guest} {α : Type} {k m n : Nat}

/-- Whether the primitive neither sends control elsewhere nor touches the block stack.  What
    the end of a `with` clause takes off depends on the values that it finds, so it is left
    out too. -/
def Opcode.isPlain (op : Opcode) : Bool :=
  !op.isControlTransfer && op != .popBlock && op != .withCleanup

/-- The primitive has an argument if it needs one, and an index is in range of its table,
    unless the regime does not care. -/
structure Regime.Suits (R : Regime) (p : Primitive) : Prop where
  opcode : p.op.isSuper = true → ∀ ip, R.permits (.invalidOpcode ip p.op)
  argument : p.op.hasArg → p.arg = none → ∀ ip, R.permits (.missingArgument ip p.op)
  const : p.op.argKind = .const → ∀ i, p.arg = some i → ∀ f, R.fits f →
    R.permits (.invalidConstant i) ∨ i < f.code.consts.size
  name : p.op.argKind = .name → ∀ i, p.arg = some i → ∀ f, R.fits f →
    R.permits (.invalidName i) ∨ i < f.code.names.size
  «local» : p.op.argKind = .local → ∀ i, p.arg = some i → ∀ f, R.fits f →
    R.permits (.invalidLocal i) ∨ i < f.locals.size
  free : p.op.argKind = .free → ∀ i, p.arg = some i → ∀ f, R.fits f →
    R.permits (.invalidCell i) ∨ i < f.cells.size

/-! ## Calls -/

section

variable [R.Closed]

theorem badKeyword_safe : Safe R (Primitive.badKeyword : Exec α) := typeError_safe _

theorem keywordPairs_safe : ∀ vs, Safe R (Primitive.keywordPairs vs)
  | [] => .ret _
  | [v] => by cases v <;> exact .ret _
  | v :: w :: vs => by
    have ih := keywordPairs_safe vs
    unfold Primitive.keywordPairs
    split
    · rename_i h
      cases h
      exact ih.andThen fun _ => .ret _
    · exact badKeyword_safe
    · exact .ret _

theorem unpackedArguments_safe (hg : g.Safe R) (sequence : Value) :
    Safe R (Primitive.unpackedArguments g sequence) :=
  (catching_safe _ (iterate_safe hg sequence) (typeError_safe _)).andThen (collect_safe hg)

theorem addKeywords_safe (entries : List (Value × Value)) :
    ∀ kwargs, Safe R (Primitive.addKeywords kwargs entries) := by
  induction entries with
  | nil => exact fun _ => .ret _
  | cons entry rest ih =>
    intro kwargs
    obtain ⟨key, v⟩ := entry
    unfold Primitive.addKeywords
    split
    · rename_i h
      cases h
    · rename_i h
      cases h
      split
      · exact typeError_safe _
      · exact ih _
    · exact badKeyword_safe

theorem unpackedKeywords_safe (kwargs : List (String × Value)) (mapping : Value) :
    Safe R (Primitive.unpackedKeywords kwargs mapping) := by
  unfold Primitive.unpackedKeywords
  split
  · exact heap_safe.andThen fun _ => addKeywords_safe _ _
  · exact typeError_safe _

theorem callUnpacking_safe (hg : g.Safe R) (callee : Value) (args keywords : List Value)
    (sequence mapping : Option Value) :
    Safe R (Primitive.callUnpacking g callee args keywords sequence mapping) := by
  refine (keywordPairs_safe keywords).andThen fun kwargs => ?_
  cases sequence with
  | none =>
    cases mapping with
    | none => exact hg.call callee args kwargs
    | some m => exact (unpackedKeywords_safe kwargs m).andThen (hg.call callee args)
  | some v =>
    refine (unpackedArguments_safe hg v).andThen fun more => ?_
    cases mapping with
    | none => exact hg.call callee (args ++ more) kwargs
    | some m => exact (unpackedKeywords_safe kwargs m).andThen (hg.call callee (args ++ more))

namespace Primitive

theorem popIf_brings (present : Bool) : Brings R (k + present.toNat) k (popIf present) := by
  cases present with
  | false => exact .ret none
  | true => exact pop_brings.mapped some

/-- The number of values that a call takes off the stack besides the callee. -/
def argumentCount (extras : Bool × Bool) (arg : Nat) : Nat :=
  positionalCount arg + 2 * keywordCount arg + extras.1.toNat + extras.2.toNat

theorem callFunction_brings (hg : g.Safe R) (site : Site) (recording : Bool)
    (extras : Bool × Bool) (arg : Nat) :
    Brings R (k + 1 + argumentCount extras arg) (k + 1)
      (callFunction g site recording extras arg) := by
  unfold argumentCount
  rw [← Nat.add_assoc, ← Nat.add_assoc, ← Nat.add_assoc]
  refine (popIf_brings extras.2).andThen fun mapping => (popIf_brings extras.1).andThen
    fun sequence => (popN_brings (by rw [Nat.mul_comm])).andThen fun keywords =>
      (popN_brings rfl).andThen fun args => pop_brings.andThen fun callee => ?_
  have answer : Brings R k (k + 1)
      (onMachine (callUnpacking g callee args keywords sequence mapping) >>= push) :=
    (Brings.lift (callUnpacking_safe hg callee args keywords sequence mapping)).andThen push_brings
  cases recording with
  | true => exact (report_brings _).andThen fun _ => answer
  | false => exact answer

/-! ## Functions -/

theorem closureCells_brings : ∀ vs, Brings R k k (closureCells vs)
  | [] => .ret []
  | v :: vs => by
    have ih := closureCells_brings vs
    unfold closureCells
    split
    · exact .ret _
    · rename_i h
      cases h
      exact ih.andThen fun _ => .ret _
    · exact .fail (Regime.Closed.misuse _)

theorem popCells_brings (closure : Bool) : Brings R (k + closure.toNat) k (popCells closure) := by
  cases closure with
  | false => exact .ret []
  | true =>
    refine pop_brings.andThen fun v => ?_
    split
    · exact (Brings.lift heap_safe).andThen fun h => closureCells_brings _
    · exact .fail (Regime.Closed.misuse _)

omit [R.Closed] in
theorem popN_machine {s t : Activation} {vs : List Value} (h : popN n s = .ok vs t) :
    t.machine = s.machine := by
  unfold popN at h
  rw [take_apply] at h
  split at h
  · cases h
    rfl
  · cases h

/-- A new function has as many cells as its unit has free variables. -/
theorem newFunctionOver_brings (unit : Ref) (cells : List Ref) (count : Nat) :
    Brings R (k + count) (k + 1) (newFunctionOver unit cells count) := by
  intro s hm hf hk
  unfold newFunctionOver
  rw [bind_apply]
  show R.Shifts _ _ s ((if _ then _ else _ : FrameExec Unit) s)
  split
  · exact ⟨hm, .refl s.frame, Regime.Closed.misuse _⟩
  · rename_i hsize
    have popped := popN_brings (R := R) (k := k + count) rfl s hm hf hk
    dsimp only
    rw [bind_apply]
    cases hr : popN count s with
    | error e t =>
      rw [hr] at popped
      exact popped
    | ok defaults t =>
      rw [hr] at popped
      obtain ⟨ht, kept, len, below⟩ := popped
      have same : t.machine = s.machine := popN_machine hr
      refine ⟨Regime.Closed.addFunction _ ?_ ht,
        kept.trans ⟨⟨rfl, rfl, rfl, rfl, rfl⟩, rfl, rfl, rfl⟩, ?_, below⟩
      · rw [same]
        exact List.size_toArray.trans (Decidable.not_not.mp hsize)
      · show t.frame.stack.length + 1 + (k + count) = _
        omega

theorem makeFunction_brings (closure : Bool) (count : Nat) :
    Brings R (k + count + closure.toNat + 1) (k + 1) (makeFunction closure count) := by
  refine pop_brings.andThen fun v => ?_
  split
  · exact (popCells_brings closure).andThen fun cells => newFunctionOver_brings _ cells count
  · exact .fail (Regime.Closed.misuse _)

/-! ## Raising -/

theorem notRaisable_safe (type : String) : Safe R (notRaisable type : Exec α) := typeError_safe _

theorem exceptionOf_safe (exc : Value) (value : Option Value) :
    Safe R (exceptionOf exc value) := by
  refine heap_safe.andThen fun h => ?_
  split
  · exact newException_safe _ _
  · exact newException_safe _ _
  · split
    · exact .ret _
    · exact newException_safe _ _
  · exact newException_safe _ _
  · exact newException_safe _ _
  · exact .ret _
  · exact .ret _
  · exact typeError_safe _
  · exact notRaisable_safe _

/-! ## One primitive -/

/-- A step that needs so many values, changes the height of the stack by so much, and hands
    on to the next primitive. -/
def Moves (R : Regime) (x : FrameExec Flow) (effect : Nat × Int) : Prop :=
  ∃ y, x = thenNext y ∧ ∀ k, effect.1 ≤ k → Brings R k (k + effect.2).toNat y

omit [R.Closed] in
theorem Moves.of {y : FrameExec Unit} {effect : Nat × Int} (m : Nat)
    (h : ∀ k, Brings R (k + effect.1) (k + m) y) (heff : effect.1 + effect.2 = m) :
    Moves R (thenNext y) effect := by
  refine ⟨y, rfl, fun k hk => ?_⟩
  obtain ⟨j, rfl⟩ := Nat.exists_eq_add_of_le' hk
  rw [show ((j + effect.1 : Nat) + effect.2).toNat = j + m by omega]
  exact h j

omit [R.Closed] in
theorem Moves.fail {e : Fault} (he : R.permits e) (effect : Nat × Int) :
    Moves R (throw e) effect :=
  ⟨throw e, rfl, fun _ _ => .fail he⟩

theorem runPlain_moves (hg : g.Safe R) (site : Site) {op : Opcode} {arg : Option Nat}
    (hp : R.Suits ⟨op, arg⟩) (hplain : op.isPlain) (h₁ : op.operator? = none)
    (h₂ : op.unaryOp? = none) (harg : op.hasArg = false) :
    Moves R (runPlain g site op) (stackEffect ⟨op, arg⟩) := by
  unfold runPlain
  split
  case h_1 => exact Moves.of (y := pure ()) 0 (fun k => .ret ()) rfl
  case h_2 => exact .of 0 (fun k => pop_brings.andThen fun _ => .ret ()) rfl
  case h_3 => exact .of 2 (fun k => rotate_brings site (by decide) (Nat.le_add_left 2 k)) rfl
  case h_4 => exact .of 3 (fun k => rotate_brings site (by decide) (Nat.le_add_left 3 k)) rfl
  case h_5 => exact .of 4 (fun k => rotate_brings site (by decide) (Nat.le_add_left 4 k)) rfl
  case h_6 => exact .of 2 (fun k => duplicate_brings site 1) rfl
  case h_7 => exact .of 4 (fun k => duplicate_brings site 2) rfl
  case h_8 => exact .of 6 (fun k => duplicate_brings site 3) rfl
  case h_9 => exact .of 0 (fun k => storeSubscr_brings hg) rfl
  case h_10 => exact .of 0 (fun k => deleteSubscr_brings hg) rfl
  case h_11 => exact .of 1 (fun k => getIter_brings hg) rfl
  case h_12 => exact .of 1 (fun k => storeMap_brings) rfl
  case h_13 => exact .of 1 (fun k => loadSlice_brings hg (false, false)) rfl
  case h_14 => exact .of 1 (fun k => loadSlice_brings hg (true, false)) rfl
  case h_15 => exact .of 1 (fun k => loadSlice_brings hg (false, true)) rfl
  case h_16 => exact .of 1 (fun k => loadSlice_brings hg (true, true)) rfl
  case h_17 => exact .of 0 (fun k => storeSlice_brings hg (false, false)) rfl
  case h_18 => exact .of 0 (fun k => storeSlice_brings hg (true, false)) rfl
  case h_19 => exact .of 0 (fun k => storeSlice_brings hg (false, true)) rfl
  case h_20 => exact .of 0 (fun k => storeSlice_brings hg (true, true)) rfl
  case h_21 => exact .of 0 (fun k => dropSlice_brings hg (false, false)) rfl
  case h_22 => exact .of 0 (fun k => dropSlice_brings hg (true, false)) rfl
  case h_23 => exact .of 0 (fun k => dropSlice_brings hg (false, true)) rfl
  case h_24 => exact .of 0 (fun k => dropSlice_brings hg (true, true)) rfl
  case h_25 | h_26 | h_27 | h_28 | h_29 | h_30 => exact absurd hplain (by decide)
  case h_31 =>
    refine .fail (hp.opcode ?_ site.ip) _
    cases op <;> first | rfl | contradiction

theorem callFunction_moves (hg : g.Safe R) (site : Site) (recording : Bool)
    (extras : Bool × Bool) (arg : Nat) : Moves R
      (thenNext (callFunction g site recording extras arg))
      (argumentCount extras arg + 1, -argumentCount extras arg) := by
  refine .of 1 (fun k => ?_) (by omega)
  rw [← Nat.add_assoc, Nat.add_right_comm]
  exact callFunction_brings hg site recording extras arg

theorem runWithArg_moves (hg : g.Safe R) (site : Site) (recording : Bool) {op : Opcode}
    {arg : Nat} (hp : R.Suits ⟨op, some arg⟩) (hplain : op.isPlain) (harg : op.hasArg)
    (hmap : op ≠ .buildMap) :
    Moves R (runWithArg g site recording op arg) (stackEffect ⟨op, some arg⟩) := by
  unfold runWithArg
  split
  case h_1 =>
    refine .of 1 (fun k => buildSlice_brings arg) ?_
    show (arg : Int) + (1 - arg) = 1
    omega
  case h_2 =>
    refine .of arg (fun k => unpack_brings hg arg) ?_
    show (1 : Int) + (arg - 1) = arg
    omega
  case h_4 =>
    refine .of 1 (fun k => buildTuple_brings arg) ?_
    show (arg : Int) + (1 - arg) = 1
    omega
  case h_5 =>
    refine .of 1 (fun k => buildList_brings arg) ?_
    show (arg : Int) + (1 - arg) = 1
    omega
  case h_6 =>
    refine .of (max arg 1) (fun k => appendTo_brings arg) ?_
    show ((max arg 1 + 1 : Nat) : Int) + -1 = max arg 1
    omega
  case h_3 | h_7 | h_8 | h_9 | h_10 | h_11 | h_12 | h_13 | h_14 | h_15 | h_16 | h_17 =>
    exact absurd hplain (by decide)
  case h_18 => exact .of 1 (fun k => loadConst_brings (hp.const rfl arg rfl)) rfl
  case h_19 =>
    exact .of 1 (fun k => (loadLocal_brings (hp.local rfl arg rfl)).andThen push_brings) rfl
  case h_20 =>
    exact .of 0 (fun k => pop_brings.andThen fun v =>
      storeLocal_brings v (hp.local rfl arg rfl)) rfl
  case h_21 => exact .of 0 (fun k => deleteLocal_brings (hp.local rfl arg rfl)) rfl
  case h_22 => exact .of 1 (fun k => loadGlobal_brings (hp.name rfl arg rfl)) rfl
  case h_23 => exact .of 0 (fun k => storeGlobal_brings (hp.name rfl arg rfl)) rfl
  case h_24 => exact .of 0 (fun k => deleteGlobal_brings (hp.name rfl arg rfl)) rfl
  case h_25 => exact .of 1 (fun k => loadClosure_brings (hp.free rfl arg rfl)) rfl
  case h_26 => exact .of 1 (fun k => loadDeref_brings (hp.free rfl arg rfl)) rfl
  case h_27 => exact .of 0 (fun k => storeDeref_brings (hp.free rfl arg rfl)) rfl
  case h_28 => exact .of 1 (fun k => loadAttr_brings (hp.name rfl arg rfl) hg) rfl
  case h_29 => exact .of 0 (fun k => storeAttr_brings (hp.name rfl arg rfl)) rfl
  case h_30 => exact .of 0 (fun k => dropAttr_brings (hp.name rfl arg rfl)) rfl
  case h_31 => exact .of 1 (fun k => applyCompare_brings hg arg) rfl
  case h_32 => exact callFunction_moves hg site recording _ arg
  case h_33 => exact callFunction_moves hg site recording _ arg
  case h_34 => exact callFunction_moves hg site recording _ arg
  case h_35 => exact callFunction_moves hg site recording _ arg
  case h_36 =>
    refine .of 1 (fun k => makeFunction_brings false arg) ?_
    show ((arg + 1 : Nat) : Int) + -arg = 1
    omega
  case h_37 =>
    refine .of 1 (fun k => makeFunction_brings true arg) ?_
    show ((arg + 2 : Nat) : Int) + (-arg - 1) = 1
    omega
  case h_38 =>
    cases op <;> contradiction

/-- Every plain primitive has its effect. -/
theorem run_moves (hg : g.Safe R) (site : Site) (recording : Bool) {p : Primitive}
    (hp : R.Suits p) (hplain : p.op.isPlain) :
    Moves R (run g site recording p) (stackEffect p) := by
  unfold run
  split
  case h_1 op h =>
    have operator : p.op.operator?.isSome := by rw [Opcode.operator?, h]; rfl
    rw [show stackEffect p = (2, -1) by rw [stackEffect, if_pos operator]]
    exact .of 1 (fun k => applyBinary_brings site recording (binary_safe hg) op) rfl
  case h_2 op h₁ h₂ =>
    have operator : p.op.operator?.isSome := by rw [Opcode.operator?, h₁, h₂]; rfl
    rw [show stackEffect p = (2, -1) by rw [stackEffect, if_pos operator]]
    exact .of 1 (fun k => applyBinary_brings site recording (inplace_safe hg) op) rfl
  case h_3 op h₁ h₂ h₃ =>
    have operator : ¬p.op.operator?.isSome := by rw [Opcode.operator?, h₁, h₂]; decide
    rw [show stackEffect p = (1, 0) by rw [stackEffect, if_neg operator, h₃]; rfl]
    exact .of 1 (fun k => applyUnary_brings hg op) rfl
  case h_4 h₁ h₂ h₃ =>
    have operator : p.op.operator? = none := by rw [Opcode.operator?, h₁, h₂]; rfl
    obtain ⟨op, arg⟩ := p
    dsimp only at *
    split
    · rename_i hop
      subst hop
      exact .of 1 (fun k => buildMap_brings) rfl
    · rename_i hmap
      split
      · rename_i harg
        cases arg with
        | some arg => exact runWithArg_moves hg site recording hp hplain harg hmap
        | none => exact .fail (hp.argument harg rfl site.ip) _
      · rename_i harg
        exact runPlain_moves hg site hp hplain operator h₃ (Bool.eq_false_iff.mpr harg)

/-! ## The end of a `with` clause -/

/-- Whether a value on top of the stack tells the end of a `with` clause that no other value
    came with it. -/
def cameAlone : Value → Bool
  | .excType _ => false
  | .int n =>
    match UnwindReason.ofCode? n with
    | some .return_ | some .continue_ => false
    | _ => true
  | _ => true

theorem payloadSize_brings {top : Value} (h : cameAlone top) {x : Nat → FrameExec α}
    (hx : Brings R k m (x 1)) : Brings R k m (payloadSize top >>= x) := by
  unfold payloadSize
  split
  · exact hx
  · rename_i n
    dsimp only [cameAlone] at h
    split
    · rename_i hr
      rw [hr] at h
      exact absurd h Bool.false_ne_true
    · rename_i hr
      rw [hr] at h
      exact absurd h Bool.false_ne_true
    · exact hx
  · exact absurd h Bool.false_ne_true
  · exact fun s hm _ _ => ⟨hm, .refl s.frame, Regime.Closed.misuse _⟩

omit [R.Closed] in
theorem takeBelow_brings (site : Site) (d : Nat) :
    Brings R (k + (d + 1)) (k + d) (takeBelow site d) := by
  refine .frameThen fun f _ hk => ?_
  dsimp only
  split
  · rename_i hs
    rw [List.getElem?_eq_none_iff] at hs
    exact .fail (hk.resolve_left (fun hk => by omega) _ rfl)
  · rename_i hs
    have hlt := (List.getElem?_eq_some_iff.mp hs).1
    rintro s rfl hm _ _
    have taken : (s.frame.stack.take d).length = d := by
      rw [List.length_take]
      omega
    refine ⟨hm, ⟨⟨rfl, rfl, rfl, rfl, rfl⟩, rfl, rfl, rfl⟩, ?_, ?_⟩
    · show (s.frame.stack.take d ++ s.frame.stack.drop (d + 1)).length + (k + (d + 1)) = _
      rw [List.length_append, taken, List.length_drop]
      omega
    · show (s.frame.stack.take d ++ s.frame.stack.drop (d + 1)).drop (k + d) = _
      rw [List.drop_append, taken, Nat.add_sub_cancel, List.drop_drop,
        List.drop_eq_nil_of_le (by omega), List.nil_append, Nat.add_comm (d + 1)]

omit [R.Closed] in
theorem peek_zero {s t : Activation} {v : Value} (h : peek 0 s = .ok v t) :
    s = t ∧ s.frame.stack.head? = some v := by
  unfold peek at h
  rw [look_apply, Frame.peek] at h
  cases hs : s.frame.stack[0]? with
  | none =>
    rw [hs] at h
    cases h
  | some w =>
    rw [hs] at h
    cases h
    exact ⟨rfl, List.head?_eq_getElem?.trans hs⟩

/-- The end of a `with` clause that was told one value has its effect. -/
theorem withCleanup_shifts (hg : g.Safe R) (site : Site) {s : Activation}
    (hm : R.holds s.machine) (hf : R.fits s.frame) (hk : R.Spares (k + 2) s.frame)
    (alone : ∀ v, s.frame.stack.head? = some v → cameAlone v) :
    R.Shifts (k + 2) (k + 1) s (withCleanup g site s) := by
  have found := peek_brings (R := R) (d := 0) (Nat.succ_pos (k + 1)) s hm hf hk
  unfold withCleanup
  rw [bind_apply]
  cases hp : peek 0 s with
  | error e t =>
    rw [hp] at found
    exact found
  | ok top t =>
    obtain ⟨rfl, htop⟩ := peek_zero hp
    have ha := alone top htop
    have told : isExceptionPayload top = false := by
      cases top with
      | excType _ => exact absurd ha Bool.false_ne_true
      | _ => rfl
    refine payloadSize_brings ha (m := k + 1) ?_ s hm hf hk
    unfold exitArguments
    rw [told]
    exact (Brings.ret _).andThen fun args => (takeBelow_brings site 1).andThen fun exit =>
      (Brings.lift (hg.call exit args [])).andThen fun answer =>
        (Brings.lift (truthOf_safe answer)).andThen fun _ => .ret ()

end Primitive

end

end TieredMachine
