/-
  Primitives agree.

  With engines that agree, a primitive agrees, whose feedback both sides record or
  neither does.  Where feedback is not seen, one side may record it alone.
-/
import TieredMachine.Proofs.Agreement.Builtin
import TieredMachine.Proofs.Agreement.Framed
import TieredMachine.Run.Interpreter

namespace TieredMachine

variable {D : FrameComparison} [D.Closed] {g g' : Guest} {α β : Type}

namespace Primitive

/-! ## Feedback -/

@[grind .]
theorem report_agrees (change : Feedback → Feedback) :
    D.Same (report change) (report change) := by
  have reported (f f' : Frame) (alike : f.Akin f') :
      D.Same (onMachine (modify (·.mapFeedback f.code.id change)))
        (onMachine (modify (·.mapFeedback f'.code.id change))) := by
    rw [alike.id]
    exact onMachine_same (Comparison.Closed.report _ change)
  exact frameThen reported

omit [D.Closed] in
/-- Feedback that only the left side records, when it is not seen. -/
@[grind .]
theorem report_left (loose : D.Loose) (change : Feedback → Feedback) {x : Unit → FrameExec α}
    {y : FrameExec α} (h : D.Same (x ()) y) : D.Same (report change >>= x) y :=
  loose.left change h

omit [D.Closed] in
/-- Feedback that only the right side records, when it is not seen. -/
@[grind .]
theorem report_right (loose : D.Loose) (change : Feedback → Feedback) {x : FrameExec α}
    {y : Unit → FrameExec α} (h : D.Same x (y ())) : D.Same x (report change >>= y) :=
  loose.right change h

/-! ## Operands -/

@[grind .]
theorem rotate_agrees {site site' : Site} (hs : D.Sites site site') (n : Nat) :
    D.Same (rotate site n) (rotate site' n) := by
  unfold rotate
  grind -funext

@[grind .]
theorem duplicate_agrees {site site' : Site} (hs : D.Sites site site') (n : Nat) :
    D.Same (duplicate site n) (duplicate site' n) := by
  unfold duplicate
  grind -funext

@[grind .]
theorem loadConst_agrees (i : Nat) :
    D.Same (loadConst i) (loadConst i) := by
  refine frameThen fun f f' alike => ?_
  rw [alike.consts]
  split
  · exact push_same _
  · exact .fail _

@[grind .]
theorem nameAt_agrees (i : Nat) :
    D.Same (nameAt i) (nameAt i) := by
  refine frameThen fun f f' alike => ?_
  rw [alike.names]
  split
  · exact .ret _
  · exact .fail _

@[grind .]
theorem undefinedGlobal_agrees (name : String) :
    D.machine.Same (undefinedGlobal name : Exec α)
      (undefinedGlobal name : Exec α) := by
  unfold undefinedGlobal
  grind -funext

@[grind .]
theorem loadGlobal_agrees (i : Nat) :
    D.Same (loadGlobal i) (loadGlobal i) := by
  unfold loadGlobal
  grind -funext

@[grind .]
theorem storeGlobal_agrees (i : Nat) :
    D.Same (storeGlobal i) (storeGlobal i) := by
  unfold storeGlobal
  refine (nameAt_agrees i).andThen fun name => pop_same.andThen fun v =>
    frameThen fun f f' alike => ?_
  rw [alike.globals]
  exact onMachine_same (Comparison.Closed.bind _ fun n => n.evolves_set name v)

@[grind .]
theorem deleteGlobal_agrees (i : Nat) :
    D.Same (deleteGlobal i) (deleteGlobal i) := by
  unfold deleteGlobal
  refine (nameAt_agrees i).andThen fun name => frameThen fun f f' alike =>
    liftHeapThen fun h h' like => ?_
  rw [alike.globals, like.space]
  split
  · exact onMachine_same (Comparison.Closed.bind _ fun n => n.evolves_erase name)
  · exact lift_same (undefinedGlobal_agrees name)

@[grind .]
theorem loadClosure_agrees (i : Nat) :
    D.Same (loadClosure i) (loadClosure i) := by
  unfold loadClosure
  grind -funext

@[grind .]
theorem emptyCell_agrees {f f' : Frame} (alike : f.Akin f') (i : Nat) :
    D.machine.Same (emptyCell f.code i : Exec α) (emptyCell f'.code i) := by
  unfold emptyCell
  rw [alike.cellName?, alike.cellvars]
  grind -funext

@[grind .]
theorem loadDeref_agrees (i : Nat) : D.Same (loadDeref i) (loadDeref i) := by
  unfold loadDeref
  refine (cellRef_agrees i).andThen fun c => liftHeapThen fun h h' like => ?_
  rw [like.cell]
  split
  · exact push_same _
  · exact frameThen fun f f' alike => lift_same (emptyCell_agrees alike i)

@[grind .]
theorem storeDeref_agrees (i : Nat) :
    D.Same (storeDeref i) (storeDeref i) := by
  unfold storeDeref
  grind -funext

@[grind .]
theorem loadAttr_agrees (hg : Serves D.machine g g') (i : Nat) :
    D.Same (loadAttr g i) (loadAttr g' i) := by
  unfold loadAttr
  grind -funext

@[grind .]
theorem storeAttr_agrees (i : Nat) :
    D.Same (storeAttr i) (storeAttr i) := by
  unfold storeAttr
  grind -funext

@[grind .]
theorem dropAttr_agrees (i : Nat) :
    D.Same (dropAttr i) (dropAttr i) := by
  unfold dropAttr
  grind -funext

@[grind .]
theorem applyUnary_agrees (hg : Serves D.machine g g') (op : UnaryOp) :
    D.Same (applyUnary g op) (applyUnary g' op) := by
  unfold applyUnary
  grind -funext

/-- A binary operator agrees, whoever records the operands if feedback is not seen. -/
theorem applyBinary_agrees {operator : Guest → BinaryOp → Value → Value → Exec Value}
    (h : ∀ op a b, D.machine.Same (operator g op a b) (operator g' op a b))
    {site site' : Site} {r r' : Bool} (hr : (site = site' ∧ r = r') ∨ D.Loose) (op : BinaryOp) :
    D.Same (applyBinary g site r operator op) (applyBinary g' site' r' operator op) := by
  unfold applyBinary
  obtain ⟨rfl, rfl⟩ | loose := hr
  · grind -funext
  · grind -funext

@[grind .]
theorem applyCompare_agrees (hg : Serves D.machine g g') (arg : Nat) :
    D.Same (applyCompare g arg) (applyCompare g' arg) := by
  unfold applyCompare
  grind -funext

@[grind .]
theorem storeSubscr_agrees (hg : Serves D.machine g g') :
    D.Same (storeSubscr g) (storeSubscr g') := by
  unfold storeSubscr
  grind -funext

@[grind .]
theorem deleteSubscr_agrees (hg : Serves D.machine g g') :
    D.Same (deleteSubscr g) (deleteSubscr g') := by
  unfold deleteSubscr
  grind -funext

@[grind .]
theorem buildTuple_agrees (n : Nat) :
    D.Same (buildTuple n) (buildTuple n) := by
  unfold buildTuple
  grind -funext

@[grind .]
theorem buildList_agrees (n : Nat) :
    D.Same (buildList n) (buildList n) := by
  unfold buildList
  grind -funext

@[grind .]
theorem buildMap_agrees :
    D.Same (buildMap) (buildMap) := by
  unfold buildMap Heap.newDict
  grind -funext

@[grind .]
theorem buildSlice_agrees (n : Nat) : D.Same (buildSlice n) (buildSlice n) := by
  have rest (step : Value) : D.Same
      (do let stop ← pop; let start ← pop; push (← alloc (·.newSlice ⟨start, stop, step⟩)))
      (do let stop ← pop; let start ← pop; push (← alloc (·.newSlice ⟨start, stop, step⟩))) :=
    pop_same.andThen fun stop => pop_same.andThen fun start =>
      (lift_same (newSlice_agrees ⟨start, stop, step⟩)).andThen push_same
  unfold buildSlice
  split
  · exact (Comparison.Same.ret _).andThen rest
  · exact pop_same.andThen rest
  · exact (Comparison.Same.fail _).andThen rest

@[grind .]
theorem sliceOperand_agrees (bounds : Bool × Bool) :
    D.Same (sliceOperand bounds) (sliceOperand bounds) := by
  have made (start stop : Value) : D.Same (liftM (alloc (·.newSlice ⟨start, stop, .none⟩)))
      (liftM (alloc (·.newSlice ⟨start, stop, .none⟩))) :=
    lift_same (newSlice_agrees ⟨start, stop, .none⟩)
  unfold sliceOperand
  rcases bounds with ⟨_ | _, _ | _⟩
  · exact (Comparison.Same.ret _).andThen fun stop => (Comparison.Same.ret _).andThen fun start =>
      made start stop
  · exact pop_same.andThen fun stop => (Comparison.Same.ret _).andThen fun start =>
      made start stop
  · exact (Comparison.Same.ret _).andThen fun stop => pop_same.andThen fun start =>
      made start stop
  · exact pop_same.andThen fun stop => pop_same.andThen fun start => made start stop

@[grind .]
theorem loadSlice_agrees (hg : Serves D.machine g g') (bounds : Bool × Bool) :
    D.Same (loadSlice g bounds) (loadSlice g' bounds) := by
  unfold loadSlice
  grind -funext

@[grind .]
theorem storeSlice_agrees (hg : Serves D.machine g g') (bounds : Bool × Bool) :
    D.Same (storeSlice g bounds) (storeSlice g' bounds) := by
  unfold storeSlice
  grind -funext

@[grind .]
theorem dropSlice_agrees (hg : Serves D.machine g g') (bounds : Bool × Bool) :
    D.Same (dropSlice g bounds) (dropSlice g' bounds) := by
  unfold dropSlice
  grind -funext

@[grind .]
theorem storeMap_agrees :
    D.Same (storeMap) (storeMap) := by
  unfold storeMap
  grind -funext

@[grind .]
theorem appendTo_agrees (n : Nat) :
    D.Same (appendTo n) (appendTo n) := by
  unfold appendTo
  grind -funext

@[grind .]
theorem unpack_agrees (hg : Serves D.machine g g') (n : Nat) :
    D.Same (unpack g n) (unpack g' n) := by
  unfold unpack
  grind -funext

@[grind .]
theorem getIter_agrees (hg : Serves D.machine g g') :
    D.Same (getIter g) (getIter g') := by
  unfold getIter
  grind -funext

/-! ## Control -/

theorem jump_flow_agrees {op : Opcode} (directed : op.isDirected = true) {arg arg' : Nat}
    (h : D.Args op arg arg') : D.Flows (jump op arg) (jump op arg') :=
  FrameComparison.Closed.targetThen directed h fun _ _ ht => FrameComparison.Closed.jump ht

/-- What a conditional jump does once its target and the truth of the tested value are
    known. -/
def takeJump (op : Opcode) (target : Nat) (truth : Bool) : FrameExec Flow := do
  match decideJump? op truth with
  | none => throw (.runtime (.notConditionalJump op))
  | some (taken, popped) =>
    if popped then
      let _ ← pop
    return if taken then .jump target else .next

theorem takeJump_flow_agrees (op : Opcode) {t t' : Nat} (ht : D.Targets t t') (truth : Bool) :
    D.Flows (takeJump op t truth) (takeJump op t' truth) := by
  have jumped : D.Flows (pure (.jump t)) (pure (.jump t')) := FrameComparison.Closed.jump ht
  have passed : D.Flows (pure .next) (pure .next) :=
    FrameComparison.Closed.flows (.ret nofun) (.ret _)
  unfold takeJump
  rcases decideJump? op truth with _ | ⟨_ | _, _ | _⟩
  · exact FrameComparison.Closed.flows (.fail _) (.fail _)
  · exact passed
  · exact FrameComparison.Closed.flowsThen pop_same fun _ => passed
  · exact jumped
  · exact FrameComparison.Closed.flowsThen pop_same fun _ => jumped

/-- A conditional jump goes on alike, whoever records the test if feedback is not seen. -/
theorem testJump_flow_agrees {site site' : Site} {r r' : Bool} (hr : (site = site' ∧ r = r') ∨ D.Loose)
    {op : Opcode} (directed : op.isDirected = true) {arg arg' : Nat} (h : D.Args op arg arg') :
    D.Flows (testJump site r op arg) (testJump site' r' op arg') := by
  refine FrameComparison.Closed.targetThen directed h fun t t' ht =>
    FrameComparison.Closed.flowsThen (peek_same 0) fun tested =>
    FrameComparison.Closed.flowsThen (onMachine_same (truthOf_agrees tested)) fun truth => ?_
  have rest : D.Flows (takeJump op t truth) (takeJump op t' truth) := takeJump_flow_agrees op ht truth
  obtain ⟨rfl, rfl⟩ | loose := hr
  · cases r with
    | true => exact FrameComparison.Closed.flowsThen (report_agrees _) fun _ => rest
    | false => exact rest
  · cases r with
    | true =>
      refine loose.flowsLeft _ ?_
      cases r' with
      | true => exact loose.flowsRight _ rest
      | false => exact rest
    | false =>
      cases r' with
      | true => exact loose.flowsRight _ rest
      | false => exact rest

theorem forIter_flow_agrees (hg : Serves D.machine g g') {arg arg' : Nat}
    (h : D.Args .forIter arg arg') : D.Flows (forIter g arg) (forIter g' arg') := by
  refine FrameComparison.Closed.flowsThen (peek_same 0) fun it =>
    FrameComparison.Closed.flowsThen (lift_same (advance?_agrees hg it)) fun item => ?_
  cases item with
  | some item =>
    exact FrameComparison.Closed.flows (.bind fun _ => .ret nofun)
      ((push_same item).andThen fun _ => .ret _)
  | none => exact FrameComparison.Closed.flowsThen pop_same fun _ => jump_flow_agrees rfl h

@[grind .]
theorem notRaisable_agrees (type : String) :
    D.machine.Same (notRaisable type : Exec α) (notRaisable type : Exec α) := by
  unfold notRaisable
  grind -funext

@[grind .]
theorem exceptionOf_agrees (exc : Value) (value : Option Value) :
    D.machine.Same (exceptionOf exc value) (exceptionOf exc value) := by
  unfold exceptionOf
  grind -funext

@[grind .]
theorem raiseOf_agrees (count : Nat) :
    D.Same (raiseOf count) (raiseOf count) := by
  unfold raiseOf
  grind -funext

@[grind .]
theorem payloadSize_agrees (top : Value) :
    D.Same (payloadSize top) (payloadSize top) := by
  unfold payloadSize
  grind -funext

@[grind .]
theorem exitArguments_agrees (top : Value) :
    D.Same (exitArguments top) (exitArguments top) := by
  unfold exitArguments
  grind -funext

@[grind .]
theorem takeBelow_agrees {site site' : Site} (hs : D.Sites site site') (depth : Nat) :
    D.Same (takeBelow site depth) (takeBelow site' depth) := by
  unfold takeBelow
  refine frameThen fun f f' alike => ?_
  dsimp only
  rw [alike.stack]
  split
  · exact underflow_same hs
  · refine (modifyFrame_same ?_).andThen fun _ => .ret _
    exact ⟨fun _ => ⟨rfl, rfl, rfl, rfl, rfl⟩, fun _ => rfl, fun a => { a with stack := rfl }⟩

@[grind .]
theorem withCleanup_agrees (hg : Serves D.machine g g') {site site' : Site}
    (hs : D.Sites site site') : D.Same (withCleanup g site) (withCleanup g' site') := by
  unfold withCleanup
  grind -funext

/-! ## Calls and functions -/

@[grind .]
theorem badKeyword_agrees :
    D.machine.Same (badKeyword : Exec α) (badKeyword : Exec α) := by
  unfold badKeyword
  grind -funext

@[grind .]
theorem keywordPairs_agrees :
    ∀ vs, D.machine.Same (keywordPairs vs) (keywordPairs vs) := by
  intro vs
  fun_induction keywordPairs vs with
  | case1 name v rest ih => exact ih.andThen fun kws => .ret _
  | case2 => exact badKeyword_agrees
  | case3 => exact .ret []

@[grind .]
theorem unpackedArguments_agrees (hg : Serves D.machine g g') (sequence : Value) :
    D.machine.Same (unpackedArguments g sequence)
      (unpackedArguments g' sequence) := by
  unfold unpackedArguments
  grind -funext

@[grind .]
theorem addKeywords_agrees :
    ∀ entries kwargs, D.machine.Same (addKeywords kwargs entries)
      (addKeywords kwargs entries)
  | [], kwargs => .ret kwargs
  | e :: entries, kwargs => by
    have ih := addKeywords_agrees entries
    unfold addKeywords
    grind -funext

@[grind .]
theorem unpackedKeywords_agrees (kwargs : List (String × Value)) (mapping : Value) :
    D.machine.Same (unpackedKeywords kwargs mapping)
      (unpackedKeywords kwargs mapping) := by
  unfold unpackedKeywords
  grind -funext

@[grind .]
theorem callUnpacking_agrees (hg : Serves D.machine g g') (callee : Value)
    (args keywords : List Value) (sequence mapping : Option Value) :
    D.machine.Same (callUnpacking g callee args keywords sequence mapping)
      (callUnpacking g' callee args keywords sequence mapping) := by
  unfold callUnpacking
  refine (keywordPairs_agrees keywords).andThen fun kwargs => ?_
  cases sequence <;> cases mapping <;> grind -funext

@[grind .]
theorem popIf_agrees (present : Bool) :
    D.Same (popIf present) (popIf present) := by
  unfold popIf
  grind -funext

/-- A call agrees, whoever records the callee if feedback is not seen. -/
@[grind .]
theorem callFunction_agrees (hg : Serves D.machine g g') {site site' : Site} {r r' : Bool}
    (hr : (site = site' ∧ r = r') ∨ D.Loose) (extras : Bool × Bool) (arg : Nat) :
    D.Same (callFunction g site r extras arg) (callFunction g' site' r' extras arg) := by
  refine (popIf_agrees _).andThen fun mapping => (popIf_agrees _).andThen fun sequence => ?_
  refine (popN_same _).andThen fun keywords => (popN_same _).andThen fun args => ?_
  refine pop_same.andThen fun callee => ?_
  obtain ⟨rfl, rfl⟩ | loose := hr
  · grind -funext
  · grind -funext

@[grind .]
theorem closureCells_agrees :
    ∀ vs, D.Same (closureCells vs) (closureCells vs)
  | [] => .ret []
  | v :: vs => by
    have ih := closureCells_agrees vs
    unfold closureCells
    grind -funext

@[grind .]
theorem popCells_agrees (closure : Bool) :
    D.Same (popCells closure) (popCells closure) := by
  unfold popCells
  grind -funext

@[grind .]
theorem newFunctionOver_agrees (unit : Ref) (cells : List Ref) (n : Nat) :
    D.Same (newFunctionOver unit cells n) (newFunctionOver unit cells n) := by
  refine liftHeapThen fun h h' like => ?_
  dsimp only
  rw [like.unitName, like.freevars]
  generalize (h'.unit unit).name = name, (h'.unit unit).freevars = freevars
  have made (globals : Ref) (defaults : List Value) : D.Same
      (do push (← alloc (·.newFunction
            { name, code := unit, globals, defaults := defaults.toArray
              closure := cells.toArray })))
      (do push (← alloc (·.newFunction
            { name, code := unit, globals, defaults := defaults.toArray
              closure := cells.toArray }))) :=
    (lift_same (newFunction_agrees _)).andThen push_same
  split
  · exact (Comparison.Same.fail _).andThen fun _ => (popN_same n).andThen fun defaults =>
      frameThen fun f f' alike => alike.globals ▸ made _ defaults
  · exact (popN_same n).andThen fun defaults => frameThen fun f f' alike =>
      alike.globals ▸ made _ defaults

@[grind .]
theorem makeFunction_agrees (closure : Bool) (n : Nat) :
    D.Same (makeFunction closure n) (makeFunction closure n) := by
  unfold makeFunction
  grind -funext

/-! ## One primitive -/

@[grind .]
theorem thenNext_agrees {x y : FrameExec Unit} (h : D.Same x y) :
    D.Same (thenNext x) (thenNext y) :=
  h.andThen fun _ => .ret Flow.next

theorem thenNext_flow_agrees {x y : FrameExec Unit} (h : D.Same x y) :
    D.Flows (thenNext x) (thenNext y) :=
  FrameComparison.Closed.flows (thenNext_flows Flow.common_stays x) (thenNext_agrees h)

@[grind .]
theorem endFinally_agrees : D.Same endFinally endFinally := by
  refine pop_same.andThen fun v => ?_
  split <;> grind -funext

@[grind .]
theorem runPlain_agrees (hg : Serves D.machine g g') {site site' : Site}
    (hs : D.Sites site site') (op : Opcode) : D.Same (runPlain g site op) (runPlain g' site' op) := by
  unfold runPlain
  split
  all_goals try grind -funext
  exact FrameComparison.Closed.invalid _ hs

/-- A primitive with an argument goes on alike, whoever records feedback if that is not
    seen. -/
theorem runWithArg_flow_agrees (hg : Serves D.machine g g') {site site' : Site}
    (hs : D.Sites site site') {r r' : Bool} (hr : (site = site' ∧ r = r') ∨ D.Loose) (op : Opcode)
    {arg arg' : Nat} (h : D.Args op arg arg') :
    D.Flows (runWithArg g site r op arg) (runWithArg g' site' r' op arg') := by
  cases directed : op.isDirected with
  | true =>
    cases op
    case forIter => exact forIter_flow_agrees hg h
    case setupLoop | setupExcept | setupFinally =>
      exact thenNext_flow_agrees (FrameComparison.Closed.setupBlock rfl h)
    case jumpForward | jumpAbsolute => exact jump_flow_agrees rfl h
    case popJumpIfFalse | popJumpIfTrue | jumpIfFalseOrPop | jumpIfTrueOrPop =>
      exact testJump_flow_agrees hr rfl h
    all_goals cases directed
  | false =>
    obtain rfl := FrameComparison.Closed.arg_eq directed h
    refine FrameComparison.Closed.flows (runWithArg_stays g site r directed arg) ?_
    unfold runWithArg
    split
    all_goals try grind -funext
    all_goals try cases directed
    exact FrameComparison.Closed.invalid _ hs

/-- The primitives have one opcode, and arguments that mean the same. -/
structure Matches (D : FrameComparison) (p p' : Primitive) : Prop where
  op : p.op = p'.op
  arg : Option.Rel (D.Args p.op) p.arg p'.arg

/-- Primitives that match go on alike, whoever records feedback if that is not seen. -/
theorem Matches.flows (hg : Serves D.machine g g') {site site' : Site} (hs : D.Sites site site')
    {r r' : Bool} (hr : (site = site' ∧ r = r') ∨ D.Loose) {p p' : Primitive}
    (hp : Matches D p p') : D.Flows (run g site r p) (run g' site' r' p') := by
  obtain ⟨op, arg⟩ := p
  obtain ⟨op', arg'⟩ := p'
  obtain ⟨rfl, args⟩ := hp
  unfold run
  dsimp only at args ⊢
  split
  · exact thenNext_flow_agrees (applyBinary_agrees (binary_agrees hg) hr _)
  · exact thenNext_flow_agrees (applyBinary_agrees (inplace_agrees hg) hr _)
  · exact thenNext_flow_agrees (applyUnary_agrees hg _)
  · split
    · exact thenNext_flow_agrees buildMap_agrees
    · split
      · cases args with
        | none => exact FrameComparison.Closed.flows (.fail _) (FrameComparison.Closed.missing _ hs)
        | some h => exact runWithArg_flow_agrees hg hs hr _ h
      · exact FrameComparison.Closed.flows (runPlain_stays g site _) (runPlain_agrees hg hs _)

/-- In a world a primitive agrees, whoever records feedback if that is not seen. -/
theorem run_agrees {W : World Machine} [W.Closed] {side : Side}
    (hg : Serves (W.agreement side) g g') (site : Site) {r r' : Bool} (hr : r = r' ∨ W.Loose)
    (p : Primitive) : Agrees (frameWorld W) side (run g site r p) (run g' site r' p) := by
  have recorded : (site = site ∧ r = r') ∨ (W.framed side).Loose :=
    hr.imp (⟨rfl, ·⟩) World.Loose.framed
  have same : Matches (W.framed side) p p := ⟨rfl, by cases p.arg <;> constructor; rfl⟩
  exact Matches.flows hg rfl recorded same

end Primitive

/-! ## Instructions -/

section

variable {W : World Machine} {side : Side}

/-- Raising guest exceptions where they happen agrees. -/
theorem caught_agrees {W : World Activation} {x y : FrameExec Flow} (h : Agrees W side x y) :
    Agrees W side (caught x) (caught y) :=
  h.catchRaised (fun exc => .ret _) (fun e he => by cases e <;> first | rfl | exact absurd rfl (he _))
    fun e he => by cases e <;> first | rfl | exact absurd rfl (he _)

/-- The primitives of an instruction agree, whoever records feedback if that is not
    seen. -/
theorem runPrimitives_agrees [W.Closed] (hg : Serves (W.agreement side) g g') {r r' : Bool}
    (hr : r = r' ∨ W.Loose) (ip : Nat) : ∀ (k : Nat) (ps : List Primitive),
      Agrees (frameWorld W) side (runPrimitives g r ip k ps) (runPrimitives g' r' ip k ps)
  | _, [] => .ret _
  | k, p :: ps => by
    have ih := runPrimitives_agrees hg hr ip (k + 1) ps
    refine (caught_agrees (Primitive.run_agrees hg ⟨ip, k⟩ hr p)).andThen fun flow => ?_
    cases flow with
    | next => exact ih
    | _ => exact .ret _

theorem recordTraceback_agrees [W.Framed] (exc : Ref) :
    Agrees (frameWorld W) side (recordTraceback exc) (recordTraceback exc) :=
  frame_agrees.andThen fun f =>
    onMachine_agrees (World.Framed.addEntry side exc f.tracebackEntry)

end

end TieredMachine
