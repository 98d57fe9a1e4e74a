/-
  Why a translation fails.

  A unit is translated by an analysis, an emission and a backend.  Each of them fails for
  reasons in the unit only: no step of a translation answers that the unit may not be
  compiled, or that a number names no level.

  * `Declines`, `DeclinesIn`: failures for reasons in the unit, and those of steps that
    have a state;
  * `analyze_declines`, `lower_declines`, `Kernel.compile_declines`: the three parts;
  * `Machine.translate_declines`: a translation.
-/
import TieredMachine.Machine.Compilation

namespace TieredMachine

variable {α β σ : Type}

/-- The computation fails for reasons in the unit only. -/
def Declines (x : Except CompileError α) : Prop := ∀ e, x = .error e → e.isLoweringFailure

/-- The step fails for reasons in the unit only, in every state. -/
def DeclinesIn (x : StateT σ (Except CompileError) α) : Prop := ∀ s, Declines (x s)

namespace Declines

theorem ok (a : α) : Declines (.ok a) := fun _ h => by cases h

theorem error {e : CompileError} (h : e.isLoweringFailure) :
    Declines (.error e : Except CompileError α) := fun _ h' => by cases h'; exact h

theorem ite {c : Prop} [Decidable c] {x y : Except CompileError α} (hx : Declines x)
    (hy : Declines y) : Declines (if c then x else y) := by
  split
  · exact hx
  · exact hy

theorem bind {x : Except CompileError α} {f : α → Except CompileError β} (hx : Declines x)
    (hf : ∀ a, Declines (f a)) : Declines (x >>= f) := by
  intro e h
  cases x with
  | ok a => exact hf a e h
  | error e' =>
    cases h
    exact hx _ rfl

theorem mapM {f : α → Except CompileError β} (l : List α) (h : ∀ a, Declines (f a)) :
    Declines (l.mapM f) := by
  induction l with
  | nil => exact ok []
  | cons a l ih =>
    rw [List.mapM_cons]
    exact (h a).bind fun b => ih.bind fun bs => ok (b :: bs)

end Declines

namespace DeclinesIn

theorem ret (a : α) : DeclinesIn (pure a : StateT σ (Except CompileError) α) := fun s => .ok (a, s)

theorem fail {e : CompileError} (h : e.isLoweringFailure) :
    DeclinesIn (throw e : StateT σ (Except CompileError) α) := fun _ => .error h

theorem lift {x : Except CompileError α} (h : Declines x) :
    DeclinesIn (liftM x : StateT σ (Except CompileError) α) :=
  fun s => h.bind fun a => .ok (a, s)

theorem ite {c : Prop} [Decidable c] {x y : StateT σ (Except CompileError) α} (hx : DeclinesIn x)
    (hy : DeclinesIn y) : DeclinesIn (if c then x else y) := by
  split
  · exact hx
  · exact hy

theorem bind {x : StateT σ (Except CompileError) α} {f : α → StateT σ (Except CompileError) β}
    (hx : DeclinesIn x) (hf : ∀ a, DeclinesIn (f a)) : DeclinesIn (x >>= f) :=
  fun s => (hx s).bind fun p => hf p.1 p.2

theorem read : DeclinesIn (get : StateT σ (Except CompileError) σ) := fun s => .ok (s, s)

theorem write (s : σ) : DeclinesIn (set s : StateT σ (Except CompileError) PUnit) :=
  fun _ => .ok (PUnit.unit, s)

theorem change (f : σ → σ) : DeclinesIn (modify f : StateT σ (Except CompileError) PUnit) :=
  fun s => .ok (PUnit.unit, f s)

theorem mapM {f : α → StateT σ (Except CompileError) β} (l : List α) (h : ∀ a, DeclinesIn (f a)) :
    DeclinesIn (l.mapM f) := by
  induction l with
  | nil => exact ret []
  | cons a l ih =>
    rw [List.mapM_cons]
    exact (h a).bind fun b => ih.bind fun bs => ret (b :: bs)

end DeclinesIn

/-! ## The analysis -/

namespace Analysis

variable (u : CodeUnit) (ip : Nat)

theorem merge_declines (source : Nat) (new : StackState) (a : Analysis) :
    Declines (a.merge u source ip new) := by
  unfold merge
  split
  · exact .error rfl
  · dsimp only
    split
    · exact .ok _
    · exact .ite (.ok _) (.ite (.ok _) (.ite (.error rfl) (.error rfl)))

theorem continueEdge_declines (target : Nat) (e : StackState) (a : Analysis) :
    Declines (a.continueEdge u ip target e) :=
  .ite (.ok a) (merge_declines u target ip _ a)

theorem need_declines (depth n : Nat) : Declines (need ip depth n) := .ite (.error rfl) (.ok _)

theorem targetOf_declines (target : Option Nat) : Declines (targetOf ip target) := by
  cases target with
  | none => exact .error rfl
  | some t => exact .ok t

/-- A jump that is followed. -/
theorem jump_declines (target : Option Nat) (e : StackState) (a : Analysis) (f : Analysis → α) :
    Declines (do let target ← targetOf ip target; return f (← a.merge u ip target e)) :=
  (targetOf_declines ip target).bind fun t => (merge_declines u t ip e a).bind fun _ => .ok _

theorem stepPrimitive_declines (next : Nat) (p : Primitive) (e : StackState) (a : Analysis) :
    Declines (stepPrimitive u ip next p e a) := by
  have needs (n : Nat) : Declines (need ip e.depth n) := need_declines ip e.depth n
  have setup (f : Nat → Handler) (g : Nat → StackState) (k : HandlerId → StackState) :
      Declines (do
        let target ← targetOf ip (p.target? next)
        if maxBlocks ≤ e.handlers.length then .error (.blockMismatch ip)
        let placed := a.handlerFor (f target)
        let a ← placed.2.merge u ip target (g target)
        return (a, some (k placed.1))) :=
    (targetOf_declines ip _).bind fun t =>
      .ite (.bind (.error rfl) fun _ => (merge_declines u t ip _ _).bind fun _ => .ok _)
        ((merge_declines u t ip _ _).bind fun _ => .ok _)
  unfold stepPrimitive
  split
  case h_1 | h_2 | h_3 =>
    exact setup _ (fun _ => { e with depth := e.depth + received _ })
      fun h => { e with handlers := h :: e.handlers }
  case h_4 =>
    dsimp only
    split
    · exact .error rfl
    · exact .ok _
  case h_5 | h_6 => exact jump_declines u ip _ e a _
  case h_7 | h_8 | h_9 | h_10 | h_11 =>
    exact (needs 1).bind fun _ => jump_declines u ip _ _ a _
  case h_12 | h_16 | h_17 => exact (needs 1).bind fun _ => .ok _
  case h_13 =>
    have rest : Declines (do
        need ip e.depth (p.arg.getD 0)
        return (a, none) : Except CompileError (Analysis × Option StackState)) :=
      (needs _).bind fun _ => .ok _
    exact .ite (.bind (.error rfl) fun _ => rest) rest
  case h_14 => exact .ok _
  case h_15 =>
    exact (targetOf_declines ip p.arg).bind fun t =>
      (continueEdge_declines u ip t e a).bind fun _ => .ok _
  case h_18 => exact (needs _).bind fun _ => .ok _

theorem stepPrimitives_declines (next : Nat) (ps : List Primitive) (e : StackState)
    (a : Analysis) : Declines (stepPrimitives u ip next ps e a) := by
  induction ps generalizing e a with
  | nil => exact .ok _
  | cons p ps ih =>
    refine (stepPrimitive_declines u ip next p e a).bind fun out => ?_
    obtain ⟨a, out⟩ := out
    cases out with
    | none => exact .ok _
    | some e => exact ih e _

theorem step_declines (i : Instr) (e : StackState) (a : Analysis) :
    Declines (step u i e a) := by
  refine (stepPrimitives_declines u i.ip i.next i.prims e a).bind fun out => ?_
  obtain ⟨a, out⟩ := out
  cases out with
  | none => exact .ok a
  | some e => exact .ite (merge_declines u i.next i.ip e a) (.ok a)

theorem run_declines (fuel : Nat) (a : Analysis) : Declines (a.run u fuel) := by
  induction fuel generalizing a with
  | zero => exact .ok a
  | succ fuel ih =>
    unfold run
    split
    · exact .ok a
    · dsimp only
      split
      · exact (step_declines u _ _ _).bind fun _ => ih _
      · exact ih _

end Analysis

theorem CodeUnit.analyze_declines (u : CodeUnit) : Declines u.analyze :=
  (Analysis.merge_declines u 0 0 _ _).bind fun a => a.run_declines u _

/-! ## Emission -/

namespace Lowering

theorem blockId_declines (leaders : Array Nat) (ip : Nat) : Declines (blockId leaders ip) := by
  unfold blockId
  split
  · exact .ok _
  · exact .error rfl

theorem required_declines (ip : Nat) (o : Option α) : Declines (required ip o) := by
  cases o with
  | none => exact .error rfl
  | some a => exact .ok a

namespace Context

variable (c : Context) (i : Instr) (site : Site) (p : Primitive)

theorem handlerAt_declines (ip : Nat) : Declines (c.handlerAt ip) := by
  unfold handlerAt
  split
  · exact .ok _
  · exact .error rfl

theorem nextBlock_declines : Declines (c.nextBlock i) :=
  .ite (blockId_declines _ _) (.error rfl)

theorem binaryOpFor_declines : DeclinesIn (c.binaryOpFor site p) := by
  unfold binaryOpFor
  split
  · exact .ret _
  · exact (DeclinesIn.change _).bind fun _ => .ret _
  · exact .ret _

theorem assumeGlobal_declines (index : Nat) : DeclinesIn (c.assumeGlobal index) := by
  unfold assumeGlobal
  split
  · split
    · refine DeclinesIn.read.bind fun e => ?_
      split
      · exact .ret _
      · dsimp only
        split
        · exact (DeclinesIn.write _).bind fun _ => .ret _
        · exact (DeclinesIn.write _).bind fun _ => .ret _
        · exact .ret _
    · exact .ret _
  · exact .ret _

theorem cachedLoad?_declines : DeclinesIn (c.cachedLoad? i) := by
  unfold cachedLoad?
  split
  · exact .ite (assumeGlobal_declines c _) (.ret _)
  · exact .ret _

theorem operationOf_declines (cached : Option Nat) (k : Nat) :
    DeclinesIn (c.operationOf cached i k p) := by
  have setup : DeclinesIn (do return .pushHandler (← c.handlerAt i.ip) : Emit Op) :=
    (DeclinesIn.lift (handlerAt_declines c i.ip)).bind fun _ => .ret _
  unfold operationOf
  dsimp only
  split
  · exact .ret _
  · exact setup
  · exact setup
  · exact setup
  · split
    · exact .ret _
    · exact .ret _
  · exact .ite (binaryOpFor_declines c _ p) (.ret _)

theorem terminatorOf_declines : DeclinesIn (c.terminatorOf i site p) := by
  have target : DeclinesIn (liftM (do blockId c.leaders (← required i.ip (p.target? i.next))) :
      Emit BlockId) :=
    .lift ((required_declines _ _).bind fun _ => blockId_declines _ _)
  have next : DeclinesIn (liftM (c.nextBlock i) : Emit BlockId) := .lift (nextBlock_declines c i)
  have arg : DeclinesIn (liftM (required i.ip p.arg) : Emit Nat) := .lift (required_declines _ _)
  unfold terminatorOf
  split
  case h_1 | h_2 => exact target.bind fun _ => .ret _
  case h_3 | h_4 =>
    refine target.bind fun _ => next.bind fun _ => arg.bind fun _ => ?_
    split
    · exact .ret _
    · exact .ret _
  case h_5 | h_6 => exact arg.bind fun _ => target.bind fun _ => next.bind fun _ => .ret _
  case h_7 => exact arg.bind fun _ => next.bind fun _ => target.bind fun _ => .ret _
  case h_8 => exact .ret _
  case h_9 => exact next.bind fun _ => (DeclinesIn.change _).bind fun _ => .ret _
  case h_10 =>
    exact .ite ((DeclinesIn.lift (blockId_declines _ _)).bind fun _ => .ret _) (.ret _)
  case h_11 | h_12 | h_13 => exact .ret _
  case h_14 => exact .fail rfl

theorem emitPrims_declines (cached : Option Nat) (k : Nat) (ps : List Primitive) :
    DeclinesIn (c.emitPrims cached i k ps) := by
  induction ps generalizing k with
  | nil => exact .ret _
  | cons p ps ih =>
    exact .ite ((terminatorOf_declines c i _ p).bind fun _ => .ret _)
      ((operationOf_declines c i p cached k).bind fun _ => (ih (k + 1)).bind fun _ => .ret _)

theorem emitInstr_declines : DeclinesIn (c.emitInstr i) :=
  (cachedLoad?_declines c i).bind fun _ => DeclinesIn.read.bind fun _ =>
    (emitPrims_declines c i _ 0 i.prims).bind fun _ => .ret _

theorem emitBlocks_declines (a : Analysis) (is : List Instr) (current : Option GraphBlock)
    (done : Array GraphBlock) : DeclinesIn (c.emitBlocks a is current done) := by
  induction is generalizing current done with
  | nil => exact .ret _
  | cons i is ih =>
    refine .ite ?starts ?goesOn
    case' starts => cases current
    case' starts.none =>
      refine (DeclinesIn.ret done).bind fun done => (DeclinesIn.ret _).bind fun p => ?_
    case' starts.some b =>
      refine (DeclinesIn.lift (blockId_declines _ _)).bind fun _ => (DeclinesIn.ret _).bind fun done =>
        (DeclinesIn.ret _).bind fun p => ?_
    case' goesOn => refine (DeclinesIn.ret (current, done)).bind fun p => ?_
    -- the instruction goes into the block that is being filled, if there is one
    all_goals
      obtain ⟨current, done⟩ := p
      cases current with
      | none => exact .fail rfl
      | some b =>
        refine (emitInstr_declines c i).bind fun out => ?_
        obtain ⟨insts, term⟩ := out
        cases term with
        | none => exact ih _ _
        | some term => exact ih _ _

end Context

theorem unreachedHandlers_declines (u : CodeUnit) (a : Analysis) :
    Declines (unreachedHandlers u a) := by
  refine (Declines.mapM _ fun i => ?_).bind fun _ => .ok _
  split
  · exact .ok _
  · exact .ite (.ok _) ((required_declines _ _).bind fun _ => .ok _)

theorem placedHandlers_declines (u : CodeUnit) (leaders : Array Nat) (a : Analysis) :
    Declines (placedHandlers u leaders a) := by
  refine (unreachedHandlers_declines u a).bind fun _ => ?_
  rw [Array.mapM_eq_mapM_toList]
  exact (Declines.mapM _ fun _ => (blockId_declines _ _).bind fun _ => .ok _).bind fun _ => .ok _

end Lowering

/-- A lowering at a level that has native code fails for reasons in the unit only. -/
theorem lower_declines (heap : Heap) (u : CodeUnit) (feedback : Feedback) (opts : LowerOptions)
    (h : opts.level ≠ .unoptimized) : Declines (lower heap u feedback opts) := by
  have plain : Declines (lowerPlain heap u feedback opts) := by
    unfold lowerPlain
    rw [if_neg h]
    exact u.analyze_declines.bind fun a =>
      (Lowering.placedHandlers_declines u _ a).bind fun _ =>
        (Lowering.Context.emitBlocks_declines _ a _ none #[] {}).bind fun _ => .ok _
  exact plain.bind fun _ => .ok _

/-! ## Kernels -/

namespace Kernel

theorem reject_declines (why : String) : DeclinesIn (reject why : Build α) := .fail rfl

theorem bailAt_declines (p : BailPoint) : DeclinesIn (bailAt p) :=
  DeclinesIn.read.bind fun _ => (DeclinesIn.write _).bind fun _ => .ret _

theorem pointHere_declines (ip : Nat) (kind : BailKind) : DeclinesIn (pointHere ip kind) :=
  DeclinesIn.read.bind fun _ => .ret _

theorem guardPoint_declines : DeclinesIn guardPoint := by
  refine DeclinesIn.read.bind fun s => ?_
  split
  · exact bailAt_declines _
  · exact reject_declines _

theorem popKind_declines : DeclinesIn popKind := by
  refine DeclinesIn.read.bind fun s => ?_
  split
  · exact (DeclinesIn.write _).bind fun _ => .ret _
  · exact reject_declines _

theorem popInt_declines : DeclinesIn popInt := by
  refine popKind_declines.bind fun k => ?_
  cases k with
  | int => exact .ret _
  | bool => exact reject_declines _

theorem pushKind_declines (k : Kind) : DeclinesIn (pushKind k) := .change _

theorem buildBinary_declines (op : BinaryOp) : DeclinesIn (buildBinary op) := by
  refine popInt_declines.bind fun _ => popInt_declines.bind fun _ => ?_
  have pushed (ops : List Op) : DeclinesIn (do pushKind .int; return ops) :=
    (pushKind_declines _).bind fun _ => .ret _
  split
  case h_1 | h_2 | h_3 =>
    exact guardPoint_declines.bind fun _ => (DeclinesIn.ret _).bind pushed
  case h_4 | h_5 | h_6 => exact (DeclinesIn.ret _).bind pushed
  case h_7 => exact (reject_declines _).bind pushed

theorem argOf_declines (p : Primitive) : DeclinesIn (argOf p) := by
  unfold argOf
  split
  · exact .ret _
  · exact reject_declines _

/-- What comes after a check. -/
theorem unless_declines {c : Prop} [Decidable c] {why : String} {x : Build α}
    (h : DeclinesIn x) : DeclinesIn (if c then do reject why; x else x) :=
  .ite ((reject_declines why).bind fun _ => h) h

theorem buildPrimitive_declines (g : Graph) (p : Primitive) :
    DeclinesIn (buildPrimitive g p) := by
  have arg := argOf_declines p
  have popped {f : Kind → Build (List Op)} (h : ∀ k, DeclinesIn (f k)) :
      DeclinesIn (popKind >>= f) := popKind_declines.bind h
  have pushed (k : Kind) {x : Build (List Op)} (h : DeclinesIn x) :
      DeclinesIn (do pushKind k; x) := (pushKind_declines k).bind fun _ => h
  unfold buildPrimitive
  cases p.op.operator? with
  | some op => exact buildBinary_declines op
  | none =>
    dsimp only
    split
    case h_1 => exact .ret _
    case h_2 => exact popped fun _ => .ret _
    case h_3 => exact popped fun k => pushed k (pushed k (.ret _))
    case h_4 => exact popped fun a => popped fun b => pushed a (pushed b (.ret _))
    case h_5 =>
      exact popped fun a => popped fun b => popped fun c => pushed a (pushed c (pushed b (.ret _)))
    case h_6 =>
      refine arg.bind fun a => ?_
      split
      · exact pushed _ (.ret _)
      · exact pushed _ (.ret _)
      · exact reject_declines _
    case h_7 =>
      refine arg.bind fun i => unless_declines (DeclinesIn.read.bind fun s => .ite ?_ ?_)
      · exact (DeclinesIn.ret _).bind fun _ => pushed _ (.ret _)
      · exact guardPoint_declines.bind fun _ => (DeclinesIn.ret _).bind fun _ => pushed _ (.ret _)
    case h_8 =>
      exact arg.bind fun i => unless_declines (popInt_declines.bind fun _ =>
        (DeclinesIn.change _).bind fun _ => .ret _)
    case h_9 =>
      exact popInt_declines.bind fun _ => guardPoint_declines.bind fun _ => pushed _ (.ret _)
    case h_10 =>
      refine arg.bind fun a => ?_
      split
      · exact unless_declines (popInt_declines.bind fun _ => popInt_declines.bind fun _ =>
          pushed _ (.ret _))
      · exact reject_declines _
    case h_11 =>
      refine DeclinesIn.read.bind fun s => ?_
      split
      · exact (DeclinesIn.write _).bind fun _ => .ret _
      · exact reject_declines _
    case h_12 => exact reject_declines _

theorem buildCommit_declines : DeclinesIn buildCommit :=
  (DeclinesIn.change _).bind fun _ => .ret _

theorem buildInst_declines (g : Graph) (i : Inst) : DeclinesIn (buildInst g i) := by
  unfold buildInst
  dsimp only
  split
  · exact buildCommit_declines.bind fun _ => (pointHere_declines _ _).bind fun _ =>
      (bailAt_declines _).bind fun _ => .ret _
  · exact buildCommit_declines.bind fun _ => (pointHere_declines _ _).bind fun _ =>
      (DeclinesIn.change _).bind fun _ => .ret _
  · exact buildPrimitive_declines g _
  · exact (DeclinesIn.change _).bind fun _ => .ret _
  · exact reject_declines _
  · exact reject_declines _
  · exact reject_declines _
  · exact buildPrimitive_declines g _

theorem targetBlock_declines (g : Graph) (b : BlockId) : DeclinesIn (targetBlock g b) :=
  .ite (.ret b) (reject_declines _)

theorem expectEmpty_declines : DeclinesIn expectEmpty :=
  DeclinesIn.read.bind fun _ => .ite (reject_declines _) (.ret _)

theorem buildExit_declines (g : Graph) (t : Terminator) : DeclinesIn (buildExit g t) := by
  have goes {f : BlockId → Build Exit} (b : BlockId) (h : ∀ b, DeclinesIn (f b)) :
      DeclinesIn (targetBlock g b >>= f) := (targetBlock_declines g b).bind h
  cases t with
  | goto b => exact expectEmpty_declines.bind fun _ => goes b fun _ => .ret _
  | branch op arg site taken fallthrough =>
    refine popKind_declines.bind fun _ => expectEmpty_declines.bind fun _ =>
      goes taken fun _ => goes fallthrough fun _ => ?_
    split
    · exact .ret _
    · exact .ret _
    · exact reject_declines _
  | speculate op arg site expected next =>
    refine popKind_declines.bind fun _ => expectEmpty_declines.bind fun _ =>
      DeclinesIn.read.bind fun s => ?_
    split
    · exact reject_declines _
    · rename_i start _
      have left (other : Nat) : DeclinesIn (do
          let bail ← bailAt ⟨other, start.ip, .guard, [], s.blocks⟩
          return Exit.speculate expected bail (← targetBlock g next)) :=
        (bailAt_declines _).bind fun _ => goes next fun _ => .ret _
      refine .ite ((DeclinesIn.ret _).bind left) ?_
      split
      · exact (DeclinesIn.ret _).bind left
      · exact (reject_declines _).bind left
  | return_ site => exact popKind_declines.bind fun _ => .ret _
  | forIter => exact reject_declines _
  | yield_ => exact reject_declines _
  | unwind => exact reject_declines _
  | trap => exact reject_declines _

theorem entryBlocks_declines (g : Graph) (hs : List HandlerId) :
    DeclinesIn (entryBlocks g hs) := by
  refine .mapM hs fun h => ?_
  dsimp only
  split
  · exact .ret _
  · exact reject_declines _

theorem buildBlock_declines (g : Graph) (b : GraphBlock) : DeclinesIn (buildBlock g b) :=
  .ite (.ret _) ((entryBlocks_declines g _).bind fun _ => (DeclinesIn.change _).bind fun _ =>
    (DeclinesIn.mapM _ (buildInst_declines g)).bind fun _ => buildCommit_declines.bind fun _ =>
      (buildExit_declines g _).bind fun _ => .ret _)

/-- A graph is no kernel for reasons in the unit only. -/
theorem compile_declines (g : Graph) : Declines (compile g) := by
  have build : DeclinesIn (do
      let _ ← targetBlock g g.entry
      g.blocks.mapM (buildBlock g) : Build (Array (Option Code))) := by
    rw [Array.mapM_eq_mapM_toList]
    exact (targetBlock_declines g _).bind fun _ =>
      (DeclinesIn.mapM _ (buildBlock_declines g)).bind fun _ => .ret _
  unfold compile
  split
  · exact .error rfl
  · exact (build {}).bind fun _ => .ok _

end Kernel

/-! ## Translations -/

theorem BackendKind.kernelCode_declines (g : Graph) (level : OptLevel) :
    Declines (kernelCode g level) :=
  (Kernel.compile_declines g).bind fun _ => .ok _

theorem BackendKind.compile_declines (b : BackendKind) (heap : Heap) (g : Graph)
    (level : OptLevel) : Declines (b.compile heap g level) := by
  cases b with
  | threaded => exact .ok _
  | cranelift => exact kernelCode_declines g level
  | auto =>
    unfold compile
    dsimp only
    split
    · exact .ok _
    · exact kernelCode_declines g level

/-- **A translation** at a level that has native code fails for reasons in the unit
    only. -/
theorem Machine.translate_declines (m : Machine) (unit : Ref) {level : OptLevel}
    (h : level ≠ .unoptimized) (globals : Option Ref) :
    Declines (m.translate unit level globals) :=
  (lower_declines m.heap (m.heap.unit unit) (m.unitState unit).feedback
    (m.lowerOptions level globals) h).bind fun g =>
      (BackendKind.compile_declines m.config.backend m.heap g level).bind fun _ => .ok _

end TieredMachine
