/-
  Engines that agree.

  Engines that agree on calls and on runs of frames agree on resumed generators, because
  a generator holds a frame that can be entered.  They then agree on every built-in
  function that does not tell tiers apart; the knobs among them change what is not seen.

  * `Guests`: engines that agree on calls and on runs of frames;
  * `Guests.serves`: such engines agree on resumed generators;
  * `BuiltinFn.discreet_agrees`: built-in functions that do not tell tiers apart.
-/
import TieredMachine.Proofs.Agreement.Builtin
import TieredMachine.Proofs.Agreement.Tiers

namespace TieredMachine

/-- Engines that agree on calls, and on runs of frames that can be entered. -/
structure Guests (us : Array CodeUnit) (side : Side) (g g' : Guest) : Prop where
  fuel : side.bounds g.fuel g'.fuel
  call : ∀ callee args kwargs, Agrees (machineWorld us) side (g.call callee args kwargs)
    (g'.call callee args kwargs)
  run : ∀ entry f, f.Ready us entry →
    Agrees (machineWorld us) side ((g.run entry).within f) ((g'.run entry).within f)
  keeps_left : ∀ entry f, Keeps (machineWorld us) ((g.run entry).within f)
  keeps_right : ∀ entry f, Keeps (machineWorld us) ((g'.run entry).within f)
  /-- a frame that yields can be resumed -/
  yields : ∀ entry f m m', f.Ready us entry → (machineWorld us).alike m m' →
    ∀ v f' t t', (g.run entry).within f m = .ok (.yield_ v, f') t →
      (g'.run entry).within f m' = .ok (.yield_ v, f') t' → f'.Resting us

variable {us : Array CodeUnit} {side : Side} {g g' : Guest} {α : Type}

/-! ## Generators -/

/-- The frame of a generator can be entered the way the generator is resumed. -/
theorem Frame.Resting.ready {f : Frame} (hf : f.Resting us) {how : Resumption} {entry : Entry}
    (h : how.entry? f = some entry) : f.Ready us entry := by
  cases how with
  | throw_ exc =>
    simp only [Resumption.entry?, Option.some.injEq] at h
    subst h
    exact hf
  | send v =>
    simp only [Resumption.entry?] at h
    split at h
    · rename_i hs
      cases h
      cases hf with
      | inl fresh => rw [fresh.lasti] at hs; exact absurd hs (by simp)
      | inr suspended => exact suspended
    · rename_i hs
      split at h
      · cases h
        cases hf with
        | inl fresh => exact fresh
        | inr suspended =>
          obtain ⟨i, -, -, hl, -⟩ := suspended.yielded
          rw [hl] at hs
          exact absurd rfl hs
      · exact absurd h (by simp)

theorem keeps_settleGenerator (r : Ref) (exit : Exit) (f : Frame) :
    Keeps (machineWorld us) (settleGenerator r exit f) := by
  cases exit <;> exact fun m => ⟨rfl, fun _ => .refl _⟩

/-- Running the frame of a generator keeps what is kept, whatever the frame. -/
theorem keeps_runGenerator (h : ∀ entry f, Keeps (machineWorld us) ((g.run entry).within f))
    (r : Ref) (entry : Entry) (f : Frame) :
    Keeps (machineWorld us) (runGenerator g r entry f) := by
  have taken : Keeps (machineWorld us)
      (modifyGenerator r fun gen => { gen with frame := none, running := true }) :=
    fun _ => ⟨rfl, fun _ => .refl _⟩
  have ended : Keeps (machineWorld us) (endGenerator r) := fun _ => ⟨rfl, fun _ => .refl _⟩
  refine taken.bind fun _ => Keeps.bind ((keeps_nested (h entry f)).tryCatch fun e => ?_)
    fun p => keeps_settleGenerator r p.1 p.2
  exact ended.bind fun _ => .throw e

/-- Running the frame of a generator agrees when the frame can be entered. -/
theorem runGenerator_agrees (hg : Guests us side g g') (r : Ref) {entry : Entry} {f : Frame}
    (hf : f.Ready us entry) :
    Agrees (machineWorld us) side (runGenerator g r entry f) (runGenerator g' r entry f) := by
  have ended : Agrees (machineWorld us) side (endGenerator r) (endGenerator r) :=
    endGenerator_agrees r
  have run : Agrees (machineWorld us) side
      (tryCatch (nested ((g.run entry).within f)) fun fault => do endGenerator r; throw fault)
      (tryCatch (nested ((g'.run entry).within f)) fun fault => do endGenerator r; throw fault) :=
    (nested_agrees (hg.run entry f hf)).handle (fun e => ended.left.bind fun _ => .throw e)
      (fun e => ended.right.bind fun _ => .throw e)
      (fun e t t' ht => (ended.andThen fun _ => .fail e).agree ht)
      (fun t => ⟨_, rfl⟩) (fun t => ⟨_, rfl⟩)
  refine (modifyGenerator_agrees r fun _ _ h => by cases h).andThen fun _ => ?_
  refine run.andThenOf (fun p => ∀ v, p.1 = .yield_ v → p.2.Resting us)
    (fun m m' p t t' hm hp hp' v hv => ?_) (fun p => keeps_settleGenerator r p.1 p.2)
    (fun p => keeps_settleGenerator r p.1 p.2) fun p hp => ?_
  · -- the frame was suspended one level down
    obtain ⟨u, hu⟩ := nested_ok (tryCatch_ok (fun e u a t h => by cases h) hp)
    obtain ⟨u', hu'⟩ := nested_ok (tryCatch_ok (fun e u a t h => by cases h) hp')
    obtain ⟨exit, f'⟩ := p
    cases hv
    exact hg.yields entry f _ _ hf (Machine.alike_mapDepth _ hm) v f' u u' hu hu'
  · obtain ⟨exit, f'⟩ := p
    cases exit with
    | yield_ v =>
      refine (modifyGenerator_agrees r fun _ fr h => ?_).andThen fun _ => .ret v
      cases h
      exact .inr (hp v rfl)
    | return_ _ => exact ended.andThen fun _ => .of (raiseWith_agrees _ _)

theorem keeps_resumeIn {g : Guest}
    (h : ∀ entry f, Keeps (machineWorld us) ((g.run entry).within f)) (r : Ref)
    (how : Resumption) (heap : Heap) : Keeps (machineWorld us) (
      if (heap.generator r).running then alreadyExecuting else
      match (heap.generator r).frame with
      | none => resumeEnded how
      | some f =>
        match how.entry? f with
        | none => typeError "can't send non-None value to a just-started generator"
        | some entry => runGenerator g r entry f) := by
  split
  · exact fun m => ⟨rfl, fun _ => .refl _⟩
  · split
    · cases how <;> exact fun m => ⟨rfl, fun _ => .refl _⟩
    · split
      · exact fun m => ⟨rfl, fun _ => .refl _⟩
      · exact keeps_runGenerator h r _ _

theorem resumeGenerator_agrees (hg : Guests us side g g') (r : Ref) (how : Resumption) :
    Agrees (machineWorld us) side (resumeGenerator g r how) (resumeGenerator g' r how) := by
  refine .heapThen (keeps_resumeIn hg.keeps_left r how) (keeps_resumeIn hg.keeps_right r how)
    fun heap fair => ?_
  dsimp only
  split
  · exact .of alreadyExecuting_agrees
  · split
    · exact .of (resumeEnded_agrees how)
    · rename_i f hf
      split
      · exact .of (typeError_agrees _)
      · rename_i entry he
        exact runGenerator_agrees hg r ((fair.resting r f hf).ready he)

theorem Guests.serves (hg : Guests us side g g') : Serves ((machineWorld us).agreement side) g g' where
  fuel := .inr ⟨trivial, hg.fuel⟩
  call := hg.call
  resume := resumeGenerator_agrees hg
  close r := closeGenerator_agrees r (modifyGenerator_agrees r fun _ _ h => by cases h)
    (resumeGenerator_agrees hg r)

/-! ## Built-in functions -/

namespace BuiltinFn

theorem resetTierOf_agrees (args : List Value) :
    Agrees (machineWorld us) side (resetTierOf args) (resetTierOf args) := by
  unfold resetTierOf
  refine heap_agrees.andThen fun h => ?_
  split
  · exact (Agrees.unseen (.resetTier _) (.resetTier _)).andThen fun _ => .ret _
  · exact (Agrees.ret _).andThen fun _ => .ret _

/-- A built-in function that does not tell tiers apart agrees. -/
theorem discreet_agrees (hg : Guests us side g g') (args : List Value) {fn : BuiltinFn}
    (h : fn.isTierAware = false) :
    Agrees (machineWorld us) side (fn.run g args) (fn.run g' args) := by
  by_cases hr : fn = .resetTier
  · rw [hr]
    exact resetTierOf_agrees args
  · exact run_agrees hg.serves args h hr

/-! ## Functions that tell tiers apart -/

theorem keeps_compileAt (args : List Value) : Keeps (machineWorld us) (compileAt args) := by
  unfold compileAt
  split
  · rename_i r n
    refine keeps_heap.bind fun h => Keeps.bind (fun m => ?_) fun result => ?_
    · exact (Machine.Unseen.setLevel (h.function r).code n.toInt).kept m
    · cases result <;> exact .pure _
  · exact .pure _

theorem keeps_tierOf (args : List Value) : Keeps (machineWorld us) (tierOf args) := by
  refine Keeps.bind (fun m => .refl m.heap) fun m => ?_
  split <;> exact .pure _

theorem keeps_setBailErrorTo (args : List Value) :
    Keeps (machineWorld us) (setBailErrorTo args) :=
  (.of (truthOf_agrees _) : Agrees (machineWorld us) .left _ _).left.bind fun _ =>
    Keeps.bind (fun m => .refl m.heap) fun _ => .pure _

/-- Every built-in function changes namespaces by counted steps only. -/
theorem keeps_run (hg : Guests us side g g') (args : List Value) (fn : BuiltinFn) :
    Keeps (machineWorld us) (fn.run g args) ∧ Keeps (machineWorld us) (fn.run g' args) := by
  by_cases h : fn.isTierAware
  · cases fn with
    | setLevel => exact ⟨keeps_compileAt args, keeps_compileAt args⟩
    | tier => exact ⟨keeps_tierOf args, keeps_tierOf args⟩
    | setBailError => exact ⟨keeps_setBailErrorTo args, keeps_setBailErrorTo args⟩
    | _ => simp [isTierAware] at h
  · have agrees := discreet_agrees hg args (Bool.eq_false_iff.mpr h)
    exact ⟨agrees.left, agrees.right⟩

end BuiltinFn

end TieredMachine
