/-
  A run of a frame keeps the machine valid.

  In whichever tier a frame runs, it is entered where it rests.  Native code that is
  installed was made from the unit, and what it hands over the interpreter goes on with.

  * `interpretCounted_guides`, `runCompiled_guides`: the two ways of running a frame;
  * `runFrame_guides`: a run in whichever tier is in force.
-/
import TieredMachine.Proofs.Safety.Call
import TieredMachine.Proofs.Safety.Kernel
import TieredMachine.Proofs.Host.Native

namespace TieredMachine

variable {us : Array CodeUnit} {stops : Nat → Prop} {u : CodeUnit} {g : Guest} {r : Ref}
  {P : Frame → Prop} {E : Fault → Frame → Prop}

/-! ## Machines -/

/-- A change of the machine that keeps it valid. -/
theorem changed_guides {f : Machine → Machine} (hf : ∀ m, m.Valid us → (f m).Valid us) :
    Guides (.validated us stops u) P (onMachine (modify f)) (fun _ => P) E :=
  fun s hm hs => ⟨hf s.machine hm, hs⟩

/-- A look for a reason to leave native code. -/
theorem pollNow_safe (kind : SafePointKind) : Safe (.validated us stops u) (pollNow kind) := by
  intro m hm
  show (m.poll kind).2.Valid us
  unfold Machine.poll
  split
  · exact hm
  · split
    · exact Machine.Valid.of_heap hm rfl fun _ _ h => h
    · exact hm

namespace Machine.Valid

variable {m : Machine} (hm : m.Valid us)

include hm

/-- Native code that is run was made from the unit. -/
theorem runnable {n : NativeFunction} (h : (m.profile r).runnable? = some n) :
    n.MadeFrom (unitAt us r) := by
  unfold Profile.runnable? TierState.runnable? at h
  split at h
  · exact hm.native r n h
  · cases h

/-- An activation is counted, and the unit may be compiled. -/
theorem activate (unit globals : Ref) : (m.activate unit globals).Valid us := by
  have counted : ((m.record .callStartEval).mapProfile unit (·.recordEntry)).Valid us :=
    (hm.record _).mapProfile unit fun _ _ h => h
  exact counted.promote unit globals

theorem entered (entry : Entry) (f : Frame) : (Law.entered entry f m).Valid us := by
  unfold Law.entered
  split
  · exact hm.activate _ _
  · exact hm

end Machine.Valid

/-! ## Tiers -/

section

variable (hu : Built us) (hg : g.Valid us stops)

include hu hg

theorem interpretCounted_guides (entry : Entry) :
    Guides (.validated us stops (unitAt us r)) (·.Enters (unitAt us r) entry)
      (interpretCounted g entry) (fun exit f => f.Leaves (unitAt us r) exit)
      (Frame.Ends us stops (unitAt us r)) := by
  have run := interpret_guides hu (r := r) (hg.safe) entry
  have framed : Guides (.validated us stops (unitAt us r)) (·.Enters (unitAt us r) entry)
      (tryCatch (interpret g entry) fun fault => do
        onMachine (recordEvent .callEndEval)
        throw fault)
      (fun exit f => f.Leaves (unitAt us r) exit) (Frame.Ends us stops (unitAt us r)) :=
    run.handle fun e => (recordEvent_guides _).andThen fun _ => .fail fun _ h => h
  exact .ite (fun _ => (recordEvent_guides _).andThen fun _ =>
    (changed_guides fun m hm => hm.mapStats _).andThen fun _ => framed.andThen fun exit =>
      (recordEvent_guides _).andThen fun _ => .ret fun _ h => h) fun _ => run

/-- The interpreter goes on where native code was left. -/
theorem resumeAfterBail_guides (reason : BailReason) :
    Guides (.validated us stops (unitAt us r)) (·.Stands (unitAt us r))
      (resumeAfterBail g reason) (fun exit f => f.Leaves (unitAt us r) exit)
      (Frame.Ends us stops (unitAt us r)) := by
  have run (entry : Entry) := interpret_guides hu (r := r) (hg.safe) entry
  have raised : Guides (.validated us stops (unitAt us r)) (·.Stands (unitAt us r))
      (do interpret g (.throw_ (← onMachine (newException .runtimeError [.str bailMessage]))))
      (fun exit f => f.Leaves (unitAt us r) exit) (Frame.Ends us stops (unitAt us r)) :=
    (Guides.machine (newException_safe _ _) (fun _ _ h => h) fun _ _ he _ => .inl he).andThen
      fun exc => run (.throw_ exc)
  refine Guides.getThen fun s hm hs => ?_
  exact Guides.ite (fun _ => raised) (fun _ => run .continue_) s hm hs

/-- A run in native code, and in the interpreter after a bail. -/
theorem runCompiled_guides {n : NativeFunction} (hn : n.MadeFrom (unitAt us r)) (unit : Ref)
    (entry : Entry) :
    Guides (.validated us stops (unitAt us r)) (·.Enters (unitAt us r) entry)
      (runCompiled g unit n entry) (fun exit f => f.Leaves (unitAt us r) exit)
      (Frame.Ends us stops (unitAt us r)) := by
  rw [Law.runCompiled_eq]
  have run : Guides (.validated us stops (unitAt us r)) (·.Enters (unitAt us r) entry)
      (do onMachine (modify (·.mapStats fun s => { s with nativeRuns := s.nativeRuns + 1 }))
          runNative g n entry)
      (fun e f => e.Fits (unitAt us r) f) (Frame.Ends us stops (unitAt us r)) :=
    (changed_guides fun m hm => hm.mapStats _).andThen fun _ =>
      runNative_guides hu hg.safe (hg.poll _) hn entry
  have counted : Guides (.validated us stops (unitAt us r)) (·.Enters (unitAt us r) entry)
      (Law.runCounted g n entry) (fun e f => e.Fits (unitAt us r) f)
      (Frame.Ends us stops (unitAt us r)) :=
    .ite (fun _ => (recordEvent_guides _).andThen fun _ => run) fun _ => run
  refine counted.andThen fun exit => ?_
  cases exit with
  | done exit => exact .ret fun _ h => h
  | bail reason =>
    exact (changed_guides fun m hm => hm.bail unit reason).andThen fun _ =>
      resumeAfterBail_guides hu hg reason

/-- A run of a frame, once it is known how the machine stands. -/
theorem runAs_guides {m : Machine} (hm : m.Valid us) (entry : Entry) :
    Guides (.validated us stops (unitAt us r)) (·.Enters (unitAt us r) entry)
      (Law.runAs g r entry m) (fun exit f => f.Leaves (unitAt us r) exit)
      (Frame.Ends us stops (unitAt us r)) := by
  have counted := interpretCounted_guides hu hg (r := r) entry
  unfold Law.runAs
  split
  · exact counted
  · rename_i n hn
    refine .ite (fun _ => ?_) fun _ => runCompiled_guides hu hg (hm.runnable hn) r entry
    exact (changed_guides fun m hm => hm.bail r _).andThen fun _ => counted

/-- **A run of a frame**, in whichever tier is in force. -/
theorem runFrame_guides (entry : Entry) :
    Guides (.validated us stops (unitAt us r)) (·.Rests (unitAt us r)) (runFrame g entry)
      (fun exit f => f.Leaves (unitAt us r) exit) (Frame.Ends us stops (unitAt us r)) := by
  rintro ⟨f, m⟩ hm hf
  have entered : (Law.entered entry f m).Valid us := Machine.Valid.entered hm entry f
  rw [Law.runFrame_apply, hf.code, hu.id]
  exact runAs_guides hu hg entered entry ⟨f, Law.entered entry f m⟩ entered (hf.enters entry)

end

end TieredMachine
