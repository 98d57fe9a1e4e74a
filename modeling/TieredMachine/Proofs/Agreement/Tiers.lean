/-
  Running code does not see tiers.

  Compilation, the knobs and bails change the tier state of units, the records
  and the requests.  None of that is seen by running code, and native code is only
  ever installed that was lowered from its unit.
-/
import TieredMachine.Proofs.Agreement.Machine

namespace TieredMachine

variable {us : Array CodeUnit} {side : Side}

/-- A backend makes threaded code of the graph or its kernel. -/
theorem BackendKind.code_of_compile {b : BackendKind} {h : Heap} {graph : Graph} {level : OptLevel}
    {n : NativeFunction} (hn : b.compile h graph level = .ok n) :
    n.code = .threaded graph ∨ ∃ k, Kernel.compile graph = .ok k ∧ n.code = .kernel k := by
  have kernel {n : NativeFunction} (hn : kernelCode graph level = .ok n) :
      ∃ k, Kernel.compile graph = .ok k ∧ n.code = .kernel k := by
    unfold kernelCode at hn
    cases hk : Kernel.compile graph with
    | error e =>
      rw [hk] at hn
      cases hn
    | ok k =>
      rw [hk] at hn
      cases hn
      exact ⟨k, rfl, rfl⟩
  cases b with
  | threaded =>
    cases hn
    exact .inl rfl
  | cranelift => exact .inr (kernel hn)
  | auto =>
    simp only [compile] at hn
    split at hn
    · cases hn
      exact .inl rfl
    · exact .inr (kernel hn)

namespace Machine

/-- A translation of a unit backs the native code it makes. -/
theorem Sound.backed_of_translate {m : Machine} (hm : m.Sound us) {unit : Ref} {level : OptLevel}
    {globals : Option Ref} {graph : Graph} {n : NativeFunction}
    (h : m.translate unit level globals = .ok (graph, n)) : Backed us m.heap unit n := by
  unfold translate at h
  cases hl : lower m.heap (m.heap.unit unit) (m.unitState unit).feedback
      (m.lowerOptions level globals) with
  | error e =>
    rw [hl] at h
    cases h
  | ok g =>
    cases hc : m.config.backend.compile m.heap g level with
    | error e =>
      rw [hl] at h
      simp only [bind, Except.bind, hc] at h
      cases h
    | ok n' =>
      rw [hl] at h
      simp only [bind, Except.bind, hc] at h
      cases h
      refine ⟨graph, ⟨m.heap, (m.unitState unit).feedback, m.lowerOptions level globals,
        .refl _, ?_⟩, BackendKind.code_of_compile hc⟩
      rw [← hm.units]
      exact hl

namespace Unseen

theorem resetTier (unit : Ref) : Unseen us (·.resetTier unit) :=
  (Unseen.mapUnit unit fun _ _ h => by cases h).comp (.forget unit)

theorem enlist (unit : Ref) (c : CompiledUnit) : Unseen us (·.enlist unit c) :=
  .of (fun _ => rfl) (fun _ => rfl) fun _ _ _ h => h

/-- A failed compilation is not seen. -/
theorem settleError (unit : Ref) (level : OptLevel) (e : CompileError) :
    Unseen us (·.settle unit level (.error e)) := by
  have failed : Unseen us (·.mapProfile unit (·.failCompile)) :=
    .mapProfile unit fun _ _ h => by simp [Profile.failCompile, TierState.drop] at h
  exact (failed.comp (.forget unit)).comp (.mapStats fun s =>
    { s with
      compileFailures := s.compileFailures + 1
      loweringFailures := s.loweringFailures + e.isLoweringFailure.toNat })

/-- A machine stays sound when backed native code is installed. -/
theorem sound_finishCompile {m : Machine} (hm : m.Sound us) {unit : Ref} {level : OptLevel}
    {graph : Graph} {n : NativeFunction} (hn : Backed us m.heap unit n) :
    (m.mapProfile unit (·.finishCompile level graph n)).Sound us where
  units := hm.units
  resting := hm.resting
  discreet := hm.discreet
  lenient := hm.lenient
  backed r n' hr := by
    rw [Machine.profile, Machine.mapProfile, unitState_mapUnit] at hr
    split at hr
    · rename_i h
      simp only [Profile.finishCompile, Option.some.injEq] at hr
      rw [← h.1, ← hr]
      exact hn
    · exact hm.backed r n' hr

theorem sound_settle {m : Machine} (hm : m.Sound us) (unit : Ref) (level : OptLevel)
    (globals : Option Ref) :
    (m.settle unit level (m.translate unit level globals)).Sound us := by
  cases ht : m.translate unit level globals with
  | error e => exact (settleError unit level e).sound m hm
  | ok p =>
    obtain ⟨graph, n⟩ := p
    have installed : (m.mapProfile unit (·.finishCompile level graph n)).Sound us :=
      sound_finishCompile hm (hm.backed_of_translate ht)
    have enlisted := (enlist unit ⟨n.name, level, n.backend⟩).sound _ installed
    exact (mapStats fun s => { s with compilations := s.compilations + 1 }).sound _ enlisted

theorem sight_settle (m : Machine) (unit : Ref) (level : OptLevel)
    (r : Except CompileError (Graph × NativeFunction)) :
    (m.settle unit level r).sight = m.sight := by
  cases r <;> rfl

theorem beginCompile (unit : Ref) (manual : Bool) :
    Unseen us (·.mapProfile unit (·.beginCompile manual)) :=
  .mapProfile unit fun p n h => by
    unfold Profile.beginCompile at h
    split at h <;> exact h

/-- The machine when a compilation has claimed a unit. -/
def claimed (unit : Ref) (manual : Bool) (m : Machine) : Machine :=
  (((m.mapProfile unit (·.beginCompile manual)).record .compileStart).record .lowerStart).record
    .lowerEnd

theorem claim (unit : Ref) (manual : Bool) : Unseen us (claimed unit manual) :=
  (((beginCompile unit manual).comp (.record .compileStart)).comp (.record .lowerStart)).comp
    (.record .lowerEnd)

/-- What a compilation does, if anything, is to claim the unit and settle. -/
theorem compile_cases (m : Machine) (unit : Ref) (level : OptLevel) (manual : Bool)
    (globals : Option Ref) :
    (m.compile unit level manual globals).2 = m ∨
      ∃ m', m' = claimed unit manual m ∧ (m.compile unit level manual globals).2 =
        (m'.settle unit level (m'.translate unit level globals)).record .compileEnd := by
  unfold Machine.compile
  dsimp only
  split
  · exact .inl rfl
  · split
    · exact .inl rfl
    · exact .inr ⟨_, rfl, rfl⟩

/-- A compilation is not seen. -/
theorem compile (unit : Ref) (level : OptLevel) (manual : Bool) (globals : Option Ref) :
    Unseen us fun m => (m.compile unit level manual globals).2 := by
  constructor
  · intro m
    obtain h | ⟨m', hm', h⟩ := compile_cases m unit level manual globals
    · rw [h]
    · have hc : m'.sight = m.sight := hm' ▸ (claim unit manual : Unseen us _).sight m
      rw [h]
      exact (sight_settle m' unit level _).trans hc
  · intro m hm
    obtain h | ⟨m', hm', h⟩ := compile_cases m unit level manual globals
    · rw [h]
      exact hm
    · rw [h]
      have hc : m'.Sound us := hm' ▸ (claim unit manual).sound m hm
      exact (record .compileEnd).sound _ (sound_settle hc unit level globals)

theorem promote (unit globals : Ref) : Unseen us (·.promote unit globals) := by
  have compiled (m : Machine) : Unseen us fun m' =>
      (m'.compile unit m.config.automaticLevel false (some globals)).2 := compile unit _ _ _
  constructor
  · intro m
    unfold Machine.promote
    split
    · exact (compiled m).sight m
    · rfl
  · intro m hm
    unfold Machine.promote
    split
    · exact (compiled m).sound m hm
    · exact hm

theorem recordBail (unit : Ref) (fatal : Bool) (n : Machine → Nat) :
    Unseen us fun m => m.mapProfile unit (·.recordBail fatal (n m)) := by
  constructor
  · exact fun _ => rfl
  · intro m hm
    refine (mapProfile unit fun p code h => ?_).sound m hm
    unfold Profile.recordBail at h
    dsimp only at h
    split at h
    · simp [TierState.drop] at h
    · exact h

/-- A bail is not seen. -/
theorem bail (unit : Ref) (reason : BailReason) : Unseen us (·.bail unit reason) := by
  have started : Unseen us (·.record .bailStart) := record _
  have counted := (started.comp (recordBail unit reason.isFatal (·.config.maxFatalBails))).comp
    (.mapStats fun s => { s with bails := s.bails.add reason })
  have forgotten : Unseen us (·.forget unit) := forget _
  have disabled := (forgotten.comp
    (.mapStats fun s => { s with disablingBails := s.disablingBails + 1 })).comp (.record .bailEnd)
  constructor
  · intro m
    unfold Machine.bail
    dsimp only
    split <;> rfl
  · intro m hm
    unfold Machine.bail
    dsimp only
    split
    · exact disabled.sound _ (counted.sound m hm)
    · exact (record .bailEnd).sound _ (counted.sound m hm)

/-! ### Knobs -/

theorem setLevel (unit : Ref) (n : Int) : Unseen us fun m => (m.setLevel unit n).2 := by
  have dropped : Unseen us fun m =>
      (m.mapProfile unit (·.setManualLevel .unoptimized)).forget unit := by
    refine (mapProfile unit fun p code h => ?_).comp (.forget unit)
    unfold Profile.setManualLevel at h
    dsimp only at h
    split at h
    · simp [TierState.drop] at h
    · exact h
  have compiled (level : OptLevel) (m : Machine) : Unseen us fun m' =>
      (m'.compile unit level true (some m.globals)).2 := compile unit _ _ _
  constructor
  · intro m
    unfold Machine.setLevel
    split
    · rfl
    · rfl
    · exact (compiled _ m).sight m
  · intro m hm
    unfold Machine.setLevel
    split
    · exact hm
    · exact dropped.sound m hm
    · exact (compiled _ m).sound m hm

theorem setUseNative (unit : Ref) (on : Bool) : Unseen us fun m => (m.setUseNative unit on).2 := by
  have turned : Unseen us (·.mapProfile unit (·.setUseNative on)) :=
    .mapProfile unit fun _ _ h => h
  have compiled (m : Machine) : Unseen us fun m' =>
      (m'.compile unit (m.wantedLevel unit) true (some m.globals)).2 := compile unit _ _ _
  constructor
  · intro m
    have h := (compiled m).sight m
    unfold Machine.setUseNative
    dsimp only
    split
    · split
      · rename_i e; rw [e] at h; exact (turned.sight _).trans h
      · rename_i e; rw [e] at h; exact h
    · exact turned.sight m
  · intro m hm
    have h := (compiled m).sound m hm
    unfold Machine.setUseNative
    dsimp only
    split
    · split
      · rename_i e; rw [e] at h; exact turned.sound _ h
      · rename_i e; rw [e] at h; exact h
    · exact turned.sound m hm

end Unseen

end Machine

end TieredMachine
