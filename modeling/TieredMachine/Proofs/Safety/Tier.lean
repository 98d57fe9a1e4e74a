/-
  Valid machines and tiers.

  Compilation, the knobs and bails leave the heap alone.  The native code that they install
  was made from its unit, so a machine stays valid.

  * `Valid.install`, `Valid.compile`, `Valid.promote`: compilation;
  * `Valid.bail`, `Valid.turn`: bails and knobs.
-/
import TieredMachine.Proofs.Safety.Validity
import TieredMachine.Proofs.Agreement.Tiers
import TieredMachine.Engine.Host

namespace TieredMachine

namespace Machine.Valid

variable {us : Array CodeUnit} {m : Machine} (hm : m.Valid us)

include hm

/-! ## Single changes -/

theorem record (kind : EventKind) : (m.record kind).Valid us := hm.of_heap rfl fun _ _ h => h

theorem mapStats (f : Statistics → Statistics) : (m.mapStats f).Valid us :=
  hm.of_heap rfl fun _ _ h => h

theorem forget (unit : Ref) : (m.forget unit).Valid us := hm.of_heap rfl fun _ _ h => h

/-- A change of a unit's state that installs no native code. -/
theorem mapUnit (unit : Ref) {f : UnitState → UnitState}
    (hf : ∀ s n, (f s).profile.state.native = some n → s.profile.state.native = some n) :
    (m.mapUnit unit f).Valid us :=
  hm.of_heap rfl fun r n h => by
    rw [profile, unitState_mapUnit] at h
    split at h
    · exact hf _ n h
    · exact h

theorem mapProfile (unit : Ref) {f : Profile → Profile}
    (hf : ∀ p n, (f p).state.native = some n → p.state.native = some n) :
    (m.mapProfile unit f).Valid us :=
  hm.mapUnit unit fun s n h => hf s.profile n h

/-! ## Compilation -/

/-- Native code is made from the unit that is translated. -/
theorem madeFrom_of_translate {unit : Ref} {level : OptLevel} {globals : Option Ref}
    {graph : Graph} {n : NativeFunction} (h : m.translate unit level globals = .ok (graph, n)) :
    n.MadeFrom (unitAt us unit) := by
  unfold translate at h
  obtain ⟨g, hg, h⟩ := except_bind_ok.mp h
  obtain ⟨n', hn, h⟩ := except_bind_ok.mp h
  cases h
  rw [hm.unit] at hg
  exact ⟨_, _, _, graph, hg, BackendKind.code_of_compile hn⟩

/-- Native code that was made from its unit may be installed. -/
theorem install {unit : Ref} {n : NativeFunction} (hn : n.MadeFrom (unitAt us unit))
    (level : OptLevel) (graph : Graph) :
    (m.mapProfile unit (·.finishCompile level graph n)).Valid us where
  units := hm.units
  functions := hm.functions
  generators := hm.generators
  native r n' h := by
    rw [profile, Machine.mapProfile, unitState_mapUnit] at h
    split at h
    · rename_i same
      cases h
      exact same.1 ▸ hn
    · exact hm.native r n' h

theorem settle (unit : Ref) (level : OptLevel) (globals : Option Ref) :
    (m.settle unit level (m.translate unit level globals)).Valid us := by
  cases ht : m.translate unit level globals with
  | error e =>
    have failed : (m.mapProfile unit (·.failCompile)).Valid us :=
      hm.mapProfile unit fun _ _ h => by cases h
    exact failed.of_heap rfl fun _ _ h => h
  | ok p =>
    have installed := hm.install (hm.madeFrom_of_translate ht) level p.1
    exact installed.of_heap rfl fun _ _ h => h

theorem compile (unit : Ref) (level : OptLevel) (manual : Bool) (globals : Option Ref) :
    (m.compile unit level manual globals).2.Valid us := by
  obtain h | ⟨m', rfl, h⟩ := Unseen.compile_cases m unit level manual globals
  · rw [h]
    exact hm
  · have claimed : (Unseen.claimed unit manual m).Valid us := by
      refine (((hm.mapProfile unit fun p n h => ?_).record _).record _).record _
      unfold Profile.beginCompile at h
      split at h <;> exact h
    rw [h]
    exact (claimed.settle unit level globals).record _

theorem promote (unit globals : Ref) : (m.promote unit globals).Valid us := by
  unfold Machine.promote
  split
  · exact hm.compile unit _ false (some globals)
  · exact hm

/-! ## Bails and knobs -/

theorem bail (unit : Ref) (reason : BailReason) : (m.bail unit reason).Valid us := by
  have counted : ((m.record .bailStart).mapProfile unit
      (·.recordBail reason.isFatal m.config.maxFatalBails)).Valid us := by
    refine (hm.record .bailStart).mapProfile unit fun p n h => ?_
    unfold Profile.recordBail at h
    dsimp only at h
    split at h
    · cases h
    · exact h
  unfold Machine.bail
  dsimp only
  split
  · exact (((counted.mapStats _).forget unit).mapStats _).record _
  · exact (counted.mapStats _).record _

theorem setLevel (unit : Ref) (n : Int) : (m.setLevel unit n).2.Valid us := by
  unfold Machine.setLevel
  split
  · exact hm
  · refine (hm.mapProfile unit fun p n h => ?_).forget unit
    unfold Profile.setManualLevel at h
    dsimp only at h
    split at h
    · cases h
    · exact h
  · exact hm.compile unit _ true _

theorem setUseNative (unit : Ref) (on : Bool) : (m.setUseNative unit on).2.Valid us := by
  have compiled := hm.compile unit (m.wantedLevel unit) true (some m.globals)
  have turned {m : Machine} (hm : m.Valid us) : (m.mapProfile unit (·.setUseNative on)).Valid us :=
    hm.mapProfile unit fun _ _ h => h
  unfold Machine.setUseNative
  dsimp only
  split
  · split
    · rename_i h
      rw [h] at compiled
      exact turned compiled
    · rename_i h
      rw [h] at compiled
      exact compiled
  · exact turned hm

theorem resetTier (unit : Ref) : (m.resetTier unit).Valid us :=
  (hm.mapUnit unit fun _ _ h => by cases h).forget unit

/-- Whatever a host sets, the machine stays valid. -/
theorem turn (k : Knob) : (k.turn m).2.Valid us := by
  cases k with
  | setLevel unit n => exact hm.setLevel unit n
  | setUseNative unit on => exact hm.setUseNative unit on
  | resetTier unit => exact hm.resetTier unit
  | _ => exact hm.of_heap rfl fun _ _ h => h

end Machine.Valid

end TieredMachine
