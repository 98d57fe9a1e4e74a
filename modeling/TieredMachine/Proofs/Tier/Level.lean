/-
  The level that is reported of a unit.

  One field stands for the level of installed code and for the level that was asked for.  It is
  set when code is installed and when the unit is pinned at the lowest level, and cleared by a
  reset.  A compilation that fails, and a bail that ends native execution, take the code away and
  leave the level; a request that is refused, or fails, does not set it.  So the report tells the
  truth while code is installed, and without it as long as nothing was compiled unasked and every
  request was met.

  * `TierStep`, `TierRun`: operations on tiers, in any order;
  * `TierStep.requested`, `Machine.Truthful`: what the level is to be;
  * `TierStep.reported`, `TierStep.level_run`: what one operation makes of it;
  * `TierRun.level_eq`, `TierRun.level_requested`: what a run makes of it;
  * `level_exact`: both taken together.
-/
import TieredMachine.Proofs.Tier.Tidy

namespace TieredMachine

/-! ## Operations -/

/-- An operation on the tier of a unit. -/
inductive TierStep where
  | activate (unit globals : Ref)
  | backedge (unit : Ref) (weight : UInt64)
  | compile (unit : Ref) (level : OptLevel) (manual : Bool) (globals : Option Ref)
  | bail (unit : Ref) (reason : BailReason)
  | turn (k : Knob)

namespace TierStep

/-- The machine after an operation. -/
def run (m : Machine) : TierStep → Machine
  | activate unit globals => m.activate unit globals
  | backedge unit weight => m.mapProfile unit (·.recordBackedge weight)
  | compile unit level manual globals => (m.compile unit level manual globals).2
  | bail unit reason => m.bail unit reason
  | turn k => (k.turn m).2

/-- The level that an operation asks for, for a unit. -/
def asks? (r : Ref) : TierStep → Option OptLevel
  | turn (.setLevel unit n) => if unit = r then OptLevel.ofInt? n else none
  | compile unit level true _ => if unit = r ∧ level ≠ .unoptimized then some level else none
  | _ => none

/-- Whether an operation resets a unit. -/
def Resets (r : Ref) : TierStep → Prop
  | turn (.resetTier unit) => unit = r
  | _ => False

instance (r : Ref) (s : TierStep) : Decidable (s.Resets r) := by
  unfold Resets
  split <;> infer_instance

/-- The level that was asked for last since the last reset, after one more operation. -/
def requested (r : Ref) (before : Option OptLevel) (s : TierStep) : Option OptLevel :=
  if s.Resets r then none else (s.asks? r).or before

end TierStep

/-- The level of the native code of a unit. -/
def Machine.installed? (m : Machine) (r : Ref) : Option OptLevel :=
  (m.profile r).state.native.map (·.level)

/-- The level of a unit tells the truth: it is that of the native code, or the one that was asked
    for last. -/
def Machine.Truthful (m : Machine) (r : Ref) (requested : Option OptLevel) : Prop :=
  (m.profile r).state.level = (m.installed? r).or requested

/-- The level of a unit after an operation: that of new code, that at which it is pinned, or none
    after a reset. -/
def TierStep.reported (r : Ref) (before : Option OptLevel) (x : Machine × TierStep) :
    Option OptLevel :=
  if x.2.Resets r then none
  else if x.2.asks? r = some .unoptimized then some .unoptimized
  else ((x.2.run x.1).installed? r).or before

/-- Operations one after the other, each with the machine that it meets.  Between them anything
    may happen that leaves the tiers alone. -/
inductive TierRun : Machine → List (Machine × TierStep) → Machine → Prop
  | done {m m'} (rest : m.SameTiers m') : TierRun m [] m'
  | step {m m₁ m' xs} {s : TierStep} (rest : m.SameTiers m₁) (run : TierRun (s.run m₁) xs m') :
      TierRun m ((m₁, s) :: xs) m'

/-! ## One operation -/

namespace Profile

variable {p p' : Profile}

/-- The level stays, or there is native code. -/
def Kept (p p' : Profile) : Prop := p'.state.level = p.state.level ∨ p'.state.native.isSome

theorem Kept.of_state (h : p'.state = p.state) : p.Kept p' := .inl (by rw [h])

/-- A claimed compilation that fails leaves the level. -/
theorem settle_kept (p : Profile) (level : OptLevel) (manual : Bool)
    (result : Except CompileError (Graph × NativeFunction)) :
    p.Kept ((p.beginCompile manual).settle level result) := by
  cases result with
  | ok made => exact .inr rfl
  | error e =>
    left
    show (p.beginCompile manual).state.level = p.state.level
    unfold beginCompile
    split <;> rfl

/-- A bail leaves the level, whether it ends native execution or not. -/
theorem recordBail_kept (p : Profile) (fatal : Bool) (maxFatalBails : Nat) :
    p.Kept (p.recordBail fatal maxFatalBails) := by
  left
  unfold recordBail
  dsimp only
  split <;> rfl

end Profile

namespace Machine

variable {m m' : Machine} {unit r : Ref} {level : OptLevel}

/-- An operation on another unit keeps the level. -/
theorem Moved.kept (h : m.Moved m' unit) (hu : unit = r → (m.profile r).Kept (m'.profile r)) :
    (m.profile r).Kept (m'.profile r) := by
  by_cases same : unit = r
  · exact hu same
  · exact .of_state (by rw [h.profile r same])

theorem Claimed.kept {manual : Bool} {result : Except CompileError (Graph × NativeFunction)}
    (h : Claimed m unit level manual result m') (hr : unit < m.units.size) :
    (m.profile unit).Kept (m'.profile unit) := by
  rw [h.profile hr]
  exact Profile.settle_kept _ level manual result

theorem compile_kept (hr : r < m.units.size) (manual : Bool) (globals : Option Ref) :
    (m.profile r).Kept ((m.compile unit level manual globals).2.profile r) := by
  refine (Moved.compile m unit level manual globals).kept ?_
  rintro rfl
  obtain ⟨e, -, same⟩ | ⟨result, -, -, claimed⟩ := compile_cases m unit level manual globals
  · rw [same]
    exact .of_state rfl
  · exact claimed.kept hr

theorem activate_kept (hr : r < m.units.size) (globals : Ref) :
    (m.profile r).Kept ((m.activate unit globals).profile r) := by
  refine (Moved.activate globals).kept ?_
  rintro rfl
  have counted := profile_counted (m := m) hr
  cases due : ((m.record .callStartEval).mapProfile unit (·.recordEntry)).isDue unit with
  | false =>
    rw [activate_idle due, counted]
    exact .of_state rfl
  | true =>
    obtain ⟨result, claimed⟩ := activate_due globals due
    have kept := claimed.kept (by rw [size_mapProfile]; exact hr)
    rw [counted] at kept
    exact kept

theorem bail_kept (hr : r < m.units.size) (reason : BailReason) :
    (m.profile r).Kept ((m.bail unit reason).profile r) := by
  refine (Moved.bail m unit reason).kept ?_
  rintro rfl
  rw [profile_bail reason hr]
  exact Profile.recordBail_kept _ _ _

theorem setUseNative_kept (hr : r < m.units.size) (on : Bool) :
    (m.profile r).Kept ((m.setUseNative unit on).2.profile r) := by
  have turned (m : Machine) : ((m.mapProfile unit (·.setUseNative on)).profile r).state.level =
      (m.profile r).state.level ∧ ((m.mapProfile unit (·.setUseNative on)).profile r).state.native =
        (m.profile r).state.native := by
    rw [profile_mapProfile]
    split <;> exact ⟨rfl, rfl⟩
  have compiled : (m.profile r).Kept
      ((m.compile unit (m.wantedLevel unit) true (some m.globals)).2.profile r) :=
    compile_kept hr true _
  unfold setUseNative
  split
  · dsimp only
    split
    · rename_i n m' answer
      rw [answer] at compiled
      rw [Profile.Kept, (turned m').1, (turned m').2]
      exact compiled
    · rename_i e m' answer
      rw [answer] at compiled
      exact compiled
  · exact .inl (turned m).1

/-- Native code that is there is reported. -/
theorem Tidy.level_installed (tidy : m.Tidy) (hr : r < m.units.size)
    (h : m.installed? r = some level) : (m.profile r).state.level = some level := by
  obtain ⟨n, native, rfl⟩ := Option.map_eq_some_iff.mp h
  exact (tidy r hr).level n native

/-- Where the level stays unless there is native code, it is that of the code, or the old one. -/
theorem Tidy.level_kept (tidy : m'.Tidy) (hr : r < m'.units.size)
    (kept : (m.profile r).Kept (m'.profile r)) :
    (m'.profile r).state.level = (m'.installed? r).or (m.profile r).state.level := by
  cases native : m'.installed? r with
  | some l => exact tidy.level_installed hr native
  | none =>
    obtain same | some := kept
    · rw [same, Option.none_or]
    · rw [Option.map_eq_none_iff.mp native] at some
      cases some

end Machine

namespace TierStep

variable {m : Machine} {r : Ref}

theorem size_run (m : Machine) (s : TierStep) : (s.run m).units.size = m.units.size := by
  cases s with
  | activate unit globals => exact (Machine.Moved.activate globals).size
  | backedge unit weight => exact Machine.size_mapProfile m unit _
  | compile unit level manual globals => exact (Machine.Moved.compile m unit level manual globals).size
  | bail unit reason => exact (Machine.Moved.bail m unit reason).size
  | turn k =>
    cases h : k.unit? with
    | some unit => exact (k.turn_moved m h).size
    | none => cases k with
      | setLevel | setUseNative | resetTier => cases h
      | setControl | setTracing | setBailError | requestBail => rfl

theorem tidy_run (tidy : m.Tidy) (s : TierStep) : (s.run m).Tidy := by
  cases s with
  | activate unit globals => exact Machine.activate_tidy tidy globals
  | backedge unit weight => exact Machine.recordBackedge_tidy tidy weight
  | compile unit level manual globals => exact Machine.compile_tidy tidy manual globals
  | bail unit reason => exact Machine.bail_tidy tidy reason
  | turn k => exact tidy.turn k

/-- A knob that neither resets the unit nor pins it keeps the level. -/
theorem turn_kept (hr : r < m.units.size) {k : Knob} (stays : ¬ (turn k).Resets r)
    (unpinned : (turn k).asks? r ≠ some .unoptimized) :
    (m.profile r).Kept ((k.turn m).2.profile r) := by
  cases k with
  | setLevel unit n =>
    show (m.profile r).Kept ((m.setLevel unit n).2.profile r)
    refine (Machine.Moved.setLevel m unit n).kept fun same => ?_
    simp only [asks?, if_pos same] at unpinned
    unfold Machine.setLevel
    split
    · exact .of_state rfl
    · rename_i pins
      exact absurd pins unpinned
    · exact Machine.compile_kept hr true _
  | setUseNative unit on => exact Machine.setUseNative_kept hr on
  | resetTier unit =>
    refine (Machine.Moved.resetTier m unit).kept fun same => ?_
    exact absurd same stays
  | setControl | setTracing | setBailError | requestBail => exact .of_state rfl

/-- An operation that neither resets the unit nor pins it keeps the level. -/
theorem run_kept (hr : r < m.units.size) {s : TierStep} (stays : ¬ s.Resets r)
    (unpinned : s.asks? r ≠ some .unoptimized) : (m.profile r).Kept ((s.run m).profile r) := by
  cases s with
  | activate unit globals => exact Machine.activate_kept hr globals
  | backedge unit weight =>
    refine .of_state ?_
    show ((m.mapProfile unit _).profile r).state = _
    rw [Machine.profile_mapProfile]
    split <;> rfl
  | compile unit level manual globals => exact Machine.compile_kept hr manual globals
  | bail unit reason => exact Machine.bail_kept hr reason
  | turn k => exact turn_kept hr stays unpinned

/-- What an operation asks for, at the lowest level, is a pin. -/
theorem pins_of_asks {s : TierStep} (h : s.asks? r = some .unoptimized) :
    ∃ n, OptLevel.ofInt? n = some .unoptimized ∧ s = turn (.setLevel r n) := by
  unfold asks? at h
  split at h
  · obtain ⟨rfl, lowest⟩ := Option.ite_none_right_eq_some.mp h
    exact ⟨_, lowest, rfl⟩
  · obtain ⟨⟨-, other⟩, lowest⟩ := Option.ite_none_right_eq_some.mp h
    exact absurd (Option.some.inj lowest) other
  · cases h

/-- **One operation** makes the level what is reported of it. -/
theorem level_run (tidy : m.Tidy) (hr : r < m.units.size) (s : TierStep) :
    ((s.run m).profile r).state.level = reported r (m.profile r).state.level (m, s) := by
  unfold reported
  by_cases resets : s.Resets r
  · rw [if_pos resets]
    unfold Resets at resets
    split at resets
    · subst resets
      show ((m.mapUnit _ _).profile _).state.level = none
      rw [Machine.profile, Machine.unitState_mapUnit, if_pos ⟨rfl, hr⟩]
      rfl
    · cases resets
  · rw [if_neg resets]
    by_cases pinned : s.asks? r = some .unoptimized
    · rw [if_pos pinned]
      obtain ⟨n, lowest, rfl⟩ := pins_of_asks pinned
      show ((m.setLevel r n).2.profile r).state.level = some .unoptimized
      simp only [Machine.setLevel, lowest]
      rw [Machine.profile_forget, Machine.profile_mapProfile, if_pos ⟨rfl, hr⟩]
      unfold Profile.setManualLevel
      dsimp only
      split <;> rfl
    · rw [if_neg pinned]
      exact (tidy_run tidy s).level_kept (by rw [size_run]; exact hr) (run_kept hr resets pinned)

/-- Nothing is compiled for the unit unasked, and what is asked for is met. -/
structure Obeys (r : Ref) (x : Machine × TierStep) : Prop where
  met : ∀ l, x.2.asks? r = some l → ((x.2.run x.1).profile r).state.level = some l
  unasked : x.2.asks? r = none → ∀ l, (x.2.run x.1).installed? r = some l →
    x.1.installed? r = some l

theorem Obeys.level {s : TierStep} (h : Obeys r (m, s)) (tidy : m.Tidy) (hr : r < m.units.size) :
    ((s.run m).profile r).state.level = requested r (m.profile r).state.level s := by
  unfold requested
  cases asked : s.asks? r with
  | some l =>
    have stays : ¬ s.Resets r := by
      intro resets
      unfold Resets at resets
      split at resets
      · cases asked
      · exact resets
    rw [if_neg stays, h.met l asked, Option.some_or]
  | none =>
    have unpinned : s.asks? r ≠ some .unoptimized := by
      rw [asked]
      exact (Option.some_ne_none _).symm
    rw [level_run tidy hr, reported, if_neg unpinned, Option.none_or]
    congr 1
    cases native : (s.run m).installed? r with
    | none => exact Option.none_or
    | some l => rw [tidy.level_installed hr (h.unasked asked l native), Option.some_or]

end TierStep

/-! ## Runs -/

namespace TierRun

open TierStep

variable {m m' : Machine} {r : Ref} {xs : List (Machine × TierStep)}

/-- What leaves the tiers alone leaves the machine tidy. -/
theorem tidy_rest (tidy : m.Tidy) (rest : m.SameTiers m') : m'.Tidy :=
  (Law.TierOnly.holds_of_same (L := tidyLaw m.config) rest ⟨rfl, tidy⟩).2

theorem tidy (run : TierRun m xs m') (tidy : m.Tidy) : m'.Tidy := by
  induction run with
  | done rest => exact tidy_rest tidy rest
  | step rest run ih => exact ih (tidy_run (tidy_rest tidy rest) _)

theorem size_eq (run : TierRun m xs m') : m'.units.size = m.units.size := by
  induction run with
  | done rest => exact rest.size
  | step rest run ih => exact ih.trans ((size_run _ _).trans rest.size)

/-- The level after some operations is what they make of it, one after the other. -/
theorem level_eq (run : TierRun m xs m') (tidy : m.Tidy) (hr : r < m.units.size) :
    (m'.profile r).state.level = xs.foldl (reported r) (m.profile r).state.level := by
  induction run with
  | done rest => rw [rest.profile, List.foldl_nil]
  | step rest run ih =>
    have tidy := tidy_rest tidy rest
    rw [← rest.size] at hr
    rw [ih (tidy_run tidy _) (by rw [size_run]; exact hr), level_run tidy hr, rest.profile,
      List.foldl_cons]

/-- Where nothing is compiled unasked and every request is met, the level is the one that was
    asked for. -/
theorem level_requested (run : TierRun m xs m') (tidy : m.Tidy) (hr : r < m.units.size)
    (obeys : ∀ x ∈ xs, Obeys r x) :
    (m'.profile r).state.level =
      (xs.map (·.2)).foldl (requested r) (m.profile r).state.level := by
  induction run with
  | done rest => rw [rest.profile, List.map_nil, List.foldl_nil]
  | @step m m₁ _ _ s rest run ih =>
    have tidy := tidy_rest tidy rest
    rw [← rest.size] at hr
    obtain ⟨first, later⟩ := List.forall_mem_cons.mp obeys
    rw [ih (tidy_run tidy _) (by rw [size_run]; exact hr) later, List.map_cons, List.foldl_cons,
      first.level tidy hr, rest.profile]

end TierRun

/-- **The level of a unit** after any operations on tiers, on a machine on which the unit was
    not run before.

    * Where native code is installed, it is the level of the code.
    * In any case it is what the operations make of it, one after the other: that of the code
      that was installed last, or of a pin that came later.
    * Where nothing was compiled for the unit unasked and every request was met, it is the level
      that was asked for last. -/
theorem level_exact {m m' : Machine} {r : Ref} {xs : List (Machine × TierStep)} (tidy : m.Tidy)
    (hr : r < m.units.size) (fresh : m.profile r = {}) (run : TierRun m xs m') :
    (∀ l, m'.installed? r = some l → (m'.profile r).state.level = some l) ∧
    (m'.profile r).state.level = xs.foldl (TierStep.reported r) none ∧
    ((∀ x ∈ xs, TierStep.Obeys r x) →
      m'.Truthful r ((xs.map (·.2)).foldl (TierStep.requested r) none)) := by
  have installed (l : OptLevel) (h : m'.installed? r = some l) :
      (m'.profile r).state.level = some l :=
    (run.tidy tidy).level_installed (by rw [run.size_eq]; exact hr) h
  have initial : (m.profile r).state.level = none := by rw [fresh]
  refine ⟨installed, ?_, fun obeys => ?_⟩
  · rw [run.level_eq tidy hr, initial]
  · have level := run.level_requested tidy hr obeys
    rw [initial] at level
    unfold Machine.Truthful
    cases native : m'.installed? r with
    | some l => rw [installed l native, Option.some_or]
    | none => rw [level, Option.none_or]

/-- A unit that is compiled on request. -/
theorem level_exact_of_request :
    let m := Machine.small {}
    let m' := (m.setLevel 0 1).2
    m.Tidy ∧ 0 < m.units.size ∧ m.profile 0 = {} ∧
      TierRun m [(m, .turn (.setLevel 0 1))] m' ∧ m'.installed? 0 = some .o1 ∧
      (m'.profile 0).state.level = some .o1 := by
  intro m m'
  have tidy : m.Tidy := Machine.tidy_of_unused (Machine.unitState_small _) rfl
  have run : TierRun m [(m, .turn (.setLevel 0 1))] m' := .step (.refl m) (.done (.refl m'))
  have installed : m'.installed? 0 = some .o1 := by decide +kernel
  exact ⟨tidy, by decide, rfl, run, installed, (level_exact tidy (by decide) rfl run).1 _ installed⟩

/-- Code that nobody asked for is taken away by a bail, and its level is still reported. -/
theorem level_outlasts_code :
    let m := Machine.small { control := .always }
    let m₁ := m.activate 0 0
    let m' := m₁.bail 0 .fatalGuardFail
    let xs := [(m, .activate 0 0), (m₁, .bail 0 .fatalGuardFail)]
    TierRun m xs m' ∧ m₁.installed? 0 = some .o2 ∧ m'.installed? 0 = none ∧
      (xs.map (·.2)).foldl (TierStep.requested 0) none = none ∧
      (m'.profile 0).state.level = some .o2 ∧ ¬ m'.Truthful 0 none := by
  intro m m₁ m' xs
  have level : (m'.profile 0).state.level = some .o2 := by decide +kernel
  have dropped : m'.installed? 0 = none := by decide +kernel
  refine ⟨.step (.refl m) (.step (.refl m₁) (.done (.refl m'))), by decide +kernel, dropped, rfl,
    level, ?_⟩
  rw [Machine.Truthful, level, dropped]
  exact Option.some_ne_none _

end TieredMachine
