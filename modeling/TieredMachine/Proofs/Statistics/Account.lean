/-
  The account of an engine.

  An engine keeps two kinds of books: a profile for every unit, and the statistics.  Its
  *account* is what they add up to, counter by counter.  Compiling a unit, counting an
  activation of it and a bail out of its native code each add to the account; what else
  happens leaves it alone.

  * `Machine.total`: the sum of a count over all units;
  * `Machine.account`: the account;
  * `Machine.account_compile`, `Machine.account_bail`, `Machine.account_count`: what is
    added to it.
-/
import Mathlib.Algebra.BigOperators.Group.Finset.Basic
import Mathlib.Algebra.GroupWithZero.Nat
import TieredMachine.Proofs.Tier.Standing

namespace TieredMachine

/-! ## Sums over units -/

/-- The sum of a count over all units. -/
def Machine.total (m : Machine) (count : Profile → Nat) : Nat :=
  ∑ unit ∈ Finset.range m.units.size, count (m.profile unit)

namespace Machine

variable {m m' : Machine} {unit : Ref} (count : Profile → Nat)

theorem total_congr (size : m'.units.size = m.units.size)
    (profile : ∀ r, m'.profile r = m.profile r) : m'.total count = m.total count := by
  unfold Machine.total
  rw [size]
  exact Finset.sum_congr rfl fun r _ => by rw [profile]

/-- A step that is about one unit adds to a sum what it adds for the unit. -/
theorem Moved.total (h : m.Moved m' unit) (added : Nat) (hu : unit < m.units.size)
    (hc : count (m'.profile unit) = count (m.profile unit) + added) :
    m'.total count = m.total count + added := by
  have mem : unit ∈ Finset.range m.units.size := Finset.mem_range.mpr hu
  unfold Machine.total
  rw [h.size, ← Finset.add_sum_erase _ _ mem, ← Finset.add_sum_erase _ _ mem, hc,
    Finset.sum_congr rfl fun r hr => by rw [h.profile r (Finset.ne_of_mem_erase hr).symm]]
  exact Nat.add_right_comm _ _ _

/-- A step that is about a unit that there is not changes no sum. -/
theorem Moved.total_outside (h : m.Moved m' unit) (hu : m.units.size ≤ unit) :
    m'.total count = m.total count := by
  unfold Machine.total
  rw [h.size]
  refine Finset.sum_congr rfl fun r hr => ?_
  rw [h.profile r (Nat.lt_of_lt_of_le (Finset.mem_range.mp hr) hu).ne']

/-- A step that leaves a count of its unit alone changes no sum of it. -/
theorem Moved.total_same (h : m.Moved m' unit)
    (hc : unit < m.units.size → count (m'.profile unit) = count (m.profile unit)) :
    m'.total count = m.total count := by
  by_cases hu : unit < m.units.size
  · exact h.total count 0 hu (hc hu)
  · exact h.total_outside count (Nat.le_of_not_lt hu)

end Machine

/-! ## Profiles -/

namespace Profile

/-- The profile `p'` counts as many activations and bails as `p`. -/
structure Uncounted (p p' : Profile) : Prop where
  calls : p'.calls = p.calls
  bails : p'.bails = p.bails
  fatalBails : p'.fatalBails = p.fatalBails

variable (p : Profile)

theorem uncounted_settle (level : OptLevel)
    (result : Except CompileError (Graph × NativeFunction)) : p.Uncounted (p.settle level result) := by
  cases result <;> exact ⟨rfl, rfl, rfl⟩

theorem compileCount_settle (level : OptLevel)
    (result : Except CompileError (Graph × NativeFunction)) :
    (p.settle level result).compileCount = p.compileCount := by
  cases result <;> rfl

theorem uncounted_claim (manual : Bool) : p.Uncounted (p.beginCompile manual) := by
  unfold beginCompile
  split <;> exact ⟨rfl, rfl, rfl⟩

theorem compileCount_claim {manual : Bool} (h : p.mayBegin manual) :
    (p.beginCompile manual).compileCount = p.compileCount + 1 := by
  unfold beginCompile
  rw [if_pos h]

theorem Uncounted.trans {p p' p'' : Profile} (h : p.Uncounted p') (h' : p'.Uncounted p'') :
    p.Uncounted p'' :=
  ⟨h'.calls.trans h.calls, h'.bails.trans h.bails, h'.fatalBails.trans h.fatalBails⟩

end Profile

/-! ## Accounts -/

/-- What is counted. -/
inductive Counter where
  /-- activations, by unit -/
  | calls
  /-- claimed compilations, by unit -/
  | compiles
  /-- bails, by unit -/
  | bails
  /-- fatal bails, by unit -/
  | fatalBails
  /-- compilations that are over, whether they succeeded or failed -/
  | attempts
  /-- bails for any reason -/
  | bailed
  /-- bails because something no longer held that the code was built on -/
  | fatal
  /-- activations run by the interpreter from their start -/
  | interpreted
  deriving DecidableEq, Repr

/-- The account of an engine. -/
def Machine.account (m : Machine) : Counter → Nat
  | .calls => m.total (·.calls)
  | .compiles => m.total (·.compileCount)
  | .bails => m.total (·.bails)
  | .fatalBails => m.total (·.fatalBails)
  | .attempts => m.stats.compilations + m.stats.compileFailures
  | .bailed => m.stats.bails.total
  | .fatal => m.stats.bails.fatalGuardFail
  | .interpreted => m.stats.interpretedRuns

theorem BailCounts.total_add (c : BailCounts) (reason : BailReason) :
    (c.add reason).total = c.total + 1 := by
  cases reason <;> simp [BailCounts.total, BailReason.all, BailCounts.get, BailCounts.add] <;> omega

theorem BailCounts.fatalGuardFail_add (c : BailCounts) (reason : BailReason) :
    (c.add reason).fatalGuardFail = c.fatalGuardFail + reason.isFatal.toNat := by
  cases reason <;> rfl

namespace Machine

variable {m m' : Machine} {unit : Ref}

/-- A step that changes neither profiles nor statistics leaves the account alone. -/
theorem account_congr (size : m'.units.size = m.units.size)
    (profile : ∀ r, m'.profile r = m.profile r) (stats : m'.stats = m.stats) :
    m'.account = m.account := by
  funext counter
  cases counter with
  | calls | compiles | bails | fatalBails => exact total_congr _ size profile
  | attempts | bailed | fatal | interpreted => simp only [Machine.account, stats]

@[simp]
theorem account_record (m : Machine) (kind : EventKind) : (m.record kind).account = m.account := by
  funext counter
  cases counter <;> rfl

/-! ### Compilations -/

/-- What a compilation that claimed its unit adds to the account. -/
def compilation : Counter → Nat
  | .compiles | .attempts => 1
  | _ => 0

theorem stats_settle (unit : Ref) (level : OptLevel) (result : Except CompileError (Graph × NativeFunction)) :
    ∃ compilations compileFailures loweringFailures,
      (m.settle unit level result).stats =
        { m.stats with compilations, compileFailures, loweringFailures } ∧
      compilations + compileFailures = m.stats.compilations + m.stats.compileFailures + 1 := by
  cases result with
  | ok made => exact ⟨_, _, _, rfl, Nat.add_right_comm _ _ _⟩
  | error e => exact ⟨_, _, _, rfl, rfl⟩

/-- A compilation is declined and changes nothing, or it is recorded and added to the
    account. -/
theorem account_compile (unit : Ref) (level : OptLevel) (manual : Bool) (globals : Option Ref)
    (hu : unit < m.units.size) :
    (m.compile unit level manual globals).2 = m ∨
      (m.compile unit level manual globals).2.account = m.account + compilation ∧
      (m.compile unit level manual globals).2.timer =
        (((m.timer.record .compileStart).record .lowerStart).record .lowerEnd).record
          .compileEnd := by
  by_cases declined : level = .unoptimized ∨ (m.profile unit).mayBegin manual = false
  · obtain ⟨e, -, same⟩ := compile_declined globals declined
    exact .inl (congrArg Prod.snd same)
  rw [not_or, Bool.not_eq_false] at declined
  obtain ⟨result, -, claimed⟩ := compile_claimed globals declined.1 declined.2
  -- the machine when the unit is claimed, with what the compilation comes to
  have settled : ∃ m₁ : Machine, ∃ result,
      (m.compile unit level manual globals).2 = (m₁.settle unit level result).record .compileEnd ∧
      m₁.stats = m.stats ∧
      m₁.timer = ((m.timer.record .compileStart).record .lowerStart).record .lowerEnd := by
    unfold compile
    dsimp only
    rw [if_neg declined.1, if_neg (by simp [declined.2])]
    exact ⟨_, _, rfl, rfl, rfl⟩
  obtain ⟨m₁, made, eq, stats, timer⟩ := settled
  obtain ⟨compilations, failures, lowering, hs, sum⟩ := stats_settle (m := m₁) unit level made
  have after : (m.compile unit level manual globals).2.stats =
      { m.stats with
        compilations := compilations
        compileFailures := failures
        loweringFailures := lowering } := by
    rw [eq, ← stats]
    exact hs
  have uncounted : (m.profile unit).Uncounted ((m.compile unit level manual globals).2.profile unit) := by
    rw [claimed.profile hu]
    exact ((m.profile unit).uncounted_claim manual).trans (Profile.uncounted_settle _ _ _)
  have count : ((m.compile unit level manual globals).2.profile unit).compileCount =
      (m.profile unit).compileCount + 1 := by
    rw [claimed.profile hu, Profile.compileCount_settle, Profile.compileCount_claim _ declined.2]
  refine .inr ⟨?_, ?_⟩
  · funext counter
    cases counter with
    | calls => exact claimed.moved.total _ _ hu uncounted.calls
    | compiles => exact claimed.moved.total _ _ hu count
    | bails => exact claimed.moved.total _ _ hu uncounted.bails
    | fatalBails => exact claimed.moved.total _ _ hu uncounted.fatalBails
    | attempts =>
      simp only [Machine.account, Pi.add_apply, compilation, after]
      rw [sum, stats]
    | bailed | fatal | interpreted => simp only [Machine.account, Pi.add_apply, compilation, after]; rfl
  · rw [eq]
    show (m₁.settle unit level made).timer.record .compileEnd = _
    rw [← timer]
    cases made <;> rfl

/-! ### Bails -/

/-- What a bail adds to the account. -/
def bailed (isFatal : Bool) : Counter → Nat
  | .bails | .bailed => 1
  | .fatalBails | .fatal => isFatal.toNat
  | _ => 0

/-- A bail is recorded and added to the account. -/
theorem account_bail (reason : BailReason) (hu : unit < m.units.size) :
    (m.bail unit reason).account = m.account + bailed reason.isFatal ∧
      (m.bail unit reason).timer = (m.timer.record .bailStart).record .bailEnd := by
  have stats : ∃ disabling, (m.bail unit reason).stats =
      { m.stats with bails := m.stats.bails.add reason, disablingBails := disabling } := by
    rw [bail_eq]
    split <;> exact ⟨_, rfl⟩
  obtain ⟨disabling, stats⟩ := stats
  have profile := profile_bail reason hu
  have moved : m.Moved (m.bail unit reason) unit := .bail m unit reason
  refine ⟨funext fun counter => ?_, ?_⟩
  · cases counter with
    | calls => exact moved.total _ _ hu (by rw [profile]; rfl)
    | compiles => exact moved.total _ _ hu (by rw [profile]; rfl)
    | bails => exact moved.total _ _ hu (by rw [profile]; rfl)
    | fatalBails => exact moved.total _ _ hu (by rw [profile]; rfl)
    | bailed =>
      simp only [Machine.account, Pi.add_apply, bailed, stats]
      exact BailCounts.total_add _ _
    | fatal =>
      simp only [Machine.account, Pi.add_apply, bailed, stats]
      exact BailCounts.fatalGuardFail_add _ _
    | attempts | interpreted => simp only [Machine.account, Pi.add_apply, bailed, stats]; rfl
  · rw [bail_eq]
    split <;> rfl

/-! ### Activations -/

/-- What an activation adds to the account when it is counted. -/
def called : Counter → Nat
  | .calls => 1
  | _ => 0

/-- An activation that is counted is added to the account. -/
theorem account_count (hu : unit < m.units.size) :
    ((m.record .callStartEval).mapProfile unit (·.recordEntry)).account = m.account + called := by
  have started : m.Moved (m.record .callStartEval) unit := .ofSame (.of rfl rfl rfl rfl)
  have moved : m.Moved ((m.record .callStartEval).mapProfile unit (·.recordEntry)) unit :=
    started.trans (.mapProfile _ unit _)
  have profile := profile_counted (m := m) hu
  funext counter
  cases counter with
  | calls => exact moved.total _ _ hu (by rw [profile]; rfl)
  | compiles => exact moved.total _ _ hu (by rw [profile]; rfl)
  | bails => exact moved.total _ _ hu (by rw [profile]; rfl)
  | fatalBails => exact moved.total _ _ hu (by rw [profile]; rfl)
  | attempts | bailed | fatal | interpreted => rfl

/-- A run of native code is not on the account. -/
theorem account_native (m : Machine) : (m.mapStats fun s =>
    { s with nativeRuns := s.nativeRuns + 1 }).account = m.account := by
  funext counter
  cases counter <;> rfl

/-- What an activation adds to the account when the interpreter begins to run it. -/
def interpreted : Counter → Nat
  | .interpreted => 1
  | _ => 0

theorem account_interpret (m : Machine) : (m.mapStats fun s =>
    { s with interpretedRuns := s.interpretedRuns + 1 }).account = m.account + interpreted := by
  funext counter
  cases counter <;> rfl

end Machine

end TieredMachine
