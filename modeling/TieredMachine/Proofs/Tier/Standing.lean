/-
  How a unit stands.

  A unit stands by its profile and its entry on the list of units with native code.  A
  step that concerns tiers is about one unit: it changes how that unit stands, and
  leaves the other units and the settings alone.

  * `Machine.Moved`: what such a step leaves alone;
  * one lemma for each step, which says how its unit stands afterwards.
-/
import TieredMachine.Proofs.Host.Upheld

namespace TieredMachine

/-- The profile after a claimed compilation has settled. -/
def Profile.settle (p : Profile) (level : OptLevel) :
    Except CompileError (Graph × NativeFunction) → Profile
  | .ok (g, n) => p.finishCompile level g n
  | .error _ => p.failCompile

/-- The entry on the list of units with native code after a claimed compilation. -/
def CompiledUnit.of? (level : OptLevel) :
    Except CompileError (Graph × NativeFunction) → Option CompiledUnit
  | .ok (_, n) => some ⟨n.name, level, n.backend⟩
  | .error _ => none

namespace Machine

variable (m : Machine) (unit r : Ref)

/-! ## Profiles -/

@[simp]
theorem profile_record (kind : EventKind) : (m.record kind).profile r = m.profile r := rfl

@[simp]
theorem profile_mapStats (f : Statistics → Statistics) :
    (m.mapStats f).profile r = m.profile r := rfl

@[simp]
theorem profile_forget : (m.forget unit).profile r = m.profile r := rfl

@[simp]
theorem profile_enlist (c : CompiledUnit) : (m.enlist unit c).profile r = m.profile r := rfl

theorem profile_mapProfile (f : Profile → Profile) : (m.mapProfile unit f).profile r =
    if unit = r ∧ r < m.units.size then f (m.profile r) else m.profile r := by
  rw [profile, mapProfile, unitState_mapUnit]
  split <;> rfl

@[simp]
theorem size_mapUnit (f : UnitState → UnitState) :
    (m.mapUnit unit f).units.size = m.units.size := Array.size_modify

@[simp]
theorem size_mapProfile (f : Profile → Profile) :
    (m.mapProfile unit f).units.size = m.units.size := Array.size_modify

/-! ## The list of units with native code -/

@[simp]
theorem compiledUnit?_record (kind : EventKind) :
    (m.record kind).compiledUnit? r = m.compiledUnit? r := rfl

@[simp]
theorem compiledUnit?_mapStats (f : Statistics → Statistics) :
    (m.mapStats f).compiledUnit? r = m.compiledUnit? r := rfl

@[simp]
theorem compiledUnit?_mapProfile (f : Profile → Profile) :
    (m.mapProfile unit f).compiledUnit? r = m.compiledUnit? r := rfl

/-- A search of the entries of some units only. -/
theorem lookup_filter (keep : Ref → Bool) (cs : List (Ref × CompiledUnit)) :
    (cs.filter fun c => keep c.1).lookup r = if keep r then cs.lookup r else none := by
  induction cs with
  | nil => simp
  | cons c cs ih =>
    obtain ⟨u, c⟩ := c
    rw [List.filter_cons]
    by_cases hu : r = u
    · subst hu
      cases hk : keep r <;> simp [ih, hk]
    · have hb : (r == u) = false := beq_eq_false_iff_ne.mpr hu
      cases hk : keep u <;> simp [ih, hb, List.lookup_cons]

theorem compiledUnit?_forget : (m.forget unit).compiledUnit? r =
    if unit = r then none else m.compiledUnit? r := by
  rw [compiledUnit?, forget, lookup_filter r (· != unit)]
  by_cases h : unit = r
  · simp [h]
  · simp [h, Ne.symm h, compiledUnit?]

theorem compiledUnit?_enlist (c : CompiledUnit) : (m.enlist unit c).compiledUnit? r =
    if unit = r then some c else m.compiledUnit? r := by
  show List.lookup r ((unit, c) :: (m.forget unit).compiled) = _
  rw [List.lookup_cons]
  by_cases h : unit = r
  · simp [h]
  · have listed := m.compiledUnit?_forget unit r
    rw [compiledUnit?] at listed
    simp [h, beq_eq_false_iff_ne.mpr (Ne.symm h), listed]

/-! ## Steps that are about one unit -/

/-- A step from `m` to `m'` is about one unit. -/
structure Moved (m m' : Machine) (unit : Ref) : Prop where
  config : m'.config = m.config
  control : m'.control = m.control
  size : m'.units.size = m.units.size
  profile : ∀ r, unit ≠ r → m'.profile r = m.profile r
  listed : ∀ r, unit ≠ r → m'.compiledUnit? r = m.compiledUnit? r

namespace Moved

variable {m m' m'' : Machine} {unit : Ref}

theorem refl (m : Machine) (unit : Ref) : m.Moved m unit :=
  ⟨rfl, rfl, rfl, fun _ _ => rfl, fun _ _ => rfl⟩

theorem trans (h : m.Moved m' unit) (h' : m'.Moved m'' unit) : m.Moved m'' unit :=
  ⟨h'.config.trans h.config, h'.control.trans h.control, h'.size.trans h.size,
    fun r hr => (h'.profile r hr).trans (h.profile r hr),
    fun r hr => (h'.listed r hr).trans (h.listed r hr)⟩

theorem ofSame (h : m.SameTiers m') : m.Moved m' unit :=
  ⟨h.config, h.control, h.size, fun r _ => h.profile r,
    fun r _ => by simp only [compiledUnit?, h.compiled]⟩

theorem mapUnit (m : Machine) (unit : Ref) (f : UnitState → UnitState) :
    m.Moved (m.mapUnit unit f) unit := by
  refine ⟨rfl, rfl, size_mapUnit m unit f, fun r hr => ?_, fun _ _ => rfl⟩
  rw [Machine.profile, unitState_mapUnit, if_neg (hr ·.1)]
  rfl

theorem mapProfile (m : Machine) (unit : Ref) (f : Profile → Profile) :
    m.Moved (m.mapProfile unit f) unit := .mapUnit m unit _

theorem forget (m : Machine) (unit : Ref) : m.Moved (m.forget unit) unit :=
  ⟨rfl, rfl, rfl, fun _ _ => rfl, fun r hr => by rw [compiledUnit?_forget, if_neg hr]⟩

theorem enlist (m : Machine) (unit : Ref) (c : CompiledUnit) : m.Moved (m.enlist unit c) unit :=
  ⟨rfl, rfl, rfl, fun _ _ => rfl, fun r hr => by rw [compiledUnit?_enlist, if_neg hr]⟩

end Moved

/-! ### Compilations -/

variable (level : OptLevel) (result : Except CompileError (Graph × NativeFunction))

theorem Moved.settle : m.Moved (m.settle unit level result) unit := by
  cases result with
  | ok p =>
    exact ((Moved.mapProfile m unit _).trans (.enlist _ unit _)).trans
      (.ofSame (.of rfl rfl rfl rfl))
  | error e =>
    exact ((Moved.mapProfile m unit _).trans (.forget _ unit)).trans
      (.ofSame (.of rfl rfl rfl rfl))

theorem profile_settle {m : Machine} {unit : Ref} (h : unit < m.units.size) :
    (m.settle unit level result).profile unit = (m.profile unit).settle level result := by
  cases result with
  | ok p =>
    obtain ⟨g, n⟩ := p
    show (m.mapProfile unit (·.finishCompile level g n)).profile unit = _
    rw [profile_mapProfile, if_pos ⟨rfl, h⟩]
    rfl
  | error e =>
    show (m.mapProfile unit (·.failCompile)).profile unit = _
    rw [profile_mapProfile, if_pos ⟨rfl, h⟩]
    rfl

theorem compiledUnit?_settle :
    (m.settle unit level result).compiledUnit? unit = CompiledUnit.of? level result := by
  cases result with
  | ok p =>
    show (Machine.enlist _ unit _).compiledUnit? unit = _
    rw [compiledUnit?_enlist, if_pos rfl]
    rfl
  | error e =>
    show (Machine.forget _ unit).compiledUnit? unit = _
    rw [compiledUnit?_forget, if_pos rfl]
    rfl

variable {m unit level} {manual : Bool}

/-- A compilation that may not claim its unit is declined, and changes nothing. -/
theorem compile_declined (globals : Option Ref)
    (h : level = .unoptimized ∨ (m.profile unit).mayBegin manual = false) :
    ∃ e, e.isLoweringFailure = false ∧
      m.compile unit level manual globals = (.error e, m) := by
  unfold compile
  dsimp only
  split
  · exact ⟨_, rfl, rfl⟩
  · rename_i hl
    rw [if_pos (by simpa using h.resolve_left hl)]
    split
    · exact ⟨_, rfl, rfl⟩
    · exact ⟨_, rfl, rfl⟩

/-- What a compilation that claimed its unit does, and what it answers. -/
structure Claimed (m : Machine) (unit : Ref) (level : OptLevel) (manual : Bool)
    (result : Except CompileError (Graph × NativeFunction)) (m' : Machine) : Prop where
  claimable : (m.profile unit).mayBegin manual = true
  translated : ∃ m₁ : Machine, ∃ globals, result = m₁.translate unit level globals
  moved : m.Moved m' unit
  profile : unit < m.units.size →
    m'.profile unit = ((m.profile unit).beginCompile manual).settle level result
  listed : m'.compiledUnit? unit = CompiledUnit.of? level result

theorem compile_claimed (globals : Option Ref) (hl : level ≠ .unoptimized)
    (hm : (m.profile unit).mayBegin manual = true) :
    ∃ result, (m.compile unit level manual globals).1 = result.map (·.2) ∧
      Claimed m unit level manual result (m.compile unit level manual globals).2 := by
  have profile (h : unit < m.units.size) :
      (Unseen.claimed unit manual m).profile unit = (m.profile unit).beginCompile manual := by
    show (m.mapProfile unit (·.beginCompile manual)).profile unit = _
    rw [profile_mapProfile, if_pos ⟨rfl, h⟩]
  have claimed : m.Moved (Unseen.claimed unit manual m) unit :=
    (Moved.mapProfile m unit (·.beginCompile manual)).trans (.ofSame (.of rfl rfl rfl rfl))
  -- the machine when the unit is claimed is named, so that no step looks into it
  have compiled : ∃ m₁, m₁ = Unseen.claimed unit manual m ∧
      m.compile unit level manual globals = ((m₁.translate unit level globals).map (·.2),
        (m₁.settle unit level (m₁.translate unit level globals)).record .compileEnd) := by
    refine ⟨_, rfl, ?_⟩
    unfold compile
    dsimp only
    rw [if_neg hl, if_neg (by simp [hm])]
    rfl
  obtain ⟨m₁, hm₁, compiled⟩ := compiled
  rw [← hm₁] at profile claimed
  refine ⟨m₁.translate unit level globals, by rw [compiled], hm, ⟨m₁, globals, rfl⟩, ?_,
    fun h => ?_, ?_⟩
  · rw [compiled]
    exact (claimed.trans (Moved.settle m₁ unit level _)).trans (.ofSame (.of rfl rfl rfl rfl))
  · rw [compiled, profile_record, profile_settle level _ (by rw [claimed.size]; exact h), profile h]
  · rw [compiled, compiledUnit?_record]
    exact compiledUnit?_settle m₁ unit level _

variable (m unit level manual) (globals : Option Ref)

/-- A compilation is declined, or claims its unit. -/
theorem compile_cases :
    (∃ e, e.isLoweringFailure = false ∧ m.compile unit level manual globals = (.error e, m)) ∨
      ∃ result, level ≠ .unoptimized ∧
        (m.compile unit level manual globals).1 = result.map (·.2) ∧
        Claimed m unit level manual result (m.compile unit level manual globals).2 := by
  by_cases declined : level = .unoptimized ∨ (m.profile unit).mayBegin manual = false
  · exact .inl (compile_declined globals declined)
  · rw [not_or, Bool.not_eq_false] at declined
    obtain ⟨result, answer, claimed⟩ :=
      compile_claimed globals declined.1 declined.2
    exact .inr ⟨result, declined.1, answer, claimed⟩

theorem Moved.compile : m.Moved (m.compile unit level manual globals).2 unit := by
  obtain ⟨e, -, same⟩ | ⟨result, -, -, claimed⟩ := compile_cases m unit level manual globals
  · rw [same]
    exact .refl m unit
  · exact claimed.moved

variable {m unit}

/-! ### Activations -/

theorem automaticLevel_ne (c : Configuration) : c.automaticLevel ≠ .unoptimized := by
  unfold Configuration.automaticLevel OptLevel.forAutomatic
  split
  · exact OptLevel.noConfusion
  · exact OptLevel.noConfusion
  · assumption

/-- The profile of a unit when an activation of it was counted. -/
theorem profile_counted (h : unit < m.units.size) :
    ((m.record .callStartEval).mapProfile unit (·.recordEntry)).profile unit =
      (m.profile unit).recordEntry := by
  rw [profile_mapProfile, if_pos ⟨rfl, h⟩]
  rfl

theorem isDue_eq (h : unit < m.units.size) :
    ((m.record .callStartEval).mapProfile unit (·.recordEntry)).isDue unit =
      ((m.profile unit).tier = .interpreted && !(m.profile unit).state.manual &&
        match m.control with
        | .never => false
        | .whenHot => m.config.hotnessThreshold ≤ ((m.profile unit).hotness + 1).toNat
        | .always => true) := by
  unfold isDue
  rw [profile_counted h]
  rfl

/-- The machine after an activation was counted and compiled nothing. -/
theorem activate_idle {globals : Ref}
    (h : ((m.record .callStartEval).mapProfile unit (·.recordEntry)).isDue unit = false) :
    m.activate unit globals = (m.record .callStartEval).mapProfile unit (·.recordEntry) := by
  unfold activate promote
  rw [h]
  rfl

/-- What an activation does that compiles its unit. -/
theorem activate_due (globals : Ref)
    (h : ((m.record .callStartEval).mapProfile unit (·.recordEntry)).isDue unit = true) :
    ∃ result, Claimed ((m.record .callStartEval).mapProfile unit (·.recordEntry)) unit
      m.config.automaticLevel false result (m.activate unit globals) := by
  have interpreted : ((m.record .callStartEval).mapProfile unit (·.recordEntry)).profile
      unit |>.mayBegin false := by
    unfold isDue at h
    simp only [Bool.and_eq_true, decide_eq_true_eq] at h
    unfold Profile.mayBegin
    rw [h.1.1]
  obtain ⟨result, -, claimed⟩ :=
    compile_claimed (some globals) (automaticLevel_ne m.config) interpreted
  refine ⟨result, ?_⟩
  unfold activate promote
  rw [if_pos h]
  exact claimed

theorem Moved.activate (globals : Ref) : m.Moved (m.activate unit globals) unit := by
  have started : m.Moved (m.record .callStartEval) unit := .ofSame (.of rfl rfl rfl rfl)
  have counted : m.Moved ((m.record .callStartEval).mapProfile unit (·.recordEntry)) unit :=
    started.trans (.mapProfile _ unit _)
  cases due : ((m.record .callStartEval).mapProfile unit (·.recordEntry)).isDue unit with
  | false =>
    rw [activate_idle due]
    exact counted
  | true =>
    obtain ⟨result, claimed⟩ := activate_due globals due
    exact counted.trans claimed.moved

/-! ### Bails -/

variable (m unit) (reason : BailReason)

theorem bail_eq : m.bail unit reason =
    if (m.profile unit).disables reason.isFatal m.config.maxFatalBails then
      (((((m.record .bailStart).mapProfile unit
          (·.recordBail reason.isFatal m.config.maxFatalBails)).mapStats
            fun s => { s with bails := s.bails.add reason }).forget unit).mapStats
              fun s => { s with disablingBails := s.disablingBails + 1 }).record .bailEnd
    else
      (((m.record .bailStart).mapProfile unit
        (·.recordBail reason.isFatal m.config.maxFatalBails)).mapStats
          fun s => { s with bails := s.bails.add reason }).record .bailEnd :=
  apply_ite (record · .bailEnd) _ _ _

theorem Moved.bail : m.Moved (m.bail unit reason) unit := by
  have started : m.Moved (m.record .bailStart) unit := .ofSame (.of rfl rfl rfl rfl)
  have counted : m.Moved ((m.record .bailStart).mapProfile unit
      (·.recordBail reason.isFatal m.config.maxFatalBails)) unit :=
    started.trans (.mapProfile _ unit _)
  have listed : m.Moved (((m.record .bailStart).mapProfile unit
      (·.recordBail reason.isFatal m.config.maxFatalBails)).mapStats
        fun s => { s with bails := s.bails.add reason }) unit :=
    counted.trans (.ofSame (.of rfl rfl rfl rfl))
  rw [bail_eq]
  split
  · exact (listed.trans (.forget _ unit)).trans (.ofSame (.of rfl rfl rfl rfl))
  · exact listed.trans (.ofSame (.of rfl rfl rfl rfl))

theorem profile_bail {m : Machine} {unit : Ref} (h : unit < m.units.size) :
    (m.bail unit reason).profile unit =
      (m.profile unit).recordBail reason.isFatal m.config.maxFatalBails := by
  have counted : ((m.record .bailStart).mapProfile unit
      (·.recordBail reason.isFatal m.config.maxFatalBails)).profile unit =
        (m.profile unit).recordBail reason.isFatal m.config.maxFatalBails := by
    rw [profile_mapProfile, if_pos ⟨rfl, h⟩]
    rfl
  rw [bail_eq]
  split
  · exact counted
  · exact counted

theorem compiledUnit?_bail : (m.bail unit reason).compiledUnit? unit =
    if (m.profile unit).disables reason.isFatal m.config.maxFatalBails then none
    else m.compiledUnit? unit := by
  rw [bail_eq]
  split
  · show (forget _ unit).compiledUnit? unit = none
    rw [compiledUnit?_forget, if_pos rfl]
  · rfl

/-! ### Knobs -/

theorem Moved.setLevel (n : Int) : m.Moved (m.setLevel unit n).2 unit := by
  unfold Machine.setLevel
  split
  · exact .refl m unit
  · exact (Moved.mapProfile m unit _).trans (.forget _ unit)
  · exact .compile m unit _ true _

theorem Moved.setUseNative (on : Bool) : m.Moved (m.setUseNative unit on).2 unit := by
  have turned (m : Machine) : m.Moved (m.mapProfile unit (·.setUseNative on)) unit :=
    .mapProfile m unit _
  unfold Machine.setUseNative
  split
  · have compiled := Moved.compile m unit (m.wantedLevel unit) true (some m.globals)
    dsimp only
    split
    · rename_i n m' answer
      rw [answer] at compiled
      exact compiled.trans (turned m')
    · rename_i e m' answer
      rw [answer] at compiled
      exact compiled
  · exact turned m

theorem Moved.resetTier : m.Moved (m.resetTier unit) unit :=
  (Moved.mapUnit m unit _).trans (.forget _ unit)

end Machine

namespace Knob

/-- The unit that a knob is about. -/
def unit? : Knob → Option Ref
  | setLevel unit _ | setUseNative unit _ | resetTier unit => some unit
  | _ => none

variable (m : Machine) (k : Knob)

/-- Turning a knob is about its unit; a knob that is about none leaves the tiers of all
    units alone. -/
theorem turn_moved {unit : Ref} (h : k.unit? = some unit) : m.Moved (k.turn m).2 unit := by
  cases k with
  | setLevel u n => cases h; exact .setLevel m unit n
  | setUseNative u on => cases h; exact .setUseNative m unit on
  | resetTier u => cases h; exact .resetTier m unit
  | setControl | setTracing | setBailError | requestBail => cases h

theorem config_turn : (k.turn m).2.config = m.config := by
  cases k with
  | setLevel u n => exact (Machine.Moved.setLevel m u n).config
  | setUseNative u on => exact (Machine.Moved.setUseNative m u on).config
  | resetTier | setControl | setTracing | setBailError | requestBail => rfl

end Knob

/-! ## Small machines -/

/-- A unit that returns 1. -/
def CodeUnit.returnsOne : CodeUnit where
  words := #[.ofOpcode .loadConst, ⟨1⟩, .ofOpcode .returnValue]
  consts := #[.int 1]
  flags := .nofree
  id := 0
  instrs := #[⟨0, .loadConst, [⟨.loadConst, some 0⟩], 0⟩, ⟨2, .returnValue, [⟨.returnValue, none⟩], 0⟩]
  instrOf := #[some 0, none, some 1]
  cell2arg := []
  handlers := []
  safePoints := #[true, false, false]

/-- A machine with one unit, which was not run. -/
def Machine.small (config : Configuration) : Machine where
  config := config
  heap := { units := #[.returnsOne], namespaces := #[{}, {}] }
  units := #[{}]
  globals := 0
  builtins := 1
  bailError := config.bailError
  control := config.control
  timer := .new config.eventCapacity config.recordEvents

theorem Machine.unitState_small (config : Configuration) (r : Ref) :
    (small config).unitState r = {} := by
  cases r with
  | zero => rfl
  | succ r => rfl

/-- The parts of a generator's unit that yields 1 twice. -/
def CodeParts.yieldsTwice : CodeParts where
  name := "g"
  words := #[.ofOpcode .loadConst, ⟨1⟩, .ofOpcode .yieldValue, .ofOpcode .popTop,
    .ofOpcode .loadConst, ⟨1⟩, .ofOpcode .yieldValue, .ofOpcode .popTop,
    .ofOpcode .loadConst, ⟨3⟩, .ofOpcode .returnValue]
  consts := #[.int 1, .none]

/-- The unit with these parts. -/
def CodeUnit.yieldsTwice : CodeUnit := (CodeUnit.ofParts 0 .yieldsTwice).toOption.getD default

/-- A machine with a generator function over that unit, which was not run. -/
def Machine.generating (config : Configuration) : Machine where
  config := config
  heap := { units := #[.yieldsTwice], namespaces := #[{}, {}]
            functions := #[{ name := "g", code := 0, globals := 0 }] }
  units := #[{}]
  globals := 0
  builtins := 1
  bailError := config.bailError
  control := config.control
  timer := .new config.eventCapacity config.recordEvents

end TieredMachine
