/-
  The tier state of a unit is tidy.

  Whatever a host and guest code do on an engine, at every moment at which they may look
  the tier of a unit, what is installed for it and its entry on the list of units with
  native code fit together.  A knob that is refused changes nothing at all.

  * `TierState.Tidy`, `Machine.Tidy`: what fits together;
  * one lemma for each step that concerns tiers: it keeps the machine tidy;
  * `tidyLaw`: the law that machines are tidy;
  * `Knob.turn_refused`: knobs that are refused;
  * `session_tidy`: sessions.
-/
import TieredMachine.Proofs.Host.Session
import TieredMachine.Proofs.Tier.Refusal
import TieredMachine.Proofs.Tier.Standing

namespace TieredMachine

/-- The tier state of a unit and its entry on the list of units with native code fit. -/
structure TierState.Tidy (s : TierState) (entry : Option CompiledUnit) : Prop where
  settled : s.tier ≠ .compiling
  installed : s.tier = .native ↔ s.native.isSome
  lowered : s.tier = .native ↔ s.graph.isSome
  listed : s.tier = .native ↔ entry.isSome
  level : ∀ n, s.native = some n → s.level = some n.level
  entryLevel : ∀ n c, s.native = some n → entry = some c → c.level = n.level
  used : s.useNative → s.tier = .native

/-- The tier state of every unit is tidy. -/
def Machine.Tidy (m : Machine) : Prop :=
  ∀ r < m.units.size, (m.profile r).state.Tidy (m.compiledUnit? r)

/-! ## Tier states -/

namespace TierState

variable {s : TierState} {entry : Option CompiledUnit}

theorem Tidy.native_none (h : s.Tidy entry) (hs : s.tier ≠ .native) :
    s.native = none ∧ s.graph = none ∧ entry = none ∧ s.useNative = false := by
  refine ⟨?_, ?_, ?_, ?_⟩
  · exact Option.not_isSome_iff_eq_none.mp (mt h.installed.mpr hs)
  · exact Option.not_isSome_iff_eq_none.mp (mt h.lowered.mpr hs)
  · exact Option.not_isSome_iff_eq_none.mp (mt h.listed.mpr hs)
  · exact Bool.eq_false_iff.mpr (mt h.used hs)

/-- A state with nothing installed is tidy. -/
theorem Tidy.bare (settled : s.tier ≠ .compiling) (tier : s.tier ≠ .native)
    (native : s.native = none) (graph : s.graph = none) (unused : s.useNative = false) :
    s.Tidy none where
  settled := settled
  installed := by simp [tier, native]
  lowered := by simp [tier, graph]
  listed := by simp [tier]
  level n h := by simp [native] at h
  entryLevel n c h := by simp [native] at h
  used h := by simp [unused] at h

theorem Tidy.drop {tier : Tier} (settled : tier ≠ .compiling) (h : tier ≠ .native) :
    (s.drop tier).Tidy none :=
  .bare settled h rfl rfl rfl

end TierState

namespace Profile

variable (p : Profile) {entry : Option CompiledUnit}

/-- A claimed compilation is settled tidily. -/
theorem settle_tidy {level : OptLevel} {result : Except CompileError (Graph × NativeFunction)}
    (h : ∀ g n, result = .ok (g, n) → n.level = level) :
    (p.settle level result).state.Tidy (CompiledUnit.of? level result) := by
  cases result with
  | error e => exact .drop Tier.noConfusion Tier.noConfusion
  | ok made =>
    obtain ⟨g, n⟩ := made
    have hn : n.level = level := h g n rfl
    exact {
      settled := Tier.noConfusion
      installed := iff_of_true rfl rfl
      lowered := iff_of_true rfl rfl
      listed := iff_of_true rfl rfl
      level := fun n' h => by cases h; exact congrArg some hn.symm
      entryLevel := fun n' c h h' => by cases h; cases h'; exact hn.symm
      used := fun _ => rfl }

variable {p}

theorem recordBail_tidy (h : p.state.Tidy entry) (fatal : Bool) (maxFatalBails : Nat) :
    (p.recordBail fatal maxFatalBails).state.Tidy
      (if p.disables fatal maxFatalBails then none else entry) := by
  have disables : p.disables fatal maxFatalBails =
      ((fatal && decide (max maxFatalBails 1 ≤ p.fatalBails + fatal.toNat)) &&
        p.tier != .permanentlyInterpreted) := by
    cases fatal <;> rfl
  cases drops : fatal && decide (max maxFatalBails 1 ≤ p.fatalBails + fatal.toNat) with
  | true =>
    -- what is listed is taken off, unless the unit was interpreted for good before
    have unlisted : (if p.disables fatal maxFatalBails then none else entry) = none := by
      split
      · rfl
      · rename_i standing
        refine (h.native_none fun native => standing ?_).2.2.1
        have tier : p.tier = .native := native
        rw [disables, drops, tier]
        rfl
    rw [unlisted]
    simp only [recordBail, drops, if_true]
    exact .drop Tier.noConfusion Tier.noConfusion
  | false =>
    have standing : p.disables fatal maxFatalBails = false := by
      rw [disables, drops]
      rfl
    simp only [standing, recordBail, drops]
    exact h

theorem setManualLevel_tidy (h : p.state.Tidy entry) :
    (p.setManualLevel .unoptimized).state.Tidy none := by
  by_cases native : p.state.tier = .native
  · simp only [setManualLevel, native, decide_true, Bool.and_self, if_true]
    exact .drop Tier.noConfusion Tier.noConfusion
  · obtain ⟨bare, graph, -, unused⟩ := h.native_none native
    simp only [setManualLevel, native, decide_false, Bool.and_false]
    exact .bare h.settled native bare graph unused

theorem setUseNative_tidy (h : p.state.Tidy entry) {on : Bool}
    (hon : on → p.state.tier = .native) : (p.setUseNative on).state.Tidy entry :=
  ⟨h.settled, h.installed, h.lowered, h.listed, h.level, h.entryLevel, hon⟩

theorem reset_tidy : p.reset.state.Tidy none :=
  .bare Tier.noConfusion Tier.noConfusion rfl rfl rfl

end Profile

/-! ## Steps -/

/-- Native code has the level that it was asked for at. -/
theorem BackendKind.level_of_compile {b : BackendKind} {heap : Heap} {g : Graph}
    {level : OptLevel} {n : NativeFunction} (h : b.compile heap g level = .ok n) :
    n.level = level := by
  have kernel {n : NativeFunction} (h : kernelCode g level = .ok n) : n.level = level := by
    obtain ⟨k, -, h⟩ := (except_bind_ok ..).mp h
    cases h
    rfl
  cases b with
  | threaded =>
    cases h
    rfl
  | cranelift => exact kernel h
  | auto =>
    unfold compile at h
    dsimp only at h
    split at h
    · cases h
      rfl
    · exact kernel h

namespace Machine

variable {m m' : Machine} {unit : Ref} {level : OptLevel}

theorem level_of_translate {globals : Option Ref} {g : Graph} {n : NativeFunction}
    (h : m.translate unit level globals = .ok (g, n)) : n.level = level := by
  obtain ⟨g', -, h⟩ := (except_bind_ok ..).mp h
  obtain ⟨n', compiled, h⟩ := (except_bind_ok ..).mp h
  cases h
  exact BackendKind.level_of_compile compiled

/-- A machine on which no unit was run is tidy. -/
theorem tidy_of_unused (units : ∀ r, m.unitState r = {}) (compiled : m.compiled = []) :
    m.Tidy := by
  intro r _
  rw [profile, units, compiledUnit?, compiled]
  exact .bare Tier.noConfusion Tier.noConfusion rfl rfl rfl

/-- A step that is about one unit keeps the machine tidy when it keeps the unit so. -/
theorem Tidy.moved (hm : m.Tidy) (h : m.Moved m' unit)
    (hu : unit < m.units.size → (m'.profile unit).state.Tidy (m'.compiledUnit? unit)) :
    m'.Tidy := by
  intro r hr
  rw [h.size] at hr
  by_cases same : unit = r
  · subst same
    exact hu hr
  · rw [h.profile r same, h.listed r same]
    exact hm r hr

/-- A step that leaves the tier states alone keeps the machine tidy. -/
theorem Tidy.mapProfile (hm : m.Tidy) {f : Profile → Profile}
    (hf : ∀ p entry, p.state.Tidy entry → (f p).state.Tidy entry) :
    (m.mapProfile unit f).Tidy := by
  refine hm.moved (.mapProfile m unit f) fun h => ?_
  rw [profile_mapProfile, if_pos ⟨rfl, h⟩, compiledUnit?_mapProfile]
  exact hf _ _ (hm unit h)

theorem Claimed.tidy {manual : Bool} {result : Except CompileError (Graph × NativeFunction)}
    (h : Claimed m unit level manual result m') (hm : m.Tidy) : m'.Tidy := by
  refine hm.moved h.moved fun hu => ?_
  rw [h.profile hu, h.listed]
  refine Profile.settle_tidy _ fun g n made => ?_
  obtain ⟨m₁, globals, translated⟩ := h.translated
  rw [translated] at made
  exact level_of_translate made

theorem compile_tidy (hm : m.Tidy) (manual : Bool) (globals : Option Ref) :
    (m.compile unit level manual globals).2.Tidy := by
  obtain ⟨e, -, same⟩ | ⟨result, -, -, claimed⟩ := compile_cases m unit level manual globals
  · rw [same]
    exact hm
  · exact claimed.tidy hm

theorem recordBackedge_tidy (hm : m.Tidy) (weight : UInt64) :
    (m.mapProfile unit (·.recordBackedge weight)).Tidy :=
  hm.mapProfile fun _ _ h => h

theorem activate_tidy (hm : m.Tidy) (globals : Ref) : (m.activate unit globals).Tidy := by
  have counted : ((m.record .callStartEval).mapProfile unit (·.recordEntry)).Tidy :=
    Tidy.mapProfile (m := m.record .callStartEval) hm fun _ _ h => h
  cases due : ((m.record .callStartEval).mapProfile unit (·.recordEntry)).isDue unit with
  | false =>
    rw [activate_idle due]
    exact counted
  | true =>
    obtain ⟨result, claimed⟩ := activate_due globals due
    exact claimed.tidy counted

theorem bail_tidy (hm : m.Tidy) (reason : BailReason) : (m.bail unit reason).Tidy := by
  refine hm.moved (.bail m unit reason) fun h => ?_
  rw [profile_bail reason h, compiledUnit?_bail]
  exact Profile.recordBail_tidy (hm unit h) _ _

/-- A profile is changed, and the unit is taken off the list. -/
theorem Tidy.dropped (hm : m.Tidy) {f : UnitState → UnitState}
    (hf : ∀ s entry, s.profile.state.Tidy entry → (f s).profile.state.Tidy none) :
    ((m.mapUnit unit f).forget unit).Tidy := by
  refine hm.moved ((Moved.mapUnit m unit f).trans (.forget _ unit)) fun h => ?_
  rw [compiledUnit?_forget, if_pos rfl, profile_forget, profile, unitState_mapUnit,
    if_pos ⟨rfl, h⟩]
  exact hf _ _ (hm unit h)

theorem setLevel_tidy (hm : m.Tidy) (n : Int) : (m.setLevel unit n).2.Tidy := by
  unfold setLevel
  split
  · exact hm
  · exact hm.dropped fun _ _ => Profile.setManualLevel_tidy
  · exact compile_tidy hm true _

/-- A compilation that answers native code has installed it. -/
theorem tier_of_compile {manual : Bool} {globals : Option Ref} {n : NativeFunction}
    (h : (m.compile unit level manual globals).1 = .ok n) (hu : unit < m.units.size) :
    ((m.compile unit level manual globals).2.profile unit).tier = .native := by
  obtain ⟨e, -, same⟩ | ⟨result, -, answer, claimed⟩ :=
    compile_cases m unit level manual globals
  · rw [same] at h
    cases h
  · rw [answer] at h
    rw [claimed.profile hu]
    cases result with
    | error e => cases h
    | ok made => rfl

theorem setUseNative_tidy (hm : m.Tidy) (on : Bool) : (m.setUseNative unit on).2.Tidy := by
  have turned {m : Machine} (hm : m.Tidy)
      (hon : on → unit < m.units.size → (m.profile unit).tier = .native) :
      (m.mapProfile unit (·.setUseNative on)).Tidy := by
    refine hm.moved (.mapProfile m unit _) fun hu => ?_
    rw [profile_mapProfile, if_pos ⟨rfl, hu⟩, compiledUnit?_mapProfile]
    exact Profile.setUseNative_tidy (hm unit hu) fun h => hon h hu
  unfold setUseNative
  split
  · have compiled : (m.compile unit (m.wantedLevel unit) true (some m.globals)).2.Tidy :=
      compile_tidy hm true _
    dsimp only
    split
    · rename_i n m' answer
      rw [answer] at compiled
      refine turned compiled fun _ hu => ?_
      have moved := Moved.compile m unit (m.wantedLevel unit) true (some m.globals)
      have native := tier_of_compile (congrArg Prod.fst answer)
      rw [answer] at moved native
      exact native (moved.size ▸ hu)
    · rename_i e m' answer
      rw [answer] at compiled
      exact compiled
  · rename_i native
    refine turned hm fun h _ => ?_
    simpa [h] using native

theorem resetTier_tidy (hm : m.Tidy) : (m.resetTier unit).Tidy :=
  hm.dropped fun _ _ _ => Profile.reset_tidy

/-- Whatever knob is turned, the machine stays tidy. -/
theorem Tidy.turn (hm : m.Tidy) (k : Knob) : (k.turn m).2.Tidy := by
  cases k with
  | setLevel unit n => exact setLevel_tidy hm n
  | setUseNative unit on => exact setUseNative_tidy hm on
  | resetTier unit => exact resetTier_tidy hm
  | setControl | setTracing | setBailError | requestBail => exact hm

/-! ## Knobs that are refused -/

/-- A compilation that is refused changes nothing.  One that claimed its unit answers an
    error for which the unit is the reason. -/
theorem compile_refused {manual : Bool} {globals : Option Ref} {e : CompileError}
    (h : (m.compile unit level manual globals).1 = .error e) (he : e.isLoweringFailure = false) :
    (m.compile unit level manual globals).2 = m := by
  obtain ⟨e', -, same⟩ | ⟨result, hl, answer, claimed⟩ :=
    compile_cases m unit level manual globals
  · rw [same]
  · obtain ⟨m₁, globals, translated⟩ := claimed.translated
    rw [answer] at h
    cases result with
    | ok made => cases h
    | error e' =>
      cases h
      have declined := m₁.translate_declines unit hl globals e translated.symm
      rw [he] at declined
      cases declined

end Machine

/-- **A knob that is refused changes nothing**: neither the profile of a unit nor the list of
    units with native code nor the statistics, nor anything else. -/
theorem Knob.turn_refused {m : Machine} {k : Knob} {e : CompileError}
    (h : (k.turn m).1 = .error e) (he : e.isLoweringFailure = false) : (k.turn m).2 = m := by
  cases k with
  | setLevel unit n =>
    simp only [turn, Machine.setLevel] at h ⊢
    split at h
    · rfl
    · cases h
    · rename_i level _ _
      refine Machine.compile_refused (e := e) ?_ he
      cases answer : (m.compile unit level true (some m.globals)).1 with
      | ok n =>
        rw [answer] at h
        cases h
      | error e' =>
        rw [answer] at h
        cases h
        rfl
  | setUseNative unit on =>
    simp only [turn, Machine.setUseNative] at h ⊢
    split at h
    · rename_i wanted
      rw [if_pos wanted]
      generalize compiled : m.compile unit (m.wantedLevel unit) true (some m.globals) = result
        at h ⊢
      obtain ⟨answer, m'⟩ := result
      cases answer with
      | ok n => cases h
      | error e' =>
        cases h
        have same := Machine.compile_refused (congrArg Prod.fst compiled) he
        rw [compiled] at same
        exact same
    · cases h
  | resetTier | setControl | setTracing | setBailError | requestBail => cases h

/-! ## Sessions -/

/-- The law that machines are tidy. -/
def tidyLaw (config : Configuration) : Law where
  config := config
  holds m := m.config = config ∧ m.Tidy
  past _ := False
  kept _ _ := True
  kept_refl _ := trivial
  kept_trans _ _ := trivial
  past_of_kept _ h := h

instance (config : Configuration) : (tidyLaw config).TierOnly where
  configured h := h.1
  holds_of_same same h := by
    refine ⟨same.config.trans h.1, fun r hr => ?_⟩
    rw [same.profile, Machine.compiledUnit?, same.compiled]
    exact h.2 r (same.size ▸ hr)
  kept_of_same _ := trivial

/-- Whatever happens, machines stay tidy. -/
theorem tidyLaw_upheld (config : Configuration) {a b : Alarm}
    (le : ∀ {x m}, b x m = true → a x m = true)
    (silent : ∀ {x m}, m.Tidy → a x m = true → b x m = true) : (tidyLaw config).Upheld a b where
  lasts := ⟨fun _ _ _ => trivial, fun _ _ _ => trivial, fun _ _ _ => trivial, fun _ _ => trivial⟩
  le := le
  ahead hm ha hb := by
    rw [silent hm.2 ha] at hb
    cases hb
  backedge unit hm := .inl ⟨hm.1, Machine.recordBackedge_tidy hm.2 _⟩
  activate {m f} hm _ :=
    .inl ⟨(Machine.Moved.activate _).config.trans hm.1, Machine.activate_tidy hm.2 f.globals⟩
  bail {_ m unit _} reason _ _ _ hm :=
    .inl ⟨(Machine.Moved.bail m unit reason).config.trans hm.1, Machine.bail_tidy hm.2 reason⟩
  turn {m _ k} _ hm _ := .inl ⟨(k.config_turn m).trans hm.1, hm.2.turn k⟩

/-- **The tier state is tidy at every moment of a session.**

    * Wherever a session is stopped, the machine is tidy.
    * An alarm that goes off on machines only that are not tidy changes nothing: none of
      its moments has such a machine.
    * A knob that is refused, at whatever moment, leaves the machine as it is. -/
theorem session_tidy (host : Host) (fuel : Nat) (script : Script) {m : Machine} (hm : m.Tidy) :
    (∀ a : Alarm, (finalState (session host a fuel script m)).Tidy) ∧
    (∀ a : Alarm, (∀ x m', m'.Tidy → a x m' = false) →
      session host a fuel script m = session host .never fuel script m) ∧
    ∀ (m' : Machine) (k : Knob) (e : CompileError), (k.turn m').1 = .error e →
      (e = .disabled ∨ e = .alreadyNative ∨ ∃ n, e = .invalidOptLevel n) → (k.turn m').2 = m' := by
  refine ⟨fun a => ?_, fun a silent => ?_, fun m' k e h refused => ?_⟩
  · obtain ⟨-, -, tidy⟩ | past := Law.session_stands
      (tidyLaw_upheld m.config (a := a) id fun _ h => h) host fuel script ⟨rfl, hm⟩
    · exact tidy
    · exact past.elim
  · have unheard : (tidyLaw m.config).Upheld a .never :=
      tidyLaw_upheld m.config (fun h => Bool.noConfusion h) fun tidy h => by
        rw [silent _ _ tidy] at h
        exact h
    obtain ⟨same, -⟩ | past := Law.session_stands unheard host fuel script ⟨rfl, hm⟩
    · exact same
    · exact past.elim
  · refine Knob.turn_refused h ?_
    obtain rfl | rfl | ⟨n, rfl⟩ := refused <;> rfl

/-- A session in which a unit is compiled on request, and native code is installed. -/
theorem session_tidy_of_compiled :
    let m := Machine.small {}
    let script := Script.turn (.setLevel 0 2) fun _ => .done .none
    m.Tidy ∧ ((finalState (session .idle .never 0 script m)).profile 0).tier = .native ∧
    (∀ a : Alarm, (finalState (session .idle a 0 script m)).Tidy) ∧
    (∀ a : Alarm, (∀ x m', m'.Tidy → a x m' = false) →
      session .idle a 0 script m = session .idle .never 0 script m) ∧
    ∀ (m' : Machine) (k : Knob) (e : CompileError), (k.turn m').1 = .error e →
      (e = .disabled ∨ e = .alreadyNative ∨ ∃ n, e = .invalidOptLevel n) → (k.turn m').2 = m' :=
  have tidy : (Machine.small {}).Tidy := Machine.tidy_of_unused (Machine.unitState_small _) rfl
  ⟨tidy, by decide +kernel, session_tidy .idle 0 _ tidy⟩

end TieredMachine
