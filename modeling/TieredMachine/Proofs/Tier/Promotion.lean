/-
  Automatic compilation of a unit.

  The heat of a unit is the number of its activations plus, with a weight, that of its
  backward jumps.  While nobody turns a knob of the unit and compilation waits for hot
  units, the unit is interpreted and not claimed as long as its activations find it below
  the threshold.  The first activation that does not claims it, and no other one ever
  does.  A unit that was pinned by hand is not claimed by any activation.

  * `Profile.Cold`, `Profile.Promoted`: the unit before and after;
  * `Profile.Drift`: what happens to a unit whose knobs are not turned;
  * `Profile.Cold.activate`: an activation of a cold unit;
  * `promotionLaw`, `pinnedLaw`: the laws of promotion;
  * `promotion_exact`: sessions.
-/
import TieredMachine.Proofs.Host.Session
import TieredMachine.Proofs.Tier.Standing

namespace TieredMachine

/-! ## Heat -/

namespace Profile

/-- Activations plus weighted backward jumps. -/
def heat (p : Profile) (weight : Nat) : Nat := p.calls + weight * p.backedges

/-- The heat does not fit in a word. -/
def Overheated (c : Configuration) (p : Profile) : Prop := UInt64.size ≤ p.heat c.backedgeWeight

/-- The unit was not compiled after `n` compilations, and may be without being asked
    for. -/
structure Cold (c : Configuration) (n : Nat) (p : Profile) : Prop where
  tier : p.tier = .interpreted
  free : p.state.manual = false
  hotness : p.hotness.toNat = p.heat c.backedgeWeight
  count : p.compileCount = n

/-- The unit was compiled once more after `n` compilations, when it was hot. -/
structure Promoted (c : Configuration) (n : Nat) (p : Profile) : Prop where
  tier : p.tier = .native ∨ p.tier = .permanentlyInterpreted
  count : p.compileCount = n + 1
  hot : c.hotnessThreshold ≤ p.heat c.backedgeWeight

/-- What is promised of a unit when an activation of it was counted. -/
structure Exact (c : Configuration) (n : Nat) (p : Profile) : Prop where
  below : p.heat c.backedgeWeight < c.hotnessThreshold →
    p.tier = .interpreted ∧ p.compileCount = n
  reached : c.hotnessThreshold ≤ p.heat c.backedgeWeight →
    (p.tier = .native ∨ p.tier = .permanentlyInterpreted) ∧ p.compileCount = n + 1

/-! ## What happens to a unit -/

/-- What happens to a unit whose knobs are not turned, at one step. -/
inductive Drift : Profile → Profile → Prop
  | still {p} : Drift p p
  | backedge {p} (weight : UInt64) : Drift p (p.recordBackedge weight)
  | entry {p} : Drift p p.recordEntry
  /-- an activation that compiles the unit -/
  | promotion {p} (level : OptLevel) (result : Except CompileError (Graph × NativeFunction)) :
      p.tier = .interpreted → p.state.manual = false →
      Drift p ((p.recordEntry.beginCompile false).settle level result)
  | bail {p} (fatal : Bool) (maxFatalBails : Nat) : Drift p (p.recordBail fatal maxFatalBails)

variable {c : Configuration} {n : Nat} {p p' : Profile} {level : OptLevel}
  {result : Except CompileError (Graph × NativeFunction)}

theorem heat_settle (weight : Nat) : (p.settle level result).heat weight = p.heat weight := by
  cases result <;> rfl

theorem heat_beginCompile (weight : Nat) (manual : Bool) :
    (p.beginCompile manual).heat weight = p.heat weight := by
  unfold beginCompile
  split <;> rfl

theorem heat_recordEntry (weight : Nat) : p.recordEntry.heat weight = p.heat weight + 1 :=
  Nat.add_right_comm p.calls 1 _

theorem heat_recordBackedge (weight : Nat) (w : UInt64) :
    (p.recordBackedge w).heat weight = p.heat weight + weight :=
  (Nat.add_assoc p.calls _ weight).symm

/-- A unit only gets hotter. -/
theorem Drift.heat_le (h : Drift p p') (weight : Nat) : p.heat weight ≤ p'.heat weight := by
  cases h with
  | still => exact Nat.le_refl _
  | backedge w =>
    rw [heat_recordBackedge]
    exact Nat.le_add_right _ _
  | entry =>
    rw [heat_recordEntry]
    exact Nat.le_succ _
  | promotion level result =>
    rw [heat_settle, heat_beginCompile, heat_recordEntry]
    exact Nat.le_succ _
  | bail fatal maxFatalBails => exact Nat.le_refl _

theorem Overheated.drift (h : p.Overheated c) (hd : Drift p p') : p'.Overheated c :=
  Nat.le_trans h (hd.heat_le _)

/-- A promoted unit stays promoted. -/
theorem Promoted.drift (h : p.Promoted c n) (hd : Drift p p') : p'.Promoted c n := by
  have hot := Nat.le_trans h.hot (hd.heat_le c.backedgeWeight)
  cases hd with
  | still => exact h
  | backedge w => exact ⟨h.tier, h.count, hot⟩
  | entry => exact ⟨h.tier, h.count, hot⟩
  | promotion level result interpreted free =>
    obtain tier | tier := h.tier <;> rw [interpreted] at tier <;> cases tier
  | bail fatal maxFatalBails =>
    refine ⟨?_, h.count, hot⟩
    simp only [recordBail, Profile.tier]
    split
    · exact .inr rfl
    · exact h.tier

/-- The unit was promoted, or its heat does not fit in a word. -/
def Done (c : Configuration) (n : Nat) (p : Profile) : Prop := p.Promoted c n ∨ p.Overheated c

theorem Done.drift (h : p.Done c n) (hd : Drift p p') : p'.Done c n :=
  h.imp (·.drift hd) (·.drift hd)

/-- A backward jump leaves a unit cold. -/
theorem Cold.backedge (h : p.Cold c n) :
    (p.recordBackedge (.ofNat c.backedgeWeight)).Cold c n ∨
      (p.recordBackedge (.ofNat c.backedgeWeight)).Overheated c := by
  have hotter := p.heat_recordBackedge c.backedgeWeight (.ofNat c.backedgeWeight)
  by_cases fits : p.heat c.backedgeWeight + c.backedgeWeight < UInt64.size
  · refine .inl ⟨h.tier, h.free, ?_, h.count⟩
    have weight : (UInt64.ofNat c.backedgeWeight).toNat = c.backedgeWeight :=
      UInt64.toNat_ofNat_of_lt' (Nat.lt_of_le_of_lt (Nat.le_add_left _ _) fits)
    rw [hotter, recordBackedge, UInt64.toNat_add, weight, h.hotness]
    exact Nat.mod_eq_of_lt fits
  · exact .inr (by rw [Overheated, hotter]; exact Nat.le_of_not_lt fits)

theorem Cold.recordEntry (h : p.Cold c n) (fits : p.heat c.backedgeWeight + 1 < UInt64.size) :
    p.recordEntry.Cold c n := by
  refine ⟨h.tier, h.free, ?_, h.count⟩
  rw [heat_recordEntry, Profile.recordEntry, UInt64.toNat_add, h.hotness]
  exact Nat.mod_eq_of_lt fits

theorem Cold.unrunnable (h : p.Cold c n) : p.runnable? = none := by
  have tier : p.state.tier = .interpreted := h.tier
  simp [runnable?, TierState.runnable?, tier]

/-- A claim of a cold unit is settled with its promotion. -/
theorem Cold.promoted (h : p.Cold c n) (hot : c.hotnessThreshold ≤ p.heat c.backedgeWeight) :
    ((p.beginCompile false).settle level result).Promoted c n := by
  have began : p.beginCompile false = { p with
      compileCount := p.compileCount + 1
      state := { p.state with tier := .compiling, manual := p.state.manual || false } } := by
    rw [beginCompile, mayBegin, h.tier]
    rfl
  rw [began]
  refine ⟨?_, ?_, by rw [heat_settle]; exact hot⟩
  · cases result with
    | ok made => exact .inl rfl
    | error e => exact .inr rfl
  · rw [← h.count]
    cases result <;> rfl

theorem Cold.exact (h : p.Cold c n) (cool : p.heat c.backedgeWeight < c.hotnessThreshold) :
    p.Exact c n :=
  ⟨fun _ => ⟨h.tier, h.count⟩, fun hot => absurd hot (Nat.not_le_of_lt cool)⟩

theorem Promoted.exact (h : p.Promoted c n) : p.Exact c n :=
  ⟨fun cool => absurd h.hot (Nat.not_le_of_lt cool), fun _ => ⟨h.tier, h.count⟩⟩

end Profile

/-! ## Steps of the machine -/

namespace Machine

variable {m m' : Machine} {unit r : Ref}

theorem Moved.drift (h : m.Moved m' unit) (other : unit ≠ r) :
    (m.profile r).Drift (m'.profile r) := by
  rw [h.profile r other]
  exact .still

/-- There is nothing to say about a unit that does not exist. -/
theorem Moved.drift_of_le (h : m.Moved m' unit) (hr : m.units.size ≤ r) :
    (m.profile r).Drift (m'.profile r) := by
  have fresh {m : Machine} (hr : m.units.size ≤ r) : m.profile r = {} := by
    show (m.units[r]?.getD {}).profile = {}
    rw [Array.getElem?_eq_none hr]
    rfl
  rw [fresh hr, fresh (h.size ▸ hr)]
  exact .still

theorem backedge_drift (m : Machine) (unit r : Ref) (weight : UInt64) :
    (m.profile r).Drift ((m.mapProfile unit (·.recordBackedge weight)).profile r) := by
  rw [profile_mapProfile]
  split
  · exact .backedge weight
  · exact .still

/-- What an activation of a unit does to it. -/
theorem profile_activate (hr : r < m.units.size) (globals : Ref) :
    (((m.record .callStartEval).mapProfile r (·.recordEntry)).isDue r = false ∧
      (m.activate r globals).profile r = (m.profile r).recordEntry) ∨
    ∃ result, ((m.record .callStartEval).mapProfile r (·.recordEntry)).isDue r = true ∧
      (m.activate r globals).profile r =
        ((m.profile r).recordEntry.beginCompile false).settle m.config.automaticLevel result := by
  cases due : ((m.record .callStartEval).mapProfile r (·.recordEntry)).isDue r with
  | false => exact .inl ⟨rfl, by rw [activate_idle due, profile_counted hr]⟩
  | true =>
    obtain ⟨result, claimed⟩ := activate_due globals due
    refine .inr ⟨result, rfl, ?_⟩
    rw [claimed.profile ((size_mapProfile (m.record .callStartEval) r _).symm ▸ hr),
      profile_counted hr]

theorem activate_drift (m : Machine) (unit globals r : Ref) :
    (m.profile r).Drift ((m.activate unit globals).profile r) := by
  by_cases same : unit = r
  · subst same
    by_cases hr : unit < m.units.size
    · obtain ⟨-, h⟩ | ⟨result, due, h⟩ := profile_activate hr globals
      · rw [h]
        exact .entry
      · rw [h]
        rw [isDue_eq hr] at due
        simp only [Bool.and_eq_true, decide_eq_true_eq, Bool.not_eq_true'] at due
        exact .promotion _ result due.1.1 due.1.2
    · exact (Moved.activate globals).drift_of_le (Nat.le_of_not_lt hr)
  · exact (Moved.activate globals).drift same

theorem bail_drift (m : Machine) (unit r : Ref) (reason : BailReason) :
    (m.profile r).Drift ((m.bail unit reason).profile r) := by
  by_cases same : unit = r
  · subst same
    by_cases hr : unit < m.units.size
    · rw [profile_bail reason hr]
      exact .bail _ _
    · exact (Moved.bail m unit reason).drift_of_le (Nat.le_of_not_lt hr)
  · exact (Moved.bail m unit reason).drift same

end Machine

namespace Knob

theorem profile_turn (m : Machine) {k : Knob} {r : Ref} (h : k.unit? ≠ some r) :
    (k.turn m).2.profile r = m.profile r := by
  cases hk : k.unit? with
  | some unit => exact (turn_moved m k hk).profile r fun same => h (same ▸ hk)
  | none =>
    cases k with
    | setLevel | setUseNative | resetTier => cases hk
    | setControl | setTracing | setBailError | requestBail => rfl

theorem size_turn (m : Machine) (k : Knob) : (k.turn m).2.units.size = m.units.size := by
  cases hk : k.unit? with
  | some unit => exact (turn_moved m k hk).size
  | none =>
    cases k with
    | setLevel | setUseNative | resetTier => cases hk
    | setControl | setTracing | setBailError | requestBail => rfl

/-- Whether turning the knob concerns the tier of a unit, or ends that units are compiled
    when they are hot. -/
def touches (r : Ref) : Knob → Bool
  | setLevel unit _ | setUseNative unit _ | resetTier unit => unit == r
  | setControl c => c != .whenHot
  | _ => false

theorem unit?_of_touches {k : Knob} {r : Ref} (h : k.touches r = false) : k.unit? ≠ some r := by
  cases k with
  | setLevel | setUseNative | resetTier => simpa [unit?, touches] using h
  | setControl | setTracing | setBailError | requestBail => intro about; cases about

theorem control_turn {m : Machine} {k : Knob} {r : Ref} (h : k.touches r = false)
    (hm : m.control = .whenHot) : (k.turn m).2.control = .whenHot := by
  cases k with
  | setLevel unit n => exact (Machine.Moved.setLevel m unit n).control.trans hm
  | setUseNative unit on => exact (Machine.Moved.setUseNative m unit on).control.trans hm
  | setControl c =>
    show c = .whenHot
    simpa [touches] using h
  | resetTier | setTracing | setBailError | requestBail => exact hm

end Knob

section

variable {m : Machine} {r : Ref} {n : Nat}

theorem Machine.heat_activate (hr : r < m.units.size) (globals : Ref) (weight : Nat) :
    ((m.activate r globals).profile r).heat weight = (m.profile r).heat weight + 1 := by
  obtain ⟨-, h⟩ | ⟨result, -, h⟩ := profile_activate hr globals
  · rw [h, Profile.heat_recordEntry]
  · rw [h, Profile.heat_settle, Profile.heat_beginCompile, Profile.heat_recordEntry]

/-- An activation of a cold unit leaves it cold when that is below the threshold, and
    promotes the unit otherwise. -/
theorem Profile.Cold.activate (h : (m.profile r).Cold m.config n) (hr : r < m.units.size)
    (control : m.control = .whenHot) (globals : Ref) :
    ((m.activate r globals).profile r).Overheated m.config ∨
      ((m.profile r).heat m.config.backedgeWeight + 1 < m.config.hotnessThreshold ∧
        ((m.activate r globals).profile r).Cold m.config n) ∨
      (m.config.hotnessThreshold ≤ (m.profile r).heat m.config.backedgeWeight + 1 ∧
        ((m.activate r globals).profile r).Promoted m.config n) := by
  by_cases fits : (m.profile r).heat m.config.backedgeWeight + 1 < UInt64.size
  case neg =>
    refine .inl ?_
    rw [Overheated, Machine.heat_activate hr]
    exact Nat.le_of_not_lt fits
  have counted := h.recordEntry fits
  have hotness := counted.hotness
  rw [heat_recordEntry] at hotness
  have due := Machine.isDue_eq hr
  have tier : (m.profile r).tier = .interpreted := h.tier
  have free : (m.profile r).state.manual = false := h.free
  simp only [tier, free, control, decide_true, Bool.not_false, Bool.true_and] at due
  obtain ⟨idle, after⟩ | ⟨result, busy, after⟩ := Machine.profile_activate hr globals
  · rw [idle] at due
    have cool : ¬m.config.hotnessThreshold ≤ ((m.profile r).hotness + 1).toNat := by
      simpa using due.symm
    refine .inr (.inl ⟨?_, after ▸ counted⟩)
    rw [← hotness]
    exact Nat.lt_of_not_le cool
  · rw [busy] at due
    have hot : m.config.hotnessThreshold ≤ ((m.profile r).hotness + 1).toNat := by
      simpa using due.symm
    have reached : m.config.hotnessThreshold ≤
        (m.profile r).heat m.config.backedgeWeight + 1 := by
      rw [← hotness]
      exact hot
    refine .inr (.inr ⟨reached, ?_⟩)
    rw [after]
    exact counted.promoted (by rw [heat_recordEntry]; exact reached)

end

/-! ## The law of promotion -/

/-- A law of a unit that is compiled when it is hot: what holds of its profile until
    something else does. -/
def promotionLaw (c : Configuration) (r : Ref) (n : Nat) (holds past : Profile → Prop) : Law where
  config := c
  holds m := m.config = c ∧ m.control = .whenHot ∧ r < m.units.size ∧ holds (m.profile r)
  past m := past (m.profile r)
  kept m m' := (past (m.profile r) → past (m'.profile r)) ∧
    ((m.profile r).Done c n → (m'.profile r).Done c n)
  kept_refl _ := ⟨id, id⟩
  kept_trans h h' := ⟨h'.1 ∘ h.1, h'.2 ∘ h.2⟩
  past_of_kept h := h.1

/-- The alarm goes off when a knob is turned that concerns the tier of a unit, or ends that
    units are compiled when they are hot. -/
def Alarm.touched (r : Ref) : Alarm := fun x m => (x.turned? m).any (·.touches r)

/-- The alarm goes off at activations of a unit that reach the threshold. -/
def Alarm.hot (r : Ref) : Alarm := fun x m => match x with
  | .run .call f => f.code.id == r &&
      m.config.hotnessThreshold ≤ (m.profile r).heat m.config.backedgeWeight + 1
  | _ => false

/-- The alarm goes off only at activations of a unit that change the machine in some
    way. -/
def Alarm.AtActivations (b : Alarm) (r : Ref) (changes : Machine → Machine → Prop) : Prop :=
  ∀ x m, b x m = true →
    ∃ f : Frame, x = .run .call f ∧ f.code.id = r ∧ changes m (m.activate r f.globals)

theorem Alarm.of_or {a b : Alarm} {x : Moment} {m : Machine} (h : a.or b x m = true)
    (quiet : a x m = false) : b x m = true := by
  rwa [Alarm.or, quiet, Bool.false_or] at h

theorem Alarm.of_hot {r : Ref} {x : Moment} {m : Machine} (h : Alarm.hot r x m = true) :
    ∃ f, x = .run .call f ∧ f.code.id = r ∧
      m.config.hotnessThreshold ≤ (m.profile r).heat m.config.backedgeWeight + 1 := by
  unfold Alarm.hot at h
  split at h
  · rename_i f
    simp only [Bool.and_eq_true, beq_iff_eq, decide_eq_true_eq] at h
    exact ⟨f, rfl, h⟩
  · cases h

section

variable {c : Configuration} {r : Ref} {n : Nat} {holds past : Profile → Prop} {a b : Alarm}

instance : (promotionLaw c r n holds past).TierOnly where
  configured h := h.1
  holds_of_same same h :=
    ⟨same.config.trans h.1, same.control.trans h.2.1, same.size ▸ h.2.2.1, same.profile r ▸ h.2.2.2⟩
  kept_of_same same := by
    show (past _ → past _) ∧ (Profile.Done c n _ → Profile.Done c n _)
    rw [same.profile r]
    exact ⟨id, id⟩

/-- The law of a unit stands a step when it does on the unit. -/
theorem promotionLaw_stands {m m' : Machine} {unit : Ref} (h : m.Moved m' unit)
    (hm : (promotionLaw c r n holds past).holds m)
    (hr : unit = r → holds (m'.profile r) ∨ past (m'.profile r)) :
    (promotionLaw c r n holds past).Stands m' := by
  have standing (hp : holds (m'.profile r)) : (promotionLaw c r n holds past).holds m' :=
    ⟨h.config.trans hm.1, h.control.trans hm.2.1, h.size.symm ▸ hm.2.2.1, hp⟩
  by_cases same : unit = r
  · exact (hr same).imp_left standing
  · refine .inl (standing ?_)
    rw [h.profile r same]
    exact hm.2.2.2

/-- What upholds a law of a unit, in terms of its profile. -/
theorem promotionLaw_upheld
    (guarded : ∀ {x m}, Alarm.touched r x m = true → b x m = true)
    (le : ∀ {x m}, b x m = true → a x m = true)
    (ahead : ∀ {x m}, (promotionLaw c r n holds past).holds m → a x m = true → b x m = false →
      ∃ f, x = .run .call f ∧ past ((m.activate f.code.id f.globals).profile r))
    (lasting : ∀ {p p'}, past p → p.Drift p' → past p')
    (backedge : ∀ {p}, holds p → holds (p.recordBackedge (.ofNat c.backedgeWeight)) ∨
      past (p.recordBackedge (.ofNat c.backedgeWeight)))
    (activate : ∀ {m f}, (promotionLaw c r n holds past).holds m → f.code.id = r →
      a (.run .call f) m = false →
      holds ((m.activate r f.globals).profile r) ∨ past ((m.activate r f.globals).profile r))
    (bail : ∀ {p p' : Profile} {native} fatal maxFatalBails, holds p →
      p.runnable? = some native → (p.Done c n → p'.Done c n) → holds p' →
      holds (p'.recordBail fatal maxFatalBails) ∨ past (p'.recordBail fatal maxFatalBails)) :
    (promotionLaw c r n holds past).Upheld a b := by
  have kept {m m' : Machine} (h : (m.profile r).Drift (m'.profile r)) :
      (promotionLaw c r n holds past).kept m m' := ⟨(lasting · h), (·.drift h)⟩
  have spared {x : Moment} {m : Machine} {k : Knob} (hk : x.turned? m = some k)
      (hb : b x m = false) : k.touches r = false := by
    cases ht : k.touches r with
    | false => rfl
    | true =>
      rw [guarded (by rw [Alarm.touched, hk]; exact ht)] at hb
      cases hb
  exact {
    lasts := {
      backedge := fun m unit weight => kept (m.backedge_drift unit r weight)
      activate := fun m unit globals => kept (m.activate_drift unit globals r)
      bail := fun m unit reason => kept (m.bail_drift unit r reason)
      turn := fun {m x k} hk hb => by
        refine kept ?_
        rw [Knob.profile_turn m (Knob.unit?_of_touches (spared hk hb))]
        exact .still }
    le := le
    ahead := ahead
    backedge := fun {m} unit hm => by
      refine promotionLaw_stands (.mapProfile m unit _) hm fun same => ?_
      rw [Machine.profile_mapProfile, if_pos ⟨same, hm.2.2.1⟩]
      exact backedge hm.2.2.2
    activate := fun {m f} hm ha =>
      promotionLaw_stands (.activate _) hm fun same => by
        rw [same]
        exact activate hm same ha
    bail := fun {m m' unit native} reason hm hn hk hm' => by
      refine promotionLaw_stands (.bail m' unit reason) hm' fun same => ?_
      subst same
      rw [Machine.profile_bail reason hm'.2.2.1]
      exact bail _ _ hm.2.2.2 hn hk.2 hm'.2.2.2
    turn := fun {m x k} hk hm ha => by
      have spare := spared hk (by
        cases hb : b x m with
        | false => rfl
        | true => rw [le hb] at ha; cases ha)
      refine .inl ⟨(k.config_turn m).trans hm.1, Knob.control_turn spare hm.2.1, ?_, ?_⟩
      · rw [Knob.size_turn]
        exact hm.2.2.1
      · rw [Knob.profile_turn m (Knob.unit?_of_touches spare)]
        exact hm.2.2.2 }

/-- Where activations that reach the threshold are stopped, a unit stays cold. -/
theorem cold_upheld (guarded : ∀ {x m}, Alarm.touched r x m = true → a x m = true) :
    (promotionLaw c r n (Profile.Cold c n) (Profile.Overheated c)).Upheld
      (a.or (.hot r)) (a.or (.hot r)) := by
  refine promotionLaw_upheld (fun h => by rw [Alarm.or, guarded h]; rfl) id
    (fun _ h h' => by rw [h] at h'; cases h') (·.drift ·) Profile.Cold.backedge ?_ ?_
  · intro m f ⟨hc, control, hr, cold⟩ same quiet
    subst hc
    obtain past | ⟨-, cold⟩ | ⟨hot, -⟩ := cold.activate hr control f.globals
    · exact .inr past
    · exact .inl cold
    · simp [Alarm.or, Alarm.hot, same, hot] at quiet
  · intro p p' native fatal maxFatalBails cold runs
    rw [cold.unrunnable] at runs
    cases runs

/-- An activation that reaches the threshold promotes the unit. -/
theorem done_upheld (guarded : ∀ {x m}, Alarm.touched r x m = true → a x m = true) :
    (promotionLaw c r n (Profile.Cold c n) (Profile.Done c n)).Upheld (a.or (.hot r)) a := by
  have activated {m : Machine} {globals : Ref}
      (hm : (promotionLaw c r n (Profile.Cold c n) (Profile.Done c n)).holds m) :
      ((m.profile r).heat c.backedgeWeight + 1 < c.hotnessThreshold ∧
        ((m.activate r globals).profile r).Cold c n) ∨
      ((m.activate r globals).profile r).Done c n := by
    obtain ⟨rfl, control, hr, cold⟩ := hm
    obtain past | cool | ⟨-, promoted⟩ := cold.activate hr control globals
    · exact .inr (.inr past)
    · exact .inl cool
    · exact .inr (.inl promoted)
  refine promotionLaw_upheld guarded (fun h => by rw [Alarm.or, h]; rfl) ?_ (·.drift ·)
    (fun cold => cold.backedge.imp_right .inr) ?_ ?_
  · intro x m hm off quiet
    obtain ⟨f, rfl, same, hot⟩ := Alarm.of_hot (Alarm.of_or off quiet)
    refine ⟨f, rfl, ?_⟩
    rw [same]
    refine (activated hm).resolve_left fun cool => ?_
    rw [hm.1] at hot
    exact absurd hot (Nat.not_le_of_lt cool.1)
  · intro m f hm same _
    exact (activated hm).imp_left (·.2)
  · intro p p' native fatal maxFatalBails cold runs
    rw [cold.unrunnable] at runs
    cases runs

/-- Every activation is exact. -/
theorem exact_upheld (guarded : ∀ {x m}, Alarm.touched r x m = true → a x m = true)
    (inexact : b.AtActivations r fun _ m' => ¬(m'.profile r).Exact c n) :
    (promotionLaw c r n (fun p => p.Cold c n ∨ p.Promoted c n) (Profile.Overheated c)).Upheld
      (a.or b) a := by
  have activated {m : Machine} {globals : Ref}
      (hm : (promotionLaw c r n (fun p => p.Cold c n ∨ p.Promoted c n)
        (Profile.Overheated c)).holds m) :
      ((m.activate r globals).profile r).Overheated c ∨
        ((m.activate r globals).profile r).Exact c n ∧
          (((m.activate r globals).profile r).Cold c n ∨
            ((m.activate r globals).profile r).Promoted c n) := by
    obtain ⟨rfl, control, hr, cold | promoted⟩ := hm
    · have heat := Machine.heat_activate hr globals m.config.backedgeWeight
      obtain past | ⟨cool, cold⟩ | ⟨-, promoted⟩ :=
        cold.activate hr control globals
      · exact .inl past
      · exact .inr ⟨cold.exact (heat ▸ cool), .inl cold⟩
      · exact .inr ⟨promoted.exact, .inr promoted⟩
    · have promoted := promoted.drift (m.activate_drift r globals r)
      exact .inr ⟨promoted.exact, .inr promoted⟩
  refine promotionLaw_upheld guarded (fun h => by rw [Alarm.or, h]; rfl) ?_ (·.drift ·) ?_ ?_ ?_
  · intro x m hm off quiet
    obtain ⟨f, rfl, same, broken⟩ := inexact _ _ (Alarm.of_or off quiet)
    refine ⟨f, rfl, ?_⟩
    rw [same]
    exact (activated hm).resolve_right fun h => broken h.1
  · intro p standing
    obtain cold | promoted := standing
    · exact cold.backedge.imp_left .inl
    · exact .inl (.inr (promoted.drift (.backedge _)))
  · intro m f hm _ _
    exact (activated hm).elim .inr fun h => .inl h.2
  · intro p p' native fatal maxFatalBails standing runs kept standing'
    -- native code runs in a promoted unit only, which is still promoted when it bails
    obtain cold | promoted := standing
    · rw [cold.unrunnable] at runs
      cases runs
    obtain promoted' | past := kept (.inl promoted)
    · exact .inl (.inr (promoted'.drift (.bail fatal maxFatalBails)))
    · exact .inr (past.drift (.bail fatal maxFatalBails))

end

/-! ## Units that were pinned -/

/-- The alarm goes off when a unit is brought back to its first state. -/
def Alarm.reset (r : Ref) : Alarm := fun x m => x.turned? m == some (.resetTier r)

/-- The law that a unit is pinned. -/
def pinnedLaw (c : Configuration) (r : Ref) : Law where
  config := c
  holds m := m.config = c ∧ r < m.units.size ∧ (m.profile r).state.manual = true
  past _ := False
  kept _ _ := True
  kept_refl _ := trivial
  kept_trans _ _ := trivial
  past_of_kept _ h := h

namespace Profile

variable {p p' : Profile}

theorem manual_settle (level : OptLevel) (result : Except CompileError (Graph × NativeFunction)) :
    (p.settle level result).state.manual = p.state.manual := by
  cases result <;> rfl

/-- A claim does not unpin a unit; one on request pins it. -/
theorem manual_beginCompile {manual : Bool} (h : p.state.manual = true ∨
    manual = true ∧ p.mayBegin manual = true) : (p.beginCompile manual).state.manual = true := by
  unfold beginCompile
  split
  · show (p.state.manual || manual) = true
    obtain h | h := h
    · rw [h, Bool.true_or]
    · rw [h.1, Bool.or_true]
  · rename_i refused
    exact h.resolve_right fun h => refused h.2

/-- A pinned unit whose knobs are not turned stays pinned and is not claimed. -/
theorem Drift.pinned (h : Drift p p') (pinned : p.state.manual = true) :
    p'.state.manual = true ∧ p'.compileCount = p.compileCount := by
  cases h with
  | still | backedge | entry => exact ⟨pinned, rfl⟩
  | promotion level result interpreted free =>
    rw [pinned] at free
    cases free
  | bail fatal maxFatalBails =>
    refine ⟨?_, rfl⟩
    simp only [recordBail]
    split
    · exact pinned
    · exact pinned

end Profile

namespace Machine

variable {m : Machine} {unit r : Ref}

theorem Claimed.manual {m' : Machine} {level : OptLevel} {manual : Bool}
    {result : Except CompileError (Graph × NativeFunction)}
    (h : Claimed m unit level manual result m') (hu : unit < m.units.size)
    (pinned : (m.profile unit).state.manual = true ∨ manual = true) :
    (m'.profile unit).state.manual = true := by
  rw [h.profile hu, Profile.manual_settle]
  exact Profile.manual_beginCompile (pinned.imp_right fun asked => ⟨asked, h.claimable⟩)

/-- A compilation on request leaves its unit pinned, unless it is declined. -/
theorem compile_pinned (hr : r < m.units.size) (level : OptLevel) (globals : Option Ref)
    (h : (m.profile r).state.manual = true ∨
      ∃ n, (m.compile r level true globals).1 = .ok n) :
    ((m.compile r level true globals).2.profile r).state.manual = true := by
  obtain ⟨e, -, declined⟩ | ⟨result, -, -, claimed⟩ := compile_cases m r level true globals
  · rw [declined] at h ⊢
    exact h.resolve_right fun ⟨n, h⟩ => by cases h
  · exact claimed.manual hr (.inr rfl)

theorem setLevel_pinned (hr : r < m.units.size) (n : Int)
    (h : (m.profile r).state.manual = true ∨ (m.setLevel r n).1 = .ok ()) :
    ((m.setLevel r n).2.profile r).state.manual = true := by
  unfold setLevel at h ⊢
  split at h
  · exact h.resolve_right fun h => by cases h
  · show ((m.mapProfile r (·.setManualLevel .unoptimized)).profile r).state.manual = true
    rw [profile_mapProfile, if_pos ⟨rfl, hr⟩, Profile.setManualLevel]
    dsimp only
    split <;> rfl
  · rename_i level _ _
    refine compile_pinned hr level _ (h.imp_right fun answer => ?_)
    have answer : (m.compile r level true (some m.globals)).1.map (fun _ => ()) = .ok () := answer
    cases compiled : (m.compile r level true (some m.globals)).1 with
    | ok n => exact ⟨n, rfl⟩
    | error e =>
      rw [compiled] at answer
      cases answer

theorem setUseNative_pinned (hr : r < m.units.size) (on : Bool)
    (h : (m.profile r).state.manual = true ∨ (m.setUseNative r on).1 = .ok ()) :
    ((m.setUseNative r on).2.profile r).state.manual = true := by
  have turned {m : Machine} (hr : r < m.units.size) :
      ((m.mapProfile r (·.setUseNative on)).profile r).state.manual = true := by
    rw [profile_mapProfile, if_pos ⟨rfl, hr⟩]
    rfl
  have size := (Moved.compile m r (m.wantedLevel r) true (some m.globals)).size
  have pinned := compile_pinned hr (m.wantedLevel r) (some m.globals)
  unfold setUseNative at h ⊢
  split at h
  · rename_i wanted
    rw [if_pos wanted]
    generalize m.compile r (m.wantedLevel r) true (some m.globals) = result at size pinned h ⊢
    obtain ⟨answer, m'⟩ := result
    cases answer with
    | ok n => exact turned (size.symm ▸ hr)
    | error e => exact pinned (h.imp_right fun h => by cases h)
  · rename_i unwanted
    rw [if_neg unwanted]
    exact turned hr

end Machine

/-- A knob of a unit, other than the one that brings it back to its first state, does not
    unpin it, and pins it when it succeeds. -/
theorem Knob.turn_pinned {m : Machine} {k : Knob} {r : Ref} (hr : r < m.units.size)
    (hk : k ≠ .resetTier r) (h : (m.profile r).state.manual = true ∨
      k.unit? = some r ∧ (k.turn m).1 = .ok ()) :
    ((k.turn m).2.profile r).state.manual = true := by
  by_cases about : k.unit? = some r
  · have h := h.imp_right (·.2)
    cases k with
    | setLevel unit n => cases about; exact Machine.setLevel_pinned hr n h
    | setUseNative unit on => cases about; exact Machine.setUseNative_pinned hr on h
    | resetTier unit => cases about; exact absurd rfl hk
    | setControl | setTracing | setBailError | requestBail => cases about
  · rw [Knob.profile_turn m about]
    exact h.resolve_right fun h => about h.1

section

variable {c : Configuration} {r : Ref} {a b : Alarm}

instance : (pinnedLaw c r).TierOnly where
  configured h := h.1
  holds_of_same same h :=
    ⟨same.config.trans h.1, same.size ▸ h.2.1, same.profile r ▸ h.2.2⟩
  kept_of_same _ := trivial

/-- A pinned unit stays pinned, and is not claimed by activations, until it is reset. -/
theorem pinned_upheld (guarded : ∀ {x m}, Alarm.reset r x m = true → a x m = true)
    (claims : b.AtActivations r fun m m' =>
      (m'.profile r).compileCount ≠ (m.profile r).compileCount) :
    (pinnedLaw c r).Upheld (a.or b) a := by
  have step {m m' : Machine} {unit : Ref} (h : m.Moved m' unit)
      (hd : (m.profile r).Drift (m'.profile r)) (hm : (pinnedLaw c r).holds m) :
      (pinnedLaw c r).Stands m' :=
    .inl ⟨h.config.trans hm.1, h.size.symm ▸ hm.2.1, (hd.pinned hm.2.2).1⟩
  exact {
    lasts := ⟨fun _ _ _ => trivial, fun _ _ _ => trivial, fun _ _ _ => trivial,
      fun _ _ => trivial⟩
    le := fun h => by rw [Alarm.or, h]; rfl
    ahead := fun {x m} hm off quiet => by
      obtain ⟨f, -, -, claimed⟩ := claims _ _ (Alarm.of_or off quiet)
      exact absurd ((m.activate_drift r f.globals r).pinned hm.2.2).2 claimed
    backedge := fun {m} unit hm =>
      step (.mapProfile m unit _) (m.backedge_drift unit r _) hm
    activate := fun {m f} hm _ => step (.activate _) (m.activate_drift f.code.id f.globals r) hm
    bail := fun {_ m unit _} reason _ _ _ hm =>
      step (.bail m unit reason) (m.bail_drift unit r reason) hm
    turn := fun {m x k} hk hm quiet => by
      refine .inl ⟨(k.config_turn m).trans hm.1, ?_, ?_⟩
      · rw [Knob.size_turn]
        exact hm.2.1
      · refine Knob.turn_pinned hm.2.1 (fun reset => ?_) (.inl hm.2.2)
        subst reset
        have off := guarded (x := x) (m := m) (by rw [Alarm.reset, hk]; exact beq_self_eq_true _)
        rw [Alarm.or, off] at quiet
        cases quiet }

end

/-! ## Sessions -/

/-- **Automatic compilation is exact, and happens once.**  A session is watched that begins
    where a unit is cold and units are compiled when they are hot.  It is stopped when a
    knob of the unit is turned, or wherever another alarm goes off, and the heat of the unit
    fits in a word.

    * If no activation reached the threshold, the unit is interpreted and was not claimed.
    * If one did, it was claimed once, and is native or interpreted for good.
    * An alarm changes nothing that goes off only at activations which are not exact: which
      claim a unit below the threshold, or leave one that reached it with any other number
      of claims than one.

    A knob that succeeds pins its unit, unless it resets it.  A session is watched that
    begins where a unit is pinned, until the unit is reset.

    * The unit is still pinned.
    * An alarm changes nothing that goes off only at activations which claim the unit. -/
theorem promotion_exact (host : Host) (fuel : Nat) (script : Script) (a : Alarm) {m : Machine}
    {r : Ref} (hr : r < m.units.size) :
    let result (w : Alarm) := session host w fuel script m
    let last (w : Alarm) := (finalState (result w)).profile r
    let n := (m.profile r).compileCount
    let untouched := (Alarm.touched r).or a
    let untilReset := (Alarm.reset r).or a
    (m.control = .whenHot → (m.profile r).Cold m.config n →
      (last untouched).heat m.config.backedgeWeight < UInt64.size →
      (result (untouched.or (.hot r)) = result untouched →
        (last untouched).tier = .interpreted ∧ (last untouched).compileCount = n) ∧
      (result (untouched.or (.hot r)) ≠ result untouched →
        ((last untouched).tier = .native ∨ (last untouched).tier = .permanentlyInterpreted) ∧
          (last untouched).compileCount = n + 1) ∧
      ∀ b : Alarm, (b.AtActivations r fun _ m' => ¬(m'.profile r).Exact m.config n) →
        result (untouched.or b) = result untouched) ∧
    (∀ (m' : Machine) (k : Knob), r < m'.units.size → k.unit? = some r → k ≠ .resetTier r →
      (k.turn m').1 = .ok () → ((k.turn m').2.profile r).state.manual = true) ∧
    ((m.profile r).state.manual = true →
      (last untilReset).state.manual = true ∧
      ∀ b : Alarm, (b.AtActivations r fun m m' =>
          (m'.profile r).compileCount ≠ (m.profile r).compileCount) →
        result (untilReset.or b) = result untilReset) := by
  intro result last n untouched untilReset
  have guarded {x : Moment} {m : Machine} (h : Alarm.touched r x m = true) :
      untouched x m = true := by
    show (Alarm.touched r x m || a x m) = true
    rw [h, Bool.true_or]
  have guardedReset {x : Moment} {m : Machine} (h : Alarm.reset r x m = true) :
      untilReset x m = true := by
    show (Alarm.reset r x m || a x m) = true
    rw [h, Bool.true_or]
  refine ⟨fun control cold below => ⟨fun same => ?_, fun different => ?_, fun b inexact => ?_⟩,
    fun m' k hr' about hk ok => Knob.turn_pinned hr' hk (.inr ⟨about, ok⟩),
    fun pinned => ⟨?_, fun b claims => ?_⟩⟩
  · have stands := Law.session_stands (cold_upheld guarded) host fuel script
      ⟨rfl, control, hr, cold⟩
    change (_ ∧ (promotionLaw _ _ _ _ _).holds (finalState (result (untouched.or (.hot r))))) ∨
      (promotionLaw _ _ _ _ _).past (finalState (result (untouched.or (.hot r)))) at stands
    rw [same] at stands
    obtain ⟨-, -, -, -, cold⟩ | past := stands
    · exact ⟨cold.tier, cold.count⟩
    · exact absurd below (Nat.not_lt_of_le past)
  · obtain ⟨same, -⟩ | promoted | past := Law.session_stands (done_upheld guarded) host fuel
      script ⟨rfl, control, hr, cold⟩
    · exact absurd same different
    · exact ⟨promoted.tier, promoted.count⟩
    · exact absurd below (Nat.not_lt_of_le past)
  · obtain ⟨same, -⟩ | past := Law.session_stands (exact_upheld guarded inexact) host fuel
      script ⟨rfl, control, hr, .inl cold⟩
    · exact same
    · exact absurd below (Nat.not_lt_of_le past)
  · obtain ⟨-, -, -, still⟩ | past := Law.session_stands
      (pinned_upheld (b := .never) guardedReset fun _ _ h => by cases h) host fuel script
      ⟨rfl, hr, pinned⟩
    · exact still
    · exact past.elim
  · obtain ⟨same, -⟩ | past := Law.session_stands (pinned_upheld guardedReset claims) host fuel
      script ⟨rfl, hr, pinned⟩
    · exact same
    · exact past.elim

/-- A module is run twice, and reaches the threshold with the second run; or it is pinned
    before. -/
theorem promotion_exact_of_two_runs :
    let script := Script.run 0 fun _ => .run 0 fun _ => .done .none
    let m := Machine.small { hotnessThreshold := 2 }
    let untouched := (Alarm.touched 0).or .never
    let last := (finalState (session .idle untouched 9 script m)).profile 0
    let pinned := (m.setLevel 0 (-1)).2
    let untilReset := (Alarm.reset 0).or .never
    (0 < m.units.size ∧ m.control = .whenHot ∧ (m.profile 0).Cold m.config 0 ∧
      last.heat m.config.backedgeWeight = 2 ∧
      session .idle (untouched.or (.hot 0)) 9 script m ≠ session .idle untouched 9 script m) ∧
    ((last.tier = .native ∨ last.tier = .permanentlyInterpreted) ∧ last.compileCount = 1) ∧
    (pinned.profile 0).state.manual = true ∧
      ((finalState (session .idle untilReset 9 script pinned)).profile 0).state.manual = true := by
  intro script m untouched last pinned untilReset
  have present : 0 < m.units.size := by decide
  have cold : (m.profile 0).Cold m.config 0 := ⟨rfl, rfl, rfl, rfl⟩
  have heat : last.heat m.config.backedgeWeight = 2 := by decide +kernel
  have stopped : session .idle (untouched.or (.hot 0)) 9 script m ≠
      session .idle untouched 9 script m := by
    intro same
    have calls : (((finalState (session .idle (untouched.or (.hot 0)) 9 script m)).profile
        0).calls, last.calls) = (1, 2) := by decide +kernel
    rw [same] at calls
    exact absurd calls (by decide +kernel)
  have promised := promotion_exact .idle 9 script .never present
  have promisedPinned := promotion_exact .idle 9 script .never (m := pinned) (r := 0) (by decide +kernel)
  exact ⟨⟨present, rfl, cold, heat, stopped⟩,
    (promised.1 rfl cold (by rw [heat]; decide)).2.1 stopped,
    by decide +kernel, (promisedPinned.2.2 (by decide +kernel)).1⟩

end TieredMachine
