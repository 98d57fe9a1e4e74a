/-
  Runs and activations.

  The statistics tell runs of frames in either tier, and the units count their activations.
  An activation that begins is one run.  A generator that goes on is no run in the
  interpreter, but is one in native code.  So the runs are the activations until a
  generator goes on in native code, and more than the activations from then on.

  * `Machine.runs`: the runs that the statistics tell;
  * `Alarm.goesOnNatively`: the moments at which a generator goes on in native code;
  * `session_runs`: **runs are activations exactly as long as no such moment comes**;
  * `session_runs_twice`: a session in which one activation is told as two runs.
-/
import TieredMachine.Proofs.Statistics.Ledger

namespace TieredMachine

/-- The runs of frames that the statistics tell. -/
def Machine.runs (m : Machine) : Nat := m.stats.interpretedRuns + m.stats.nativeRuns

/-- The activations that the units have counted. -/
def Machine.calls (m : Machine) : Nat := m.total (·.calls)

/-- The alarm that goes off when a generator goes on in native code. -/
def Alarm.goesOnNatively : Alarm
  | .run entry f, m => !entry.isCall && !m.tracing && (m.profile f.code.id).usesNative
  | _, _ => false

namespace Machine

variable {m m' : Machine} {unit : Ref}

/-! ## Steps that are no runs -/

theorem calls_congr (size : m'.units.size = m.units.size)
    (profile : ∀ r, m'.profile r = m.profile r) : m'.calls = m.calls :=
  total_congr _ size profile

/-- A change of a unit that counts nothing. -/
theorem calls_mapProfile (unit : Ref) {f : Profile → Profile} (hf : ∀ p, (f p).calls = p.calls) :
    (m.mapProfile unit f).calls = m.calls :=
  (Moved.mapProfile m unit f).total_same _ fun hu => by
    rw [profile_mapProfile, if_pos ⟨rfl, hu⟩, hf]

theorem calls_bail (unit : Ref) (reason : BailReason) : (m.bail unit reason).calls = m.calls :=
  (Moved.bail m unit reason).total_same _ fun hu => by
    rw [profile_bail reason hu]
    rfl

theorem runs_bail (unit : Ref) (reason : BailReason) : (m.bail unit reason).runs = m.runs := by
  rw [bail_eq]
  split <;> rfl

theorem calls_compile (unit : Ref) (level : OptLevel) (manual : Bool) (globals : Option Ref) :
    (m.compile unit level manual globals).2.calls = m.calls := by
  obtain ⟨e, -, same⟩ | ⟨result, -, -, claimed⟩ := compile_cases m unit level manual globals
  · rw [same]
  · refine claimed.moved.total_same _ fun hu => ?_
    rw [claimed.profile hu]
    exact (((m.profile unit).uncounted_claim manual).trans (Profile.uncounted_settle _ _ _)).calls

theorem runs_settle (level : OptLevel) (result : Except CompileError (Graph × NativeFunction)) :
    (m.settle unit level result).runs = m.runs := by
  cases result <;> rfl

theorem runs_compile (unit : Ref) (level : OptLevel) (manual : Bool) (globals : Option Ref) :
    (m.compile unit level manual globals).2.runs = m.runs := by
  unfold compile
  dsimp only
  split
  · rfl
  · split
    · rfl
    · exact runs_settle (m := (((m.mapProfile unit (·.beginCompile manual)).record
        .compileStart).record .lowerStart).record .lowerEnd) level _

theorem runs_turn (k : Knob) : (k.turn m).2.runs = m.runs := by
  cases k with
  | setLevel unit n =>
    show (m.setLevel unit n).2.runs = m.runs
    unfold Machine.setLevel
    split
    · rfl
    · rfl
    · exact runs_compile unit _ true _
  | setUseNative unit on =>
    have compiled := runs_compile (m := m) unit (m.wantedLevel unit) true (some m.globals)
    show (m.setUseNative unit on).2.runs = m.runs
    unfold Machine.setUseNative
    split
    · dsimp only
      split
      · rename_i answer
        rw [answer] at compiled
        exact compiled
      · rename_i answer
        rw [answer] at compiled
        exact compiled
    · rfl
  | resetTier | setControl | setTracing | setBailError | requestBail => rfl

theorem calls_turn {k : Knob} (kept : ∀ unit, k ≠ .resetTier unit) :
    (k.turn m).2.calls = m.calls := by
  cases k with
  | setLevel unit n =>
    show (m.setLevel unit n).2.calls = m.calls
    unfold Machine.setLevel
    split
    · rfl
    · have set := calls_mapProfile (m := m) (f := (·.setManualLevel .unoptimized)) unit
        fun _ => rfl
      exact (calls_congr rfl fun _ => rfl).trans set
    · exact calls_compile unit _ true _
  | setUseNative unit on =>
    have compiled := calls_compile (m := m) unit (m.wantedLevel unit) true (some m.globals)
    show (m.setUseNative unit on).2.calls = m.calls
    unfold Machine.setUseNative
    split
    · dsimp only
      split
      · rename_i n m' answer
        rw [answer] at compiled
        exact (calls_mapProfile (m := m') (f := (·.setUseNative on)) unit fun _ => rfl).trans
          compiled
      · rename_i answer
        rw [answer] at compiled
        exact compiled
    · exact calls_mapProfile unit fun _ => rfl
  | resetTier unit => exact absurd rfl (kept unit)
  | setControl | setTracing | setBailError | requestBail => rfl

/-! ## Runs that begin -/

theorem runs_entered (entry : Entry) (f : Frame) : (Law.entered entry f m).runs = m.runs := by
  unfold Law.entered
  split
  · unfold activate promote
    split
    · exact runs_compile (m := (m.record .callStartEval).mapProfile f.code.id (·.recordEntry))
        f.code.id _ false _
    · rfl
  · rfl

/-- What is counted of a unit that is in the engine. -/
theorem calls_entered (entry : Entry) (f : Frame) : (Law.entered entry f m).calls =
    m.calls + if entry.isCall ∧ f.code.id < m.units.size then 1 else 0 := by
  unfold Law.entered
  by_cases call : entry.isCall
  · have promoted : (m.activate f.code.id f.globals).calls =
        ((m.record .callStartEval).mapProfile f.code.id (·.recordEntry)).calls := by
      unfold activate promote
      split
      · exact calls_compile _ _ false _
      · rfl
    rw [if_pos call, promoted]
    by_cases hu : f.code.id < m.units.size
    · rw [if_pos ⟨call, hu⟩]
      exact congrFun (account_count hu) .calls
    · rw [if_neg (hu ·.2)]
      have started : m.Moved (m.record .callStartEval) f.code.id := .ofSame (.of rfl rfl rfl rfl)
      exact (started.trans (.mapProfile _ _ _)).total_outside _
        (Nat.le_of_not_lt hu)
  · rw [if_neg call, if_neg (call ·.1)]
    rfl

theorem calls_begun (entry : Entry) (f : Frame) : (m.begun entry f).calls =
    m.calls + if entry.isCall ∧ f.code.id < m.units.size then 1 else 0 := by
  have evaluated (m : Machine) : (m.beginEval entry).calls = m.calls :=
    calls_congr (sameTiers_beginEval entry m).size (sameTiers_beginEval entry m).profile
  have native (m : Machine) : (m.beginNative entry).calls = m.calls :=
    calls_congr (sameTiers_beginNative entry m).size (sameTiers_beginNative entry m).profile
  rw [← calls_entered]
  unfold begun
  dsimp only
  split
  · exact evaluated _
  · split
    · exact (evaluated _).trans (calls_bail _ _)
    · exact native _

theorem runs_beginEval (entry : Entry) (m : Machine) :
    (m.beginEval entry).runs = m.runs + if entry.isCall then 1 else 0 := by
  unfold beginEval
  split
  · exact Nat.add_right_comm _ _ _
  · rfl

theorem runs_beginNative (entry : Entry) (m : Machine) :
    (m.beginNative entry).runs = m.runs + 1 := by
  unfold beginNative
  split <;> rfl

/-- A run that begins is told, except one of a generator that goes on in the
    interpreter. -/
theorem runs_begun (entry : Entry) (f : Frame) : (m.begun entry f).runs =
    m.runs + if entry.isCall ∨ Alarm.goesOnNatively (.run entry f) m then 1 else 0 := by
  by_cases call : entry.isCall
  · have entered := runs_entered (m := m) entry f
    rw [if_pos (.inl call)]
    unfold begun
    generalize Law.entered entry f m = m₁ at entered
    dsimp only
    rw [← entered]
    split
    · rw [runs_beginEval, if_pos call]
    · split
      · rw [runs_beginEval, if_pos call, runs_bail]
      · exact runs_beginNative entry _
  · have entered : Law.entered entry f m = m := if_neg call
    unfold begun
    rw [entered]
    dsimp only
    cases hn : (m.profile f.code.id).runnable? with
    | none =>
      dsimp only
      rw [runs_beginEval, if_neg call, if_neg]
      simp [call, Alarm.goesOnNatively, Profile.usesNative, hn]
    | some n =>
      dsimp only
      cases tracing : m.tracing with
      | true =>
        rw [if_pos rfl, runs_beginEval, if_neg call, runs_bail, if_neg]
        simp [call, Alarm.goesOnNatively, tracing]
      | false =>
        rw [if_neg Bool.false_ne_true, runs_beginNative, if_pos]
        simp [call, Alarm.goesOnNatively, tracing, Profile.usesNative, hn]

/-- A run that begins is told at least as often as it is counted. -/
theorem le_begun (entry : Entry) (f : Frame) :
    (m.begun entry f).calls + m.runs ≤ (m.begun entry f).runs + m.calls := by
  rw [runs_begun, calls_begun]
  by_cases call : entry.isCall
  · rw [if_pos (Or.inl call)]
    split <;> omega
  · rw [if_neg fun called => call called.1]
    omega

/-- A generator that goes on in native code is told and not counted. -/
theorem begun_of_goesOn {entry : Entry} {f : Frame}
    (goesOn : Alarm.goesOnNatively (.run entry f) m = true) :
    (m.begun entry f).runs = m.runs + 1 ∧ (m.begun entry f).calls = m.calls := by
  refine ⟨by rw [runs_begun, if_pos (.inr goesOn)], ?_⟩
  rw [calls_begun, if_neg]
  · rfl
  · intro called
    simp [Alarm.goesOnNatively, called.1] at goesOn

/-- Any other run that begins is told as often as it is counted. -/
theorem begun_of_stays {entry : Entry} {f : Frame} (h : m.runs = m.calls)
    (hu : f.code.id < m.units.size) (stays : Alarm.goesOnNatively (.run entry f) m = false) :
    (m.begun entry f).runs = (m.begun entry f).calls := by
  rw [runs_begun, calls_begun, h]
  simp only [stays, hu, Bool.false_eq_true, or_false, and_true]

end Machine

/-! ## Sessions -/

/-- The law that the runs are the activations, until there are more runs, if there may be
    more at all. -/
def runsLaw (config : Configuration) (mayExceed : Prop) : Law where
  config := config
  holds m := m.config = config ∧ m.runs = m.calls
  past m := mayExceed ∧ m.calls < m.runs
  kept m m' := m.runs + m'.calls ≤ m'.runs + m.calls
  kept_refl _ := Nat.le_refl _
  kept_trans h h' := by omega
  past_of_kept h past := ⟨past.1, by have := past.2; omega⟩

variable {config : Configuration} {mayExceed : Prop}

theorem runsLaw_bears {m m' : Machine} (same : m'.config = m.config) (runs : m'.runs = m.runs)
    (calls : m'.calls = m.calls) : (runsLaw config mayExceed).Bears m m' :=
  .of ⟨by show m.runs + m'.calls ≤ m'.runs + m.calls; omega,
    fun h => ⟨same.trans h.1, by rw [runs, calls]; exact h.2⟩⟩

instance : (runsLaw config mayExceed).Heapless where
  heap _ _ := runsLaw_bears rfl rfl (Machine.calls_congr rfl fun _ => rfl)

instance : (runsLaw config mayExceed).Running where
  configured h := h.1
  aside {m m'} h := by
    have runs : m'.runs = m.runs :=
      congrArg (fun s : Statistics => s.interpretedRuns + s.nativeRuns) h.stats
    have calls : m'.calls = m.calls := Machine.calls_congr h.tiers.size h.tiers.profile
    refine ⟨?_, fun holds => ⟨h.tiers.config.trans holds.1, by rw [runs, calls]; exact holds.2⟩⟩
    show m.runs + m'.calls ≤ m'.runs + m.calls
    omega
  mark _ _ _ := runsLaw_bears rfl rfl (Machine.calls_congr rfl fun _ => rfl)
  addEntry _ _ _ := Law.Heapless.heap _ _
  newGenerator _ _ _ := Law.Heapless.heap _ _

/-- Whatever happens at regular moments, the runs are the activations, until a generator
    goes on in native code. -/
theorem runsLaw_carried (config : Configuration) (mayExceed : Prop) {a b : Alarm}
    (regular : ∀ x m, x.isRegular m = false → b x m = true)
    (le : ∀ {x m}, b x m = true → a x m = true)
    (stop : ∀ {x m}, Alarm.goesOnNatively x m = true → a x m = true)
    (ahead : ∀ {x m}, a x m = true → b x m = false →
      mayExceed ∧ Alarm.goesOnNatively x m = true) :
    (runsLaw config mayExceed).Carried a b := by
  have isRegular {x : Moment} {m : Machine} (silent : b x m = false) : x.isRegular m := by
    cases h : x.isRegular m with
    | true => rfl
    | false => rw [regular x m h] at silent; cases silent
  have silent {x : Moment} {m : Machine} (h : a x m = false) : b x m = false := by
    cases hb : b x m with
    | true => rw [le hb] at h; cases h
    | false => rfl
  have backedge (m : Machine) (unit : Ref) (weight : UInt64) :
      (runsLaw config mayExceed).Bears m (m.mapProfile unit (·.recordBackedge weight)) :=
    runsLaw_bears rfl rfl (Machine.calls_mapProfile unit fun _ => rfl)
  have bail (m : Machine) (unit : Ref) (reason : BailReason) :
      (runsLaw config mayExceed).Bears m (m.bail unit reason) :=
    runsLaw_bears (Machine.Moved.bail m unit reason).config (m.runs_bail unit reason)
      (m.calls_bail unit reason)
  have turn {x : Moment} {m : Machine} {k : Knob} (turned : x.turned? m = some k)
      (h : b x m = false) : (runsLaw config mayExceed).Bears m (k.turn m).2 :=
    runsLaw_bears (k.config_turn m) (Machine.runs_turn k) (Machine.calls_turn fun unit reset =>
      Moment.kept_of_isRegular (isRegular h) unit (reset ▸ turned))
  exact {
    endures := {
      backedge := fun m unit weight => (backedge m unit weight).kept
      begun := fun m entry f => by
        show m.runs + (m.begun entry f).calls ≤ (m.begun entry f).runs + m.calls
        have told := m.le_begun entry f
        omega
      bail := fun m unit reason => (bail m unit reason).kept
      turn := fun turned h => (turn turned h).kept }
    le := le
    ahead := fun {x m} ⟨same, h⟩ ha hb => by
      obtain ⟨may, goesOn⟩ := ahead ha hb
      cases x with
      | run entry f =>
        obtain ⟨runs, calls⟩ := Machine.begun_of_goesOn goesOn
        refine ⟨entry, f, rfl, ?_⟩
        show mayExceed ∧ (m.begun entry f).calls < (m.begun entry f).runs
        exact ⟨may, by omega⟩
      | _ => cases goesOn
    backedge := fun unit h => (backedge _ unit _).stands h
    begun := fun {m entry f} ⟨same, h⟩ ha => by
      have size := Moment.size_of_isRegular (isRegular (silent ha))
      have stays : Alarm.goesOnNatively (.run entry f) m = false := by
        by_contra goesOn
        rw [stop (Bool.not_eq_false _ ▸ goesOn)] at ha
        cases ha
      exact .inl ⟨(Machine.Moved.begun m entry f).config.trans same,
        Machine.begun_of_stays h size stays⟩
    bail := fun reason _ _ _ h => (bail _ _ reason).stands h
    turn := fun turned h ha => (turn turned (silent ha)).stands h }

/-- **Runs are activations until a generator goes on in native code.**  A session begins
    with as many runs as activations, and is watched by an alarm that goes off before a unit
    is brought back to its first state.

    * Up to the first moment at which a generator goes on in native code, the runs that the
      statistics tell are the activations that the units have counted.
    * There are never fewer.
    * There are as many in the end exactly when no such moment came. -/
theorem session_runs (host : Host) (fuel : Nat) (script : Script) {m : Machine} {a : Alarm}
    (hm : m.runs = m.calls) (ha : ∀ x m', x.isRegular m' = false → a x m' = true) :
    let m' := finalState (session host a fuel script m)
    let watched := session host (a.or .goesOnNatively) fuel script m
    (finalState watched).runs = (finalState watched).calls ∧ m'.calls ≤ m'.runs ∧
      (m'.runs = m'.calls ↔ watched = session host a fuel script m) := by
  intro m' watched
  have le {x : Moment} {m : Machine} (h : a x m = true) : (a.or .goesOnNatively) x m = true := by
    simp [Alarm.or, h]
  have stop {x : Moment} {m : Machine} (h : Alarm.goesOnNatively x m = true) :
      (a.or .goesOnNatively) x m = true := by
    simp [Alarm.or, h]
  have same : (finalState watched).runs = (finalState watched).calls := by
    obtain ⟨-, -, same⟩ | past := Law.session_carried
      (runsLaw_carried m.config False (fun x m' h => le (ha x m' h))
        id stop fun on off => by rw [on] at off; cases off) host fuel script ⟨rfl, hm⟩
    · exact same
    · exact past.1.elim
  obtain ⟨eq, -, ended⟩ | past := Law.session_carried
    (runsLaw_carried m.config True ha le stop
      fun {x m'} on off => ⟨trivial, by simpa [Alarm.or, off] using on⟩) host fuel script ⟨rfl, hm⟩
  · exact ⟨same, ended.ge, fun _ => eq, fun _ => ended⟩
  · have more : m'.calls < m'.runs := past.2
    refine ⟨same, more.le, fun h => absurd h more.ne', fun eq => ?_⟩
    have ended : m'.runs = m'.calls := by
      show (finalState (session host a fuel script m)).runs =
        (finalState (session host a fuel script m)).calls
      rw [← eq]
      exact same
    exact absurd ended more.ne'

/-- A generator that only the interpreter runs: one activation, and one run. -/
theorem session_runs_of_interpreted :
    let m := Machine.generating {}
    let script := Script.call (.function 0) [] [] fun _ => .resume 0 (.send .none) fun _ =>
      .resume 0 (.send .none) fun _ => .done .none
    let m' := finalState (session .idle .irregular 9 script m)
    m.runs = m.calls ∧ (∀ x m', x.isRegular m' = false → Alarm.irregular x m' = true) ∧
    m'.runs = 1 ∧ m'.calls ≤ m'.runs ∧
    session .idle (.or .irregular .goesOnNatively) 9 script m =
      session .idle .irregular 9 script m := by
  intro m script m'
  have counted : m.runs = m.calls := by decide +kernel
  have alarm (x : Moment) (m' : Machine) (h : x.isRegular m' = false) :
      Alarm.irregular x m' = true := by
    rw [Alarm.irregular, h]
    rfl
  obtain ⟨-, le, same⟩ := session_runs .idle 9 script counted alarm
  exact ⟨counted, alarm, by decide +kernel, le, same.mp (by decide +kernel)⟩

/-- Of two generators one is resumed once by the interpreter, and the other twice in native
    code.  Two activations are told as three runs, and the second one as two of them. -/
theorem session_runs_twice :
    let m := Machine.generating {}
    let script := Script.call (.function 0) [] [] fun _ => .resume 0 (.send .none) fun _ =>
      .turn (.setLevel 0 2) fun _ => .call (.function 0) [] [] fun _ =>
      .resume 1 (.send .none) fun _ => .resume 1 (.send .none) fun _ => .done .none
    let m' := finalState (session .idle .irregular 9 script m)
    m.runs = m.calls ∧ m'.calls = 2 ∧ m'.stats.interpretedRuns = 1 ∧ m'.stats.nativeRuns = 2 := by
  decide +kernel

end TieredMachine
