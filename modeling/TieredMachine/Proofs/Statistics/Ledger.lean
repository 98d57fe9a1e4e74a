/-
  Records and statistics agree.

  Whatever an engine does, its record of events is a row of passages, and its account is
  what these add up to, as long as no unit is brought back to its first state.  So at every
  moment of a session the books of the units, the statistics and the events agree, and
  every event that opens an interval is paired with the one that closes it.

  * `Moment.isRegular`: moments that are about units of the engine, and reset none;
  * `Machine.Accounted`: machines whose record and account are those of a row of passages;
  * `session_booked`: **the books of a session agree**.
-/
import TieredMachine.Proofs.Host.Session
import TieredMachine.Proofs.Statistics.Passage

namespace TieredMachine

/-- Whether what happens at a moment is about units that the engine has, and brings none
    back to its first state. -/
def Moment.isRegular (x : Moment) (m : Machine) : Bool :=
  (match x with
    | run _ f => decide (f.code.id < m.units.size)
    | _ => true) &&
  match x.turned? m with
  | some (.resetTier _) => false
  | some k => k.unit?.all (· < m.units.size)
  | none => true

/-- The alarm that goes off at every other moment. -/
def Alarm.irregular : Alarm := fun x m => !x.isRegular m

namespace Moment

variable {x : Moment} {m : Machine}

theorem size_of_isRegular {entry : Entry} {f : Frame} (h : (run entry f).isRegular m) :
    f.code.id < m.units.size :=
  of_decide_eq_true ((Bool.and_eq_true _ _).mp h).1

theorem kept_of_isRegular (h : x.isRegular m) (unit : Ref) :
    x.turned? m ≠ some (.resetTier unit) := fun turned => by
  have known := ((Bool.and_eq_true _ _).mp h).2
  rw [turned] at known
  cases known

theorem known_of_isRegular (h : x.isRegular m) {k : Knob} {unit : Ref}
    (turned : x.turned? m = some k) (about : k.unit? = some unit) : unit < m.units.size := by
  have known := ((Bool.and_eq_true _ _).mp h).2
  rw [turned] at known
  cases k with
  | resetTier => cases known
  | _ =>
    simp only [about, Option.all_some, decide_eq_true_eq] at known
    exact known

end Moment

/-! ## What stays the same -/

namespace Machine

theorem Moved.begun (m : Machine) (entry : Entry) (f : Frame) :
    m.Moved (m.begun entry f) f.code.id := by
  have entered : m.Moved (Law.entered entry f m) f.code.id := by
    unfold Law.entered
    split
    · exact .activate f.globals
    · exact .refl m _
  refine entered.trans ?_
  unfold Machine.begun
  dsimp only
  split
  · exact .ofSame (sameTiers_beginEval entry _)
  · split
    · exact (Moved.bail _ _ _).trans (.ofSame (sameTiers_beginEval entry _))
    · exact .ofSame (sameTiers_beginNative entry _)

/-- Turning a knob adds no unit and takes none away. -/
theorem size_turn (m : Machine) (k : Knob) : (k.turn m).2.units.size = m.units.size := by
  cases about : k.unit? with
  | some unit => exact (k.turn_moved m about).size
  | none =>
    cases k with
    | setLevel | setUseNative | resetTier => cases about
    | setControl | setTracing | setBailError | requestBail => rfl

end Machine

/-! ## Accounted machines -/

/-- The record and the account of the machine are those of a row of passages. -/
structure Machine.Accounted (m : Machine) (ps : List Passage) : Prop where
  account : m.account = Passage.accounts ps
  timer : m.timer.Holds (ps.flatMap Passage.marks)

/-- An activation was counted after a row of passages, and is not entered yet. -/
structure Machine.Calling (m : Machine) (ps : List Passage) (start : Nat)
    (compiled : Option CompileTicks) (bailed : Option BailTicks) : Prop where
  account : m.account = Passage.accounts ps + (Machine.called +
    compiled.elim 0 (fun _ => Machine.compilation) +
      bailed.elim 0 (fun _ => Machine.bailed false))
  timer : m.timer.Holds (ps.flatMap Passage.marks ++
    ((.callStartEval, start) :: compiled.elim [] CompileTicks.marks ++
      bailed.elim [] BailTicks.marks))

namespace Machine

variable {m m' : Machine} {ps : List Passage} {unit : Ref}

theorem Accounted.same (h : m.Accounted ps) (account : m'.account = m.account)
    (timer : m'.timer = m.timer) : m'.Accounted ps :=
  ⟨account.trans h.account, timer ▸ h.timer⟩

/-- A passage is added to the record and to the account. -/
theorem Accounted.add (h : m.Accounted ps) (p : Passage) (account : m'.account = m.account + p.account)
    (timer : m'.timer.Holds (ps.flatMap Passage.marks ++ p.marks)) : m'.Accounted (ps ++ [p]) := by
  refine ⟨?_, ?_⟩
  · rw [account, h.account, Passage.accounts_concat]
  · rw [List.flatMap_append, List.flatMap_cons, List.flatMap_nil, List.append_nil]
    exact timer

theorem Accounted.mark (h : m.Accounted ps) {kind : EventKind} (isMark : kind.isMark) :
    ∃ ps, (m.record kind).Accounted ps :=
  ⟨_, h.add (.mark kind isMark m.timer.clock) (add_zero _).symm (h.timer.record kind)⟩

theorem Accounted.bail (h : m.Accounted ps) (hu : unit < m.units.size) (reason : BailReason) :
    ∃ ps, (m.bail unit reason).Accounted ps := by
  obtain ⟨account, timer⟩ := account_bail reason hu
  obtain ⟨b, recorded⟩ := h.timer.bail
  exact ⟨_, h.add (.bail reason.isFatal b) account (timer ▸ recorded)⟩

theorem Accounted.compile (h : m.Accounted ps) (hu : unit < m.units.size) (level : OptLevel)
    (manual : Bool) (globals : Option Ref) :
    ∃ ps, (m.compile unit level manual globals).2.Accounted ps := by
  obtain same | ⟨account, timer⟩ := account_compile unit level manual globals hu
  · rw [same]
    exact ⟨ps, h⟩
  · obtain ⟨c, recorded⟩ := h.timer.compile
    exact ⟨_, h.add (.compile c) account (timer ▸ recorded)⟩

/-! ### Activations -/

theorem Accounted.count (h : m.Accounted ps) (hu : unit < m.units.size) :
    ((m.record .callStartEval).mapProfile unit (·.recordEntry)).Calling ps m.timer.clock none
      none := by
  refine ⟨?_, h.timer.record .callStartEval⟩
  rw [account_count hu, h.account]
  rfl

/-- The unit of an activation may be compiled. -/
theorem Calling.promote {start : Nat} (h : m.Calling ps start none none)
    (hu : unit < m.units.size) (globals : Ref) :
    ∃ compiled, (m.promote unit globals).Calling ps start compiled none := by
  unfold Machine.promote
  split
  · obtain same | ⟨account, timer⟩ :=
      account_compile unit m.config.automaticLevel false (some globals) hu
    · rw [same]
      exact ⟨none, h⟩
    · obtain ⟨c, recorded⟩ := h.timer.compile
      refine ⟨some c, ?_, ?_⟩
      · rw [account, h.account]
        simp only [Option.elim, add_zero, add_assoc]
      · rw [timer]
        simpa using recorded
  · exact ⟨none, h⟩

/-- Its native code may be given up for this time. -/
theorem Calling.bail {start : Nat} {compiled : Option CompileTicks}
    (h : m.Calling ps start compiled none) (hu : unit < m.units.size) :
    ∃ bailed, (m.bail unit .traceOnEntry).Calling ps start compiled bailed := by
  obtain ⟨account, timer⟩ := account_bail .traceOnEntry hu
  obtain ⟨b, recorded⟩ := h.timer.bail
  refine ⟨some b, ?_, ?_⟩
  · rw [account, h.account]
    simp only [Option.elim, add_zero, add_assoc]
    rfl
  · rw [timer]
    simpa using recorded

/-- It is entered. -/
theorem Calling.enter {start : Nat} {compiled : Option CompileTicks} {bailed : Option BailTicks}
    (h : m.Calling ps start compiled bailed) (native : Bool)
    (account : m'.account = m.account + if native then 0 else interpreted)
    (timer : m'.timer = m.timer.record (.entered native)) : ∃ ps, m'.Accounted ps := by
  refine ⟨ps ++ [.call start compiled bailed native m.timer.clock], ?_, ?_⟩
  · rw [account, h.account, Passage.accounts_concat, add_assoc]
    rfl
  · rw [timer]
    have recorded := h.timer.record (.entered native)
    simpa [Passage.marks] using recorded

/-- The beginning of a run of a frame adds to the record and to the account. -/
theorem Accounted.begun (h : m.Accounted ps) {f : Frame} (hu : f.code.id < m.units.size)
    (entry : Entry) : ∃ ps, (m.begun entry f).Accounted ps := by
  by_cases call : entry.isCall
  · -- an activation
    have entered : Law.entered entry f m = m.activate f.code.id f.globals := if_pos call
    have moved : m.Moved (m.activate f.code.id f.globals) f.code.id := .activate f.globals
    have evaluated (m : Machine) : m.beginEval entry = (m.record .callEnterEval).mapStats
        fun s => { s with interpretedRuns := s.interpretedRuns + 1 } := if_pos call
    have native (m : Machine) : m.beginNative entry = (m.record .callEnterNative).mapStats
        fun s => { s with nativeRuns := s.nativeRuns + 1 } := by
      unfold Machine.beginNative
      rw [if_pos call]
    obtain ⟨compiled, calling⟩ := (h.count hu).promote
      (by rw [size_mapProfile]; exact hu) f.globals
    have calling : (m.activate f.code.id f.globals).Calling ps m.timer.clock compiled none := calling
    have interpreted {m' : Machine} {bailed} (h : m'.Calling ps m.timer.clock compiled bailed) :
        ∃ ps, (m'.beginEval entry).Accounted ps := by
      rw [evaluated]
      refine h.enter false ?_ rfl
      rw [account_interpret, account_record]
      rfl
    unfold Machine.begun
    rw [entered]
    dsimp only
    split
    · exact interpreted calling
    · split
      · obtain ⟨bailed, calling⟩ := calling.bail (moved.size ▸ hu)
        exact interpreted calling
      · rw [native]
        refine calling.enter true ?_ rfl
        rw [account_native, account_record, if_pos rfl, add_zero]
  · -- a generator goes on
    have entered : Law.entered entry f m = m := if_neg call
    have evaluated (m : Machine) : m.beginEval entry = m := if_neg call
    have native : m.beginNative entry = m.mapStats
        fun s => { s with nativeRuns := s.nativeRuns + 1 } := by
      unfold Machine.beginNative
      rw [if_neg call]
    unfold Machine.begun
    rw [entered]
    dsimp only
    split
    · rw [evaluated]
      exact ⟨ps, h⟩
    · split
      · rw [evaluated]
        exact h.bail hu .traceOnEntry
      · rw [native]
        exact ⟨ps, h.same (account_native m) rfl⟩

/-- Native code is installed for units of the engine only. -/
theorem size_of_runnable {n : NativeFunction} (h : (m.profile unit).runnable? = some n) :
    unit < m.units.size := by
  by_contra outside
  have none : m.units[unit]? = none := Array.getElem?_eq_none (Nat.le_of_not_lt outside)
  simp [profile, unitState, none, Profile.runnable?, TierState.runnable?] at h

/-! ### Knobs -/

/-- A change of the tier state of a unit that counts nothing. -/
theorem Accounted.mapState (h : m.Accounted ps) (unit : Ref) {f : Profile → Profile}
    (uncounted : ∀ p : Profile, p.Uncounted (f p))
    (compiles : ∀ p : Profile, (f p).compileCount = p.compileCount) :
    (m.mapProfile unit f).Accounted ps := by
  have moved : m.Moved (m.mapProfile unit f) unit := .mapProfile m unit f
  have profile (hu : unit < m.units.size) :
      (m.mapProfile unit f).profile unit = f (m.profile unit) := by
    rw [profile_mapProfile, if_pos ⟨rfl, hu⟩]
  refine h.same (funext fun counter => ?_) rfl
  cases counter with
  | calls => exact moved.total_same _ fun hu => by rw [profile hu]; exact (uncounted _).calls
  | compiles => exact moved.total_same _ fun hu => by rw [profile hu]; exact compiles _
  | bails => exact moved.total_same _ fun hu => by rw [profile hu]; exact (uncounted _).bails
  | fatalBails =>
    exact moved.total_same _ fun hu => by rw [profile hu]; exact (uncounted _).fatalBails
  | attempts | bailed | fatal | interpreted => rfl

theorem Accounted.setUseNative (h : m.Accounted ps) (unit : Ref) (on : Bool) :
    (m.mapProfile unit (·.setUseNative on)).Accounted ps :=
  h.mapState unit (fun _ => ⟨rfl, rfl, rfl⟩) fun _ => rfl

/-- A knob that resets no unit adds to the record and to the account. -/
theorem Accounted.turn (h : m.Accounted ps) {k : Knob} (kept : ∀ unit, k ≠ .resetTier unit)
    (known : ∀ unit, k.unit? = some unit → unit < m.units.size) :
    ∃ ps, (k.turn m).2.Accounted ps := by
  cases k with
  | setLevel unit n =>
    have hu := known unit rfl
    show ∃ ps, (m.setLevel unit n).2.Accounted ps
    unfold Machine.setLevel
    split
    · exact ⟨ps, h⟩
    · have set := h.mapState unit (f := (·.setManualLevel .unoptimized))
        (fun _ => ⟨rfl, rfl, rfl⟩) fun _ => rfl
      exact ⟨ps, set.same (account_congr rfl (fun _ => rfl) rfl) rfl⟩
    · exact h.compile hu _ true _
  | setUseNative unit on =>
    have hu := known unit rfl
    show ∃ ps, (m.setUseNative unit on).2.Accounted ps
    unfold Machine.setUseNative
    split
    · obtain ⟨ps, compiled⟩ := h.compile hu (m.wantedLevel unit) true (some m.globals)
      dsimp only
      split
      · rename_i n m' answer
        rw [answer] at compiled
        exact ⟨ps, compiled.setUseNative unit on⟩
      · rename_i e m' answer
        rw [answer] at compiled
        exact ⟨ps, compiled⟩
    · exact ⟨ps, h.setUseNative unit on⟩
  | resetTier unit => exact absurd rfl (kept unit)
  | setControl | setTracing | setBailError | requestBail =>
    exact ⟨ps, h.same (account_congr rfl (fun _ => rfl) rfl) rfl⟩

end Machine

/-! ## Sessions -/

/-- The law that the record and the account are those of a row of passages. -/
def ledgerLaw (config : Configuration) : Law where
  config := config
  holds m := m.config = config ∧ ∃ ps, m.Accounted ps
  past _ := False
  kept m m' := m'.units.size = m.units.size
  kept_refl _ := rfl
  kept_trans h h' := h'.trans h
  past_of_kept _ h := h

variable {config : Configuration}

instance : (ledgerLaw config).Heapless where
  heap _ _ := .of ⟨rfl, fun ⟨same, ps, h⟩ =>
    ⟨same, ps, h.same (Machine.account_congr rfl (fun _ => rfl) rfl) rfl⟩⟩

instance : (ledgerLaw config).Running where
  configured h := h.1
  aside h := ⟨h.tiers.size, fun ⟨same, ps, accounted⟩ => ⟨h.tiers.config.trans same, ps,
    accounted.same (Machine.account_congr h.tiers.size h.tiers.profile h.stats) h.timer⟩⟩
  mark _ _ isMark := .of ⟨rfl, fun ⟨same, _, accounted⟩ => ⟨same, accounted.mark isMark⟩⟩
  addEntry _ _ _ := Law.Heapless.heap _ _
  newGenerator _ _ _ := Law.Heapless.heap _ _

/-- Whatever happens at regular moments, it adds to the record and to the account. -/
theorem ledgerLaw_carried (config : Configuration) {a : Alarm}
    (ha : ∀ {x m}, x.isRegular m = false → a x m = true) :
    (ledgerLaw config).Carried a a := by
  have regular {x : Moment} {m : Machine} (silent : a x m = false) : x.isRegular m := by
    cases h : x.isRegular m with
    | true => rfl
    | false => rw [ha h] at silent; cases silent
  have lasts : (ledgerLaw config).Endures a :=
    ⟨fun _ _ _ => Machine.size_mapProfile .., fun _ _ _ => (Machine.Moved.begun ..).size,
      fun _ _ _ => (Machine.Moved.bail ..).size, fun _ _ => Machine.size_turn _ _⟩
  exact {
    endures := lasts
    le := id
    ahead := fun _ ha hb => by rw [ha] at hb; cases hb
    backedge := fun unit ⟨same, ps, h⟩ => .inl ⟨same, ps,
      h.mapState unit (fun _ => ⟨rfl, rfl, rfl⟩) fun _ => rfl⟩
    begun := fun {m entry f} ⟨same, _, h⟩ silent => .inl
      ⟨(Machine.Moved.begun m entry f).config.trans same,
        h.begun (Moment.size_of_isRegular (regular silent)) entry⟩
    bail := fun {m m' unit n} reason _ hn kept ⟨same, _, h⟩ => .inl
      ⟨(Machine.Moved.bail m' unit reason).config.trans same,
        h.bail (kept.symm ▸ Machine.size_of_runnable hn) reason⟩
    turn := fun {m x k} turned ⟨same, _, h⟩ silent => .inl
      ⟨(k.config_turn m).trans same,
        h.turn (fun unit reset => Moment.kept_of_isRegular (regular silent) unit (reset ▸ turned))
          fun unit about => Moment.known_of_isRegular (regular silent) turned about⟩ }

/-- A machine that has run nothing, and records events. -/
structure Machine.Unrun (m : Machine) : Prop where
  units : ∀ r, m.unitState r = {}
  stats : m.stats = {}
  timer : ∃ capacity, m.timer = .new capacity true

theorem Machine.Unrun.accounted {m : Machine} (h : m.Unrun) : m.Accounted [] := by
  have none (count : Profile → Nat) (zero : count {} = 0) : m.total count = 0 :=
    Finset.sum_eq_zero fun r _ => by rw [profile, h.units, zero]
  refine ⟨funext fun counter => ?_, ?_⟩
  · cases counter with
    | calls | compiles | bails | fatalBails => exact none _ rfl
    | attempts | bailed | fatal | interpreted =>
      simp only [account, h.stats]
      rfl
  · obtain ⟨capacity, timer⟩ := h.timer
    exact timer ▸ .new capacity

/-- **The books of a session agree.**  A session begins with an engine that has run nothing,
    and is watched by an alarm that goes off before a unit is brought back to its first
    state.  Unless its record overflowed, at every moment

    * the compilations claimed by units are those that succeeded or failed, and those that
      there are intervals of compiling and of lowering for;
    * so it is with bails, and with fatal ones;
    * the activations counted by units are those started, and those entered in either tier;
      the interpreter's are those that the statistics know of;
    * the record is a row of passages, and whatever clock stamps it, its intervals are those
      of each passage: each opener is paired with the closer of its own activation,
      compilation or bail. -/
theorem session_booked (host : Host) (fuel : Nat) (script : Script) {m : Machine} {a : Alarm}
    (hm : m.Unrun) (ha : ∀ x m', x.isRegular m' = false → a x m' = true) :
    let m' := finalState (session host a fuel script m)
    let is := intervals m'.timer.events
    let happened (kind : EventKind) := m'.timer.events.countP (·.kind == kind)
    m'.timer.clock ≤ m'.timer.capacity →
    (m'.total (·.compileCount) = m'.stats.compilations + m'.stats.compileFailures ∧
      labelled "compile" is = m'.total (·.compileCount) ∧
      labelled "lower" is = m'.total (·.compileCount)) ∧
    (m'.total (·.bails) = m'.stats.bails.total ∧
      labelled "bail" is = m'.total (·.bails) ∧
      m'.total (·.fatalBails) = m'.stats.bails.get .fatalGuardFail) ∧
    (happened .callStartEval = m'.total (·.calls) ∧
      happened .callEnterEval + happened .callEnterNative = m'.total (·.calls) ∧
      m'.stats.interpretedRuns = happened .callEnterEval) ∧
    (labelled "call_to_eval" is = happened .callEnterEval ∧
      labelled "call_to_native" is = happened .callEnterNative) ∧
    ∃ ps : List Passage, m'.timer.events = eventsOf id 1 (ps.flatMap Passage.marks) ∧
      ∀ clock, Monotone clock → ∀ thread,
        intervals (eventsOf clock thread (ps.flatMap Passage.marks)) =
          ps.flatMap (·.intervals clock) := by
  intro m' is happened whole
  have ended : (∃ ps, m'.Accounted ps) := by
    obtain ⟨-, -, accounted⟩ | past := Law.session_carried
      (ledgerLaw_carried m.config fun h => ha _ _ h) host fuel script
      ⟨rfl, [], hm.accounted⟩
    · exact accounted
    · exact past.elim
  obtain ⟨ps, accounted⟩ := ended
  have events := accounted.timer.events whole
  have paired (clock : Nat → Nat) (h : Monotone clock) (thread : Nat) :
      intervals (eventsOf clock thread (ps.flatMap Passage.marks)) =
        ps.flatMap (·.intervals clock) :=
    intervals_passages h thread accounted.timer.sorted
  have counted (kind : EventKind) : happened kind = marked kind (ps.flatMap Passage.marks) := by
    show m'.timer.events.countP _ = _
    rw [events, countP_eventsOf]
  have intervals : is = ps.flatMap (·.intervals id) := by
    show TieredMachine.intervals m'.timer.events = _
    rw [events, paired id monotone_id 1]
  have booked := Passage.accounts_booked id ps
  rw [← accounted.account, ← intervals] at booked
  simp only [counted]
  exact ⟨⟨booked.attempts.symm, booked.compiles, booked.lowerings⟩,
    ⟨booked.bailed.symm, booked.bails, booked.fatal.symm⟩,
    ⟨booked.calls, booked.entered, booked.interpreted.symm⟩,
    ⟨booked.toEval, booked.toNative⟩, ps, events, paired⟩

/-- A session in which a unit is compiled on request and then run in native code. -/
theorem session_booked_of_compiled :
    let m := Machine.small { recordEvents := true }
    let script := Script.turn (.setLevel 0 2) fun _ => .run 0 fun _ => .done .none
    let m' := finalState (session .idle .irregular 9 script m)
    let is := intervals m'.timer.events
    let happened (kind : EventKind) := m'.timer.events.countP (·.kind == kind)
    m.Unrun ∧ (∀ x m', x.isRegular m' = false → Alarm.irregular x m' = true) ∧
    m'.timer.clock ≤ m'.timer.capacity ∧ happened .callEnterNative = 1 ∧
    (m'.total (·.compileCount) = m'.stats.compilations + m'.stats.compileFailures ∧
      labelled "compile" is = m'.total (·.compileCount) ∧
      labelled "lower" is = m'.total (·.compileCount)) ∧
    (happened .callStartEval = m'.total (·.calls) ∧
      happened .callEnterEval + happened .callEnterNative = m'.total (·.calls) ∧
      m'.stats.interpretedRuns = happened .callEnterEval) := by
  intro m script m' is happened
  have unrun : m.Unrun := ⟨Machine.unitState_small _, rfl, 65536, rfl⟩
  have alarm (x : Moment) (m' : Machine) (h : x.isRegular m' = false) :
      Alarm.irregular x m' = true := by
    rw [Alarm.irregular, h]
    rfl
  have whole : m'.timer.clock ≤ m'.timer.capacity := by decide +kernel
  have booked := session_booked .idle 9 script unrun alarm whole
  exact ⟨unrun, alarm, whole, by decide +kernel, booked.1, booked.2.2.1⟩

end TieredMachine
