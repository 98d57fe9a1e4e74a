/-
  Sends that a generator refuses.

  A send is refused when it fails and nothing of the body is run, so that it fails in the same
  way whatever an engine does with frames.  A generator turns a send away while its body runs,
  and a value other than `None` before the body has begun; and the recursion limit can refuse
  to run the body.  What was turned away leaves the generator as it was.  What the recursion
  limit refuses does not.

  * `Machine.Refuses`, `refuses_iff`: the sends that are refused;
  * `Generator.TurnsAway`: those that the generator itself refuses;
  * `refused_send_keeps_frame`: **what a refused send leaves of a generator**.
-/
import TieredMachine.Proofs.Generator.Life

namespace TieredMachine

/-! ## Refused sends -/

/-- A send fails before anything of the body is run. -/
def Machine.Refuses (m : Machine) (r : Ref) (v : Value) : Prop :=
  ∃ e m', ∀ g : Guest, sendTo g r v m = .error e m'

/-- A generator turns a value away: its body runs, or it was not begun and takes no value but
    `None`. -/
def Generator.TurnsAway (gen : Generator) (v : Value) : Prop :=
  gen.running = true ∨ ∃ f, gen.frame = some f ∧ f.lasti = none ∧ v ≠ .none

/-- An engine on which every frame yields at once. -/
def Guest.yielding : Guest where
  fuel := 0
  call _ _ _ := throw .outOfFuel
  run _ := return .yield_ .none
  poll _ := return none

variable {m : Machine} {r : Ref} {gen : Generator} {f : Frame} {name : String} {v : Value}

theorem Guest.yielding_respects (r : Ref) : Guest.yielding.Respects r :=
  fun _ _ _ known _ => known

/-- A generator that has not ended is running, or holds a frame. -/
theorem Generator.unfinished_cases (h : gen.isFinished = false) :
    gen.running = true ∨ ∃ f, gen = { name := gen.name, frame := some f } := by
  obtain ⟨name, frame, running⟩ := gen
  cases running with
  | true => exact .inl rfl
  | false =>
    cases frame with
    | none => cases h
    | some f => exact .inr ⟨f, rfl⟩

/-- A frame that is held has an entry for every send but those that are turned away. -/
theorem noEntry_iff :
    Resumption.entry? f (.send v) = none ↔ f.lasti = none ∧ v ≠ .none := by
  unfold Resumption.entry?
  cases f.lasti with
  | none => by_cases h : v = .none <;> simp [h]
  | some i => simp

theorem turnsAway_iff : Generator.TurnsAway { name, frame := some f } v ↔
    Resumption.entry? f (.send v) = none := by
  unfold Generator.TurnsAway
  rw [noEntry_iff]
  simp

/-- What a generator turns away raises an exception on every engine, and nothing else
    changes. -/
theorem send_turned_away (known : m.generator? r = some gen) (turned : gen.TurnsAway v)
    (unfinished : gen.isFinished = false) :
    ∃ kind text, ∀ g, sendTo g r v m = m.raising kind [.str text] := by
  have same : m.heap.generator r = gen := by rw [Machine.generator_eq, known]; rfl
  rcases Generator.unfinished_cases unfinished with running | ⟨f, held⟩
  · exact ⟨_, _, fun g => resume_running (by rw [same]; exact running)⟩
  · rw [held] at known turned
    exact ⟨_, _, fun g => resume_rejected known (turnsAway_iff.mp turned)⟩

/-- The sends that are refused are those that the generator turns away, and all at the
    recursion limit. -/
theorem refuses_iff (known : m.generator? r = some gen) (unfinished : gen.isFinished = false) :
    m.Refuses r v ↔ gen.TurnsAway v ∨ m.config.recursionLimit ≤ m.depth := by
  constructor
  · rintro ⟨e, m', failed⟩
    refine Decidable.or_iff_not_imp_right.mpr fun room => ?_
    rcases Generator.unfinished_cases unfinished with running | ⟨f, held⟩
    · exact .inl running
    · rw [held] at known ⊢
      rw [turnsAway_iff]
      cases he : Resumption.entry? f (.send v) with
      | none => rfl
      | some entry =>
        -- on an engine where the body yields, the send succeeds
        have answered := resume_holding (Guest.yielding_respects r) known he (Nat.lt_of_not_le room)
        cases answered.symm.trans (failed .yielding)
  · intro refused
    by_cases turned : gen.TurnsAway v
    · obtain ⟨kind, text, raised⟩ := send_turned_away known turned unfinished
      exact ⟨_, _, raised⟩
    · have full := refused.resolve_left turned
      rcases Generator.unfinished_cases unfinished with running | ⟨f, held⟩
      · exact absurd (.inl running) turned
      · rw [held] at known turned
        obtain ⟨entry, he⟩ := Option.ne_none_iff_exists'.mp (mt turnsAway_iff.mpr turned)
        exact ⟨_, _, fun g => resume_refused known he full⟩

/-- A generator that has ended stays so in whatever a session does, and every send raises
    `StopIteration`. -/
theorem ended_for_good {host : Host} (hh : host.Edits Heap.KeepsGenerators) (a : Alarm)
    (fuel : Nat) (ended : m.generator? r = some { name, frame := none }) {script : Script}
    (hs : script.Edits Heap.KeepsGenerators) :
    let m' := finalState (session host a fuel script m)
    m'.generator? r = some { name, frame := none } ∧
      ∀ v', sendTo (hosted host a fuel) r v' m' = m'.raising .stopIteration [] := by
  intro m'
  have aligned := lifeLaw_aligned (a := a) (r := r) host hh
  have lives : Generator.Lives host a r (m.generator? r) (m'.generator? r) :=
    (Law.perform_agrees (Law.HeapOnly.carried a) (aligned fuel) script
      (hs.mono lifeLaw_admits)).left m
  rw [ended] at lives
  have last : m'.generator? r = some { name, frame := none } :=
    Generator.eq_of_turns (lives.turns rfl)
  have gone : m'.heap.generator r = { name, frame := none } := by
    rw [Machine.generator_eq, last]
    rfl
  refine ⟨last, fun v' => ?_⟩
  exact ((lifeCycle_of_aligned (aligned fuel)).ended (by rw [gone]; exact Bool.false_ne_true)
    (by rw [gone])).1 v'

/-- **What a refused send leaves of a generator** that has not ended, under a host that leaves
    the records of generators alone and on every engine:

    * a send that the generator turns away changes nothing but that there is a new exception.
      From the same record a later send, if it is legal, goes on with the same frame;
    * otherwise it is the recursion limit that refuses the send.  Then the generator has ended
      by it: in whatever a session does later, every send raises `StopIteration`. -/
theorem refused_send_keeps_frame {host : Host} (hh : host.Edits Heap.KeepsGenerators) (a : Alarm)
    (fuel : Nat) (known : m.generator? r = some gen) (unfinished : gen.isFinished = false)
    (refused : m.Refuses r v) :
    let g := hosted host a fuel
    (gen.TurnsAway v →
      (∃ kind text, sendTo g r v m = m.raising kind [.str text]) ∧
      (finalState (sendTo g r v m)).generator? r = some gen ∧
      ∀ m' v' f entry, m'.generator? r = some gen → gen.running = false → gen.frame = some f →
        Resumption.entry? f (.send v') = some entry → m'.depth < m'.config.recursionLimit →
        sendTo g r v' m' = Generator.answer r gen.name (g.run entry ⟨f, m'.entering r gen.name⟩)) ∧
    (¬gen.TurnsAway v →
      m.config.recursionLimit ≤ m.depth ∧
      sendTo g r v m = (m.setGenerator r { name := gen.name, frame := none }).raising .runtimeError
        [.str "maximum recursion depth exceeded"] ∧
      ∀ script : Script, script.Edits Heap.KeepsGenerators →
        let m' := finalState (session host a fuel script (finalState (sendTo g r v m)))
        m'.generator? r = some { name := gen.name, frame := none } ∧
          ∀ v', sendTo g r v' m' = m'.raising .stopIteration []) := by
  intro g
  have cycle : g.LifeCycle r := lifeCycle_of_aligned (lifeLaw_aligned host hh fuel)
  refine ⟨fun turned => ?_, fun kept => ?_⟩
  · obtain ⟨kind, text, raised⟩ := send_turned_away known turned unfinished
    refine ⟨⟨kind, text, raised g⟩, by rw [raised g]; exact known, ?_⟩
    intro m' v' f entry known' still held he room
    obtain ⟨name, frame, running⟩ := gen
    cases still
    cases held
    exact cycle.resumed known' he room
  · have full := ((refuses_iff known unfinished).mp refused).resolve_left kept
    rcases Generator.unfinished_cases unfinished with running | ⟨f, held⟩
    · exact absurd (.inl running) kept
    · rw [held] at known kept
      obtain ⟨entry, he⟩ := Option.ne_none_iff_exists'.mp (mt turnsAway_iff.mpr kept)
      have ends := cycle.refused known he full
      have ended : (finalState (sendTo g r v m)).generator? r =
          some { name := gen.name, frame := none } := by
        rw [show sendTo g r v m = _ from ends]
        exact Machine.generator?_setGenerator known
      exact ⟨full, ends, fun script hs => ended_for_good hh a fuel ended hs⟩

/-! ### A generator that was not begun -/

/-- A frame of a generator that was not begun. -/
def Frame.unbegun : Frame where
  code := .yieldsTwice
  globals := 0
  builtins := 1
  locals := #[]
  cells := #[]

/-- A machine with a generator that holds this frame. -/
def Machine.holding : Machine :=
  let m := generating {}
  { m with heap := { m.heap with generators := #[{ name := "g", frame := some .unbegun }] } }

/-- A generator that was not begun is sent a number, and then `None`. -/
theorem refused_send_keeps_frame_of_unbegun :
    let g := hosted .idle .never 9
    let m' := finalState (sendTo g 0 (.int 3) .holding)
    (∀ {callee args kwargs script}, Host.idle callee args kwargs = some script →
      script.Edits Heap.KeepsGenerators) ∧
    Machine.holding.generator? 0 = some { name := "g", frame := some .unbegun } ∧
    Machine.holding.Refuses 0 (.int 3) ∧
    (∃ kind text, sendTo g 0 (.int 3) .holding = Machine.holding.raising kind [.str text]) ∧
    m'.generator? 0 = some { name := "g", frame := some .unbegun } ∧
    sendTo g 0 .none m' =
      Generator.answer 0 "g" (g.run .call ⟨.unbegun, m'.entering 0 "g"⟩) := by
  intro g m'
  have host {callee args kwargs script} (h : Host.idle callee args kwargs = some script) :
      script.Edits Heap.KeepsGenerators := by cases h
  have known : Machine.holding.generator? 0 = some { name := "g", frame := some .unbegun } := rfl
  have turned : Generator.TurnsAway { name := "g", frame := some .unbegun } (.int 3) :=
    .inr ⟨_, rfl, rfl, nofun⟩
  have refused : Machine.holding.Refuses 0 (.int 3) := (refuses_iff known rfl).mpr (.inl turned)
  obtain ⟨raised, kept, later⟩ :=
    (refused_send_keeps_frame host .never 9 known rfl refused).1 turned
  exact ⟨host, known, refused, raised, kept, later m' .none _ _ kept rfl rfl rfl (by decide)⟩

/-- A guest function asks a generator that was not begun for its first value, which the
    recursion limit refuses.  The generator has ended by that: the next send raises an
    exception, where it would have answered a value before. -/
theorem refused_send_ends_unbegun :
    let begun (next : Script) := Script.call (.function 0) [] [] fun _ => next
    let send := Script.resume 0 (.send .none) fun
      | .ok v => .done v
      | .error e => .fail e
    let held (script : Script) :=
      ((finalState (session .idle .never 9 script .narrow)).generator? 0).map fun gen =>
        (gen.running, gen.frame.map (·.lasti))
    let answers (script : Script) := match session .idle .never 9 script .narrow with
      | .ok v _ => some v
      | .error _ _ => none
    held (begun (.done .none)) = some (false, some none) ∧
    held (begun (.call (.function 1) [.generator 0] [] fun _ => .done .none)) =
      some (false, none) ∧
    answers (begun send) = some (.int 1) ∧
    answers (begun (.call (.function 1) [.generator 0] [] fun _ => send)) = none := by
  decide +kernel

end TieredMachine
