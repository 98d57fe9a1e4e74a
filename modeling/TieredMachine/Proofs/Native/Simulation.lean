/-
  Threaded code simulates the interpreter.

  A unit is lowered, and a frame of it is run as threaded code.  When native code leaves
  the frame, the interpreter goes on with it.  The whole run ends as the interpreter's run
  of the frame from its entry does.

  * `Guest.Blind`: an engine whose calls do not depend on what running code does not see;
  * `Result.IsOver`, `SameEnd`: runs that are over, and runs that end the same way;
  * `threaded_simulates`: the simulation, both ways;
  * `short_stack_left_standing`: where the value stacks differ.
-/
import TieredMachine.Proofs.Graph.CleanUp
import TieredMachine.Proofs.Host.Plain
import TieredMachine.Proofs.Native.Threaded

namespace TieredMachine

variable {us : Array CodeUnit} {side : Side} {u : CodeUnit} {G : Graph}

/-! ## Engines -/

/-- Calls, runs of generators and looks for a reason to leave do not depend on tier state,
    feedback, requests and records.  Looks may find anything. -/
structure Guest.Blind (us : Array CodeUnit) (g : Guest) : Prop where
  call : ∀ side callee args kwargs,
    Agrees (machineWorld us) side (g.call callee args kwargs) (g.call callee args kwargs)
  run : ∀ side entry f, f.Ready us entry →
    Agrees (machineWorld us) side ((g.run entry).within f) ((g.run entry).within f)
  keeps : ∀ entry f, Keeps (machineWorld us) ((g.run entry).within f)
  /-- a frame that yields can be resumed -/
  yields : ∀ entry f m, f.Ready us entry → m.Sound us →
    ∀ v f' t, (g.run entry).within f m = .ok (.yield_ v, f') t → f'.Resting us
  polls : Polls us g

/-- The engine with a bound on the length of loops. -/
def Guest.withFuel (g : Guest) (n : Nat) : Guest := { g with fuel := n }

theorem Guest.Blind.guests {g : Guest} (hg : g.Blind us) {n n' : Nat} (h : side.bounds n n') :
    Guests us side (g.withFuel n) (g.withFuel n') where
  fuel := h
  call := hg.call side
  run := hg.run side
  keeps_left := hg.keeps
  keeps_right := hg.keeps
  yields entry f m _ hf hm v f' _ _ h _ := hg.yields entry f m hf hm.2.1 v f' _ h

/-- Looking for requests is not seen. -/
theorem polls_pollNow {g : Guest} (h : g.poll = pollNow) : Polls us g := by
  intro kind m
  rw [h]
  refine ⟨(m.poll kind).1, (m.poll kind).2, rfl, ?_⟩
  unfold Machine.poll
  split
  · exact .refl m
  · split
    · exact (Machine.Unseen.ask false).veiled m
    · exact .refl m

/-- The engine without native code is blind. -/
theorem plainly_blind (hu : Built us) {host : Host} (hh : host.Mirrors us host) (n : Nat) :
    (plainly host n).Blind us :=
  have guests (side : Side) : Guests us side (plainly host n) (plainly host n) :=
    plainly_guests hu hh (side.bounds_self n)
  { call := fun side => (guests side).call
    run := fun side => (guests side).run
    keeps := (guests .left).keeps_left
    yields := fun entry f m hf hm v f' t h =>
      (guests .left).yields entry f m m hf ⟨rfl, hm, hm⟩ v f' t t h h
    polls := polls_pollNow (by cases n <;> rfl) }

/-! ## Runs -/

/-- A frame is run as threaded code, and a bail is gone on from in the interpreter. -/
def runBailing (g : Guest) (G : Graph) (entry : Entry) : FrameExec Exit := do
  match ← runThreaded g G entry with
  | .done exit => return exit
  | .bail _ => interpret g .continue_

/-- What is done with the end of a run of threaded code. -/
def afterThreaded (g : Guest) : NativeExit → FrameExec Exit
  | .done exit => return exit
  | .bail _ => interpret g .continue_

theorem runBailing_eq (g : Guest) (G : Graph) (entry : Entry) :
    runBailing g G entry = runThreaded g G entry >>= afterThreaded g := by
  unfold runBailing
  congr 1

theorem resumes_afterThreaded {g g' : Guest} (hg : Guests us side g g') :
    Resumes us g (afterThreaded g) where
  done _ := rfl
  bail _ t _ := ⟨t.machine, .refl _, rfl⟩
  keeps e := by
    cases e with
    | done exit => exact .pure _
    | bail reason => exact (interpret_agrees hg .continue_).left

/-- The run is over: its fuel is not used up, and no namespace was changed so often that a
    64-bit version may repeat. -/
def IsOver {α : Type} (r : EStateM.Result Fault Activation α) : Prop :=
  (∀ s, r ≠ .error .outOfFuel s) ∧ ¬ (finalState r).machine.heap.Worn

/-- Two runs of a frame end the same way: with the same exit or fault, the same frame, and
    the same for guest code to see.  A stack that is too short may be left as it is, or
    with what was on it taken off. -/
inductive SameEnd : EStateM.Result Fault Activation Exit →
    EStateM.Result Fault Activation Exit → Prop
  | exit {e s s'} : s.frame = s'.frame → s.machine.sight = s'.machine.sight →
      SameEnd (.ok e s) (.ok e s')
  | fault {e s s'} :
      (s.frame = s'.frame ∨ e.isUnderflow ∧ s.frame.unstacked = s'.frame.unstacked) →
      s.machine.sight = s'.machine.sight → SameEnd (.error e s) (.error e s')

theorem SameEnd.of_agree (side : Side) {r r' : EStateM.Result Fault Activation Exit}
    (h : Agree (runWorld us) side r r') (hl : side = .left → IsOver r)
    (hr : side = .right → IsOver r') : SameEnd r r' := by
  have ended {r : EStateM.Result Fault Activation Exit} (h : IsOver r) :
      ¬ (runWorld us).Spent r := by
    rintro (⟨-, s, hs⟩ | hw)
    · exact h.1 s hs
    · exact h.2 hw
  cases h with
  | ok h =>
    obtain ⟨rfl, hf, hm⟩ := h
    exact .exit hf hm.1
  | error h => exact .fault h.1 h.2.1
  | left hs h => exact absurd h (ended (hl hs))
  | right hs h => exact absurd h (ended (hr hs))

/-! ## The simulation -/

/-- What a graph relies on is found in every heap with the same namespaces. -/
theorem Faithful.over {h h' : Heap} {most : Nat} (hf : Faithful u h most G)
    (hs : h'.namespaces = h.namespaces) : Faithful u h' most G := by
  have space (r : Ref) : h'.space r = h.space r := by
    unfold Heap.space
    rw [hs]
  refine ⟨hf.unit, hf.numbered, hf.code, hf.opens, hf.entry, hf.resume, fun a ha => ?_⟩
  have holds := hf.assumed a ha
  unfold Assumption.HoldsIn Heap.lookupGlobal? at *
  rwa [space, space]

/-- A run of threaded code, gone on with in the interpreter, agrees with the interpreter. -/
theorem runBailing_agrees (hu : Built us) {r : Ref} (hr : us[r]? = some u) {h₀ : Heap}
    {feedback : Feedback} {opts : LowerOptions} (hl : lower h₀ u feedback opts = .ok G)
    {g g' : Guest} (hg : Guests us side g g') (hp : Polls us g)
    (left : side = .left → (2 * u.words.size + 2) * g.fuel + u.words.size ≤ g'.fuel)
    (right : side = .right → g'.fuel ≤ g.fuel) {entry : Entry} {f : Frame} {m m' : Machine}
    (hm : (machineWorld us).alike m m') (hc : f.code = u) (hf : f.Ready us entry)
    (he : ∀ r, (h₀.space r).Evolves (m'.heap.space r)) :
    Agree (runWorld us) side (runBailing g G entry ⟨f, m⟩) (interpret g' entry ⟨f, m'⟩) := by
  obtain ⟨most, hmost, faithful⟩ := lower_faithful (hu.checked hr) hl
  let h₁ : Heap := { h₀ with units := m'.heap.units }
  have faithful : Faithful u h₁ most G := faithful.over rfl
  have evolves : h₁.Evolves m'.heap := ⟨rfl, he⟩
  rw [runBailing_eq]
  refine runThreaded_agrees faithful hg hp (resumes_afterThreaded hg) (fun hside => ?_)
    right ⟨rfl, hm⟩ hc hf evolves
  have bound := left hside
  have less : (u.words.size + most + 1) * g.fuel ≤ (2 * u.words.size + 1) * g.fuel :=
    Nat.mul_le_mul_right _ (by omega)
  have split : (2 * u.words.size + 2) * g.fuel = (2 * u.words.size + 1) * g.fuel + g.fuel :=
    Nat.succ_mul _ _
  omega

/-- **Threaded code simulates the interpreter.**

    A frame of a unit that was lowered, at whatever level, with whatever feedback and over
    whatever namespaces, is run as threaded code, whose looks for a reason to leave may find
    anything; after a bail the interpreter goes on with the frame.  When that run is over,
    every run of the interpreter that is long enough ends the same way, and the other way
    round. -/
theorem threaded_simulates (hu : Built us) {r : Ref} (hr : us[r]? = some u) {h₀ : Heap}
    {feedback : Feedback} {opts : LowerOptions} (hl : lower h₀ u feedback opts = .ok G)
    {g : Guest} (hg : g.Blind us) {entry : Entry} {f : Frame} {m : Machine} (hc : f.code = u)
    (hf : f.Ready us entry) (hm : m.Sound us)
    (he : ∀ r, (h₀.space r).Evolves (m.heap.space r)) :
    (∀ n, IsOver (runBailing (g.withFuel n) G entry ⟨f, m⟩) → ∃ n₀, ∀ n' ≥ n₀,
      SameEnd (runBailing (g.withFuel n) G entry ⟨f, m⟩)
        (interpret (g.withFuel n') entry ⟨f, m⟩)) ∧
    ∀ n, IsOver (interpret (g.withFuel n) entry ⟨f, m⟩) → ∀ n' ≥ n,
      SameEnd (runBailing (g.withFuel n') G entry ⟨f, m⟩)
        (interpret (g.withFuel n) entry ⟨f, m⟩) := by
  refine ⟨fun n ended => ⟨(2 * u.words.size + 2) * n + u.words.size, fun n' hn => ?_⟩,
    fun n ended n' hn => ?_⟩
  · have bounds : Side.left.bounds n n' :=
      ⟨fun _ => by rw [Nat.add_mul, Nat.mul_assoc] at hn; omega, fun h => (nomatch h)⟩
    refine .of_agree .left (runBailing_agrees hu hr hl (hg.guests bounds) hg.polls
      (fun _ => hn) (fun h => nomatch h) ⟨rfl, hm, hm⟩ hc hf he) (fun _ => ended)
      (fun h => nomatch h)
  · have bounds : Side.right.bounds n' n := ⟨fun h => (nomatch h), fun _ => hn⟩
    exact .of_agree .right (runBailing_agrees hu hr hl (hg.guests bounds) hg.polls
      (fun h => nomatch h) (fun _ => hn) ⟨rfl, hm, hm⟩ hc hf he) (fun h => nomatch h)
      (fun _ => ended)

/-! ### A stack that is too short -/

/-- The parts of a unit that adds two numbers, or finds only one on the stack. -/
def CodeParts.shortStack : CodeParts where
  name := "t"
  argcount := 1
  words := #[.ofOpcode .loadFast, ⟨1⟩, .ofOpcode .popJumpIfTrue, ⟨21⟩, .ofOpcode .loadConst, ⟨1⟩,
    .ofOpcode .loadConst, ⟨3⟩, .ofOpcode .jumpForward, ⟨11⟩, .ofOpcode .loadConst, ⟨5⟩,
    .ofOpcode .loadConst, ⟨7⟩, .ofOpcode .endFinally, .ofOpcode .binaryAdd, .ofOpcode .returnValue]
  consts := #[.int 1, .int 2, .int 5, .none]
  varnames := #["a"]

/-- The unit with these parts. -/
def CodeUnit.shortStack : CodeUnit := (CodeUnit.ofParts 0 .shortStack).toOption.getD default

theorem CodeUnit.ofParts_shortStack : CodeUnit.ofParts 0 .shortStack = .ok .shortStack :=
  eq_ok_of_isSome (by decide +kernel)

theorem built_shortStack : Built #[.shortStack] where
  parts r u h := by
    cases r with
    | zero =>
      cases h
      exact ⟨.shortStack, CodeUnit.ofParts_shortStack⟩
    | succ r => cases h

/-- What is known after a run that adds two integers. -/
def Feedback.addedIntegers : Feedback := ({} : Feedback).observe ⟨15, 0⟩ (.types .int .int)

/-- The graph of the unit then. -/
def Graph.shortStack : Graph :=
  (lower {} .shortStack .addedIntegers { level := .o2 }).toOption.getD default

theorem lower_shortStack :
    lower {} .shortStack .addedIntegers { level := .o2 } = .ok .shortStack :=
  eq_ok_of_isSome (by decide +kernel)

/-- A new frame of the unit that finds only one number. -/
def Frame.shortStack : Frame where
  code := .shortStack
  globals := 0
  builtins := 1
  locals := #[some (.bool true)]
  cells := #[]

theorem Frame.fresh_shortStack : Frame.shortStack.Fresh #[.shortStack] where
  code := by rw [show Frame.shortStack.code.id = 0 from by decide +kernel]; rfl
  stack := rfl
  blocks := rfl
  ip := rfl
  lasti := rfl
  locals := by decide +kernel

/-- A machine that has run nothing. -/
def Machine.shortStack : Machine :=
  { (default : Machine) with heap := { units := #[.shortStack] }, bailError := false }

theorem Machine.sound_shortStack : Machine.shortStack.Sound #[.shortStack] where
  units := rfl
  resting _ h := absurd h (Array.not_mem_empty _)
  discreet _ h := absurd h (Array.not_mem_empty _)
  lenient := rfl
  backed _ _ h := nomatch h

theorem threaded_simulates_of_fresh :
    (plainly .idle 3).Blind #[.shortStack] ∧ Frame.shortStack.Fresh #[.shortStack] ∧
    Machine.shortStack.Sound #[.shortStack] ∧
    ∀ n, IsOver (runBailing ((plainly .idle 3).withFuel n) .shortStack .call
        ⟨.shortStack, .shortStack⟩) → ∃ n₀, ∀ n' ≥ n₀,
      SameEnd (runBailing ((plainly .idle 3).withFuel n) .shortStack .call
          ⟨.shortStack, .shortStack⟩)
        (interpret ((plainly .idle 3).withFuel n') .call ⟨.shortStack, .shortStack⟩) :=
  have blind := plainly_blind built_shortStack Host.mirrors_idle 3
  have ready : Frame.shortStack.Ready #[.shortStack] .call := Frame.fresh_shortStack
  ⟨blind, Frame.fresh_shortStack, Machine.sound_shortStack,
    (threaded_simulates built_shortStack (r := 0) rfl lower_shortStack blind rfl
      ready Machine.sound_shortStack fun _ => .refl _).1⟩

/-- The fault that a run of a frame ends with, and the stack that it leaves behind. -/
def failure? : EStateM.Result Fault Activation Exit → Option (Fault × List Value)
  | .ok _ _ => none
  | .error e s => some (e, s.frame.stack)

/-- Both runs fail for want of a value, but threaded code has not taken the one that is
    there off the stack. -/
theorem short_stack_left_standing :
    lower {} .shortStack .addedIntegers { level := .o2 } = .ok .shortStack ∧
    failure? (runBailing ((plainly .idle 3).withFuel 100) .shortStack .call
      ⟨.shortStack, .shortStack⟩) = some (.stackUnderflow 15, [.int 5]) ∧
    failure? (interpret ((plainly .idle 3).withFuel 100) .call ⟨.shortStack, .shortStack⟩) =
      some (.stackUnderflow 15, []) :=
  ⟨lower_shortStack, by decide +kernel, by decide +kernel⟩

end TieredMachine
