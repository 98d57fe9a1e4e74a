/-
  Whose fault a fault is.

  A run may end because a value or a block is missing, and the one that misses it may be
  the frame that runs or one that it called.  To tell them apart an engine is *spared*: its
  calls run out of fuel where they would have ended with such a fault.  A step that does so
  with the engine, but runs out of fuel with the spared one, has the fault from a call.

  * `Regime.heights`: the regime that only looks at such faults;
  * `Guest.spared`: the engine whose calls never end with one;
  * `runPrimitives_spared`: instructions with either engine.
-/
import TieredMachine.Proofs.Safety.Effect
import TieredMachine.Proofs.Agreement.Primitive

namespace TieredMachine

variable {strict : Prop} {g : Guest} {σ α : Type}

/-! ## Regimes that only look at faults -/

/-- The regime that asks nothing of machines and frames, and when it is strict rules out
    the faults that tell of missing values and blocks. -/
def Regime.heights (strict : Prop) : Regime where
  holds _ := True
  fits _ := True
  permits e := strict → e.isStackFault = false

instance : (Regime.heights strict).Closed where
  raised _ _ := rfl
  outOfFuel _ := rfl
  capacityOverflow _ := rfl
  misuse _ _ := rfl
  fits_of_kept _ _ := trivial
  edit _ _ := trivial
  bind := by intros; trivial
  changeGenerator := by intros; trivial
  addFunction _ _ _ := trivial
  touch _ _ _ := trivial

/-- Arguments are no concern of this regime. -/
theorem Regime.heights_suits (p : Primitive) : (heights strict).Suits p where
  opcode _ _ _ := rfl
  argument _ _ _ _ := rfl
  const _ _ _ _ _ := .inl fun _ => rfl
  name _ _ _ _ _ := .inl fun _ => rfl
  «local» _ _ _ _ _ := .inl fun _ => rfl
  free _ _ _ _ _ := .inl fun _ => rfl

/-- Where any machine will do, only the faults count. -/
theorem safe_iff {R : Regime} (any : ∀ m, R.holds m) {x : Exec α} :
    Safe R x ↔ ∀ m e m', x m = .error e m' → R.permits e := by
  constructor
  · intro h m e m' hx
    have := h m (any m)
    rw [hx] at this
    exact this.2
  · intro h m _
    cases hx : x m with
    | ok a m' => exact any m'
    | error e m' => exact ⟨any m', h m e m' hx⟩

theorem heights_safe {x : Exec α} :
    Safe (.heights strict) x ↔ ∀ m e m', x m = .error e m' → strict → e.isStackFault = false :=
  safe_iff fun _ => trivial

/-! ## Spared engines -/

/-- The computation runs out of fuel where it would have ended because a value or a block is
    missing. -/
def spared (x : EStateM Fault σ α) : EStateM Fault σ α := fun s =>
  match x s with
  | .ok a t => .ok a t
  | .error e t => .error (if e.isStackFault then .outOfFuel else e) t

/-- The engine whose calls and runs do not end because a value or a block is missing. -/
def Guest.spared (g : Guest) : Guest :=
  { g with
    call := fun callee args kwargs => TieredMachine.spared (g.call callee args kwargs)
    run := fun entry => TieredMachine.spared (g.run entry) }

theorem spared_error {x : EStateM Fault σ α} {s t : σ} {e : Fault}
    (h : spared x s = .error e t) : e.isStackFault = false := by
  unfold spared at h
  split at h
  · cases h
  · rename_i e' _ _
    cases h
    by_cases he : e'.isStackFault
    · rw [if_pos he]
      rfl
    · rw [if_neg he]
      exact Bool.eq_false_iff.mpr he

theorem within_error {x : FrameExec α} {f : Frame} {m m' : Machine} {e : Fault}
    (h : x.within f m = .error e m') : ∃ s, x ⟨f, m⟩ = .error e s := by
  unfold FrameExec.within at h
  split at h
  · cases h
  · rename_i hx
    cases h
    exact ⟨_, hx⟩

/-- Generators are resumed as safely as frames are run, when any machine will do. -/
theorem resumeGenerator_permitted {R : Regime} [R.Closed] (any : ∀ m, R.holds m)
    (h : ∀ entry s e t, g.run entry s = .error e t → R.permits e) (r : Ref) (how : Resumption) :
    Safe R (resumeGenerator g r how) := by
  have change (f : Generator → Generator) : Safe R (modifyGenerator r f) := fun _ _ => any _
  have run (entry : Entry) (f : Frame) : Safe R ((g.run entry).within f) := by
    refine (safe_iff any).mpr fun m e m' hx => ?_
    obtain ⟨s, hs⟩ := within_error hx
    exact h entry _ e s hs
  refine heap_safe.andThen fun h => ?_
  dsimp only
  split
  · exact alreadyExecuting_safe
  split
  · exact resumeEnded_safe how
  split
  · exact typeError_safe _
  · refine (change _).andThen fun _ => ((nested_safe (run _ _)).handle fun e he =>
      (endGenerator_safe r).andThen fun _ => .fail he).andThen fun p => ?_
    obtain ⟨exit, f⟩ := p
    cases exit with
    | yield_ v => exact (change _).andThen fun _ => .ret v
    | return_ v => exact (endGenerator_safe r).andThen fun _ => raiseWith_safe _ _

/-- Every engine is safe if no fault is ruled out. -/
theorem Guest.safe (g : Guest) : g.Safe (.heights False) where
  call _ _ _ := heights_safe.mpr fun _ _ _ _ h => h.elim
  resume := resumeGenerator_permitted (fun _ => trivial) fun _ _ _ _ _ h => h.elim

theorem Guest.spared_safe (g : Guest) : g.spared.Safe (.heights strict) where
  call _ _ _ := heights_safe.mpr fun _ _ _ h _ => spared_error h
  resume := resumeGenerator_permitted (fun _ => trivial) fun _ _ _ _ h _ => spared_error h

/-! ## Steps with a spared engine -/

/-- Machines compared by equality, where runs may be out of fuel. -/
def equalWorld : World Machine where
  alike m m' := m = m'
  failed _ m m' := m = m'
  kept _ _ := True
  worn _ := False
  slack := True
  kept_refl _ := trivial
  kept_trans _ _ := trivial
  worn_of_kept _ h := h
  failed_of_alike h := h
  alike_of_raised h := h

theorem equal_agrees_self {side : Side} (x : Exec α) : Agrees equalWorld side x x := by
  refine ⟨fun _ => trivial, fun _ => trivial, fun {s s'} h => ?_⟩
  cases h
  cases x s with
  | ok a t => exact .same rfl
  | error e t => exact .error rfl

instance : equalWorld.Closed where
  look _ := equal_agrees_self _
  names _ _ _ h := by
    refine ⟨fun _ => trivial, fun _ => trivial, fun {s s'} hs => ?_⟩
    cases hs
    exact (h s.builtins).agree rfl
  change _ _ _ := equal_agrees_self _
  add _ _ _ _ := equal_agrees_self _
  addBuiltin _ _ _ := equal_agrees_self _
  bind _ _ _ _ := equal_agrees_self _
  bindGlobal _ _ _ := equal_agrees_self _
  emit _ _ := equal_agrees_self _
  trace _ _ := equal_agrees_self _
  ask _ := equal_agrees_self _
  report _ _ _ := equal_agrees_self _

instance : equalWorld.Generative where
  changeGenerator _ _ _ _ := equal_agrees_self _

instance : equalWorld.Framed where
  addEntry _ _ _ := equal_agrees_self _

/-- A computation that is spared ends as it would have, or runs out of fuel. -/
theorem spared_agrees (x : Exec α) : Agrees equalWorld .right x (spared x) := by
  refine ⟨fun _ => trivial, fun _ => trivial, fun {s s'} h => ?_⟩
  cases h
  unfold spared
  cases x s with
  | ok a t => exact .same rfl
  | error e t =>
    dsimp only
    split
    · exact .right rfl (.inl ⟨trivial, t, rfl⟩)
    · exact .error rfl

theorem spared_within (x : FrameExec α) (f : Frame) :
    FrameExec.within (spared x) f = spared (x.within f) := by
  funext m
  unfold FrameExec.within spared
  dsimp only
  cases x ⟨f, m⟩ <;> rfl

theorem nested_equal {side : Side} {x y : Exec α} (h : Agrees equalWorld side x y) :
    Agrees equalWorld side (nested x) (nested y) := by
  refine ⟨fun _ => trivial, fun _ => trivial, fun {s s'} hs => ?_⟩
  cases hs
  have handled := h.handle (f := fun fault => do
      modify fun m : Machine => { m with depth := m.depth - 1 }
      throw fault) (fun _ _ => trivial) (fun _ _ => trivial)
    (fun e t t' ht => (equal_agrees_self _).agree ht) (fun _ => ⟨_, rfl⟩) (fun _ => ⟨_, rfl⟩)
  have enter : Agrees equalWorld side (modify fun m : Machine => { m with depth := m.depth + 1 })
      (modify fun m : Machine => { m with depth := m.depth + 1 }) := equal_agrees_self _
  have leave : Agrees equalWorld side (modify fun m : Machine => { m with depth := m.depth - 1 })
      (modify fun m : Machine => { m with depth := m.depth - 1 }) := equal_agrees_self _
  have body := enter.andThen fun _ => handled.andThen fun a => leave.andThen fun _ => Agrees.ret a
  show Agree _ _ ((if _ then _ else _ : Exec α) s) ((if _ then _ else _ : Exec α) s)
  split
  · exact ((Agrees.of (raise_agrees _ _)).andThen fun _ => body).agree rfl
  · exact body.agree rfl

/-- A generator resumed with a spared engine ends as it would have, or runs out of fuel. -/
theorem runGenerator_spared (g : Guest) (r : Ref) (entry : Entry) (f : Frame) :
    Agrees equalWorld .right (runGenerator g r entry f) (runGenerator g.spared r entry f) := by
  have run : Agrees equalWorld .right ((g.run entry).within f) ((g.spared.run entry).within f) := by
    rw [show g.spared.run entry = spared (g.run entry) from rfl, spared_within]
    exact spared_agrees _
  refine (equal_agrees_self _).andThen fun _ => Agrees.andThen ?_ fun p => equal_agrees_self _
  exact (nested_equal run).handle (fun _ _ => trivial) (fun _ _ => trivial)
    (fun e t t' ht => (equal_agrees_self _).agree ht) (fun _ => ⟨_, rfl⟩) (fun _ => ⟨_, rfl⟩)

theorem resumeGenerator_spared (g : Guest) (r : Ref) (how : Resumption) :
    Agrees equalWorld .right (resumeGenerator g r how) (resumeGenerator g.spared r how) := by
  refine heap_agrees.andThen fun h => ?_
  dsimp only
  split
  · exact equal_agrees_self _
  split
  · exact equal_agrees_self _
  split
  · exact equal_agrees_self _
  · exact runGenerator_spared g r _ _

theorem serves_spared (g : Guest) : Serves (equalWorld.agreement .right) g g.spared where
  fuel := .inl rfl
  call _ _ _ := spared_agrees _
  resume := resumeGenerator_spared g
  close r := closeGenerator_agrees r (World.Generative.changeGenerator _ r fun _ _ h => by cases h)
    (resumeGenerator_spared g r)

/-- An instruction that ends because a value or a block is missing, but not so with the
    spared engine, runs out of fuel there. -/
theorem runPrimitives_spared {recording : Bool} {ip k : Nat} {ps : List Primitive}
    {s t : Activation} {e : Fault} (h : runPrimitives g recording ip k ps s = .error e t)
    (own : ∀ t, runPrimitives g.spared recording ip k ps s ≠ .error e t) :
    ∃ t, runPrimitives g.spared recording ip k ps s = .error .outOfFuel t := by
  have agree := (runPrimitives_agrees (W := equalWorld) (serves_spared g) (.inl rfl) ip k ps
    (r := recording)).agree (s := s) ⟨rfl, rfl⟩
  rw [h] at agree
  cases hr : runPrimitives g.spared recording ip k ps s with
  | ok flow u =>
    rw [hr] at agree
    cases agree with
    | left hs => cases hs
    | right _ hs =>
      rcases hs with ⟨-, _, hs⟩ | hs
      · cases hs
      · exact hs.elim
  | error e' u =>
    rw [hr] at agree
    cases agree with
    | error _ => exact absurd hr (own u)
    | left hs => cases hs
    | right _ hs =>
      rcases hs with ⟨-, _, hs⟩ | hs
      · exact ⟨_, hs⟩
      · exact hs.elim

end TieredMachine
