/-
  What primitives do to the value stack.

  A plain primitive that hands on changes the height as the table of stack effects says, and
  leaves the values below those that it needs as they are.  On a stack that is high enough
  it misses no value itself: when it ends for want of one, a call that it made ended so.  To
  tell this, its calls are compared with calls that are out of fuel where they would have
  ended with the fault.

  * `lacking`, `Guest.lacking`: computations, and engines, that never end with a fault;
  * `run_lacking`: a fault that came out of a call;
  * `run_shifts`: a primitive on a stack that is high enough;
  * **`run_bears_out`**: primitives bear out their stack effects.
-/
import TieredMachine.Proofs.Safety.Watched

namespace TieredMachine

variable {σ α : Type} {g : Guest} {fault : Fault} {ip : Nat}

/-! ## Engines that lack a fault -/

/-- The computation is out of fuel where it would have ended with the fault. -/
def lacking (fault : Fault) (x : EStateM Fault σ α) : EStateM Fault σ α := fun s =>
  match x s with
  | .ok a t => .ok a t
  | .error e t => .error (if e = fault then .outOfFuel else e) t

/-- The engine whose calls and runs are out of fuel where they would have ended with the
    fault. -/
def Guest.lacking (g : Guest) (fault : Fault) : Guest :=
  { g with
    call := fun callee args kwargs => TieredMachine.lacking fault (g.call callee args kwargs)
    run := fun entry => TieredMachine.lacking fault (g.run entry) }

theorem lacking_error {x : EStateM Fault σ α} {s t : σ} {e : Fault} (hf : fault ≠ .outOfFuel)
    (h : lacking fault x s = .error e t) : e ≠ fault := by
  unfold lacking at h
  split at h
  · cases h
  · cases h
    split
    · exact hf.symm
    · assumption

/-- A computation that lacks a fault ends as it would have, or is out of fuel. -/
theorem Agrees.lacking {W : World σ} (slack : W.slack) {x : EStateM Fault σ α}
    (h : Agrees W .right x x) (fault : Fault) :
    Agrees W .right x (TieredMachine.lacking fault x) := by
  have ends (s : σ) : finalState (TieredMachine.lacking fault x s) = finalState (x s) := by
    unfold TieredMachine.lacking
    cases x s <;> rfl
  refine ⟨h.left, fun s => (ends s).symm ▸ h.left s, fun {s s'} hs => ?_⟩
  have agree := h.agree hs
  unfold TieredMachine.lacking
  generalize x s = r, x s' = r' at agree
  cases agree with
  | ok h => exact .ok h
  | left hs _ => cases hs
  | error h =>
    dsimp only
    split
    · exact .right rfl (.inl ⟨slack, _, rfl⟩)
    · exact .error h
  | right _ h =>
    rcases h with ⟨-, t, rfl⟩ | worn
    · dsimp only
      refine .right rfl (.inl ⟨slack, t, ?_⟩)
      split <;> rfl
    · refine .right rfl (.inr ?_)
      cases r' <;> exact worn

theorem Guest.lacking_echoes (g : Guest) (fault : Fault) : (g.lacking fault).Echoes g where
  fuel := rfl
  call _ _ _ := (equal_agrees_self _).lacking trivial fault
  run _ := (equal_run_self _).lacking trivial fault
  poll := rfl

/-- A primitive that ends with a fault, but not so with the engine that lacks it, is out of
    fuel there. -/
theorem Primitive.run_lacking {site : Site} {recording : Bool} {p : Primitive}
    {s t : Activation} (h : run g site recording p s = .error fault t)
    (own : ∀ t, run (g.lacking fault) site recording p s ≠ .error fault t) :
    ∃ t, run (g.lacking fault) site recording p s = .error .outOfFuel t := by
  have agree := (run_agrees (g.lacking_echoes fault).serves site (.inl rfl) p
    (r := recording)).agree (s := s) ⟨rfl, rfl⟩
  rw [h] at agree
  generalize run (g.lacking fault) site recording p s = r at agree own
  cases agree with
  | error _ => exact absurd rfl (own _)
  | left hs => cases hs
  | right _ spent =>
    rcases spent with ⟨-, t, rfl⟩ | worn
    · exact ⟨t, rfl⟩
    · exact worn.elim

/-! ## The regime that lacks an underflow -/

/-- The regime that asks nothing of machines and frames, and rules out that a value is missing
    to the instruction at an index. -/
def Regime.provided (ip : Nat) : Regime where
  holds _ := True
  fits _ := True
  permits e := e ≠ .stackUnderflow ip

instance : (Regime.provided ip).Closed where
  raised _ := Fault.noConfusion
  outOfFuel := Fault.noConfusion
  capacityOverflow := Fault.noConfusion
  misuse _ := Fault.noConfusion
  fits_of_kept _ _ := trivial
  edit _ _ := trivial
  bind := by intros; trivial
  changeGenerator := by intros; trivial
  addFunction _ _ _ := trivial
  touch _ _ _ := trivial

theorem Regime.provided_suits (p : Primitive) : (provided ip).Suits p where
  opcode _ _ := Fault.noConfusion
  argument _ _ _ := Fault.noConfusion
  const _ _ _ _ _ := .inl Fault.noConfusion
  name _ _ _ _ _ := .inl Fault.noConfusion
  «local» _ _ _ _ _ := .inl Fault.noConfusion
  free _ _ _ _ _ := .inl Fault.noConfusion

theorem Guest.lacking_safe (g : Guest) (ip : Nat) :
    (g.lacking (.stackUnderflow ip)).Safe (.provided ip) where
  call _ _ _ := (safe_iff fun _ => trivial).mpr fun _ _ _ h => lacking_error Fault.noConfusion h
  resume := resumeGenerator_permitted (fun _ => trivial) fun _ _ _ _ h =>
    lacking_error Fault.noConfusion h

/-! ## Primitives -/

namespace Primitive

variable {R : Regime} [R.Closed] {p : Primitive} {s : Activation}

/-- No primitive takes more off the stack than it needs. -/
theorem stackEffect_nonneg (p : Primitive) : 0 ≤ ((stackEffect p).1 : Int) + (stackEffect p).2 := by
  unfold stackEffect
  dsimp only
  split
  · decide
  split
  · decide
  split <;> dsimp only <;> omega

/-- The primitive neither sends control elsewhere nor touches the block stack; the end of a
    `with` clause was told that control came there by itself. -/
def Effective (p : Primitive) (f : Frame) : Prop :=
  p.op.isPlain ∨ p.op = .withCleanup ∧ f.stack.head? = some .none

/-- A primitive on a stack that is high enough for it. -/
theorem run_shifts (hg : g.Safe R) (site : Site) (recording : Bool) (hp : R.Suits p)
    (he : Effective p s.frame) (hm : R.holds s.machine) (hf : R.fits s.frame)
    (hk : R.Spares (stackEffect p).1 s.frame) :
    ∃ y, run g site recording p s = thenNext y s ∧
      R.Shifts (stackEffect p).1 ((stackEffect p).1 + (stackEffect p).2).toNat s (y s) := by
  rcases he with plain | ⟨cleanup, top⟩
  · obtain ⟨y, hy, brings⟩ := run_moves hg site recording hp plain
    exact ⟨y, by rw [hy], brings _ (Nat.le_refl _) s hm hf hk⟩
  · obtain ⟨op, arg⟩ := p
    obtain rfl : op = .withCleanup := cleanup
    refine ⟨withCleanup g site, rfl, withCleanup_shifts (k := 0) hg site hm hf hk fun v hv => ?_⟩
    obtain rfl := Option.some.inj (top.symm.trans hv)
    rfl

/-- **Primitives bear out their stack effects.**  A primitive that succeeds hands on to the
    next one; the height has changed by so much, and below the values that it needs nothing
    has changed.  If all that it needs is there, a value is missing only to a call that it
    made. -/
theorem run_bears_out (g : Guest) (site : Site) (recording : Bool) (he : Effective p s.frame) :
    (∀ flow t, run g site recording p s = .ok flow t → flow = .next ∧
      (t.frame.stack.length : Int) = s.frame.stack.length + (stackEffect p).2 ∧
      t.frame.stack.drop ((stackEffect p).1 + (stackEffect p).2).toNat =
        s.frame.stack.drop (stackEffect p).1) ∧
    ((stackEffect p).1 ≤ s.frame.stack.length → ∀ ip t,
      run g site recording p s = .error (.stackUnderflow ip) t →
        ∃ t, run (g.lacking (.stackUnderflow ip)) site recording p s = .error .outOfFuel t) := by
  refine ⟨fun flow t h => ?_, fun enough ip t h => ?_⟩
  · obtain ⟨y, hy, shifts⟩ := run_shifts g.safe site recording (Regime.heights_suits p) he
      trivial trivial (.inr fun _ _ h => h.elim)
    rw [hy] at h
    obtain ⟨_, u, hr, h⟩ := bind_ok.mp h
    cases h
    rw [hr] at shifts
    obtain ⟨-, -, len, below⟩ := shifts
    have more := stackEffect_nonneg p
    exact ⟨rfl, by omega, below⟩
  · refine run_lacking h fun t own => ?_
    obtain ⟨y, hy, shifts⟩ := run_shifts (g.lacking_safe ip) site recording
      (Regime.provided_suits p) he trivial trivial (.inl enough)
    rw [hy] at own
    unfold thenNext at own
    rw [bind_apply] at own
    cases hr : y s with
    | ok a u =>
      rw [hr] at own
      cases own
    | error e u =>
      rw [hr] at own shifts
      cases own
      exact shifts.2.2 rfl

end Primitive

/-! ### A callee that misses a value -/

/-- The parts of a unit that takes a value off its stack before any is there. -/
def CodeParts.short : CodeParts where
  name := "short"
  words := #[.ofOpcode .popTop, .ofOpcode .loadConst, ⟨1⟩, .ofOpcode .returnValue]
  consts := #[.none]

/-- The unit with these parts. -/
def CodeUnit.short : CodeUnit := (CodeUnit.ofParts 0 .short).toOption.getD default

/-- A frame that has on its stack a function of this unit, and a value below. -/
def Activation.short : Activation where
  frame :=
    { code := .short, globals := 0, builtins := 1, locals := #[], cells := #[]
      stack := [.function 0, .int 7] }
  machine :=
    { config := {}
      heap :=
        { units := #[.short], namespaces := #[{}, {}]
          functions := #[{ name := "short", code := 0, globals := 0 }] }
      units := #[{}]
      globals := 0
      builtins := 1
      bailError := false
      control := .never
      timer := .new 1 false }

/-- The fault that a computation ends with, if it ends with one. -/
def faultOf? : EStateM.Result Fault σ α → Option Fault
  | .ok .. => none
  | .error e _ => some e

theorem eq_error_of_faultOf? {r : EStateM.Result Fault σ α} (h : faultOf? r = some fault) :
    ∃ t, r = .error fault t := by
  cases r with
  | ok => cases h
  | error e t =>
    cases h
    exact ⟨t, rfl⟩

/-- The call has all that it needs, and still ends because a value is missing. -/
theorem callee_misses_value :
    CodeUnit.ofParts 0 .short = .ok .short ∧
    (stackEffect ⟨.callFunction, some 0⟩).1 ≤ Activation.short.frame.stack.length ∧
    ∃ t, Primitive.run (guestWithin 9) ⟨4, 0⟩ true ⟨.callFunction, some 0⟩ .short =
      .error (.stackUnderflow 0) t :=
  ⟨eq_ok_of_isSome (by decide +kernel), by decide, eq_error_of_faultOf? (by decide +kernel)⟩

theorem run_bears_out_of_short :
    Primitive.Effective ⟨.callFunction, some 0⟩ Activation.short.frame ∧
    (stackEffect ⟨.callFunction, some 0⟩).1 ≤ Activation.short.frame.stack.length ∧
    ∃ t, Primitive.run ((guestWithin 9).lacking (.stackUnderflow 0)) ⟨4, 0⟩ true
      ⟨.callFunction, some 0⟩ .short = .error .outOfFuel t := by
  have plain : Primitive.Effective ⟨.callFunction, some 0⟩ Activation.short.frame := .inl rfl
  have enough : (stackEffect ⟨.callFunction, some 0⟩).1 ≤ Activation.short.frame.stack.length := by
    decide
  obtain ⟨t, ends⟩ : ∃ t, Primitive.run (guestWithin 9) ⟨4, 0⟩ true ⟨.callFunction, some 0⟩
      .short = .error (.stackUnderflow 0) t := eq_error_of_faultOf? (by decide +kernel)
  exact ⟨plain, enough,
    (Primitive.run_bears_out (guestWithin 9) ⟨4, 0⟩ true plain).2 enough 0 t ends⟩

end TieredMachine
