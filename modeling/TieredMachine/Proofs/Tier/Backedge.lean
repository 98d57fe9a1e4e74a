/-
  The backward jumps of a run.

  The interpreter follows the flow out of every instruction.  A jump to the instruction itself, or
  to one before it, is counted as one backward jump of the unit and makes it hotter by the
  configured weight.  No other flow touches a profile: a `continue` restarts its loop through the
  unwinding of the blocks, where nothing is counted.  What else happens to the profile of a unit
  in a run is what the calls of its instructions make of it.

  * `Turned`, `turnsOf`: the instructions of a run, each with the flow that is followed;
  * `direct_profile`: what following a flow does to a profile;
  * `Heated`: a profile that counts so many backward jumps, among other changes;
  * `interpretFrom_heated`, `Heated.counted`: a run;
  * `interpret_counts`: all of these taken together.
-/
import Mathlib.Logic.Relation
import TieredMachine.Proofs.Agreement.Interpreter
import TieredMachine.Proofs.Host.Frame
import TieredMachine.Proofs.Tier.Standing

namespace TieredMachine

/-! ## The instructions of a run -/

/-- Whether a flow is a jump to the instruction begun last, or to one before it. -/
def Flow.jumpsBack (f : Frame) : Flow → Bool
  | .jump target => f.isBackward target
  | _ => false

/-- An instruction of a run. -/
structure Turned where
  /-- where it is begun -/
  before : Activation
  /-- where the flow out of it is followed, or where it has failed -/
  after : Activation
  flow? : Option Flow

namespace Turned

/-- Whether a backward jump of a unit is counted. -/
def heats (r : Ref) (x : Turned) : Bool :=
  x.after.frame.code.id == r && x.flow?.any (·.jumpsBack x.after.frame)

/-- Whether a jump or a `continue` transfers control back to the instruction or to one before
    it. -/
def goesBack (w : Watch) (x : Turned) : Bool :=
  match x.flow? with
  | some (.jump target) => x.after.frame.isBackward target
  | some (.unwind (.continue_ target)) =>
    match direct w (.unwind (.continue_ target)) x.after with
    | .ok none t => t.frame.isBackward t.frame.ip
    | _ => false
  | _ => false

/-- Of the instructions that transfer control back, those that do not `continue` are counted. -/
theorem heats_iff (w : Watch) (r : Ref) (x : Turned) : x.heats r ↔
    x.after.frame.code.id = r ∧ x.goesBack w ∧
      ∀ target, x.flow? ≠ some (.unwind (.continue_ target)) := by
  obtain ⟨before, after, flow?⟩ := x
  match flow? with
  | none => simp [heats, goesBack]
  | some (.jump target) => simp [heats, goesBack, Flow.jumpsBack]
  | some (.unwind (.continue_ target)) => simp [heats, Flow.jumpsBack]
  | some .next | some (.yield_ _) | some (.raise _ _) | some (.unwind (.exception _))
  | some (.unwind (.return_ _)) | some (.unwind .break_) =>
    simp [heats, goesBack, Flow.jumpsBack]

end Turned

/-- The instructions of a run, at most `n`. -/
def turnsFrom (g : Guest) (w : Watch) : Nat → Activation → List Turned
  | 0, _ => []
  | n + 1, s => match step g w s with
    | .error _ t => [⟨s, t, none⟩]
    | .ok flow t => ⟨s, t, some flow⟩ :: match direct w flow t with
      | .ok none t => turnsFrom g w n t
      | _ => []

/-- The instructions of a run of the interpreter. -/
def turnsOf (g : Guest) (entry : Entry) (s : Activation) : List Turned :=
  let w := s.machine.watch s.frame.code.id
  match enter w entry s with
  | .ok none t => turnsFrom g w g.fuel t
  | _ => []

/-! ## Following a flow -/

/-- The profile of a unit changes by steps of some kind, and no unit comes or goes. -/
structure Machine.Changes (R : Profile → Profile → Prop) (r : Ref) (m m' : Machine) : Prop where
  size : m'.units.size = m.units.size
  profile : Relation.ReflTransGen R (m.profile r) (m'.profile r)

/-- The law that the profile of a unit changes by steps of some kind only. -/
def changesLaw (R : Profile → Profile → Prop) (r : Ref) : Law where
  config := {}
  holds _ := False
  past _ := False
  kept m m' := m.Changes R r m'
  kept_refl _ := ⟨rfl, .refl⟩
  kept_trans h h' := ⟨h'.size.trans h.size, h.profile.trans h'.profile⟩
  past_of_kept _ h := h

instance (R : Profile → Profile → Prop) (r : Ref) : (changesLaw R r).TierOnly where
  configured h := h.elim
  holds_of_same _ h := h
  kept_of_same same := ⟨same.size, same.profile r ▸ .refl⟩

theorem Machine.Changes.eq {r : Ref} {m m' : Machine} (h : m.Changes Eq r m') :
    m'.profile r = m.profile r := by
  have same := h.profile
  rw [Relation.reflTransGen_eq_self] at same
  exact same.symm

variable {g : Guest} {w : Watch} {r : Ref} {R : Profile → Profile → Prop}

/-- Following a flow that is no jump changes no profile. -/
theorem direct_still (w : Watch) {flow : Flow} (h : ∀ target, flow ≠ .jump target) (t : Activation) :
    t.machine.Changes Eq r (finalState (direct w flow t)).machine :=
  have agrees : Agrees (freeWorld (lawWorld (changesLaw Eq r))) .left (direct w flow)
      (direct w flow) := Law.direct_agrees_of_ne_jump w (Law.addsAlike flow) h
  agrees.left t

/-- Following a jump. -/
theorem direct_jump_apply (w : Watch) (target : Nat) (t : Activation) :
    direct w (.jump target) t = .ok none ⟨{ t.frame with ip := target },
      if t.frame.isBackward target then
        t.machine.mapProfile t.frame.code.id (·.recordBackedge w.backedgeWeight)
      else t.machine⟩ := by
  show Law.jumpFrom w target t.frame t = _
  unfold Law.jumpFrom
  cases t.frame.isBackward target <;> rfl

theorem direct_size (w : Watch) (flow : Flow) (t : Activation) :
    (finalState (direct w flow t)).machine.units.size = t.machine.units.size := by
  have still (h : ∀ target, flow ≠ .jump target) := (direct_still (r := 0) w h t).size
  cases flow with
  | jump target =>
    rw [direct_jump_apply]
    show (if _ then _ else _ : Machine).units.size = _
    split
    · exact Machine.size_mapProfile _ _ _
    · rfl
  | _ => exact still fun _ => Flow.noConfusion

/-- **Following a flow** counts a backward jump of the unit when it is one, and else leaves the
    profile of every unit alone. -/
theorem direct_profile (w : Watch) (flow : Flow) (s : Activation) {t : Activation}
    (hr : r < t.machine.units.size) :
    (finalState (direct w flow t)).machine.profile r =
      if Turned.heats r ⟨s, t, some flow⟩ then
        (t.machine.profile r).recordBackedge w.backedgeWeight
      else t.machine.profile r := by
  have still (h : ∀ target, flow ≠ .jump target) :=
    (direct_still (r := r) w h t).eq
  cases flow with
  | jump target =>
    rw [direct_jump_apply]
    show (if _ then _ else _ : Machine).profile r = _
    by_cases back : t.frame.isBackward target
    · rw [if_pos back, Machine.profile_mapProfile]
      simp [Turned.heats, Flow.jumpsBack, back, hr]
    · simp [Turned.heats, Flow.jumpsBack, back]
  | _ =>
    rw [still fun _ => Flow.noConfusion]
    simp [Turned.heats, Flow.jumpsBack]

/-! ## Runs -/

/-- Two profiles count as many backward jumps, and are as hot. -/
def Profile.SameCounts (p p' : Profile) : Prop :=
  p'.backedges = p.backedges ∧ p'.hotness = p.hotness

instance : Std.Refl Profile.SameCounts := ⟨fun _ => ⟨rfl, rfl⟩⟩

instance : IsTrans Profile Profile.SameCounts :=
  ⟨fun _ _ _ h h' => ⟨h'.1.trans h.1, h'.2.trans h.2⟩⟩

/-- The profile `p'` comes from `p` by `n` backward jumps of some weight, among other changes. -/
inductive Heated (R : Profile → Profile → Prop) (weight : UInt64) : Nat → Profile → Profile → Prop
  | calls {p p'} (h : Relation.ReflTransGen R p p') : Heated R weight 0 p p'
  | jump {n p q p'} (h : Relation.ReflTransGen R p q)
      (rest : Heated R weight n (q.recordBackedge weight) p') :
      Heated R weight (n + 1) p p'

namespace Heated

variable {weight : UInt64} {n : Nat} {p q p' : Profile}

/-- Other changes may come first. -/
theorem after (rest : Heated R weight n q p') (h : Relation.ReflTransGen R p q) :
    Heated R weight n p p' := by
  cases rest with
  | calls h' => exact .calls (h.trans h')
  | jump h' rest => exact .jump (h.trans h') rest

/-- An instruction comes first, which may be a backward jump. -/
theorem turned {back : Bool} {after : Profile} (rest : Heated R weight n after p')
    (h : Relation.ReflTransGen R p q) (followed : after = if back then q.recordBackedge weight else q) :
    Heated R weight (n + if back then 1 else 0) p p' := by
  subst followed
  cases back with
  | false => exact rest.after h
  | true => exact .jump h rest

/-- Where nothing else changes the counters, they count the backward jumps. -/
theorem counted (h : Heated Profile.SameCounts weight n p p') :
    p'.backedges = p.backedges + n ∧ p'.hotness = p.hotness + .ofNat n * weight := by
  have still {a b : Profile} (h : Relation.ReflTransGen Profile.SameCounts a b) : a.SameCounts b := by
    rw [Relation.reflTransGen_eq_self] at h
    exact h
  induction h with
  | calls h =>
    obtain ⟨backedges, hotness⟩ := still h
    exact ⟨backedges, by simp [hotness]⟩
  | @jump n p q p' h rest ih =>
    obtain ⟨backedges, hotness⟩ := still h
    rw [ih.1, ih.2]
    refine ⟨?_, ?_⟩
    · show q.backedges + 1 + n = _
      omega
    · show q.hotness + weight + .ofNat n * weight = _
      rw [hotness, UInt64.ofNat_add]
      grind

end Heated

theorem turnsFrom_error {n : Nat} {s t : Activation} {e : Fault} (h : step g w s = .error e t) :
    turnsFrom g w (n + 1) s = [⟨s, t, none⟩] := by
  rw [turnsFrom, h]

theorem turnsFrom_ok {n : Nat} {s t : Activation} {flow : Flow} (h : step g w s = .ok flow t) :
    turnsFrom g w (n + 1) s = ⟨s, t, some flow⟩ :: match direct w flow t with
      | .ok none t => turnsFrom g w n t
      | _ => [] := by
  rw [turnsFrom, h]

/-- A run of the interpreter counts its backward jumps, among what its instructions make of the
    profile. -/
theorem interpretFrom_heated (n : Nat) {s : Activation} (hr : r < s.machine.units.size)
    (calls : ∀ x ∈ turnsFrom g w n s, x.before.machine.Changes R r x.after.machine) :
    Heated R w.backedgeWeight ((turnsFrom g w n s).countP (·.heats r)) (s.machine.profile r)
      ((finalState (interpretFrom g w n s)).machine.profile r) := by
  -- the induction is on the instructions that may follow
  induction n generalizing s with
  | zero => exact .calls .refl
  | succ n ih =>
    rw [interpretFrom_succ, turn, bind_apply]
    cases hstep : step g w s with
    | error e t =>
      rw [turnsFrom_error hstep] at calls ⊢
      have uncounted : [Turned.mk s t none].countP (·.heats r) = 0 := by simp [Turned.heats]
      rw [uncounted]
      exact .calls (calls _ List.mem_cons_self).profile
    | ok flow t =>
      rw [turnsFrom_ok hstep] at calls ⊢
      obtain ⟨called, later⟩ := List.forall_mem_cons.mp calls
      have followed := direct_profile w flow s (t := t) (called.size ▸ hr)
      have size := direct_size w flow t
      rw [List.countP_cons]
      refine Heated.turned ?_ called.profile followed
      dsimp only at later ⊢
      generalize direct w flow t = result at later size ⊢
      cases result with
      | error e t' => exact .calls .refl
      | ok exit t' =>
        cases exit with
        | some exit => exact .calls .refl
        | none =>
          have ht : r < t'.machine.units.size := by
            rw [show t'.machine.units.size = _ from size, called.size]
            exact hr
          exact ih ht later

/-- What the calls of the engine make of a profile is all that an instruction makes of it. -/
theorem turnsFrom_changes (hg : Aligned (changesLaw R r) .left g g) (n : Nat) (s : Activation) :
    ∀ x ∈ turnsFrom g w n s, x.before.machine.Changes R r x.after.machine := by
  induction n generalizing s with
  | zero => exact fun _ h => absurd h List.not_mem_nil
  | succ n ih =>
    have stepped := (Law.step_agrees hg w).left s
    cases hstep : step g w s with
    | error e t =>
      rw [hstep] at stepped
      rw [turnsFrom_error hstep]
      exact List.forall_mem_singleton.mpr stepped
    | ok flow t =>
      rw [hstep] at stepped
      rw [turnsFrom_ok hstep]
      refine List.forall_mem_cons.mpr ⟨stepped, ?_⟩
      split
      · exact ih _
      · exact fun _ h => absurd h List.not_mem_nil

/-- Entering a frame changes no profile. -/
theorem enter_still (w : Watch) (entry : Entry) (s : Activation) :
    s.machine.Changes Eq r (finalState (enter w entry s)).machine := by
  have told : Agrees (freeWorld (lawWorld (changesLaw Eq r))) .left (tellTracer w .call)
      (tellTracer w .call) := Law.tellTracer_agrees w _
  have pushed (v : Value) : Agrees (freeWorld (lawWorld (changesLaw Eq r))) .left (push v) (push v) :=
    (push_agrees v).free
  cases entry with
  | call => exact (told.left.bind fun _ => .pure _) s
  | resume v => exact ((pushed v).left.bind fun _ => .pure _) s
  | throw_ exc =>
    have other (target : Nat) : Flow.raise exc true ≠ .jump target := Flow.noConfusion
    exact direct_still w other s
  | continue_ => exact ⟨rfl, .refl⟩

theorem interpret_heated (g : Guest) (entry : Entry) {s : Activation}
    (hr : r < s.machine.units.size)
    (calls : ∀ x ∈ turnsOf g entry s, x.before.machine.Changes R r x.after.machine) :
    Heated R (.ofNat s.machine.config.backedgeWeight) ((turnsOf g entry s).countP (·.heats r))
      (s.machine.profile r) ((finalState (interpret g entry s)).machine.profile r) := by
  generalize hw : s.machine.watch s.frame.code.id = w
  have weight : UInt64.ofNat s.machine.config.backedgeWeight = w.backedgeWeight := hw ▸ rfl
  have entered := enter_still (r := r) w entry s
  have run : interpret g entry s = (enter w entry >>= goOn g w g.fuel) s := hw ▸ rfl
  rw [weight, run, bind_apply]
  unfold turnsOf at calls ⊢
  rw [hw] at calls ⊢
  dsimp only at calls ⊢
  generalize enter w entry s = result at calls entered ⊢
  cases result with
  | error e t => exact .calls (entered.eq ▸ .refl)
  | ok exit t =>
    cases exit with
    | some exit => exact .calls (entered.eq ▸ .refl)
    | none =>
      have same : t.machine.profile r = s.machine.profile r := entered.eq
      rw [← same]
      exact interpretFrom_heated g.fuel (entered.size ▸ hr) calls

theorem turnsOf_changes (hg : Aligned (changesLaw R r) .left g g) (entry : Entry) (s : Activation) :
    ∀ x ∈ turnsOf g entry s, x.before.machine.Changes R r x.after.machine := by
  unfold turnsOf
  dsimp only
  split
  · exact turnsFrom_changes hg _ _
  · exact fun _ h => absurd h List.not_mem_nil

/-- **The backward jumps of a run.**

    * Whatever flow is followed, the profile of a unit counts a backward jump of its frame when it
      is one, and else stays as it is; so a `continue` leaves it alone.
    * A run makes of the profile what its backward jumps make of it, each counted once and with
      the configured weight, among what its instructions make of it.
    * Where those leave the counters alone, they count the backward jumps exactly.
    * An instruction makes of the profile what the calls of the engine make of it.
    * The jumps and the `continue`s that transfer control back are counted, except the
      `continue`s. -/
theorem interpret_counts (g : Guest) (entry : Entry) {s : Activation} {r : Ref}
    (hr : r < s.machine.units.size) :
    (∀ w flow (t : Activation), r < t.machine.units.size →
      (finalState (direct w flow t)).machine.profile r =
        if t.frame.code.id = r ∧ flow.jumpsBack t.frame then
          (t.machine.profile r).recordBackedge w.backedgeWeight
        else t.machine.profile r) ∧
    (∀ R : Profile → Profile → Prop,
      (∀ x ∈ turnsOf g entry s, x.before.machine.Changes R r x.after.machine) →
      Heated R (.ofNat s.machine.config.backedgeWeight) ((turnsOf g entry s).countP (·.heats r))
        (s.machine.profile r) ((finalState (interpret g entry s)).machine.profile r)) ∧
    ((∀ x ∈ turnsOf g entry s, x.before.machine.Changes Profile.SameCounts r x.after.machine) →
      ((finalState (interpret g entry s)).machine.profile r).backedges =
        (s.machine.profile r).backedges + (turnsOf g entry s).countP (·.heats r) ∧
      ((finalState (interpret g entry s)).machine.profile r).hotness =
        (s.machine.profile r).hotness + .ofNat ((turnsOf g entry s).countP (·.heats r)) *
          .ofNat s.machine.config.backedgeWeight) ∧
    (∀ R : Profile → Profile → Prop, Aligned (changesLaw R r) .left g g →
      ∀ x ∈ turnsOf g entry s, x.before.machine.Changes R r x.after.machine) ∧
    (∀ w (x : Turned), x.heats r ↔ x.after.frame.code.id = r ∧ x.goesBack w ∧
      ∀ target, x.flow? ≠ some (.unwind (.continue_ target))) := by
  refine ⟨fun w flow t ht => ?_, fun R => interpret_heated g entry hr,
    fun calls => (interpret_heated g entry hr calls).counted,
    fun R hg => turnsOf_changes hg entry s, fun w x => x.heats_iff w r⟩
  rw [direct_profile w flow t ht]
  simp [Turned.heats]

/-! ### A loop that counts down -/

/-- The parts of a unit that counts its argument down to 0, in a loop that is restarted by an
    instruction. -/
def CodeParts.countdown (restart : Opcode) : CodeParts where
  name := "f"
  argcount := 1
  words := #[.ofOpcode .setupLoop, ⟨29⟩, .ofOpcode .loadFast, ⟨1⟩, .ofOpcode .popJumpIfFalse, ⟨31⟩,
    .ofOpcode .loadFast, ⟨1⟩, .ofOpcode .loadConst, ⟨1⟩, .ofOpcode .binarySubtract,
    .ofOpcode .storeFast, ⟨1⟩, .ofOpcode restart, ⟨5⟩, .ofOpcode .popBlock, .ofOpcode .loadConst,
    ⟨3⟩, .ofOpcode .returnValue]
  consts := #[.int 1, .none]
  varnames := #["n"]

/-- The start of a call of the unit with the argument 3, and the machine. -/
def Activation.countdown (restart : Opcode) : Activation :=
  let u := (CodeUnit.ofParts 0 (.countdown restart)).toOption.getD default
  { frame := { code := u, globals := 0, builtins := 1, locals := #[some (.int 3)], cells := #[] }
    machine := { Machine.small {} with heap := { units := #[u], namespaces := #[{}, {}] } } }

/-- Its iterations end in backward jumps, and all of them are counted. -/
theorem interpret_counts_of_jumps :
    let s := Activation.countdown .jumpAbsolute
    let g := guestWithin 100
    0 < s.machine.units.size ∧
    (∀ x ∈ turnsOf g .call s, x.before.machine.Changes Profile.SameCounts 0 x.after.machine) ∧
    ((finalState (interpret g .call s)).machine.profile 0).backedges = 3 ∧
    ((finalState (interpret g .call s)).machine.profile 0).hotness = 30 := by
  intro s g
  have calls : ∀ x ∈ turnsOf g .call s,
      x.before.machine.Changes Profile.SameCounts 0 x.after.machine := by
    have still : ∀ x ∈ turnsOf g .call s,
        x.after.machine.units.size = x.before.machine.units.size ∧
        (x.after.machine.profile 0).backedges = (x.before.machine.profile 0).backedges ∧
        (x.after.machine.profile 0).hotness = (x.before.machine.profile 0).hotness := by
      decide +kernel
    exact fun x hx => ⟨(still x hx).1, .single (still x hx).2⟩
  have times : (turnsOf g .call s).countP (·.heats 0) = 3 := by decide +kernel
  have counts := (interpret_counts g .call (s := s) (r := 0) (by decide +kernel)).2.2.1 calls
  rw [times] at counts
  exact ⟨by decide +kernel, calls, counts⟩

/-- Its iterations end in a `continue`, and none of them is counted. -/
theorem continues_are_not_counted :
    let g := guestWithin 100
    let jumps := Activation.countdown .jumpAbsolute
    let continues := Activation.countdown .continueLoop
    (turnsOf g .call jumps).countP (·.goesBack (jumps.machine.watch 0)) = 3 ∧
    ((finalState (interpret g .call jumps)).machine.profile 0).backedges = 3 ∧
    (turnsOf g .call continues).countP (·.goesBack (continues.machine.watch 0)) = 3 ∧
    ((finalState (interpret g .call continues)).machine.profile 0).backedges = 0 ∧
    ((finalState (interpret g .call continues)).machine.profile 0).hotness = 0 := by
  decide +kernel

end TieredMachine
