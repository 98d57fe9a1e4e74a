/-
  Engines under hosts that do the same.

  Two hosts do the same when their scripts do the same in the same order, apart from the
  knobs that they turn, whose effects and answers do not show in anything else that they
  do.  What such hosts do agrees on engines that agree.

  * `Knob.isHidden`: knobs whose effects guest code does not see;
  * `Script.Mirrors`, `Host.Mirrors`: scripts and hosts that do the same;
  * `Script.Mirrors.perform_agrees`: what they do agrees;
  * `plainly`: the engine without native code;
  * `plainly_guests`: it agrees with itself under hosts that do the same.
-/
import TieredMachine.Engine.Host
import TieredMachine.Proofs.Agreement.Yield
import TieredMachine.Proofs.Host.Law

namespace TieredMachine

variable {us : Array CodeUnit} {side : Side} {g g' : Guest} {α : Type}

/-! ## Knobs -/

/-- Whether what guest code does stays the same when the knob is turned. -/
def Knob.isHidden : Knob → Bool
  | setBailError on => !on
  | _ => true

theorem Knob.unseen_turn {k : Knob} (h : k.isHidden) :
    Machine.Unseen us fun m => (k.turn m).2 := by
  cases k with
  | setLevel unit n => exact .setLevel unit n
  | setUseNative unit on => exact .setUseNative unit on
  | resetTier unit => exact .resetTier unit
  | setControl c => exact .of (fun _ => rfl) (fun _ => rfl) fun _ _ _ h => h
  | setTracing on => exact .trace on
  | setBailError on =>
    cases on with
    | true => cases h
    | false =>
      exact ⟨fun _ => rfl, fun m hm => ⟨hm.units, hm.resting, hm.discreet, rfl, hm.backed⟩⟩
  | requestBail => exact .ask true

/-! ## Scripts that do the same -/

/-- A change of guest objects and names that a host may make. -/
structure Heap.Fitting (us : Array CodeUnit) (f : Heap → Heap) : Prop where
  evolves : ∀ h : Heap, h.Evolves (f h)
  sound : ∀ m : Machine, m.Sound us → (m.mapHeap f).Sound us

/-- The scripts do the same, apart from hidden knobs. -/
inductive Script.Mirrors (us : Array CodeUnit) : Script → Script → Prop
  | done {v} : Mirrors us (.done v) (.done v)
  | fail {e} : Mirrors us (.fail e) (.fail e)
  | look {next next'} : (∀ m m', m.sight = m'.sight → Mirrors us (next m) (next' m')) →
      Mirrors us (.look next) (.look next')
  | turnLeft {k next s'} : k.isHidden → (∀ answer, Mirrors us (next answer) s') →
      Mirrors us (.turn k next) s'
  | turnRight {k s next'} : k.isHidden → (∀ answer, Mirrors us s (next' answer)) →
      Mirrors us s (.turn k next')
  | edit {f next next'} : Heap.Fitting us f → Mirrors us next next' →
      Mirrors us (.edit f next) (.edit f next')
  | call {callee args kwargs next next'} : (∀ answer, Mirrors us (next answer) (next' answer)) →
      Mirrors us (.call callee args kwargs next) (.call callee args kwargs next')
  | resume {generator how next next'} : (∀ answer, Mirrors us (next answer) (next' answer)) →
      Mirrors us (.resume generator how next) (.resume generator how next')
  | run {unit next next'} : (∀ answer, Mirrors us (next answer) (next' answer)) →
      Mirrors us (.run unit next) (.run unit next')

/-- The hosts answer the same calls, with scripts that do the same. -/
def Host.Mirrors (us : Array CodeUnit) (host host' : Host) : Prop :=
  ∀ callee args kwargs, Option.Rel (Script.Mirrors us) (host callee args kwargs)
    (host' callee args kwargs)

theorem Host.mirrors_idle : Host.Mirrors us .idle .idle := fun _ _ _ => .none

/-! ## What they do agrees -/

/-- Taking faults as answers agrees. -/
theorem attempt_agrees {x y : Exec α} (h : Agrees (machineWorld us) side x y) :
    Agrees (machineWorld us) side (attempt x) (attempt y) := by
  have answered (e : Fault) :
      Agrees (machineWorld us) side (Fault.answer (α := α) e) (Fault.answer e) := by
    unfold Fault.answer
    split
    · exact .fail _
    · exact .ret _
  exact (h.mapped Except.ok).handle (fun e => (answered e).left) (fun e => (answered e).right)
    (fun e _ _ ht => (answered e).agree ht) (fun m => ⟨m, rfl⟩) fun m => ⟨m, rfl⟩

theorem newFrame_fresh (hu : Built us) {unit globals : Ref} {m t : Machine} {f : Frame}
    (h : newFrame (unitAt us unit) globals m = .ok f t) : f.Fresh us := by
  obtain ⟨m', m'', hm, h⟩ := bind_ok.mp h
  obtain ⟨cells, u, hc, h⟩ := bind_ok.mp h
  cases h
  exact ⟨by rw [hu.id], rfl, rfl, rfl, rfl, Array.size_replicate ..⟩

/-- Looking at the machine agrees when what follows does for sound machines that look
    alike. -/
theorem Agrees.lookThen {f g : Machine → Exec α} (hl : ∀ m, Keeps (machineWorld us) (f m))
    (hr : ∀ m, Keeps (machineWorld us) (g m))
    (h : ∀ m m', (machineWorld us).alike m m' → Agrees (machineWorld us) side (f m) (g m')) :
    Agrees (machineWorld us) side (get >>= f) (get >>= g) where
  left m := hl m m
  right m := hr m m
  agree {m m'} hm := (h m m' hm).agree hm

/-- What running a unit as the body of a module does with its frame. -/
def bodyOn (g : Guest) (name : String) (f : Frame) : Exec Value := do
  match ← nested ((g.run .call).onNew f) with
  | .return_ v => return v
  | .yield_ _ => throw (.runtime (.moduleYielded name))

theorem keeps_bodyOn (h : ∀ entry f, Keeps (machineWorld us) ((g.run entry).within f))
    (name : String) (f : Frame) : Keeps (machineWorld us) (bodyOn g name f) := by
  refine (keeps_nested (keeps_onNew (h .call f))).bind fun exit => ?_
  cases exit
  · exact .pure _
  · exact .throw _

theorem bodyOn_agrees (hg : Guests us side g g') (name : String) {f : Frame} (hf : f.Fresh us) :
    Agrees (machineWorld us) side (bodyOn g name f) (bodyOn g' name f) := by
  refine (nested_agrees (onNew_agrees (hg.run .call f hf))).andThen fun exit => ?_
  cases exit
  · exact .ret _
  · exact .fail _

/-- Running a unit as the body of a module agrees. -/
theorem moduleOn_agrees (hu : Built us) (hg : Guests us side g g') (unit : Ref) :
    Agrees (machineWorld us) side (moduleOn g unit) (moduleOn g' unit) := by
  have framed (u : CodeUnit) (globals : Ref) :
      Agrees (machineWorld us) .left (newFrame u globals) (newFrame u globals) :=
    .of (newFrame_agrees u globals)
  refine .lookThen
    (fun m => (framed _ _).left.bind fun f => keeps_bodyOn hg.keeps_left _ f)
    (fun m => (framed _ _).left.bind fun f => keeps_bodyOn hg.keeps_right _ f) fun m m' hm => ?_
  have globals : m.globals = m'.globals := congrArg Sight.globals hm.1
  rw [hm.2.1.fair.unit, hm.2.2.fair.unit, globals]
  exact (Agrees.of (newFrame_agrees (unitAt us unit) m'.globals)).andThenOf (·.Fresh us)
    (fun _ _ _ _ _ _ hf _ => newFrame_fresh hu hf) (keeps_bodyOn hg.keeps_left _)
    (keeps_bodyOn hg.keeps_right _) fun f hf => bodyOn_agrees hg _ hf

/-- Scripts that do the same agree. -/
theorem Script.Mirrors.perform_agrees (hu : Built us) (hg : Guests us side g g')
    {s s' : Script} (h : s.Mirrors us s') :
    Agrees (machineWorld us) side (s.perform .never g) (s'.perform .never g') := by
  induction h with
  | done => exact .ret _
  | fail => exact .fail _
  | look _ ih =>
    exact ⟨fun m => (ih m m rfl).left m, fun m => (ih m m rfl).right m,
      fun {m m'} hm => (ih m m' hm.1).agree hm⟩
  | @turnLeft k _ _ hk _ ih =>
    have hidden : Machine.Unseen us fun m => (k.turn m).2 := Knob.unseen_turn hk
    exact ⟨fun m => (machineWorld us).kept_trans (hidden.kept m) ((ih (k.turn m).1).left _),
      (ih (.ok ())).right,
      fun {m _} hm => (ih (k.turn m).1).agree ((hidden.veiled m).alike_left hm)⟩
  | @turnRight k _ _ hk _ ih =>
    have hidden : Machine.Unseen us fun m => (k.turn m).2 := Knob.unseen_turn hk
    exact ⟨(ih (.ok ())).left,
      fun m => (machineWorld us).kept_trans (hidden.kept m) ((ih (k.turn m).1).right _),
      fun {_ m'} hm => (ih (k.turn m').1).agree ((hidden.veiled m').alike_right hm)⟩
  | edit hf _ ih => exact (Agrees.changeHeap hf.evolves hf.sound).andThen fun _ => ih
  | call _ ih => exact (attempt_agrees (hg.call _ _ _)).andThen ih
  | resume _ ih => exact (attempt_agrees (resumeGenerator_agrees hg _ _)).andThen ih
  | run _ ih => exact (attempt_agrees (moduleOn_agrees hu hg _)).andThen ih

/-! ## The engine without native code -/

/-- The engine that interprets every frame, with at most `fuel` calls and runs nested. -/
def plainly (host : Host) : Nat → Guest
  | 0 => ⟨0, fun _ _ _ => throw .outOfFuel, fun _ => throw .outOfFuel, pollNow⟩
  | fuel + 1 =>
    let g := plainly host fuel
    { fuel := fuel + 1
      call := fun callee args kwargs => match host callee args kwargs with
        | some script => script.perform .never g
        | none => callWith g callee args kwargs
      run := interpret g
      poll := pollNow }

@[simp]
theorem plainly_fuel (host : Host) (n : Nat) : (plainly host n).fuel = n := by
  cases n <;> rfl

theorem Keeps.within {x : FrameExec α} (h : Keeps (runWorld us) x) (f : Frame) :
    Keeps (machineWorld us) (x.within f) := by
  intro m
  rw [finalState_within]
  exact (h ⟨f, m⟩).2

/-- A run of a frame that is over says nothing when the run in the machine says nothing. -/
theorem spent_within {x : FrameExec α} {f : Frame} {m : Machine}
    (h : (runWorld us).Spent (x ⟨f, m⟩)) : (machineWorld us).Spent (x.within f m) := by
  obtain ⟨slack, s, h⟩ | h := h
  · refine .inl ⟨slack, s.machine, ?_⟩
    unfold FrameExec.within
    rw [h]
  · refine .inr ?_
    rw [finalState_within]
    exact h

/-- Runs of a frame that agree also agree as computations on the machine. -/
theorem Agree.within {x y : FrameExec α} {f : Frame} {m m' : Machine}
    (h : Agree (runWorld us) side (x ⟨f, m⟩) (y ⟨f, m'⟩)) :
    Agree (machineWorld us) side (x.within f m) (y.within f m') := by
  have left : (runWorld us).Spent (x ⟨f, m⟩) → (machineWorld us).Spent (x.within f m) :=
    spent_within
  have right : (runWorld us).Spent (y ⟨f, m'⟩) → (machineWorld us).Spent (y.within f m') :=
    spent_within
  unfold FrameExec.within at *
  generalize x ⟨f, m⟩ = r, y ⟨f, m'⟩ = r' at *
  cases h with
  | ok h =>
    obtain ⟨rfl, hf, hm⟩ := h
    exact .ok ⟨by rw [hf], hm⟩
  | error h => exact .error h.2
  | left hs h => exact .left hs (left h)
  | right hs h => exact .right hs (right h)

/-- Runs of frames that agree also agree as computations on the machine. -/
theorem Agrees.runWithin {x y : FrameExec α} (h : Agrees (runWorld us) side x y) (f : Frame) :
    Agrees (machineWorld us) side (x.within f) (y.within f) where
  left := h.left.within f
  right := h.right.within f
  agree {m m'} hm := by
    have alike : (runWorld us).alike ⟨f, m⟩ ⟨f, m'⟩ := ⟨rfl, hm⟩
    exact (h.agree alike).within

theorem within_ok {x : FrameExec α} {f f' : Frame} {m t : Machine} {a : α}
    (h : x.within f m = .ok (a, f') t) : x ⟨f, m⟩ = .ok a ⟨f', t⟩ := by
  unfold FrameExec.within at h
  cases hx : x ⟨f, m⟩ with
  | ok b s =>
    rw [hx] at h
    cases h
    rfl
  | error e s =>
    rw [hx] at h
    cases h

/-- A frame that can be entered runs code of the machine. -/
theorem Frame.Ready.code {f : Frame} {entry : Entry} (h : f.Ready us entry) :
    f.code = unitAt us f.code.id := by
  cases entry with
  | call => exact Fresh.code h
  | resume v => exact Suspended.code h
  | throw_ exc => exact h.elim (·.code) (·.code)
  | continue_ => exact h.elim

/-- One more call nested on both sides. -/
theorem plainly_succ (hu : Built us) {host host' : Host} (hh : host.Mirrors us host')
    {n n' : Nat} (hg : Guests us side (plainly host n) (plainly host' n'))
    (h : side.bounds (n + 1) (n' + 1)) :
    Guests us side (plainly host (n + 1)) (plainly host' (n' + 1)) where
  fuel := h
  call callee args kwargs := by
    have answered := hh callee args kwargs
    show Agrees _ _ (match host callee args kwargs with
      | some script => script.perform .never (plainly host n)
      | none => callWith (plainly host n) callee args kwargs)
      (match host' callee args kwargs with
      | some script => script.perform .never (plainly host' n')
      | none => callWith (plainly host' n') callee args kwargs)
    generalize host callee args kwargs = a, host' callee args kwargs = a' at answered
    cases answered with
    | none => exact callWith_agrees hu hg callee args kwargs
    | some h => exact h.perform_agrees hu hg
  run entry f _ := (interpret_agrees hg entry).runWithin f
  keeps_left entry f := (interpret_agrees hg entry).left.within f
  keeps_right entry f := (interpret_agrees hg entry).right.within f
  yields _ _ _ _ hf _ _ _ _ _ h _ := .inr (interpret_yields hu hg hf.code (within_ok h))

/-- Engines without native code agree under hosts that do the same. -/
theorem plainly_guests (hu : Built us) {host host' : Host} (hh : host.Mirrors us host')
    {n n' : Nat} (h : side.bounds n n') :
    Guests us side (plainly host n) (plainly host' n') := by
  have same (n : Nat) : Guests us side (plainly host n) (plainly host' n) := by
    induction n with
    | zero =>
      exact ⟨side.bounds_self 0, fun _ _ _ => .fail _, fun _ f _ => (Agrees.fail _).runWithin f,
        fun _ f => (Keeps.throw _).within f, fun _ f => (Keeps.throw _).within f,
        fun _ _ _ _ _ _ _ _ _ _ h => nomatch h⟩
    | succ n ih => exact plainly_succ hu hh ih (side.bounds_self _)
  induction n generalizing n' with
  | zero =>
    cases hs : side with
    | right =>
      have : n' = 0 := Nat.le_zero.mp (h.2 hs)
      rw [this, ← hs]
      exact same 0
    | left =>
      rw [← hs]
      exact ⟨by rwa [plainly_fuel, plainly_fuel], fun callee args kwargs =>
          .outOfFuel_left trivial ((same n').call _ _ _).right hs,
        fun entry f _ => .outOfFuel_left trivial ((same n').keeps_right entry f) hs,
        fun _ f => (Keeps.throw _).within f, (same n').keeps_right,
        fun _ _ _ _ _ _ _ _ _ _ h => nomatch h⟩
  | succ n ih =>
    cases n' with
    | succ n' =>
      exact plainly_succ hu hh (ih ⟨fun hs => Nat.le_of_succ_le_succ (h.1 hs),
        fun hs => Nat.le_of_succ_le_succ (h.2 hs)⟩) h
    | zero =>
      cases hs : side with
      | left => exact absurd (h.1 hs) (Nat.not_succ_le_zero n)
      | right =>
        rw [← hs]
        exact ⟨by rwa [plainly_fuel, plainly_fuel], fun callee args kwargs =>
            .outOfFuel_right trivial ((same (n + 1)).call _ _ _).left hs,
          fun entry f _ => .outOfFuel_right trivial ((same (n + 1)).keeps_left entry f) hs,
          (same (n + 1)).keeps_left, fun _ f => (Keeps.throw _).within f,
          fun _ _ _ _ _ _ _ _ _ _ _ h => nomatch h⟩

end TieredMachine
