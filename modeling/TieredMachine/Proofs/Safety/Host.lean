/-
  Engines under hosts keep machines valid.

  A host is *careful* when its scripts leave valid heaps valid, run only modules without
  free variables, and fail with no fault of their own that validation rules out.  Whatever
  a careful host does in the middle of guest code, the machine stays valid.

  * `Script.Careful`, `Host.Careful`: careful hosts;
  * `Script.perform_safe`: what a script does;
  * `watchedBy`: the engine under a host, where something watches the runs of frames;
  * `watchedBy_valid`: it keeps machines valid.
-/
import TieredMachine.Proofs.Safety.Run

namespace TieredMachine

variable {us : Array CodeUnit} {stops : Nat → Prop} {u : CodeUnit} {g : Guest} {α : Type}

/-! ## Scripts -/

/-- An answer that a run of guest code may give. -/
def Permitted (us : Array CodeUnit) (stops : Nat → Prop) (answer : Except Fault α) : Prop :=
  ∀ e, answer = .error e → ∀ u, (Regime.validated us stops u).permits e

/-- The script keeps valid machines valid, as long as runs of guest code do. -/
inductive Script.Careful (us : Array CodeUnit) (stops : Nat → Prop) : Script → Prop
  | done {v} : Careful us stops (.done v)
  | fail {e} : (∀ u, (Regime.validated us stops u).permits e) → Careful us stops (.fail e)
  | look {next} : (∀ m : Machine, m.Valid us → Careful us stops (next m)) →
      Careful us stops (.look next)
  | turn {k next} : (∀ answer, Careful us stops (next answer)) → Careful us stops (.turn k next)
  | edit {f next} : (∀ m : Machine, m.Valid us → (m.mapHeap f).Valid us) →
      Careful us stops next → Careful us stops (.edit f next)
  | call {callee args kwargs next} :
      (∀ answer, Permitted us stops answer → Careful us stops (next answer)) →
      Careful us stops (.call callee args kwargs next)
  | resume {generator how next} :
      (∀ answer, Permitted us stops answer → Careful us stops (next answer)) →
      Careful us stops (.resume generator how next)
  | run {unit next} : (unitAt us unit).freevars.size = 0 →
      (∀ answer, Permitted us stops answer → Careful us stops (next answer)) →
      Careful us stops (.run unit next)

/-- The scripts of the host are careful. -/
def Host.Careful (us : Array CodeUnit) (stops : Nat → Prop) (host : Host) : Prop :=
  ∀ callee args kwargs script, host callee args kwargs = some script → script.Careful us stops

/-- A host that does nothing is careful. -/
theorem Host.careful_idle : Host.idle.Careful us stops :=
  fun _ _ _ _ h => by cases h

theorem check_safe (a : Alarm) (x : Moment) : Safe (.validated us stops u) (a.check x) := by
  refine .readThen fun m => ?_
  split
  · exact outOfFuel_safe
  · exact .ret ()

/-- A fault of guest code is an answer, unless the run was stopped. -/
theorem attempt_safe {x : Exec α} (hx : ∀ u, Safe (.validated us stops u) x)
    {k : Except Fault α → Exec Value}
    (hk : ∀ answer, Permitted us stops answer → Safe (.validated us stops u) (k answer)) :
    Safe (.validated us stops u) (attempt x >>= k) := by
  have answered : Safe (.validated us stops u) (attempt x) :=
    ((hx u).mapped Except.ok).handle fun e he => by
      cases e with
      | outOfFuel => exact outOfFuel_safe
      | _ => exact .ret _
  refine answered.andThenOf (Permitted us stops) (fun m answer t hm h => ?_) hk
  rintro e rfl v
  have safe := hx v m hm
  rw [attempt, tryCatch_apply, ← bind_pure_comp, bind_apply] at h
  cases hr : x m with
  | ok a t =>
    rw [hr] at h
    cases h
  | error e' t' =>
    rw [hr] at safe h
    cases e' <;> cases h <;> exact safe.2

/-- **A careful script** keeps the machine valid. -/
theorem Script.perform_safe (hu : Built us) (hg : g.Valid us stops) (a : Alarm) {s : Script}
    (hs : s.Careful us stops) : Safe (.validated us stops u) (s.perform a g) := by
  induction hs with
  | done => exact .ret _
  | fail he => exact .fail (he u)
  | look _ ih => exact (check_safe a _).andThen fun _ => .lookThen ih
  | @turn k next _ ih =>
    have turned : Safe (.validated us stops u) (modifyGet k.turn) :=
      fun m hm => Machine.Valid.turn hm k
    exact (check_safe a _).andThen fun _ => turned.andThen ih
  | edit hf _ ih =>
    exact Safe.andThen (fun m hm => hf m hm) fun _ => ih
  | call _ ih => exact attempt_safe (fun v => hg.call v _ _ _) ih
  | resume _ ih => exact attempt_safe (fun v => resumeGenerator_safe hg _ _) ih
  | run closed _ ih => exact attempt_safe (fun v => moduleOn_safe hg hu closed) ih

/-! ## Engines -/

/-- Runs a frame, unless the alarm goes off. -/
def runUnder (a : Alarm) (g : Guest) (entry : Entry) : FrameExec Exit := do
  let f ← frame
  onMachine (a.check (.run entry f))
  runFrame g entry

/-- Calls a value under a host, unless the alarm goes off. -/
def callUnder (host : Host) (a : Alarm) (g : Guest) (callee : Value) (args : List Value)
    (kwargs : List (String × Value)) : Exec Value := do
  a.check (.call callee args kwargs)
  match host callee args kwargs with
  | some script => script.perform a g
  | none => callWith g callee args kwargs

/-- The engine under a host, with at most `fuel` calls and runs nested, where something
    watches the runs of frames. -/
def watchedBy (watch : FrameExec Exit → FrameExec Exit) (host : Host) (a : Alarm) : Nat → Guest
  | 0 => hosted host a 0
  | fuel + 1 =>
    let g := watchedBy watch host a fuel
    ⟨fuel + 1, callUnder host a g, fun entry => watch (runUnder a g entry), pollNow⟩

/-- Where nothing watches, it is the engine under the host. -/
theorem watchedBy_id (host : Host) (a : Alarm) (fuel : Nat) :
    watchedBy id host a fuel = hosted host a fuel := by
  induction fuel with
  | zero => rfl
  | succ fuel ih =>
    unfold watchedBy
    rw [ih]
    rfl

/-- What watches lets a run end only with a fault that validation permits. -/
def Watches (us : Array CodeUnit) (stops : Nat → Prop)
    (watch : FrameExec Exit → FrameExec Exit) : Prop :=
  ∀ r (P : Frame → Prop) (Q : Exit → Frame → Prop) x,
    Guides (.validated us stops (unitAt us r)) P x Q (Frame.Ends us stops (unitAt us r)) →
    Guides (.validated us stops (unitAt us r)) P (watch x) Q
      fun e _ => (Regime.validated us stops (unitAt us r)).permits e

/-- If control may leave the code anywhere, nothing has to watch. -/
theorem watches_id : Watches us (fun _ => True) id :=
  fun _ _ _ _ hx => hx.mono (fun _ h => h) (fun _ _ h => h) fun e _ h => by
    obtain h | ⟨rfl, -⟩ := h
    · exact h
    · exact ⟨rfl, fun _ _ => trivial⟩

theorem runUnder_guides (hu : Built us) (hg : g.Valid us stops) (a : Alarm) {r : Ref}
    (entry : Entry) :
    Guides (.validated us stops (unitAt us r)) (·.Rests (unitAt us r)) (runUnder a g entry)
      (fun exit f => f.Leaves (unitAt us r) exit) (Frame.Ends us stops (unitAt us r)) := by
  refine Guides.frameThen fun f hf => ?_
  have checked : Guides (.validated us stops (unitAt us r)) (· = f)
      (onMachine (a.check (.run entry f))) (fun _ => (·.Rests (unitAt us r)))
      (Frame.Ends us stops (unitAt us r)) :=
    Guides.machine (check_safe a _) (fun _ _ h => h ▸ hf) fun _ _ he _ => .inl he
  exact checked.andThen fun _ => runFrame_guides hu hg entry

theorem callUnder_safe (hu : Built us) (hg : g.Valid us stops) {host : Host}
    (hh : host.Careful us stops) (a : Alarm) (callee : Value) (args : List Value)
    (kwargs : List (String × Value)) :
    Safe (.validated us stops u) (callUnder host a g callee args kwargs) := by
  refine (check_safe a _).andThen fun _ => ?_
  split
  · rename_i script h
    exact Script.perform_safe hu hg a (hh callee args kwargs script h)
  · exact callWith_safe hg hu callee args kwargs

/-- **The engine under a careful host** keeps machines valid. -/
theorem watchedBy_valid (hu : Built us) {watch : FrameExec Exit → FrameExec Exit}
    (hw : Watches us stops watch) {host : Host} (hh : host.Careful us stops) (a : Alarm)
    (fuel : Nat) : (watchedBy watch host a fuel).Valid us stops := by
  induction fuel with
  | zero =>
    exact ⟨fun _ _ _ _ => outOfFuel_safe, fun _ _ => .fail fun _ _ => Regime.Closed.outOfFuel,
      fun _ kind => pollNow_safe kind⟩
  | succ fuel ih =>
    exact ⟨fun _ => callUnder_safe hu ih hh a,
      fun r entry => hw r _ _ _ (runUnder_guides hu ih a entry), fun _ kind => pollNow_safe kind⟩

end TieredMachine
