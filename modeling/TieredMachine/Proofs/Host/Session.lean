/-
  Sessions under a law.

  Under a law that is upheld, a host does the same with either of two alarms, until one
  of them goes off or the law is over.  The law then says what holds at every moment of
  a session: stopping the session at the moment changes nothing about the tiers.

  * `hosted_aligned`: engines under a host that differ in their alarms agree;
  * `session_agrees`: so do sessions;
  * `Law.session_stands`: what the law says of a session.
-/
import TieredMachine.Proofs.Host.Native

namespace TieredMachine

variable {L : Law} {a b : Alarm} {α : Type}

theorem Alarm.check_apply (a : Alarm) (x : Moment) (m : Machine) :
    a.check x m = if a x m then .error .outOfFuel m else .ok () m := by
  unfold Alarm.check
  rw [bind_apply]
  show (if a x m then throw .outOfFuel else pure () : Exec Unit) m = _
  split <;> rfl

theorem Alarm.check_bind (a : Alarm) (x : Moment) (p : Exec α) (m : Machine) :
    (do a.check x; p) m = if a x m then .error .outOfFuel m else p m := by
  rw [bind_apply, Alarm.check_apply]
  by_cases h : a x m
  · simp only [h, if_true]
  · simp only [h]
    rfl

/-- An outcome in which the law stands agrees with itself. -/
theorem Agree.ofStands {side : Side} {r : EStateM.Result Fault Machine α}
    (h : L.Stands (finalState r)) : Agree (lawWorld L) side r r := by
  obtain holds | past := h
  · cases r with
    | ok v m => exact .same ⟨rfl, holds⟩
    | error e m => exact .error ⟨rfl, holds⟩
  · exact .past past past

/-- Every change of the heap that a script makes is of some kind. -/
def Script.Edits (p : (Heap → Heap) → Prop) : Script → Prop
  | done _ | fail _ => True
  | look next => ∀ m, (next m).Edits p
  | turn _ next => ∀ answer, (next answer).Edits p
  | edit f next => p f ∧ next.Edits p
  | call _ _ _ next => ∀ answer, (next answer).Edits p
  | resume _ _ next => ∀ answer, (next answer).Edits p
  | run _ next => ∀ answer, (next answer).Edits p

theorem Script.Edits.all {p : (Heap → Heap) → Prop} (hp : ∀ f, p f) (s : Script) : s.Edits p := by
  induction s with
  | done | fail => trivial
  | look _ ih | turn _ _ ih | call _ _ _ _ ih | resume _ _ _ ih | run _ _ ih => exact ih
  | edit f _ ih => exact ⟨hp f, ih⟩

theorem Script.Edits.mono {p q : (Heap → Heap) → Prop} {s : Script} (h : s.Edits p)
    (hpq : ∀ {f}, p f → q f) : s.Edits q := by
  induction s with
  | done | fail => trivial
  | look _ ih | turn _ _ ih | call _ _ _ _ ih | resume _ _ _ ih | run _ _ ih =>
    exact fun answer => ih answer (h answer)
  | edit f _ ih => exact ⟨hpq h.1, ih h.2⟩

/-- Every change of the heap that a host makes is of some kind. -/
def Host.Edits (p : (Heap → Heap) → Prop) (host : Host) : Prop :=
  ∀ {callee args kwargs script}, host callee args kwargs = some script → script.Edits p

namespace Law

variable {side : Side} {g g' : Guest}

/-- The second alarm goes off where the first does, except at runs of frames. -/
theorem Carried.goes_off (hL : L.Carried a b) {x : Moment} (hx : ∀ entry f, x ≠ .run entry f)
    {m : Machine} (hm : L.holds m) (ha : a x m = true) : b x m = true := by
  cases hb : b x m with
  | true => rfl
  | false =>
    obtain ⟨entry, f, hf, -⟩ := hL.ahead hm ha hb
    exact absurd hf (hx entry f)

theorem Carried.silent (hL : L.Carried a b) {x : Moment} {m : Machine} (ha : a x m = false) :
    b x m = false := by
  cases hb : b x m with
  | false => rfl
  | true => rw [hL.le hb] at ha; cases ha

/-- What happens at a moment agrees when it does wherever the alarm does not go off. -/
theorem checked_agrees (hL : L.Carried a b) {x : Moment} (hx : ∀ entry f, x ≠ .run entry f)
    {p q : Exec α} (hp : ∀ m, b x m = false → L.kept m (finalState (p m)))
    (hq : ∀ m, b x m = false → L.kept m (finalState (q m)))
    (h : ∀ m, L.holds m → a x m = false → Agree (lawWorld L) side (p m) (q m)) :
    Agrees (lawWorld L) side (do a.check x; p) (do b.check x; q) where
  left m := by
    rw [Alarm.check_bind]
    cases ha : a x m with
    | true => exact L.kept_refl m
    | false => exact hp m (hL.silent ha)
  right m := by
    rw [Alarm.check_bind]
    cases hb : b x m with
    | true => exact L.kept_refl m
    | false => exact hq m hb
  agree {m _} hm := by
    obtain ⟨rfl, hm⟩ := hm
    rw [Alarm.check_bind, Alarm.check_bind]
    cases ha : a x m with
    | true =>
      rw [hL.goes_off hx hm ha]
      exact .error ⟨rfl, hm⟩
    | false =>
      rw [hL.silent ha]
      exact h m hm ha

/-! ## Knobs that guest code turns -/

/-- An answer that is made from another one changes nothing. -/
theorem finalState_answer {β : Type} {x : Exec α} {f : α → Exec β} {m : Machine}
    (h : ∀ a, ∃ b, f a = pure b) : finalState ((x >>= f) m) = finalState (x m) := by
  rw [bind_apply]
  cases x m with
  | ok a m' =>
    obtain ⟨b, hb⟩ := h a
    show finalState (f a m') = m'
    rw [hb]
    rfl
  | error e m' => rfl

/-- A call of a knob that concerns a unit is the same for every engine.  It leaves the
    machine alone, or turns the knob. -/
theorem knob_call {m : Machine} {r : Ref} (args : List Value)
    (h : m.heap.builtin r = .setLevel ∨ m.heap.builtin r = .resetTier) :
    ∃ result, (∀ g, callWith g (.builtin r) args [] m = result) ∧
      (finalState result = m ∨ ∃ k,
        (Moment.call (.builtin r) args []).turned? m = some k ∧
          finalState result = (k.turn m).2) := by
  have looked : heap m = .ok m.heap m := rfl
  obtain level | reset := h
  · refine ⟨BuiltinFn.compileAt args m, fun g => ?_, ?_⟩
    · show (m.heap.builtin r).run g args m = _
      rw [level]
      rfl
    · unfold BuiltinFn.compileAt
      split
      · rename_i f n
        refine .inr ⟨.setLevel (m.heap.function f).code n.toInt, ?_, ?_⟩
        · simp only [Moment.turned?, level]
        · rw [bind_apply, looked]
          refine finalState_answer fun answer => ?_
          cases answer with
          | ok _ => exact ⟨_, rfl⟩
          | error e => exact ⟨_, rfl⟩
      · exact .inl rfl
  · refine ⟨BuiltinFn.resetTierOf args m, fun g => ?_, ?_⟩
    · show (m.heap.builtin r).run g args m = _
      rw [reset]
      rfl
    · unfold BuiltinFn.resetTierOf
      rw [bind_apply, looked]
      cases hu : args.head?.bind (BuiltinFn.unitOf? m.heap) with
      | none =>
        refine .inl ?_
        simp only [hu]
        rfl
      | some unit =>
        refine .inr ⟨.resetTier unit, ?_, ?_⟩
        · simp only [Moment.turned?, reset, hu, Option.map_some]
        · simp only [hu]
          rfl

/-- A call agrees where the alarm lets it pass. -/
theorem callWith_agrees [L.Eventful] (hL : L.Carried a b) (hg : Aligned L side g g') (callee : Value)
    (args : List Value) (kwargs : List (String × Value)) :
    Agrees (lawWorld L) side (do a.check (.call callee args kwargs); callWith g callee args kwargs)
      (do b.check (.call callee args kwargs); callWith g' callee args kwargs) := by
  -- a call of a knob is looked at in the machine that it is made in
  have outcome (m : Machine) : (∃ result, (∀ g, callWith g callee args kwargs m = result) ∧
      (finalState result = m ∨ ∃ k, (Moment.call callee args kwargs).turned? m = some k ∧
        finalState result = (k.turn m).2)) ∨
      Agrees (lawWorld L) side (callIn g m.heap callee args kwargs)
        (callIn g' m.heap callee args kwargs) := by
    by_cases knob : ∃ r, callee = .builtin r ∧
        (m.heap.builtin r = .setLevel ∨ m.heap.builtin r = .resetTier)
    · obtain ⟨r, rfl, hr⟩ := knob
      cases kwargs with
      | nil => exact .inl (knob_call args hr)
      | cons p kwargs => exact .inr (.of (typeError_agrees _))
    · refine .inr (hg.callIn_agrees m.heap callee args kwargs fun r hr => ⟨fun h => ?_, fun h => ?_⟩)
      · exact knob ⟨r, hr, .inl h⟩
      · exact knob ⟨r, hr, .inr h⟩
  refine checked_agrees hL (fun _ _ => Moment.noConfusion) (fun m hb => ?_) (fun m hb => ?_) fun m hm ha => ?_
  · obtain ⟨result, same, still | ⟨k, hk, turned⟩⟩ | agrees := outcome m
    · rw [same, still]
      exact L.kept_refl m
    · rw [same, turned]
      exact hL.endures.turn hk hb
    · exact agrees.left m
  · obtain ⟨result, same, still | ⟨k, hk, turned⟩⟩ | agrees := outcome m
    · rw [same, still]
      exact L.kept_refl m
    · rw [same, turned]
      exact hL.endures.turn hk hb
    · exact agrees.right m
  · obtain ⟨result, same, still | ⟨k, hk, turned⟩⟩ | agrees := outcome m
    · rw [same, same]
      exact .ofStands (still ▸ .inl hm)
    · rw [same, same]
      exact .ofStands (turned ▸ hL.turn hk hm ha)
    · exact agrees.agree ⟨rfl, hm⟩

/-! ## Hosts -/

/-- Taking faults as answers agrees. -/
theorem attempt_agrees {x y : Exec α} (h : Agrees (lawWorld L) side x y) :
    Agrees (lawWorld L) side (attempt x) (attempt y) := by
  have answered (e : Fault) :
      Agrees (lawWorld L) side (Fault.answer (α := α) e) (Fault.answer e) := by
    unfold Fault.answer
    split
    · exact .fail _
    · exact .ret _
  exact (h.mapped Except.ok).handle (fun e => (answered e).left) (fun e => (answered e).right)
    (fun e _ _ ht => (answered e).agree ht) (fun m => ⟨m, rfl⟩) fun m => ⟨m, rfl⟩

/-- Turning a knob agrees where the alarm lets it pass. -/
theorem turn_agrees (hL : L.Carried a b) (k : Knob) {p q : Except CompileError Unit → Exec α}
    (h : ∀ answer, Agrees (lawWorld L) side (p answer) (q answer)) :
    Agrees (lawWorld L) side (do a.check (.turn k); let answer ← modifyGet k.turn; p answer)
      (do b.check (.turn k); let answer ← modifyGet k.turn; q answer) := by
  have turned {m : Machine} : (Moment.turn k).turned? m = some k := rfl
  refine checked_agrees hL (fun _ _ => Moment.noConfusion) (fun m hb => ?_) (fun m hb => ?_) fun m hm ha => ?_
  · exact L.kept_trans (hL.endures.turn turned hb) ((h (k.turn m).1).left (k.turn m).2)
  · exact L.kept_trans (hL.endures.turn turned hb) ((h (k.turn m).1).right (k.turn m).2)
  · show Agree _ side (p (k.turn m).1 (k.turn m).2) (q (k.turn m).1 (k.turn m).2)
    obtain holds | past := hL.turn turned hm ha
    · exact (h _).agree ⟨rfl, holds⟩
    · exact .past ((h _).left.worn past) ((h _).right.worn past)

/-- A change of the heap that the law puts up with. -/
def Admits (L : Law) (f : Heap → Heap) : Prop := ∀ m, L.Bears m (m.mapHeap f)

theorem admits_of_heapless [L.Heapless] (f : Heap → Heap) : L.Admits f :=
  fun m => Heapless.heap m (f m.heap)

/-- What a script does agrees. -/
theorem perform_agrees [L.Eventful] (hL : L.Carried a b) (hg : Aligned L side g g')
    (script : Script) (hs : script.Edits L.Admits) :
    Agrees (lawWorld L) side (script.perform a g) (script.perform b g') := by
  induction script with
  | done v => exact .ret v
  | fail e => exact .fail e
  | look next ih =>
    have seen : Agrees (lawWorld L) side (get >>= fun m => (next m).perform a g)
        (get >>= fun m => (next m).perform b g') := .read fun m => ih m (hs m)
    exact checked_agrees hL (fun _ _ => Moment.noConfusion) (fun m _ => seen.left m) (fun m _ => seen.right m)
      fun m hm _ => seen.agree ⟨rfl, hm⟩
  | turn k next ih => exact turn_agrees hL k fun answer => ih answer (hs answer)
  | edit f next ih => exact (L.change_agrees hs.1).andThen fun _ => ih hs.2
  | call callee args kwargs next ih =>
    exact (attempt_agrees (hg.call callee args kwargs)).andThen fun answer => ih answer (hs answer)
  | resume generator how next ih =>
    exact (attempt_agrees (hg.resume generator how)).andThen fun answer => ih answer (hs answer)
  | run unit next ih =>
    exact (attempt_agrees (hg.moduleOn_agrees unit)).andThen fun answer => ih answer (hs answer)

/-! ## Engines under a host -/

variable [L.Running]

theorem callHosted_agrees (hL : L.Carried a b) {host : Host} (hh : host.Edits L.Admits)
    {fuel : Nat} (ih : Aligned L side (hosted host a fuel) (hosted host b fuel)) (callee : Value)
    (args : List Value) (kwargs : List (String × Value)) :
    Agrees (lawWorld L) side (callHosted host a (fuel + 1) callee args kwargs)
      (callHosted host b (fuel + 1) callee args kwargs) := by
  unfold callHosted
  dsimp only
  cases answered : host callee args kwargs with
  | none => exact callWith_agrees hL ih callee args kwargs
  | some script =>
    have done := perform_agrees hL ih script (hh answered)
    exact checked_agrees hL (fun _ _ => Moment.noConfusion) (fun m _ => done.left m) (fun m _ => done.right m)
      fun m hm _ => done.agree ⟨rfl, hm⟩

omit [L.Running] in
theorem runHosted_apply (host : Host) (a : Alarm) (fuel : Nat) (entry : Entry) (s : Activation) :
    runHosted host a (fuel + 1) entry s =
      if a (.run entry s.frame) s.machine then .error .outOfFuel s
      else runFrame (hosted host a fuel) entry s := by
  show (onMachine (a.check (.run entry s.frame)) >>= fun _ =>
    runFrame (hosted host a fuel) entry) s = _
  rw [bind_apply, onMachine_apply, Alarm.check_apply]
  cases a (.run entry s.frame) s.machine <;> rfl

theorem runHosted_agrees (hL : L.Carried a b) {host : Host} {fuel : Nat}
    (ih : Aligned L .right (hosted host a fuel) (hosted host b fuel)) (entry : Entry) :
    Agrees (freeWorld (lawWorld L)) .right (runHosted host a (fuel + 1) entry)
      (runHosted host b (fuel + 1) entry) := by
  have keeps := keeps_runFrame hL ih entry
  refine ⟨fun s => ?_, fun s => ?_, fun {s s'} hs => ?_⟩
  · rw [runHosted_apply]
    split
    · exact L.kept_refl s.machine
    · exact keeps.1 s
  · rw [runHosted_apply]
    split
    · exact L.kept_refl s.machine
    · exact keeps.2 s
  · obtain ⟨f, m⟩ := s
    obtain ⟨f', m'⟩ := s'
    obtain ⟨rfl, rfl, hm⟩ := hs
    rw [runHosted_apply, runHosted_apply]
    cases ha : a (.run entry f) m with
    | false =>
      rw [hL.silent ha]
      exact runFrame_agree hL ih hm ha
    | true =>
      cases hb : b (.run entry f) m with
      | true => exact .error ⟨rfl, rfl, hm⟩
      | false =>
        -- the run with the second alarm goes on, and the law is over
        obtain ⟨_, _, begun, past⟩ := hL.ahead hm ha hb
        cases begun
        exact .right rfl (.inr (runFrame_past hL ih past).2)

omit [L.Running] in
/-- Looking for a reason to leave native code agrees. -/
theorem pollNow_agrees [L.Steady] (kind : SafePointKind) :
    Agrees (lawWorld L) side (pollNow kind) (pollNow kind) := by
  refine L.answer_agrees fun m => ?_
  unfold Machine.poll
  split
  · exact .refl m
  · split
    · exact .aside (.of (.of rfl rfl rfl rfl) rfl rfl rfl)
    · exact .refl m

/-- Engines under a host that differ in their alarms agree. -/
theorem hosted_aligned (hL : L.Carried a b) {host : Host} (hh : host.Edits L.Admits)
    (resumes : ∀ fuel, L.RunsAlike .right (hosted host a fuel) (hosted host b fuel) →
      L.ResumesAlike .right (hosted host a fuel) (hosted host b fuel)) :
    ∀ fuel, Aligned L .right (hosted host a fuel) (hosted host b fuel) := by
  intro fuel
  induction fuel with
  | zero => exact .of (resumes 0) rfl (fun _ _ _ => .fail _) (fun _ => .fail _) pollNow_agrees
  | succ fuel ih =>
    exact .of (resumes _) rfl (callHosted_agrees hL hh ih) (runHosted_agrees hL ih) pollNow_agrees

/-- What a session does agrees. -/
theorem session_agrees (hL : L.Carried a b) {host : Host} (hh : host.Edits L.Admits)
    (resumes : ∀ fuel, L.RunsAlike .right (hosted host a fuel) (hosted host b fuel) →
      L.ResumesAlike .right (hosted host a fuel) (hosted host b fuel)) (fuel : Nat) {script : Script} (hs : script.Edits L.Admits) :
    Agrees (lawWorld L) .right (session host a fuel script) (session host b fuel script) :=
  perform_agrees hL (hosted_aligned hL hh resumes fuel) script hs

/-- **What a law says of a session.**  With either alarm a session does the same and ends
    under the law, or the law is over when the longer one ends. -/
theorem session_carried [L.Heapless] (hL : L.Carried a b) (host : Host) (fuel : Nat)
    (script : Script) {m : Machine} (hm : L.holds m) :
    (session host a fuel script m = session host b fuel script m ∧
        L.holds (finalState (session host b fuel script m))) ∨
      L.past (finalState (session host b fuel script m)) :=
  ((session_agrees hL (fun _ => .all admits_of_heapless _) (fun _ runs => runs.resumes) fuel
    (.all admits_of_heapless _)).agree ⟨rfl, hm⟩).outcome

/-- The same of a law that is about tiers only. -/
theorem session_stands {L : Law} [L.TierOnly] {a b : Alarm} (hL : L.Upheld a b) (host : Host)
    (fuel : Nat) (script : Script) {m : Machine} (hm : L.holds m) :
    (session host a fuel script m = session host b fuel script m ∧
        L.holds (finalState (session host b fuel script m))) ∨
      L.past (finalState (session host b fuel script m)) :=
  session_carried hL.carried host fuel script hm

end Law

end TieredMachine
