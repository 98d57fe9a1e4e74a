/-
  What validation rules out.

  Machines over accepted units run guest code in every tier, under any careful host.  No run
  ends with a fault about a table, an argument or an opcode.  Control lands on starts of
  instructions, and leaves the code only off its end, unless an `END_FINALLY` has resumed a
  `continue` that no `CONTINUE_LOOP` of the unit could have left.

  * `Way`: the ways of running guest code;
  * `RulesOut`: what validation rules out;
  * `visits_stands`, `direct_lands`: control in the interpreter;
  * `NativeFunction.MadeFrom.lands`: control in native code;
  * **`validation_rules_out`**: all of it, for units that were accepted.
-/
import TieredMachine.Proofs.Safety.Watched
import TieredMachine.Proofs.Run.Course

namespace TieredMachine

variable {us : Array CodeUnit} {stops : Nat → Prop} {u : CodeUnit} {g g' : Guest} {r : Ref}

/-! ## Running code -/

/-- The ways in which a host runs guest code. -/
inductive Way where
  | call (callee : Value) (args : List Value) (kwargs : List (String × Value))
  | resume (generator : Ref) (how : Resumption)
  /-- as the body of a module -/
  | body (unit : Ref)

namespace Way

def run (g : Guest) : Way → Exec Value
  | call callee args kwargs => g.call callee args kwargs
  | resume generator how => resumeGenerator g generator how
  | body unit => moduleOn g unit

/-- The body of a module has no free variables. -/
def Fits (us : Array CodeUnit) : Way → Prop
  | body unit => (unitAt us unit).freevars.size = 0
  | _ => True

theorem run_safe (hu : Built us) (hg : g.Valid us stops) {w : Way} (hw : w.Fits us) :
    Safe (.validated us stops u) (w.run g) := by
  cases w with
  | call callee args kwargs => exact hg.call u callee args kwargs
  | resume generator how => exact resumeGenerator_safe hg generator how
  | body unit => exact moduleOn_safe hg hu hw

theorem run_agrees (hg : g'.Echoes g) (w : Way) :
    Agrees equalWorld .right (w.run g) (w.run g') := by
  cases w with
  | call callee args kwargs => exact hg.call callee args kwargs
  | resume generator how => exact hg.resumeGenerator_agrees generator how
  | body unit => exact hg.moduleOn_agrees unit

end Way

/-- Control has left the code of the frame at the index: it ran off the end, or the frame
    has gone astray. -/
def Frame.LeftAt (i : Nat) (f : Frame) : Prop :=
  f.ip = i ∧ (f.ip = f.code.words.size ∨ f.Astray)

/-- Control may leave the code of some unit at the index. -/
def LeftIn (us : Array CodeUnit) (i : Nat) : Prop :=
  ∃ (r : Ref) (f : Frame), f.Off (unitAt us r) ∧ f.ip = i

/-- Wherever native code goes on in the unit, an instruction starts, or its code ends. -/
def NativeFunction.Lands (u : CodeUnit) (n : NativeFunction) : Prop :=
  match n.code with
  | .threaded G => (∀ b < G.blocks.size, (u.instrAt? (G.block b).start).isSome) ∧
      ∀ h ∈ G.handlers, (u.instrAt? h.targetIp).isSome
  | .kernel k => ∀ p ∈ k.bails, p.Rests u

/-- What validation rules out while guest code runs under a host. -/
structure RulesOut (us : Array CodeUnit) (host : Host) (a : Alarm) (fuel : Nat) : Prop where
  /-- no run ends with a fault about a table, an argument or an opcode -/
  ends : ∀ (w : Way) (m : Machine), w.Fits us → m.Valid us → ∀ e t,
    w.run (hosted host a fuel) m = .error e t → e.isRuledOut = false
  /-- however a run ends, code may be run again -/
  valid : ∀ (w : Way) (m : Machine), w.Fits us → m.Valid us →
    (finalState (w.run (hosted host a fuel) m)).Valid us
  /-- a run that ends because control has left the code at an index has run a frame that
      control left there -/
  off : ∀ (w : Way) (m : Machine), w.Fits us → m.Valid us → ∀ i t,
    w.run (hosted host a fuel) m = .error (.ipOutOfBounds i) t →
      LeftIn us i ∧
      ∃ t, w.run (watchedBy (watched (Frame.LeftAt i)) host a fuel) m = .error .outOfFuel t
  /-- what an instruction has as its target is the start of an instruction -/
  targets : ∀ r ip i, (unitAt us r).instrAt? ip = some i → ∀ p ∈ i.prims, ∀ target,
    p.target? i.next = some target → ((unitAt us r).instrAt? target).isSome
  /-- a frame that is interpreted stands between two instructions of its unit, and its
      handlers are starts of instructions -/
  stands : ∀ r (w : Watch) (s t : Activation), s.machine.Valid us → s.frame.Stands (unitAt us r) →
    Visits (hosted host a fuel) w s t → t.machine.Valid us ∧ t.frame.Stands (unitAt us r)
  /-- an instruction that does not lead to the next one leads to a start, or astray -/
  lands : ∀ r (w : Watch) (s : Activation) flow (t t' : Activation),
    s.machine.Valid us → s.frame.Stands (unitAt us r) →
    step (hosted host a fuel) w s = .ok flow t → direct w flow t = .ok none t' → flow ≠ .next →
    ((unitAt us r).instrAt? t'.frame.ip).isSome ∨ t'.frame.Astray
  native : ∀ r (n : NativeFunction), n.MadeFrom (unitAt us r) → n.Lands (unitAt us r)
  /-- native code hands frames over to the interpreter where they stand -/
  handsOver : ∀ r (n : NativeFunction) entry (s : Activation) reason t,
    n.MadeFrom (unitAt us r) → s.machine.Valid us → s.frame.Rests (unitAt us r) →
    runNative (hosted host a fuel) n entry s = .ok (.bail reason) t → t.frame.Stands (unitAt us r)

/-! ## Control -/

section

variable {w : Watch} {s t : Activation} (hu : Built us) (hg : g.Valid us stops)
  (hm : s.machine.Valid us) (hf : s.frame.Stands (unitAt us r))

include hu hg hm hf

/-- Whatever the interpreter visits, the frame stands between two instructions. -/
theorem visits_stands (h : Visits g w s t) : t.machine.Valid us ∧ t.frame.Stands (unitAt us r) := by
  induction h with
  | refl => exact ⟨hm, hf⟩
  | @tail t t' _ turned ih =>
    have allowed := turn_guides hu (hg.safe) t ih.1 ih.2 (w := w)
    rw [turned] at allowed
    exact allowed

/-- A flow that does not lead to the next instruction leads to a start, or astray. -/
theorem direct_lands {flow : Flow} {t' : Activation} (hs : step g w s = .ok flow t)
    (hd : direct w flow t = .ok none t') (hflow : flow ≠ .next) :
    ((unitAt us r).instrAt? t'.frame.ip).isSome ∨ t'.frame.Astray := by
  have stepped := step_guides hu (hg.safe) s hm hf (w := w)
  rw [hs] at stepped
  have directed := direct_guides (w := w) flow t stepped.1 stepped.2
  rw [hd] at directed
  exact (directed.2.2 hflow).there

end

/-- Native code that was made from a unit goes on where instructions of the unit start. -/
theorem NativeFunction.MadeFrom.lands (hu : Built us) {n : NativeFunction}
    (hn : n.MadeFrom (unitAt us r)) : n.Lands (unitAt us r) := by
  obtain ⟨h, feedback, opts, G, hl, made⟩ := hn
  have checked := hu.checked_of_lower hl
  obtain ⟨most, -, faithful⟩ := lower_faithful checked hl
  have handlers := lower_handlers checked hl
  unfold Lands
  obtain code | ⟨k, hk, code⟩ := made
  · rw [code]
    exact ⟨fun b hb => (faithful.code b hb).starts_of_begins (faithful.opens b hb), handlers⟩
  · rw [code]
    exact Kernel.compile_rests faithful (lower_handler faithful handlers) hk

/-! ## Faults -/

/-- The faults that a run ends with when nothing watches it. -/
theorem watches_off : Watches us (LeftIn us) id :=
  fun r _ _ _ hx => hx.mono (fun _ h => h) (fun _ _ h => h) fun e f h => by
    obtain h | ⟨rfl, off⟩ := h
    · exact h
    · refine ⟨rfl, fun ip hip => ?_⟩
      cases hip
      exact ⟨r, f, off, rfl⟩

/-- If frames that control leaves at an index are watched for, it is seen to leave the code
    at other indices only. -/
theorem watches_leftAt (i : Nat) : Watches us (· ≠ i) (watched (Frame.LeftAt i)) :=
  watched_watches fun r f off => by
    by_cases h : f.ip = i
    · refine .inr ⟨h, off.gone.imp_left fun hs => ?_⟩
      rw [hs, off.code]
    · exact .inl h

/-- When control has left the code at an index, the engine that watches for that is out of
    fuel. -/
theorem watched_outOfFuel (hu : Built us) {host : Host} {i : Nat} (hh : host.Careful us (· ≠ i))
    (a : Alarm) (fuel : Nat) {m t : Machine} (hm : m.Valid us) {w : Way} (hw : w.Fits us)
    (h : w.run (hosted host a fuel) m = .error (.ipOutOfBounds i) t) :
    ∃ t, w.run (watchedBy (watched (Frame.LeftAt i)) host a fuel) m = .error .outOfFuel t := by
  have valid := watchedBy_valid hu (watches_leftAt i) hh a fuel
  have accepted := w.run_safe hu valid hw (u := default) m hm
  have agree := (w.run_agrees (watched_echoes (Frame.LeftAt i) host a fuel)).agree (s := m) rfl
  rw [h] at agree
  generalize w.run (watchedBy (watched (Frame.LeftAt i)) host a fuel) m = r at accepted agree
  cases agree with
  | error _ => exact absurd rfl (accepted.2.2 i rfl)
  | left hs _ => cases hs
  | right _ spent =>
    obtain ⟨-, t, rfl⟩ | worn := spent
    · exact ⟨t, rfl⟩
    · exact worn.elim

/-- **Validation rules out** whole classes of faults, whatever code is run, in whichever
    tier, and whatever a careful host does in between. -/
theorem validation_rules_out (hu : Built us) {host : Host} (hh : ∀ stops, host.Careful us stops)
    (a : Alarm) (fuel : Nat) : RulesOut us host a fuel := by
  have valid : (hosted host a fuel).Valid us (LeftIn us) := by
    rw [← watchedBy_id]
    exact watchedBy_valid hu watches_off (hh _) a fuel
  have accepted (w : Way) (m : Machine) (hw : w.Fits us) (hm : m.Valid us) :=
    w.run_safe hu valid hw (u := default) m hm
  refine ⟨fun w m hw hm e t h => ?_, fun w m hw hm => ?_, fun w m hw hm i t h => ⟨?_, ?_⟩,
    fun r ip i hi p hp target ht => ?_, fun r w s t hm hf h => visits_stands hu valid hm hf h,
    fun r w s flow t t' hm hf hs hd hflow => direct_lands hu valid hm hf hs hd hflow,
    fun r n hn => hn.lands hu, fun r n entry s reason t hn hm hf h => ?_⟩
  · have ended := accepted w m hw hm
    rw [h] at ended
    exact ended.2.1
  · have ended := accepted w m hw hm
    generalize w.run (hosted host a fuel) m = result at ended
    cases result with
    | ok v t => exact ended
    | error e t => exact ended.1
  · have ended := accepted w m hw hm
    rw [h] at ended
    exact ended.2.2 i rfl
  · exact watched_outOfFuel hu (hh _) a fuel hm hw h
  · exact (Accepted.of hu hi).checked.target_isSome hi hp ht
  · have left := runNative_guides hu valid.safe (valid.poll _) hn entry s hm (hf.enters entry)
    rw [h] at left
    exact left.2

/-! ### A frame that goes astray -/

/-- The parts of a unit that resumes a `continue` to where it has no code. -/
def CodeParts.stray : CodeParts where
  name := "t"
  words := #[.ofOpcode .setupLoop, ⟨11⟩, .ofOpcode .loadConst, ⟨1⟩, .ofOpcode .loadConst, ⟨3⟩,
    .ofOpcode .endFinally, .ofOpcode .nop]
  consts := #[.int 99, .int UnwindReason.continue_.code]

/-- The unit with these parts. -/
def CodeUnit.stray : CodeUnit := (CodeUnit.ofParts 0 .stray).toOption.getD default

theorem built_stray : Built #[.stray] where
  parts r u h := by
    cases r with
    | zero =>
      cases h
      exact ⟨.stray, eq_ok_of_isSome (by decide +kernel)⟩
    | succ r => cases h

/-- A machine with a function over the unit, which has run nothing. -/
def Machine.stray : Machine where
  config := {}
  heap := { units := #[.stray], namespaces := #[{}, {}]
            functions := #[{ name := "t", code := 0, globals := 0 }] }
  units := #[{}]
  globals := 0
  builtins := 1
  bailError := false
  control := .whenHot
  timer := .new 1 false

theorem Machine.valid_stray : Machine.stray.Valid #[.stray] where
  units := rfl
  functions func h := by
    obtain rfl := Array.mem_singleton.mp h
    decide +kernel
  generators _ h := absurd h (Array.not_mem_empty _)
  native r n h := by
    cases r with
    | zero => cases h
    | succ r => cases h

/-- The fault that a run ends with. -/
def fault? : EStateM.Result Fault Machine Value → Option Fault
  | .ok _ _ => none
  | .error e _ => some e

theorem error_of_fault? {r : EStateM.Result Fault Machine Value} {e : Fault}
    (h : fault? r = some e) : ∃ t, r = .error e t := by
  cases r with
  | ok v t => cases h
  | error e' t =>
    cases h
    exact ⟨t, rfl⟩

/-- Control leaves the code far off its end, and a frame that went astray is to blame. -/
theorem validation_rules_out_of_stray :
    Built #[.stray] ∧ (∀ stops, Host.idle.Careful #[.stray] stops) ∧
    Machine.stray.Valid #[.stray] ∧ CodeUnit.stray.words.size = 8 ∧
    fault? ((Way.call (.function 0) [] []).run (hosted .idle .never 9) .stray) =
      some (.ipOutOfBounds 99) ∧
    RulesOut #[.stray] .idle .never 9 ∧
    ∃ t, (Way.call (.function 0) [] []).run
      (watchedBy (watched (Frame.LeftAt 99)) .idle .never 9) .stray = .error .outOfFuel t := by
  have rules := validation_rules_out built_stray (fun stops => Host.careful_idle) .never 9
  have ended : fault? ((Way.call (.function 0) [] []).run (hosted .idle .never 9) .stray) =
      some (.ipOutOfBounds 99) := by decide +kernel
  obtain ⟨t, h⟩ := error_of_fault? ended
  exact ⟨built_stray, fun stops => Host.careful_idle, Machine.valid_stray, by decide +kernel, ended,
    rules, (rules.off (.call (.function 0) [] []) .stray trivial Machine.valid_stray 99 t h).2⟩

end TieredMachine
