/-
  An interpreter that lags behind.

  Native code leaves out instructions that only jump.  An interpreter that runs the
  same unit then lags behind by so many of them, and makes up for them before the
  next instruction begins.

  * `Behind`: a frame of native code, and that of an interpreter that lags behind;
  * `Hops.turns`: the interpreter makes up for the jumps.
-/
import TieredMachine.Proofs.Graph.Place
import TieredMachine.Proofs.Agreement.Interpreter

namespace TieredMachine

variable {us : Array CodeUnit} {side : Side} {g g' : Guest} {α β : Type}

/-! ## Lagging behind -/

/-- The frames are one, except that the interpreter on the right has so many
    instructions left to run that only jump. -/
structure Behind (us : Array CodeUnit) (u : CodeUnit) (n : Nat) (s s' : Activation) : Prop where
  code : s'.frame.code = u
  frame : s.frame = { s'.frame with ip := s.frame.ip }
  hops : Hops u n s'.frame.ip s.frame.ip
  machine : (machineWorld us).alike s.machine s'.machine

/-- An interpreter that lags behind by nothing is in the same state. -/
theorem Behind.alike {u : CodeUnit} {s s' : Activation} (h : Behind us u 0 s s') :
    (runWorld us).alike s s' := by
  have here : s'.frame.ip = s.frame.ip := by
    have hops := h.hops
    generalize s'.frame.ip = a, s.frame.ip = b at hops
    cases hops
    rfl
  refine ⟨?_, h.machine⟩
  rw [h.frame, ← here]

/-- A primitive that always jumps does nothing else. -/
theorem Primitive.run_jump (g : Guest) (site : Site) (r : Bool) {p : Primitive} {s : Activation}
    {target : Nat} (hp : p.op.alwaysJumps) (ht : p.target? s.frame.ip = some target) :
    Primitive.run g site r p s = .ok (.jump target) s := by
  obtain ⟨op, arg⟩ := p
  cases arg with
  | none => simp [Primitive.target?] at ht
  | some arg =>
    simp only [Primitive.target?, Option.bind_some] at ht
    have hop : op = .jumpForward ∨ op = .jumpAbsolute := by
      simpa [Opcode.alwaysJumps] using hp
    have jumped : Primitive.jump op arg s = .ok (.jump target) s := by
      show (Primitive.targetOf op arg >>= fun t => pure (Flow.jump t)) s = _
      have : Primitive.targetOf op arg s = .ok target s := by
        unfold Primitive.targetOf
        rw [bind_apply]
        simp only [show TieredMachine.frame s = .ok s.frame s from rfl, ht]
        rfl
      rw [bind_apply, this]
      rfl
    rcases hop with rfl | rfl <;> exact jumped

/-- A jump only moves the frame, as far as is seen. -/
theorem direct_jump (us : Array CodeUnit) (w : Watch) (target : Nat) (s : Activation) :
    ∃ m, s.machine.Veiled us m ∧ direct w (.jump target) s =
      .ok none ⟨{ s.frame with ip := target }, m⟩ := by
  have hotter : Machine.Unseen us
      (·.mapProfile s.frame.code.id (·.recordBackedge w.backedgeWeight)) :=
    .mapProfile _ fun _ _ h => h
  simp only [direct, bind_apply, show frame s = .ok s.frame s from rfl]
  split
  · exact ⟨_, hotter.veiled s.machine, rfl⟩
  · exact ⟨s.machine, .refl _, rfl⟩

/-- An instruction that only jumps. -/
theorem turn_jump (us : Array CodeUnit) (g : Guest) (w : Watch) {s : Activation} {i : Instr}
    {p : Primitive} {target : Nat} (hi : s.frame.code.instrAt? s.frame.ip = some i)
    (hp : i.prims = [p]) (hj : p.op.alwaysJumps) (ht : p.target? i.next = some target) :
    ∃ m, s.machine.Veiled us m ∧ ∀ j, turns g w (j + 1) s =
      turns g w j ⟨{ s.frame.begin i with ip := target }, m⟩ := by
  obtain ⟨m, hm, h⟩ := turns_begin us g w hi
  obtain ⟨m', hm', hd⟩ := direct_jump us w target ⟨s.frame.begin i, m⟩
  refine ⟨m', hm.trans hm', fun j => ?_⟩
  have run := Primitive.run_jump g ⟨i.ip, 0⟩ w.recording hj
    (s := ⟨s.frame.begin i, m⟩) ht
  rw [h, hp, inside_cons, bind_apply]
  have : caught (Primitive.run g ⟨i.ip, 0⟩ w.recording p) ⟨s.frame.begin i, m⟩ =
      .ok (.jump target) ⟨s.frame.begin i, m⟩ := by
    unfold caught
    rw [tryCatch_apply, run]
  rw [this]
  show (direct w (.jump target) >>= fun exit => unlessLeft (turns g w j) exit) _ = _
  rw [bind_apply, hd]
  rfl

/-- An interpreter that lags behind makes up for the jumps. -/
theorem Hops.run (us : Array CodeUnit) (g : Guest) (w : Watch) {u : CodeUnit} {n ip stop : Nat}
    (h : Hops u n ip stop) :
    ∀ s : Activation, s.frame.code = u → s.frame.ip = ip →
      ∃ m lasti, s.machine.Veiled us m ∧
        TieredMachine.turns g w n s = .ok none ⟨{ s.frame with ip := stop, lasti }, m⟩ := by
  induction h with
  | here =>
    rintro s _ rfl
    exact ⟨s.machine, s.frame.lasti, .refl _, rfl⟩
  | @jump _ _ k _ target _ hk hp hj ht _ ih =>
    intro s hc hip
    obtain ⟨m, hm, h⟩ := turn_jump us g w (s := s) (by rw [hc, hip]; exact hk) hp hj ht
    obtain ⟨m', lasti, hm', h'⟩ := ih ⟨{ s.frame.begin k with ip := target }, m⟩ hc rfl
    refine ⟨m', lasti, hm.trans hm', ?_⟩
    rw [h, h']
    rfl

/-- Where jumps lead an instruction starts. -/
theorem Hops.instrAt? {u : CodeUnit} (hu : u.Checked) {n ip stop : Nat} (h : Hops u n ip stop)
    (hn : 0 < n) : ∃ i, u.instrAt? stop = some i := by
  induction h with
  | here => exact absurd hn (Nat.lt_irrefl 0)
  | @jump _ _ k p target _ hk hp hj ht rest ih =>
    cases rest with
    | here => exact Option.isSome_iff_exists.mp (hu.target_isSome hk (by simp [hp]) ht)
    | jump _ _ _ _ _ => exact ih (Nat.succ_pos _)

/-- An interpreter that lags behind makes up for the jumps, and begins the instruction
    that they lead to. -/
theorem Hops.turns (us : Array CodeUnit) (g : Guest) (w : Watch) {u : CodeUnit} {n ip stop : Nat}
    (h : Hops u n ip stop) {i : Instr} (hi : u.instrAt? stop = some i) :
    ∀ s : Activation, s.frame.code = u → s.frame.ip = ip →
      ∃ m, s.machine.Veiled us m ∧ ∀ j, TieredMachine.turns g w (n + (j + 1)) s =
        inside g w i 0 i.prims j ⟨s.frame.begin i, m⟩ := by
  induction h with
  | here =>
    intro s hc hip
    obtain ⟨m, hm, h⟩ := turns_begin us g w (s := s) (i := i) (by rw [hc, hip]; exact hi)
    exact ⟨m, hm, fun j => by rw [Nat.zero_add]; exact h j⟩
  | @jump _ _ k _ target _ hk hp hj ht _ ih =>
    intro s hc hip
    obtain ⟨m, hm, h⟩ := turn_jump us g w (s := s) (by rw [hc, hip]; exact hk) hp hj ht
    obtain ⟨m', hm', h'⟩ := ih hi ⟨{ s.frame.begin k with ip := target }, m⟩ hc rfl
    refine ⟨m', hm.trans hm', fun j => ?_⟩
    rw [Nat.succ_add, h, h']
    rfl

end TieredMachine
