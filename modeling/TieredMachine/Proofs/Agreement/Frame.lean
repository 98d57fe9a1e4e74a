/-
  Computations on a frame agree.

  Frames are compared by equality.  A computation on a frame keeps the code and
  the namespaces of the frame; one that runs inside an instruction also leaves
  the frame standing where it stands.

  * `Frame.Stays`: what is the same about a frame inside an instruction;
  * `frameWorld`: the comparison of frames with their machines;
  * one lemma for each way of using a frame.
-/
import TieredMachine.Primitive.Dispatch
import TieredMachine.Proofs.Agreement.Operation

namespace TieredMachine

/-- The frame runs the same code over the same namespaces, and stands where it
    stood. -/
structure Frame.Stays (f f' : Frame) : Prop where
  code : f'.code = f.code
  globals : f'.globals = f.globals
  builtins : f'.builtins = f.builtins
  ip : f'.ip = f.ip
  lasti : f'.lasti = f.lasti

namespace Frame.Stays

theorem refl (f : Frame) : f.Stays f := ⟨rfl, rfl, rfl, rfl, rfl⟩

theorem trans {f g h : Frame} (hg : f.Stays g) (hh : g.Stays h) : f.Stays h :=
  ⟨hh.code.trans hg.code, hh.globals.trans hg.globals, hh.builtins.trans hg.builtins,
    hh.ip.trans hg.ip, hh.lasti.trans hg.lasti⟩

end Frame.Stays

/-- The comparison of frames inside an instruction, with their machines. -/
def frameWorld (W : World Machine) : World Activation where
  alike s s' := s.frame = s'.frame ∧ W.alike s.machine s'.machine
  failed e s s' := s.frame = s'.frame ∧ W.failed e s.machine s'.machine
  kept s s' := s.frame.Stays s'.frame ∧ W.kept s.machine s'.machine
  worn s := W.worn s.machine
  slack := W.slack
  kept_refl s := ⟨.refl s.frame, W.kept_refl s.machine⟩
  kept_trans h h' := ⟨h.1.trans h'.1, W.kept_trans h.2 h'.2⟩
  worn_of_kept h := W.worn_of_kept h.2
  failed_of_alike h := ⟨h.1, W.failed_of_alike h.2⟩
  alike_of_raised h := ⟨h.1, W.alike_of_raised h.2⟩

attribute [grind .] Agrees.ret Agrees.fail Agrees.andThen

variable {W : World Machine} {side : Side} {α : Type}

/-! ## The machine below the frame -/

theorem onMachine_apply (x : Exec α) (s : Activation) :
    onMachine x s = match x s.machine with
      | .ok a m => .ok a ⟨s.frame, m⟩
      | .error e m => .error e ⟨s.frame, m⟩ := rfl

theorem keeps_onMachine {x : Exec α} (h : Keeps W x) :
    Keeps (frameWorld W) (onMachine x) := by
  intro s
  have hm := h s.machine
  rw [onMachine_apply]
  cases hx : x s.machine with
  | ok a t =>
    rw [hx] at hm
    exact ⟨.refl _, hm⟩
  | error e t =>
    rw [hx] at hm
    exact ⟨.refl _, hm⟩

theorem finalState_onMachine (x : Exec α) (s : Activation) :
    finalState (onMachine x s) = ⟨s.frame, finalState (x s.machine)⟩ := by
  rw [onMachine_apply]
  cases x s.machine <;> rfl

theorem spent_onMachine {x : Exec α} {s : Activation}
    (h : W.Spent (x s.machine)) : (frameWorld W).Spent (onMachine x s) := by
  obtain ⟨slack, m, h⟩ | h := h
  · rw [onMachine_apply, h]
    exact .inl ⟨slack, _, rfl⟩
  · refine .inr ?_
    rw [finalState_onMachine]
    exact h

/-- A computation on the machine agrees below a frame, too. -/
@[grind .]
theorem onMachine_agrees {x y : Exec α} (h : Agrees W side x y) :
    Agrees (frameWorld W) side (onMachine x) (onMachine y) where
  left := keeps_onMachine h.left
  right := keeps_onMachine h.right
  agree {s s'} hs := by
    have hr := h.agree hs.2
    have hl (h : W.Spent (x s.machine)) :
        (frameWorld W).Spent (onMachine x s) := spent_onMachine h
    have hr' (h : W.Spent (y s'.machine)) :
        (frameWorld W).Spent (onMachine y s') := spent_onMachine h
    rw [onMachine_apply, onMachine_apply] at *
    generalize x s.machine = r, y s'.machine = r' at hr hl hr'
    cases hr with
    | ok h => exact .ok ⟨h.1, hs.1, h.2⟩
    | error h => exact .error ⟨hs.1, h⟩
    | left hs h => exact .left hs (hl h)
    | right hs h => exact .right hs (hr' h)

@[grind .]
theorem lift_agrees {x y : Exec α} (h : Agrees W side x y) :
    Agrees (frameWorld W) side (liftM x : FrameExec α) (liftM y) :=
  onMachine_agrees h

/-! ## The frame -/

theorem keeps_frame : Keeps (frameWorld W) frame := fun s => (frameWorld W).kept_refl s

@[grind .]
theorem frame_agrees : Agrees (frameWorld W) side frame frame where
  left := keeps_frame
  right := keeps_frame
  agree {s s'} hs := by
    show Agree _ side (.ok s.frame s) (.ok s'.frame s')
    rw [hs.1]
    exact .same hs

theorem keeps_modifyFrame {h : Frame → Frame} (hh : ∀ f : Frame, f.Stays (h f)) :
    Keeps (frameWorld W) (modifyFrame h) :=
  fun s => ⟨hh s.frame, W.kept_refl s.machine⟩

/-- A change of the frame agrees with itself when the frame stays. -/
@[grind .]
theorem modifyFrame_agrees {h : Frame → Frame} (hh : ∀ f : Frame, f.Stays (h f)) :
    Agrees (frameWorld W) side (modifyFrame h) (modifyFrame h) where
  left := keeps_modifyFrame hh
  right := keeps_modifyFrame hh
  agree hs := .same ⟨congrArg h hs.1, hs.2⟩

/-! ## Stacks and variables -/

attribute [grind .] Frame.Stays.mk Frame.Stays.refl

@[grind .]
theorem look_agrees (h : Frame → Except Fault α) :
    Agrees (frameWorld W) side (look h) (look h) := by
  unfold look
  grind -funext

theorem look_apply (h : Frame → Except Fault α) (s : Activation) :
    look h s = match h s.frame with
      | .ok a => .ok a s
      | .error e => .error e s := by
  show (match h s.frame with | .ok a => pure a | .error e => throw e : FrameExec α) s = _
  cases h s.frame <;> rfl

theorem take_apply (h : Frame → Except Fault (α × Frame)) (s : Activation) :
    take h s = match h s.frame with
      | .ok (a, f) => .ok a { s with frame := f }
      | .error e => .error e s := by
  unfold take
  rw [bind_apply, look_apply]
  cases h s.frame <;> rfl

theorem pop_apply {s : Activation} {v : Value} {rest : List Value} (h : s.frame.stack = v :: rest) :
    pop s = .ok v { s with frame := { s.frame with stack := rest } } := by
  unfold pop
  rw [take_apply]
  simp only [Frame.pop, h]

theorem pop_nil {s : Activation} (h : s.frame.stack = []) :
    pop s = .error (.stackUnderflow s.frame.position) s := by
  unfold pop
  rw [take_apply]
  simp only [Frame.pop, h]

theorem popN_apply {s : Activation} {vs rest : List Value} {n : Nat} (length : vs.length = n)
    (h : s.frame.stack = vs.reverse ++ rest) :
    popN n s = .ok vs { s with frame := { s.frame with stack := rest } } := by
  have enough : ¬s.frame.stack.length < n := by
    rw [h, List.length_append, List.length_reverse]
    omega
  have top : vs.reverse.length = n := by rw [List.length_reverse, length]
  unfold popN
  rw [take_apply]
  simp only [Frame.popN, if_neg enough]
  rw [h, List.take_left' top, List.drop_left' top, List.reverse_reverse]

theorem peek_apply {s : Activation} {n : Nat} {v : Value} (h : s.frame.stack[n]? = some v) :
    peek n s = .ok v s := by
  unfold peek
  rw [look_apply]
  simp only [Frame.peek, h]

theorem peek_none {s : Activation} {n : Nat} (h : s.frame.stack[n]? = none) :
    peek n s = .error (.stackUnderflow s.frame.position) s := by
  unfold peek
  rw [look_apply]
  simp only [Frame.peek, h]

theorem keeps_take {h : Frame → Except Fault (α × Frame)}
    (hh : ∀ f a f', h f = .ok (a, f') → f.Stays f') : Keeps (frameWorld W) (take h) := by
  intro s
  rw [take_apply]
  cases hs : h s.frame with
  | error e => exact (frameWorld W).kept_refl s
  | ok p => exact ⟨hh _ p.1 p.2 hs, W.kept_refl _⟩

/-- Taking something off the frame agrees when the frame stays. -/
@[grind .]
theorem take_agrees {h : Frame → Except Fault (α × Frame)}
    (hh : ∀ f a f', h f = .ok (a, f') → f.Stays f') :
    Agrees (frameWorld W) side (take h) (take h) where
  left := keeps_take hh
  right := keeps_take hh
  agree {s s'} hs := by
    rw [take_apply, take_apply, ← hs.1]
    cases h s.frame with
    | error e => exact .error ((frameWorld W).failed_of_alike hs)
    | ok p => exact .same ⟨rfl, hs.2⟩

theorem pushBlock_eq_take (kind : BlockKind) (handler : Nat) :
    pushBlock kind handler = take fun f => ((), ·) <$> f.pushBlock kind handler := by
  funext s
  unfold pushBlock
  rw [bind_apply, look_apply, take_apply]
  cases s.frame.pushBlock kind handler <;> rfl

@[grind .]
theorem pushBlock_agrees (kind : BlockKind) (handler : Nat) :
    Agrees (frameWorld W) side (pushBlock kind handler) (pushBlock kind handler) := by
  rw [pushBlock_eq_take]
  refine take_agrees fun f a f' h => ?_
  simp only [Frame.pushBlock] at h
  split at h <;> cases h
  exact ⟨rfl, rfl, rfl, rfl, rfl⟩

@[grind .]
theorem push_agrees (v : Value) : Agrees (frameWorld W) side (push v) (push v) := by
  unfold push Frame.push
  grind -funext

@[grind .]
theorem pop_agrees :
    Agrees (frameWorld W) side (pop) (pop) := by
  unfold pop Frame.pop
  grind -funext

@[grind .]
theorem popN_agrees (n : Nat) :
    Agrees (frameWorld W) side (popN n) (popN n) := by
  unfold popN Frame.popN
  grind -funext

@[grind .]
theorem peek_agrees (depth : Nat) :
    Agrees (frameWorld W) side (peek depth) (peek depth) := by
  unfold peek
  grind -funext

@[grind .]
theorem popBlock_agrees :
    Agrees (frameWorld W) side (popBlock) (popBlock) := by
  unfold popBlock Frame.popBlock
  grind -funext

/-! ## Unwinding -/

/-- What an unwind does to the heap and to what it keeps of the frame. -/
theorem unwindBlocks_heap (p : Pending) (bs : List Block) (f : Frame) (h : Heap) :
    (∃ tb, (unwindBlocks p bs f h).2.2 = { h with tracebacks := tb }) ∧
      (unwindBlocks p bs f h).2.1.code = f.code := by
  have same : ∃ tb, h = { h with tracebacks := tb } := ⟨_, rfl⟩
  have payload (p : Pending) : ∃ tb, (p.payload h).2 = { h with tracebacks := tb } := by
    cases p with
    | exception exc => exact ⟨_, rfl⟩
    | return_ | break_ | continue_ => exact same
  induction bs generalizing f with
  | nil => exact ⟨same, rfl⟩
  | cons b bs ih =>
    unfold unwindBlocks
    dsimp only
    split
    · exact ⟨same, rfl⟩
    · exact ⟨same, rfl⟩
    · exact ih _
    · exact ⟨payload (.exception _), rfl⟩
    · exact ih _
    · exact ⟨payload _, rfl⟩

theorem unwind_apply (p : Pending) (s : Activation) :
    unwind p s = .ok (s.frame.unwind p s.machine.heap).1
      { frame := (s.frame.unwind p s.machine.heap).2.1
        machine := { s.machine with heap := (s.frame.unwind p s.machine.heap).2.2 } } := rfl

end TieredMachine
