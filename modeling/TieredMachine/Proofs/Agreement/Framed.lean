/-
  Comparisons of computations on frames.

  Running code sees the stack, the variables and the tables of its frame.  It does not see
  where it stands: a comparison may be between frames that stand at places that correspond,
  in different code of one unit.

  * `Frame.Akin`, `Frame.Mild`: frames that look alike, and changes that keep them so;
  * `FrameComparison.Closed`: comparisons that the ways of using a frame respect;
  * `World.framed`: agreement on frames, as such a comparison.
-/
import TieredMachine.Proofs.Agreement.Frame
import TieredMachine.Proofs.Run.Flow

namespace TieredMachine

/-! ## Frames that look alike -/

/-- The frames look alike to the code that runs on them. -/
structure Frame.Akin (f f' : Frame) : Prop where
  code : f.code.bare = f'.code.bare
  globals : f.globals = f'.globals
  builtins : f.builtins = f'.builtins
  stack : f.stack = f'.stack
  locals : f.locals = f'.locals
  cells : f.cells = f'.cells
  excInfo : f.excInfo = f'.excInfo

@[grind =]
theorem Frame.akin_iff (f f' : Frame) : f.Akin f' ↔
    f.code.bare = f'.code.bare ∧ f.globals = f'.globals ∧ f.builtins = f'.builtins ∧
      f.stack = f'.stack ∧ f.locals = f'.locals ∧ f.cells = f'.cells ∧ f.excInfo = f'.excInfo :=
  ⟨fun a => ⟨a.1, a.2, a.3, a.4, a.5, a.6, a.7⟩,
    fun ⟨h₁, h₂, h₃, h₄, h₅, h₆, h₇⟩ => ⟨h₁, h₂, h₃, h₄, h₅, h₆, h₇⟩⟩

namespace Frame.Akin

variable {f f' : Frame} (a : f.Akin f')

theorem refl (f : Frame) : f.Akin f := ⟨rfl, rfl, rfl, rfl, rfl, rfl, rfl⟩

include a

@[grind =>]
theorem consts : f.code.consts = f'.code.consts := congrArg (·.consts) a.code

@[grind =>]
theorem names : f.code.names = f'.code.names := congrArg (·.names) a.code

@[grind =>]
theorem id : f.code.id = f'.code.id := congrArg (·.id) a.code

@[grind =>]
theorem cellvars : f.code.cellvars = f'.code.cellvars := congrArg (·.cellvars) a.code

@[grind =>]
theorem localName (i : Nat) : f.localName i = f'.localName i :=
  congrArg (fun names : Array String => names[i]?.getD "") (congrArg (·.varnames) a.code)

theorem freevars : f.code.freevars = f'.code.freevars := congrArg (·.freevars) a.code

@[grind =>]
theorem cellName? (i : Nat) : f.code.cellName? i = f'.code.cellName? i := by
  rw [CodeUnit.cellName?, a.cellvars, a.freevars, CodeUnit.cellName?]

@[grind =>]
theorem cell (i : Nat) : f.cell i = f'.cell i := by rw [Frame.cell, a.cells, Frame.cell]

end Frame.Akin

/-- A change of the frame inside an instruction, which leaves its blocks alone. -/
structure Frame.Mild (h : Frame → Frame) : Prop where
  stays : ∀ f : Frame, f.Stays (h f)
  blocks : ∀ f, (h f).blocks = f.blocks
  alike : ∀ {f f' : Frame}, f.Akin f' → (h f).Akin (h f')

@[grind =]
theorem Frame.mild_iff (h : Frame → Frame) : Frame.Mild h ↔
    (∀ f : Frame, f.Stays (h f)) ∧ (∀ f, (h f).blocks = f.blocks) ∧
      ∀ f f' : Frame, f.Akin f' → (h f).Akin (h f') :=
  ⟨fun m => ⟨m.1, m.2, fun _ _ a => m.3 a⟩, fun ⟨h₁, h₂, h₃⟩ => ⟨h₁, h₂, h₃ _ _⟩⟩

/-! ## Comparisons -/

/-- A way to compare computations on frames.  The flows out of two instructions may go on
    at places that correspond. -/
structure FrameComparison extends Comparison Activation where
  /-- the comparison of what is done on the machine -/
  machine : Comparison Machine
  /-- both do the same, and control goes on alike -/
  Flows : FrameExec Flow → FrameExec Flow → Prop
  /-- places in the code that correspond -/
  Targets : Nat → Nat → Prop
  /-- arguments that mean the same to an opcode -/
  Args : Opcode → Nat → Nat → Prop
  /-- sites of one primitive -/
  Sites : Site → Site → Prop

/-- The ways of using a frame compare well with themselves. -/
class FrameComparison.Closed (D : FrameComparison) : Prop extends D.Lawful where
  closed : D.machine.Closed
  onMachine : ∀ {α : Type} {x y : Exec α}, D.machine.Same x y →
    D.Same (TieredMachine.onMachine x) (TieredMachine.onMachine y)
  /-- what follows a look at the heap may depend on what heaps that look alike have in
      common -/
  heapThen : ∀ {α : Type} {a b : Heap → FrameExec α},
    (∀ h h', h.Akin h' → D.Same (a h) (b h')) →
    D.Same (TieredMachine.onMachine heap >>= a) (TieredMachine.onMachine heap >>= b)
  /-- what follows a look at the frame may depend on what frames that look alike have in
      common -/
  frameThen : ∀ {α : Type} {a b : Frame → FrameExec α},
    (∀ f f', f.Akin f' → D.Same (a f) (b f')) → D.Same (frame >>= a) (frame >>= b)
  modifyFrame : ∀ {h : Frame → Frame}, Frame.Mild h → D.Same (modifyFrame h) (modifyFrame h)
  pop : D.Same pop pop
  popN : ∀ n, D.Same (popN n) (popN n)
  peek : ∀ depth, D.Same (peek depth) (peek depth)
  dropBlock : D.Same Primitive.dropBlock Primitive.dropBlock
  setupBlock : ∀ {op arg arg'}, op.isDirected = true → D.Args op arg arg' →
    D.Same (Primitive.setupBlock op arg) (Primitive.setupBlock op arg')
  underflow : ∀ {α : Type} {site site'}, D.Sites site site' →
    D.Same (throw (.stackUnderflow site.ip) : FrameExec α) (throw (.stackUnderflow site'.ip))
  invalid : ∀ {α : Type} {site site'} op, D.Sites site site' →
    D.Same (throw (.invalidOpcode site.ip op) : FrameExec α)
      (throw (.invalidOpcode site'.ip op))
  missing : ∀ {α : Type} {site site'} op, D.Sites site site' →
    D.Same (throw (.missingArgument site.ip op) : FrameExec α)
      (throw (.missingArgument site'.ip op))
  arg_eq : ∀ {op arg arg'}, op.isDirected = false → D.Args op arg arg' → arg = arg'
  flows : ∀ {x y}, FlowsOut Flow.Stays x → D.Same x y → D.Flows x y
  flowsThen : ∀ {α : Type} {x y : FrameExec α} {f g : α → FrameExec Flow}, D.Same x y →
    (∀ a, D.Flows (f a) (g a)) → D.Flows (x >>= f) (y >>= g)
  targetThen : ∀ {op arg arg'} {f g : Nat → FrameExec Flow}, op.isDirected = true →
    D.Args op arg arg' → (∀ t t', D.Targets t t' → D.Flows (f t) (g t')) →
    D.Flows (Primitive.targetOf op arg >>= f) (Primitive.targetOf op arg' >>= g)
  jump : ∀ {t t'}, D.Targets t t' → D.Flows (pure (.jump t)) (pure (.jump t'))

/-- Feedback is not seen: it may be recorded on one side only. -/
structure FrameComparison.Loose (D : FrameComparison) : Prop where
  left : ∀ {α : Type} (change) {x : Unit → FrameExec α} {y}, D.Same (x ()) y →
    D.Same (Primitive.report change >>= x) y
  right : ∀ {α : Type} (change) {x} {y : Unit → FrameExec α}, D.Same x (y ()) →
    D.Same x (Primitive.report change >>= y)
  flowsLeft : ∀ (change) {x : Unit → FrameExec Flow} {y}, D.Flows (x ()) y →
    D.Flows (Primitive.report change >>= x) y
  flowsRight : ∀ (change) {x} {y : Unit → FrameExec Flow}, D.Flows x (y ()) →
    D.Flows x (Primitive.report change >>= y)

/-! ## Frames in closed comparisons -/

section

variable {D : FrameComparison} [D.Closed] {α : Type}

instance : D.machine.Closed := FrameComparison.Closed.closed

@[grind .]
theorem onMachine_same {x y : Exec α} (h : D.machine.Same x y) :
    D.Same (onMachine x) (onMachine y) :=
  FrameComparison.Closed.onMachine h

@[grind .]
theorem lift_same {x y : Exec α} (h : D.machine.Same x y) :
    D.Same (liftM x : FrameExec α) (liftM y) :=
  onMachine_same h

/-- What follows a look at the heap. -/
@[grind .]
theorem machineHeapThen {a b : Heap → FrameExec α} (h : ∀ h h', h.Akin h' → D.Same (a h) (b h')) :
    D.Same (onMachine heap >>= a) (onMachine heap >>= b) :=
  FrameComparison.Closed.heapThen h

@[grind .]
theorem liftHeapThen {a b : Heap → FrameExec α}
    (h : ∀ h h', h.Akin h' → D.Same (a h) (b h')) :
    D.Same ((liftM heap : FrameExec Heap) >>= a) ((liftM heap : FrameExec Heap) >>= b) :=
  FrameComparison.Closed.heapThen h

/-- What follows a look at the frame. -/
@[grind .]
theorem frameThen {a b : Frame → FrameExec α} (h : ∀ f f', f.Akin f' → D.Same (a f) (b f')) :
    D.Same (frame >>= a) (frame >>= b) :=
  FrameComparison.Closed.frameThen h

@[grind .]
theorem modifyFrame_same {h : Frame → Frame} (hh : Frame.Mild h) :
    D.Same (modifyFrame h) (modifyFrame h) :=
  FrameComparison.Closed.modifyFrame hh

@[grind .]
theorem push_same (v : Value) : D.Same (push v) (push v) := by
  unfold push Frame.push
  grind -funext

@[grind .]
theorem pop_same : D.Same pop pop := FrameComparison.Closed.pop

@[grind .]
theorem popN_same (n : Nat) : D.Same (popN n) (popN n) := FrameComparison.Closed.popN n

@[grind .]
theorem peek_same (depth : Nat) : D.Same (peek depth) (peek depth) :=
  FrameComparison.Closed.peek depth

@[grind .]
theorem dropBlock_same : D.Same Primitive.dropBlock Primitive.dropBlock :=
  FrameComparison.Closed.dropBlock

@[grind .]
theorem underflow_same {site site' : Site} (h : D.Sites site site') :
    D.Same (throw (.stackUnderflow site.ip) : FrameExec α) (throw (.stackUnderflow site'.ip)) :=
  FrameComparison.Closed.underflow h

/-! ### Variables -/

@[grind .]
theorem cellRef_agrees (i : Nat) : D.Same (cellRef i) (cellRef i) := by
  unfold cellRef look
  grind -funext

@[grind .]
theorem storeLocal_agrees (i : Nat) (v : Value) : D.Same (storeLocal i v) (storeLocal i v) := by
  unfold storeLocal
  grind -funext

@[grind .]
theorem unboundLocal_agrees {C : Comparison Machine} [C.Closed] (name : String) :
    C.Same (unboundLocal name : Exec α) (unboundLocal name) := by
  unfold unboundLocal
  grind -funext

@[grind .]
theorem loadLocal_agrees (i : Nat) : D.Same (loadLocal i) (loadLocal i) := by
  refine frameThen fun f f' alike => ?_
  rw [alike.locals, alike.localName]
  split
  · exact .ret _
  · exact onMachine_same (unboundLocal_agrees _)
  · exact .fail _

@[grind .]
theorem deleteLocal_agrees (i : Nat) : D.Same (deleteLocal i) (deleteLocal i) := by
  unfold deleteLocal
  grind -funext

end

/-! ## Agreement on frames -/

/-- Agreement on frames in a world. -/
def World.framed (W : World Machine) (side : Side) : FrameComparison where
  toComparison := (frameWorld W).agreement side
  machine := W.agreement side
  Flows := Agrees (frameWorld W) side
  Targets := (· = ·)
  Args := fun _ => (· = ·)
  Sites := (· = ·)

section

variable {W : World Machine} {side : Side}

theorem dropBlock_agrees :
    Agrees (frameWorld W) side Primitive.dropBlock Primitive.dropBlock := by
  unfold Primitive.dropBlock Frame.truncate
  grind -funext

theorem targetOf_agrees (op : Opcode) (arg : Nat) :
    Agrees (frameWorld W) side (Primitive.targetOf op arg) (Primitive.targetOf op arg) := by
  unfold Primitive.targetOf
  grind -funext

instance : (W.framed side).Lawful := inferInstanceAs ((frameWorld W).agreement side).Lawful

instance [W.Closed] : (W.framed side).Closed where
  closed := inferInstanceAs (W.agreement side).Closed
  onMachine := onMachine_agrees
  heapThen h := (onMachine_agrees heap_agrees).andThen fun heap => h heap heap (.refl heap)
  frameThen h := frame_agrees.andThen fun f => h f f (.refl f)
  modifyFrame hh := modifyFrame_agrees hh.stays
  pop := pop_agrees
  popN := popN_agrees
  peek := peek_agrees
  dropBlock := dropBlock_agrees
  setupBlock _ h := by
    obtain rfl := h
    exact (targetOf_agrees _ _).andThen fun t => pushBlock_agrees _ t
  underflow h := h ▸ .fail _
  invalid op h := h ▸ .fail _
  missing op h := h ▸ .fail _
  arg_eq _ h := h
  flows _ h := h
  flowsThen := Agrees.andThen
  targetThen _ h hf := by
    obtain rfl := h
    exact (targetOf_agrees _ _).andThen fun t => hf t t rfl
  jump h := h ▸ .ret _

/-- Feedback that only one side records, when it is not seen. -/
theorem World.Loose.framed (loose : W.Loose) : (W.framed side).Loose := by
  have keeps (change : Feedback → Feedback) :
      Keeps (frameWorld W) (Primitive.report change) :=
    keeps_frame.bind fun f => keeps_onMachine fun m => loose.kept m f.code.id change
  have left {α : Type} (change : Feedback → Feedback) {x : Unit → FrameExec α}
      {y : FrameExec α} (h : Agrees (frameWorld W) side (x ()) y) :
      Agrees (frameWorld W) side (Primitive.report change >>= x) y :=
    { left := (keeps change).bind fun _ => h.left
      right := h.right
      agree := fun hs => h.agree ⟨hs.1, loose.left _ change hs.2⟩ }
  have right {α : Type} (change : Feedback → Feedback) {x : FrameExec α}
      {y : Unit → FrameExec α} (h : Agrees (frameWorld W) side x (y ())) :
      Agrees (frameWorld W) side x (Primitive.report change >>= y) :=
    { left := h.left
      right := (keeps change).bind fun _ => h.right
      agree := fun hs => h.agree ⟨hs.1, loose.right _ change hs.2⟩ }
  exact ⟨left, right, left, right⟩

end

end TieredMachine
