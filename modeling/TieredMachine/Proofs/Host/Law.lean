/-
  Laws of a running engine.

  A *law* says what holds of a machine, of its tier state, say, at every moment, until it
  is *over*.  Two runs that begin in one machine under a law are compared: they do the
  same and end in one machine under the law, or the law is over by the end of one of
  them.  What running code does to the heap and to the records leaves a law alone.

  A law need not be about tiers: it may be about the records, or about some object of
  the heap.  What it has to put up with is asked for in steps.

  * `Machine.SameTiers`, `Machine.Aside`: machines that differ in nothing that concerns
    tiers, or in nothing that any law is about;
  * `Law`, `lawWorld`: laws, and the comparison of runs under one;
  * `Law.Steady`, `Law.Eventful`, `Law.Running`, `Law.Heapless`, `Law.TierOnly`: laws that
    are about less and less;
  * `freeWorld`: the same for runs of frames.
-/
import TieredMachine.Proofs.Agreement.Call
import TieredMachine.Proofs.Agreement.Primitive

namespace TieredMachine

/-! ## Tier state -/

/-- The machine `m'` differs from `m` in nothing that concerns tiers. -/
structure Machine.SameTiers (m m' : Machine) : Prop where
  config : m'.config = m.config
  control : m'.control = m.control
  size : m'.units.size = m.units.size
  profile : ∀ r, m'.profile r = m.profile r
  compiled : m'.compiled = m.compiled

namespace Machine.SameTiers

/-- Machines with one tier state. -/
theorem of {m m' : Machine} (config : m'.config = m.config) (control : m'.control = m.control)
    (units : m'.units = m.units) (compiled : m'.compiled = m.compiled) : m.SameTiers m' :=
  ⟨config, control, congrArg Array.size units,
    fun r => by simp only [Machine.profile, Machine.unitState, units], compiled⟩

theorem refl (m : Machine) : m.SameTiers m := .of rfl rfl rfl rfl

theorem trans {m m' m'' : Machine} (h : m.SameTiers m') (h' : m'.SameTiers m'') :
    m.SameTiers m'' :=
  ⟨h'.config.trans h.config, h'.control.trans h.control, h'.size.trans h.size,
    fun r => (h'.profile r).trans (h.profile r), h'.compiled.trans h.compiled⟩

theorem mapFeedback (m : Machine) (unit : Ref) (f : Feedback → Feedback) :
    m.SameTiers (m.mapFeedback unit f) := by
  refine ⟨rfl, rfl, Array.size_modify, fun r => ?_, rfl⟩
  rw [Machine.profile, Machine.mapFeedback, Machine.unitState_mapUnit]
  split <;> rfl

end Machine.SameTiers

/-- The machine `m'` differs from `m` in nothing but what running code changes all the
    time: objects other than generators and the exceptions that there were, texts, flags
    and the number of nested calls. -/
structure Machine.Aside (m m' : Machine) : Prop where
  tiers : m.SameTiers m'
  timer : m'.timer = m.timer
  stats : m'.stats = m.stats
  generators : m'.heap.generators = m.heap.generators
  exceptions : ∀ i < m.heap.exceptions.size, m'.heap.exceptions[i]? = m.heap.exceptions[i]?

namespace Machine.Aside

/-- Machines with one heap. -/
theorem of {m m' : Machine} (tiers : m.SameTiers m') (timer : m'.timer = m.timer)
    (stats : m'.stats = m.stats) (heap : m'.heap = m.heap) : m.Aside m' :=
  ⟨tiers, timer, stats, by rw [heap], fun _ _ => by rw [heap]⟩

theorem refl (m : Machine) : m.Aside m := .of (.refl m) rfl rfl rfl

theorem mild {f : Heap → Heap} (hf : Heap.Mild f) (m : Machine) : m.Aside (m.mapHeap f) :=
  ⟨.of rfl rfl rfl rfl, rfl, rfl, hf.generators m.heap, hf.exceptions m.heap⟩

theorem mapSpace (m : Machine) (r : Ref) (f : Namespace → Namespace) : m.Aside (m.mapSpace r f) :=
  ⟨.of rfl rfl rfl rfl, rfl, rfl, rfl, fun _ _ => rfl⟩

theorem mapFeedback (m : Machine) (unit : Ref) (f : Feedback → Feedback) :
    m.Aside (m.mapFeedback unit f) := .of (.mapFeedback m unit f) rfl rfl rfl

end Machine.Aside

/-- The machine with another heap. -/
def Machine.withHeap (m : Machine) (h : Heap) : Machine := { m with heap := h }

/-- Whether an event stands alone: it marks an exception, or the end of an activation, and
    neither opens nor closes an interval. -/
def EventKind.isMark : EventKind → Bool
  | .callEndEval | .exceptRaiseEval | .exceptRaiseNative | .exceptCatchEval
  | .exceptCatchNative => true
  | _ => false

/-! ## Laws -/

/-- What holds of a machine at every moment, until it is over. -/
structure Law where
  /-- the settings of the engine, which never change -/
  config : Configuration
  /-- what holds at every moment -/
  holds : Machine → Prop
  /-- nothing is promised any more -/
  past : Machine → Prop
  /-- what a machine has in common with every later one -/
  kept : Machine → Machine → Prop
  kept_refl : ∀ m, kept m m
  kept_trans : ∀ {m m' m''}, kept m m' → kept m' m'' → kept m m''
  past_of_kept : ∀ {m m'}, kept m m' → past m → past m'

namespace Law

/-- The law still holds, or is over. -/
def Stands (L : Law) (m : Machine) : Prop := L.holds m ∨ L.past m

/-- A step that the law puts up with. -/
structure Bears (L : Law) (m m' : Machine) : Prop where
  kept : L.kept m m'
  stands : L.holds m → L.Stands m'

/-- A law puts up with what running code changes all the time. -/
class Steady (L : Law) : Prop where
  configured : ∀ {m}, L.holds m → m.config = L.config
  aside : ∀ {m m'}, m.Aside m' → L.kept m m' ∧ (L.holds m → L.holds m')

/-- A law puts up with events that stand alone and with new generators as well. -/
class Eventful (L : Law) : Prop extends L.Steady where
  mark : ∀ m {kind : EventKind}, kind.isMark → L.Bears m (m.record kind)
  newGenerator : ∀ m name (f : Frame),
    L.Bears m (m.withHeap (m.heap.newGenerator { name, frame := some f }).2)

/-- A law puts up with all that runs of frames do: with entries of tracebacks, too. -/
class Running (L : Law) : Prop extends L.Eventful where
  addEntry : ∀ m exc (entry : Heap → TracebackEntry),
    L.Bears m (m.mapHeap (·.addEntry exc entry))

/-- A law says nothing of the heap. -/
class Heapless (L : Law) : Prop where
  heap : ∀ m h, L.Bears m (m.withHeap h)

/-- A law is about the tier state only. -/
class TierOnly (L : Law) : Prop where
  configured : ∀ {m}, L.holds m → m.config = L.config
  holds_of_same : ∀ {m m'}, m.SameTiers m' → L.holds m → L.holds m'
  kept_of_same : ∀ {m m'}, m.SameTiers m' → L.kept m m'

variable {L : Law}

theorem Bears.of {m m' : Machine} (h : L.kept m m' ∧ (L.holds m → L.holds m')) : L.Bears m m' :=
  ⟨h.1, fun hm => .inl (h.2 hm)⟩

theorem Bears.refl (m : Machine) : L.Bears m m := ⟨L.kept_refl m, .inl⟩

theorem Bears.trans {m m' m'' : Machine} (h : L.Bears m m') (h' : L.Bears m' m'') :
    L.Bears m m'' :=
  ⟨L.kept_trans h.kept h'.kept, fun hm =>
    (h.stands hm).elim h'.stands fun past => .inr (L.past_of_kept h'.kept past)⟩

theorem Bears.aside [L.Steady] {m m' : Machine} (h : m.Aside m') : L.Bears m m' :=
  .of (Steady.aside h)

theorem Bears.same [L.TierOnly] {m m' : Machine} (h : m.SameTiers m') : L.Bears m m' :=
  .of ⟨TierOnly.kept_of_same h, TierOnly.holds_of_same h⟩

instance [L.TierOnly] : L.Heapless where
  heap _ _ := .same (.of rfl rfl rfl rfl)

instance [L.TierOnly] : L.Running where
  configured := TierOnly.configured
  aside h := ⟨TierOnly.kept_of_same h.tiers, TierOnly.holds_of_same h.tiers⟩
  mark _ _ _ := .same (.of rfl rfl rfl rfl)
  addEntry _ _ _ := .same (.of rfl rfl rfl rfl)
  newGenerator _ _ _ := .same (.of rfl rfl rfl rfl)

end Law

/-- The comparison of runs under a law: they begin in one machine. -/
def lawWorld (L : Law) : World Machine where
  alike m m' := m = m' ∧ L.holds m
  failed _ m m' := m = m' ∧ L.holds m
  kept := L.kept
  worn := L.past
  slack := False
  kept_refl := L.kept_refl
  kept_trans := L.kept_trans
  worn_of_kept := L.past_of_kept
  failed_of_alike h := h
  alike_of_raised h := h

/-- The comparison of runs of frames; a run may leave the frame anywhere. -/
def freeWorld (W : World Machine) : World Activation :=
  { frameWorld W with
    kept := fun s s' => W.kept s.machine s'.machine
    kept_refl := fun s => W.kept_refl s.machine
    kept_trans := fun h h' => W.kept_trans h h'
    worn_of_kept := fun h => W.worn_of_kept h }

section

variable {L : Law} {side : Side} {α β : Type}

/-- Two runs of one computation agree where the law is over afterwards. -/
theorem Agree.past {σ : Type} {W : World σ} {r r' : EStateM.Result Fault σ α}
    (h : W.worn (finalState r)) (h' : W.worn (finalState r')) : Agree W side r r' := by
  cases hs : side with
  | left => exact .left rfl (.inr h)
  | right => exact .right rfl (.inr h')

/-- What is known of two runs that agree under a law. -/
theorem Agree.outcome {r r' : EStateM.Result Fault Machine α}
    (h : Agree (lawWorld L) .right r r') :
    (r = r' ∧ L.holds (finalState r')) ∨ L.past (finalState r') := by
  cases h with
  | ok h =>
    obtain ⟨rfl, rfl, holds⟩ := h
    exact .inl ⟨rfl, holds⟩
  | error h =>
    obtain ⟨rfl, holds⟩ := h
    exact .inl ⟨rfl, holds⟩
  | left hs _ => cases hs
  | right _ h => exact .inr (h.resolve_left fun h => h.1)

/-! ### Steps on the machine -/

/-- A change that a law puts up with agrees with itself. -/
theorem Law.change_agrees {f : Machine → Machine} (h : ∀ m, L.Bears m (f m)) :
    Agrees (lawWorld L) side (modify f) (modify f) where
  left m := (h m).kept
  right m := (h m).kept
  agree {m _} hm := by
    obtain ⟨rfl, hm⟩ := hm
    obtain h | h := (h m).stands hm
    · exact .same ⟨rfl, h⟩
    · exact .past h h

/-- So does a change with an answer. -/
theorem Law.answer_agrees {f : Machine → α × Machine} (h : ∀ m, L.Bears m (f m).2) :
    Agrees (lawWorld L) side (modifyGet f) (modifyGet f) where
  left m := (h m).kept
  right m := (h m).kept
  agree {m _} hm := by
    obtain ⟨rfl, hm⟩ := hm
    obtain h | h := (h m).stands hm
    · exact .same ⟨rfl, h⟩
    · exact .past h h

/-- Looking at the machine agrees when what follows does. -/
theorem Agrees.read {f g : Machine → Exec α} (h : ∀ m, Agrees (lawWorld L) side (f m) (g m)) :
    Agrees (lawWorld L) side (get >>= f) (get >>= g) where
  left m := (h m).left m
  right m := (h m).right m
  agree {m _} hm := by
    obtain ⟨rfl, hm⟩ := hm
    exact (h m).agree ⟨rfl, hm⟩

/-- So does any change of the heap, for a law that says nothing of it. -/
theorem Law.editHeap [L.Heapless] (f : Heap → Heap) :
    Agrees (lawWorld L) side (modifyHeap f) (modifyHeap f) :=
  L.change_agrees fun m => Heapless.heap m (f m.heap)

theorem Law.mark_agrees [L.Eventful] {kind : EventKind} (h : kind.isMark) :
    Agrees (lawWorld L) side (recordEvent kind) (recordEvent kind) :=
  L.change_agrees fun m => Eventful.mark m h

instance [L.Running] : (lawWorld L).Framed where
  addEntry _ exc entry := L.change_agrees fun m => Law.Running.addEntry m exc entry

variable [L.Steady]

/-- A change of what running code changes all the time agrees with itself. -/
theorem Law.aside_agrees {f : Machine → Machine} (hf : ∀ m : Machine, m.Aside (f m)) :
    Agrees (lawWorld L) side (modify f) (modify f) :=
  L.change_agrees fun m => .aside (hf m)

instance : (lawWorld L).Closed where
  look _ := .read fun m => .ret m.heap
  names _ _ _ h := .read fun m => h m.builtins
  change _ _ hf := L.aside_agrees (.mild hf)
  add _ _ _ hf := L.answer_agrees fun m => .aside (.mild hf m)
  addBuiltin _ _ _ := L.answer_agrees fun _ =>
    .aside ⟨.of rfl rfl rfl rfl, rfl, rfl, rfl, fun _ _ => rfl⟩
  bind _ r f _ := L.aside_agrees fun m => .mapSpace m r f
  bindGlobal _ name v := L.aside_agrees fun m => .mapSpace m m.globals (·.set name v)
  emit _ _ := L.aside_agrees fun _ => .of (.of rfl rfl rfl rfl) rfl rfl rfl
  trace _ _ := L.aside_agrees fun _ => .of (.of rfl rfl rfl rfl) rfl rfl rfl
  ask _ := L.aside_agrees fun _ => .of (.of rfl rfl rfl rfl) rfl rfl rfl
  report _ r f := L.aside_agrees fun m => .mapFeedback m r f

/-- Counting a nested call agrees when the call does. -/
theorem Law.nested {x y : Exec α} (h : Agrees (lawWorld L) side x y) :
    Agrees (lawWorld L) side (nested x) (nested y) := by
  have enter : Agrees (lawWorld L) side (modify (Machine.mapDepth (· + 1)))
      (modify (Machine.mapDepth (· + 1))) := L.aside_agrees fun _ => .of (.of rfl rfl rfl rfl) rfl rfl rfl
  have leave : Agrees (lawWorld L) side (modify (Machine.mapDepth (· - 1)))
      (modify (Machine.mapDepth (· - 1))) := L.aside_agrees fun _ => .of (.of rfl rfl rfl rfl) rfl rfl rfl
  have run : Agrees (lawWorld L) side
      (tryCatch x fun fault => do modify (Machine.mapDepth (· - 1)); throw fault)
      (tryCatch y fun fault => do modify (Machine.mapDepth (· - 1)); throw fault) :=
    h.handle (fun e => leave.left.bind fun _ => .throw e)
      (fun e => leave.right.bind fun _ => .throw e)
      (fun e _ _ ht => (leave.andThen fun _ => .fail e).agree ht)
      (fun _ => ⟨_, rfl⟩) (fun _ => ⟨_, rfl⟩)
  have body := enter.andThen fun _ => run.andThen fun a => leave.andThen fun _ => Agrees.ret a
  refine .read fun m => ?_
  dsimp only
  split
  · exact (Agrees.of (raise_agrees _ _)).andThen fun _ => body
  · exact body

/-! ### Runs of frames -/

omit [L.Steady]

variable {W : World Machine} {x y : FrameExec α}

theorem Keeps.free (h : Keeps (frameWorld W) x) : Keeps (freeWorld W) x := fun s => (h s).2

/-- What agrees inside an instruction agrees in a run. -/
theorem Agrees.free (h : Agrees (frameWorld W) side x y) : Agrees (freeWorld W) side x y where
  left := h.left.free
  right := h.right.free
  agree {s s'} hs := by
    have hr := h.agree hs
    generalize x s = r, y s' = r' at hr
    cases hr with
    | ok h => exact .ok h
    | error h => exact .error h
    | left hs h => exact .left hs h
    | right hs h => exact .right hs h

/-- A computation on the machine agrees in a run of a frame, too. -/
theorem Agrees.onFrame {x y : Exec α} (h : Agrees W side x y) :
    Agrees (freeWorld W) side (onMachine x) (onMachine y) :=
  (onMachine_agrees h).free

/-- A change of the frame agrees with itself. -/
theorem moveFrame_agrees (h : Frame → Frame) :
    Agrees (freeWorld W) side (modifyFrame h) (modifyFrame h) where
  left s := W.kept_refl s.machine
  right s := W.kept_refl s.machine
  agree hs := .same ⟨congrArg h hs.1, hs.2⟩

theorem finalState_within (x : FrameExec α) (f : Frame) (m : Machine) :
    finalState (x.within f m) = (finalState (x ⟨f, m⟩)).machine := by
  unfold FrameExec.within
  cases x ⟨f, m⟩ <;> rfl

/-- A run of a frame agrees as a computation on the machine. -/
theorem Agrees.within (h : Agrees (freeWorld (lawWorld L)) side x y) (f : Frame) :
    Agrees (lawWorld L) side (x.within f) (y.within f) where
  left m := by rw [finalState_within]; exact h.left ⟨f, m⟩
  right m := by rw [finalState_within]; exact h.right ⟨f, m⟩
  agree {m m'} hm := by
    have hs : (freeWorld (lawWorld L)).alike ⟨f, m⟩ ⟨f, m'⟩ := ⟨rfl, hm⟩
    have ha := h.agree hs
    unfold FrameExec.within
    generalize x ⟨f, m⟩ = r, y ⟨f, m'⟩ = r' at ha
    cases ha with
    | ok h => obtain ⟨rfl, hf, hm⟩ := h; exact .ok ⟨by rw [hf], hm⟩
    | error h => exact .error h.2
    | left hs h =>
      refine .left hs (.inr ?_)
      cases r <;> exact h.resolve_left fun h => h.1
    | right hs h =>
      refine .right hs (.inr ?_)
      cases r' <;> exact h.resolve_left fun h => h.1

/-- A look at the frame and the machine agrees when what follows does. -/
theorem Agrees.readRun {f g : Activation → FrameExec α}
    (h : ∀ s, Agrees (freeWorld (lawWorld L)) side (f s) (g s)) :
    Agrees (freeWorld (lawWorld L)) side (get >>= f) (get >>= g) where
  left s := (h s).left s
  right s := (h s).right s
  agree {s s'} hs := by
    obtain ⟨f, m⟩ := s
    obtain ⟨f', m'⟩ := s'
    obtain ⟨rfl, rfl, hm⟩ := hs
    exact (h ⟨f, m⟩).agree ⟨rfl, rfl, hm⟩

end

end TieredMachine
