/-
  Primitives bear out the analysis.

  Whatever a primitive does, it leaves the frame as the analysis says: where it hands on to
  the next primitive, where it jumps, where it suspends the frame, and where a loop takes a
  `continue`.  What it takes off the stack is there.

  * `Leaves`: what a computation leaves, and whether it fails for want of values;
  * `Lands`: where the analysis says that control goes;
  * `Stands.lands`: primitives, one lemma for each kind;
  * `stepPrimitives_land`: the primitives of an instruction.
-/
import TieredMachine.Proofs.Safety.Spared
import TieredMachine.Proofs.Run.Matching
import TieredMachine.Proofs.Agreement.Yield
import TieredMachine.Proofs.Native.Operation

namespace TieredMachine

open Analysis Primitive

variable {u : CodeUnit} {a a' : Analysis} {e : StackState} {α β : Type}

/-! ## What computations leave -/

/-- The frame stays where it stands, and the answer and the frame are as told.  Of faults only
    those for want of values and blocks are ruled out, when that is asked for. -/
def Leaves (strict : Prop) (s : Activation) (Q : α → Frame → Prop) :
    EStateM.Result Fault Activation α → Prop
  | .ok x t => s.frame.Stays t.frame ∧ Q x t.frame
  | .error f t => s.frame.Stays t.frame ∧ (strict → f.isStackFault = false)

variable {strict : Prop} {s : Activation}

namespace Leaves

theorem bind {P : α → Frame → Prop} {Q : β → Frame → Prop} {x : FrameExec α}
    {f : α → FrameExec β} (hx : Leaves strict s P (x s))
    (hf : ∀ b t, s.frame.Stays t.frame → P b t.frame → Leaves strict t Q (f b t)) :
    Leaves strict s Q ((x >>= f) s) := by
  rw [bind_apply]
  cases hr : x s with
  | error e t =>
    rw [hr] at hx
    exact hx
  | ok b t =>
    rw [hr] at hx
    obtain ⟨stays, hb⟩ := hx
    have := hf b t stays hb
    dsimp only
    cases hr' : f b t with
    | ok c v =>
      rw [hr'] at this
      exact ⟨stays.trans this.1, this.2⟩
    | error e v =>
      rw [hr'] at this
      exact ⟨stays.trans this.1, this.2⟩

theorem ret {Q : α → Frame → Prop} {x : α} (h : Q x s.frame) :
    Leaves strict s Q ((pure x : FrameExec α) s) := ⟨.refl s.frame, h⟩

theorem fail {Q : α → Frame → Prop} {f : Fault} (h : f.isStackFault = false) :
    Leaves strict s Q ((throw f : FrameExec α) s) := ⟨.refl s.frame, fun _ => h⟩

theorem mono {P Q : α → Frame → Prop} {r : EStateM.Result Fault Activation α}
    (h : Leaves strict s P r) (hPQ : ∀ x f, P x f → Q x f) : Leaves strict s Q r := by
  cases r with
  | ok x t => exact ⟨h.1, hPQ _ _ h.2⟩
  | error e t => exact h

/-- A computation that takes `k` values off the stack and leaves `m` in their place. -/
theorem ofBrings {k m : Nat} {x : FrameExec α} (hx : Brings (.heights strict) k m x)
    (hk : k ≤ s.frame.stack.length) : Leaves strict s (fun _ f => f.blocks = s.frame.blocks ∧
      f.stack.length + k = s.frame.stack.length + m) (x s) := by
  have h := hx s trivial trivial (.inl hk)
  cases hr : x s with
  | ok a t =>
    rw [hr] at h
    exact ⟨h.2.1.toStays, h.2.1.blocks, h.2.2.1⟩
  | error e t =>
    rw [hr] at h
    exact ⟨h.2.1.toStays, h.2.2⟩

end Leaves

/-! ## Jumps -/

/-- A jump that has a target finds it. -/
theorem targetOf_apply {op : Opcode} {arg target : Nat}
    (h : Code.jumpTarget? op arg s.frame.ip = some target) :
    Primitive.targetOf op arg s = .ok target s := by
  unfold Primitive.targetOf
  rw [bind_apply]
  simp only [show frame s = .ok s.frame s from rfl, h]
  rfl

/-- A decided jump pops the tested value, if it is to go. -/
theorem decidedJump_leaves {Q : Flow → Frame → Prop} {op : Opcode} {truth : Bool} {target : Nat}
    (hlen : 0 < s.frame.stack.length)
    (hQ : ∀ taken popped f, decideJump? op truth = some (taken, popped) →
      f.blocks = s.frame.blocks → f.stack.length + popped.toNat = s.frame.stack.length →
        Q (if taken then .jump target else .next) f) :
    Leaves strict s Q ((match decideJump? op truth with
      | none => throw (.runtime (.notConditionalJump op))
      | some (taken, popped) => do
        if popped then
          let _ ← pop
        return if taken then .jump target else .next : FrameExec Flow) s) := by
  cases hd : decideJump? op truth with
  | none => exact .fail rfl
  | some d =>
    obtain ⟨taken, popped⟩ := d
    dsimp only
    cases popped with
    | false => exact .ret (hQ taken false _ hd rfl rfl)
    | true =>
      refine .bind (.ofBrings (k := 1) pop_brings hlen) fun _ v _ hv => ?_
      exact .ret (hQ taken true _ hd hv.1 hv.2)

/-- A conditional jump looks at the topmost value, which it keeps or pops. -/
theorem testJump_leaves {Q : Flow → Frame → Prop} {site : Site} {recording : Bool} {op : Opcode}
    {arg target : Nat} (ht : Code.jumpTarget? op arg s.frame.ip = some target)
    (hlen : 0 < s.frame.stack.length)
    (hQ : ∀ truth taken popped f, decideJump? op truth = some (taken, popped) →
      f.blocks = s.frame.blocks → f.stack.length + popped.toNat = s.frame.stack.length →
        Q (if taken then .jump target else .next) f) :
    Leaves strict s Q (testJump site recording op arg s) := by
  unfold testJump
  rw [bind_apply, targetOf_apply ht]
  refine .bind (.ofBrings (peek_brings hlen) (Nat.le_refl _)) fun tested t _ ht => ?_
  refine .bind (.ofBrings (k := 0) (.lift (truthOf_safe tested)) (Nat.zero_le _))
    fun truth t' _ ht' => ?_
  have blocks : t'.frame.blocks = s.frame.blocks := ht'.1.trans ht.1
  have height : t'.frame.stack.length = s.frame.stack.length := by
    have := ht.2
    have := ht'.2
    omega
  have keeps (v : Activation) (hb : v.frame.blocks = t'.frame.blocks)
      (hl : v.frame.stack.length = t'.frame.stack.length) (taken popped : Bool) (f : Frame)
      (hd : decideJump? op truth = some (taken, popped)) (hb' : f.blocks = v.frame.blocks)
      (hl' : f.stack.length + popped.toNat = v.frame.stack.length) :
      Q (if taken then .jump target else .next) f :=
    hQ truth taken popped f hd (hb'.trans (hb.trans blocks)) (by omega)
  cases recording with
  | false => exact decidedJump_leaves (by omega) (keeps t' rfl rfl)
  | true =>
    refine .bind (.ofBrings (k := 0) (report_brings _) (Nat.zero_le _)) fun _ v _ ⟨hb, hl⟩ => ?_
    exact decidedJump_leaves (by omega) (keeps v hb hl)

/-! ## One primitive -/

/-- The flow out of a primitive leaves the frame as the analysis says that control arrives
    where it goes; `out` tells of the next primitive. -/
def Lands (u : CodeUnit) (a : Analysis) (out : Option StackState) : Flow → Frame → Prop
  | .next, f => ∃ e, out = some e ∧ f.Matches a e
  | .jump target, f => ∃ e, a.entryAt? u target = some e ∧ f.Matches a e
  | .yield_ _, f => ∃ e, out = some e ∧ ∀ v, (f.push v).Matches a e
  | .unwind (.continue_ target), f => f.Restarts → ∃ e, a.entryAt? u target = some e ∧
      f.restartHeight = e.depth ∧ List.Forall₂ (Block.Matches a) f.outer e.handlers
  | .unwind _, _ | .raise _ _, _ => True

theorem Analysis.Steady.lands_later (ha : Steady u a) (hl : Later a a') {out : Option StackState}
    {flow : Flow} {f : Frame} (h : Lands u a out flow f) : Lands u a' out flow f := by
  cases flow with
  | next =>
    obtain ⟨e, ho, hf⟩ := h
    exact ⟨e, ho, hf.later hl⟩
  | jump target =>
    obtain ⟨e, he, hf⟩ := h
    exact ⟨e, ha.entryAt?_later hl he, hf.later hl⟩
  | yield_ v =>
    obtain ⟨e, ho, hf⟩ := h
    exact ⟨e, ho, fun v => (hf v).later hl⟩
  | raise exc fresh => trivial
  | unwind p =>
    cases p with
    | continue_ target =>
      intro hr
      obtain ⟨e, he, hd, hb⟩ := h hr
      exact ⟨e, ha.entryAt?_later hl he, hd, hb.imp fun _ _ hm => hm.later hl⟩
    | exception _ => trivial
    | return_ _ => trivial
    | break_ => trivial

theorem need_ok {ip depth n : Nat} {x : Unit} (h : need ip depth n = .ok x) : n ≤ depth := by
  unfold need at h
  split at h
  · cases h
  · omega

/-- The frame before a primitive, which the analysis knows all about. -/
structure Stands (u : CodeUnit) (a : Analysis) (i : Instr) (e : StackState) (f : Frame) : Prop where
  steady : Steady u a
  known : a.Knows e
  frame : f.Matches a e
  ip : f.ip = i.next

namespace Stands

variable {i : Instr} {g : Guest} {site : Site} {recording : Bool} {arg : Option Nat}

theorem target (h : Stands u a i e s.frame) {op : Opcode} {target : Nat}
    (ht : targetOf i.ip (Primitive.target? ⟨op, arg⟩ i.next) = .ok target) :
    ∃ n, arg = some n ∧ Code.jumpTarget? op n s.frame.ip = some target := by
  have ht := targetOf_ok ht
  cases arg with
  | none => cases ht
  | some n => exact ⟨n, rfl, by rw [h.ip]; exact ht⟩

/-- A primitive that neither jumps nor touches blocks. -/
theorem plain (hs : Stands u a i e s.frame) (hg : g.Safe (.heights strict)) {p : Primitive}
    (hp : p.op.isPlain) {out : Option StackState} {ip next : Nat}
    (h : stepPrimitive u ip next p e a = .ok (a', out)) :
    Leaves strict s (Lands u a' out) (run g site recording p s) := by
  have effect : stepPrimitive u ip next p e a = (do
      need ip e.depth (stackEffect p).1
      return (a, some { e with depth := (e.depth + (stackEffect p).2).toNat })) := by
    unfold stepPrimitive
    split
    case h_18 => rfl
    all_goals
      rename_i hop
      rw [hop] at hp
      exact absurd hp (by decide)
  rw [effect] at h
  obtain ⟨_, needs, h⟩ := except_bind_ok.mp h
  cases h
  have enough : (stackEffect p).1 ≤ s.frame.stack.length := hs.frame.height ▸ need_ok needs
  obtain ⟨y, hy, brings⟩ := run_moves hg site recording (Regime.heights_suits p) hp
  rw [hy]
  refine .bind (.ofBrings (brings _ enough) (Nat.le_refl _)) fun _ t _ ⟨hb, hl⟩ => ?_
  refine .ret ⟨_, rfl, hs.frame.at_height hb ?_⟩
  rw [← hs.frame.height]
  omega

/-- The end of a `with` clause that was told one value. -/
theorem withCleanup (hs : Stands u a i e s.frame) (hg : g.Safe (.heights strict))
    (alone : ∀ v, s.frame.stack.head? = some v → cameAlone v) {out : Option StackState}
    {ip next : Nat} (h : stepPrimitive u ip next ⟨.withCleanup, arg⟩ e a = .ok (a', out)) :
    Leaves strict s (Lands u a' out) (run g site recording ⟨.withCleanup, arg⟩ s) := by
  obtain ⟨_, needs, h⟩ := except_bind_ok.mp
    (show need ip e.depth 2 >>= (fun _ => .ok (a, some { e with depth := (e.depth + -1 : Int).toNat }))
      = .ok (a', out) from h)
  cases h
  have enough : 2 ≤ s.frame.stack.length := hs.frame.height ▸ need_ok needs
  have shifts := withCleanup_shifts (R := .heights strict) (k := 0) hg site trivial trivial
    (.inl enough) alone
  show Leaves strict s _ (thenNext (Primitive.withCleanup g site) s)
  unfold thenNext
  rw [bind_apply]
  cases hr : Primitive.withCleanup g site s with
  | error e t =>
    rw [hr] at shifts
    exact ⟨shifts.2.1.toStays, shifts.2.2⟩
  | ok x t =>
    rw [hr] at shifts
    refine ⟨shifts.2.1.toStays, _, rfl, hs.frame.at_height shifts.2.1.blocks ?_⟩
    have := shifts.2.2.1
    rw [← hs.frame.height]
    omega

/-- A setup pushes the block that it is recorded with. -/
theorem setup (hs : Stands u a i e s.frame) (hu : u.Checked) (hi : u.instrAt? i.ip = some i)
    (hentry : a.entryAt? u i.ip = some e) {p : Primitive} (hp : p ∈ i.prims) {kind : BlockKind}
    (hk : p.op.blockKind? = some kind) {out : Option StackState}
    (h : (do
      let target ← targetOf i.ip (p.target? i.next)
      if maxBlocks ≤ e.handlers.length then .error (.blockMismatch i.ip)
      let (h, a) := a.handlerFor ⟨kind, i.ip, target, 0, some e.depth, e.handlers.head?⟩
      let a ← a.merge u i.ip target { e with depth := e.depth + received kind }
      return (a, some { e with handlers := h :: e.handlers })) = .ok (a', out)) :
    Leaves strict s (Lands u a' out) (run g site recording p s) := by
  obtain ⟨target, ht, h⟩ := except_bind_ok.mp h
  dsimp only at h
  have ht := targetOf_ok ht
  by_cases room : maxBlocks ≤ e.handlers.length
  · rw [if_pos room] at h
    cases h
  rw [if_neg room] at h
  obtain ⟨a₁, hm, h⟩ := except_bind_ok.mp h
  cases h
  let hd : Handler := ⟨kind, i.ip, target, 0, some e.depth, e.handlers.head?⟩
  have later : Later (a.handlerFor hd).2 a' := by
    have size := (handlerFor_grows hd a).size.trans hs.steady.size
    exact (merge_grows hu size hm).1.toLater
  have new : Block.Matches (a.handlerFor hd).2 ⟨kind, target, s.frame.stack.length⟩
      (a.handlerFor hd).1 := by
    obtain ⟨found, hf, same, old⟩ := handlerFor_get hd a
    refine ⟨found, hf, ?_⟩
    rcases old with old | rfl
    · -- the setup was followed before, and with the same entry
      obtain ⟨i', p', hi', hp', hk', ht'⟩ := hs.steady.setUp found old
      obtain ⟨e', he', level⟩ := hs.steady.level found old
      rw [same] at hi' he'
      obtain rfl := Option.some.inj (hi.symm.trans hi')
      obtain rfl := Option.some.inj (hentry.symm.trans he')
      have one := hu.setup_alone hi hp (by rw [hk]; rfl)
      obtain rfl : p = p' := by simpa [one] using hp'
      exact ⟨Option.some.inj (hk.symm.trans hk'), Option.some.inj (ht.symm.trans ht'),
        by rw [level, hs.frame.height]⟩
    · exact ⟨rfl, rfl, by rw [hs.frame.height]⟩
  have len : s.frame.blocks.length = e.handlers.length := hs.frame.blocks.length_eq
  rw [setup_run g site recording hk (by rw [hs.ip]; exact ht), bind_apply]
  have pushed : pushBlock kind target s = .ok () { s with frame :=
      { s.frame with blocks := ⟨kind, target, s.frame.stack.length⟩ :: s.frame.blocks } } := by
    unfold pushBlock
    rw [bind_apply, look_apply, Frame.pushBlock, if_neg (by rwa [len])]
    rfl
  rw [pushed]
  refine ⟨⟨rfl, rfl, rfl, rfl, rfl⟩, _, rfl, hs.frame.height, ?_⟩
  exact .cons (new.later later) ((hs.frame.later ((handlerFor_grows hd a).toLater.trans later)).blocks)

/-- Leaving a block cuts the stack down to its level. -/
theorem popBlock (hs : Stands u a i e s.frame) {out : Option StackState} {ip next : Nat}
    (h : stepPrimitive u ip next ⟨.popBlock, arg⟩ e a = .ok (a', out)) :
    Leaves strict s (Lands u a' out) (run g site recording ⟨.popBlock, arg⟩ s) := by
  unfold stepPrimitive at h
  dsimp only at h
  show Leaves strict s _ (thenNext dropBlock s)
  have blocks := hs.frame.blocks
  cases hh : e.handlers with
  | nil =>
    rw [hh] at h
    cases h
  | cons k rest =>
    rw [hh] at h blocks
    obtain ⟨b, bs, hb, hbs, hcons⟩ := List.forall₂_cons_right_iff.mp blocks
    have level : a.depthOf k = some b.level := hb.depthOf
    dsimp only at h
    rw [level] at h
    cases h
    have popped : TieredMachine.popBlock s = .ok b { s with frame := { s.frame with blocks := bs } } := by
      unfold TieredMachine.popBlock
      rw [take_apply, Frame.popBlock, hcons]
    unfold thenNext dropBlock
    rw [bind_apply, bind_apply, popped]
    refine ⟨⟨rfl, rfl, rfl, rfl, rfl⟩, _, rfl, ?_, hbs⟩
    rw [← hs.frame.height]
    exact Frame.truncate_length _ _

theorem jump (hs : Stands u a i e s.frame) (hu : u.Checked) {op : Opcode}
    (hop : op = .jumpForward ∨ op = .jumpAbsolute) {out : Option StackState}
    (h : stepPrimitive u i.ip i.next ⟨op, arg⟩ e a = .ok (a', out)) :
    Leaves strict s (Lands u a' out) (run g site recording ⟨op, arg⟩ s) := by
  have effect : stepPrimitive u i.ip i.next ⟨op, arg⟩ e a = (do
      let target ← targetOf i.ip (Primitive.target? ⟨op, arg⟩ i.next)
      return (← a.merge u i.ip target e, none)) := by
    rcases hop with rfl | rfl <;> rfl
  rw [effect] at h
  obtain ⟨target, ht, h⟩ := except_bind_ok.mp h
  obtain ⟨a₁, hm, h⟩ := except_bind_ok.mp h
  cases h
  obtain ⟨n, rfl, jumps⟩ := hs.target ht
  have runs : run g site recording ⟨op, some n⟩ s = .ok (.jump target) s := by
    have : run g site recording ⟨op, some n⟩ = Primitive.jump op n := by
      rcases hop with rfl | rfl <;> rfl
    rw [this]
    unfold Primitive.jump
    rw [bind_apply, targetOf_apply jumps]
    rfl
  rw [runs]
  exact ⟨.refl s.frame, e, hs.known.arrives hu hs.steady hm,
    hs.frame.later (merge_grows hu hs.steady.size hm).1.toLater⟩

/-- A conditional jump that pops the tested value either way. -/
theorem popJump (hs : Stands u a i e s.frame) (hu : u.Checked) {op : Opcode}
    (hop : op = .popJumpIfFalse ∨ op = .popJumpIfTrue) {out : Option StackState}
    (h : stepPrimitive u i.ip i.next ⟨op, arg⟩ e a = .ok (a', out)) :
    Leaves strict s (Lands u a' out) (run g site recording ⟨op, arg⟩ s) := by
  have effect : stepPrimitive u i.ip i.next ⟨op, arg⟩ e a = (do
      need i.ip e.depth 1
      let e := { e with depth := e.depth - 1 }
      let target ← targetOf i.ip (Primitive.target? ⟨op, arg⟩ i.next)
      return (← a.merge u i.ip target e, some e)) := by
    rcases hop with rfl | rfl <;> rfl
  rw [effect] at h
  obtain ⟨_, needs, h⟩ := except_bind_ok.mp h
  obtain ⟨target, ht, h⟩ := except_bind_ok.mp h
  obtain ⟨a₁, hm, h⟩ := except_bind_ok.mp h
  cases h
  obtain ⟨n, rfl, jumps⟩ := hs.target ht
  have runs : run g site recording ⟨op, some n⟩ = testJump site recording op n := by
    rcases hop with rfl | rfl <;> rfl
  have height := hs.frame.height
  have needs := need_ok needs
  have later := (merge_grows hu hs.steady.size hm).1.toLater
  rw [runs]
  refine testJump_leaves jumps (by omega) fun truth taken popped f hd hb hl => ?_
  have always : popped = true := by
    rcases hop with rfl | rfl <;> (cases hd; rfl)
  subst always
  simp only [Bool.toNat_true] at hl
  have found := (hs.frame.at_height hb (n := e.depth - 1) (by omega)).later later
  cases taken with
  | true => exact ⟨_, (hs.known.at_depth _).arrives hu hs.steady hm, found⟩
  | false => exact ⟨_, rfl, found⟩

/-- A conditional jump that pops the tested value only if it does not jump. -/
theorem jumpOrPop (hs : Stands u a i e s.frame) (hu : u.Checked) {op : Opcode}
    (hop : op = .jumpIfFalseOrPop ∨ op = .jumpIfTrueOrPop) {out : Option StackState}
    (h : stepPrimitive u i.ip i.next ⟨op, arg⟩ e a = .ok (a', out)) :
    Leaves strict s (Lands u a' out) (run g site recording ⟨op, arg⟩ s) := by
  have effect : stepPrimitive u i.ip i.next ⟨op, arg⟩ e a = (do
      need i.ip e.depth 1
      let target ← targetOf i.ip (Primitive.target? ⟨op, arg⟩ i.next)
      return (← a.merge u i.ip target e, some { e with depth := e.depth - 1 })) := by
    rcases hop with rfl | rfl <;> rfl
  rw [effect] at h
  obtain ⟨_, needs, h⟩ := except_bind_ok.mp h
  obtain ⟨target, ht, h⟩ := except_bind_ok.mp h
  obtain ⟨a₁, hm, h⟩ := except_bind_ok.mp h
  cases h
  obtain ⟨n, rfl, jumps⟩ := hs.target ht
  have runs : run g site recording ⟨op, some n⟩ = testJump site recording op n := by
    rcases hop with rfl | rfl <;> rfl
  have height := hs.frame.height
  have needs := need_ok needs
  have later := (merge_grows hu hs.steady.size hm).1.toLater
  rw [runs]
  refine testJump_leaves jumps (by omega) fun truth taken popped f hd hb hl => ?_
  have either : popped = !taken := by
    rcases hop with rfl | rfl <;> (cases hd; cases truth <;> rfl)
  subst either
  cases taken with
  | true =>
    exact ⟨_, hs.known.arrives hu hs.steady hm,
      (hs.frame.at_height hb (hl.trans height)).later later⟩
  | false =>
    simp only [Bool.not_false, Bool.toNat_true] at hl
    exact ⟨_, rfl, (hs.frame.at_height hb (by omega)).later later⟩

/-- The turn of a loop pushes an item, or drops the iterator and jumps. -/
theorem forIter (hs : Stands u a i e s.frame) (hu : u.Checked) (hg : g.Safe (.heights strict))
    {out : Option StackState}
    (h : stepPrimitive u i.ip i.next ⟨.forIter, arg⟩ e a = .ok (a', out)) :
    Leaves strict s (Lands u a' out) (run g site recording ⟨.forIter, arg⟩ s) := by
  obtain ⟨_, needs, h⟩ := except_bind_ok.mp h
  obtain ⟨target, ht, h⟩ := except_bind_ok.mp h
  obtain ⟨a₁, hm, h⟩ := except_bind_ok.mp h
  cases h
  obtain ⟨n, rfl, jumps⟩ := hs.target ht
  have height := hs.frame.height
  have needs := need_ok needs
  have later := (merge_grows hu hs.steady.size hm).1.toLater
  show Leaves strict s _ (Primitive.forIter g n s)
  refine .bind (.ofBrings (peek_brings (d := 0) (k := 1) Nat.one_pos) (by omega))
    fun it t stays ⟨hb, hl⟩ => ?_
  refine .bind (.ofBrings (k := 0) (.lift (advance?_safe hg it)) (Nat.zero_le _))
    fun item t' stays' ⟨hb', hl'⟩ => ?_
  cases item with
  | some item =>
    refine .bind (.ofBrings (k := 0) (push_brings item) (Nat.zero_le _)) fun _ v _ ⟨hbv, hlv⟩ => ?_
    exact .ret ⟨_, rfl, (hs.frame.at_height (hbv.trans (hb'.trans hb)) (by omega)).later later⟩
  | none =>
    refine .bind (.ofBrings (k := 1) (m := 0) pop_brings (by omega)) fun _ v stays'' ⟨hbv, hlv⟩ => ?_
    have ip : v.frame.ip = s.frame.ip := ((stays.trans stays').trans stays'').ip
    unfold Primitive.jump
    rw [bind_apply, targetOf_apply (ip ▸ jumps)]
    exact .ret ⟨_, (hs.known.at_depth _).arrives hu hs.steady hm,
      (hs.frame.at_height (hbv.trans (hb'.trans hb)) (by omega)).later later⟩

/-- A primitive that unwinds finds the value that it unwinds with. -/
theorem returnValue (hs : Stands u a i e s.frame) {out : Option StackState} {ip next : Nat}
    (h : stepPrimitive u ip next ⟨.returnValue, arg⟩ e a = .ok (a', out)) :
    Leaves strict s (Lands u a' out) (run g site recording ⟨.returnValue, arg⟩ s) := by
  obtain ⟨_, needs, h⟩ := except_bind_ok.mp h
  have needs : 1 ≤ s.frame.stack.length := hs.frame.height ▸ need_ok needs
  show Leaves strict s _ ((pop >>= fun v => pure (Flow.unwind (.return_ v)) : FrameExec Flow) s)
  exact .bind (.ofBrings (k := 1) (m := 0) pop_brings needs) fun _ _ _ _ => .ret trivial

theorem yieldValue (hs : Stands u a i e s.frame) {out : Option StackState} {ip next : Nat}
    (h : stepPrimitive u ip next ⟨.yieldValue, arg⟩ e a = .ok (a', out)) :
    Leaves strict s (Lands u a' out) (run g site recording ⟨.yieldValue, arg⟩ s) := by
  obtain ⟨_, needs, h⟩ := except_bind_ok.mp h
  cases h
  have needs : 1 ≤ s.frame.stack.length := hs.frame.height ▸ need_ok needs
  show Leaves strict s _ ((pop >>= fun v => pure (Flow.yield_ v) : FrameExec Flow) s)
  refine .bind (.ofBrings (k := 1) (m := 0) pop_brings needs) fun _ t _ ⟨hb, hl⟩ => ?_
  exact .ret ⟨e, rfl, fun v => ⟨hl.trans hs.frame.height, hb ▸ hs.frame.blocks⟩⟩

theorem raiseVarargs (hs : Stands u a i e s.frame) {out : Option StackState} {ip next : Nat}
    (h : stepPrimitive u ip next ⟨.raiseVarargs, arg⟩ e a = .ok (a', out)) :
    Leaves strict s (Lands u a' out) (run g site recording ⟨.raiseVarargs, arg⟩ s) := by
  cases arg with
  | none => exact .fail rfl
  | some n =>
    unfold stepPrimitive at h
    dsimp only [Option.getD_some] at h
    split at h
    · cases h
    obtain ⟨_, needs, h⟩ := except_bind_ok.mp h
    have needs : n ≤ s.frame.stack.length := hs.frame.height ▸ need_ok needs
    have raise (exc : Value) (v : Option Value) (t : Activation) :
        Leaves strict t (Lands u a' out)
          ((onMachine (exceptionOf exc v) >>= fun r => pure (Flow.raise r true) :
            FrameExec Flow) t) :=
      .bind (.ofBrings (k := 0) (.lift (exceptionOf_safe exc v)) (Nat.zero_le _)) fun _ _ _ _ =>
        .ret trivial
    show Leaves strict s _ (raiseOf n s)
    unfold raiseOf
    split
    · refine .bind (.ofBrings (k := 0) frame_brings (Nat.zero_le _)) fun f t _ _ => ?_
      cases f.excInfo with
      | some exc => exact .ret trivial
      | none => exact ⟨.refl t.frame, fun _ => rfl⟩
    · exact .bind (.ofBrings (k := 1) (m := 0) pop_brings needs) fun exc t _ _ => raise exc none t
    · refine .bind (.ofBrings (k := 2) (m := 1) pop_brings needs) fun v t _ ⟨_, hl⟩ => ?_
      exact .bind (.ofBrings (k := 1) (m := 0) pop_brings (by omega)) fun exc t _ _ =>
        raise exc (some v) t
    · exact .fail rfl

/-- A `continue` goes to the loop that takes it. -/
theorem continueLoop (hs : Stands u a i e s.frame) (hu : u.Checked) {out : Option StackState}
    {ip next : Nat} (h : stepPrimitive u ip next ⟨.continueLoop, arg⟩ e a = .ok (a', out)) :
    Leaves strict s (Lands u a' out) (run g site recording ⟨.continueLoop, arg⟩ s) := by
  obtain ⟨target, ht, h⟩ := except_bind_ok.mp h
  obtain ⟨a₁, hm, h⟩ := except_bind_ok.mp h
  cases h
  obtain rfl := targetOf_ok ht
  refine ⟨.refl s.frame, fun restarts => ?_⟩
  obtain ⟨e', he, hd, hb⟩ := continueEdge_arrives hu hs.steady hs.known hs.frame restarts hm
  obtain ⟨steady, later, -⟩ := continueEdge_steady hu hs.steady hs.known ip target a' none
    (except_bind_ok.mpr ⟨a', hm, rfl⟩)
  exact ⟨e', he, hd, hb.imp fun _ _ hm => hm.later later⟩

/-- Whatever a primitive does, control goes where the analysis says. -/
theorem lands (hs : Stands u a i e s.frame) (hu : u.Checked) (hg : g.Safe (.heights strict))
    (hi : u.instrAt? i.ip = some i) {p : Primitive} (hp : p ∈ i.prims) (hend : p.op ≠ .endFinally)
    (hentry : p.op.blockKind?.isSome → a.entryAt? u i.ip = some e)
    (alone : p.op = .withCleanup → ∀ v, s.frame.stack.head? = some v → cameAlone v)
    {out : Option StackState} (h : stepPrimitive u i.ip i.next p e a = .ok (a', out)) :
    Leaves strict s (Lands u a' out) (run g site recording p s) := by
  obtain ⟨op, arg⟩ := p
  cases op
  case setupLoop | setupExcept | setupFinally => exact hs.setup hu hi (hentry rfl) hp rfl h
  case popBlock => exact hs.popBlock h
  case jumpForward => exact hs.jump hu (.inl rfl) h
  case jumpAbsolute => exact hs.jump hu (.inr rfl) h
  case popJumpIfFalse => exact hs.popJump hu (.inl rfl) h
  case popJumpIfTrue => exact hs.popJump hu (.inr rfl) h
  case jumpIfFalseOrPop => exact hs.jumpOrPop hu (.inl rfl) h
  case jumpIfTrueOrPop => exact hs.jumpOrPop hu (.inr rfl) h
  case forIter => exact hs.forIter hu hg h
  case returnValue => exact hs.returnValue h
  case raiseVarargs => exact hs.raiseVarargs h
  case breakLoop => exact ⟨.refl s.frame, trivial⟩
  case continueLoop => exact hs.continueLoop hu h
  case yieldValue => exact hs.yieldValue h
  case endFinally => exact absurd rfl hend
  case withCleanup => exact hs.withCleanup hg (alone rfl) h
  all_goals exact hs.plain hg rfl h

end Stands

/-! ## Instructions -/

/-- A guest exception is raised where it happens, from a frame that still stands there. -/
theorem caught_leaves {out : Option StackState} {x : FrameExec Flow}
    (h : Leaves strict s (Lands u a out) (x s)) :
    Leaves strict s (Lands u a out) (caught x s) := by
  unfold caught
  rw [tryCatch_apply]
  cases hr : x s with
  | ok flow t =>
    rw [hr] at h
    exact h
  | error e t =>
    rw [hr] at h
    cases e with
    | raised exc => exact ⟨h.1, trivial⟩
    | _ => exact h

theorem Leaves.answered {Q : α → Frame → Prop} {x : FrameExec α} (h : Leaves strict s Q (x s)) :
    Leaves strict s (fun b f => Q b f ∧ ∃ t, x s = .ok b t) (x s) := by
  cases hr : x s with
  | ok b t =>
    rw [hr] at h
    exact ⟨h.1, h.2, t, rfl⟩
  | error e t =>
    rw [hr] at h
    exact h

/-- The primitives of an instruction, from one of them on. -/
theorem stepPrimitives_land (hu : u.Checked) {i : Instr} (hi : u.instrAt? i.ip = some i)
    (hend : ∀ p ∈ i.prims, p.op ≠ .endFinally) {g : Guest} (hg : g.Safe (.heights strict))
    (recording : Bool) : ∀ (ps : List Primitive), ps <:+ i.prims → ∀ (k : Nat) (e : StackState)
      (a a' : Analysis) (out : Option StackState) (s : Activation), Stands u a i e s.frame →
      ((∃ p ∈ ps, p.op.blockKind?.isSome) → a.entryAt? u i.ip = some e) →
      ((∃ p ∈ ps, p.op = .withCleanup) → ∀ v, s.frame.stack.head? = some v → cameAlone v) →
      stepPrimitives u i.ip i.next ps e a = .ok (a', out) →
      Leaves strict s (Lands u a' out) (runPrimitives g recording i.ip k ps s) := by
  intro ps
  induction ps with
  | nil =>
    intro _ k e a a' out s hs _ _ h
    cases h
    exact ⟨.refl s.frame, e, rfl, hs.frame⟩
  | cons p ps ih =>
    intro hps k e a a' out s hs hentry alone h
    unfold stepPrimitives at h
    obtain ⟨⟨a₁, out₁⟩, h₁, h⟩ := except_bind_ok.mp h
    have hp := hps.subset List.mem_cons_self
    have entry (hk : p.op.blockKind?.isSome) := hentry ⟨p, List.mem_cons_self, hk⟩
    obtain ⟨steady, -, knows⟩ :=
      stepPrimitive_steady hu (hend p hp) hs.steady hs.known hi hp entry a₁ out₁ h₁
    -- no primitive behind the first stands alone
    have others {q : Primitive} (hq : q ∈ ps) : q.op.standsAlone = false := by
      refine Bool.eq_false_iff.mpr fun hk => ?_
      have one := hu.alone hi hps (List.mem_cons_of_mem _ hq) hk
      rw [(List.cons_eq_cons.mp one).2] at hq
      exact absurd hq List.not_mem_nil
    have setups : ¬∃ q ∈ ps, q.op.blockKind?.isSome := by
      rintro ⟨q, hq, hk⟩
      exact absurd (others hq) (by simp [Opcode.standsAlone, hk])
    have cleanups : ¬∃ q ∈ ps, q.op = .withCleanup := by
      rintro ⟨q, hq, hk⟩
      exact absurd (others hq) (by rw [hk]; decide)
    have first : Leaves strict s (Lands u a₁ out₁) (caught (run g ⟨i.ip, k⟩ recording p) s) :=
      caught_leaves <| hs.lands hu hg hi hp (hend p hp) entry
        (fun hk => alone ⟨p, List.mem_cons_self, hk⟩) h₁
    -- what the rest of the instruction adds
    have rest : Later a₁ a' ∧ (ps = [] → out = out₁) := by
      cases out₁ with
      | none =>
        cases h
        exact ⟨.refl _, fun _ => rfl⟩
      | some e₁ =>
        have raised := Grows.height a₁ (max a₁.maxDepth e₁.depth)
        obtain ⟨-, later, -⟩ := stepPrimitives_steady hu hi hend ps ((List.suffix_cons p ps).trans hps)
          e₁ _ (steady.height (Nat.le_max_left _ _)) ((knows e₁ rfl).later raised.toLater)
          (fun h => absurd h setups) a' out h
        refine ⟨raised.toLater.trans later, fun hnil => ?_⟩
        subst hnil
        cases h
        rfl
    have landed {flow : Flow} {f : Frame} (hf : Lands u a₁ out₁ flow f)
        (last : ∀ v, flow = .yield_ v → p.op = .yieldValue) (hn : flow ≠ .next) :
        Lands u a' out flow f := by
      have hf := steady.lands_later rest.1 hf
      cases flow with
      | next => exact absurd rfl hn
      | yield_ v =>
        have one := hu.alone hi hps List.mem_cons_self (by rw [last v rfl]; rfl)
        rw [rest.2 (List.cons_eq_cons.mp one).2]
        exact hf
      | unwind p => cases p <;> exact hf
      | _ => exact hf
    refine .bind first.answered fun flow t stays after => ?_
    obtain ⟨hf, t', answered⟩ := after
    have last (v : Value) (hv : flow = .yield_ v) : p.op = .yieldValue :=
      run_yields (caught_yields (hv ▸ answered))
    cases flow with
    | next =>
      obtain ⟨e₁, rfl, hf⟩ := hf
      have raised := Grows.height a₁ (max a₁.maxDepth e₁.depth)
      have stands : Stands u { a₁ with maxDepth := max a₁.maxDepth e₁.depth } i e₁ t.frame :=
        ⟨steady.height (Nat.le_max_left _ _), (knows e₁ rfl).later raised.toLater,
          hf.later raised.toLater, stays.ip.trans hs.ip⟩
      exact ih ((List.suffix_cons p ps).trans hps) (k + 1) e₁ _ a' out t stands
        (fun h => absurd h setups) (fun h => absurd h cleanups) h
    | jump target => exact .ret (landed hf last (by simp))
    | yield_ v => exact .ret (landed hf last (by simp))
    | raise exc fresh => exact .ret trivial
    | unwind p => exact .ret (landed hf last (by simp))

end TieredMachine
