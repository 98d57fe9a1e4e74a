/-
  Where control may be placed.

  A frame is left by its blocks, or it is suspended, and later goes on at an index that no
  jump leads to: at a handler, at the target of a `continue`, or behind a `yield`.  Only a
  setup adds to the blocks of a frame, so the handlers on its block stack are those that
  its unit sets up.

  * `CodeUnit.Anchor`: the indices where control may be placed;
  * `Frame.Anchored`, `Frame.Awaits`, `Frame.Takes`: frames whose blocks are set up by their
    units, those that wait to be run, and how frames can be entered;
  * `Sheds`: computations that add no block;
  * `Primitive.Hands`, `run_sheds`: where a primitive sends control;
  * `heading_anchored`: where unwinding places control.
-/
import TieredMachine.Graph.Lowering
import TieredMachine.Proofs.Native.WayOut
import TieredMachine.Proofs.Safety.Interpreter
import TieredMachine.Proofs.Safety.Spared

namespace TieredMachine

variable {u : CodeUnit} {f f' : Frame} {g : Guest} {α β : Type}

/-! ## Indices -/

/-- A setup of the unit has its handler at the index. -/
def CodeUnit.SetsUp (u : CodeUnit) (ip : Nat) : Prop :=
  ∃ i ∈ u.instrs.toList, ∃ p ∈ i.prims, p.op.blockKind?.isSome ∧ p.target? i.next = some ip

/-- Control may be placed at the index. -/
inductive CodeUnit.Anchor (u : CodeUnit) : Nat → Prop
  | first : Anchor u 0
  | handler {ip} : u.SetsUp ip → Anchor u ip
  | continue_ {ip} : u.ContinuesTo ip → Anchor u ip
  | resume {i} : i ∈ u.instrs.toList → i.yields → Anchor u i.next

/-! ## Frames -/

/-- The frame is one of the unit, and its blocks are set up by it. -/
structure Frame.Anchored (u : CodeUnit) (f : Frame) : Prop where
  code : f.code = u
  blocks : ∀ b ∈ f.blocks, u.SetsUp b.handler

/-- The frame waits to be run: it is new, or suspended at a `yield`. -/
structure Frame.Awaits (u : CodeUnit) (f : Frame) : Prop extends f.Anchored u where
  waits : f.lasti = none ∧ f.ip = 0 ∨
    ∃ i ∈ u.instrs.toList, i.yields ∧ f.lasti = some i.ip ∧ f.ip = i.next

/-- The frame can be entered so: one that goes on where it stands does so where control may be
    placed. -/
inductive Frame.Takes (u : CodeUnit) (f : Frame) : Entry → Prop
  | call : Takes u f .call
  | throw_ {exc} : Takes u f (.throw_ exc)
  | resume {v} : u.Anchor f.ip → Takes u f (.resume v)
  | continue_ : u.Anchor f.ip → Takes u f .continue_

theorem Frame.Awaits.takes (h : f.Awaits u) (entry : Entry) : f.Takes u entry := by
  have anchor : u.Anchor f.ip := by
    obtain ⟨-, ip⟩ | ⟨i, hi, yields, -, ip⟩ := h.waits
    · exact ip ▸ .first
    · exact ip ▸ .resume hi yields
  cases entry with
  | call => exact .call
  | throw_ => exact .throw_
  | resume => exact .resume anchor
  | continue_ => exact .continue_ anchor

/-- The frame stands where it stood, and has lost at most its innermost blocks. -/
structure Frame.Sheds (f f' : Frame) : Prop extends f.Stays f' where
  blocks : f'.blocks <:+ f.blocks

namespace Frame.Sheds

theorem refl (f : Frame) : f.Sheds f := ⟨.refl f, List.suffix_rfl⟩

theorem trans {f g h : Frame} (hg : f.Sheds g) (hh : g.Sheds h) : f.Sheds h :=
  ⟨hg.toStays.trans hh.toStays, hh.blocks.trans hg.blocks⟩

theorem anchored (h : f.Sheds f') (hf : f.Anchored u) : f'.Anchored u :=
  ⟨h.code.trans hf.code, fun b hb => hf.blocks b (h.blocks.subset hb)⟩

end Frame.Sheds

theorem Frame.Kept.sheds (h : f.Kept f') : f.Sheds f' := ⟨h.toStays, h.blocks ▸ List.suffix_rfl⟩

/-- The frame may be moved to another index. -/
theorem Frame.Anchored.at (h : f.Anchored u) (ip : Nat) : ({ f with ip } : Frame).Anchored u :=
  ⟨h.code, h.blocks⟩

/-! ## Computations that add no block -/

/-- The frame sheds at most blocks, whether the computation answers, as told, or fails. -/
def Sheds (x : FrameExec α) (Q : α → Prop) : Prop :=
  ∀ s, match x s with
    | .ok a t => s.frame.Sheds t.frame ∧ Q a
    | .error _ t => s.frame.Sheds t.frame

namespace Sheds

variable {Q : α → Prop} {S : β → Prop}

theorem ret {a : α} (h : Q a) : Sheds (pure a) Q := fun s => ⟨.refl s.frame, h⟩

theorem fail {e : Fault} : Sheds (throw e : FrameExec α) Q := fun s => .refl s.frame

theorem andThen {x : FrameExec α} {k : α → FrameExec β} (hx : Sheds x Q)
    (hk : ∀ a, Q a → Sheds (k a) S) : Sheds (x >>= k) S := by
  intro s
  have h := hx s
  rw [bind_apply]
  cases hr : x s with
  | error e t =>
    rw [hr] at h
    exact h
  | ok a t =>
    rw [hr] at h
    have h' := hk a h.2 t
    dsimp only
    cases hk : k a t with
    | ok b t' =>
      rw [hk] at h'
      exact ⟨h.1.trans h'.1, h'.2⟩
    | error e t' =>
      rw [hk] at h'
      exact h.1.trans h'

theorem weaken {x : FrameExec α} {Q' : α → Prop} (hx : Sheds x Q) (h : ∀ a, Q a → Q' a) :
    Sheds x Q' := by
  intro s
  have h' := hx s
  cases hr : x s with
  | ok a t =>
    rw [hr] at h'
    exact ⟨h'.1, h a h'.2⟩
  | error e t =>
    rw [hr] at h'
    exact h'

theorem ite {c : Bool} {x y : FrameExec α} (hx : Sheds x Q) (hy : Sheds y Q) :
    Sheds (if c then x else y) Q := by
  cases c
  · exact hy
  · exact hx

/-- A look at the frame. -/
theorem frameThen {k : Frame → FrameExec β} (hk : ∀ f, Sheds (k f) S) : Sheds (frame >>= k) S :=
  fun s => hk s.frame s

theorem machine (x : Exec α) : Sheds (onMachine x) fun _ => True := by
  intro s
  rw [onMachine_apply]
  cases x s.machine with
  | ok a m => exact ⟨.refl s.frame, trivial⟩
  | error e m => exact .refl s.frame

/-- What raises an exception does not answer. -/
theorem raise {kind : ExceptionKind} {message : String} :
    Sheds (onMachine (TieredMachine.raise kind message) : FrameExec α) Q := by
  intro s
  exact .refl s.frame

/-- An exception is raised where it happens. -/
theorem caught {x : FrameExec Flow} {Q : Flow → Prop} (hx : Sheds x Q)
    (hQ : ∀ exc, Q (.raise exc true)) : Sheds (TieredMachine.caught x) Q := by
  intro s
  have h := hx s
  unfold TieredMachine.caught
  rw [tryCatch_apply]
  cases hr : x s with
  | ok flow t =>
    rw [hr] at h
    exact h
  | error e t =>
    rw [hr] at h
    cases e with
    | raised exc => exact ⟨h, hQ exc⟩
    | _ => exact h

theorem brings {k m : Nat} {x : FrameExec α} (hx : Brings (.heights False) k m x) :
    Sheds x fun _ => True := by
  intro s
  have h := hx s trivial trivial (.inr fun _ _ h => h.elim)
  cases hr : x s with
  | ok a t =>
    rw [hr] at h
    exact ⟨h.2.1.sheds, trivial⟩
  | error e t =>
    rw [hr] at h
    exact h.2.1.sheds

theorem pop : Sheds TieredMachine.pop fun _ => True := brings (pop_brings (k := 0))

theorem push (v : Value) : Sheds (TieredMachine.push v) fun _ => True :=
  brings (push_brings (k := 0) v)

theorem peek (d : Nat) : Sheds (TieredMachine.peek d) fun _ => True :=
  brings (peek_brings d.lt_succ_self)

theorem popN (n : Nat) : Sheds (TieredMachine.popN n) fun _ => True :=
  brings (popN_brings (k := n) (m := 0) (Nat.zero_add n).symm)

end Sheds

/-! ## Primitives -/

/-- Where a primitive may send control. -/
def Primitive.Hands (p : Primitive) : Flow → Prop
  | .next => p.op ≠ .returnValue ∧ p.op ≠ .yieldValue
  | .jump _ => p.op.isJump
  | .yield_ _ => p.op = .yieldValue
  | .unwind (.continue_ target) => p.op = .endFinally ∨ p = ⟨.continueLoop, some target⟩
  | .unwind _ => Lowering.endsBlock p.op
  | .raise _ _ => True

namespace Primitive

open Sheds

variable {op : Opcode} {arg : Nat}

theorem thenNext_sheds {x : FrameExec Unit} {Q : Unit → Prop} (hx : Sheds x Q) :
    Sheds (thenNext x) (· = .next) :=
  hx.andThen fun _ _ => .ret rfl

theorem targetOf_sheds : Sheds (targetOf op arg) fun _ => True := by
  refine .frameThen fun f => ?_
  split
  · exact .ret trivial
  · exact .fail

theorem jump_sheds : Sheds (jump op arg) fun flow => ∃ target, flow = .jump target :=
  targetOf_sheds.andThen fun target _ => .ret ⟨target, rfl⟩

theorem testJump_sheds (site : Site) (recording : Bool) :
    Sheds (testJump site recording op arg) fun flow =>
      flow = .next ∨ ∃ target, flow = .jump target := by
  refine targetOf_sheds.andThen fun target _ => (Sheds.peek 0).andThen fun tested _ =>
    (Sheds.machine (truthOf tested)).andThen fun truth _ => ?_
  have answer (taken : Bool) : Sheds (pure (if taken then Flow.jump target else Flow.next))
      fun flow => flow = .next ∨ ∃ target, flow = .jump target := by
    cases taken with
    | true => exact .ret (.inr ⟨target, rfl⟩)
    | false => exact .ret (.inl rfl)
  have recorded {x : FrameExec Flow}
      (hx : Sheds x fun flow => flow = .next ∨ ∃ target, flow = .jump target) :
      Sheds (if recording then do
          report (·.recordBranch site tested truth)
          x
        else x) fun flow => flow = .next ∨ ∃ target, flow = .jump target :=
    .ite ((Sheds.brings (report_brings (k := 0) _)).andThen fun _ _ => hx) hx
  cases decideJump? op truth with
  | none => exact recorded .fail
  | some decided =>
    exact recorded (.ite (Sheds.pop.andThen fun _ _ => answer decided.1) (answer decided.1))

theorem forIter_sheds : Sheds (forIter g arg) fun flow =>
    flow = .next ∨ ∃ target, flow = .jump target := by
  refine (Sheds.peek 0).andThen fun it _ => (Sheds.machine _).andThen fun item _ => ?_
  cases item with
  | some item => exact (Sheds.push item).andThen fun _ _ => .ret (.inl rfl)
  | none => exact Sheds.pop.andThen fun _ _ => jump_sheds.weaken fun _ h => .inr h

theorem raiseOf_sheds (count : Nat) :
    Sheds (raiseOf count) fun flow => ∃ exc fresh, flow = .raise exc fresh := by
  have raised (exc : Value) (v : Option Value) :
      Sheds (do return Flow.raise (← exceptionOf exc v) true)
        fun flow => ∃ exc fresh, flow = .raise exc fresh :=
    (Sheds.machine _).andThen fun e _ => .ret ⟨e, true, rfl⟩
  unfold raiseOf
  split
  · refine .frameThen fun f => ?_
    split
    · exact .ret ⟨_, _, rfl⟩
    · exact .raise
  · exact Sheds.pop.andThen fun exc _ => raised exc none
  · exact Sheds.pop.andThen fun v _ => Sheds.pop.andThen fun exc _ => raised exc (some v)
  · exact .fail

theorem dropBlock_sheds : Sheds dropBlock fun _ => True := by
  have popped : Sheds popBlock fun _ => True := by
    intro s
    unfold popBlock
    rw [take_apply, Frame.popBlock]
    cases hb : s.frame.blocks with
    | nil => exact .refl s.frame
    | cons b rest =>
      exact ⟨⟨⟨rfl, rfl, rfl, rfl, rfl⟩, hb ▸ List.suffix_cons b rest⟩, trivial⟩
  exact popped.andThen fun b _ s => ⟨⟨⟨rfl, rfl, rfl, rfl, rfl⟩, List.suffix_rfl⟩, trivial⟩

/-- The end of a `finally` clause goes on, raises an exception again or unwinds. -/
theorem endFinally_sheds : Sheds endFinally fun flow =>
    flow = .next ∨ (∃ p, flow = .unwind p) ∨ ∃ exc fresh, flow = .raise exc fresh := by
  have unusable {v : Value} {x : String → Misuse} {Q : Flow → Prop} :
      Sheds (do throw (.runtime (x ((← onMachine heap).repr v))) : FrameExec Flow) Q :=
    (Sheds.machine _).andThen fun _ _ => .fail
  refine Sheds.pop.andThen fun v _ => ?_
  split
  · exact .ret (.inl rfl)
  · split
    · exact Sheds.pop.andThen fun _ _ => .ret (.inr (.inl ⟨_, rfl⟩))
    · refine Sheds.pop.andThen fun target _ => ?_
      split
      · split
        · exact .ret (.inr (.inl ⟨_, rfl⟩))
        · exact unusable
      · exact unusable
    · exact .ret (.inr (.inl ⟨_, rfl⟩))
    · exact .fail
  · refine Sheds.pop.andThen fun v _ => Sheds.pop.andThen fun _ _ => ?_
    split
    · exact .ret (.inr (.inr ⟨_, _, rfl⟩))
    · exact unusable
  · exact (Sheds.machine _).andThen fun _ _ => .raise

theorem withCleanup_sheds (site : Site) : Sheds (withCleanup g site) fun _ => True := by
  have size (top : Value) : Sheds (payloadSize top) fun _ => True := by
    unfold payloadSize
    split
    · exact .ret trivial
    · split
      · exact .ret trivial
      · exact .ret trivial
      · exact .ret trivial
    · exact .ret trivial
    · exact (Sheds.machine _).andThen fun _ _ => .fail
  have arguments (top : Value) : Sheds (exitArguments top) fun _ => True :=
    .ite ((Sheds.peek 1).andThen fun _ _ => (Sheds.peek 2).andThen fun _ _ => .ret trivial)
      (.ret trivial)
  refine (Sheds.peek 0).andThen fun top _ => (size top).andThen fun n _ =>
    (arguments top).andThen fun args _ =>
      (Sheds.brings (takeBelow_brings (k := 0) site n)).andThen fun exit _ =>
        (Sheds.machine _).andThen fun answer _ => ?_
  have dropped (told : Bool) : Sheds
      (if told then do let _ ← TieredMachine.popN 3; TieredMachine.push .none else pure ())
      fun _ => True :=
    .ite ((Sheds.popN 3).andThen fun _ _ => .push .none) (.ret trivial)
  unfold isExceptionPayload
  split
  · exact (Sheds.machine _).andThen fun _ _ => dropped _
  · exact .ret trivial

theorem plain_sheds (site : Site) (recording : Bool) {p : Primitive} (hp : p.op.isPlain) :
    Sheds (run g site recording p) p.Hands := by
  obtain ⟨y, hy, brings⟩ := run_moves g.safe site recording (Regime.heights_suits p) hp
  rw [hy]
  refine (thenNext_sheds (Sheds.brings (brings _ (Nat.le_refl _)))).weaken ?_
  rintro _ rfl
  constructor <;> intro h <;> rw [h] at hp <;> cases hp

/-- **Every primitive but a setup sheds at most blocks**, and sends control where it may. -/
theorem run_sheds (site : Site) (recording : Bool) {p : Primitive}
    (hp : p.op.blockKind? = none) : Sheds (run g site recording p) p.Hands := by
  obtain ⟨op, arg⟩ := p
  have noArg (h : op.hasArg = true) (hb : op.binaryOp? = none) (hi : op.inplaceOp? = none)
      (hu : op.unaryOp? = none) (hm : op ≠ .buildMap) :
      Sheds (run g site recording ⟨op, none⟩) (Hands ⟨op, none⟩) := by
    unfold run
    simp only [hb, hi, hu, hm, h, if_true, if_false]
    exact .fail
  have tested {x : FrameExec Flow} {arg : Option Nat} (hj : op.isJump)
      (hx : Sheds x fun flow => flow = .next ∨ ∃ target, flow = .jump target) :
      Sheds x (Hands ⟨op, arg⟩) := by
    refine hx.weaken ?_
    rintro _ (rfl | ⟨target, rfl⟩)
    · constructor <;> rintro rfl <;> cases hj
    · exact hj
  cases op
  case setupLoop | setupExcept | setupFinally => cases hp
  case jumpForward | jumpAbsolute =>
    cases arg with
    | none => exact noArg rfl rfl rfl rfl nofun
    | some arg => exact tested rfl (jump_sheds.weaken fun _ h => .inr h)
  case popJumpIfFalse | popJumpIfTrue | jumpIfFalseOrPop | jumpIfTrueOrPop =>
    cases arg with
    | none => exact noArg rfl rfl rfl rfl nofun
    | some arg => exact tested rfl (testJump_sheds site recording)
  case forIter =>
    cases arg with
    | none => exact noArg rfl rfl rfl rfl nofun
    | some arg => exact tested rfl forIter_sheds
  case raiseVarargs =>
    cases arg with
    | none => exact noArg rfl rfl rfl rfl nofun
    | some arg =>
      refine (raiseOf_sheds arg).weaken ?_
      rintro _ ⟨exc, fresh, rfl⟩
      trivial
  case continueLoop =>
    cases arg with
    | none => exact noArg rfl rfl rfl rfl nofun
    | some arg => exact .ret (.inr rfl)
  case breakLoop => exact .ret rfl
  case returnValue => exact Sheds.pop.andThen fun v _ => .ret rfl
  case yieldValue => exact Sheds.pop.andThen fun v _ => .ret rfl
  case popBlock =>
    refine (thenNext_sheds dropBlock_sheds).weaken ?_
    rintro _ rfl
    exact ⟨nofun, nofun⟩
  case withCleanup =>
    refine (thenNext_sheds (withCleanup_sheds site)).weaken ?_
    rintro _ rfl
    exact ⟨nofun, nofun⟩
  case endFinally =>
    refine endFinally_sheds.weaken ?_
    rintro _ (rfl | ⟨p, rfl⟩ | ⟨exc, fresh, rfl⟩)
    · exact ⟨nofun, nofun⟩
    · cases p with
      | continue_ target => exact .inl rfl
      | exception | return_ | break_ => rfl
    · trivial
  all_goals exact plain_sheds site recording rfl

/-- So does a primitive whose exception is raised where it happens. -/
theorem caught_sheds (site : Site) {p : Primitive} (hp : p.op.blockKind? = none) :
    Sheds (caught (run g site false p)) p.Hands :=
  (run_sheds site false hp).caught fun _ => trivial

end Primitive

/-! ## Unwinding -/

/-- Unwinding drops blocks, and changes the value stack. -/
theorem unwindBlocks_blocks (p : Pending) (bs : List Block) {f : Frame} {h : Heap} :
    (unwindBlocks p bs f h).2.1.blocks <:+ bs ∧ (unwindBlocks p bs f h).2.1.code = f.code := by
  induction bs generalizing f with
  | nil => exact ⟨List.suffix_rfl, rfl⟩
  | cons b rest ih =>
    unfold unwindBlocks
    dsimp only
    split
    · exact ⟨List.suffix_rfl, rfl⟩
    · exact ⟨List.suffix_cons b rest, rfl⟩
    · exact ⟨ih.1.trans (List.suffix_cons b rest), ih.2⟩
    · exact ⟨List.suffix_cons b rest, rfl⟩
    · exact ⟨ih.1.trans (List.suffix_cons b rest), ih.2⟩
    · exact ⟨List.suffix_cons b rest, rfl⟩

/-- Following the flow places control only where it may be placed. -/
def Flow.Anchors (u : CodeUnit) : Flow → Prop
  | .next | .jump _ => False
  | .unwind (.continue_ target) => u.ContinuesTo target
  | .unwind _ | .raise _ _ | .yield_ _ => True

namespace Threaded

theorem dispatchUnwind_anchored {p : Pending} {event : EventKind} {s t : Activation}
    {exit : Option Exit} (hs : s.frame.Anchored u) (h : dispatchUnwind p event s = .ok exit t) :
    t.frame.Anchored u ∧ ((Flow.unwind p).Anchors u → exit = none → u.Anchor t.frame.ip) := by
  unfold dispatchUnwind at h
  rw [bind_apply, unwind_apply] at h
  obtain ⟨suffix, code⟩ := unwindBlocks_blocks p s.frame.blocks (f := s.frame)
    (h := s.machine.heap)
  have anchored : (s.frame.unwind p s.machine.heap).2.1.Anchored u :=
    ⟨code.trans hs.code, fun b hb => hs.blocks b (suffix.subset hb)⟩
  cases hw : (s.frame.unwind p s.machine.heap).1 with
  | handler ip =>
    rw [hw] at h
    have anchor (hp : (Flow.unwind p).Anchors u) : u.Anchor ip := by
      obtain ⟨b, hb, rfl⟩ | rfl := handler_of_unwindBlocks hw
      · exact .handler (hs.blocks b hb)
      · exact .continue_ hp
    have stands : t.frame = { (s.frame.unwind p s.machine.heap).2.1 with ip } := by
      dsimp only at h
      obtain ⟨_, s₁, moved, h⟩ := bind_ok.mp h
      cases moved
      split at h
      · obtain ⟨_, s₂, noted, h⟩ := bind_ok.mp h
        cases noted
        cases h
        rfl
      · cases h
        rfl
    rw [stands]
    exact ⟨anchored.at ip, fun hp _ => anchor hp⟩
  | exit p' =>
    rw [hw] at h
    cases p' with
    | return_ v =>
      cases h
      exact ⟨anchored, nofun⟩
    | exception | break_ | continue_ => cases h

/-- **Where the flow out of a block is followed to**, control may be placed. -/
theorem heading_anchored {flow : Flow} {s t : Activation} {exit : Option Exit}
    (hs : s.frame.Anchored u) (h : heading flow s = .ok exit t) :
    t.frame.Anchored u ∧ (flow.Anchors u → exit = none → u.Anchor t.frame.ip) := by
  cases flow with
  | next =>
    cases h
    exact ⟨hs, nofun⟩
  | jump target =>
    cases h
    exact ⟨hs.at target, nofun⟩
  | yield_ v =>
    cases h
    exact ⟨hs, nofun⟩
  | unwind p => exact dispatchUnwind_anchored hs h
  | raise exc fresh =>
    obtain ⟨p, s₁, begun, h⟩ := bind_ok.mp h
    have same : s₁.frame = s.frame ∧ p = .exception exc := by
      unfold beginRaise at begun
      cases fresh with
      | false =>
        cases begun
        exact ⟨rfl, rfl⟩
      | true =>
        obtain ⟨_, s₂, traced, begun⟩ := bind_ok.mp begun
        obtain ⟨_, s₃, noted, begun⟩ := bind_ok.mp begun
        cases begun
        cases traced
        cases noted
        exact ⟨rfl, rfl⟩
    obtain ⟨frame, rfl⟩ := same
    obtain ⟨anchored, anchor⟩ := dispatchUnwind_anchored (frame ▸ hs) h
    exact ⟨anchored, fun _ => anchor trivial⟩

end Threaded

end TieredMachine
