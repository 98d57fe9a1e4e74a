/-
  Frames as the analysis records them.

  The analysis records with how many values control arrives at an instruction, and under
  which handlers.  A frame matches what is recorded when it has that many values and the
  blocks of those handlers.

  * `Frame.Matches`: a frame that is as the analysis recorded;
  * `Frame.Restarts`, `unwindBlocks_continue`: frames whose innermost loop takes a `continue`;
  * `continueEdge_arrives`: such a frame matches what the analysis recorded at the target.
-/
import Mathlib.Data.List.Forall2
import TieredMachine.Run.Unwind
import TieredMachine.Proofs.Graph.Height

namespace TieredMachine

open Analysis

variable {u : CodeUnit} {a a' : Analysis} {e : StackState}

/-! ## Frames as recorded -/

/-- An entry of the block stack is as it is recorded for a handler. -/
def Block.Matches (a : Analysis) (b : Block) (h : HandlerId) : Prop :=
  ∃ hd, a.handlers[h]? = some hd ∧ b.kind = hd.kind ∧ b.handler = hd.targetIp ∧
    hd.depth = some b.level

/-- The stacks of the frame are as they are recorded: as many values, and the same blocks. -/
structure Frame.Matches (a : Analysis) (f : Frame) (e : StackState) : Prop where
  height : f.stack.length = e.depth
  blocks : List.Forall₂ (Block.Matches a) f.blocks e.handlers

theorem Block.Matches.later {b : Block} {h : HandlerId} (hb : b.Matches a h) (hl : Later a a') :
    b.Matches a' h := by
  obtain ⟨hd, hh, rest⟩ := hb
  obtain ⟨more, hm⟩ := hl.handlers
  refine ⟨hd, ?_, rest⟩
  rw [← Array.getElem?_toList] at hh ⊢
  rw [← hm, List.getElem?_append_left (List.getElem?_eq_some_iff.mp hh).1]
  exact hh

namespace Frame.Matches

variable {f : Frame}

theorem later (h : f.Matches a e) (hl : Later a a') : f.Matches a' e :=
  ⟨h.height, h.blocks.imp fun _ _ hb => hb.later hl⟩

/-- What is recorded later holds before, as far as it was known. -/
theorem earlier (h : f.Matches a' e) (hl : Later a a') (hk : a.Knows e) : f.Matches a e := by
  obtain ⟨more, hm⟩ := hl.handlers
  have known (bs : List Block) (hs : List HandlerId) (hb : List.Forall₂ (Block.Matches a') bs hs)
      (hlt : ∀ h ∈ hs, h < a.handlers.size) : List.Forall₂ (Block.Matches a) bs hs := by
    induction hb with
    | nil => exact .nil
    | @cons b k bs hs hb _ ih =>
      refine .cons ?_ (ih fun h hh => hlt h (List.mem_cons_of_mem _ hh))
      obtain ⟨hd, hh, rest⟩ := hb
      refine ⟨hd, ?_, rest⟩
      rw [← Array.getElem?_toList] at hh ⊢
      rwa [← hm, List.getElem?_append_left (hlt k List.mem_cons_self)] at hh
  exact ⟨h.height, known _ _ h.blocks hk.handlers⟩

/-- A change that leaves blocks alone. -/
theorem at_height (h : f.Matches a e) {f' : Frame} (hb : f'.blocks = f.blocks) {n : Nat}
    (hn : f'.stack.length = n) : f'.Matches a { e with depth := n } :=
  ⟨hn, hb ▸ h.blocks⟩

end Frame.Matches

theorem Frame.truncate_length (f : Frame) (level : Nat) :
    (f.truncate level).stack.length = min f.stack.length level := by
  unfold Frame.truncate
  rw [List.length_drop]
  omega

/-! ## `continue` -/

/-- Whether the block is not that of a loop. -/
def Block.isInner (b : Block) : Bool := b.kind != .loop

namespace Frame

variable (f : Frame)

/-- The blocks inside the innermost loop, the innermost first. -/
def inner : List Block := f.blocks.takeWhile Block.isInner

/-- The block of the innermost loop, and those around it. -/
def outer : List Block := f.blocks.dropWhile Block.isInner

/-- The height that the outermost block inside the loop goes back to; with no such block,
    the height of the stack. -/
def restartHeight : Nat := (f.inner.getLast?.map (·.level)).getD f.stack.length

/-- A `continue` is taken by a loop.  It leaves `except` blocks only, and neither the stack
    nor a block has come below the level of the outermost of these. -/
structure Restarts : Prop where
  loop : f.outer ≠ []
  handlers : ∀ b ∈ f.inner, b.kind = .except
  level : ∀ o, f.inner.getLast? = some o →
    o.level ≤ f.stack.length ∧ ∀ b ∈ f.inner, o.level ≤ b.level

end Frame

/-- A loop takes a `continue` with its own block still in place. -/
theorem unwindBlocks_continue (target : Nat) (h : Heap) : ∀ (bs : List Block) (f : Frame),
    f.blocks = bs → f.Restarts → ∃ f', unwindBlocks (.continue_ target) bs f h =
      (.handler target, f', h) ∧ f'.blocks = f.outer ∧ f'.stack.length = f.restartHeight
  | [], f, hbs, hf => absurd (by rw [Frame.outer, hbs]; rfl) hf.loop
  | b :: bs, f, hbs, hf => by
    have inner : f.inner = (b :: bs).takeWhile Block.isInner := by rw [Frame.inner, hbs]
    have outer : f.outer = (b :: bs).dropWhile Block.isInner := by rw [Frame.outer, hbs]
    by_cases hk : b.isInner
    · rw [List.takeWhile_cons_of_pos hk] at inner
      rw [List.dropWhile_cons_of_pos hk] at outer
      have kind : b.kind = .except := hf.handlers b (by rw [inner]; exact List.mem_cons_self)
      let cut := ({ f with blocks := bs }).truncate b.level
      have cutLength : cut.stack.length = min f.stack.length b.level := Frame.truncate_length _ _
      have cutInner : f.inner = b :: cut.inner := inner
      have cutOuter : f.outer = cut.outer := outer
      have restarts : cut.Restarts := by
        refine ⟨cutOuter ▸ hf.loop, fun c hc => hf.handlers c ?_, fun o ho => ?_⟩
        · rw [cutInner]
          exact List.mem_cons_of_mem _ hc
        · have last : f.inner.getLast? = some o := by
            rw [cutInner, List.getLast?_cons, ho]
            rfl
          obtain ⟨low, all⟩ := hf.level o last
          have := all b (by rw [cutInner]; exact List.mem_cons_self)
          refine ⟨by omega, fun c hc => all c ?_⟩
          rw [cutInner]
          exact List.mem_cons_of_mem _ hc
      obtain ⟨f', unwound, blocks, length⟩ := unwindBlocks_continue target h bs cut rfl restarts
      refine ⟨f', ?_, blocks.trans cutOuter.symm, length.trans ?_⟩
      · rw [← unwound]
        conv => lhs; unfold unwindBlocks
        rw [kind]
      · unfold Frame.restartHeight
        rw [cutInner, List.getLast?_cons]
        cases hl : cut.inner.getLast? with
        | some o => rfl
        | none =>
          have last : f.inner.getLast? = some b := by
            rw [cutInner, List.getLast?_cons, hl]
            rfl
          have := (hf.level b last).1
          simp only [Option.map_none, Option.getD_none, Option.map_some, Option.getD_some]
          omega
    · rw [List.takeWhile_cons_of_neg hk] at inner
      rw [List.dropWhile_cons_of_neg hk] at outer
      have kind : b.kind = .loop := by simpa [Block.isInner] using hk
      refine ⟨{ f with blocks := b :: bs }, ?_, outer.symm, ?_⟩
      · unfold unwindBlocks
        rw [kind]
      · rw [Frame.restartHeight, inner]
        rfl

theorem Block.Matches.kindOf {b : Block} {h : HandlerId} (hb : b.Matches a h) :
    a.kindOf h = some b.kind := by
  obtain ⟨hd, hh, kind, -⟩ := hb
  unfold Analysis.kindOf
  rw [hh, kind]
  rfl

theorem Block.Matches.depthOf {b : Block} {h : HandlerId} (hb : b.Matches a h) :
    a.depthOf h = some b.level := by
  obtain ⟨hd, hh, -, -, depth⟩ := hb
  unfold Analysis.depthOf
  rw [hh]
  exact depth

theorem matches_inner {bs : List Block} {hs : List HandlerId}
    (h : List.Forall₂ (Block.Matches a) bs hs) :
    List.Forall₂ (Block.Matches a) (bs.takeWhile Block.isInner)
        (hs.takeWhile fun h => a.kindOf h != some .loop) ∧
      List.Forall₂ (Block.Matches a) (bs.dropWhile Block.isInner)
        (hs.dropWhile fun h => a.kindOf h != some .loop) := by
  induction h with
  | nil => exact ⟨.nil, .nil⟩
  | @cons b k bs hs hb hbs ih =>
    have same : (a.kindOf k != some .loop) = b.isInner := by
      rw [hb.kindOf]
      rfl
    by_cases hk : b.isInner
    · rw [List.takeWhile_cons_of_pos hk, List.dropWhile_cons_of_pos hk,
        List.takeWhile_cons_of_pos (p := fun h => a.kindOf h != some .loop) (same.trans hk),
        List.dropWhile_cons_of_pos (p := fun h => a.kindOf h != some .loop) (same.trans hk)]
      exact ⟨.cons hb ih.1, ih.2⟩
    · rw [List.takeWhile_cons_of_neg hk, List.dropWhile_cons_of_neg hk,
        List.takeWhile_cons_of_neg (p := fun h => a.kindOf h != some .loop) (by rwa [same]),
        List.dropWhile_cons_of_neg (p := fun h => a.kindOf h != some .loop) (by rwa [same])]
      exact ⟨.nil, .cons hb hbs⟩

theorem matches_mem {bs : List Block} {hs : List HandlerId}
    (h : List.Forall₂ (Block.Matches a) bs hs) : ∀ k ∈ hs, ∃ b ∈ bs, b.Matches a k := by
  induction h with
  | nil => exact fun _ hk => absurd hk List.not_mem_nil
  | cons hb _ ih =>
    intro k hk
    rcases List.mem_cons.mp hk with rfl | hk
    · exact ⟨_, List.mem_cons_self, hb⟩
    · obtain ⟨b, hm, hb⟩ := ih k hk
      exact ⟨b, List.mem_cons_of_mem _ hm, hb⟩

theorem matches_getLast {bs : List Block} {hs : List HandlerId}
    (h : List.Forall₂ (Block.Matches a) bs hs) :
    hs.getLast?.bind a.depthOf = bs.getLast?.map (·.level) := by
  induction h with
  | nil => rfl
  | @cons b k bs hs hb hbs ih =>
    rw [List.getLast?_cons, List.getLast?_cons]
    cases hbs with
    | nil => exact hb.depthOf
    | @cons c l bs hs _ _ =>
      rw [List.getLast?_cons] at ih ⊢
      exact ih

/-- What arrives at an instruction other than weakly is its entry. -/
theorem Analysis.Knows.arrives (he : a.Knows e) (hu : u.Checked) (ha : Steady u a) {source ip : Nat}
    (h : a.merge u source ip e = .ok a') : a'.entryAt? u ip = some e := by
  obtain ⟨-, e', hentry, same⟩ := merge_grows hu ha.size h
  rw [hentry, same he.strong]

/-- A `continue` that the innermost loop takes arrives as recorded. -/
theorem continueEdge_arrives (hu : u.Checked) (ha : Steady u a) (he : a.Knows e) {f : Frame}
    (hf : f.Matches a e) (hr : f.Restarts) {ip target : Nat}
    (h : a.continueEdge u ip target e = .ok a') :
    ∃ e', a'.entryAt? u target = some e' ∧ f.restartHeight = e'.depth ∧
      List.Forall₂ (Block.Matches a) f.outer e'.handlers := by
  obtain ⟨inner, outer⟩ := matches_inner hf.blocks
  have last := matches_getLast inner
  have loop : (e.handlers.dropWhile fun h => a.kindOf h != some .loop) ≠ [] := by
    intro hnil
    rw [hnil] at outer
    exact hr.loop (List.forall₂_nil_right_iff.mp outer)
  have noFinally : ((e.handlers.takeWhile fun h => a.kindOf h != some .loop).any fun h =>
      a.kindOf h == some .finally_) = false := by
    rw [List.any_eq_false]
    intro k hk hkind
    obtain ⟨b, hb, hm⟩ := matches_mem inner k hk
    rw [hm.kindOf, hr.handlers b hb] at hkind
    exact absurd hkind (by decide)
  unfold continueEdge at h
  dsimp only at h
  rw [noFinally, Bool.or_false, if_neg (by rwa [List.isEmpty_iff]), last] at h
  have known : a.Knows ⟨(f.inner.getLast?.map (·.level)).getD e.depth,
      e.handlers.dropWhile fun h => a.kindOf h != some .loop, e.weak⟩ :=
    ⟨he.strong, fun k hk => he.handlers k ((List.dropWhile_suffix _).subset hk)⟩
  refine ⟨_, known.arrives hu ha h, ?_, outer⟩
  unfold Frame.restartHeight
  rw [hf.height]

end TieredMachine
