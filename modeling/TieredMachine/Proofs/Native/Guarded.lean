/-
  Guards.

  Threaded code bails with a failed guard where a test surprises it, and where it finds no
  block to land in.  A block starts wherever control may be placed, so the latter happens
  only after a clause's end has resumed a `continue` that the unit did not begin.

  * `Threaded.Visits`: the blocks that a run goes through;
  * `Threaded.Mispredicts`, `Threaded.Strays`: blocks that are left so;
  * `follow_lands`, `leaveBlock_lands`, `runBlock_lands`: where a block leads;
  * **`guardFail_arises`**: why a run bails with a failed guard.
-/
import TieredMachine.Proofs.Native.Placed

namespace TieredMachine

variable {u : CodeUnit} {G : Graph} {guest : Guest} {s t : Activation} {b : BlockId}

/-! ## Runs of threaded code -/

namespace Threaded

/-- From a landing on, the run comes to a block. -/
inductive Reaches (guest : Guest) (G : Graph) : Landing → Activation → BlockId → Activation → Prop
  | here {b : BlockId} {s : Activation} : Reaches guest G (.block b) s b s
  | step {b c : BlockId} {l : Landing} {s s' t : Activation} : runBlock guest G b s = .ok l s' →
      Reaches guest G l s' c t → Reaches guest G (.block b) s c t

/-- The run of a frame that is entered so comes to a block. -/
def Visits (guest : Guest) (G : Graph) (entry : Entry) (s : Activation) (b : BlockId)
    (t : Activation) : Prop :=
  ∃ l s', enter G entry s = .ok l s' ∧ Reaches guest G l s' b t

/-- The frame as a block begins. -/
def entered (G : Graph) (b : BlockId) (s : Activation) : Activation :=
  ⟨{ s.frame with ip := (G.block b).start }, s.machine⟩

/-- The block comes to a test that has not the outcome which alone is expected of it. -/
def Mispredicts (guest : Guest) (G : Graph) (b : BlockId) (s : Activation) : Prop :=
  ∃ s' op arg site expected next v,
    runOps guest G (G.block b).insts (entered G b s) = .ok .next s' ∧
    (G.block b).term = .speculate op arg site expected next ∧
    s'.frame.peek 0 = .ok v ∧ s'.machine.heap.truth v = !expected

/-- The block ends a clause that resumes a `continue` which no instruction of the unit began. -/
def Strays (guest : Guest) (u : CodeUnit) (G : Graph) (b : BlockId) (s : Activation) : Prop :=
  ∃ s' flow t, runOps guest G (G.block b).insts (entered G b s) = .ok .next s' ∧
    (G.block b).term.flow guest s' = .ok flow t ∧ (G.block b).term.Strays u flow

/-! ## Landing -/

/-- Where control may be placed a block starts, so the flow is followed there. -/
theorem follow_lands (hG : G.Serves u) (hs : s.frame.Anchored u) {flow : Flow} {l : Landing}
    (h : follow G flow s = .ok l t) :
    t.frame.Anchored u ∧ (flow.Anchors u → ∀ reason, l ≠ .bail reason) := by
  rw [follow_eq] at h
  obtain ⟨exit, s', headed, h⟩ := bind_ok.mp h
  obtain ⟨anchored, anchor⟩ := heading_anchored hs headed
  cases exit with
  | some exit =>
    cases h
    exact ⟨anchored, fun _ => nofun⟩
  | none =>
    have lands : land G s' = .ok l t := h
    rw [land_apply] at lands
    cases lands
    refine ⟨anchored, fun hf => ?_⟩
    obtain ⟨b, starts⟩ := hG.anchors _ (anchor hf rfl)
    rw [hG.blockAt?_eq starts]
    exact fun _ => nofun

/-- A test that pops what it tests jumps as the truth of that decides. -/
theorem testJump_decides {site : Site} {op : Opcode} (hop : op.isPopJump) {arg : Nat} {flow : Flow}
    (h : Primitive.testJump site false op arg s = .ok flow t) :
    ∃ v target, s.frame.peek 0 = .ok v ∧ flow =
      if (op == .popJumpIfTrue) == s.machine.heap.truth v then .jump target else .next := by
  obtain ⟨target, s₁, found, h⟩ := bind_ok.mp h
  have same : s₁ = s := by
    unfold Primitive.targetOf at found
    rw [bind_apply] at found
    simp only [show frame s = .ok s.frame s from rfl] at found
    cases ht : Code.jumpTarget? op arg s.frame.ip <;> rw [ht] at found <;> cases found
    rfl
  rw [same] at h
  obtain ⟨v, s₂, peeked, h⟩ := bind_ok.mp h
  unfold peek at peeked
  rw [look_apply] at peeked
  cases top : s.frame.peek 0 with
  | error e =>
    rw [top] at peeked
    cases peeked
  | ok top =>
    rw [top] at peeked
    cases peeked
    obtain ⟨truth, s₃, told, h⟩ := bind_ok.mp h
    cases told
    refine ⟨v, target, rfl, ?_⟩
    -- either of the two tests pops, and then jumps or goes on
    have answered (taken : Bool) {s : Activation} (h : (do
        let _ ← pop
        return if taken then .jump target else .next : FrameExec Flow) s = .ok flow t) :
        flow = if taken then .jump target else .next := by
      obtain ⟨_, _, -, h⟩ := bind_ok.mp h
      cases h
      rfl
    obtain rfl | rfl : op = .popJumpIfFalse ∨ op = .popJumpIfTrue := by
      simpa [Opcode.isPopJump] using hop
    · rw [answered (!s.machine.heap.truth v) h]
      cases s.machine.heap.truth v <;> rfl
    · rw [answered (s.machine.heap.truth v) h]
      cases s.machine.heap.truth v <;> rfl

/-- A speculation bails where its test has not the outcome that is expected. -/
theorem speculate_bails {op : Opcode} (hop : op.isPopJump) {arg : Nat} {site : Site}
    {expected : Bool} {next : BlockId} {flow : Flow}
    (h : (Terminator.speculate op arg site expected next).flow guest s = .ok flow t)
    {along : FrameExec Landing} {t' : Activation} {reason : BailReason}
    (edge : (Terminator.speculate op arg site expected next).edge? flow = some along)
    (bails : along t = .ok (.bail reason) t') :
    ∃ v, s.frame.peek 0 = .ok v ∧ s.machine.heap.truth v = !expected := by
  have ops : op = .popJumpIfFalse ∨ op = .popJumpIfTrue := by
    simpa [Opcode.isPopJump] using hop
  have tested : Primitive.testJump site false op arg s = .ok flow t := by
    have ran : caught (Primitive.run guest site false ⟨op, some arg⟩) s = .ok flow t := h
    obtain ran | ⟨exc, rfl⟩ := caught_ok ran
    · obtain rfl | rfl := ops
      · exact ran
      · exact ran
    · cases edge
  obtain ⟨v, target, top, rfl⟩ := testJump_decides hop tested
  refine ⟨v, top, ?_⟩
  generalize s.machine.heap.truth v = truth at edge
  obtain rfl | rfl := ops <;> cases truth <;> cases expected <;> cases edge <;>
    first | rfl | cases bails

/-- An edge leads to a successor; but that of a speculation may bail. -/
theorem edge?_ok {way : Terminator} {flow : Flow} {along : FrameExec Landing}
    (edge : way.edge? flow = some along) {l : Landing} (h : along s = .ok l t) :
    (∃ c ∈ way.successors, l = .block c ∧ t = s) ∨
    (∃ op arg site expected next, way = .speculate op arg site expected next) ∧
      l = .bail .guardFail ∧ ∃ ip, t = ⟨{ s.frame with ip }, s.machine⟩ := by
  have goes {c : BlockId} (hc : c ∈ way.successors)
      (h : (pure (.block c) : FrameExec Landing) s = .ok l t) :
      ∃ c ∈ way.successors, l = .block c ∧ t = s := by
    cases h
    exact ⟨c, hc, rfl, rfl⟩
  cases way with
  | goto b =>
    cases edge
    exact .inl (goes List.mem_cons_self h)
  | trap ip =>
    cases edge
    cases h
  | return_ | yield_ => cases flow <;> cases edge
  | branch | forIter =>
    cases flow with
    | next | jump =>
      cases edge
      exact .inl (goes (by simp [Terminator.successors]) h)
    | _ => cases edge
  | unwind p site next =>
    cases flow with
    | next =>
      cases next with
      | none =>
        cases edge
        cases h
      | some b =>
        cases edge
        exact .inl (goes (by simp [Terminator.successors]) h)
    | _ => cases next <;> cases edge
  | speculate op arg site expected next =>
    have here : next ∈ (Terminator.speculate op arg site expected next).successors :=
      List.mem_cons_self
    have speculates : ∃ op' arg' site' expected' next',
        Terminator.speculate op arg site expected next =
          .speculate op' arg' site' expected' next' := ⟨op, arg, site, expected, next, rfl⟩
    cases flow with
    | next =>
      cases edge
      cases jumps : (op == .popJumpIfTrue) == expected <;> rw [jumps] at h
      · exact .inl (goes here h)
      · cases h
        exact .inr ⟨speculates, rfl, s.frame.ip, rfl⟩
    | jump target =>
      cases edge
      cases jumps : (op == .popJumpIfTrue) == expected <;> rw [jumps] at h
      · cases h
        exact .inr ⟨speculates, rfl, target, rfl⟩
      · exact .inl (goes here h)
    | _ => cases edge

/-- A way out leads where control may be placed, unless it strays; it bails where a test
    surprises it. -/
theorem leaveBlock_lands (hG : G.Serves u) {way : Terminator} (hw : way.Suits u)
    (hs : s.frame.Anchored u) {l : Landing} (h : leaveBlock guest G way s = .ok l t) :
    t.frame.Anchored u ∧ ∀ reason, l = .bail reason →
      (∃ op arg site expected next v, way = .speculate op arg site expected next ∧
        s.frame.peek 0 = .ok v ∧ s.machine.heap.truth v = !expected) ∨
      ∃ flow s', way.flow guest s = .ok flow s' ∧ way.Strays u flow := by
  rw [Terminator.leaveBlock_eq] at h
  obtain ⟨flow, s', hflow, h⟩ := bind_ok.mp h
  obtain ⟨anchored, told⟩ := Terminator.flow_anchored hw hs hflow
  cases edge : way.edge? flow with
  | none =>
    rw [edge] at h told
    obtain ⟨anchored, lands⟩ := follow_lands hG anchored h
    refine ⟨anchored, fun reason bails => ?_⟩
    obtain told | told | strays := told
    · cases told
    · exact absurd bails (lands told reason)
    · exact .inr ⟨flow, s', hflow, strays⟩
  | some along =>
    rw [edge] at h
    have lands : along s' = .ok l t := h
    obtain ⟨c, -, rfl, rfl⟩ | ⟨⟨op, arg, site, expected, next, rfl⟩, rfl, ip, rfl⟩ :=
      edge?_ok edge lands
    · exact ⟨anchored, nofun⟩
    · refine ⟨anchored.at ip, fun _ _ => ?_⟩
      obtain ⟨v, top, truth⟩ := speculate_bails (hw.tests op arg site expected next rfl) hflow
        edge lands
      exact .inl ⟨op, arg, site, expected, next, v, rfl, top, truth⟩

/-- No poll finds that a guard failed. -/
theorem pollNow_ne_guardFail {kind : SafePointKind} {m m' : Machine} :
    pollNow kind m ≠ .ok (some .guardFail) m' := by
  intro h
  have polled : (m.poll kind).1 = some .guardFail := by
    cases h' : m.poll kind
    have answer : pollNow kind m = .ok (m.poll kind).1 (m.poll kind).2 := rfl
    rw [h, h'] at answer
    cases answer
    rfl
  unfold Machine.poll at polled
  split at polled
  · cases kind <;> cases polled
  · split at polled <;> cases polled

/-- A block leads where control may be placed; it fails a guard only where a test surprises it
    or where it strays. -/
theorem runBlock_lands (hG : G.Serves u) (hs : s.frame.Anchored u) {l : Landing}
    (h : runBlock guest G b s = .ok l t) : t.frame.Anchored u ∧
      (guest.poll = pollNow → l = .bail .guardFail →
        Mispredicts guest G b s ∨ Strays guest u G b s) := by
  obtain ⟨_, s₁, moved, h⟩ := bind_ok.mp h
  cases moved
  obtain ⟨out, s₂, ops, h⟩ := bind_ok.mp h
  obtain ⟨anchored, flows⟩ := runOps_anchored (hG.ops b) (hs.at (G.block b).start) ops
  cases out with
  | next =>
    obtain ⟨anchored, bails⟩ := leaveBlock_lands hG (hG.ways b) anchored h
    refine ⟨anchored, fun _ hl => ?_⟩
    obtain ⟨op, arg, site, expected, next, v, way, top, truth⟩ | ⟨flow, s', hflow, strays⟩ :=
      bails .guardFail hl
    · exact .inl ⟨s₂, op, arg, site, expected, next, v, ops, way, top, truth⟩
    · exact .inr ⟨s₂, flow, s', ops, hflow, strays⟩
  | bail reason =>
    cases h
    refine ⟨anchored, fun polls hl => ?_⟩
    cases hl
    obtain h | ⟨kind, m, m', polled⟩ := flows
    · cases h
    · exact absurd (polls ▸ polled) pollNow_ne_guardFail
  | flow flow =>
    obtain ⟨anchored, lands⟩ := follow_lands hG anchored h
    exact ⟨anchored, fun _ hl => absurd hl (lands flows .guardFail)⟩

/-- An entry leads to a block, or out of the frame. -/
theorem enter_lands (hG : G.Serves u) (hs : s.frame.Anchored u) {entry : Entry}
    (takes : s.frame.Takes u entry) {l : Landing} (h : enter G entry s = .ok l t) :
    t.frame.Anchored u ∧ ∀ reason, l ≠ .bail reason := by
  have landed {s : Activation} (hs : s.frame.Anchored u) (anchor : u.Anchor s.frame.ip)
      (h : land G s = .ok l t) : t.frame.Anchored u ∧ ∀ reason, l ≠ .bail reason := by
    rw [land_apply] at h
    cases h
    obtain ⟨b, starts⟩ := hG.anchors _ anchor
    rw [hG.blockAt?_eq starts]
    exact ⟨hs, nofun⟩
  cases takes with
  | call =>
    cases h
    exact ⟨hs, nofun⟩
  | @throw_ exc =>
    have followed : follow G (.raise exc true) s = .ok l t := h
    obtain ⟨anchored, lands⟩ := follow_lands hG hs followed
    exact ⟨anchored, lands trivial⟩
  | continue_ anchor => exact landed hs anchor h
  | @resume v anchor =>
    have pushed : (s.frame.push v).Anchored u := ⟨hs.code, hs.blocks⟩
    obtain ⟨_, s₁, moved, h⟩ := bind_ok.mp h
    cases moved
    obtain ⟨_, s₂, got, h⟩ := bind_ok.mp h
    cases got
    dsimp only at h
    cases hb : (s.frame.push v).lasti.bind G.resumeBlock? with
    | some b =>
      rw [hb] at h
      cases h
      exact ⟨pushed, nofun⟩
    | none =>
      rw [hb] at h
      exact landed (s := ⟨s.frame.push v, s.machine⟩) pushed anchor h

/-! ## Runs -/

/-- At every block that a run comes to, the blocks of the frame are set up by the unit. -/
theorem Reaches.anchored (hG : G.Serves u) {l : Landing} (hs : s.frame.Anchored u)
    (h : Reaches guest G l s b t) : t.frame.Anchored u := by
  induction h with
  | here => exact hs
  | step block _ ih => exact ih (runBlock_lands hG hs block).1

/-- A run that ends with a failed guard comes to a block that is left so. -/
theorem runFrom_guardFail (hG : G.Serves u) (polls : guest.poll = pollNow) (n : Nat) {l : Landing}
    (hl : l ≠ .bail .guardFail) (hs : s.frame.Anchored u)
    (h : runFrom guest G n l s = .ok (.bail .guardFail) t) :
    ∃ b s', Reaches guest G l s b s' ∧ runBlock guest G b s' = .ok (.bail .guardFail) t ∧
      (Mispredicts guest G b s' ∨ Strays guest u G b s') := by
  induction n generalizing l s with
  | zero =>
    cases l with
    | exit => cases h
    | block => cases h
    | bail =>
      cases h
      exact absurd rfl hl
  | succ n ih =>
    cases l with
    | exit => cases h
    | bail =>
      cases h
      exact absurd rfl hl
    | block b =>
      obtain ⟨l, s₁, block, h⟩ := bind_ok.mp h
      obtain ⟨anchored, fails⟩ := runBlock_lands hG hs block
      by_cases bails : l = .bail .guardFail
      · subst bails
        have left : runFrom guest G n (.bail .guardFail) s₁ = .ok (.bail .guardFail) s₁ := by
          cases n <;> rfl
        rw [left] at h
        cases h
        exact ⟨b, s, .here, block, fails polls rfl⟩
      · obtain ⟨c, s', reaches, rest⟩ := ih bails anchored h
        exact ⟨c, s', .step block reaches, rest⟩

end Threaded

/-- **A failed guard is a surprised test, or a `continue` from elsewhere.**  In the graph of a
    unit a block starts wherever control may be placed, and so does one for each handler on the
    block stack of a frame that it runs.  A run of a frame that is new or suspended bails with a
    failed guard only from a block whose test has not the expected outcome, or which ends a
    clause that resumes a `continue` that the unit did not begin. -/
theorem guardFail_arises {id : Ref} {parts : CodeParts} (hu : CodeUnit.ofParts id parts = .ok u)
    {h : Heap} {feedback : Feedback} {opts : LowerOptions} (hG : lower h u feedback opts = .ok G) :
    (∀ ip, u.Anchor ip → ∃ b, G.blockAt? ip = some b ∧ G.StartsAt ip b) ∧
    (∀ i ∈ u.instrs.toList, i.yields →
      ∃ b, G.resumeBlock? i.ip = some b ∧ G.StartsAt i.next b) ∧
    ∀ guest : Guest, guest.poll = pollNow → ∀ entry s, s.frame.Awaits u →
      (∀ b s', Threaded.Visits guest G entry s b s' → ∀ block ∈ s'.frame.blocks,
        ∃ c, G.blockAt? block.handler = some c ∧ G.StartsAt block.handler c) ∧
      ∀ t, runThreaded guest G entry s = .ok (.bail .guardFail) t →
        ∃ b s', Threaded.Visits guest G entry s b s' ∧
          Threaded.runBlock guest G b s' = .ok (.bail .guardFail) t ∧
          (Threaded.Mispredicts guest G b s' ∨ Threaded.Strays guest u G b s') := by
  have serves := lower_serves (CodeUnit.checked_of_ofParts hu).2 hG
  have found (ip : Nat) (anchor : u.Anchor ip) : ∃ b, G.blockAt? ip = some b ∧ G.StartsAt ip b := by
    obtain ⟨b, starts⟩ := serves.anchors ip anchor
    exact ⟨b, serves.blockAt?_eq starts, starts⟩
  refine ⟨found, serves.resumes, fun guest polls entry s waits => ⟨?_, fun t run => ?_⟩⟩
  · rintro b s' ⟨l, s₁, entered, reaches⟩ block hblock
    have anchored := (Threaded.enter_lands serves waits.toAnchored (waits.takes entry) entered).1
    exact found _ (.handler ((reaches.anchored serves anchored).blocks block hblock))
  · obtain ⟨l, s₁, entered, run⟩ := bind_ok.mp run
    obtain ⟨anchored, lands⟩ :=
      Threaded.enter_lands serves waits.toAnchored (waits.takes entry) entered
    obtain ⟨b, s', reaches, rest⟩ :=
      Threaded.runFrom_guardFail serves polls guest.fuel (lands .guardFail) anchored run
    exact ⟨b, s', ⟨l, s₁, entered, reaches⟩, rest⟩

/-! ### A `continue` that gets lost -/

/-- The parts of a unit that ends a clause which it never began: what it finds on the stack is a
    `continue` to a jump. -/
def CodeParts.lost : CodeParts where
  name := "lost"
  words := #[.ofOpcode .setupLoop, ⟨15⟩, .ofOpcode .loadConst, ⟨1⟩, .ofOpcode .loadConst, ⟨3⟩,
    .ofOpcode .endFinally, .ofOpcode .jumpForward, ⟨1⟩, .ofOpcode .loadConst, ⟨5⟩,
    .ofOpcode .returnValue]
  consts := #[.int 7, .int UnwindReason.continue_.code, .none]

/-- The unit with these parts. -/
def CodeUnit.lost : CodeUnit := (CodeUnit.ofParts 0 .lost).toOption.getD default

/-- Its graph, cleaned up: the jump is threaded, and its block dropped. -/
def Graph.lost : Graph := (lower {} .lost {} { level := .o1 }).toOption.getD default

/-- A new frame of the unit. -/
def Activation.lost : Activation where
  frame := { code := .lost, globals := 0, builtins := 1, locals := #[], cells := #[] }
  machine :=
    { config := {}
      heap := { units := #[.lost], namespaces := #[{}, {}] }
      units := #[{}]
      globals := 0
      builtins := 1
      bailError := false
      control := .never
      timer := .new 1 false }

/-- What a run answers, if it does. -/
def answer? : EStateM.Result Fault Activation NativeExit → Option NativeExit
  | .ok exit _ => some exit
  | .error .. => none

theorem eq_ok_of_answer? {r : EStateM.Result Fault Activation NativeExit} {exit : NativeExit}
    (h : answer? r = some exit) : ∃ t, r = .ok exit t := by
  cases r with
  | ok exit' t =>
    cases h
    exact ⟨t, rfl⟩
  | error => cases h

/-- Nothing is speculated on. -/
theorem Graph.lost_plain (b : BlockId) : (Graph.lost.block b).term.isSpeculation = false := by
  have plain : ∀ blk ∈ Graph.lost.blocks, blk.term.isSpeculation = false := by decide +kernel
  by_cases hb : b < Graph.lost.blocks.size
  · exact plain _ (Array.mem_of_getElem? (Graph.get_block hb))
  · rw [Graph.block_of_le (Nat.le_of_not_lt hb)]
    rfl

theorem Frame.Awaits.lost : Activation.lost.frame.Awaits .lost where
  code := rfl
  blocks _ h := absurd h List.not_mem_nil
  waits := .inl ⟨rfl, rfl⟩

/-- Still a guard fails. -/
theorem lost_fails_guard :
    CodeUnit.ofParts 0 .lost = .ok .lost ∧ lower {} .lost {} { level := .o1 } = .ok .lost ∧
    (∀ b, (Graph.lost.block b).term.isSpeculation = false) ∧
    Activation.lost.frame.Awaits .lost ∧
    ∃ t, runThreaded (guestWithin 9) .lost .call .lost = .ok (.bail .guardFail) t :=
  ⟨eq_ok_of_isSome (by decide +kernel), eq_ok_of_isSome (by decide +kernel), Graph.lost_plain,
    .lost, eq_ok_of_answer? (by decide +kernel)⟩

theorem guardFail_arises_of_lost :
    CodeUnit.ofParts 0 .lost = .ok .lost ∧ lower {} .lost {} { level := .o1 } = .ok .lost ∧
    (guestWithin 9).poll = pollNow ∧ Activation.lost.frame.Awaits .lost ∧
    ∃ t, runThreaded (guestWithin 9) .lost .call .lost = .ok (.bail .guardFail) t ∧
    ∃ b s', Threaded.Visits (guestWithin 9) .lost .call .lost b s' ∧
      Threaded.Strays (guestWithin 9) .lost .lost b s' := by
  have built : CodeUnit.ofParts 0 .lost = .ok .lost := eq_ok_of_isSome (by decide +kernel)
  have lowered : lower {} .lost {} { level := .o1 } = .ok .lost :=
    eq_ok_of_isSome (by decide +kernel)
  obtain ⟨t, run⟩ : ∃ t, runThreaded (guestWithin 9) .lost .call .lost = .ok (.bail .guardFail) t :=
    eq_ok_of_answer? (by decide +kernel)
  obtain ⟨-, -, arises⟩ := guardFail_arises built lowered
  obtain ⟨b, s', visits, -, fails⟩ :=
    (arises (guestWithin 9) rfl .call .lost .lost).2 t run
  refine ⟨built, lowered, rfl, .lost, t, run, b, s', visits, fails.resolve_left ?_⟩
  rintro ⟨-, op, arg, site, expected, next, -, -, term, -⟩
  have := Graph.lost_plain b
  rw [term] at this
  cases this

end TieredMachine
