/-
  Where blocks place control.

  A block of native code sets up only blocks of its unit, and the flow out of it goes where
  control may be placed, unless a clause's end resumes a `continue` that no instruction of
  the unit began.

  * `Op.Suits`, `Terminator.Suits`, `Graph.Serves`: graphs that serve a unit;
  * `Transcribes.serves`, `cleanUp_serves`, `lower_serves`: graphs that are lowered do;
  * `runOps_anchored`: operations;
  * `Terminator.Strays`, `Terminator.flow_anchored`: ways out.
-/
import TieredMachine.Proofs.Graph.Cleaned

namespace TieredMachine

variable {u : CodeUnit} {special : Bool} {g G : Graph} {guest : Guest} {s t : Activation}

/-! ## Graphs that serve a unit -/

/-- The operation goes on to the next one, and pushes only handlers that the unit sets up. -/
structure Op.Suits (u : CodeUnit) (g : Graph) (op : Op) : Prop where
  plain : ∀ p, op.primitive? = some p → p.op.blockKind? = none ∧ Lowering.endsBlock p.op = false
  pushes : ∀ h, op = .pushHandler h → u.SetsUp (g.handler h).targetIp

/-- The way out is that of a primitive of the unit. -/
structure Terminator.Suits (u : CodeUnit) (t : Terminator) : Prop where
  plain : ∀ site p, t.primitive? = some (site, p) → p.op.blockKind? = none
  tests : ∀ op arg site expected next, t = .speculate op arg site expected next → op.isPopJump
  unwinds : ∀ p site next, t = .unwind p site next → p.op.isJump = false
  continues : ∀ site target, t.primitive? = some (site, ⟨.continueLoop, some target⟩) →
    u.ContinuesTo target

/-- The blocks of the graph are those of the unit, and one starts wherever control may be
    placed. -/
structure Graph.Serves (u : CodeUnit) (g : Graph) : Prop extends g.WellFormed where
  ops : ∀ b, ∀ x ∈ (g.block b).insts, x.op.Suits u g
  ways : ∀ b, (g.block b).term.Suits u
  anchors : ∀ ip, u.Anchor ip → ∃ b, g.StartsAt ip b
  resumes : ∀ i ∈ u.instrs.toList, i.yields →
    ∃ b, g.resumeBlock? i.ip = some b ∧ g.StartsAt i.next b

/-- An operation that runs no primitive and pushes no handler. -/
theorem Op.Suits.silent {op : Op} (h : op.primitive? = none) (h' : ∀ hd, op ≠ .pushHandler hd) :
    op.Suits u g where
  plain p hp := by
    rw [h] at hp
    cases hp
  pushes hd hop := absurd hop (h' hd)

/-- Renaming blocks changes no primitive. -/
theorem Terminator.primitive?_mapBlocks (f : BlockId → BlockId) (t : Terminator) :
    (t.mapBlocks f).primitive? = t.primitive? := by
  cases t <;> rfl

theorem Terminator.Suits.mapBlocks {t : Terminator} (h : t.Suits u) (f : BlockId → BlockId) :
    (t.mapBlocks f).Suits u where
  plain site p hp := h.plain site p (by rwa [t.primitive?_mapBlocks] at hp)
  tests op arg site expected next hs := by
    cases t with
    | speculate =>
      cases hs
      exact h.tests _ _ _ _ _ rfl
    | _ => cases hs
  unwinds p site next hu := by
    obtain ⟨next', ht⟩ := Terminator.eq_unwind_of_mapBlocks hu
    exact h.unwinds p site next' ht
  continues site target hp := h.continues site target (by rwa [t.primitive?_mapBlocks] at hp)

/-- A way out that runs no primitive. -/
theorem Terminator.Suits.silent {t : Terminator} (h : t.primitive? = none) : t.Suits u where
  plain site p hp := by
    rw [h] at hp
    cases hp
  tests op arg site expected next ht := by
    rw [ht] at h
    cases h
  unwinds p site next ht := by
    rw [ht] at h
    cases h
  continues site target hp := by
    rw [h] at hp
    cases hp

/-- A block that is not there is empty, and goes on to the first one. -/
theorem Graph.block_of_le {b : BlockId} (h : g.blocks.size ≤ b) : g.block b = default := by
  unfold block
  rw [Array.getElem?_eq_none h]
  rfl

/-! ### Graphs that are lowered -/

theorem StandsFor.suits {i : Instr} (hi : i ∈ u.instrs.toList) {op : Op} {p : Primitive}
    (hp : p ∈ i.prims) (plain : Lowering.endsBlock p.op = false)
    (h : StandsFor g.Handles special i op p) : op.Suits u g := by
  cases h with
  | same kind =>
    exact ⟨fun q hq => by cases hq; exact ⟨kind, plain⟩, nofun⟩
  | setup kind ht sets =>
    refine ⟨nofun, fun hd hop => ?_⟩
    cases hop
    obtain ⟨hd', get, -, -, target, -⟩ := sets
    rw [Graph.handler_of_get get, target]
    exact ⟨i, hi, p, hp, by rw [kind]; rfl, ht⟩
  | cached => exact .silent rfl nofun
  | call => exact ⟨fun q hq => by cases hq; exact ⟨rfl, rfl⟩, nofun⟩
  | @int op _ operator =>
    refine ⟨fun q hq => ?_, nofun⟩
    cases hq
    refine ⟨?_, plain⟩
    cases op <;> first | rfl | cases operator

/-- A way out runs the primitive that it is the way out of. -/
theorem Exits.runs {leads : Nat → BlockId → Prop} {i : Instr} {k : Nat} {p q : Primitive}
    {t : Terminator} (h : Exits u leads i k p t) {site : Site} (hq : t.primitive? = some (site, q)) :
    q = p := by
  cases h with
  | goto => cases hq
  | _ =>
    cases hq
    rfl

theorem Exits.suits {leads : Nat → BlockId → Prop} {i : Instr} (hi : i ∈ u.instrs.toList)
    {k : Nat} {p : Primitive} (hp : p ∈ i.prims) {t : Terminator} (h : Exits u leads i k p t) :
    t.Suits u where
  plain site q hq := h.runs hq ▸ h.plain
  tests op arg site expected next ht := by
    subst ht
    cases h with
    | speculate ops => exact ops
  unwinds q site next ht := by
    subst ht
    cases h with
    | unwind _ hop =>
      rw [hop]
      rfl
    | unwindOff ops =>
      obtain ops | ⟨hop, -⟩ := ops
      · unfold Opcode.isUnwinding at ops
        simp only [Bool.or_eq_true, beq_iff_eq] at ops
        obtain (hop | hop) | hop := ops <;> rw [hop] <;> rfl
      · rw [hop]
        rfl
  continues site target hq := ⟨i, hi, p, hp, by rw [← h.runs hq], by rw [← h.runs hq]⟩

theorem Body.suits {i : Instr} (hi : i ∈ u.instrs.toList) {k : Nat} {ps : List Primitive}
    {is : List Inst} {t : Option Terminator} (hps : ps ⊆ i.prims)
    (h : Body u g.Handles g.StartsAt special i k ps is t) :
    (∀ x ∈ is, x.op.Suits u g) ∧ ∀ t', t = some t' → t'.Suits u := by
  induction h with
  | nil => exact ⟨nofun, nofun⟩
  | op plain stands _ ih =>
    obtain ⟨rest, last⟩ := ih fun p hp => hps (List.mem_cons_of_mem _ hp)
    refine ⟨fun x hx => ?_, last⟩
    obtain rfl | hx := List.mem_cons.mp hx
    · exact stands.suits hi (hps List.mem_cons_self) plain
    · exact rest x hx
  | exit exits =>
    refine ⟨nofun, fun t' ht => ?_⟩
    cases ht
    exact exits.suits hi (hps (List.mem_singleton.mpr rfl))

theorem Opening.suits {i : Instr} {o : List Inst} (h : Opening u special i o) :
    ∀ x ∈ o, x.op.Suits u g := by
  obtain ⟨guards, rfl, hguards⟩ := h
  intro x hx
  simp only [List.mem_append, List.mem_singleton] at hx
  obtain (hx | hx) | rfl := hx
  · unfold CodeUnit.polls at hx
    split at hx
    · obtain rfl := List.mem_singleton.mp hx
      exact .silent rfl nofun
    · cases hx
  · obtain ⟨-, v, rfl⟩ := hguards x hx
    exact .silent rfl nofun
  · exact .silent rfl nofun

theorem Spells.suits {ip : Nat} {js : List Instr} (hjs : ∀ j ∈ js, j ∈ u.instrs.toList)
    {is : List Inst} {t : Terminator} (h : Spells u g.Handles g.StartsAt special ip js is t) :
    (∀ x ∈ is, x.op.Suits u g) ∧ t.Suits u := by
  induction h with
  | falls | off => exact ⟨fun x hx => absurd hx List.not_mem_nil, .silent rfl⟩
  | exit opens body =>
    obtain ⟨ops, last⟩ := body.suits (hjs _ List.mem_cons_self) (List.Subset.refl _)
    exact ⟨fun x hx => (List.mem_append.mp hx).elim (opens.suits x) (ops x), last _ rfl⟩
  | next opens body _ ih =>
    obtain ⟨ops, -⟩ := body.suits (hjs _ List.mem_cons_self) (List.Subset.refl _)
    obtain ⟨rest, last⟩ := ih fun j hj => hjs j (List.mem_cons_of_mem _ hj)
    refine ⟨fun x hx => ?_, last⟩
    obtain hx | hx := List.mem_append.mp hx
    · exact opens.suits x hx
    · exact (List.mem_append.mp hx).elim (ops x) (rest x)

theorem Graph.mem_resume {lasti : Nat} {b : BlockId} (h : g.resumeBlock? lasti = some b) :
    (lasti, b) ∈ g.resume := by
  obtain ⟨before, after, parts, -⟩ := List.lookup_eq_some_iff.mp h
  rw [parts]
  exact List.mem_append_right _ List.mem_cons_self

namespace Transcribes

/-- A suspended frame resumes behind the instruction that suspended it. -/
theorem resumes (h : Transcribes u special g) (hu : u.Checked) {i : Instr}
    (hi : i ∈ u.instrs.toList) (yields : i.yields) :
    ∃ b, g.resumeBlock? i.ip = some b ∧ g.StartsAt i.next b := by
  obtain ⟨r, hr, ip, -⟩ := forall₂_mem_left h.resume (List.mem_filter.mpr ⟨hi, yields⟩)
  cases found : g.resumeBlock? i.ip with
  | none =>
    have := List.lookup_eq_none_iff.mp found r hr
    rw [ip] at this
    simp at this
  | some b =>
    obtain ⟨j, hj, ip, starts⟩ := forall₂_mem_right h.resume (Graph.mem_resume found)
    have same : j = i := by
      have at_j := hu.instrAt?_of_mem (List.mem_of_mem_filter hj)
      rw [← ip, hu.instrAt?_of_mem hi] at at_j
      exact (Option.some.inj at_j).symm
    exact ⟨b, rfl, same ▸ starts⟩

theorem blocks_suit (h : Transcribes u special g) (b : BlockId) :
    (∀ x ∈ (g.block b).insts, x.op.Suits u g) ∧ (g.block b).term.Suits u := by
  by_cases hb : b < g.blocks.size
  · obtain ⟨js, -, mem, spells⟩ := h.spells hb
    exact spells.suits mem
  · rw [Graph.block_of_le (Nat.le_of_not_lt hb)]
    exact ⟨fun x hx => absurd hx List.not_mem_nil, .silent rfl⟩

/-- Graphs that are lowered serve their units, before they are cleaned up. -/
theorem serves (h : Transcribes u special g) (hu : u.Checked) : g.Serves u where
  toWellFormed := h.wellFormed
  ops b := (h.blocks_suit b).1
  ways b := (h.blocks_suit b).2
  anchors ip ha := by
    obtain ⟨b, -, starts⟩ := h.pinned ha
    exact ⟨b, starts⟩
  resumes i hi yields := h.resumes hu hi yields

/-- And when they are cleaned up. -/
theorem cleanUp_serves (h : Transcribes u special g) (hu : u.Checked) : g.cleanUp.Serves u := by
  have wf := h.wellFormed
  have blocks (b : BlockId) : (∀ x ∈ (g.cleanUp.block b).insts, x.op.Suits u g) ∧
      (g.cleanUp.block b).term.Suits u := by
    by_cases hb : b < g.cleanUp.blocks.size
    · rw [Graph.cleanUp_eq wf] at hb ⊢
      obtain ⟨c, -, hc, -, same⟩ := Graph.exists_of_lt_reduced (Graph.threadJumps_wellFormed wf) hb
      rw [Graph.threadJumps_size] at hc
      rw [same, Graph.renumbered, Graph.threadJumps_block hc]
      obtain ⟨ops, way⟩ := h.blocks_suit c
      exact ⟨ops, (way.mapBlocks _).mapBlocks _⟩
    · rw [Graph.block_of_le (Nat.le_of_not_lt hb)]
      exact ⟨fun x hx => absurd hx List.not_mem_nil, .silent rfl⟩
  refine ⟨Graph.cleanUp_wellFormed wf, fun b x hx => ?_, fun b => (blocks b).2, fun ip ha => ?_,
    fun i hi yields => ?_⟩
  · obtain ⟨plain, pushes⟩ := (blocks b).1 x hx
    exact ⟨plain, fun hd hop => (Graph.cleanUp_handler wf hd).2 ▸ pushes hd hop⟩
  · obtain ⟨b, pinned, starts⟩ := h.pinned ha
    exact ⟨_, Graph.cleanUp_startsAt wf pinned starts⟩
  · obtain ⟨b, found, starts⟩ := h.resumes hu hi yields
    refine ⟨g.place b, by rw [Graph.cleanUp_resumeBlock? wf, found]; rfl, ?_⟩
    exact Graph.cleanUp_startsAt wf (Graph.mem_pinned_of_resume (Graph.mem_resume found)) starts

end Transcribes

/-- **The graph of a unit serves it**, at every level. -/
theorem lower_serves (hu : u.Checked) {h : Heap} {feedback : Feedback} {opts : LowerOptions}
    (hG : lower h u feedback opts = .ok G) : G.Serves u := by
  obtain ⟨g, hg, out⟩ := except_bind_ok.mp hG
  have transcribed := lowerPlain_transcribes hu hg
  cases out
  split
  · exact transcribed.cleanUp_serves hu
  · exact transcribed.serves hu

/-! ## Operations and ways out -/

/-- What ends no block hands on to what comes next, or raises. -/
theorem Primitive.Hands.anchors {p : Primitive} (plain : Lowering.endsBlock p.op = false)
    {flow : Flow} (h : p.Hands flow) : flow = .next ∨ flow.Anchors u := by
  have never (ends : Lowering.endsBlock p.op) : flow = .next ∨ flow.Anchors u := by
    rw [plain] at ends
    cases ends
  cases flow with
  | next => exact .inl rfl
  | raise => exact .inr trivial
  | yield_ => exact .inr trivial
  | jump target =>
    refine never ?_
    revert h
    unfold Hands
    generalize p.op = op
    cases op <;> first | exact fun _ => rfl | exact nofun
  | unwind pending =>
    cases pending with
    | continue_ target =>
      obtain hop | rfl := h
      · exact never (by rw [hop]; rfl)
      · exact never rfl
    | _ => exact .inr trivial

namespace Threaded

/-- The flow out of an operation places control where it may be placed, and a bail is that of
    a poll or of changed namespaces. -/
def Passed.Anchors (guest : Guest) (u : CodeUnit) : Passed → Prop
  | .next => True
  | .flow out => out.Anchors u
  | .bail r => r = .fatalGuardFail ∨ ∃ kind m m', guest.poll kind m = .ok (some r) m'

theorem passed_sheds {x : FrameExec Flow} {Q : Flow → Prop} (hx : Sheds (caught x) Q)
    (hQ : ∀ flow, Q flow → flow = .next ∨ flow.Anchors u) :
    Sheds (passed x) (Passed.Anchors guest u) := by
  refine hx.andThen fun flow hflow => ?_
  have told := hQ flow hflow
  cases flow with
  | next => exact .ret trivial
  | _ => exact .ret (told.resolve_left nofun)

theorem primitive_sheds (site : Site) {p : Primitive}
    (hp : p.op.blockKind? = none ∧ Lowering.endsBlock p.op = false) :
    Sheds (passed (Primitive.run guest site false p)) (Passed.Anchors guest u) :=
  passed_sheds (Primitive.caught_sheds site hp.1) fun _ => Primitive.Hands.anchors hp.2

theorem callDirect_sheds (site : Site) (arg : Nat) (expected : Value) :
    Sheds (callDirect guest site arg expected) (Passed.Anchors guest u) := by
  have usual : Sheds (passed (Primitive.run guest site false ⟨.callFunction, some arg⟩))
      (Passed.Anchors guest u) := primitive_sheds site ⟨rfl, rfl⟩
  have direct (args : List Value) : Sheds (passed do
        push (← onMachine (guest.call expected args []))
        return .next)
      (Passed.Anchors guest u) := by
    refine passed_sheds (Q := fun flow => flow = .next ∨ flow.Anchors u) ?_ fun _ => id
    refine Sheds.caught ?_ fun _ => .inr trivial
    exact (Sheds.machine _).andThen fun v _ => (Sheds.push v).andThen fun _ _ => .ret (.inl rfl)
  have chosen (same : Bool) : Sheds (if same then do
        let args ← popN (Primitive.positionalCount arg)
        let _ ← pop
        passed do
          push (← onMachine (guest.call expected args []))
          return .next
      else passed (Primitive.run guest site false ⟨.callFunction, some arg⟩))
      (Passed.Anchors guest u) :=
    .ite ((Sheds.popN _).andThen fun args _ => Sheds.pop.andThen fun _ _ => direct args) usual
  unfold callDirect
  dsimp only
  split
  · exact (Sheds.ret (Q := fun _ => True) trivial).andThen fun same _ => chosen same
  · exact (Sheds.peek _).andThen fun v _ =>
      (Sheds.ret (Q := fun _ => True) trivial).andThen fun same _ => chosen same

theorem intBinary_sheds (site : Site) {op : Opcode}
    (hop : op.blockKind? = none ∧ Lowering.endsBlock op = false) :
    Sheds (intBinary guest site op) (Passed.Anchors guest u) := by
  unfold intBinary
  split
  · exact primitive_sheds site hop
  · refine (Sheds.peek 1).andThen fun a _ => (Sheds.peek 0).andThen fun b _ => ?_
    split
    · exact (Sheds.popN 2).andThen fun _ _ => (Sheds.push _).andThen fun _ _ => .ret trivial
    · exact primitive_sheds site hop

/-- After an operation the blocks of the frame are set up by the unit still, and the flow out
    of it places control where it may be placed. -/
theorem runOp_anchored {x : Inst} (hx : x.op.Suits u G) (hs : s.frame.Anchored u) {out : Passed}
    (h : runOp guest G x s = .ok out t) : t.frame.Anchored u ∧ out.Anchors guest u := by
  have told (sheds : Sheds (runOp guest G x) (Passed.Anchors guest u)) :
      t.frame.Anchored u ∧ out.Anchors guest u := by
    have after := sheds s
    rw [h] at after
    exact ⟨after.1.anchored hs, after.2⟩
  obtain ⟨site, op⟩ := x
  cases op with
  | safePoint kind =>
    obtain ⟨reason, s₁, polled, h⟩ := bind_ok.mp h
    rw [onMachine_apply] at polled
    cases answer : guest.poll kind s.machine with
    | error e m =>
      rw [answer] at polled
      cases polled
    | ok reason m =>
      rw [answer] at polled
      cases polled
      cases reason with
      | none =>
        cases h
        exact ⟨hs, trivial⟩
      | some reason =>
        cases h
        exact ⟨hs, .inr ⟨kind, _, _, answer⟩⟩
  | guardGlobals v =>
    refine told (.frameThen fun f => (Sheds.machine _).andThen fun h _ => .ret ?_)
    split
    · trivial
    · exact .inl rfl
  | begin_ next =>
    cases h
    exact ⟨⟨hs.code, hs.blocks⟩, trivial⟩
  | prim p => exact told (primitive_sheds site (hx.plain p rfl))
  | pushHandler hd =>
    obtain ⟨_, s₁, pushed, h⟩ := bind_ok.mp h
    cases h
    rw [pushBlock_eq_take, take_apply] at pushed
    unfold Frame.pushBlock at pushed
    by_cases full : maxBlocks ≤ s.frame.blocks.length
    · rw [if_pos full] at pushed
      cases pushed
    · rw [if_neg full] at pushed
      cases pushed
      refine ⟨⟨hs.code, fun b hb => ?_⟩, trivial⟩
      obtain rfl | hb := List.mem_cons.mp hb
      · exact hx.pushes hd rfl
      · exact hs.blocks b hb
  | loadCached a => exact told ((Sheds.push _).andThen fun _ _ => .ret trivial)
  | callDirect arg expected => exact told (callDirect_sheds site arg expected)
  | intBinary op => exact told (intBinary_sheds site (hx.plain _ rfl))

/-- So it is after operations one after another. -/
theorem runOps_anchored {is : List Inst} (his : ∀ x ∈ is, x.op.Suits u G)
    (hs : s.frame.Anchored u) {out : Passed} (h : runOps guest G is s = .ok out t) :
    t.frame.Anchored u ∧ out.Anchors guest u := by
  induction is generalizing s with
  | nil =>
    cases h
    exact ⟨hs, trivial⟩
  | cons x is ih =>
    obtain ⟨first, s₁, hx, h⟩ := bind_ok.mp h
    obtain ⟨hs₁, flows⟩ := runOp_anchored (his x List.mem_cons_self) hs hx
    cases first with
    | next => exact ih (fun y hy => his y (List.mem_cons_of_mem x hy)) hs₁ h
    | bail | flow =>
      cases h
      exact ⟨hs₁, flows⟩

end Threaded

/-- The way out ends a clause that resumes a `continue` to a target which no `CONTINUE_LOOP` of
    the unit has as its operand. -/
def Terminator.Strays (u : CodeUnit) (t : Terminator) (flow : Flow) : Prop :=
  ∃ site p target, t.primitive? = some (site, p) ∧ p.op = .endFinally ∧
    flow = .unwind (.continue_ target) ∧ ¬u.ContinuesTo target

/-- The primitive of a way out keeps the blocks of the frame, and its flow has an edge, places
    control where it may be placed, or strays. -/
theorem Terminator.flow_anchored {way : Terminator} (hw : way.Suits u) (hs : s.frame.Anchored u)
    {flow : Flow} (h : way.flow guest s = .ok flow t) : t.frame.Anchored u ∧
      ((way.edge? flow).isSome ∨ flow.Anchors u ∨ way.Strays u flow) := by
  unfold Terminator.flow at h
  cases hp : way.primitive? with
  | none =>
    rw [hp] at h
    cases h
    refine ⟨hs, .inl ?_⟩
    cases way with
    | goto | trap => rfl
    | _ => cases hp
  | some at_ =>
    obtain ⟨site, p⟩ := at_
    rw [hp] at h
    have ran : caught (Primitive.run guest site false p) s = .ok flow t := h
    have after := Primitive.caught_sheds (g := guest) site (hw.plain site p hp) s
    rw [ran] at after
    obtain ⟨sheds, hands⟩ := after
    refine ⟨sheds.anchored hs, ?_⟩
    cases flow with
    | raise | yield_ => exact .inr (.inl trivial)
    | next =>
      cases way with
      | return_ | yield_ =>
        cases hp
        exact absurd rfl (by first | exact hands.1 | exact hands.2)
      | goto | trap => cases hp
      | unwind _ _ next => cases next <;> exact .inl rfl
      | branch | speculate | forIter => exact .inl rfl
    | jump target =>
      cases way with
      | return_ | yield_ =>
        cases hp
        cases hands
      | unwind q site' next =>
        cases hp
        have jumps : p.op.isJump := hands
        rw [hw.unwinds p site next rfl] at jumps
        cases jumps
      | goto | trap => cases hp
      | branch | speculate | forIter => exact .inl rfl
    | unwind pending =>
      cases pending with
      | continue_ target =>
        by_cases known : u.ContinuesTo target
        · exact .inr (.inl known)
        · obtain hop | rfl := hands
          · exact .inr (.inr ⟨site, p, target, hp, hop, rfl, known⟩)
          · exact absurd (hw.continues site target hp) known
      | exception | return_ | break_ => exact .inr (.inl trivial)

end TieredMachine
