/-
  Runs of graphs that are cleaned up.

  A block that stays does in the graph cleaned up what it does in the graph, and leads where
  the blocks went that it led to.  A block that only jumps is skipped: all that it does is to
  say which instruction was begun last, and the block that it leads to says so anew before
  anything but a look for a reason to leave can tell the difference.

  * `Activation.SaveLasti`, `Activation.SavePosition`: frames that differ in where they stand;
  * `Threaded.Meets`: computations that land where others do;
  * `rest_meets`, `runBlock_meets`, `enter_meets`: blocks and entries;
  * `runFrom_meets`, `runFrom_returns`: runs, either way;
  * **`cleanUp_preserves`**: runs of a graph before and after it is cleaned up.
-/
import TieredMachine.Proofs.Native.Lookup

namespace TieredMachine

variable {u : CodeUnit} {special : Bool} {g : Graph} {guest : Guest} {entry : Entry}
  {s s' t t' : Activation} {b c : BlockId}

/-! ## Graphs before they are cleaned up -/

/-- Whether the operation looks for a reason to leave, and does nothing else. -/
def Op.looks : Op → Bool
  | safePoint _ | guardGlobals _ => true
  | begin_ _ | prim _ | pushHandler _ | loadCached _ | callDirect .. | intBinary _ => false

/-- The block begins an instruction once it has looked for reasons to leave. -/
def GraphBlock.Begins (blk : GraphBlock) : Prop :=
  ∃ looks site next more, blk.insts = looks ++ ⟨site, .begin_ next⟩ :: more ∧
    ∀ x ∈ looks, x.op.looks

/-- The graph was lowered, and is not cleaned up yet. -/
structure Graph.Source (g : Graph) : Prop extends g.WellFormed where
  ascends : g.Ascends
  begins : ∀ b < g.blocks.size, (g.block b).Begins

theorem Opening.looks {i : Instr} {o : List Inst} (h : Opening u special i o) :
    ∃ looks : List Inst, o = looks ++ [⟨⟨i.ip, 0⟩, .begin_ i.next⟩] ∧ ∀ x ∈ looks, x.op.looks := by
  obtain ⟨guards, rfl, hguards⟩ := h
  refine ⟨u.polls i ++ guards, rfl, fun x hx => ?_⟩
  obtain hx | hx := List.mem_append.mp hx
  · unfold CodeUnit.polls at hx
    split at hx
    · obtain rfl := List.mem_singleton.mp hx
      rfl
    · cases hx
  · obtain ⟨-, v, rfl⟩ := hguards x hx
    rfl

theorem Transcribes.source {id : Ref} {parts : CodeParts} (hu : CodeUnit.ofParts id parts = .ok u)
    (h : Transcribes u special g) : g.Source where
  toWellFormed := h.wellFormed
  ascends := h.ascends hu
  begins b hb := by
    obtain ⟨js, hjs, -, spells⟩ := h.spells hb
    unfold GraphBlock.Begins
    generalize (g.block b).insts = insts at spells
    generalize (g.block b).term = way at spells
    generalize (g.block b).start = start at spells
    have opened {i : Instr} {o rest : List Inst} (opens : Opening u special i o) :
        ∃ looks site next more, o ++ rest = looks ++ ⟨site, .begin_ next⟩ :: more ∧
          ∀ x ∈ looks, x.op.looks := by
      obtain ⟨looks, rfl, all⟩ := opens.looks
      exact ⟨looks, ⟨i.ip, 0⟩, i.next, rest, by simp, all⟩
    cases spells with
    | falls | off => exact absurd rfl hjs
    | exit opens => exact opened opens
    | next opens => exact opened opens

/-! ## Frames that differ in where they stand -/

namespace Activation

/-- The second is the first but for the instruction that was begun last. -/
def SaveLasti (s s' : Activation) : Prop :=
  ∃ lasti, s' = ⟨{ s.frame with lasti }, s.machine⟩

/-- The second is the first but for where the frame stands. -/
def SavePosition (s s' : Activation) : Prop :=
  ∃ ip lasti, s' = ⟨{ s.frame with ip, lasti }, s.machine⟩

theorem SavePosition.refl (s : Activation) : s.SavePosition s := ⟨s.frame.ip, s.frame.lasti, rfl⟩

/-- The first frame may stand elsewhere. -/
theorem SavePosition.moved (h : s.SavePosition s') (ip : Nat) (lasti : Option Nat) :
    (⟨{ s.frame with ip, lasti }, s.machine⟩ : Activation).SavePosition s' := by
  obtain ⟨ip', lasti', rfl⟩ := h
  exact ⟨ip', lasti', rfl⟩

/-- Two frames that enter one block differ in the instruction begun last alone. -/
theorem SavePosition.entered (h : s.SavePosition s') (ip : Nat) :
    (⟨{ s.frame with ip }, s.machine⟩ : Activation).SaveLasti
      ⟨{ s'.frame with ip }, s'.machine⟩ := by
  obtain ⟨-, lasti', rfl⟩ := h
  exact ⟨lasti', rfl⟩

end Activation

namespace Threaded

/-! ## Landings -/

/-- Where control goes on when blocks have other numbers. -/
def Landing.map (f : BlockId → BlockId) : Landing → Landing
  | block b => block (f b)
  | exit e => exit e
  | bail reason => bail reason

/-- A block that control goes on in stays. -/
def Landing.Stays (g : Graph) : Landing → Prop
  | block b => g.Stays b
  | exit _ | bail _ => True

/-- The second result is the first, with the block where it went.  After a look for a reason
    to leave, the instruction begun last may be another one. -/
inductive Meets (guest : Guest) (g : Graph) : EStateM.Result Fault Activation Landing →
    EStateM.Result Fault Activation Landing → Prop
  | lands {l : Landing} {t : Activation} : l.Stays g →
      Meets guest g (.ok l t) (.ok (l.map g.place) t)
  | fails {e : Fault} {t : Activation} : Meets guest g (.error e t) (.error e t)
  | bails {reason : BailReason} {t t' : Activation} : t.SaveLasti t' →
      Meets guest g (.ok (.bail reason) t) (.ok (.bail reason) t')
  | pollFails {kind : SafePointKind} {m m' : Machine} {e : Fault} {t t' : Activation} :
      guest.poll kind m = .error e m' → t.SaveLasti t' →
      Meets guest g (.error e t) (.error e t')

namespace Meets

/-- What is done first is done by both. -/
theorem andThen {α : Type} {x : FrameExec α} {k k' : α → FrameExec Landing}
    (h : ∀ a t, x s = .ok a t → Meets guest g (k a t) (k' a t)) :
    Meets guest g ((x >>= k) s) ((x >>= k') s) := by
  rw [bind_apply, bind_apply]
  cases hx : x s with
  | ok a t => exact h a t hx
  | error e t => exact .fails

/-- Renaming the block that is landed in. -/
theorem renamed {x : FrameExec Landing} (h : ∀ l t, x s = .ok l t → l.Stays g) :
    Meets guest g (x s) ((x >>= fun l => pure (l.map g.place)) s) := by
  rw [bind_apply]
  cases hx : x s with
  | ok l t => exact .lands (h l t hx)
  | error e t => exact .fails

end Meets

/-! ## Lookups and ways out -/

/-- No block is looked up where one starts that only edges lead to. -/
theorem land_meets (wf : g.WellFormed) (h : ¬g.Loose s.frame.ip) :
    Meets guest g (land g s) (land g.cleanUp s) := by
  rw [land_apply, land_apply, Graph.cleanUp_blockAt? wf h]
  cases found : g.blockAt? s.frame.ip with
  | none => exact .lands (l := .bail .guardFail) trivial
  | some b => exact .lands (l := .block b) (Graph.stays_of_blockAt? wf h found)

theorem follow_meets (wf : g.WellFormed) {flow : Flow}
    (h : ∀ ip, Places flow s ip → ¬g.Loose ip) :
    Meets guest g (follow g flow s) (follow g.cleanUp flow s) := by
  rw [follow_eq, follow_eq]
  refine .andThen fun exit t headed => ?_
  cases exit with
  | some exit => exact .lands (l := .exit exit) trivial
  | none => exact land_meets wf (h t.frame.ip ⟨t, headed, rfl⟩)

/-- The edges of a way out are renamed with its blocks. -/
theorem edge?_mapBlocks (f : BlockId → BlockId) (way : Terminator) (flow : Flow) :
    (way.mapBlocks f).edge? flow =
      (way.edge? flow).map fun along => along >>= fun l => pure (l.map f) := by
  cases way with
  | goto | trap => rfl
  | return_ | yield_ | branch | forIter => cases flow <;> rfl
  | unwind p site next => cases next <;> cases flow <;> rfl
  | speculate op arg site expected next =>
    cases flow with
    | next =>
      show some (pure (if (op == .popJumpIfTrue) == expected then .bail .guardFail
        else .block (f next))) = some (pure (Landing.map f _))
      cases (op == .popJumpIfTrue) == expected <;> rfl
    | jump target =>
      show some (if (op == .popJumpIfTrue) == expected then pure (Landing.block (f next)) else _) =
        some ((if (op == .popJumpIfTrue) == expected then pure (Landing.block next) else _) >>= _)
      cases (op == .popJumpIfTrue) == expected <;> rfl
    | _ => rfl

/-- A way out leads to where the block went. -/
theorem leaveBlock_meets (wf : g.WellFormed) {way : Terminator}
    (stays : ∀ c ∈ way.successors, g.Stays c)
    (straight : ∀ flow t ip, way.flow guest s = .ok flow t → way.edge? flow = none →
      Places flow t ip → ¬g.Loose ip) :
    Meets guest g (leaveBlock guest g way s)
      (leaveBlock guest g.cleanUp (way.mapBlocks g.place) s) := by
  have same : (way.mapBlocks g.place).flow guest = way.flow guest := by
    unfold Terminator.flow
    rw [way.primitive?_mapBlocks]
  rw [Terminator.leaveBlock_eq, Terminator.leaveBlock_eq, same]
  refine .andThen fun flow t hflow => ?_
  rw [edge?_mapBlocks]
  cases edge : way.edge? flow with
  | none => exact follow_meets wf fun ip => straight flow t ip hflow edge
  | some along =>
    refine Meets.renamed fun l t' lands => ?_
    obtain ⟨c, hc, rfl, -⟩ | ⟨-, rfl, -⟩ := edge?_ok edge lands
    · exact stays c hc
    · trivial

/-! ## Operations and blocks -/

/-- The operations do in the graph cleaned up what they do in the graph. -/
theorem runOp_cleanUp (wf : g.WellFormed) (x : Inst) :
    runOp guest g.cleanUp x = runOp guest g x := by
  obtain ⟨site, op⟩ := x
  unfold runOp
  cases op with
  | pushHandler h =>
    dsimp only
    rw [(Graph.cleanUp_handler wf h).1, (Graph.cleanUp_handler wf h).2]
  | loadCached a =>
    dsimp only
    rw [Graph.cleanUp_assumptions wf]
  | _ => rfl

theorem runOps_cleanUp (wf : g.WellFormed) (is : List Inst) :
    runOps guest g.cleanUp is = runOps guest g is := by
  induction is with
  | nil => rfl
  | cons x is ih => rw [runOps, runOps, runOp_cleanUp wf, ih]

/-- Behind an operation that hands on, what is left is what was to be left. -/
theorem Leaves.cons {x : Inst} {is : List Inst} {way : Terminator} {flow : Flow} {s₁ : Activation}
    (hx : runOp guest g x s = .ok .next s₁) (h : Leaves guest g is way s₁ flow t) :
    Leaves guest g (x :: is) way s flow t := by
  have ops : runOps guest g (x :: is) s = runOps guest g is s₁ := by
    rw [runOps, bind_apply, hx]
  cases h with
  | within out => exact .within (ops.trans out)
  | behind out way edge => exact .behind (ops.trans out) way edge

/-- The rest of a block leads from the same frame to where the block went. -/
theorem rest_meets_same (wf : g.WellFormed) {is : List Inst} {way : Terminator}
    (stays : ∀ c ∈ way.successors, g.Stays c)
    (straight : ∀ flow t ip, Leaves guest g is way s flow t → Places flow t ip → ¬g.Loose ip) :
    Meets guest g (rest guest g is way s)
      (rest guest g.cleanUp is (way.mapBlocks g.place) s) := by
  unfold rest
  rw [runOps_cleanUp wf]
  refine .andThen fun out t ops => ?_
  cases out with
  | next =>
    exact leaveBlock_meets wf stays fun flow t' ip out edge =>
      straight flow t' ip (.behind ops out edge)
  | bail reason => exact .lands (l := .bail reason) trivial
  | flow flow => exact follow_meets wf fun ip => straight flow t ip (.within ops)

/-- How a look for a reason to leave ends. -/
inductive Looked (guest : Guest) : EStateM.Result Fault Activation Passed →
    EStateM.Result Fault Activation Passed → Prop
  | none {t t' : Activation} : t.SaveLasti t' → Looked guest (.ok .next t) (.ok .next t')
  | some {reason : BailReason} {t t' : Activation} : t.SaveLasti t' →
      Looked guest (.ok (.bail reason) t) (.ok (.bail reason) t')
  | fails {kind : SafePointKind} {m m' : Machine} {e : Fault} {t t' : Activation} :
      guest.poll kind m = .error e m' → t.SaveLasti t' →
      Looked guest (.error e t) (.error e t')

/-- No look for a reason to leave sees which instruction was begun last. -/
theorem runOp_looked (guest : Guest) {x : Inst} (hx : x.op.looks) (h : s.SaveLasti s')
    (g g' : Graph) :
    Looked guest (runOp guest g x s) (runOp guest g' x s') := by
  obtain ⟨site, op⟩ := x
  obtain ⟨lasti, rfl⟩ := h
  cases op with
  | safePoint kind =>
    have polled (G : Graph) (f : Frame) : runOp guest G ⟨site, .safePoint kind⟩ ⟨f, s.machine⟩ =
        (onMachine (guest.poll kind) >>= fun reason =>
          pure (reason.elim .next .bail)) ⟨f, s.machine⟩ := by
      refine congrFun (congrArg (onMachine (guest.poll kind) >>= ·) (funext fun reason => ?_)) _
      cases reason <;> rfl
    rw [show s = ⟨s.frame, s.machine⟩ from rfl, polled, polled, bind_apply, bind_apply,
      onMachine_apply, onMachine_apply]
    cases answer : guest.poll kind s.machine with
    | error e m => exact .fails answer ⟨lasti, rfl⟩
    | ok reason m =>
      cases reason with
      | none => exact .none ⟨lasti, rfl⟩
      | some reason => exact .some ⟨lasti, rfl⟩
  | guardGlobals v =>
    have guarded (G : Graph) (s : Activation) : runOp guest G ⟨site, .guardGlobals v⟩ s =
        .ok (if guardHolds s.machine.heap s.frame v then .next else .bail .fatalGuardFail) s := rfl
    rw [guarded, guarded, show guardHolds s.machine.heap { s.frame with lasti } v =
      guardHolds s.machine.heap s.frame v from rfl]
    cases guardHolds s.machine.heap s.frame v
    · exact .some ⟨lasti, rfl⟩
    · exact .none ⟨lasti, rfl⟩
  | _ => cases hx

/-- A block that looks for reasons to leave, and then begins an instruction, leads to where the
    block went even if another instruction was begun last. -/
theorem rest_meets (wf : g.WellFormed) {looks : List Inst} (hlooks : ∀ x ∈ looks, x.op.looks)
    (h : s.SaveLasti s') {site : Site} {next : Nat} {more : List Inst} {way : Terminator}
    (stays : ∀ c ∈ way.successors, g.Stays c)
    (straight : ∀ flow t ip, Leaves guest g (looks ++ ⟨site, .begin_ next⟩ :: more) way s flow t →
      Places flow t ip → ¬g.Loose ip) :
    Meets guest g (rest guest g (looks ++ ⟨site, .begin_ next⟩ :: more) way s)
      (rest guest g.cleanUp (looks ++ ⟨site, .begin_ next⟩ :: more) (way.mapBlocks g.place) s') := by
  induction looks generalizing s s' with
  | nil =>
    rw [List.nil_append, rest_begin, rest_begin]
    obtain ⟨lasti, rfl⟩ := h
    exact rest_meets_same wf stays fun flow t ip left => straight flow t ip (left.cons rfl)
  | cons x looks ih =>
    rw [List.cons_append, rest_cons, rest_cons, bind_apply, bind_apply]
    have looked := runOp_looked guest (hlooks x List.mem_cons_self) h g g.cleanUp
    generalize hx : runOp guest g x s = out at looked
    generalize runOp guest g.cleanUp x s' = out' at looked
    cases looked with
    | none same =>
      exact ih (fun y hy => hlooks y (List.mem_cons_of_mem x hy)) same fun flow t ip left =>
        straight flow t ip (left.cons hx)
    | some same => exact .bails same
    | fails polled same => exact .pollFails polled same

/-- A block that stays leads to where the block went. -/
theorem runBlock_meets (hg : g.Source) (stays : g.Stays b) (last : g.forwards[b]?.join = none)
    (h : s.SavePosition s') (straight : ∀ ip, LooksUp guest g b s ip → ¬g.Loose ip) :
    Meets guest g (runBlock guest g b s) (runBlock guest g.cleanUp (g.place b) s') := by
  have wf := hg.toWellFormed
  have straight : ∀ flow t ip,
      Leaves guest g (g.block b).insts (g.block b).term (entered g b s) flow t →
      Places flow t ip → ¬g.Loose ip :=
    fun flow t ip left places => straight ip ⟨flow, t, left, places⟩
  have successors := fun c => stays.successor wf last (c := c)
  have saved := h.entered (g.block b).start
  rw [runBlock_eq, runBlock_eq, Graph.cleanUp_block wf stays last]
  show Meets guest g (rest guest g _ _ (entered g b s)) (rest guest g.cleanUp _ _ _)
  obtain ⟨looks, site, next, more, insts, hlooks⟩ := hg.begins b (stays.lt last)
  rw [insts] at straight ⊢
  exact rest_meets wf hlooks saved successors straight

/-- A block that only jumps leads on, and says which instruction was begun last. -/
theorem runBlock_of_forwards (guest : Guest) (ht : g.forwards[b]?.join = some c)
    (s : Activation) :
    ∃ ip lasti, runBlock guest g b s = .ok (.block c) ⟨{ s.frame with ip, lasti }, s.machine⟩ := by
  obtain ⟨trivial, term⟩ := Graph.forwards_get ht
  unfold GraphBlock.isTrivialJump at trivial
  split at trivial
  · rename_i site next hterm insts
    rw [runBlock_eq, insts, term]
    exact ⟨next, some site.ip, rfl⟩
  · cases trivial

/-- Whatever is sent to it, a frame goes on in its resume block, or where it stands. -/
theorem enter_resume (G : Graph) (v : Value) (s : Activation) : enter G (.resume v) s =
    ((s.frame.lasti.bind G.resumeBlock?).elim (land G) fun b => pure (.block b))
      ⟨s.frame.push v, s.machine⟩ := by
  have looked : (enter G (.resume v) : FrameExec Landing) = push v >>= fun _ => frame >>= fun f =>
      (f.lasti.bind G.resumeBlock?).elim (land G) fun b => pure (.block b) := by
    refine congrArg (push v >>= ·) (funext fun _ => congrArg (frame >>= ·) (funext fun f => ?_))
    cases f.lasti.bind G.resumeBlock? <;> rfl
  rw [looked]
  rfl

/-- An entry leads to where the block went. -/
theorem enter_meets (guest : Guest) (wf : g.WellFormed)
    (straight : ∀ ip, Seeks g s entry ip → ¬g.Loose ip) :
    Meets guest g (enter g entry s) (enter g.cleanUp entry s) := by
  have pinned {s : Activation} {b : BlockId} (hb : b < g.blocks.size) (hp : b ∈ g.pinned) :
      Meets guest g (.ok (.block b) s) (.ok (.block (g.place b)) s) :=
    .lands (l := .block b) (Graph.stays_of_pinned hb hp)
  cases entry with
  | call =>
    show Meets guest g (.ok (.block g.entry) s) (.ok (.block g.cleanUp.entry) s)
    rw [Graph.cleanUp_entry wf]
    exact pinned wf.entry List.mem_cons_self
  | throw_ exc => exact follow_meets wf fun ip places => straight ip (.throw_ places)
  | continue_ => exact land_meets wf (straight s.frame.ip .continue_)
  | resume v =>
    have went : s.frame.lasti.bind g.cleanUp.resumeBlock? =
        (s.frame.lasti.bind g.resumeBlock?).map g.place := by
      cases s.frame.lasti with
      | none => rfl
      | some lasti => exact Graph.cleanUp_resumeBlock? wf lasti
    rw [enter_resume, enter_resume, went]
    cases found : s.frame.lasti.bind g.resumeBlock? with
    | none => exact land_meets wf (straight s.frame.ip (.resume found))
    | some b =>
      obtain ⟨lasti, -, found⟩ := Option.bind_eq_some_iff.mp found
      have mem := Graph.mem_resume found
      exact pinned (wf.resume _ mem) (Graph.mem_pinned_of_resume mem)

/-! ## Runs -/

/-- The second run ends as the first does.  After a look for a reason to leave, the instruction
    begun last may be another one. -/
inductive SameEnd (guest : Guest) : EStateM.Result Fault Activation NativeExit →
    EStateM.Result Fault Activation NativeExit → Prop
  | same {r : EStateM.Result Fault Activation NativeExit} : SameEnd guest r r
  | bails {reason : BailReason} {t t' : Activation} : t.SaveLasti t' →
      SameEnd guest (.ok (.bail reason) t) (.ok (.bail reason) t')
  | pollFails {kind : SafePointKind} {m m' : Machine} {e : Fault} {t t' : Activation} :
      guest.poll kind m = .error e m' → t.SaveLasti t' →
      SameEnd guest (.error e t) (.error e t')

/-- Both go on in a block, from the same frame; or neither does, and they end the same. -/
theorem Meets.goOn {x y : FrameExec Landing} (h : Meets guest g (x s) (y s')) :
    (∃ b t, x s = .ok (.block b) t ∧ y s' = .ok (.block (g.place b)) t ∧ g.Stays b) ∨
      (∀ b t, x s ≠ .ok (.block b) t) ∧ (∀ b t, y s' ≠ .ok (.block b) t) ∧
      ∀ n m, SameEnd guest ((x >>= runFrom guest g n) s) ((y >>= runFrom guest g.cleanUp m) s') := by
  simp only [bind_apply]
  generalize x s = r at h
  generalize y s' = r' at h
  cases h with
  | @lands l t stays =>
    cases l with
    | block b => exact .inl ⟨b, t, rfl, rfl, stays⟩
    | exit | bail =>
      refine .inr ⟨by rintro _ _ ⟨⟩, by rintro _ _ ⟨⟩, fun n m => ?_⟩
      cases n <;> cases m <;> exact .same
  | fails => exact .inr ⟨by rintro _ _ ⟨⟩, by rintro _ _ ⟨⟩, fun n m => .same⟩
  | bails same =>
    refine .inr ⟨by rintro _ _ ⟨⟩, by rintro _ _ ⟨⟩, fun n m => ?_⟩
    cases n <;> cases m <;> exact .bails same
  | pollFails polled same =>
    exact .inr ⟨by rintro _ _ ⟨⟩, by rintro _ _ ⟨⟩, fun n m => .pollFails polled same⟩

/-- From the block on, the run looks for no block that only edges lead to. -/
def Straight (guest : Guest) (g : Graph) (b : BlockId) (s : Activation) : Prop :=
  ∀ c t, Reaches guest g (.block b) s c t → ∀ ip, LooksUp guest g c t ip → ¬g.Loose ip

theorem Straight.step (h : Straight guest g b s)
    (block : runBlock guest g b s = .ok (.block c) t) : Straight guest g c t :=
  fun d t' reaches => h d t' (.step block reaches)

theorem runFrom_step (n : Nat) (block : runBlock guest g b s = .ok (.block c) t) :
    runFrom guest g (n + 1) (.block b) s = runFrom guest g n (.block c) t := by
  rw [runFrom, bind_apply, block]

/-- A run from a block on that ends, ends as well in the graph cleaned up. -/
theorem runFrom_meets (hg : g.Source) (n : Nat) (stays : g.Stays b) (same : s.SavePosition s')
    (straight : Straight guest g b s)
    (ends : ∀ t, runFrom guest g n (.block b) s ≠ .error .outOfFuel t) :
    ∃ m, SameEnd guest (runFrom guest g n (.block b) s)
      (runFrom guest g.cleanUp m (.block (g.place b)) s') := by
  have wf := hg.toWellFormed
  induction n generalizing b s s' with
  | zero => exact absurd rfl (ends s)
  | succ n ih =>
    cases next : g.forwards[b]?.join with
    | some c =>
      obtain ⟨ip, lasti, block⟩ := runBlock_of_forwards guest next s
      rw [runFrom_step n block] at ends ⊢
      rw [← Graph.place_of_forwards hg.ascends wf next]
      exact ih (stays.of_forwards hg.ascends wf next) (same.moved ip lasti) (straight.step block)
        ends
    | none =>
      obtain ⟨c, t, block, block', stays⟩ | ⟨-, -, ended⟩ :=
        (runBlock_meets hg stays next same (straight b s .here)).goOn
      · rw [runFrom_step n block] at ends ⊢
        obtain ⟨m, same⟩ := ih stays (.refl t) (straight.step block) ends
        exact ⟨m + 1, by rwa [runFrom_step m block']⟩
      · exact ⟨1, ended n 0⟩

/-- A run comes past the blocks that only jump to the block that it goes to in the graph
    cleaned up. -/
theorem runFrom_skips (hg : g.Source) (stays : g.Stays b) (same : s.SavePosition s')
    (straight : Straight guest g b s) :
    ∃ k c t, g.forwards[c]?.join = none ∧ g.place c = g.place b ∧ g.Stays c ∧
      t.SavePosition s' ∧ Straight guest g c t ∧
      (∀ d t', Reaches guest g (.block c) t d t' → Reaches guest g (.block b) s d t') ∧
      ∀ n, runFrom guest g (n + k) (.block b) s = runFrom guest g n (.block c) t := by
  have wf := hg.toWellFormed
  induction hd : g.blocks.size - b using Nat.strongRecOn generalizing b s with
  | ind d ih =>
    cases next : g.forwards[b]?.join with
    | none => exact ⟨0, b, s, next, rfl, stays, same, straight, fun _ _ => id, fun n => rfl⟩
    | some c =>
      obtain ⟨ip, lasti, block⟩ := runBlock_of_forwards guest next s
      have place := Graph.place_of_forwards hg.ascends wf next
      have stays := stays.of_forwards hg.ascends wf next
      have same := same.moved ip lasti
      obtain later | last := hg.ascends.forwards wf next
      · have := Nat.succ_le_of_lt later
        have := Nat.succ_le_of_lt (Graph.lt_of_forwards next)
        obtain ⟨k, e, t, last, place', stays, same, straight, skips, runs⟩ :=
          ih (g.blocks.size - c) (by omega) stays same (straight.step block) rfl
        exact ⟨k + 1, e, t, last, place'.trans place, stays, same, straight,
          fun d t' reaches => .step block (skips d t' reaches),
          fun n => (runFrom_step (n + k) block).trans (runs n)⟩
      · exact ⟨1, c, _, last, place, stays, same, straight.step block,
          fun d t' reaches => .step block reaches, fun n => runFrom_step n block⟩

/-- A run from a block on that ends in the graph cleaned up, ends as well in the graph. -/
theorem runFrom_returns (hg : g.Source) (m : Nat) (stays : g.Stays b) (same : s.SavePosition s')
    (straight : Straight guest g b s)
    (ends : ∀ t, runFrom guest g.cleanUp m (.block (g.place b)) s' ≠ .error .outOfFuel t) :
    ∃ n, SameEnd guest (runFrom guest g n (.block b) s)
      (runFrom guest g.cleanUp m (.block (g.place b)) s') := by
  induction m generalizing b s s' with
  | zero => exact absurd rfl (ends s')
  | succ m ih =>
    obtain ⟨k, c, t, last, place, stays, same, straight, -, runs⟩ :=
      runFrom_skips hg stays same straight
    rw [← place] at ends ⊢
    obtain ⟨d, t', block, block', stays⟩ | ⟨-, -, ended⟩ :=
      (runBlock_meets hg stays last same (straight c t .here)).goOn
    · rw [runFrom_step m block'] at ends ⊢
      obtain ⟨n, same⟩ := ih stays (.refl t') (straight.step block) ends
      exact ⟨n + 1 + k, by rwa [runs, runFrom_step n block]⟩
    · exact ⟨1 + k, by rw [runs]; exact ended 0 m⟩

/-- A run comes to a block from a block. -/
theorem Reaches.block {l : Landing} (h : Reaches guest g l s c t) : ∃ b, l = .block b := by
  cases h with
  | here => exact ⟨_, rfl⟩
  | step => exact ⟨_, rfl⟩

/-- A run that comes to a block comes in the graph cleaned up to where the block went. -/
theorem Reaches.meets (hg : g.Source) {l : Landing} (h : Reaches guest g l s c t) (hl : l = .block b)
    (stays : g.Stays b) (same : s.SavePosition s') (straight : Straight guest g b s) :
    ∃ t', Reaches guest g.cleanUp (.block (g.place b)) s' (g.place c) t' ∧ t.SavePosition t' := by
  have wf := hg.toWellFormed
  induction h generalizing b s' with
  | here =>
    cases hl
    exact ⟨s', .here, same⟩
  | @step a c l s s₁ t block rest ih =>
    cases hl
    cases next : g.forwards[a]?.join with
    | some d =>
      obtain ⟨ip, lasti, block'⟩ := runBlock_of_forwards guest next s
      rw [block'] at block
      cases block
      rw [← Graph.place_of_forwards hg.ascends wf next]
      exact ih rfl (stays.of_forwards hg.ascends wf next) (same.moved ip lasti)
        (straight.step block')
    | none =>
      obtain ⟨d, t₁, block₁, block', stays⟩ | ⟨left, -, -⟩ :=
        (runBlock_meets hg stays next same (straight a s .here)).goOn
      · rw [block₁] at block
        cases block
        obtain ⟨t', reaches, same⟩ := ih rfl stays (.refl _) (straight.step block₁)
        exact ⟨t', .step block' reaches, same⟩
      · obtain ⟨d, rfl⟩ := rest.block
        exact absurd block (left d s₁)

/-- A run in the graph cleaned up comes only to blocks where those went that it comes to. -/
theorem Reaches.returns (hg : g.Source) {l : Landing} (h : Reaches guest g.cleanUp l s' c t')
    (hl : l = .block (g.place b)) (stays : g.Stays b) (same : s.SavePosition s')
    (straight : Straight guest g b s) :
    ∃ d t, Reaches guest g (.block b) s d t ∧ g.place d = c ∧ t.SavePosition t' := by
  induction h generalizing b s with
  | here =>
    cases hl
    exact ⟨b, s, .here, rfl, same⟩
  | @step a c l s' s₁ t' block rest ih =>
    cases hl
    obtain ⟨k, d, t, last, place, stays, same, straight, skips, runs⟩ :=
      runFrom_skips hg stays same straight
    rw [← place] at block
    obtain ⟨e, t₁, block₁, block', stays⟩ | ⟨-, left, -⟩ :=
      (runBlock_meets hg stays last same (straight d t .here)).goOn
    · rw [block'] at block
      cases block
      obtain ⟨f, t₂, reaches, there, same⟩ := ih rfl stays (.refl _) (straight.step block₁)
      exact ⟨f, t₂, skips f t₂ (.step block₁ reaches), there, same⟩
    · obtain ⟨e, rfl⟩ := rest.block
      exact absurd block (left e s₁)

/-- A run of a frame that is entered so ends so. -/
def Ends (guest : Guest) (g : Graph) (entry : Entry) (s : Activation)
    (r : EStateM.Result Fault Activation NativeExit) : Prop :=
  (∀ t, r ≠ .error .outOfFuel t) ∧ ∃ n, (enter g entry >>= runFrom guest g n) s = r

theorem SameEnd.ne_outOfFuel {r r' : EStateM.Result Fault Activation NativeExit}
    (h : SameEnd guest r r') :
    (∀ t, r ≠ .error .outOfFuel t) ↔ ∀ t, r' ≠ .error .outOfFuel t := by
  cases h with
  | same => exact Iff.rfl
  | bails => exact ⟨fun _ _ h => (nomatch h), fun _ _ h => (nomatch h)⟩
  | @pollFails _ _ _ e t t' =>
    constructor
    · rintro h _ same
      cases same
      exact h t rfl
    · rintro h _ same
      cases same
      exact h t' rfl

/-- Runs of frames that are entered so agree in the graph and when it is cleaned up: they come to
    the same blocks, with the same frame but for where it stands, and end the same. -/
structure RunsAlike (guest : Guest) (g : Graph) (entry : Entry) (s : Activation) : Prop where
  visits : ∀ b t, Visits guest g entry s b t →
    ∃ t', Visits guest g.cleanUp entry s (g.place b) t' ∧ t.SavePosition t'
  visited : ∀ c t', Visits guest g.cleanUp entry s c t' →
    ∃ b t, Visits guest g entry s b t ∧ g.place b = c ∧ t.SavePosition t'
  ends : ∀ r, Ends guest g entry s r →
    ∃ r', Ends guest g.cleanUp entry s r' ∧ SameEnd guest r r'
  ended : ∀ r', Ends guest g.cleanUp entry s r' →
    ∃ r, Ends guest g entry s r ∧ SameEnd guest r r'

/-- Runs agree unless they look for a block that only edges lead to. -/
theorem runsAlike (hg : g.Source) (straight : ¬Misplaces guest g entry s) :
    RunsAlike guest g entry s := by
  have seeks (ip : Nat) (seek : Seeks g s entry ip) : ¬g.Loose ip :=
    fun loose => straight (.inl ⟨ip, seek, loose⟩)
  obtain ⟨b, t, entered, entered', stays⟩ | ⟨left, left', ended⟩ :=
    (enter_meets guest hg.toWellFormed seeks).goOn
  · have straight : Straight guest g b t := fun c t' reaches ip looks loose =>
      straight (.inr ⟨c, t', ⟨.block b, t, entered, reaches⟩, ip, looks, loose⟩)
    have runs (n : Nat) : (enter g entry >>= runFrom guest g n) s =
        runFrom guest g n (.block b) t := by rw [bind_apply, entered]
    have runs' (m : Nat) : (enter g.cleanUp entry >>= runFrom guest g.cleanUp m) s =
        runFrom guest g.cleanUp m (.block (g.place b)) t := by rw [bind_apply, entered']
    refine ⟨?visits, ?visited, ?ends, ?ended⟩
    case visits =>
      rintro c t₁ ⟨l, t₀, entered₀, reaches⟩
      rw [entered] at entered₀
      cases entered₀
      obtain ⟨t', reaches, same⟩ := reaches.meets hg rfl stays (.refl t) straight
      exact ⟨t', ⟨_, t, entered', reaches⟩, same⟩
    case visited =>
      rintro c t₁ ⟨l, t₀, entered₀, reaches⟩
      rw [entered'] at entered₀
      cases entered₀
      obtain ⟨d, t', reaches, place, same⟩ := reaches.returns hg rfl stays (.refl t) straight
      exact ⟨d, t', ⟨_, t, entered, reaches⟩, place, same⟩
    case ends =>
      rintro r ⟨ends, n, rfl⟩
      rw [runs] at ends ⊢
      obtain ⟨m, same⟩ := runFrom_meets hg n stays (.refl t) straight ends
      exact ⟨_, ⟨same.ne_outOfFuel.mp ends, m, runs' m⟩, same⟩
    case ended =>
      rintro r' ⟨ends, m, rfl⟩
      rw [runs'] at ends ⊢
      obtain ⟨n, same⟩ := runFrom_returns hg m stays (.refl t) straight ends
      exact ⟨_, ⟨same.ne_outOfFuel.mpr ends, n, runs n⟩, same⟩
  · refine ⟨?visits, ?visited, ?ends, ?ended⟩
    case visits =>
      rintro c t₁ ⟨l, t₀, entered₀, reaches⟩
      obtain ⟨b, rfl⟩ := reaches.block
      exact absurd entered₀ (left b t₀)
    case visited =>
      rintro c t₁ ⟨l, t₀, entered₀, reaches⟩
      obtain ⟨b, rfl⟩ := reaches.block
      exact absurd entered₀ (left' b t₀)
    case ends =>
      rintro r ⟨ends, n, rfl⟩
      exact ⟨_, ⟨(ended n 0).ne_outOfFuel.mp ends, 0, rfl⟩, ended n 0⟩
    case ended =>
      rintro r' ⟨ends, m, rfl⟩
      exact ⟨_, ⟨(ended 0 m).ne_outOfFuel.mpr ends, 0, rfl⟩, ended 0 m⟩

end Threaded

/-! ## Graphs that are cleaned up -/

/-- Whatever refers to a block in the one graph refers in the other to one that starts where that
    does, and is else the same. -/
structure Graph.SameStarts (g g' : Graph) : Prop where
  entry : (g'.block g'.entry).start = (g.block g.entry).start
  handlers : List.Forall₂ (fun hd hd' => hd' = { hd with target := hd'.target } ∧
    (g'.block hd'.target).start = (g.block hd.target).start) g.handlers.toList g'.handlers.toList
  resume : List.Forall₂ (fun r r' => r'.1 = r.1 ∧ (g'.block r'.2).start = (g.block r.2).start)
    g.resume g'.resume

theorem Graph.cleanUp_sameStarts (wf : g.WellFormed) : g.SameStarts g.cleanUp := by
  have start {b : BlockId} (hb : b < g.blocks.size) (hp : b ∈ g.pinned) :
      (g.cleanUp.block (g.place b)).start = (g.block b).start :=
    (cleanUp_startsAt wf hp (startsAt_of_lt hb)).start
  refine ⟨?_, ?_, ?_⟩
  · rw [cleanUp_entry wf]
    exact start wf.entry List.mem_cons_self
  · rw [cleanUp_handlers wf, Array.toList_map, List.forall₂_map_right_iff]
    refine List.forall₂_same.mpr fun hd mem => ⟨rfl, ?_⟩
    have mem := Array.mem_toList_iff.mp mem
    exact start (wf.handlers hd mem) (mem_pinned_of_handler mem)
  · rw [cleanUp_resume wf, List.forall₂_map_right_iff]
    exact List.forall₂_same.mpr fun r mem => ⟨rfl, start (wf.resume r mem)
      (mem_pinned_of_resume mem)⟩

/-- **Cleaning up preserves what a graph does.**  The graph of a unit, cleaned up, is well formed,
    and whatever refers to a block refers to one that starts where it did.  Whatever the guest does
    and finds at its polls, runs of the two agree, unless one looks for a block by an index where
    only edges lead.  A frame of the unit does so only at the end of a clause that resumes a
    `continue` which the unit did not begin. -/
theorem cleanUp_preserves {id : Ref} {parts : CodeParts} (hu : CodeUnit.ofParts id parts = .ok u)
    {h : Heap} {feedback : Feedback} {opts : LowerOptions}
    (hg : lowerPlain h u feedback opts = .ok g) :
    g.cleanUp.WellFormed ∧ g.SameStarts g.cleanUp ∧ ∀ guest entry s,
      (¬Threaded.Misplaces guest g entry s → Threaded.RunsAlike guest g entry s) ∧
      (s.frame.Anchored u → s.frame.Takes u entry → Threaded.Misplaces guest g entry s →
        ∃ b t, Threaded.Visits guest g entry s b t ∧ Threaded.Strays guest u g b t) := by
  have checked := (CodeUnit.checked_of_ofParts hu).2
  have transcribed := lowerPlain_transcribes checked hg
  have source := transcribed.source hu
  have wf := source.toWellFormed
  exact ⟨Graph.cleanUp_wellFormed wf, Graph.cleanUp_sameStarts wf, fun guest entry s =>
    ⟨Threaded.runsAlike source, fun anchored takes misplaces =>
      misplaces.strays checked transcribed anchored takes⟩⟩

/-! ### A `continue` that gets lost, and one that does not -/

/-- The graph of a unit that resumes a `continue` which it never began. -/
def Graph.lostWhole : Graph := (lowerPlain {} .lost {} { level := .o1 }).toOption.getD default

/-- Cleaned up, it has no block for the target. -/
theorem lost_bails_cleanedUp :
    CodeUnit.ofParts 0 .lost = .ok .lost ∧
    lowerPlain {} .lost {} { level := .o1 } = .ok .lostWhole ∧
    Activation.lost.frame.Awaits .lost ∧
    (∃ t, runThreaded (guestWithin 9) .lostWhole .call .lost = .ok (.done (.return_ .none)) t) ∧
    ∃ t, runThreaded (guestWithin 9) Graph.lostWhole.cleanUp .call .lost =
      .ok (.bail .guardFail) t :=
  ⟨eq_ok_of_isSome (by decide +kernel), eq_ok_of_isSome (by decide +kernel), .lost,
    eq_ok_of_answer? (by decide +kernel), eq_ok_of_answer? (by decide +kernel)⟩

/-- The graph of a unit whose loop is continued past each item, one way or the other. -/
def Graph.skipsWhole : Graph := (lowerPlain {} .skips {} { level := .o1 }).toOption.getD default

/-- A new frame of that unit, for two items. -/
def Activation.skips : Activation where
  frame :=
    { code := .skips, globals := 0, builtins := 1, locals := #[some (.tuple 0)], cells := #[] }
  machine :=
    { config := {}
      heap := { units := #[.skips], namespaces := #[{}, {}], tuples := #[#[.int 0, .int 1]] }
      units := #[{}]
      globals := 0
      builtins := 1
      bailError := false
      control := .never
      timer := .new 1 false }

theorem cleanUp_preserves_of_skips :
    CodeUnit.ofParts 0 .skips = .ok .skips ∧
    lowerPlain {} .skips {} { level := .o1 } = .ok .skipsWhole ∧
    Graph.skipsWhole.blocks.map (·.start) = #[0, 5, 7, 9, 11, 13, 14] ∧
    Graph.skipsWhole.cleanUp.blocks.map (·.start) = #[0, 5, 7, 9, 13, 14] ∧
    Activation.skips.frame.Anchored .skips ∧ Activation.skips.frame.Takes .skips .call ∧
    ¬Threaded.Misplaces (guestWithin 20) .skipsWhole .call .skips ∧
    ∃ t, Threaded.Ends (guestWithin 20) .skipsWhole .call .skips (.ok (.done (.return_ .none)) t) ∧
      Threaded.Ends (guestWithin 20) Graph.skipsWhole.cleanUp .call .skips
        (.ok (.done (.return_ .none)) t) := by
  have built : CodeUnit.ofParts 0 .skips = .ok .skips := eq_ok_of_isSome (by decide +kernel)
  have lowered : lowerPlain {} .skips {} { level := .o1 } = .ok .skipsWhole :=
    eq_ok_of_isSome (by decide +kernel)
  have anchored : Activation.skips.frame.Anchored .skips :=
    ⟨rfl, fun _ h => absurd h List.not_mem_nil⟩
  obtain ⟨-, -, runs⟩ := cleanUp_preserves built lowered
  obtain ⟨alike, strays⟩ := runs (guestWithin 20) .call .skips
  -- no clause of the unit has an end
  have plain : ∀ blk ∈ Graph.skipsWhole.blocks,
      (blk.term.primitive?.all fun exit => exit.2.op != .endFinally) = true := by decide +kernel
  have straight : ¬Threaded.Misplaces (guestWithin 20) .skipsWhole .call .skips := by
    intro misplaces
    obtain ⟨b, s, -, _, flow, _, -, -, _, p, _, exits, ends, -⟩ := strays anchored .call misplaces
    by_cases hb : b < Graph.skipsWhole.blocks.size
    · have := plain _ (Array.mem_of_getElem? (Graph.get_block hb))
      rw [exits] at this
      simp [ends] at this
    · rw [Graph.block_of_le (Nat.le_of_not_lt hb)] at exits
      cases exits
  obtain ⟨t, run⟩ : ∃ t, runThreaded (guestWithin 20) .skipsWhole .call .skips =
      .ok (.done (.return_ .none)) t := eq_ok_of_answer? (by decide +kernel)
  have ended : Threaded.Ends (guestWithin 20) .skipsWhole .call .skips
      (.ok (.done (.return_ .none)) t) := ⟨by rintro _ ⟨⟩, 20, run⟩
  obtain ⟨r', ended', same⟩ := (alike straight).ends _ ended
  refine ⟨built, lowered, by decide +kernel, by decide +kernel, anchored, .call, straight, t,
    ended, ?_⟩
  cases same
  exact ended'

end TieredMachine
