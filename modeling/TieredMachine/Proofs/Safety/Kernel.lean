/-
  Where kernels hand frames over.

  A kernel is left at one of its bail points.  Each of them was noted at the start of an
  instruction, or where the way out of a block that was not taken leads, with the blocks in
  force there.  So a frame that is rebuilt at one rests, and has the tables of its unit.

  * `BailPoint.Rests`: bail points;
  * `Builds`: steps of compilation, and what they note;
  * `compile_rests`: the bail points of a kernel;
  * `runKernel_guides`: a run of a kernel.
-/
import TieredMachine.Proofs.Safety.Threaded
import TieredMachine.Proofs.Host.Native

namespace TieredMachine

namespace Kernel

variable {u : CodeUnit} {α β : Type} {n : Nat} {P : State → Prop} {Q : α → State → Prop}

/-! ## Bail points -/

/-- A frame that is rebuilt at the bail point stands at a boundary, and its handlers are
    starts of instructions. -/
structure BailPoint.Rests (u : CodeUnit) (p : BailPoint) : Prop where
  boundary : u.Boundary p.ip
  handlers : ∀ b ∈ p.blocks, (u.instrAt? b.handler).isSome

/-- What compilation knows: the bail points so far, the blocks in force, and where the
    current instruction starts and ends. -/
structure State.Knows (u : CodeUnit) (next : Nat) (s : State) : Prop where
  bails : ∀ p ∈ s.bails, p.Rests u
  blocks : ∀ b ∈ s.blocks, (u.instrAt? b.handler).isSome
  start : ∀ p, s.start = some p → p.Rests u
  next : s.next = next

/-! ## Steps of compilation -/

/-- Begun with `P`, the step answers with `Q`, if it does not fail. -/
def Builds (P : State → Prop) (x : Build α) (Q : α → State → Prop) : Prop :=
  ∀ s, P s → ∀ a s', x s = .ok (a, s') → Q a s'

/-- The step changes nothing that matters for bail points. -/
abbrev Keeps (u : CodeUnit) (n : Nat) (x : Build α) : Prop :=
  Builds (State.Knows u n) x fun _ => State.Knows u n

namespace Builds

theorem ret {a : α} (h : ∀ s, P s → Q a s) : Builds P (pure a) Q := by
  intro s hs _ _ h'
  cases h'
  exact h s hs

theorem fail {why : String} : Builds P (reject why) Q := fun _ _ _ _ h => by cases h

theorem bind {x : Build α} {f : α → Build β} {S : β → State → Prop} (hx : Builds P x Q)
    (hf : ∀ a, Builds (Q a) (f a) S) : Builds P (x >>= f) S := by
  intro s hs b s' h
  obtain ⟨⟨a, t⟩, ha, h⟩ := except_bind_ok.mp h
  exact hf a t (hx s hs a t ha) b s' h

theorem readThen {f : State → Build α} (hf : ∀ s, P s → Builds (· = s) (f s) Q) :
    Builds P (get >>= f) Q :=
  fun s hs a s' h => hf s hs s rfl a s' h

theorem change {f : State → State} {Q : PUnit → State → Prop} (h : ∀ s, P s → Q ⟨⟩ (f s)) :
    Builds P (modify f) Q := by
  intro s hs _ _ h'
  cases h'
  exact h s hs

theorem write {t : State} {Q : PUnit → State → Prop} (h : Q ⟨⟩ t) : Builds P (set t) Q := by
  intro s hs _ _ h'
  cases h'
  exact h

theorem ite {c : Prop} [Decidable c] {x y : Build α} (hx : c → Builds P x Q)
    (hy : ¬c → Builds P y Q) : Builds P (if c then x else y) Q := by
  split
  · exact hx ‹_›
  · exact hy ‹_›

end Builds

/-! ### What does not matter for bail points -/

theorem State.Knows.restacked {s : State} (h : s.Knows u n) (stack : List Kind) :
    ({ s with stack } : State).Knows u n := ⟨h.bails, h.blocks, h.start, h.next⟩

theorem bailAt_keeps {p : BailPoint} (hp : p.Rests u) : Keeps u n (bailAt p) := by
  refine Builds.readThen fun s hs => Builds.bind (Q := fun _ => State.Knows u n) ?_
    fun _ => .ret fun _ h => h
  refine .write ⟨fun q hq => ?_, hs.blocks, hs.start, hs.next⟩
  obtain hq | rfl := Array.mem_push.mp hq
  · exact hs.bails q hq
  · exact hp

theorem guardPoint_keeps : Keeps u n guardPoint := by
  refine Builds.readThen fun s hs => ?_
  split
  · rename_i p hp
    rintro s' rfl
    exact bailAt_keeps (hs.start p hp) s' hs
  · exact .fail

theorem popKind_keeps : Keeps u n popKind := by
  refine Builds.readThen fun s hs => ?_
  split
  · exact Builds.bind (Q := fun _ => State.Knows u n) (.write (hs.restacked _))
      fun _ => .ret fun _ h => h
  · exact .fail

theorem popInt_keeps : Keeps u n popInt := by
  refine popKind_keeps.bind fun k => ?_
  cases k with
  | int => exact .ret fun _ h => h
  | bool => exact .fail

theorem pushKind_keeps (k : Kind) : Keeps u n (pushKind k) := .change fun _ h => h.restacked _

theorem buildBinary_keeps (op : BinaryOp) : Keeps u n (buildBinary op) := by
  refine popInt_keeps.bind fun _ => popInt_keeps.bind fun _ => ?_
  have pushed (ops : List Op) : Keeps u n (do pushKind .int; return ops) :=
    (pushKind_keeps _).bind fun _ => .ret fun _ h => h
  split
  case h_1 | h_2 | h_3 =>
    exact guardPoint_keeps.bind fun _ => Builds.bind (.ret fun _ h => h) pushed
  case h_4 | h_5 | h_6 => exact Builds.bind (.ret fun _ h => h) pushed
  case h_7 => exact Builds.bind (Q := fun _ => State.Knows u n) .fail pushed

theorem argOf_keeps (p : Primitive) : Keeps u n (argOf p) := by
  unfold argOf
  split
  · exact .ret fun _ h => h
  · exact .fail

/-- What comes after a check. -/
theorem unless_keeps {c : Prop} [Decidable c] {why : String} {x : Build α} (h : Keeps u n x) :
    Keeps u n (if c then do reject why; x else x) :=
  .ite (fun _ => Builds.bind (Q := fun _ => State.Knows u n) .fail fun _ => h) fun _ => h

theorem buildPrimitive_keeps (g : Graph) (p : Primitive) : Keeps u n (buildPrimitive g p) := by
  have done (ops : List Op) : Keeps u n (pure ops) := .ret fun _ h => h
  have arg : Keeps u n (argOf p) := argOf_keeps p
  have popped {f : Kind → Build (List Op)} (h : ∀ k, Keeps u n (f k)) :
      Keeps u n (popKind >>= f) := popKind_keeps.bind h
  have pushed (k : Kind) {x : Build (List Op)} (h : Keeps u n x) :
      Keeps u n (do pushKind k; x) := (pushKind_keeps k).bind fun _ => h
  unfold buildPrimitive
  cases p.op.operator? with
  | some op => exact buildBinary_keeps op
  | none =>
    dsimp only
    split
    case h_1 => exact done _
    case h_2 => exact popped fun _ => done _
    case h_3 => exact popped fun k => pushed k (pushed k (done _))
    case h_4 => exact popped fun a => popped fun b => pushed a (pushed b (done _))
    case h_5 =>
      exact popped fun a => popped fun b => popped fun c => pushed a (pushed c (pushed b (done _)))
    case h_6 =>
      refine arg.bind fun a => ?_
      split
      · exact pushed _ (done _)
      · exact pushed _ (done _)
      · exact .fail
    case h_7 =>
      refine arg.bind fun i => unless_keeps ?_
      have loaded (op : Op) : Keeps u n (do pushKind .int; return [op]) := pushed _ (done _)
      refine Builds.readThen fun s hs => .ite (fun _ => ?_) fun _ => ?_
      · rintro s' rfl
        exact Builds.bind (Q := fun _ => State.Knows u n) (.ret fun _ h => h) loaded s' hs
      · rintro s' rfl
        exact guardPoint_keeps.bind (fun _ => Builds.bind (Q := fun _ => State.Knows u n)
          (.ret fun _ h => h) loaded) s' hs
    case h_8 =>
      exact arg.bind fun i => unless_keeps (popInt_keeps.bind fun _ => Builds.bind
        (.change fun _ h => ⟨h.bails, h.blocks, h.start, h.next⟩) fun _ => done _)
    case h_9 =>
      exact popInt_keeps.bind fun _ => guardPoint_keeps.bind fun _ => pushed _ (done _)
    case h_10 =>
      refine arg.bind fun a => ?_
      split
      · exact unless_keeps (popInt_keeps.bind fun _ => popInt_keeps.bind fun _ =>
          pushed _ (done _))
      · exact .fail
    case h_11 =>
      refine Builds.readThen fun s hs => ?_
      split
      · rename_i b rest hb
        refine Builds.bind (Q := fun _ => State.Knows u n) (.write ?_) fun _ => done _
        exact ⟨hs.bails, fun c hc => hs.blocks c (hb ▸ List.mem_cons_of_mem b hc), hs.start,
          hs.next⟩
      · exact .fail
    case h_12 => exact .fail

theorem buildCommit_keeps : Keeps u n buildCommit :=
  Builds.bind (.change fun _ h => ⟨h.bails, h.blocks, h.start, h.next⟩) fun _ => .ret fun _ h => h

/-! ## Blocks -/

/-- What compilation knows where the building of a block stands in the unit. -/
def State.Reaches (u : CodeUnit) (s : State) : Place → Prop
  | .start ip => u.Boundary ip ∧ ∃ n, s.Knows u n
  | .inside i _ ps => u.instrAt? i.ip = some i ∧ (∀ p ∈ ps, p ∈ i.prims) ∧ s.Knows u i.next

variable {G : Graph} {assumptions : Array Assumption} {leads : Nat → BlockId → Prop}

theorem pointHere_rests {ip : Nat} (hip : u.Boundary ip) (kind : BailKind) :
    Builds (State.Knows u n) (pointHere ip kind) fun p s => s.Knows u n ∧ p.Rests u :=
  Builds.readThen fun s hs => .ret fun s' h => by
    rw [h]
    exact ⟨hs, hip, hs.blocks⟩

/-- An operation that performs a primitive. -/
theorem buildInst_keeps (hu : u.Checked) {i : Instr} (hi : u.instrAt? i.ip = some i) {k : Nat}
    {op : TieredMachine.Op} {p : Primitive} (hp : p ∈ i.prims) (h : Performs G.Sets i op p) :
    Keeps u n (buildInst G ⟨⟨i.ip, k⟩, op⟩) := by
  cases h with
  | prim => exact buildPrimitive_keeps G _
  | int => exact buildPrimitive_keeps G _
  | call => exact .fail
  | @setup _ kind target h _ ht hset =>
    refine Builds.bind (.change fun s hs => ?_) fun _ => .ret fun _ h => h
    refine ⟨hs.bails, fun b hb => ?_, hs.start, hs.next⟩
    obtain rfl | hb := List.mem_cons.mp hb
    · show (u.instrAt? (G.handler h).targetIp).isSome
      rw [show (G.handler h).targetIp = target from hset.2.2]
      exact hu.target_isSome hi hp ht
    · exact hs.blocks b hb

/-- The operations of a block are built up to its way out. -/
theorem insts_build (hu : u.Checked) {place : Place} {is : List Inst} {t : Terminator}
    (h : At u G.Sets assumptions leads place is t) :
    Builds (·.Reaches u place) (is.mapM (buildInst G)) fun _ s =>
      ∃ place', At u G.Sets assumptions leads place' [] t ∧ s.Reaches u place' := by
  -- an operation, and those behind it
  have first {place place' : Place} {i : Inst} {is : List Inst} {S : State → Prop}
      (hx : Builds (·.Reaches u place) (buildInst G i) fun _ => (·.Reaches u place'))
      (hxs : Builds (·.Reaches u place') (is.mapM (buildInst G)) fun _ => S) :
      Builds (·.Reaches u place) ((i :: is).mapM (buildInst G)) fun _ => S := by
    rw [List.mapM_cons]
    exact hx.bind fun _ => hxs.bind fun _ => .ret fun _ h => h
  induction h with
  | @poll ip kind _ _ _ ih =>
    refine first ?_ ih
    rintro s ⟨hip, n, hs⟩
    have polled : Builds (State.Knows u n) (do
        let ops ← buildCommit
        return ops ++ [.poll (← bailAt (← pointHere ip (.safePoint kind)))])
        fun _ => State.Knows u n :=
      buildCommit_keeps.bind fun _ => (pointHere_rests hip _).bind fun p => Builds.bind
        (fun s hs => bailAt_keeps hs.2 s hs.1) fun _ => .ret fun _ h => h
    exact fun a s' h => ⟨hip, n, polled s hs a s' h⟩
  | @begin ip i _ _ hi _ ih =>
    have start := hu.ip_eq hi
    refine first ?_ ih
    rintro s ⟨hip, n, hs⟩
    have begun : Builds (State.Knows u n) (do
        let ops ← buildCommit
        let p ← pointHere ip .guard
        modify fun s => { s with start := some p, next := i.next }
        return ops ++ [.mark]) fun _ => State.Knows u i.next :=
      buildCommit_keeps.bind fun _ => (pointHere_rests hip _).bind fun p => Builds.bind
        (.change fun s hs => ⟨hs.1.bails, hs.1.blocks, fun q hq => Option.some.inj hq ▸ hs.2, rfl⟩)
        fun _ => .ret fun _ h => h
    exact fun a s' h => ⟨by rw [start]; exact hi, fun _ hp => hp, begun s hs a s' h⟩
  | cached =>
    rw [List.mapM_cons]
    exact Builds.bind (Q := fun _ _ => False) .fail fun _ _ h => h.elim
  | op hperf _ ih =>
    refine first ?_ ih
    rintro s ⟨hi, hps, hs⟩ a s' h
    exact ⟨hi, fun p hp => hps p (List.mem_cons_of_mem _ hp),
      buildInst_keeps hu hi (hps _ List.mem_cons_self) hperf s hs a s' h⟩
  | next _ ih =>
    rintro s ⟨hi, -, hs⟩
    exact ih s ⟨hu.next_boundary hi, _, hs⟩
  | exit hx => exact .ret fun s hs => ⟨_, .exit hx, hs⟩
  | fall hl => exact .ret fun s hs => ⟨_, .fall hl, hs⟩
  | trap hi => exact .ret fun s hs => ⟨_, .trap hi, hs⟩

theorem targetBlock_keeps (b : BlockId) : Builds P (targetBlock G b) fun _ => P :=
  .ite (fun _ => .ret fun _ h => h) fun _ => .fail

theorem expectEmpty_keeps : Keeps u n expectEmpty :=
  Builds.readThen fun _ hs => .ite (fun _ => .fail) fun _ => .ret fun _ h => h ▸ hs

/-- The way out of a block, before the last primitive of an instruction. -/
theorem exits_keep (hu : u.Checked) {i : Instr} (hi : u.instrAt? i.ip = some i) {k : Nat}
    {p : Primitive} (hp : p ∈ i.prims) {t : Terminator} (h : Exits u leads i k p t) :
    Keeps u i.next (buildExit G t) := by
  have goes {f : BlockId → Build Exit} (b : BlockId) (h : ∀ b, Keeps u i.next (f b)) :
      Keeps u i.next (targetBlock G b >>= f) := (targetBlock_keeps b).bind h
  have done (e : Exit) : Keeps u i.next (pure e) := .ret fun _ h => h
  cases h with
  | goto => exact expectEmpty_keeps.bind fun _ => goes _ fun _ => done _
  | branch =>
    refine popKind_keeps.bind fun _ => expectEmpty_keeps.bind fun _ => goes _ fun _ =>
      goes _ fun _ => ?_
    split
    · exact done _
    · exact done _
    · exact .fail
  | return_ => exact popKind_keeps.bind fun _ => done _
  | forIter | yield_ | unwind | unwindOff => exact .fail
  | @speculate op arg target expected next _ ht _ =>
    refine popKind_keeps.bind fun _ => expectEmpty_keeps.bind fun _ =>
      Builds.readThen fun s hs => ?_
    split
    · exact .fail
    · rename_i start _
      -- where the other way leads is a boundary
      have left {other : Nat} (there : u.Boundary other) : Builds (· = s) (do
          let bail ← bailAt ⟨other, start.ip, .guard, [], s.blocks⟩
          return Exit.speculate expected bail (← targetBlock G next))
          fun _ => State.Knows u i.next := by
        rintro s' rfl
        exact ((bailAt_keeps ⟨there, hs.blocks⟩).bind fun _ => goes _ fun _ => done _) s' hs
      have behind : u.Boundary s.next := by
        rw [hs.next]
        exact hu.next_boundary hi
      split
      · rename_i other hother
        have ahead : u.Boundary other := by
          refine hu.target_boundary hi hp ?_
          rw [← hs.next]
          exact hother
        exact .ite (fun _ => left behind) fun _ => left ahead
      · exact .ite (fun _ => left behind) fun _ => .fail

/-- The way out of a block, behind its operations. -/
theorem buildExit_keeps (hu : u.Checked) {place : Place} {t : Terminator}
    (h : At u G.Sets assumptions leads place [] t) :
    Builds (·.Reaches u place) (buildExit G t) fun _ s => ∃ n, s.Knows u n := by
  generalize hnil : [] = is at h
  induction h with
  | poll | begin | cached | op => cases hnil
  | next _ ih =>
    rintro s ⟨hi, -, hs⟩
    exact ih hnil s ⟨hu.next_boundary hi, _, hs⟩
  | exit hx =>
    rintro s ⟨hi, hps, hs⟩ e s' h
    exact ⟨_, exits_keep hu hi (hps _ List.mem_cons_self) hx s hs e s' h⟩
  | trap => exact .fail
  | @fall ip b hl =>
    rintro s ⟨-, n, hs⟩ e s' h
    have out : Keeps u n (buildExit G (.goto b)) := expectEmpty_keeps.bind fun _ =>
      (targetBlock_keeps _).bind fun _ => .ret fun _ h => h
    exact ⟨n, out s hs e s' h⟩

/-- Every step of many keeps what it begins with, and its answer is as told. -/
theorem Builds.mapM {R : β → Prop} {f : α → Build β} {as : List α}
    (h : ∀ a ∈ as, Builds P (f a) fun b s => P s ∧ R b) :
    Builds P (as.mapM f) fun bs s => P s ∧ ∀ b ∈ bs, R b := by
  induction as with
  | nil => exact .ret fun _ hs => ⟨hs, nofun⟩
  | cons a as ih =>
    rw [List.mapM_cons]
    refine (h a List.mem_cons_self).bind fun b => ?_
    rintro s ⟨hs, hb⟩
    refine (ih fun a ha => h a (List.mem_cons_of_mem _ ha)).bind (fun bs => .ret ?_) s hs
    rintro s ⟨hs, hbs⟩
    exact ⟨hs, List.forall_mem_cons.mpr ⟨hb, hbs⟩⟩

/-- The blocks in force where a block of the graph begins. -/
theorem entryBlocks_keeps (handlers : ∀ h, (u.instrAt? (G.handler h).targetIp).isSome)
    (hs : List HandlerId) : Builds P (entryBlocks G hs) fun bs s =>
      P s ∧ ∀ b ∈ bs, (u.instrAt? b.handler).isSome := by
  refine .mapM fun h _ => ?_
  dsimp only
  split
  · exact .ret fun _ hs => ⟨hs, handlers h⟩
  · exact .fail

variable {h₀ : Heap} {most : Nat}

theorem buildBlock_keeps (hf : Faithful u h₀ most G)
    (handlers : ∀ h, (u.instrAt? (G.handler h).targetIp).isSome) {b : GraphBlock}
    (hb : b ∈ G.blocks) : Builds (fun s => ∃ n, s.Knows u n) (buildBlock G b)
      fun _ s => ∃ n, s.Knows u n := by
  obtain ⟨id, hlt, rfl⟩ := Array.mem_iff_getElem.mp hb
  have same : G.block id = G.blocks[id] := by
    unfold Graph.block
    rw [Array.getElem?_eq_getElem hlt]
    rfl
  have code := same ▸ hf.code id hlt
  have starts := code.starts_of_begins (same ▸ hf.opens id hlt)
  refine .ite (fun _ => .ret fun _ h => h) fun _ => (entryBlocks_keeps handlers _).bind
    fun blocks => Builds.bind (Q := fun _ s => s.Reaches u (.start G.blocks[id].start)) ?_ fun _ =>
      (insts_build hf.unit code).bind fun ops => ?_
  · refine .change ?_
    rintro s ⟨⟨n, hs⟩, hblocks⟩
    exact ⟨.inl starts, n, hs.bails, hblocks, nofun, hs.next⟩
  · rintro s ⟨place, hplace, hs⟩
    have committed : Builds (·.Reaches u place) buildCommit fun _ => (·.Reaches u place) := by
      cases place with
      | start ip =>
        rintro s ⟨hip, n, hs⟩ a s' h
        exact ⟨hip, n, buildCommit_keeps s hs a s' h⟩
      | inside i k ps =>
        rintro s ⟨hi, hps, hs⟩ a s' h
        exact ⟨hi, hps, buildCommit_keeps s hs a s' h⟩
    exact (committed.bind fun _ => (buildExit_keeps hf.unit hplace).bind fun _ =>
      .ret fun _ h => h) s hs

/-- **The bail points of a kernel.**  A frame that is rebuilt at one stands at a boundary,
    and its handlers are starts of instructions. -/
theorem compile_rests (hf : Faithful u h₀ most G)
    (handlers : ∀ h, (u.instrAt? (G.handler h).targetIp).isSome) {k : Kernel}
    (h : compile G = .ok k) : ∀ p ∈ k.bails, p.Rests u := by
  have build : Builds (fun s => ∃ n, s.Knows u n) (do
      let _ ← targetBlock G G.entry
      G.blocks.mapM (buildBlock G) : Build (Array (Option Code))) fun _ s => ∃ n, s.Knows u n := by
    rw [Array.mapM_eq_mapM_toList]
    refine (targetBlock_keeps _).bind fun _ => Builds.bind (Q := fun _ s => ∃ n, s.Knows u n) ?_
      fun _ => .ret fun _ h => h
    exact fun s hs bs s' h => (Builds.mapM (R := fun _ => True) (fun b hb s hs c s' h =>
      ⟨buildBlock_keeps hf handlers (Array.mem_toList_iff.mp hb) s hs c s' h, trivial⟩)
        s hs bs s' h).1
  unfold compile at h
  split at h
  · cases h
  · obtain ⟨⟨blocks, s⟩, hs, h⟩ := except_bind_ok.mp h
    cases h
    obtain ⟨n, known⟩ := build {}
      ⟨0, fun _ h => absurd h (Array.not_mem_empty _), nofun, nofun, rfl⟩ _ _ hs
    exact known.bails

/-! ## Running -/

/-- A kernel is left with as many local variables. -/
def Outcome.Sized (n : Nat) : Outcome → Prop
  | .bail _ _ locals => locals.size = n
  | _ => True

/-- What a kernel has after a step, or is left with. -/
def Sized (n : Nat) : Except Outcome Words → Prop
  | .ok w => w.locals.size = n
  | .error out => out.Sized n

/-- The stores that wait bind local variables that are there. -/
theorem waiting_sized (ps : List (Nat × Int64)) {ls : Array (Option Int64)} (h : ls.size = n) :
    (ps.foldr (fun p ls => ls.setIfInBounds p.1 (some p.2)) ls).size = n := by
  induction ps with
  | nil => exact h
  | cons p ps ih => rw [List.foldr_cons, Array.size_setIfInBounds, ih]

theorem step_sized (polled : Bool) (op : Op) {w : Words} (hw : w.locals.size = n) :
    Sized n (step polled op w) := by
  obtain ⟨locals, stack, marked, waiting⟩ := w
  cases op with
  | commit => exact waiting_sized waiting hw
  | poll => cases polled <;> exact hw
  | mark | const | truncate => exact hw
  | load i bail =>
    unfold step
    dsimp only
    split <;> exact hw
  | loadWaiting i =>
    unfold step
    dsimp only
    split
    · exact hw
    · trivial
  | store | pop | dup =>
    cases stack with
    | nil => trivial
    | cons => exact hw
  | neg bail =>
    cases stack with
    | nil => trivial
    | cons v rest =>
      unfold step
      dsimp only
      split <;> exact hw
  | rotTwo | bitwise | compare =>
    match stack with
    | [] | [_] => trivial
    | _ :: _ :: _ => exact hw
  | rotThree =>
    match stack with
    | [] | [_] | [_, _] => trivial
    | _ :: _ :: _ :: _ => exact hw
  | arith op bail =>
    match stack with
    | [] | [_] => trivial
    | b :: a :: rest =>
      unfold step
      dsimp only
      split <;> exact hw
theorem steps_sized (polled : Nat → Bool) (ops : List Op) {w : Words} (hw : w.locals.size = n) :
    Sized n (steps polled ops w) := by
  induction ops generalizing w with
  | nil => exact hw
  | cons op ops ih =>
    have first := step_sized (polled ops.length) op hw
    unfold steps
    cases hs : step (polled ops.length) op w with
    | error out =>
      rw [hs] at first
      exact first
    | ok w' =>
      rw [hs] at first
      exact ih first

/-- However a kernel is left, it has as many local variables as it began with. -/
theorem run_sized (k : Kernel) (polled : Polls) (fuel : Nat) (b : BlockId) {w : Words}
    (hw : w.locals.size = n) {out : Outcome} (h : run k polled fuel b w = some out) :
    out.Sized n := by
  induction fuel generalizing b w with
  | zero => cases h
  | succ fuel ih =>
    unfold run at h
    split at h
    · cases h
      trivial
    · rename_i code _
      have ran := steps_sized (polled fuel) code.ops hw
      split at h
      · rename_i hs
        cases h
        rw [hs] at ran
        exact ran
      · rename_i w' hs
        rw [hs] at ran
        split at h
        · exact ih _ ran h
        · refine ih _ ?_ h
          exact ran
        · split at h
          · refine ih _ ?_ h
            exact ran
          · cases h
            exact ran
        · cases h
          trivial
        · cases h
          trivial

/-- There are as many words as local variables. -/
theorem wordsOf?_sized {locals : Array (Option Value)} {w : Words} (h : wordsOf? locals = some w) :
    w.locals.size = locals.size := by
  have length {f : Option Value → Option (Option Int64)} (vs : List (Option Value)) :
      ∀ ws, vs.mapM f = some ws → ws.length = vs.length := by
    induction vs with
    | nil =>
      rintro _ ⟨⟩
      rfl
    | cons v vs ih =>
      intro ws h
      rw [List.mapM_cons] at h
      obtain ⟨_, _, h⟩ := Option.bind_eq_some_iff.mp h
      obtain ⟨ws', hws, h⟩ := Option.bind_eq_some_iff.mp h
      cases h
      rw [List.length_cons, List.length_cons, ih ws' hws]
  unfold wordsOf? at h
  obtain ⟨ws, hws, h⟩ := Option.bind_eq_some_iff.mp h
  cases h
  rw [Array.mapM_eq_mapM_toList] at hws
  obtain ⟨l, hl, rfl⟩ := Option.map_eq_some_iff.mp hws
  exact length _ l hl

end Kernel

/-! ## Lowered graphs -/

section

variable {us : Array CodeUnit} {stops : Nat → Prop} {u : CodeUnit} {g : Guest} {h₀ : Heap}
  {most : Nat} {G : Graph}

/-- The handlers of a graph that is lowered are starts of instructions. -/
theorem lower_handlers (hu : u.Checked) {feedback : Feedback} {opts : LowerOptions}
    (hl : lower h₀ u feedback opts = .ok G) : ∀ h ∈ G.handlers, (u.instrAt? h.targetIp).isSome := by
  have plain {G : Graph} (hl : lowerPlain h₀ u feedback opts = .ok G) :
      ∀ h ∈ G.handlers, (u.instrAt? h.targetIp).isSome := by
    unfold lowerPlain at hl
    dsimp only at hl
    split at hl
    · cases hl
    obtain ⟨a, ha, hl⟩ := except_bind_ok.mp hl
    obtain ⟨hs, hhs, hl⟩ := except_bind_ok.mp hl
    obtain ⟨_, _, hl⟩ := except_bind_ok.mp hl
    cases hl
    intro h hm
    obtain ⟨i, p, hi, hp, -, ht⟩ :=
      Lowering.placedHandlers_setUp hu (hu.analyze_settled ha).setUp hhs h hm
    exact hu.target_isSome hi (by rw [hp]; exact List.mem_singleton_self p) ht
  obtain ⟨G₀, hG₀, hl⟩ := except_bind_ok.mp hl
  have handlers := plain hG₀
  cases hl
  split
  · unfold Graph.cleanUp Graph.dropUnreachable
    dsimp only
    split
    · exact handlers
    · intro h hm
      obtain ⟨h', hm', rfl⟩ := Array.mem_map.mp hm
      exact handlers h' hm'
  · exact handlers

/-- So are those that a handler number leads to. -/
theorem lower_handler (hf : Faithful u h₀ most G)
    (handlers : ∀ h ∈ G.handlers, (u.instrAt? h.targetIp).isSome) (h : HandlerId) :
    (u.instrAt? (G.handler h).targetIp).isSome := by
  unfold Graph.handler
  cases hh : G.handlers[h]? with
  | some handler => exact handlers handler (Array.mem_of_getElem? hh)
  | none =>
    -- the default handler starts where the unit does
    show (u.instrAt? 0).isSome
    obtain ⟨hlt, n, -, hops⟩ := hf.entry
    generalize hstart : (G.block G.entry).start = start at hops
    cases hops with
    | here => exact hstart ▸ (hf.code _ hlt).starts_of_begins (hf.opens _ hlt)
    | jump hi => exact Option.isSome_of_eq_some hi

/-! ## Runs -/

theorem Frame.Enters.stands {f : Frame} {entry : Entry} (h : f.Enters u entry) : f.Stands u := by
  cases entry with
  | resume v => exact Frame.Rests.stands h
  | _ => exact h

/-- A frame is rebuilt at a bail point with as many local variables as it had. -/
theorem leaveKernel_guides {k : Kernel} (rests : ∀ p ∈ k.bails, p.Rests u)
    (hpoll : ∀ kind, Safe (.validated us stops u) (g.poll kind)) {n : Nat} {stack : List Int64}
    {locals : Array (Option Int64)} (size : locals.size = u.varnames.size) :
    Guides (.validated us stops u) (·.Fits u) (leaveKernel g k n stack locals)
      (fun e f => e.Fits u f) (Frame.Ends us stops u) := by
  unfold leaveKernel
  split
  · exact .fail fun _ _ => .inl (Regime.Closed.misuse _)
  · rename_i p hp
    have point := rests p (Array.mem_of_getElem? hp)
    refine Guides.andThen (Q := fun _ => (·.Rests u)) (Guides.change fun f hf => ?_) fun _ => ?_
    · refine ⟨⟨hf.code, ?_, hf.cells, point.handlers⟩, point.boundary⟩
      exact (Array.size_map ..).trans size
    · split
      · exact (Guides.machine (hpoll _) (fun _ _ h => h) fun _ _ he _ => .inl he).andThen
          fun reason => .ret fun _ h => h.stands
      · exact .ret fun _ h => h.stands

/-- A kernel leaves the frame as it may, whatever its looks for a reason to leave find. -/
theorem runKernelPolled_guides {k : Kernel} (rests : ∀ p ∈ k.bails, p.Rests u)
    (hpoll : ∀ kind, Safe (.validated us stops u) (g.poll kind)) (polled : Kernel.Polls)
    (entry : Entry) : Guides (.validated us stops u) (·.Stands u) (runKernelPolled g k polled entry)
      (fun e f => e.Fits u f) (Frame.Ends us stops u) := by
  refine Guides.getThen fun s hm hs => ?_
  have misused {α : Type} (x : Misuse) {Q : α → Frame → Prop} : Guides (.validated us stops u)
      (· = s.frame) (throw (.runtime x)) Q (Frame.Ends us stops u) :=
    .fail fun _ _ => .inl (Regime.Closed.misuse x)
  have body : Guides (.validated us stops u) (· = s.frame)
      (Law.kernelBody g k polled g.fuel s.frame)
      (fun e f => e.Fits u f) (Frame.Ends us stops u) := by
    unfold Law.kernelBody
    split
    · exact .ret fun f hf => hf ▸ hs
    · rename_i words hw
      split
      · exact .fail fun _ _ => .inl Regime.Closed.outOfFuel
      · exact .ret fun _ _ => trivial
      · rename_i n stack locals hrun
        have size : locals.size = s.frame.locals.size :=
          Kernel.run_sized k polled g.fuel k.entry (Kernel.wordsOf?_sized hw) hrun
        exact (leaveKernel_guides rests hpoll (size.trans hs.locals)).strengthen
          fun f hf => hf ▸ hs.toFits
      · exact misused _
  have sized : Guides (.validated us stops u) (· = s.frame)
      (do if s.frame.locals.size ≠ k.localCount then throw (.runtime .kernelLocals)
          Law.kernelBody g k polled g.fuel s.frame)
      (fun e f => e.Fits u f) (Frame.Ends us stops u) :=
    .ite (fun _ => Guides.andThen (Q := fun _ => (· = s.frame)) (misused _) fun _ => body)
      fun _ => body
  refine Guides.ite (fun _ => ?_) (fun _ => sized) s hm rfl
  exact Guides.andThen (Q := fun _ => (· = s.frame)) (misused _) fun _ => sized

theorem runKernel_guides {k : Kernel} (rests : ∀ p ∈ k.bails, p.Rests u)
    (hpoll : ∀ kind, Safe (.validated us stops u) (g.poll kind)) (entry : Entry) :
    Guides (.validated us stops u) (·.Stands u) (runKernel g k entry) (fun e f => e.Fits u f)
      (Frame.Ends us stops u) :=
  Guides.getThen fun s hm hs => runKernelPolled_guides rests hpoll _ entry s hm hs

/-- **Native code** that was made from the unit leaves its frames as it may. -/
theorem runNative_guides (hu : Built us) {r : Ref}
    (hg : g.Safe (.validated us stops (unitAt us r)))
    (hpoll : ∀ kind, Safe (.validated us stops (unitAt us r)) (g.poll kind)) {n : NativeFunction}
    (hn : n.MadeFrom (unitAt us r)) (entry : Entry) :
    Guides (.validated us stops (unitAt us r)) (·.Enters (unitAt us r) entry)
      (runNative g n entry) (fun e f => e.Fits (unitAt us r) f)
      (Frame.Ends us stops (unitAt us r)) := by
  obtain ⟨h, feedback, opts, G, hl, made⟩ := hn
  have checked := hu.checked_of_lower hl
  obtain ⟨most, -, faithful⟩ := lower_faithful checked hl
  unfold runNative
  obtain code | ⟨k, hk, code⟩ := made
  · rw [code]
    exact runThreaded_guides hu faithful hg hpoll entry
  · rw [code]
    have rests := Kernel.compile_rests faithful
      (lower_handler faithful (lower_handlers checked hl)) hk
    exact (runKernel_guides rests hpoll entry).strengthen fun _ h => h.stands

end

end TieredMachine
