/-
  Where threaded code takes a frame.

  A block of a faithful graph is read against its unit, place by place.  Before an
  instruction the frame rests there; inside of one it is as the interpreter has it.  So
  threaded code lands at starts of blocks, hands over frames that stand between two
  instructions, and fails as the interpreter does.

  * `Threaded.Landing.Fits`: landings;
  * `follow_guides`, `leaveBlock_guides`: out of a block;
  * `At.guides`: the rest of a block;
  * `runThreaded_guides`: a whole run.
-/
import TieredMachine.Proofs.Safety.Interpreter
import TieredMachine.Proofs.Native.Threaded
import TieredMachine.Proofs.Graph.CleanUp

namespace TieredMachine

variable {us : Array CodeUnit} {stops : Nat → Prop} {u : CodeUnit} {i : Instr} {g : Guest}
  {h₀ : Heap} {most : Nat} {G : Graph} {E : Fault → Frame → Prop}

/-- A unit that is lowered was accepted. -/
theorem Built.checked_of_lower (hu : Built us) {r : Ref} {feedback : Feedback}
    {opts : LowerOptions} (h : lower h₀ (unitAt us r) feedback opts = .ok G) :
    (unitAt us r).Checked := by
  unfold unitAt at *
  cases hr : us[r]? with
  | some u => exact hu.checked hr
  | none =>
    -- there is no instruction that the analysis of an empty unit could begin with
    rw [hr] at h
    obtain ⟨G₀, h, -⟩ := except_bind_ok.mp h
    unfold lowerPlain at h
    dsimp only at h
    split at h
    · cases h
    · obtain ⟨a, ha, -⟩ := except_bind_ok.mp h
      cases ha

/-! ## Landings -/

/-- How a run of native code leaves a frame: one that is suspended rests, and one that is
    handed over stands between two instructions. -/
def NativeExit.Fits (u : CodeUnit) (f : Frame) : NativeExit → Prop
  | .done e => f.Leaves u e
  | .bail _ => f.Stands u

namespace Threaded

/-- A landing fits a frame: a block is there, or the frame is left as it may be. -/
def Landing.Fits (u : CodeUnit) (G : Graph) (f : Frame) : Landing → Prop
  | .block b => b < G.blocks.size ∧ f.Fits u
  | .exit e => f.Leaves u e
  | .bail _ => f.Stands u

theorem land_guides (hf : Faithful u h₀ most G) :
    Guides (.validated us stops u) (·.Stands u) (land G) (fun l f => l.Fits u G f) E := by
  intro s hm hs
  rw [land_apply]
  cases hb : G.blockAt? s.frame.ip with
  | some b => exact ⟨hm, (Graph.blockAt?_eq_some hf.numbered hb).1, hs.toFits⟩
  | none => exact ⟨hm, hs⟩

theorem unwindTo_guides (hf : Faithful u h₀ most G) (p : Pending) :
    Guides (.validated us stops u) (fun f => f.Fits u ∧ (Flow.unwind p).Lands u f) (unwindTo G p)
      (fun l f => l.Fits u G f) (Frame.Ends us stops u) := by
  refine (dispatchUnwind_guides p _).andThen fun exit => ?_
  cases exit with
  | some exit => exact .ret fun _ hf => hf
  | none => exact (land_guides hf).strengthen fun _ hf => Frame.Sent.stands hf

/-- The flow out of a block is followed to where it lands. -/
theorem follow_guides (hf : Faithful u h₀ most G) (flow : Flow) :
    Guides (.validated us stops u) (fun f => f.Fits u ∧ flow.Lands u f) (follow G flow)
      (fun l f => l.Fits u G f) (Frame.Ends us stops u) := by
  cases flow with
  | next => exact (land_guides hf).strengthen fun _ hf => ⟨hf.1, .inl hf.2⟩
  | yield_ v => exact .ret fun _ hf => ⟨hf.1, hf.2⟩
  | unwind p => exact unwindTo_guides hf p
  | raise exc fresh =>
    exact ((beginRaise_guides exc fresh _).andThen fun p => unwindTo_guides hf p).strengthen
      fun _ hf => hf.1
  | jump target =>
    refine Guides.andThen (Q := fun _ => (·.Stands u)) (Guides.change fun f hf => ?_)
      fun _ => land_guides hf
    exact ⟨hf.1.at target, .inl (.inl hf.2)⟩

/-! ## Ways out -/

/-- The flow of the last primitive may be followed from inside its instruction. -/
theorem followed_guides (hf : Faithful u h₀ most G) (flow : Flow) :
    Guides (.validated us stops u) (fun f => f.Within u i ∧ flow.Lands u f) (follow G flow)
      (fun l f => l.Fits u G f) (Frame.Ends us stops u) :=
  (follow_guides hf flow).strengthen fun _ h => ⟨h.1.toFits, h.2⟩

/-- The last primitive of a block leads to a block, or its flow is followed. -/
theorem last_guides (hf : Faithful u h₀ most G) (hi : Accepted us u i)
    (hg : g.Safe (.validated us stops u)) {p : Primitive} (hp : p ∈ i.prims) {k : Nat}
    {after : Flow → FrameExec Landing}
    (next : (∃ s t, caught (Primitive.run g ⟨i.ip, k⟩ false p) s = .ok .next t) →
      Guides (.validated us stops u) (·.Within u i) (after .next) (fun l f => l.Fits u G f)
        (Frame.Ends us stops u))
    (jump : ∀ target, (u.instrAt? target).isSome → Guides (.validated us stops u) (·.Within u i)
      (after (.jump target)) (fun l f => l.Fits u G f) (Frame.Ends us stops u))
    (yields : ∀ v, after (.yield_ v) = follow G (.yield_ v))
    (raises : ∀ exc fresh, after (.raise exc fresh) = follow G (.raise exc fresh))
    (unwinds : ∀ p, after (.unwind p) = follow G (.unwind p)) :
    Guides (.validated us stops u) (·.Within u i)
      (caught (Primitive.run g ⟨i.ip, k⟩ false p) >>= after) (fun l f => l.Fits u G f)
      (Frame.Ends us stops u) := by
  refine Guides.andThen ((hi.run hg hp ⟨i.ip, k⟩ false).caught.answered.mono (fun _ h => h)
    (fun _ _ h => h) fun _ _ h => .inl h.2) fun flow => ?_
  cases flow with
  | next =>
    rintro s hm ⟨⟨hs, -⟩, s', m, h⟩
    exact next ⟨s', _, h⟩ s hm hs
  | jump target =>
    rintro s hm ⟨⟨hs, there⟩, -⟩
    exact jump target there s hm hs
  | yield_ v =>
    rw [yields]
    exact (followed_guides hf _).strengthen fun _ h => h.1
  | raise exc fresh =>
    rw [raises]
    exact (followed_guides hf _).strengthen fun _ h => h.1
  | unwind p =>
    rw [unwinds]
    exact (followed_guides hf _).strengthen fun _ h => h.1

/-- Behind an instruction the frame stands at a boundary. -/
theorem stands_of_within (hi : Accepted us u i) {f : Frame} (hf : f.Within u i) : f.Stands u :=
  ⟨hf.toFits, .inl (hi.boundary hf)⟩

/-- The way out of a block, before the last primitive of an instruction. -/
theorem leaveBlock_guides (hf : Faithful u h₀ most G) (hi : Accepted us u i)
    (hg : g.Safe (.validated us stops u)) {k : Nat} {p : Primitive} (hp : p ∈ i.prims)
    {t : Terminator} (ht : Exits u (G.Leads u most) i k p t) :
    Guides (.validated us stops u) (·.Within u i) (leaveBlock g G t) (fun l f => l.Fits u G f)
      (Frame.Ends us stops u) := by
  have block {b : BlockId} {ip : Nat} (hb : G.Leads u most ip b) :
      Guides (.validated us stops u) (·.Within u i) (pure (.block b) : FrameExec Landing)
        (fun l f => l.Fits u G f) (Frame.Ends us stops u) :=
    .ret fun f h => ⟨hb.1, h.toFits⟩
  have followNext : Guides (.validated us stops u) (·.Within u i) (follow G .next)
      (fun l f => l.Fits u G f) (Frame.Ends us stops u) :=
    (followed_guides hf .next).strengthen fun _ h => ⟨h, hi.boundary h⟩
  have followJump (target : Nat) (there : (u.instrAt? target).isSome) :
      Guides (.validated us stops u) (·.Within u i) (follow G (.jump target))
        (fun l f => l.Fits u G f) (Frame.Ends us stops u) :=
    (followed_guides hf (.jump target)).strengthen fun _ h => ⟨h, there⟩
  cases ht with
  | goto _ _ hb => exact block hb
  | branch _ _ taken fallthrough =>
    exact last_guides hf hi hg hp (fun _ => block fallthrough) (fun _ _ => block taken)
      (fun _ => rfl) (fun _ _ => rfl) fun _ => rfl
  | forIter _ body exit =>
    exact last_guides hf hi hg hp (fun _ => block body) (fun _ _ => block exit) (fun _ => rfl)
      (fun _ _ => rfl) fun _ => rfl
  | speculate _ _ hb =>
    refine last_guides hf hi hg hp (fun _ => .ret fun f h => ?_)
      (fun target there => .ite (fun _ => block hb) fun _ => ?_) (fun _ => rfl)
      (fun _ _ => rfl) fun _ => rfl
    · split
      · exact stands_of_within hi h
      · exact ⟨hb.1, h.toFits⟩
    · exact Guides.andThen (Q := fun _ => (·.Stands u))
        (Guides.change fun f h => ⟨h.toFits.at target, .inl (.inl there)⟩) fun _ =>
          .ret fun _ h => h
  | return_ | yield_ =>
    exact last_guides hf hi hg hp (fun _ => followNext) followJump (fun _ => rfl)
      (fun _ _ => rfl) fun _ => rfl
  | unwind hb =>
    exact last_guides hf hi hg hp (fun _ => block hb) followJump (fun _ => rfl)
      (fun _ _ => rfl) fun _ => rfl
  | unwindOff off =>
    refine last_guides hf hi hg hp (fun ran => ?_) followJump (fun _ => rfl)
      (fun _ _ => rfl) fun _ => rfl
    -- control runs off the end of the code
    obtain ⟨s, t, h⟩ := ran
    obtain ⟨-, absent⟩ := off.resolve_left fun hu => Primitive.isUnwinding_next hu h
    refine Guides.frameThen fun f hf => .fail fun f' hf' => .inr ?_
    rw [hf']
    exact ⟨rfl, hf.toFits, .inl ((hi.boundary hf).eq_size (by rw [hf.ip]; exact absent))⟩

/-! ## Operations -/

/-- The frame is inside its instruction after an operation, whose flow may be followed. -/
def Passed.Lands (u : CodeUnit) (f : Frame) : Passed → Prop
  | .next => True
  | .bail _ => False
  | .flow out => out.Lands u f

/-- The operation leaves the frame inside its instruction, and its flow may be followed. -/
abbrev Passes (us : Array CodeUnit) (stops : Nat → Prop) (u : CodeUnit) (i : Instr)
    (x : FrameExec Passed) : Prop :=
  Guides (.validated us stops u) (·.Within u i) x (fun p f => f.Within u i ∧ p.Lands u f)
    fun e f => f.Within u i ∧ (Regime.validated us stops u).permits e

theorem passed_passes {x : FrameExec Flow} (hx : Directs us stops u i x) :
    Passes us stops u i (passed x) := by
  refine Guides.andThen hx.caught fun flow => ?_
  cases flow with
  | next => exact .ret fun _ h => ⟨h.1, trivial⟩
  | _ => exact .ret fun _ h => h

theorem callDirect_passes (hi : Accepted us u i) (hg : g.Safe (.validated us stops u))
    (site : Site) {arg : Nat} (hp : ⟨.callFunction, some arg⟩ ∈ i.prims) (expected : Value) :
    Passes us stops u i (callDirect g site arg expected) := by
  have called (args : List Value) : Directs us stops u i
      (do push (← onMachine (g.call expected args [])); return .next) :=
    .of (Q := (· = .next)) ((Inside.machine (hg.call expected args [])).andThen fun v _ =>
      (Inside.push v).andThen fun _ _ => .ret rfl) fun _ hq _ hf => by
        rw [hq]
        exact hi.boundary hf
  have chosen (direct : Bool) : Passes us stops u i (if direct then do
        let args ← popN (Primitive.positionalCount arg)
        let _ ← pop
        passed do push (← onMachine (g.call expected args [])); return .next
      else passed (Primitive.run g site false ⟨.callFunction, some arg⟩)) :=
    .ite (fun _ => (Inside.brings (popN_brings (k := Primitive.positionalCount arg) (m := 0)
      (Nat.zero_add _).symm)).into fun args _ => Inside.pop.into fun _ _ =>
        passed_passes (called args))
      fun _ => passed_passes (hi.run hg hp site false)
  exact .ite (fun _ => chosen false) fun _ => (Inside.peek _).into fun v _ => chosen _

theorem intBinary_passes (hi : Accepted us u i) (hg : g.Safe (.validated us stops u))
    (site : Site) {op : Opcode} (hp : ⟨op, none⟩ ∈ i.prims) :
    Passes us stops u i (intBinary g site op) := by
  have plain := passed_passes (hi.run hg hp site false)
  unfold intBinary
  split
  · exact plain
  · refine (Inside.peek 1).into fun a _ => (Inside.peek 0).into fun b _ => ?_
    split
    · exact (Inside.brings (popN_brings (k := 2) (m := 0) rfl)).into fun _ _ =>
        (Inside.push _).into fun _ _ => .ret fun _ h => ⟨h, trivial⟩
    · exact plain

/-- An operation that performs a primitive goes on as the primitive may. -/
theorem runOp_passes (hi : Accepted us u i) (hg : g.Safe (.validated us stops u)) {k : Nat}
    {op : Op} {p : Primitive} (hp : p ∈ i.prims) (h : Performs G.Sets i op p) :
    Passes us stops u i (runOp g G ⟨⟨i.ip, k⟩, op⟩) := by
  cases h with
  | prim => exact passed_passes (hi.run hg hp ⟨i.ip, k⟩ false)
  | call => exact callDirect_passes hi hg _ hp _
  | int => exact intBinary_passes hi hg _ hp
  | @setup _ kind target h _ ht hset =>
    have there : (u.instrAt? (G.handler h).targetIp).isSome := by
      rw [show (G.handler h).targetIp = target from hset.2.2]
      exact hi.checked.target_isSome hi.starts hp ht
    exact (Inside.pushBlock _ there).into fun _ _ => .ret fun _ h => ⟨h, trivial⟩

end Threaded

/-! ## Blocks -/

/-- The frame is where running a block stands in the unit. -/
def Place.Holds (us : Array CodeUnit) (u : CodeUnit) (f : Frame) : Place → Prop
  | .start ip => f.Rests u ∧ f.ip = ip
  | .inside i _ ps => Accepted us u i ∧ (∀ p ∈ ps, p ∈ i.prims) ∧ f.Within u i

open Threaded

/-- An instruction starts where a block does that begins one. -/
theorem At.starts_of_begins {sets : HandlerId → Nat → BlockKind → Nat → Prop}
    {assumptions : Array Assumption} {leads : Nat → BlockId → Prop} {ip : Nat} {is : List Inst}
    {t : Terminator} (h : At u sets assumptions leads (.start ip) is t) (hb : 0 < begins is) :
    (u.instrAt? ip).isSome := by
  generalize hp : Place.start ip = place at h
  induction h with
  | poll _ ih =>
    cases hp
    exact ih hb rfl
  | begin hi =>
    cases hp
    exact Option.isSome_of_eq_some hi
  | cached hi =>
    cases hp
    exact Option.isSome_of_eq_some hi
  | fall | trap => exact absurd hb (Nat.lt_irrefl 0)
  | _ => cases hp

/-- **The rest of a block** goes on as the instructions of the unit may. -/
theorem At.guides (hu : Built us) {r : Ref} (hf : Faithful (unitAt us r) h₀ most G)
    (hg : g.Safe (.validated us stops (unitAt us r)))
    (hpoll : ∀ kind, Safe (.validated us stops (unitAt us r)) (g.poll kind))
    {place : Place} {is : List Inst} {t : Terminator}
    (h : At (unitAt us r) G.Sets G.assumptions (G.Leads (unitAt us r) most) place is t) :
    Guides (.validated us stops (unitAt us r)) (fun f => place.Holds us (unitAt us r) f)
      (rest g G is t) (fun l f => l.Fits (unitAt us r) G f)
      (Frame.Ends us stops (unitAt us r)) := by
  induction h with
  | @poll ip kind is t _ ih =>
    rw [rest_cons]
    have polled : Guides (.validated us stops (unitAt us r))
        (fun f => (Place.start ip).Holds us (unitAt us r) f) (runOp g G ⟨⟨ip, 0⟩, .safePoint kind⟩)
        (fun passed f => (Place.start ip).Holds us (unitAt us r) f ∧ ∀ flow, passed ≠ .flow flow)
        (Frame.Ends us stops (unitAt us r)) := by
      refine (Guides.machine (hpoll kind) (fun _ _ h => h) fun _ _ he _ => .inl he).andThen
        fun reason => ?_
      cases reason with
      | none => exact .ret fun _ h => ⟨h, fun _ => Passed.noConfusion⟩
      | some reason => exact .ret fun _ h => ⟨h, fun _ => Passed.noConfusion⟩
    refine polled.andThen fun passed => ?_
    cases passed with
    | next => exact ih.strengthen fun _ h => h.1
    | bail reason => exact .ret fun _ h => h.1.1.stands
    | flow flow => exact fun _ _ h => absurd rfl (h.2 flow)
  | @begin ip i is t found _ ih =>
    rintro s hm ⟨hs, rfl⟩
    have hi := Accepted.of hu found
    rw [rest_begin]
    refine ih _ hm ⟨hi, fun _ hp => hp, ⟨hs.code, hs.locals, hs.cells, hs.handlers⟩, ?_, rfl⟩
    rw [hi.checked.ip_eq found]
  | @cached ip i name ps a assumed is t found hprims ha _ _ ih =>
    rintro s hm ⟨hs, rfl⟩
    have hi := Accepted.of hu found
    rw [rest_guard]
    split
    · rw [rest_begin, rest_cached g _ ha]
      refine ih _ hm ⟨hi, fun p hp => ?_, ⟨hs.code, hs.locals, hs.cells, hs.handlers⟩, ?_, rfl⟩
      · rw [hprims]
        exact List.mem_cons_of_mem _ hp
      · rw [hi.checked.ip_eq found]
        rfl
    · exact ⟨hm, hs.stands⟩
  | @op i k p ps op is t hperf _ ih =>
    rw [rest_cons]
    refine fun s hm hs => ?_
    obtain ⟨hi, hps, hs⟩ := hs
    refine Guides.andThen ((runOp_passes hi hg (hps p List.mem_cons_self) hperf).mono (fun _ h => h)
      (fun _ _ h => h) fun _ _ h => .inl h.2) (fun passed => ?_) s hm hs
    cases passed with
    | next =>
      exact ih.strengthen fun _ h => ⟨hi, fun p hp => hps p (List.mem_cons_of_mem _ hp), h.1⟩
    | bail reason => exact fun _ _ h => h.2.elim
    | flow flow =>
      exact followed_guides hf flow
  | next _ ih =>
    rintro s hm ⟨hi, -, hs⟩
    exact ih s hm ⟨⟨hs.toFits, hi.boundary hs⟩, hs.ip⟩
  | exit hx =>
    rintro s hm ⟨hi, hps, hs⟩
    exact leaveBlock_guides hf hi hg (hps _ List.mem_cons_self) hx s hm hs
  | fall hl => exact .ret fun f h => ⟨hl.1, h.1.toFits⟩
  | trap absent =>
    refine .fail fun f h => .inr ?_
    obtain ⟨hs, rfl⟩ := h
    exact ⟨rfl, hs.toFits, .inl (hs.boundary.eq_size absent)⟩

/-! ## Runs -/

section

variable (hu : Built us) {r : Ref} (hf : Faithful (unitAt us r) h₀ most G)
  (hg : g.Safe (.validated us stops (unitAt us r)))
  (hpoll : ∀ kind, Safe (.validated us stops (unitAt us r)) (g.poll kind))

include hu hf hg hpoll

/-- A block is run from its start. -/
theorem runBlock_guides {b : BlockId} (hb : b < G.blocks.size) :
    Guides (.validated us stops (unitAt us r)) (·.Fits (unitAt us r)) (runBlock g G b)
      (fun l f => l.Fits (unitAt us r) G f) (Frame.Ends us stops (unitAt us r)) := by
  have starts := (hf.code b hb).starts_of_begins (hf.opens b hb)
  rw [runBlock_eq]
  refine Guides.andThen (Guides.change fun f h => ?_) fun _ =>
    (hf.code b hb).guides hu hf hg hpoll
  exact ⟨⟨h.at _, .inl starts⟩, rfl⟩

theorem runFrom_guides (n : Nat) (l : Landing) :
    Guides (.validated us stops (unitAt us r)) (fun f => l.Fits (unitAt us r) G f)
      (runFrom g G n l) (fun e f => e.Fits (unitAt us r) f)
      (Frame.Ends us stops (unitAt us r)) := by
  induction n generalizing l with
  | zero =>
    cases l with
    | block b => exact .fail fun _ _ => .inl Regime.Closed.outOfFuel
    | exit e => exact .ret fun _ h => h
    | bail reason => exact .ret fun _ h => h
  | succ n ih =>
    cases l with
    | block b =>
      rintro s hm ⟨hb, hs⟩
      exact ((runBlock_guides hu hf hg hpoll hb).andThen ih) s hm hs
    | exit e => exact .ret fun _ h => h
    | bail reason => exact .ret fun _ h => h

omit hu hg hpoll in
theorem enterThreaded_guides (entry : Entry) :
    Guides (.validated us stops (unitAt us r)) (·.Enters (unitAt us r) entry)
      (Threaded.enter G entry) (fun l f => l.Fits (unitAt us r) G f)
      (Frame.Ends us stops (unitAt us r)) := by
  cases entry with
  | call => exact .ret fun _ h => ⟨hf.entry.1, h.toFits⟩
  | continue_ => exact land_guides hf
  | throw_ exc =>
    exact (follow_guides hf (.raise exc true)).strengthen fun _ h => ⟨h.toFits, trivial⟩
  | resume v =>
    refine Guides.andThen (Q := fun _ => (·.Rests (unitAt us r))) ?_ fun _ =>
      Guides.frameThen fun f hs => ?_
    · exact Guides.brings (push_brings (k := 0) v) (fun f => Regime.validated_spares 0 f)
        (fun _ h => h.toFits) (fun _ f f' kept h => ⟨kept.fits h.toFits, kept.ip ▸ h.boundary⟩)
        fun _ _ _ _ he _ => .inl he
    · split
      · rename_i b hb
        obtain ⟨lasti, -, hb⟩ := Option.bind_eq_some_iff.mp hb
        obtain ⟨i, -, leads⟩ := hf.resume lasti b (mem_of_lookup hb)
        exact .ret fun f' h => ⟨leads.1, h ▸ hs.toFits⟩
      · exact (land_guides hf).strengthen fun f' h => h ▸ hs.stands

/-- A run of threaded code leaves the frame as it may. -/
theorem runThreaded_guides (entry : Entry) :
    Guides (.validated us stops (unitAt us r)) (·.Enters (unitAt us r) entry)
      (runThreaded g G entry) (fun e f => e.Fits (unitAt us r) f)
      (Frame.Ends us stops (unitAt us r)) :=
  (enterThreaded_guides hf entry).andThen fun l => runFrom_guides hu hf hg hpoll g.fuel l

end

end TieredMachine
