/-
  Cached globals.

  A guard compares the identities and the versions of two namespaces with those that the
  unit was lowered for.  As long as versions do not go round, namespaces with the versions
  that they had are the namespaces that they were, so what is cached is what the full
  lookup finds.  A guard that fails has left the instruction alone.

  * `Namespace.Edit`, `Namespace.Later`: histories of a namespace;
  * `Emission.Rests`, `lower_rests`: what the assumptions of a graph are about;
  * `At.guarded`, `At.load_guarded`: guards and the loads that they guard;
  * `Threaded.runOps_ip`: where operations leave the frame;
  * **`cached_globals_sound`**: guards that pass, and guards that fail.
-/
import TieredMachine.Proofs.Native.Guarded
import TieredMachine.Proofs.Native.Threaded

namespace TieredMachine

variable {u : CodeUnit} {G : Graph} {guest : Guest} {s t : Activation} {b : BlockId}

/-! ## Histories of a namespace -/

namespace Namespace

/-- A change to a namespace, whoever makes it. -/
inductive Edit where
  | set (name : String) (v : Value)
  | erase (name : String)

variable {n n' k : Namespace}

/-- The namespace with a change. -/
def edit (n : Namespace) : Edit → Namespace
  | .set name v => n.set name v
  | .erase name => n.erase name

/-- The namespace after changes, in order. -/
def edits (n : Namespace) (es : List Edit) : Namespace := es.foldl edit n

theorem evolves_edit (n : Namespace) (e : Edit) : n.Evolves (n.edit e) := by
  cases e with
  | set name v => exact n.evolves_set name v
  | erase name => exact n.evolves_erase name

theorem changes_edit_le (n : Namespace) (e : Edit) : (n.edit e).changes ≤ n.changes + 1 := by
  cases e with
  | set name v => exact Nat.le_refl _
  | erase name =>
    show (n.erase name).changes ≤ _
    unfold erase
    split
    · exact Nat.le_refl _
    · exact Nat.le_succ _

theorem evolves_edits (n : Namespace) (es : List Edit) : n.Evolves (n.edits es) := by
  induction es generalizing n with
  | nil => exact .refl n
  | cons e es ih => exact (n.evolves_edit e).trans (ih (n.edit e))

theorem changes_edits_le (n : Namespace) (es : List Edit) :
    (n.edits es).changes ≤ n.changes + es.length := by
  induction es generalizing n with
  | nil => exact Nat.le_refl _
  | cons e es ih =>
    have first := n.changes_edit_le e
    have rest := ih (n.edit e)
    show ((n.edit e).edits es).changes ≤ _
    rw [List.length_cons]
    omega

/-- The namespace later on: a history of changes led there, fewer of which took effect than
    versions can tell apart. -/
structure Later (n n' : Namespace) : Prop where
  history : ∃ es, n' = n.edits es
  few : n'.changes < n.changes + UInt64.size

/-- A history that is short enough leads to a later namespace. -/
theorem later_edits (n : Namespace) (es : List Edit) (h : es.length < UInt64.size) :
    n.Later (n.edits es) :=
  ⟨⟨es, rfl⟩, Nat.lt_of_le_of_lt (n.changes_edits_le es) (Nat.add_lt_add_left h _)⟩

/-- A namespace with the version that it had is the namespace that it was. -/
theorem Later.eq_of_version (h : n.Later n') (same : n'.version = n.version) : n' = n := by
  obtain ⟨⟨es, rfl⟩, few⟩ := h
  obtain ⟨grows, still⟩ := n.evolves_edits es
  refine (still ?_).symm
  have words := congrArg UInt64.toNat same
  simp only [version, UInt64.toNat_ofNat', UInt64.size] at words few
  omega

end Namespace

/-! ## The namespaces that assumptions are about -/

namespace Lowering

/-- The assumptions are about the two namespaces that the unit is lowered for. -/
def Emission.Rests (opts : LowerOptions) (e : Emission) : Prop :=
  ∀ a ∈ e.assumptions, opts.spaces = some (a.versions.globals, a.versions.builtins)

namespace Context

variable {c : Context} {i : Instr} {e e' : Emission}

theorem assumeGlobal_rests {index : Nat} {o : Option Nat} (he : e.Rests c.opts)
    (h : c.assumeGlobal index e = .ok (o, e')) : e'.Rests c.opts := by
  have added {assumed : Assumption}
      (spaces : c.opts.spaces = some (assumed.versions.globals, assumed.versions.builtins))
      (h : (do
        set { e with assumptions := e.assumptions.push assumed }
        return some e.assumptions.size : Emit (Option Nat)) e = .ok (o, e')) :
      e'.Rests c.opts := by
    cases h
    intro a ha
    obtain ha | rfl := Array.mem_push.mp ha
    · exact he a ha
    · exact spaces
  have nothing {o' : Option Nat} (h : (pure o' : Emit (Option Nat)) e = .ok (o, e')) :
      e'.Rests c.opts := by
    cases h
    exact he
  generalize hx : c.assumeGlobal index = x at h
  unfold assumeGlobal at hx
  split at hx
  · rename_i globals builtins spaces
    split at hx
    · rename_i name hname
      rw [← hx] at h
      obtain ⟨_, _, hget, h⟩ := emit_bind_ok.mp h
      cases hget
      dsimp only at h
      cases known : e.assumptions.findIdx? (·.name == name) with
      | some a =>
        rw [known] at h
        exact nothing h
      | none =>
        rw [known] at h
        dsimp only at h
        cases own : (c.heap.space globals).get? name with
        | some v =>
          rw [own] at h
          exact added spaces h
        | none =>
          cases builtin : (c.heap.space builtins).get? name with
          | some v =>
            rw [own, builtin] at h
            exact added spaces h
          | none =>
            rw [own, builtin] at h
            exact nothing h
    · exact nothing (hx ▸ h)
  · exact nothing (hx ▸ h)

/-- What is assumed of a name that is found among the builtins. -/
theorem assumeGlobal_builtin {gs bs : Ref} {index : Nat} {name : String} {v : Value}
    (spaces : c.opts.spaces = some (gs, bs)) (named : c.unit.names[index]? = some name)
    (new : e.assumptions.findIdx? (·.name == name) = none)
    (own : (c.heap.space gs).get? name = none)
    (builtin : (c.heap.space bs).get? name = some v) :
    c.assumeGlobal index e = .ok (some e.assumptions.size, { e with
      assumptions := e.assumptions.push ⟨name, v, true,
        ⟨gs, (c.heap.space gs).version, bs, (c.heap.space bs).version⟩⟩ }) := by
  unfold assumeGlobal
  rw [spaces]
  dsimp only
  rw [named]
  refine emit_bind_ok.mpr ⟨e, e, rfl, ?_⟩
  rw [new]
  dsimp only
  rw [own, builtin]
  rfl

theorem cachedLoad?_rests {o : Option Nat} (he : e.Rests c.opts)
    (h : c.cachedLoad? i e = .ok (o, e')) : e'.Rests c.opts := by
  generalize hx : c.cachedLoad? i = x at h
  unfold cachedLoad? at hx
  split at hx
  · split at hx
    · exact assumeGlobal_rests he (hx ▸ h)
    · subst hx
      cases h
      exact he
  · subst hx
    cases h
    exact he

/-- The operations of an instruction add no assumption. -/
theorem emitPrims_assumptions (hc : c.Sound) (hi : c.unit.instrAt? i.ip = some i)
    {cached : Option Nat} {ps : List Primitive} (hps : ps ⊆ i.prims) {k : Nat}
    {out : List Inst × Option Terminator} (h : c.emitPrims cached i k ps e = .ok (out, e')) :
    e'.assumptions = e.assumptions := by
  induction ps generalizing k out e with
  | nil =>
    cases h
    rfl
  | cons p ps ih =>
    unfold emitPrims at h
    dsimp only at h
    split at h
    · obtain ⟨way, e₁, ended, h⟩ := emit_bind_ok.mp h
      cases h
      exact (terminatorOf_ok hc hi (hps List.mem_cons_self) ended).2.1
    · obtain ⟨op, e₁, first, h⟩ := emit_bind_ok.mp h
      obtain ⟨rest, e₂, more, h⟩ := emit_bind_ok.mp h
      cases h
      rw [ih (fun q hq => hps (List.mem_cons_of_mem p hq)) more, (operationOf_makes first).2.1]

theorem emitInstr_rests (hc : c.Sound) (hi : c.unit.instrAt? i.ip = some i) (he : e.Rests c.opts)
    {out : List Inst × Option Terminator} (h : c.emitInstr i e = .ok (out, e')) :
    e'.Rests c.opts := by
  unfold emitInstr at h
  dsimp only at h
  obtain ⟨cached, e₁, hcached, h⟩ := emit_bind_ok.mp h
  obtain ⟨_, _, hget, h⟩ := emit_bind_ok.mp h
  cases hget
  obtain ⟨prims, e₂, hprims, h⟩ := emit_bind_ok.mp h
  cases h
  have kept := emitPrims_assumptions hc hi (List.Subset.refl _) hprims
  intro a ha
  exact cachedLoad?_rests he hcached a (kept ▸ ha)

theorem emitBlocks_rests (hc : c.Sound) (a : Analysis) {is : List Instr}
    (his : ∀ i ∈ is, c.unit.instrAt? i.ip = some i) {current : Option GraphBlock}
    {done blocks : Array GraphBlock} (he : e.Rests c.opts)
    (h : c.emitBlocks a is current done e = .ok (blocks, e')) : e'.Rests c.opts := by
  induction is generalizing current done e with
  | nil =>
    cases h
    exact he
  | cons i is ih =>
    have later : ∀ j ∈ is, c.unit.instrAt? j.ip = some j :=
      fun j hj => his j (List.mem_cons_of_mem i hj)
    have fill {b : GraphBlock} {done : Array GraphBlock}
        (h : c.fill a i is b done e = .ok (blocks, e')) : e'.Rests c.opts := by
      obtain ⟨⟨insts, term⟩, e₁, emitted, h⟩ := emit_bind_ok.mp h
      have rests := emitInstr_rests hc (his i List.mem_cons_self) he emitted
      cases term with
      | some way => exact ih later rests h
      | none => exact ih later rests h
    obtain ⟨-, -, hf⟩ | ⟨-, _, _, -, -, _, -, hf⟩ | ⟨-, _, -, hf⟩ := emitBlocks_cons h
    · exact fill hf
    · exact fill hf
    · exact fill hf

end Context

end Lowering

open Lowering in
/-- The assumptions of a graph are about the two namespaces that the unit is lowered for. -/
theorem lower_rests (hu : u.Checked) {h : Heap} {feedback : Feedback} {opts : LowerOptions}
    (hG : lower h u feedback opts = .ok G) :
    ∀ a ∈ G.assumptions, opts.spaces = some (a.versions.globals, a.versions.builtins) := by
  obtain ⟨g, hg, out⟩ := except_bind_ok.mp hG
  have wf := (lowerPlain_transcribes hu hg).wellFormed
  have same : G.assumptions = g.assumptions := by
    cases out
    split
    · exact Graph.cleanUp_assumptions wf
    · rfl
  rw [same]
  unfold lowerPlain at hg
  dsimp only at hg
  split at hg
  · cases hg
  obtain ⟨a, ha, hg⟩ := except_bind_ok.mp hg
  obtain ⟨hs, placed, hg⟩ := except_bind_ok.mp hg
  obtain ⟨⟨blocks, e⟩, emitted, hg⟩ := except_bind_ok.mp hg
  cases hg
  exact Context.emitBlocks_rests (c := ⟨h, u, feedback, opts, leaders u, backedgeTargets u, hs⟩)
    ⟨hu, placedHandlers_setUp hu (hu.analyze_settled ha).setUp placed⟩ a
    (fun i hi => hu.instrAt?_of_mem hi) (fun _ none => absurd none (Array.not_mem_empty _)) emitted

/-! ## Guards and the loads that they guard -/

/-- The index at which an operation leaves a frame that stands at another. -/
def Inst.ipAfter (ip : Nat) (x : Inst) : Nat :=
  match x.op with
  | .begin_ next => next
  | _ => ip

/-- The index at which a frame stands at a place. -/
def Place.ip : Place → Nat
  | start ip => ip
  | inside i _ _ => i.next

/-- Of the instruction at an index nothing is done but polls. -/
def Untouched (ip : Nat) (is : List Inst) : Prop :=
  ∀ x ∈ is, x.site.ip < ip ∨ ∃ kind, x.op = .safePoint kind

theorem Untouched.cons {ip : Nat} {x : Inst} {is : List Inst} (h : Untouched ip is)
    (hx : x.site.ip < ip ∨ ∃ kind, x.op = .safePoint kind) : Untouched ip (x :: is) := by
  intro y hy
  obtain rfl | hy := List.mem_cons.mp hy
  · exact hx
  · exact h y hy

/-- A guard stands before an instruction that loads a global name first, and what is loaded is
    the binding whose versions are compared. -/
structure Guards (u : CodeUnit) (assumptions : Array Assumption) (site : Site) (v : Versions)
    (i : Instr) (n a : Nat) (assumed : Assumption) : Prop where
  instr : u.instrAt? site.ip = some i
  loads : i.prims.head? = some ⟨.loadGlobal, some n⟩
  name : u.names[n]? = some assumed.name
  cached : assumptions[a]? = some assumed
  versions : v = assumed.versions

section

variable {sets : HandlerId → Nat → BlockKind → Nat → Prop} {assumptions : Array Assumption}
  {leads : Nat → BlockId → Prop} {place : Place} {is : List Inst} {way : Terminator}

/-- What performs a primitive leaves the frame where it is. -/
theorem Performs.ipAfter {i : Instr} {op : Op} {p : Primitive} (h : Performs sets i op p)
    (site : Site) (ip : Nat) : Inst.ipAfter ip ⟨site, op⟩ = ip := by
  cases h <;> rfl

/-- Wherever a block has a guard, the frame stands there at the start of the load that is
    guarded. -/
theorem At.guarded (hu : u.Checked) (h : At u sets assumptions leads place is way)
    {pre post : List Inst} {site : Site} {v : Versions}
    (cut : is = pre ++ ⟨site, .guardGlobals v⟩ :: post) :
    (∃ i n a assumed more, Guards u assumptions site v i n a assumed ∧
      post = ⟨site, .begin_ i.next⟩ :: ⟨site, .loadCached a⟩ :: more) ∧
    place.ip ≤ site.ip ∧ pre.foldl Inst.ipAfter place.ip = site.ip ∧ Untouched site.ip pre := by
  induction h generalizing pre with
  | @poll ip kind is way _ ih =>
    cases pre with
    | nil => cases cut
    | cons x pre =>
      rw [List.cons_append, List.cons.injEq] at cut
      obtain ⟨rfl, cut⟩ := cut
      obtain ⟨guards, le, stands, quiet⟩ := ih cut
      exact ⟨guards, le, stands, quiet.cons (.inr ⟨kind, rfl⟩)⟩
  | @begin ip i is way hi _ ih =>
    cases pre with
    | nil => cases cut
    | cons x pre =>
      rw [List.cons_append, List.cons.injEq] at cut
      obtain ⟨rfl, cut⟩ := cut
      obtain ⟨guards, le, stands, quiet⟩ := ih cut
      have ahead : ip < site.ip := hu.ip_eq hi ▸ Nat.lt_of_lt_of_le (Code.Instr.ip_lt_next i) le
      exact ⟨guards, Nat.le_of_lt ahead, stands, quiet.cons (.inl ahead)⟩
  | @cached ip i n ps a assumed is way hi hp ha hn _ ih =>
    -- the guard is this one, or comes after the load that this one guards
    obtain _ | ⟨x, _ | ⟨y, _ | ⟨z, pre⟩⟩⟩ := pre
    · cases cut
      exact ⟨⟨i, n, a, assumed, is, ⟨hi, by rw [hp]; rfl, hn, ha, rfl⟩, rfl⟩, Nat.le_refl _, rfl,
        fun _ none => absurd none List.not_mem_nil⟩
    · cases cut
    · cases cut
    · simp only [List.cons_append, List.cons.injEq] at cut
      obtain ⟨rfl, rfl, rfl, cut⟩ := cut
      obtain ⟨guards, le, stands, quiet⟩ := ih cut
      have ahead : ip < site.ip := hu.ip_eq hi ▸ Nat.lt_of_lt_of_le (Code.Instr.ip_lt_next i) le
      exact ⟨guards, Nat.le_of_lt ahead, stands,
        ((quiet.cons (.inl ahead)).cons (.inl ahead)).cons (.inl ahead)⟩
  | @op i k p ps op is way performs _ ih =>
    cases pre with
    | nil =>
      cases cut
      cases performs
    | cons x pre =>
      rw [List.cons_append, List.cons.injEq] at cut
      obtain ⟨rfl, cut⟩ := cut
      obtain ⟨guards, le, stands, quiet⟩ := ih cut
      have ahead : i.ip < site.ip := Nat.lt_of_lt_of_le (Code.Instr.ip_lt_next i) le
      refine ⟨guards, le, ?_, quiet.cons (.inl ahead)⟩
      rw [List.foldl_cons, performs.ipAfter]
      exact stands
  | next _ ih => exact ih cut
  | exit | fall | trap => cases pre <;> cases cut

/-- Wherever a block has a cached load, a guard comes before it. -/
theorem At.load_guarded (h : At u sets assumptions leads place is way) {pre post : List Inst}
    {site : Site} {a : Nat} (cut : is = pre ++ ⟨site, .loadCached a⟩ :: post) :
    ∃ before v next, pre = before ++ [⟨site, .guardGlobals v⟩, ⟨site, .begin_ next⟩] := by
  have after {pre : List Inst} (x : Inst)
      (h : ∃ before v next, pre = before ++ [⟨site, .guardGlobals v⟩, ⟨site, .begin_ next⟩]) :
      ∃ before v next, x :: pre = before ++ [⟨site, .guardGlobals v⟩, ⟨site, .begin_ next⟩] := by
    obtain ⟨before, v, next, rfl⟩ := h
    exact ⟨x :: before, v, next, rfl⟩
  induction h generalizing pre with
  | poll _ ih | begin _ _ ih =>
    cases pre with
    | nil => cases cut
    | cons x pre => exact after x (ih (List.cons.inj cut).2)
  | op performs _ ih =>
    cases pre with
    | nil =>
      cases cut
      cases performs
    | cons x pre => exact after x (ih (List.cons.inj cut).2)
  | @cached ip i n ps a' assumed is way _ _ _ _ _ ih =>
    obtain _ | ⟨x, _ | ⟨y, _ | ⟨z, pre⟩⟩⟩ := pre
    · cases cut
    · cases cut
    · cases cut
      exact ⟨[], assumed.versions, i.next, rfl⟩
    · simp only [List.cons_append, List.cons.injEq] at cut
      obtain ⟨rfl, rfl, rfl, cut⟩ := cut
      exact after _ (after _ (after _ (ih cut)))
  | next _ ih => exact ih cut
  | exit | fall | trap => cases pre <;> cases cut

end

/-! ## Where operations leave the frame -/

namespace Threaded

theorem runOp_ip {x : Inst} (hx : x.op.Suits u G) (h : runOp guest G x s = .ok .next t) :
    t.frame.ip = x.ipAfter s.frame.ip := by
  have stays {Q : Passed → Prop} (sheds : Sheds (runOp guest G x) Q) :
      t.frame.ip = s.frame.ip := by
    have after := sheds s
    rw [h] at after
    exact after.1.ip
  obtain ⟨site, op⟩ := x
  cases op with
  | safePoint kind =>
    exact stays ((Sheds.machine _).andThen fun reason _ => by
      cases reason <;> exact .ret (Q := fun _ => True) trivial)
  | guardGlobals v =>
    exact stays (.frameThen fun f => (Sheds.machine _).andThen fun h _ =>
      .ret (Q := fun _ => True) trivial)
  | begin_ next =>
    cases h
    rfl
  | prim p => exact stays (primitive_sheds (u := u) site (hx.plain p rfl))
  | pushHandler hd =>
    obtain ⟨_, s₁, pushed, h⟩ := bind_ok.mp h
    cases h
    rw [pushBlock_eq_take, take_apply] at pushed
    unfold Frame.pushBlock at pushed
    by_cases full : maxBlocks ≤ s.frame.blocks.length
    · rw [if_pos full] at pushed
      cases pushed
    · rw [if_neg full] at pushed
      cases pushed
      rfl
  | loadCached a =>
    exact stays ((Sheds.push _).andThen fun _ _ => .ret (Q := fun _ => True) trivial)
  | callDirect arg expected => exact stays (callDirect_sheds (u := u) site arg expected)
  | intBinary op => exact stays (intBinary_sheds (u := u) site (hx.plain _ rfl))

theorem runOps_ip {is : List Inst} (his : ∀ x ∈ is, x.op.Suits u G)
    (h : runOps guest G is s = .ok .next t) : t.frame.ip = is.foldl Inst.ipAfter s.frame.ip := by
  induction is generalizing s with
  | nil =>
    cases h
    rfl
  | cons x is ih =>
    obtain ⟨first, s₁, hx, h⟩ := bind_ok.mp h
    cases first with
    | next =>
      rw [List.foldl_cons, ← runOp_ip (his x List.mem_cons_self) hx]
      exact ih (fun y hy => his y (List.mem_cons_of_mem x hy)) h
    | bail | flow => cases h

/-- The operations before others are done. -/
theorem rest_append {pre : List Inst} (done : runOps guest G pre s = .ok .next t)
    (is : List Inst) (way : Terminator) :
    rest guest G (pre ++ is) way s = rest guest G is way t := by
  induction pre generalizing s with
  | nil =>
    cases done
    rfl
  | cons x pre ih =>
    obtain ⟨first, s₁, hx, done⟩ := bind_ok.mp done
    cases first with
    | next =>
      rw [List.cons_append, rest_cons, bind_apply, hx]
      exact ih done
    | bail | flow => cases done

/-- A guard that fails leaves the block as it finds the frame. -/
theorem runBlock_guard {pre post : List Inst} {site : Site} {v : Versions}
    (cut : (G.block b).insts = pre ++ ⟨site, .guardGlobals v⟩ :: post)
    (done : runOps guest G pre (entered G b t) = .ok .next s)
    (fails : ¬guardHolds s.machine.heap s.frame v) :
    runBlock guest G b t = .ok (.bail .fatalGuardFail) s := by
  show rest guest G (G.block b).insts (G.block b).term (entered G b t) = _
  rw [cut, rest_append done, rest_guard, if_neg fails]

/-- A run that comes to a block which bails does so too, unless the fuel is spent before. -/
theorem Reaches.bails {l : Landing} {s₀ s₁ : Activation} {reason : BailReason}
    (h : Reaches guest G l s₀ b s₁) (bail : runBlock guest G b s₁ = .ok (.bail reason) s)
    (n : Nat) : runFrom guest G n l s₀ = .ok (.bail reason) s ∨
      ∃ t, runFrom guest G n l s₀ = .error .outOfFuel t := by
  induction h generalizing n with
  | here =>
    cases n with
    | zero => exact .inr ⟨_, rfl⟩
    | succ n =>
      left
      rw [runFrom, bind_apply, bail]
      cases n <;> rfl
  | step block _ ih =>
    cases n with
    | zero => exact .inr ⟨_, rfl⟩
    | succ n =>
      rw [runFrom, bind_apply, block]
      exact ih bail n

theorem Visits.bails {entry : Entry} {s₀ s₁ : Activation} {reason : BailReason}
    (h : Visits guest G entry s₀ b s₁) (bail : runBlock guest G b s₁ = .ok (.bail reason) s) :
    runThreaded guest G entry s₀ = .ok (.bail reason) s ∨
      ∃ t, runThreaded guest G entry s₀ = .error .outOfFuel t := by
  obtain ⟨l, s', entered, reaches⟩ := h
  unfold runThreaded
  rw [bind_apply, entered]
  exact reaches.bails bail guest.fuel

/-- What is guarded begins the instruction and pushes what is cached. -/
theorem runOps_guarded {site : Site} {v : Versions} {i : Instr} {a : Nat} {assumed : Assumption}
    (hi : i.ip = site.ip) (cached : G.assumptions[a]? = some assumed)
    (passes : guardHolds s.machine.heap s.frame v) :
    runOps guest G [⟨site, .guardGlobals v⟩, ⟨site, .begin_ i.next⟩, ⟨site, .loadCached a⟩] s =
      .ok .next ⟨(s.frame.begin i).push assumed.value, s.machine⟩ := by
  have guarded : runOp guest G ⟨site, .guardGlobals v⟩ s = .ok .next s := by
    show EStateM.Result.ok (if guardHolds s.machine.heap s.frame v then Passed.next
      else .bail .fatalGuardFail) s = _
    rw [if_pos passes]
  have pushed (s : Activation) : runOp guest G ⟨site, .loadCached a⟩ s =
      .ok .next ⟨s.frame.push assumed.value, s.machine⟩ := by
    show (push ((G.assumptions[a]?.map (·.value)).getD .none) >>= fun _ => pure Passed.next :
      FrameExec Passed) s = _
    rw [cached]
    rfl
  have begun : runOp guest G ⟨site, .begin_ i.next⟩ s = .ok .next ⟨s.frame.begin i, s.machine⟩ := by
    rw [Frame.begin, hi]
    rfl
  rw [runOps, bind_apply, guarded]
  dsimp only
  rw [runOps, bind_apply, begun]
  dsimp only
  rw [runOps, bind_apply, pushed]
  rfl

end Threaded

/-! ## Soundness -/

/-- A binding is still there where a guard passes, if the namespaces are later ones. -/
theorem Assumption.HoldsIn.current {a : Assumption} {h h' : Heap} (holds : a.HoldsIn h)
    (globals : (h.space a.versions.globals).Later (h'.space a.versions.globals))
    (builtins : (h.space a.versions.builtins).Later (h'.space a.versions.builtins)) {f : Frame}
    (passes : Threaded.guardHolds h' f a.versions) :
    h'.lookupGlobal? f.globals f.builtins a.name = some a.value := by
  simp only [Threaded.guardHolds, Bool.and_eq_true, decide_eq_true_eq] at passes
  obtain ⟨⟨⟨ownGlobals, globalsVersion⟩, ownBuiltins⟩, builtinsVersion⟩ := passes
  obtain ⟨bound, globalsThen, builtinsThen⟩ := holds
  rw [ownGlobals] at globalsVersion
  rw [ownBuiltins] at builtinsVersion
  unfold Heap.lookupGlobal? at bound ⊢
  rw [ownGlobals, ownBuiltins, globals.eq_of_version (globalsVersion.trans globalsThen),
    builtins.eq_of_version (builtinsVersion.trans builtinsThen)]
  exact bound

/-- **Cached globals are sound.**  In the graph of a unit that is lowered for two namespaces,
    every cached load comes after a guard, and every guard stands before the load of a global
    name.  Where it passes, in any frame and after any histories of the two namespaces, what
    is pushed is what the full lookup of the name finds there.  Where it fails, the frame is
    handed over as the guard finds it, at the start of the load, of which nothing is done. -/
theorem cached_globals_sound {id : Ref} {parts : CodeParts}
    (hu : CodeUnit.ofParts id parts = .ok u) {h₀ : Heap} {feedback : Feedback}
    {opts : LowerOptions} {gs bs : Ref} (spaces : opts.spaces = some (gs, bs))
    (hG : lower h₀ u feedback opts = .ok G) :
    (∀ b pre site a post, (G.block b).insts = pre ++ ⟨site, .loadCached a⟩ :: post →
      ∃ before v next, pre = before ++ [⟨site, .guardGlobals v⟩, ⟨site, .begin_ next⟩]) ∧
    ∀ b pre site v post, (G.block b).insts = pre ++ ⟨site, .guardGlobals v⟩ :: post →
      ∃ i n name a more, u.instrAt? site.ip = some i ∧
        i.prims.head? = some ⟨.loadGlobal, some n⟩ ∧ u.names[n]? = some name ∧
        v.globals = gs ∧ v.builtins = bs ∧
        post = ⟨site, .begin_ i.next⟩ :: ⟨site, .loadCached a⟩ :: more ∧ Untouched site.ip pre ∧
        (∀ (guest : Guest) (s : Activation),
          (h₀.space gs).Later (s.machine.heap.space gs) →
          (h₀.space bs).Later (s.machine.heap.space bs) →
          Threaded.guardHolds s.machine.heap s.frame v →
          ∃ value,
            s.machine.heap.lookupGlobal? s.frame.globals s.frame.builtins name = some value ∧
            Threaded.runOps guest G
              [⟨site, .guardGlobals v⟩, ⟨site, .begin_ i.next⟩, ⟨site, .loadCached a⟩] s =
              .ok .next ⟨(s.frame.begin i).push value, s.machine⟩ ∧
            (s.frame.code = u →
              Primitive.run guest site false ⟨.loadGlobal, some n⟩
                ⟨s.frame.begin i, s.machine⟩ =
                .ok .next ⟨(s.frame.begin i).push value, s.machine⟩)) ∧
        ∀ (guest : Guest) (s t : Activation),
          Threaded.runOps guest G pre (Threaded.entered G b t) = .ok .next s →
          ¬Threaded.guardHolds s.machine.heap s.frame v →
          s.frame.ip = i.ip ∧ Threaded.runBlock guest G b t = .ok (.bail .fatalGuardFail) s ∧
            ∀ entry s₀, Threaded.Visits guest G entry s₀ b t →
              runThreaded guest G entry s₀ = .ok (.bail .fatalGuardFail) s ∨
                ∃ s', runThreaded guest G entry s₀ = .error .outOfFuel s' := by
  have checked := (CodeUnit.checked_of_ofParts hu).2
  obtain ⟨most, -, faithful⟩ := lower_faithful checked hG
  have ops := (lower_serves checked hG).ops
  have inside {b : BlockId} {x : Inst} {pre post : List Inst}
      (cut : (G.block b).insts = pre ++ x :: post) : b < G.blocks.size := by
    by_contra out
    rw [Graph.block_of_le (Nat.le_of_not_lt out)] at cut
    exact absurd cut (by cases pre <;> nofun)
  refine ⟨fun b pre site a post cut => (faithful.code b (inside cut)).load_guarded cut,
    fun b pre site v post cut => ?_⟩
  obtain ⟨⟨i, n, a, assumed, more, guards, follows⟩, -, stands, untouched⟩ :=
    (faithful.code b (inside cut)).guarded checked cut
  obtain ⟨instr, loads, name, cached, rfl⟩ := guards
  have mem : assumed ∈ G.assumptions := Array.mem_of_getElem? cached
  have about : assumed.versions.globals = gs ∧ assumed.versions.builtins = bs := by
    have := lower_rests checked hG assumed mem
    rw [spaces] at this
    cases this
    exact ⟨rfl, rfl⟩
  have here : i.ip = site.ip := checked.ip_eq instr
  refine ⟨i, n, assumed.name, a, more, instr, loads, name, about.1, about.2, follows, untouched,
    fun guest s globals builtins passes => ?_, fun guest s t done fails => ?_⟩
  · have found : s.machine.heap.lookupGlobal? s.frame.globals s.frame.builtins assumed.name =
        some assumed.value := by
      refine (faithful.assumed assumed mem).current ?_ ?_ passes
      · rwa [about.1]
      · rwa [about.2]
    exact ⟨assumed.value, found, Threaded.runOps_guarded here cached passes,
      fun code => Primitive.run_loadGlobal guest site false (by rw [← code] at name; exact name)
        found⟩
  · have bails := Threaded.runBlock_guard cut done fails
    refine ⟨?_, bails, fun entry s₀ visits => visits.bails bails⟩
    have before : ∀ x ∈ pre, x.op.Suits u G := fun x hx =>
      ops b x (by rw [cut]; exact List.mem_append_left _ hx)
    rw [Threaded.runOps_ip before done, here]
    exact stands

/-! ### A built-in name that is shadowed -/

/-- The parts of a unit that returns what a global name is bound to. -/
def CodeParts.answer : CodeParts where
  name := "answer"
  words := #[.ofOpcode .loadGlobal, ⟨1⟩, .ofOpcode .returnValue]
  names := #["answer"]

/-- The unit with these parts. -/
def CodeUnit.answer : CodeUnit := (CodeUnit.ofParts 0 .answer).toOption.getD default

/-- Empty globals, and builtins with a binding of the name. -/
def Heap.answering : Heap where
  units := #[.answer]
  namespaces := #[{}, ({} : Namespace).set "answer" (.int 42)]

/-- Then globals with a binding of the name, too. -/
def Heap.shadowed : Heap where
  units := #[.answer]
  namespaces := #[({} : Namespace).set "answer" (.int 7), ({} : Namespace).set "answer" (.int 42)]

/-- Both namespaces may be relied on. -/
def LowerOptions.caching : LowerOptions := { level := .o2, spaces := some (0, 1) }

/-- The binding that is found. -/
def Assumption.answer : Assumption := ⟨"answer", .int 42, true, ⟨0, 0, 1, 1⟩⟩

/-- The graph of the unit. -/
def Graph.answer : Graph where
  name := "answer"
  unit := 0
  level := .o2
  blocks := #[{
    id := 0
    start := 0
    insts := [⟨⟨0, 0⟩, .safePoint .line⟩, ⟨⟨0, 0⟩, .guardGlobals ⟨0, 0, 1, 1⟩⟩,
      ⟨⟨0, 0⟩, .begin_ 2⟩, ⟨⟨0, 0⟩, .loadCached 0⟩, ⟨⟨2, 0⟩, .begin_ 3⟩]
    term := .return_ ⟨2, 0⟩
    depth := some 0
    handlers := [] }]
  entry := 0
  handlers := #[]
  resume := []
  assumptions := #[.answer]
  consts := #[]
  maxDepth := 1
  argcount := 0
  localCount := 0
  isGenerator := false
  mixedSites := 0

/-- A new frame of the unit, and a heap. -/
def Activation.answer (h : Heap) : Activation where
  frame := { code := .answer, globals := 0, builtins := 1, locals := #[], cells := #[] }
  machine :=
    { config := {}
      heap := h
      units := #[{}]
      globals := 0
      builtins := 1
      bailError := false
      control := .never
      timer := .new 1 false }

/-- What emission reads. -/
def Lowering.Context.answer : Context where
  heap := .answering
  unit := .answer
  feedback := {}
  opts := .caching
  leaders := Lowering.leaders .answer
  backedges := backedgeTargets .answer
  handlers := #[]

theorem CodeUnit.answer_instrs : CodeUnit.answer.instrs.toList =
    [⟨0, .loadGlobal, [⟨.loadGlobal, some 0⟩], 0⟩,
      ⟨2, .returnValue, [⟨.returnValue, none⟩], 0⟩] := by
  with_unfolding_all rfl

open Lowering in
/-- The load is emitted with its guard. -/
theorem Lowering.Context.answer_load :
    Context.answer.emitInstr ⟨0, .loadGlobal, [⟨.loadGlobal, some 0⟩], 0⟩ {} =
      .ok (((Graph.answer.block 0).insts.take 4, none), ⟨#[.answer], [], 0⟩) := by
  have own : (Heap.answering.space 0).get? "answer" = none := by
    simp [Heap.space, Heap.answering, Namespace.get?]
  have builtin : (Heap.answering.space 1).get? "answer" = some (.int 42) := by
    simp [Heap.space, Heap.answering, Namespace.get?, Namespace.set]
  have assumed : Context.answer.assumeGlobal 0 {} = .ok (some 0, ⟨#[.answer], [], 0⟩) :=
    assumeGlobal_builtin rfl (by decide +kernel) (by simp) own builtin
  exact emit_bind_ok.mpr ⟨some 0, _, assumed, by with_unfolding_all rfl⟩

open Lowering in
theorem lower_answer : lower .answering .answer {} .caching = .ok .answer := by
  have opens : Context.answer.leaders.contains 0 := by decide +kernel
  have goesOn : ¬Context.answer.leaders.contains 2 := by decide +kernel
  have ends (e : Emission) :
      Context.answer.emitInstr ⟨2, .returnValue, [⟨.returnValue, none⟩], 0⟩ e =
        .ok (([⟨⟨2, 0⟩, .begin_ 3⟩], some (.return_ ⟨2, 0⟩)), e) := by
    with_unfolding_all rfl
  obtain ⟨a, analyzed, placed, depth, entry⟩ : ∃ a, CodeUnit.answer.analyze = .ok a ∧
      placedHandlers .answer (leaders .answer) a = .ok #[] ∧ a.maxDepth = 1 ∧
      a.entryAt? .answer 0 = some ⟨0, [], false⟩ :=
    ⟨_, by with_unfolding_all rfl, by with_unfolding_all rfl, by with_unfolding_all rfl,
      by with_unfolding_all rfl⟩
  have filled : Context.answer.fill a ⟨0, .loadGlobal, [⟨.loadGlobal, some 0⟩], 0⟩
      [⟨2, .returnValue, [⟨.returnValue, none⟩], 0⟩] (Context.answer.newBlock a 0
        ⟨0, .loadGlobal, [⟨.loadGlobal, some 0⟩], 0⟩) #[] {} =
      .ok (Graph.answer.blocks, ⟨#[.answer], [], 0⟩) := by
    refine emit_bind_ok.mpr ⟨_, _, Context.answer_load, ?_⟩
    dsimp only
    rw [Context.emitBlocks, if_neg goesOn]
    refine emit_bind_ok.mpr ⟨_, _, rfl, emit_bind_ok.mpr ⟨_, _, ends _, ?_⟩⟩
    dsimp only
    rw [Context.emitBlocks, Context.newBlock]
    dsimp only
    have entry : a.entryAt? Context.answer.unit 0 = some ⟨0, [], false⟩ := entry
    rw [entry]
    rfl
  have emitted : Context.answer.emitBlocks a CodeUnit.answer.instrs.toList none #[] {} =
      .ok (Graph.answer.blocks, ⟨#[.answer], [], 0⟩) := by
    rw [CodeUnit.answer_instrs, Context.emitBlocks]
    dsimp only
    rw [if_pos opens]
    exact filled
  have plain : lowerPlain .answering .answer {} .caching = .ok .answer := by
    unfold lowerPlain
    rw [if_neg (by decide)]
    refine except_bind_ok.mpr ⟨a, analyzed, except_bind_ok.mpr ⟨_, placed,
      except_bind_ok.mpr ⟨_, emitted, ?_⟩⟩⟩
    rw [depth]
    with_unfolding_all rfl
  refine except_bind_ok.mpr ⟨.answer, plain, ?_⟩
  with_unfolding_all rfl

/-- The answer is cached; once the name is shadowed, the frame is handed over. -/
theorem cached_globals_sound_of_shadowing :
    CodeUnit.ofParts 0 .answer = .ok .answer ∧ LowerOptions.caching.spaces = some (0, 1) ∧
    lower .answering .answer {} .caching = .ok .answer ∧
    (∃ value, Heap.answering.lookupGlobal? 0 1 "answer" = some value ∧
      Threaded.runOps (guestWithin 9) .answer
        [⟨⟨0, 0⟩, .guardGlobals ⟨0, 0, 1, 1⟩⟩, ⟨⟨0, 0⟩, .begin_ 2⟩, ⟨⟨0, 0⟩, .loadCached 0⟩]
        (.answer .answering) =
        .ok .next ⟨{ (Activation.answer .answering).frame with
          lasti := some 0, ip := 2, stack := [value] }, (Activation.answer .answering).machine⟩) ∧
    (Heap.answering.space 0).Later (Heap.shadowed.space 0) ∧
    ∃ s, s.frame.ip = 0 ∧ s.frame.lasti = none ∧
      Threaded.runBlock (guestWithin 9) .answer 0 (.answer .shadowed) =
        .ok (.bail .fatalGuardFail) s := by
  have built : CodeUnit.ofParts 0 .answer = .ok .answer := eq_ok_of_isSome (by decide +kernel)
  have cut : (Graph.answer.block 0).insts = [⟨⟨0, 0⟩, .safePoint .line⟩] ++
      ⟨⟨0, 0⟩, .guardGlobals ⟨0, 0, 1, 1⟩⟩ :: [⟨⟨0, 0⟩, .begin_ 2⟩, ⟨⟨0, 0⟩, .loadCached 0⟩,
        ⟨⟨2, 0⟩, .begin_ 3⟩] := rfl
  obtain ⟨i, n, name, a, more, instr, loads, named, -, -, follows, -, passes, fails⟩ :=
    (cached_globals_sound built rfl lower_answer).2 0 _ _ _ _ cut
  have first : CodeUnit.answer.instrAt? 0 =
      some ⟨0, .loadGlobal, [⟨.loadGlobal, some 0⟩], 0⟩ := by
    with_unfolding_all rfl
  obtain rfl := Option.some.inj (first.symm.trans instr)
  cases loads
  have answers : CodeUnit.answer.names[0]? = some "answer" := by decide +kernel
  obtain rfl := Option.some.inj (answers.symm.trans named)
  cases follows
  have same (r : Ref) : (Heap.answering.space r).Later (Heap.answering.space r) :=
    (Heap.answering.space r).later_edits [] (by decide)
  obtain ⟨value, found, ran, -⟩ :=
    passes (guestWithin 9) (.answer .answering) (same 0) (same 1) (by decide +kernel)
  refine ⟨built, rfl, lower_answer, ⟨value, found, ran⟩,
    ?_, ?_⟩
  · exact (Heap.answering.space 0).later_edits [.set "answer" (.int 7)] (by decide)
  · obtain ⟨ip, bails, -⟩ := fails (guestWithin 9) (.answer .shadowed) (.answer .shadowed) rfl
      (by decide +kernel)
    exact ⟨_, ip, rfl, bails⟩

end TieredMachine
