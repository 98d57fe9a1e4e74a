/-
  The analysis of a unit comes to rest.

  The analysis only ever adds to what it knows: an entry that is not weak stays as it is,
  and a handler that is found stays found.  Its worklist holds every instruction whose
  entry changed since it was followed.  An entry changes at most twice, so the worklist is
  empty when the analysis ends, and the effects of every entry are in the entries.

  * `Handler.SetUp`: a handler that an instruction of the unit sets up;
  * `Analysis.Grows`: what the analysis adds;
  * `merge_grows`, `step_grows`: arrivals and instructions;
  * `analyze_settled`: the analysis of a unit.
-/
import TieredMachine.Graph.Depth
import TieredMachine.Proofs.Code.Unit

namespace TieredMachine

variable {u : CodeUnit}

/-- The handler is that of an instruction which sets up a block and does nothing else. -/
def Handler.SetUp (u : CodeUnit) (h : Handler) : Prop :=
  ∃ i p, u.instrAt? h.setupIp = some i ∧ i.prims = [p] ∧ p.op.blockKind? = some h.kind ∧
    p.target? i.next = some h.targetIp

/-- Whether the primitive is no part of a superinstruction. -/
def Opcode.standsAlone (op : Opcode) : Bool :=
  op.blockKind?.isSome || op == .withCleanup || op == .yieldValue

theorem Opcode.primitives_of_standsAlone {op q : Opcode} (hq : q ∈ op.primitives)
    (h : q.standsAlone) : op.primitives = [q] := by
  have alone : op.primitives.all fun q => !q.standsAlone || op.primitives == [q] := by
    cases op <;> rfl
  have := List.all_eq_true.mp alone q hq
  simpa [h] using this

/-- A primitive that stands alone is all of its instruction. -/
theorem CodeUnit.Checked.alone (hu : u.Checked) {ip : Nat} {i : Instr}
    (hi : u.instrAt? ip = some i) {ps : List Primitive} (hps : ps <:+ i.prims) {p : Primitive}
    (hp : p ∈ ps) (h : p.op.standsAlone) : ps = [p] := by
  have hops := (hu.primitives hi).1
  have hq : p.op ∈ i.op.primitives := hops ▸ List.mem_map_of_mem (hps.subset hp)
  have one := congrArg List.length hops
  rw [Opcode.primitives_of_standsAlone hq h, List.length_map, List.length_singleton] at one
  have short := hps.length_le
  have nonempty := List.length_pos_of_mem hp
  obtain ⟨q, rfl⟩ := List.length_eq_one_iff.mp (show ps.length = 1 by omega)
  rw [List.mem_singleton.mp hp]

theorem CodeUnit.Checked.setup_alone (hu : u.Checked) {ip : Nat} {i : Instr}
    (hi : u.instrAt? ip = some i) {p : Primitive} (hp : p ∈ i.prims)
    (h : p.op.blockKind?.isSome) : i.prims = [p] :=
  hu.alone hi List.suffix_rfl hp (by rw [Opcode.standsAlone, h]; rfl)

namespace Analysis

/-! ## Growth -/

/-- How often an entry may still change. -/
def slack : Option StackState → Nat
  | none => 2
  | some s => s.weak.toNat

/-- A bound on the instructions that are still to be followed. -/
def potential (a : Analysis) : Nat := a.worklist.length + (a.entries.toList.map slack).foldr (· + ·) 0

/-- A later analysis knows all that an earlier one knows. -/
structure Later (a a' : Analysis) : Prop where
  size : a'.entries.size = a.entries.size
  handlers : a.handlers.toList <+: a'.handlers.toList
  entries : ∀ (k : Nat) s, a.entries[k]?.join = some s →
    ∃ s', a'.entries[k]?.join = some s' ∧ (s.weak = false → s' = s)

theorem Later.refl (a : Analysis) : Later a a :=
  ⟨rfl, List.prefix_rfl, fun _ s h => ⟨s, h, fun _ => rfl⟩⟩

theorem Later.trans {a b c : Analysis} (h : Later a b) (h' : Later b c) : Later a c where
  size := h'.size.trans h.size
  handlers := h.handlers.trans h'.handlers
  entries k s hs := by
    obtain ⟨s₁, h₁, e₁⟩ := h.entries k s hs
    obtain ⟨s₂, h₂, e₂⟩ := h'.entries k s₁ h₁
    refine ⟨s₂, h₂, fun hw => ?_⟩
    have := e₁ hw
    subst this
    exact e₂ hw

/-- What following an instruction adds. -/
structure Grows (a a' : Analysis) : Prop extends Later a a' where
  /-- an instruction whose entry changed is to be followed -/
  noted : ∀ k : Nat, a'.entries[k]?.join = a.entries[k]?.join ∨ k ∈ a'.worklist
  kept : ∀ k ∈ a.worklist, k ∈ a'.worklist
  potential : a'.potential ≤ a.potential

namespace Grows

theorem refl (a : Analysis) : Grows a a :=
  ⟨.refl a, fun _ => .inl rfl, fun _ h => h, Nat.le_refl _⟩

theorem trans {a b c : Analysis} (h : Grows a b) (h' : Grows b c) : Grows a c where
  toLater := h.toLater.trans h'.toLater
  noted k := by
    rcases h'.noted k with hk | hk
    · rcases h.noted k with hk' | hk'
      · exact .inl (hk.trans hk')
      · exact .inr (h'.kept k hk')
    · exact .inr hk
  kept k hk := h'.kept k (h.kept k hk)
  potential := Nat.le_trans h'.potential h.potential

/-- A change of what was the greatest height so far. -/
theorem height (a : Analysis) (n : Nat) : Grows a { a with maxDepth := n } :=
  ⟨⟨rfl, List.prefix_rfl, fun _ s h => ⟨s, h, fun _ => rfl⟩⟩, fun _ => .inl rfl, fun _ h => h,
    Nat.le_refl _⟩

end Grows

theorem sum_set (l : List Nat) {i : Nat} (h : i < l.length) (x : Nat) :
    (l.set i x).foldr (· + ·) 0 + l[i] = l.foldr (· + ·) 0 + x := by
  induction l generalizing i with
  | nil => exact absurd h (Nat.not_lt_zero i)
  | cons y l ih =>
    cases i with
    | zero =>
      simp
      omega
    | succ i =>
      have := ih (Nat.lt_of_succ_lt_succ h)
      simp only [List.set_cons_succ, List.foldr_cons, List.getElem_cons_succ]
      omega

theorem sum_replicate (n x : Nat) : (List.replicate n x).foldr (· + ·) 0 = n * x := by
  induction n with
  | zero => simp
  | succ n ih => rw [List.replicate_succ, List.foldr_cons, ih, Nat.succ_mul, Nat.add_comm]

/-- A new entry uses up some slack. -/
theorem grows_accept (a : Analysis) {i : Nat} (hi : i < a.entries.size) {new : StackState}
    (h : a.entries[i]?.join = none ∨ ∃ old, a.entries[i]?.join = some old ∧ old.weak ∧ ¬new.weak) :
    Grows a { a with entries := a.entries.setIfInBounds i (some new), worklist := i :: a.worklist } := by
  have get (k : Nat) : (a.entries.setIfInBounds i (some new))[k]?.join =
      if k = i then some new else a.entries[k]?.join := by
    by_cases hk : k = i
    · subst hk
      simp [hi]
    · simp [hk, Ne.symm hk]
  refine ⟨⟨by simp, List.prefix_rfl, fun k s hs => ?_⟩, fun k => ?_,
    fun k hk => List.mem_cons_of_mem _ hk, ?_⟩
  · dsimp only
    rw [get]
    by_cases hk : k = i
    · subst hk
      rcases h with h | ⟨old, ho, hw, _⟩
      · rw [h] at hs
        cases hs
      · rw [ho] at hs
        cases hs
        exact ⟨new, if_pos rfl, fun h => absurd h (by simp [hw])⟩
    · exact ⟨s, by rw [if_neg hk, hs], fun _ => rfl⟩
  · dsimp only
    rw [get]
    by_cases hk : k = i
    · exact .inr (by rw [hk]; exact List.mem_cons_self)
    · exact .inl (if_neg hk)
  · have hlen : i < (a.entries.toList.map slack).length := by simpa using hi
    have hsum := sum_set (a.entries.toList.map slack) hlen (slack (some new))
    have less : slack (some new) + 1 ≤ (a.entries.toList.map slack)[i] := by
      have old : (a.entries.toList.map slack)[i] = slack a.entries[i]?.join := by
        simp [hi]
      rw [old]
      rcases h with h | ⟨s, hs, hw, hn⟩
      · rw [h]
        have := Bool.toNat_le new.weak
        simp only [slack]
        omega
      · rw [hs]
        unfold slack
        simp [hw, hn]
    unfold potential
    dsimp only
    rw [Array.toList_setIfInBounds, List.map_set, List.length_cons]
    omega

/-! ## Arrivals -/

/-- The entry of an instruction says all that an arrival says, unless that is weak. -/
def Arrived (u : CodeUnit) (ip : Nat) (new : StackState) (a : Analysis) : Prop :=
  ∃ s, a.entryAt? u ip = some s ∧ (new.weak = false → s = new)

theorem Arrived.later {ip : Nat} {new : StackState} {a a' : Analysis} (h : Arrived u ip new a)
    (hg : Later a a') : Arrived u ip new a' := by
  obtain ⟨s, hs, hw⟩ := h
  unfold entryAt? at hs
  obtain ⟨i, hi, hs⟩ := Option.bind_eq_some_iff.mp hs
  obtain ⟨s', hs', hw'⟩ := hg.entries i s hs
  refine ⟨s', ?_, fun h => ?_⟩
  · unfold entryAt?
    rw [hi]
    exact hs'
  · have := hw h
    subst this
    exact hw' h

/-- One more arrival. -/
theorem merge_grows {source ip : Nat} {new : StackState} {a a' : Analysis}
    (hu : u.Checked) (hs : a.entries.size = u.instrs.size)
    (h : a.merge u source ip new = .ok a') : Grows a a' ∧ Arrived u ip new a' := by
  unfold merge at h
  cases hi : u.instrOf[ip]?.join with
  | none =>
    rw [hi] at h
    cases h
  | some i =>
    rw [hi] at h
    dsimp only at h
    have hlt : i < a.entries.size := by
      obtain ⟨_, hi, _⟩ := hu.instrOf_eq_some.mp hi
      rw [hs]
      exact (Array.getElem?_eq_some_iff.mp hi).1
    have raised : Grows a { a with maxDepth := max a.maxDepth new.depth } := .height a _
    have accept (hold : a.entries[i]?.join = none ∨
        ∃ old, a.entries[i]?.join = some old ∧ old.weak ∧ ¬new.weak)
        (h : (.ok { a with
            maxDepth := max a.maxDepth new.depth
            entries := a.entries.setIfInBounds i (some new)
            worklist := i :: a.worklist } : Except CompileError Analysis) = .ok a') :
        Grows a a' ∧ Arrived u ip new a' := by
      cases h
      refine ⟨raised.trans (grows_accept { a with maxDepth := max a.maxDepth new.depth } hlt hold),
        new, ?_, fun _ => rfl⟩
      unfold entryAt?
      rw [hi]
      simp [hlt]
    cases hold : a.entries[i]?.join with
    | none =>
      rw [hold] at h
      exact accept (.inl hold) h
    | some old =>
      rw [hold] at h
      dsimp only at h
      split at h
      · rename_i hc
        cases h
        refine ⟨raised, old, ?_, fun hw => ?_⟩
        · unfold entryAt?
          rw [hi]
          exact hold
        · simp only [isCovered, hw, Bool.or_false, Bool.and_eq_true, decide_eq_true_eq,
            Bool.not_eq_true'] at hc
          obtain ⟨⟨hd, hh⟩, how⟩ := hc
          cases old
          cases new
          simp_all
      · rename_i hc
        split at h
        · rename_i how
          refine accept (.inr ⟨old, hold, how, fun hw => hc ?_⟩) h
          simp [isCovered, hw]
        · split at h <;> cases h

/-! ## Primitives and instructions -/

/-- A step adds to what the analysis knows, and finds handlers that are set up. -/
def Adds (u : CodeUnit) (a : Analysis) (x : Except CompileError (Analysis × Option StackState)) :
    Prop :=
  ∀ a' out, x = .ok (a', out) → Grows a a' ∧
    ((∀ h ∈ a.handlers, h.SetUp u) → ∀ h ∈ a'.handlers, h.SetUp u)

namespace Adds

variable {a : Analysis}

theorem nothing (out : Option StackState) : Adds u a (.ok (a, out)) := by
  intro a' out h
  cases h
  exact ⟨.refl a, fun h => h⟩

theorem check {β : Type} {x : Except CompileError β}
    {f : β → Except CompileError (Analysis × Option StackState)}
    (h : ∀ b, x = .ok b → Adds u a (f b)) : Adds u a (x >>= f) := by
  intro a' out hx
  obtain ⟨b, hb, hx⟩ := except_bind_ok.mp hx
  exact h b hb a' out hx

theorem merge_handlers {source ip : Nat} {new : StackState} {a a' : Analysis}
    (h : a.merge u source ip new = .ok a') : a'.handlers = a.handlers := by
  unfold Analysis.merge at h
  split at h
  · cases h
  · dsimp only at h
    split at h
    · cases h
      rfl
    · split at h
      · cases h
        rfl
      · split at h
        · cases h
          rfl
        · split at h <;> cases h

theorem merge (hu : u.Checked) (hs : a.entries.size = u.instrs.size) (source ip : Nat)
    (new : StackState) (out : Option StackState) :
    Adds u a (a.merge u source ip new >>= fun a => .ok (a, out)) := by
  intro a' out h
  obtain ⟨a₁, hm, h⟩ := except_bind_ok.mp h
  cases h
  exact ⟨(merge_grows hu hs hm).1, fun h => by rwa [merge_handlers hm]⟩

end Adds

theorem handlerFor_grows (h : Handler) (a : Analysis) : Grows a (a.handlerFor h).2 := by
  unfold handlerFor
  split
  · exact .refl a
  · exact ⟨⟨rfl, by simp, fun _ s h => ⟨s, h, fun _ => rfl⟩⟩, fun _ => .inl rfl, fun _ h => h,
      Nat.le_refl _⟩

theorem handlerFor_setUp {h : Handler} {a : Analysis} (hh : h.SetUp u)
    (ha : ∀ h ∈ a.handlers, h.SetUp u) : ∀ h' ∈ (a.handlerFor h).2.handlers, h'.SetUp u := by
  unfold handlerFor
  split
  · exact ha
  · intro h' hm
    rcases Array.mem_push.mp hm with hm | rfl
    · exact ha h' hm
    · exact hh

theorem targetOf_ok {ip target : Nat} {o : Option Nat} (h : targetOf ip o = .ok target) :
    o = some target := by
  unfold targetOf at h
  split at h <;> cases h
  rfl

theorem continueEdge_adds (hu : u.Checked) {a : Analysis}
    (hs : a.entries.size = u.instrs.size) (ip target : Nat) (e : StackState) :
    Adds u a (a.continueEdge u ip target e >>= fun a => .ok (a, none)) := by
  unfold continueEdge
  dsimp only
  split
  · exact .nothing _
  · exact .merge hu hs ip target _ none

/-- Following a setup adds its handler and what the handler starts with. -/
theorem setup_adds (hu : u.Checked) {a : Analysis} (hs : a.entries.size = u.instrs.size)
    {i : Instr} (hi : u.instrAt? i.ip = some i) {p : Primitive} (hp : p ∈ i.prims)
    (e : StackState) {kind : BlockKind} (hk : p.op.blockKind? = some kind) : Adds u a (do
      let target ← targetOf i.ip (p.target? i.next)
      if maxBlocks ≤ e.handlers.length then .error (.blockMismatch i.ip)
      let (h, a) := a.handlerFor ⟨kind, i.ip, target, 0, some e.depth, e.handlers.head?⟩
      let a ← a.merge u i.ip target { e with depth := e.depth + received kind }
      return (a, some { e with handlers := h :: e.handlers })) := by
  refine .check fun target ht => ?_
  dsimp only
  split
  · exact .check fun _ h => by cases h
  intro a' out h
  obtain ⟨a₁, hm, h⟩ := except_bind_ok.mp h
  cases h
  have grows := handlerFor_grows ⟨kind, i.ip, target, 0, some e.depth, e.handlers.head?⟩ a
  refine ⟨grows.trans (merge_grows hu (grows.size.trans hs) hm).1, fun ha => ?_⟩
  rw [Adds.merge_handlers hm]
  exact handlerFor_setUp ⟨i, p, hi, hu.setup_alone hi hp (by rw [hk]; rfl), hk,
    targetOf_ok ht⟩ ha

theorem stepPrimitive_adds (hu : u.Checked) {a : Analysis} (hs : a.entries.size = u.instrs.size)
    {i : Instr} (hi : u.instrAt? i.ip = some i) {p : Primitive} (hp : p ∈ i.prims)
    (e : StackState) : Adds u a (stepPrimitive u i.ip i.next p e a) := by
  have setup (kind : BlockKind) (hk : p.op.blockKind? = some kind) :=
    setup_adds hu hs hi hp e hk
  have merge := fun ip new out => Adds.merge hu hs i.ip ip new out
  unfold stepPrimitive
  dsimp only
  split
  case h_1 | h_2 | h_3 =>
    rename_i hop
    exact setup _ (by rw [hop]; rfl)
  case h_4 =>
    split
    · intro _ _ h
      cases h
    · exact .nothing _
  case h_13 =>
    split
    · exact .check fun _ h => by cases h
    · exact .check fun _ _ => .nothing _
  case h_15 => exact .check fun target _ => continueEdge_adds hu hs i.ip target e
  all_goals
    repeat (first | exact .nothing _ | exact merge _ _ _ | refine .check fun _ _ => ?_)

theorem stepPrimitives_adds (hu : u.Checked) {i : Instr} (hi : u.instrAt? i.ip = some i) :
    ∀ (ps : List Primitive), (∀ p ∈ ps, p ∈ i.prims) → ∀ (e : StackState) (a : Analysis),
      a.entries.size = u.instrs.size → Adds u a (stepPrimitives u i.ip i.next ps e a)
  | [], _, e, a, _ => .nothing (some e)
  | p :: ps, hps, e, a, hs => by
    intro a' out h
    unfold stepPrimitives at h
    obtain ⟨⟨a₁, out₁⟩, h₁, h⟩ := except_bind_ok.mp h
    obtain ⟨grows, setUp⟩ := stepPrimitive_adds hu hs hi (hps p List.mem_cons_self) e a₁ out₁ h₁
    cases out₁ with
    | none =>
      cases h
      exact ⟨grows, setUp⟩
    | some e₁ =>
      have raised := Grows.height a₁ (max a₁.maxDepth e₁.depth)
      obtain ⟨grows', setUp'⟩ := stepPrimitives_adds hu hi ps
        (fun p hp => hps p (List.mem_cons_of_mem _ hp)) e₁ _
        (raised.size.trans (grows.size.trans hs)) a' out h
      exact ⟨(grows.trans raised).trans grows', fun ha => setUp' (setUp ha)⟩

/-- An instruction that is followed adds to what the analysis knows. -/
theorem step_adds (hu : u.Checked) {i : Instr} (hi : u.instrAt? i.ip = some i) {e : StackState}
    {a a' : Analysis} (hs : a.entries.size = u.instrs.size) (h : step u i e a = .ok a') :
    Grows a a' ∧ ((∀ h ∈ a.handlers, h.SetUp u) → ∀ h ∈ a'.handlers, h.SetUp u) := by
  unfold step at h
  obtain ⟨⟨a₁, out⟩, h₁, h⟩ := except_bind_ok.mp h
  obtain ⟨grows, setUp⟩ := stepPrimitives_adds hu hi i.prims (fun _ h => h) e a hs a₁ out h₁
  cases out with
  | none =>
    cases h
    exact ⟨grows, setUp⟩
  | some e₁ =>
    dsimp only at h
    split at h
    · exact ⟨grows.trans (merge_grows hu (grows.size.trans hs) h).1, fun ha => by
        rw [Adds.merge_handlers h]
        exact setUp ha⟩
    · cases h
      exact ⟨grows, setUp⟩

/-! ## At rest -/

/-- The effects of an instruction are known. -/
def Followed (u : CodeUnit) (i : Instr) (e : StackState) (a : Analysis) : Prop :=
  ∃ a₁ a₂, step u i e a₁ = .ok a₂ ∧ a₁.entries.size = u.instrs.size ∧ Later a₁ a₂ ∧ Later a₂ a

/-- The effects of an instruction were followed from a state of knowledge that `P` holds of,
    and are known since. -/
def FollowedIn (P : Analysis → Prop) (u : CodeUnit) (i : Instr) (e : StackState) (a : Analysis) :
    Prop :=
  ∃ a₁ a₂, step u i e a₁ = .ok a₂ ∧ P a₁ ∧ a₁.entryAt? u i.ip = some e ∧ Later a₁ a₂ ∧ Later a₂ a

/-- `P` holds, and every entry is followed, or about to be. -/
structure Settling (P : Analysis → Prop) (u : CodeUnit) (a : Analysis) : Prop where
  holds : P a
  followed : ∀ (k : Nat) i e, u.instrs[k]? = some i → a.entries[k]?.join = some e →
    k ∈ a.worklist ∨ FollowedIn P u i e a

/-- What an analysis keeps while it follows instructions. -/
structure Kept (u : CodeUnit) (P : Analysis → Prop) : Prop where
  size : ∀ a, P a → a.entries.size = u.instrs.size
  pop : ∀ a ws, P a → P { a with worklist := ws }
  step : ∀ a a' i e, u.instrAt? i.ip = some i → a.entryAt? u i.ip = some e → P a →
    step u i e a = .ok a' → P a'

theorem run_settles (hu : u.Checked) {P : Analysis → Prop} (hP : Kept u P) (fuel : Nat)
    {a a' : Analysis} (ha : Settling P u a) (hf : a.potential ≤ fuel) (h : run u fuel a = .ok a') :
    Settling P u a' ∧ a'.worklist = [] := by
  induction fuel generalizing a with
  | zero =>
    cases h
    unfold potential at hf
    exact ⟨ha, List.eq_nil_of_length_eq_zero (by omega)⟩
  | succ fuel ih =>
    unfold run at h
    cases hw : a.worklist with
    | nil =>
      rw [hw] at h
      cases h
      exact ⟨ha, hw⟩
    | cons k rest =>
      rw [hw] at h
      dsimp only at h
      have less : potential { a with worklist := rest } ≤ fuel := by
        unfold potential at hf ⊢
        rw [hw, List.length_cons] at hf
        dsimp only
        omega
      have popped : Later a { a with worklist := rest } :=
        ⟨rfl, List.prefix_rfl, fun _ s h => ⟨s, h, fun _ => rfl⟩⟩
      have others : ∀ (l : Nat) i e, u.instrs[l]? = some i → a.entries[l]?.join = some e →
          l = k ∨ l ∈ rest ∨ FollowedIn P u i e { a with worklist := rest } := by
        intro l i e hi he
        rcases ha.followed l i e hi he with hl | ⟨a₁, a₂, h₁, h₂, h₃, h₄, h₅⟩
        · rw [hw] at hl
          rcases List.mem_cons.mp hl with rfl | hl
          · exact .inl rfl
          · exact .inr (.inl hl)
        · exact .inr (.inr ⟨a₁, a₂, h₁, h₂, h₃, h₄, h₅.trans popped⟩)
      split at h
      · rename_i i e hi he
        obtain ⟨a₁, h₁, h⟩ := except_bind_ok.mp h
        have at_i : u.instrAt? i.ip = some i :=
          hu.instrAt?_eq_some.mpr ⟨Array.mem_toList_iff.mpr (Array.mem_of_getElem? hi), rfl⟩
        have at_e : entryAt? u i.ip { a with worklist := rest } = some e := by
          unfold entryAt?
          rw [hu.instrOf_eq_some.mpr ⟨i, hi, rfl⟩]
          exact he
        have here := hP.pop a rest ha.holds
        obtain ⟨grows, -⟩ := step_adds hu at_i (a := { a with worklist := rest })
          (hP.size a ha.holds) h₁
        refine ih ⟨hP.step _ _ i e at_i at_e here h₁, fun l i' e' hi' he' => ?_⟩
          (Nat.le_trans grows.potential less) h
        rcases grows.noted l with hsame | hl
        · rw [hsame] at he'
          rcases others l i' e' hi' he' with rfl | hl | ⟨b₁, b₂, k₁, k₂, k₃, k₄, k₅⟩
          · rw [hi] at hi'
            rw [show a.entries[l]?.join = some e from he] at he'
            cases hi'
            cases he'
            exact .inr ⟨_, _, h₁, here, at_e, grows.toLater, .refl _⟩
          · exact .inl (grows.kept l hl)
          · exact .inr ⟨b₁, b₂, k₁, k₂, k₃, k₄, k₅.trans grows.toLater⟩
        · exact .inl hl
      · rename_i hno
        refine ih (a := { a with worklist := rest })
          ⟨hP.pop a rest ha.holds, fun l i' e' hi' he' => ?_⟩ less h
        rcases others l i' e' hi' he' with rfl | hl | hl
        · exact absurd he' (fun he => hno i' e' hi' he)
        · exact .inl hl
        · exact .inr hl

/-- The analysis of a unit is at rest. -/
structure Settled (u : CodeUnit) (a : Analysis) : Prop where
  setUp : ∀ h ∈ a.handlers, h.SetUp u
  start : a.entryAt? u 0 = some ⟨0, [], false⟩
  followed : ∀ ip i e, u.instrAt? ip = some i → a.entryAt? u ip = some e → Followed u i e a

/-- Control has arrived nowhere yet. -/
theorem replicate_none (n k : Nat) :
    (Array.replicate n (none : Option StackState))[k]?.join = none := by
  rw [Array.getElem?_replicate]
  split <;> rfl

end Analysis

open Analysis

/-- What the first arrival establishes and following instructions keeps holds of the whole
    analysis, and of every state that an instruction was followed from. -/
theorem CodeUnit.Checked.analyze_followed (hu : u.Checked) {P : Analysis → Prop} (hP : Kept u P)
    (hstart : ∀ a, merge u 0 0 ⟨0, [], false⟩ { entries := .replicate u.instrs.size none } = .ok a →
      P a) {a : Analysis} (h : u.analyze = .ok a) :
    P a ∧ ∀ ip i e, u.instrAt? ip = some i → a.entryAt? u ip = some e → FollowedIn P u i e a := by
  unfold analyze at h
  obtain ⟨a₁, hm, h⟩ := except_bind_ok.mp h
  obtain ⟨grows, -⟩ := merge_grows hu (by simp) hm
  have settling : Settling P u a₁ := by
    refine ⟨hstart a₁ hm, fun k i e _ he => ?_⟩
    rcases grows.noted k with hk | hk
    · rw [hk, replicate_none] at he
      cases he
    · exact .inl hk
  have fuel : a₁.potential ≤ 2 * u.instrs.size + 1 := by
    refine Nat.le_trans grows.potential ?_
    simp [potential, slack, sum_replicate, Nat.mul_comm]
  obtain ⟨settled, empty⟩ := run_settles hu hP _ settling fuel h
  refine ⟨settled.holds, fun ip i e hi he => ?_⟩
  unfold entryAt? at he
  obtain ⟨k, hk, he⟩ := Option.bind_eq_some_iff.mp he
  obtain ⟨i', hi', hip⟩ := hu.instrOf_eq_some.mp hk
  have same : i' = i := by
    have := hu.instrAt?_eq_some.mpr
      ⟨Array.mem_toList_iff.mpr (Array.mem_of_getElem? hi'), hip⟩
    exact Option.some.inj (this.symm.trans hi)
  rcases settled.followed k i' e hi' he with hk | hk
  · rw [empty] at hk
    exact absurd hk List.not_mem_nil
  · exact same ▸ hk

theorem CodeUnit.Checked.analyze_settled (hu : u.Checked) {a : Analysis}
    (h : u.analyze = .ok a) : Settled u a := by
  let P (a : Analysis) : Prop := a.entries.size = u.instrs.size ∧
    (∀ h ∈ a.handlers, h.SetUp u) ∧ Arrived u 0 ⟨0, [], false⟩ a
  have kept : Kept u P := by
    refine ⟨fun a ha => ha.1, fun a ws ha => ha, fun a a' i e hi _ ⟨size, setUp, start⟩ h => ?_⟩
    obtain ⟨grows, added⟩ := step_adds hu hi size h
    exact ⟨grows.size.trans size, added setUp, start.later grows.toLater⟩
  have first (a : Analysis) (hm : merge u 0 0 ⟨0, [], false⟩
      { entries := .replicate u.instrs.size none } = .ok a) : P a := by
    obtain ⟨grows, arrived⟩ := merge_grows hu (by simp) hm
    refine ⟨grows.size.trans (by simp), ?_, arrived⟩
    rw [Adds.merge_handlers hm]
    exact fun _ h => absurd h (Array.not_mem_empty _)
  obtain ⟨⟨-, setUp, s, hs, hw⟩, followed⟩ := hu.analyze_followed kept first h
  refine ⟨setUp, ?_, fun ip i e hi he => ?_⟩
  · rw [hs, hw rfl]
  · obtain ⟨a₁, a₂, h₁, h₂, -, h₄, h₅⟩ := followed ip i e hi he
    exact ⟨a₁, a₂, h₁, h₂.1, h₄, h₅⟩

end TieredMachine
