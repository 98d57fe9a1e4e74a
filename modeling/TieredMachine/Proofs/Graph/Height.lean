/-
  What the analysis knows about heights.

  In a unit without `END_FINALLY` control never arrives weakly.  Each entry is then set
  once, so a handler is recorded with the one height that its setup is reached with, and
  every handler in force is one that the analysis found before.

  * `Analysis.Steady`: entries and handlers that belong together;
  * `analyze_steady`: the analysis is steady at its end, and was whenever an instruction
    was followed.
-/
import TieredMachine.Proofs.Graph.Analysis

namespace TieredMachine

variable {u : CodeUnit}

/-- No instruction of the unit ends a `finally` clause. -/
def CodeUnit.NoEndFinally (u : CodeUnit) : Prop :=
  ∀ i ∈ u.instrs, ∀ p ∈ i.prims, p.op ≠ .endFinally

namespace Analysis

variable {a a' : Analysis} {e new : StackState} {i : Instr} {p : Primitive}

/-- Control arrives other than weakly, under handlers that the analysis found. -/
structure Knows (a : Analysis) (e : StackState) : Prop where
  strong : e.weak = false
  handlers : ∀ h ∈ e.handlers, h < a.handlers.size

theorem Knows.later (h : a.Knows e) (hl : Later a a') : a'.Knows e := by
  refine ⟨h.strong, fun k hk => Nat.lt_of_lt_of_le (h.handlers k hk) ?_⟩
  rw [← Array.length_toList, ← Array.length_toList]
  exact hl.handlers.length_le

/-- Entries and handlers that belong together. -/
structure Steady (u : CodeUnit) (a : Analysis) : Prop where
  size : a.entries.size = u.instrs.size
  setUp : ∀ h ∈ a.handlers, h.SetUp u
  known : ∀ (k : Nat) e, a.entries[k]?.join = some e → a.Knows e
  /-- a handler is recorded with the height that its setup is reached with -/
  level : ∀ h ∈ a.handlers, ∃ e, a.entryAt? u h.setupIp = some e ∧ h.depth = some e.depth
  high : ∀ (k : Nat) e, a.entries[k]?.join = some e → e.depth ≤ a.maxDepth

namespace Steady

theorem known_at (ha : Steady u a) {ip : Nat} (h : a.entryAt? u ip = some e) : a.Knows e := by
  obtain ⟨k, -, hk⟩ := Option.bind_eq_some_iff.mp h
  exact ha.known k e hk

theorem high_at (ha : Steady u a) {ip : Nat} (h : a.entryAt? u ip = some e) :
    e.depth ≤ a.maxDepth := by
  obtain ⟨k, -, hk⟩ := Option.bind_eq_some_iff.mp h
  exact ha.high k e hk

/-- Entries that are not weak stay. -/
theorem entryAt?_later (ha : Steady u a) (hl : Later a a') {ip : Nat}
    (h : a.entryAt? u ip = some e) : a'.entryAt? u ip = some e := by
  obtain ⟨k, hk, he⟩ := Option.bind_eq_some_iff.mp h
  obtain ⟨e', he', same⟩ := hl.entries k e he
  rw [← same (ha.known k e he).strong]
  exact Option.bind_eq_some_iff.mpr ⟨k, hk, he'⟩

/-- A change of what was the greatest height so far. -/
theorem height (ha : Steady u a) {n : Nat} (h : a.maxDepth ≤ n) :
    Steady u { a with maxDepth := n } :=
  ⟨ha.size, ha.setUp, fun k e he => ⟨(ha.known k e he).strong, (ha.known k e he).handlers⟩,
    ha.level, fun k e he => Nat.le_trans (ha.high k e he) h⟩

end Steady

/-! ## Arrivals -/

/-- What one more arrival leaves: the entries as they were, and perhaps a new one. -/
theorem merge_entries {source ip : Nat} (h : a.merge u source ip new = .ok a') :
    a'.maxDepth = max a.maxDepth new.depth ∧ ∀ (k : Nat) e, a'.entries[k]?.join = some e →
      a.entries[k]?.join = some e ∨ e = new := by
  unfold merge at h
  split at h
  · cases h
  · rename_i i _
    have accepted (k : Nat) (e : StackState)
        (he : (a.entries.setIfInBounds i (some new))[k]?.join = some e) :
        a.entries[k]?.join = some e ∨ e = new := by
      rw [Array.getElem?_setIfInBounds] at he
      split at he
      · split at he
        · exact .inr (Option.some.inj he).symm
        · cases he
      · exact .inl he
    dsimp only at h
    split at h
    · cases h
      exact ⟨rfl, accepted⟩
    · split at h
      · cases h
        exact ⟨rfl, fun _ _ he => .inl he⟩
      · split at h
        · cases h
          exact ⟨rfl, accepted⟩
        · split at h <;> cases h

theorem Steady.merge (hu : u.Checked) (ha : Steady u a) (hn : a.Knows new) {source ip : Nat}
    (h : a.merge u source ip new = .ok a') : Steady u a' ∧ Later a a' := by
  obtain ⟨grows, -⟩ := merge_grows hu ha.size h
  obtain ⟨most, entries⟩ := merge_entries h
  have handlers := Adds.merge_handlers h
  refine ⟨⟨grows.size.trans ha.size, ?_, fun k e he => ?_, fun hd hm => ?_, fun k e he => ?_⟩,
    grows.toLater⟩
  · rw [handlers]
    exact ha.setUp
  · rcases entries k e he with he | rfl
    · exact (ha.known k e he).later grows.toLater
    · exact hn.later grows.toLater
  · rw [handlers] at hm
    obtain ⟨e, he, level⟩ := ha.level hd hm
    exact ⟨e, ha.entryAt?_later grows.toLater he, level⟩
  · rw [most]
    rcases entries k e he with he | rfl
    · exact Nat.le_trans (ha.high k e he) (Nat.le_max_left _ _)
    · exact Nat.le_max_right _ _

/-! ## Handlers -/

/-- The handler of a setup instruction, in the analysis that has it. -/
theorem handlerFor_get (h : Handler) (a : Analysis) :
    ∃ hd, (a.handlerFor h).2.handlers[(a.handlerFor h).1]? = some hd ∧ hd.setupIp = h.setupIp ∧
      (hd ∈ a.handlers ∨ hd = h) := by
  unfold handlerFor
  split
  · rename_i k hk
    obtain ⟨hlt, hd, -⟩ := Array.findIdx?_eq_some_iff_getElem.mp hk
    exact ⟨a.handlers[k], Array.getElem?_eq_getElem hlt, beq_iff_eq.mp hd,
      .inl (Array.getElem_mem hlt)⟩
  · exact ⟨h, by simp, rfl, .inr rfl⟩

theorem Steady.handlerFor (ha : Steady u a) {h : Handler} (hh : h.SetUp u)
    (he : a.entryAt? u h.setupIp = some e) (hd : h.depth = some e.depth) :
    Steady u (a.handlerFor h).2 := by
  have grows := handlerFor_grows h a
  have entries : (a.handlerFor h).2.entries = a.entries := by
    unfold Analysis.handlerFor
    split <;> rfl
  have most : (a.handlerFor h).2.maxDepth = a.maxDepth := by
    unfold Analysis.handlerFor
    split <;> rfl
  refine ⟨grows.size.trans ha.size, handlerFor_setUp hh ha.setUp, fun k e hk => ?_,
    fun h' hm => ?_, fun k e hk => ?_⟩
  · rw [entries] at hk
    exact (ha.known k e hk).later grows.toLater
  · have : h' ∈ a.handlers ∨ h' = h := by
      unfold Analysis.handlerFor at hm
      split at hm
      · exact .inl hm
      · exact Array.mem_push.mp hm
    rcases this with hm | rfl
    · obtain ⟨e', he', level⟩ := ha.level h' hm
      exact ⟨e', ha.entryAt?_later grows.toLater he', level⟩
    · exact ⟨e, ha.entryAt?_later grows.toLater he, hd⟩
  · rw [entries] at hk
    rw [most]
    exact ha.high k e hk

/-! ## Primitives and instructions -/

/-- What following a primitive leaves: an analysis that is steady, and a way to go on that
    it knows. -/
def Steadies (u : CodeUnit) (a : Analysis)
    (x : Except CompileError (Analysis × Option StackState)) : Prop :=
  ∀ a' out, x = .ok (a', out) → Steady u a' ∧ Later a a' ∧ ∀ e, out = some e → a'.Knows e

namespace Steadies

theorem check {β : Type} {x : Except CompileError β}
    {f : β → Except CompileError (Analysis × Option StackState)}
    (h : ∀ b, x = .ok b → Steadies u a (f b)) : Steadies u a (x >>= f) := by
  intro a' out hx
  obtain ⟨b, hb, hx⟩ := except_bind_ok.mp hx
  exact h b hb a' out hx

theorem nothing (ha : Steady u a) (e : StackState) (he : a.Knows e) :
    Steadies u a (.ok (a, some e)) := by
  intro a' out h
  cases h
  exact ⟨ha, .refl a, fun e' h => by cases h; exact he⟩

theorem ends (ha : Steady u a) : Steadies u a (.ok (a, none)) := by
  intro a' out h
  cases h
  exact ⟨ha, .refl a, fun e' h => by cases h⟩

theorem merge (hu : u.Checked) (ha : Steady u a) {source ip : Nat} (hn : a.Knows new)
    {out : Option StackState} (ho : ∀ e, out = some e → a.Knows e) :
    Steadies u a (a.merge u source ip new >>= fun a => .ok (a, out)) := by
  intro a' out' h
  obtain ⟨a₁, hm, h⟩ := except_bind_ok.mp h
  cases h
  obtain ⟨steady, later⟩ := ha.merge hu hn hm
  exact ⟨steady, later, fun e he => (ho e he).later later⟩

end Steadies

theorem Knows.at_depth (he : a.Knows e) (n : Nat) : a.Knows { e with depth := n } :=
  ⟨he.strong, he.handlers⟩

theorem setup_steady (hu : u.Checked) (ha : Steady u a) (he : a.Knows e)
    (hi : u.instrAt? i.ip = some i) (hp : p ∈ i.prims) (hentry : a.entryAt? u i.ip = some e)
    {kind : BlockKind} (hk : p.op.blockKind? = some kind) : Steadies u a (do
      let target ← targetOf i.ip (p.target? i.next)
      if maxBlocks ≤ e.handlers.length then .error (.blockMismatch i.ip)
      let (h, a) := a.handlerFor ⟨kind, i.ip, target, 0, some e.depth, e.handlers.head?⟩
      let a ← a.merge u i.ip target { e with depth := e.depth + received kind }
      return (a, some { e with handlers := h :: e.handlers })) := by
  refine .check fun target ht => ?_
  dsimp only
  split
  · exact .check fun _ h => by cases h
  intro a' out h
  obtain ⟨a₁, hm, h⟩ := except_bind_ok.mp h
  cases h
  let hd : Handler := ⟨kind, i.ip, target, 0, some e.depth, e.handlers.head?⟩
  have setUp : hd.SetUp u :=
    ⟨i, p, hi, hu.setup_alone hi hp (by rw [hk]; rfl), hk, targetOf_ok ht⟩
  have grows := handlerFor_grows hd a
  have known := he.later grows.toLater
  obtain ⟨steady, later⟩ := (ha.handlerFor setUp hentry rfl).merge hu (known.at_depth _) hm
  refine ⟨steady, grows.toLater.trans later, fun e' h => ?_⟩
  cases h
  refine Knows.later ⟨he.strong, fun k hk => ?_⟩ later
  rcases List.mem_cons.mp hk with rfl | hk
  · obtain ⟨found, hf, -⟩ := handlerFor_get hd a
    exact (Array.getElem?_eq_some_iff.mp hf).1
  · exact known.handlers k hk

theorem continueEdge_steady (hu : u.Checked) (ha : Steady u a) (he : a.Knows e)
    (ip target : Nat) :
    Steadies u a (a.continueEdge u ip target e >>= fun a => .ok (a, none)) := by
  unfold continueEdge
  dsimp only
  split
  · exact .ends ha
  · have known (depth : Nat) : a.Knows
        ⟨depth, e.handlers.dropWhile fun h => a.kindOf h != some .loop, e.weak⟩ :=
      ⟨he.strong, fun h hh => he.handlers h ((List.dropWhile_suffix _).subset hh)⟩
    exact .merge hu ha (known _) fun e (h : none = some e) => nomatch h

theorem stepPrimitive_steady (hu : u.Checked) (hplain : p.op ≠ .endFinally) (ha : Steady u a)
    (he : a.Knows e) (hi : u.instrAt? i.ip = some i) (hp : p ∈ i.prims)
    (hentry : p.op.blockKind?.isSome → a.entryAt? u i.ip = some e) :
    Steadies u a (stepPrimitive u i.ip i.next p e a) := by
  have setup (kind : BlockKind) (hk : p.op.blockKind? = some kind) :=
    setup_steady hu ha he hi hp (hentry (by rw [hk]; rfl)) hk
  have merge (ip n : Nat) (out : Option StackState) (ho : ∀ e', out = some e' → a.Knows e') :
      Steadies u a (a.merge u i.ip ip { e with depth := n } >>= fun a => .ok (a, out)) :=
    .merge hu ha (he.at_depth n) ho
  have noOut (e' : StackState) (h : none = some e') : a.Knows e' := nomatch h
  have out (n : Nat) (e' : StackState) (h : some { e with depth := n } = some e') :
      a.Knows e' := by
    cases h
    exact he.at_depth n
  unfold stepPrimitive
  dsimp only
  split
  case h_1 | h_2 | h_3 =>
    rename_i hop
    exact setup _ (by rw [hop]; rfl)
  case h_4 =>
    split
    · intro _ _ h
      cases h
    · rename_i h rest hh
      exact .nothing ha _ ⟨he.strong, fun k hk => he.handlers k
        (by rw [hh]; exact List.mem_cons_of_mem _ hk)⟩
  case h_15 => exact .check fun target _ => continueEdge_steady hu ha he i.ip target
  case h_17 =>
    rename_i hop
    exact absurd hop hplain
  case h_13 =>
    split
    · exact .check fun _ h => by cases h
    · exact .check fun _ _ => .ends ha
  all_goals
    repeat (first
      | exact .ends ha
      | exact .nothing ha _ (he.at_depth _)
      | exact merge _ _ _ noOut
      | exact merge _ _ _ (out _)
      | refine .check fun _ _ => ?_)

theorem stepPrimitives_steady (hu : u.Checked) (hi : u.instrAt? i.ip = some i)
    (hplain : ∀ p ∈ i.prims, p.op ≠ .endFinally) :
    ∀ (ps : List Primitive), ps <:+ i.prims → ∀ (e : StackState) (a : Analysis),
      Steady u a → a.Knows e →
      ((∃ p ∈ ps, p.op.blockKind?.isSome) → a.entryAt? u i.ip = some e) →
      Steadies u a (stepPrimitives u i.ip i.next ps e a) := by
  intro ps
  induction ps with
  | nil => exact fun _ e a ha he _ => .nothing ha e he
  | cons p ps ih =>
    intro hps e a ha he hentry a' out h
    unfold stepPrimitives at h
    obtain ⟨⟨a₁, out₁⟩, h₁, h⟩ := except_bind_ok.mp h
    have hp := hps.subset List.mem_cons_self
    obtain ⟨steady, later, knows⟩ := stepPrimitive_steady hu (hplain p hp) ha he hi hp
      (fun hk => hentry ⟨p, List.mem_cons_self, hk⟩) a₁ out₁ h₁
    cases out₁ with
    | none =>
      cases h
      exact ⟨steady, later, fun e h => by cases h⟩
    | some e₁ =>
      -- a setup stands alone, so none comes after another primitive
      have alone : ¬∃ q ∈ ps, q.op.blockKind?.isSome := by
        rintro ⟨q, hq, hk⟩
        have one := hu.alone hi hps (List.mem_cons_of_mem _ hq)
          (by rw [Opcode.standsAlone, hk]; rfl)
        rw [(List.cons_eq_cons.mp one).2] at hq
        exact absurd hq List.not_mem_nil
      have raised := steady.height (Nat.le_max_left a₁.maxDepth e₁.depth)
      obtain ⟨steady', later', knows'⟩ := ih ((List.suffix_cons p ps).trans hps) e₁ _ raised
        ((knows e₁ rfl).later (Grows.height a₁ _).toLater) (fun h => absurd h alone) a' out h
      exact ⟨steady', later.trans ((Grows.height a₁ _).toLater.trans later'), knows'⟩

theorem step_steady (hu : u.Checked) (hi : u.instrAt? i.ip = some i)
    (hplain : ∀ p ∈ i.prims, p.op ≠ .endFinally) (ha : Steady u a)
    (he : a.entryAt? u i.ip = some e) (h : step u i e a = .ok a') : Steady u a' := by
  unfold step at h
  obtain ⟨⟨a₁, out⟩, h₁, h⟩ := except_bind_ok.mp h
  obtain ⟨steady, -, knows⟩ := stepPrimitives_steady hu hi hplain i.prims (List.suffix_refl _) e a
    ha (ha.known_at he) (fun _ => he) a₁ out h₁
  cases out with
  | none =>
    cases h
    exact steady
  | some e₁ =>
    dsimp only at h
    split at h
    · exact (steady.merge hu (knows e₁ rfl) h).1
    · cases h
      exact steady

end Analysis

open Analysis

theorem CodeUnit.NoEndFinally.at (hplain : u.NoEndFinally) (hu : u.Checked) {ip : Nat} {i : Instr}
    (hi : u.instrAt? ip = some i) : ∀ p ∈ i.prims, p.op ≠ .endFinally :=
  hplain i (Array.mem_toList_iff.mp (hu.instrAt?_eq_some.mp hi).1)

/-- The analysis is steady at its end, and was so whenever an instruction was followed. -/
theorem CodeUnit.Checked.analyze_steady (hu : u.Checked) (hplain : u.NoEndFinally)
    {a : Analysis} (h : u.analyze = .ok a) :
    Steady u a ∧ ∀ ip i e, u.instrAt? ip = some i → a.entryAt? u ip = some e →
      FollowedIn (Steady u) u i e a := by
  refine hu.analyze_followed ⟨fun a ha => ha.size, fun a ws ha => ?_, fun a a' i e hi he ha h =>
    step_steady hu hi (hplain.at hu hi) ha he h⟩ (fun a hm => ?_) h
  · exact ⟨ha.size, ha.setUp, fun k e he => ⟨(ha.known k e he).strong, (ha.known k e he).handlers⟩,
      ha.level, ha.high⟩
  · have empty : Steady u { entries := .replicate u.instrs.size none } := by
      have nowhere (k : Nat) (e : StackState)
          (h : (Array.replicate u.instrs.size (none : Option StackState))[k]?.join = some e) :
          False := by
        rw [replicate_none] at h
        cases h
      exact ⟨by simp, fun _ h => absurd h (Array.not_mem_empty _), fun k e h => (nowhere k e h).elim,
        fun _ h => absurd h (Array.not_mem_empty _), fun k e h => (nowhere k e h).elim⟩
    exact (empty.merge hu ⟨rfl, fun _ h => absurd h List.not_mem_nil⟩ hm).1

end TieredMachine
