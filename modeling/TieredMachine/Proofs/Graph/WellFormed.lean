/-
  Well-formed graphs.

  Blocks stand at their numbers in the order of their starts, and whatever refers to a block
  or a handler refers to one that is there.  Lowering makes such graphs, and cleaning up
  keeps them so.

  * `Graph.WellFormed`: what the parts of a graph refer to;
  * `Transcribes.wellFormed`: graphs that are lowered;
  * `threadJumps_wellFormed`, `dropUnreachable_wellFormed`, `cleanUp_wellFormed`: graphs that
    are cleaned up.
-/
import TieredMachine.Proofs.Graph.Transcript

namespace TieredMachine

variable {u : CodeUnit} {special : Bool} {g : Graph} {b : BlockId}

/-! ## Lists that go along -/

section

variable {α β : Type} {R : α → β → Prop} {as : List α} {bs : List β}

theorem forall₂_mem_left (h : List.Forall₂ R as bs) {a : α} (ha : a ∈ as) : ∃ b ∈ bs, R a b := by
  induction h with
  | nil => cases ha
  | @cons _ b _ _ r _ ih =>
    obtain rfl | ha := List.mem_cons.mp ha
    · exact ⟨b, List.mem_cons_self, r⟩
    · obtain ⟨b, hb, r⟩ := ih ha
      exact ⟨b, List.mem_cons_of_mem _ hb, r⟩

theorem forall₂_mem_right (h : List.Forall₂ R as bs) {b : β} (hb : b ∈ bs) :
    ∃ a ∈ as, R a b :=
  forall₂_mem_left h.flip hb

end

namespace Graph

/-- The parts of the graph refer to one another as they should. -/
structure WellFormed (g : Graph) : Prop where
  numbered : ∀ b (blk : GraphBlock), g.blocks[b]? = some blk → blk.id = b
  ascending : (g.blocks.toList.map (·.start)).Pairwise (· < ·)
  /-- every edge leads to a block -/
  edges : ∀ b < g.blocks.size, ∀ c ∈ g.successors b, c < g.blocks.size
  pushes : ∀ b < g.blocks.size, ∀ i ∈ (g.block b).insts, ∀ h, i.op = .pushHandler h →
    h < g.handlers.size
  handlers : ∀ hd ∈ g.handlers, hd.target < g.blocks.size
  resume : ∀ r ∈ g.resume, r.2 < g.blocks.size
  entry : g.entry < g.blocks.size

/-! ## Blocks and handlers -/

theorem get_block (hb : b < g.blocks.size) : g.blocks[b]? = some (g.block b) := by
  unfold block
  simp [hb]

theorem block_of_get {blk : GraphBlock} (h : g.blocks[b]? = some blk) : g.block b = blk := by
  unfold block
  rw [h]
  rfl

theorem lt_of_get {blk : GraphBlock} (h : g.blocks[b]? = some blk) : b < g.blocks.size :=
  (Array.getElem?_eq_some_iff.mp h).1

theorem StartsAt.lt {ip : Nat} (h : g.StartsAt ip b) : b < g.blocks.size :=
  lt_of_get h.choose_spec.1

theorem StartsAt.start {ip : Nat} (h : g.StartsAt ip b) : (g.block b).start = ip := by
  obtain ⟨blk, hblk, rfl⟩ := h
  rw [block_of_get hblk]

theorem startsAt_of_lt (hb : b < g.blocks.size) : g.StartsAt (g.block b).start b :=
  ⟨g.block b, get_block hb, rfl⟩

/-- Blocks start in the order of their numbers. -/
theorem WellFormed.start_lt (wf : g.WellFormed) {c : BlockId} (hlt : b < c)
    (hc : c < g.blocks.size) : (g.block b).start < (g.block c).start := by
  have start {d : BlockId} (hd : d < g.blocks.size)
      (hd' : d < (g.blocks.toList.map (·.start)).length) :
      (g.blocks.toList.map (·.start))[d] = (g.block d).start := by
    simp [block, hd]
  have hb : b < g.blocks.size := Nat.lt_trans hlt hc
  have := List.pairwise_iff_getElem.mp wf.ascending b c (by simpa using hb) (by simpa using hc) hlt
  rwa [start hb, start hc] at this

theorem handler_of_get {h : HandlerId} {hd : Handler} (hh : g.handlers[h]? = some hd) :
    g.handler h = hd := by
  unfold handler
  rw [hh]
  rfl

theorem handler_mem {h : HandlerId} (hh : h < g.handlers.size) : g.handler h ∈ g.handlers := by
  unfold handler
  rw [Array.getElem?_eq_getElem hh]
  exact Array.getElem_mem hh

theorem mem_successors {c : BlockId} : c ∈ g.successors b ↔ c ∈ (g.block b).term.successors ∨
    ∃ i ∈ (g.block b).insts, ∃ h, i.op = .pushHandler h ∧ (g.handler h).target = c := by
  unfold successors
  rw [List.mem_append, List.mem_filterMap]
  refine or_congr_right ⟨fun ⟨i, hi, h⟩ => ?_, fun ⟨i, hi, h, hop, ht⟩ => ⟨i, hi, ?_⟩⟩
  · split at h
    · rename_i hd hop
      exact ⟨i, hi, hd, hop, Option.some.inj h⟩
    · cases h
  · simp only [hop, ht]

end Graph

/-! ## Graphs that are lowered -/

section

variable {sets : HandlerId → Nat → BlockKind → Nat → Prop} {leads : Nat → BlockId → Prop}

/-- Where the last primitive of an instruction leads. -/
inductive Instr.GoesTo (i : Instr) : Nat → Prop
  | next : GoesTo i i.next
  | target {target} : i.target? = some target → GoesTo i target

theorem Exits.successors {i : Instr} {k : Nat} {p : Primitive} {t : Terminator}
    (h : Exits u leads i k p t) (hp : p = i.last) {c : BlockId} (hc : c ∈ t.successors) :
    ∃ ip, leads ip c ∧ i.GoesTo ip := by
  have target {ip : Nat} (ht : p.target? i.next = some ip) : i.GoesTo ip := by
    subst hp
    exact .target ht
  cases h with
  | goto _ ht hb =>
    obtain rfl := List.mem_singleton.mp hc
    exact ⟨_, hb, target ht⟩
  | branch _ ht htaken hnext =>
    simp only [Terminator.successors, List.mem_cons, List.not_mem_nil, or_false] at hc
    obtain rfl | rfl := hc
    · exact ⟨_, htaken, target ht⟩
    · exact ⟨_, hnext, .next⟩
  | speculate _ ht hb =>
    obtain rfl := List.mem_singleton.mp hc
    refine ⟨_, hb, ?_⟩
    split
    · exact target ht
    · exact .next
  | forIter ht hbody hexit =>
    simp only [Terminator.successors, List.mem_cons, List.not_mem_nil, or_false] at hc
    obtain rfl | rfl := hc
    · exact ⟨_, hbody, .next⟩
    · exact ⟨_, hexit, target ht⟩
  | return_ | unwindOff => cases hc
  | yield_ hb | unwind hb =>
    obtain rfl := List.mem_singleton.mp hc
    exact ⟨_, hb, .next⟩

theorem Body.exits {i : Instr} {k : Nat} {ps : List Primitive} {is : List Inst} {t : Terminator}
    {term : Option Terminator} (h : Body u sets leads special i k ps is term)
    (ht : term = some t) : ∃ k p, ps.getLast? = some p ∧ Exits u leads i k p t := by
  induction h with
  | nil => cases ht
  | @op k p ps _ _ _ _ _ rest ih =>
    obtain ⟨k', p', hlast, hx⟩ := ih ht
    refine ⟨k', p', ?_, hx⟩
    cases ps with
    | nil => cases hlast
    | cons q qs => rwa [List.getLast?_cons_cons]
  | @exit k p t hx _ =>
    cases ht
    exact ⟨k, p, rfl, hx⟩

/-- The way out of an instruction is that of its last primitive. -/
theorem Body.last {i : Instr} {is : List Inst} {t : Terminator}
    (h : Body u sets leads special i 0 i.prims is (some t)) :
    ∃ k, Exits u leads i k i.last t := by
  obtain ⟨k, p, hlast, hx⟩ := h.exits rfl
  refine ⟨k, ?_⟩
  unfold Instr.last
  rw [hlast]
  exact hx

theorem Body.pushes {i : Instr} {k : Nat} {ps : List Primitive} {is : List Inst}
    {t : Option Terminator} (h : Body u sets leads special i k ps is t) {x : Inst} (hx : x ∈ is)
    {hd : HandlerId} (hop : x.op = .pushHandler hd) : ∃ p ∈ ps, ∃ kind target,
      p.op.blockKind? = some kind ∧ p.target? i.next = some target ∧ sets hd i.ip kind target := by
  induction h with
  | nil | exit => cases hx
  | op _ stands _ ih =>
    obtain rfl | hx := List.mem_cons.mp hx
    · cases stands with
      | same => cases hop
      | setup hk ht hs =>
        cases hop
        exact ⟨_, List.mem_cons_self, _, _, hk, ht, hs⟩
      | cached | call | int => cases hop
    · obtain ⟨p, hp, rest⟩ := ih hx
      exact ⟨p, List.mem_cons_of_mem _ hp, rest⟩

/-- What opens an instruction pushes no handler. -/
theorem Opening.pushes {i : Instr} {is : List Inst} (h : Opening u special i is) {x : Inst}
    (hx : x ∈ is) {hd : HandlerId} : x.op ≠ .pushHandler hd := by
  obtain ⟨guards, rfl, hguards⟩ := h
  intro hop
  simp only [List.mem_append, List.mem_singleton] at hx
  obtain (hx | hx) | rfl := hx
  · unfold CodeUnit.polls at hx
    split at hx
    · obtain rfl := List.mem_singleton.mp hx
      cases hop
    · cases hx
  · obtain ⟨-, v, rfl⟩ := hguards x hx
    cases hop
  · cases hop

/-- Every handler that a block pushes is set up by an instruction that the block holds. -/
theorem Spells.pushes {ip : Nat} {js : List Instr} {is : List Inst} {t : Terminator}
    (h : Spells u sets leads special ip js is t) {x : Inst} (hx : x ∈ is) {hd : HandlerId}
    (hop : x.op = .pushHandler hd) : ∃ i ∈ js, ∃ p ∈ i.prims, ∃ kind target,
      p.op.blockKind? = some kind ∧ p.target? i.next = some target ∧ sets hd i.ip kind target := by
  induction h with
  | falls | off => cases hx
  | exit opens body =>
    obtain hx | hx := List.mem_append.mp hx
    · exact absurd hop (opens.pushes hx)
    · exact ⟨_, List.mem_cons_self, body.pushes hx hop⟩
  | next opens body _ ih =>
    obtain hx | hx := List.mem_append.mp hx
    · exact absurd hop (opens.pushes hx)
    · obtain hx | hx := List.mem_append.mp hx
      · exact ⟨_, List.mem_cons_self, body.pushes hx hop⟩
      · obtain ⟨i, hi, rest⟩ := ih hx
        exact ⟨i, List.mem_cons_of_mem _ hi, rest⟩

/-- A block is left to where its last instruction goes, or to what comes after it. -/
theorem Spells.leaves {ip : Nat} {js : List Instr} {is : List Inst} {t : Terminator}
    (h : Spells u sets leads special ip js is t) {c : BlockId} (hc : c ∈ t.successors) :
    ∃ target, leads target c ∧ ((js = [] ∧ target = ip) ∨ ∃ i ∈ js, i.GoesTo target) := by
  induction h with
  | falls hb =>
    obtain rfl := List.mem_singleton.mp hc
    exact ⟨_, hb, .inl ⟨rfl, rfl⟩⟩
  | off => cases hc
  | exit _ body =>
    obtain ⟨k, hx⟩ := body.last
    obtain ⟨target, hl, goes⟩ := hx.successors rfl hc
    exact ⟨target, hl, .inr ⟨_, List.mem_cons_self, goes⟩⟩
  | next _ _ _ ih =>
    obtain ⟨target, hl, ⟨-, rfl⟩ | ⟨j, hj, goes⟩⟩ := ih hc
    · exact ⟨_, hl, .inr ⟨_, List.mem_cons_self, .next⟩⟩
    · exact ⟨target, hl, .inr ⟨j, List.mem_cons_of_mem _ hj, goes⟩⟩

end

namespace Transcribes

/-- Every block spells some of the instructions. -/
theorem spells (h : Transcribes u special g) (hb : b < g.blocks.size) :
    ∃ js ≠ [], (∀ j ∈ js, j ∈ u.instrs.toList) ∧
      Spells u g.Handles g.StartsAt special (g.block b).start js (g.block b).insts
        (g.block b).term := by
  obtain ⟨pieces, parts, spelled⟩ := h.spelled
  obtain ⟨js, hjs⟩ : ∃ js, pieces[b]? = some js := by
    have : b < pieces.length := by rw [spelled.length_eq, Array.length_toList]; exact hb
    exact ⟨_, List.getElem?_eq_getElem this⟩
  have hblk : g.blocks.toList[b]? = some (g.block b) := by
    rw [Array.getElem?_toList, Graph.get_block hb]
  have block : SpellsBlock u g.Handles g.StartsAt special js (g.block b) := by
    obtain ⟨hlt, rfl⟩ := List.getElem?_eq_some_iff.mp hjs
    obtain ⟨hlt', hsame⟩ := List.getElem?_eq_some_iff.mp hblk
    rw [← hsame]
    exact spelled.get hlt hlt'
  refine ⟨js, block.1, fun j hj => ?_, block.2⟩
  rw [← parts]
  exact List.mem_flatten.mpr ⟨js, List.mem_of_getElem? hjs, hj⟩

/-- Graphs that are lowered are well-formed. -/
theorem wellFormed (h : Transcribes u special g) : g.WellFormed where
  numbered := h.numbered
  ascending := h.ascending
  edges b hb c hc := by
    obtain ⟨js, -, -, spells⟩ := h.spells hb
    obtain hc | ⟨x, hx, hd, hop, rfl⟩ := Graph.mem_successors.mp hc
    · obtain ⟨target, starts, -⟩ := spells.leaves hc
      exact starts.lt
    · obtain ⟨i, -, p, -, kind, target, -, -, hd', get, -, -, -, starts⟩ := spells.pushes hx hop
      rw [Graph.handler_of_get get]
      exact starts.lt
  pushes b hb x hx hd hop := by
    obtain ⟨js, -, -, spells⟩ := h.spells hb
    obtain ⟨i, -, p, -, kind, target, -, -, hd', get, -⟩ := spells.pushes hx hop
    exact (Array.getElem?_eq_some_iff.mp get).1
  handlers hd hmem := (h.handlers hd hmem).2.lt
  resume r hr := by
    obtain ⟨i, -, -, starts⟩ := forall₂_mem_right h.resume hr
    exact starts.lt
  entry := h.entry ▸ h.first.lt

end Transcribes

/-! ## Graphs that are cleaned up -/

namespace Graph

/-! ### Threading jumps -/

theorem threadJumps_size : g.threadJumps.blocks.size = g.blocks.size := by simp [threadJumps]

/-- What holds of a block, and of where jumps lead from such blocks, holds of where jumps
    that are threaded lead. -/
theorem resolve_keeps {P : BlockId → Prop} {table : Array (Option BlockId)}
    (next : ∀ b t, table[b]?.join = some t → P b → P t) (fuel : Nat) :
    ∀ {b}, P b → P (resolve table fuel b) := by
  induction fuel with
  | zero => exact id
  | succ fuel ih =>
    intro b hb
    unfold resolve
    split
    · exact ih (next _ _ ‹_› hb)
    · exact hb

theorem resolve_lt (edges : ∀ b < g.blocks.size, ∀ c ∈ g.successors b, c < g.blocks.size)
    {c : BlockId} (hc : c < g.blocks.size) :
    resolve g.forwards g.blocks.size c < g.blocks.size := by
  refine resolve_keeps (P := (· < g.blocks.size)) (fun b t ht hb => edges b hb t ?_) _ hc
  rw [mem_successors, (forwards_get ht).2]
  exact .inl (List.mem_singleton.mpr rfl)

theorem mem_threadJumps_successors (hb : b < g.blocks.size) {c : BlockId} :
    c ∈ g.threadJumps.successors b ↔
      (∃ d ∈ (g.block b).term.successors, resolve g.forwards g.blocks.size d = c) ∨
      ∃ i ∈ (g.block b).insts, ∃ h, i.op = .pushHandler h ∧ (g.handler h).target = c := by
  rw [mem_successors, threadJumps_block hb, Terminator.successors_mapBlocks, List.mem_map]
  rfl

/-- Threading jumps keeps graphs well-formed. -/
theorem threadJumps_wellFormed (h : g.WellFormed) : g.threadJumps.WellFormed where
  numbered b blk hblk := by
    unfold threadJumps at hblk
    obtain ⟨blk', hblk', rfl⟩ := Option.map_eq_some_iff.mp (Array.getElem?_map .. ▸ hblk)
    exact h.numbered b blk' hblk'
  ascending := by
    have same : g.threadJumps.blocks.toList.map (·.start) = g.blocks.toList.map (·.start) := by
      simp [threadJumps]
    rw [same]
    exact h.ascending
  edges b hb c hc := by
    rw [threadJumps_size] at hb ⊢
    obtain ⟨d, hd, rfl⟩ | pushed := (mem_threadJumps_successors hb).mp hc
    · exact resolve_lt h.edges (h.edges b hb d (mem_successors.mpr (.inl hd)))
    · exact h.edges b hb c (mem_successors.mpr (.inr pushed))
  pushes b hb := by
    rw [threadJumps_size] at hb
    rw [threadJumps_block hb]
    exact h.pushes b hb
  handlers hd hmem := by
    rw [threadJumps_size]
    exact h.handlers hd hmem
  resume r hr := by
    rw [threadJumps_size]
    exact h.resume r hr
  entry := by
    rw [threadJumps_size]
    exact h.entry

/-! ### Dropping blocks -/

theorem reachable_of_lt (hb : b < g.blocks.size) (hr : g.reachable[b]?.getD true) :
    g.reachable[b]? = some true := by
  have hlt : b < g.reachable.size := (reachable_closed g).1 ▸ hb
  simpa [hlt] using hr

/-- What can be entered other than by an edge is reached. -/
theorem reachable_of_pinned (hb : b < g.blocks.size) (hp : b ∈ g.pinned) :
    g.reachable[b]? = some true :=
  reachable_of_lt hb ((reachable_closed g).2.2 b hp)

/-- Where an edge leads from a block that is reached is reached. -/
theorem reachable_of_successor (h : g.WellFormed) (hb : g.reachable[b]? = some true) {c : BlockId}
    (hc : c ∈ g.successors b) : g.reachable[c]? = some true := by
  have hlt : b < g.blocks.size := (reachable_closed g).1 ▸ (Array.getElem?_eq_some_iff.mp hb).1
  refine reachable_of_lt (h.edges b hlt c hc) ?_
  exact ((reachable_closed g).2.1 b hb c hc).resolve_left List.not_mem_nil

theorem newNumber_lt (h : g.WellFormed) (hb : g.reachable[b]? = some true) :
    g.newNumber b < g.reduced.blocks.size :=
  lt_of_get (reduced_get h.numbered hb)

theorem reduced_block (h : g.WellFormed) (hb : g.reachable[b]? = some true) :
    g.reduced.block (g.newNumber b) = g.renumbered b :=
  block_of_get (reduced_get h.numbered hb)

/-- A block of the reduced graph is a block that stays. -/
theorem exists_of_lt_reduced (h : g.WellFormed) {k : BlockId} (hk : k < g.reduced.blocks.size) :
    ∃ b, g.reachable[b]? = some true ∧ b < g.blocks.size ∧ g.newNumber b = k ∧
      g.reduced.block k = g.renumbered b :=
  exists_of_reduced_get h.numbered (get_block hk)

theorem reduced_handler {hd : HandlerId} (hlt : hd < g.handlers.size) :
    g.reduced.handler hd = { g.handler hd with target := g.newNumber (g.handler hd).target } := by
  unfold handler reduced
  simp [hlt]

/-- The edges of the reduced graph are those from blocks that stay. -/
theorem mem_reduced_successors (h : g.WellFormed) (hb : g.reachable[b]? = some true)
    {k : BlockId} : k ∈ g.reduced.successors (g.newNumber b) ↔
      ∃ c ∈ g.successors b, g.newNumber c = k := by
  have hlt : b < g.blocks.size := (reachable_closed g).1 ▸ (Array.getElem?_eq_some_iff.mp hb).1
  rw [mem_successors, reduced_block h hb]
  simp only [renumbered, Terminator.successors_mapBlocks, List.mem_map, mem_successors]
  constructor
  · rintro (⟨c, hc, rfl⟩ | ⟨i, hi, hd, hop, rfl⟩)
    · exact ⟨c, .inl hc, rfl⟩
    · refine ⟨_, .inr ⟨i, hi, hd, hop, rfl⟩, ?_⟩
      rw [reduced_handler (h.pushes b hlt i hi hd hop)]
  · rintro ⟨c, hc | ⟨i, hi, hd, hop, rfl⟩, rfl⟩
    · exact .inl ⟨c, hc, rfl⟩
    · refine .inr ⟨i, hi, hd, hop, ?_⟩
      rw [reduced_handler (h.pushes b hlt i hi hd hop)]

theorem reduced_wellFormed (h : g.WellFormed) : g.reduced.WellFormed where
  numbered k blk hk := by
    obtain ⟨b, -, -, rfl, rfl⟩ := exists_of_reduced_get h.numbered hk
    rfl
  ascending := by
    refine h.ascending.sublist ?_
    unfold reduced
    rw [Array.toList_map, List.map_map, Array.toList_filter]
    exact List.filter_sublist.map _
  edges k hk c hc := by
    obtain ⟨b, hb, -, rfl, -⟩ := exists_of_lt_reduced h hk
    obtain ⟨d, hd, rfl⟩ := (mem_reduced_successors h hb).mp hc
    exact newNumber_lt h (reachable_of_successor h hb hd)
  pushes k hk := by
    obtain ⟨b, hb, hlt, rfl, same⟩ := exists_of_lt_reduced h hk
    have size : g.reduced.handlers.size = g.handlers.size := by simp [reduced]
    rw [same, size]
    exact h.pushes b hlt
  handlers hd hmem := by
    obtain ⟨hd', hmem', rfl⟩ := Array.mem_map.mp hmem
    refine newNumber_lt h (reachable_of_pinned (h.handlers hd' hmem') ?_)
    simp only [pinned, List.mem_cons, List.mem_append, List.mem_map]
    exact .inr (.inl (.inl ⟨hd', Array.mem_toList_iff.mpr hmem', rfl⟩))
  resume r hr := by
    obtain ⟨r', hr', rfl⟩ := List.mem_map.mp hr
    refine newNumber_lt h (reachable_of_pinned (h.resume r' hr') ?_)
    simp only [pinned, List.mem_cons, List.mem_append, List.mem_map]
    exact .inr (.inl (.inr ⟨r', hr', rfl⟩))
  entry := newNumber_lt h (reachable_of_pinned h.entry List.mem_cons_self)

/-- Dropping blocks that are not reached keeps graphs well-formed. -/
theorem dropUnreachable_wellFormed (h : g.WellFormed) : g.dropUnreachable.WellFormed := by
  rw [dropUnreachable_eq]
  split
  · exact h
  · exact reduced_wellFormed h

theorem cleanUp_wellFormed (h : g.WellFormed) : g.cleanUp.WellFormed :=
  dropUnreachable_wellFormed (threadJumps_wellFormed h)

end Graph

end TieredMachine
