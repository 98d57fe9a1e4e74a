/-
  Lowered graphs are faithful.

  Before it is cleaned up, a graph has one block for each leader.  An edge leads exactly
  to where the instructions go on.

  * `placedHandlers_setUp`: every handler is that of an instruction which sets up a block;
  * `lowerPlain_ok`: a graph that is lowered, and what its blocks know of the analysis;
  * `lowerPlain_faithful`: it does what the unit does.
-/
import TieredMachine.Proofs.Graph.Emission

namespace TieredMachine

variable {u : CodeUnit}

/-! ## Answers of many steps -/

section

variable {ε α β : Type}

/-- Every answer of a list of steps is that of one of them. -/
theorem exists_of_mem_mapM {f : α → Except ε β} {as : List α} {bs : List β}
    (h : as.mapM f = .ok bs) {b : β} (hb : b ∈ bs) : ∃ a ∈ as, f a = .ok b := by
  induction as generalizing bs with
  | nil =>
    cases h
    exact absurd hb List.not_mem_nil
  | cons a as ih =>
    rw [List.mapM_cons] at h
    obtain ⟨b', hb', h⟩ := except_bind_ok.mp h
    obtain ⟨bs', hbs, h⟩ := except_bind_ok.mp h
    cases h
    rcases List.mem_cons.mp hb with rfl | hb
    · exact ⟨a, List.mem_cons_self, hb'⟩
    · obtain ⟨a', ha', hf⟩ := ih hbs hb
      exact ⟨a', List.mem_cons_of_mem _ ha', hf⟩

end

namespace Lowering

/-! ## Handlers -/

/-- An instruction whose last primitive sets up a block has it among its primitives. -/
theorem last_mem {i : Instr} {kind : BlockKind} (h : i.last.op.blockKind? = some kind) :
    i.last ∈ i.prims := by
  unfold Instr.last at h ⊢
  cases hl : i.prims.getLast? with
  | none =>
    rw [hl] at h
    cases h
  | some p => exact List.mem_of_getLast? hl

theorem unreachedHandlers_setUp (hu : u.Checked) {a : Analysis} {hs : List Handler}
    (h : unreachedHandlers u a = .ok hs) : ∀ h ∈ hs, h.SetUp u := by
  unfold unreachedHandlers at h
  obtain ⟨os, hos, h⟩ := except_bind_ok.mp h
  cases h
  intro hd hmem
  obtain ⟨o, ho, rfl⟩ := List.mem_filterMap.mp hmem
  obtain ⟨i, hi, h⟩ := exists_of_mem_mapM hos ho
  have hat := hu.instrAt?_of_mem hi
  split at h
  · cases h
  · rename_i kind hk
    split at h
    · cases h
    · obtain ⟨target, ht, h⟩ := except_bind_ok.mp h
      cases h
      have alone := hu.setup_alone hat (last_mem hk) (by rw [hk]; rfl)
      exact ⟨i, i.last, hat, alone, hk, required_ok ht⟩

theorem placedHandlers_setUp (hu : u.Checked) {starts : Array Nat} {a : Analysis}
    {hs : Array Handler} (ha : ∀ h ∈ a.handlers, h.SetUp u)
    (h : placedHandlers u starts a = .ok hs) : ∀ h ∈ hs, h.SetUp u := by
  unfold placedHandlers at h
  obtain ⟨more, hmore, h⟩ := except_bind_ok.mp h
  rw [Array.mapM_eq_mapM_toList] at h
  obtain ⟨l, hl, h⟩ := except_bind_ok.mp h
  cases h
  intro hd hmem
  obtain ⟨hd', hmem', h⟩ := exists_of_mem_mapM hl (List.mem_toArray.mp hmem)
  obtain ⟨b, _, h⟩ := except_bind_ok.mp h
  cases h
  have setUp : hd'.SetUp u := by
    rcases Array.mem_append.mp (Array.mem_toList_iff.mp hmem') with hm | hm
    · exact ha hd' hm
    · exact unreachedHandlers_setUp hu hmore hd' (List.mem_toArray.mp hm)
  exact setUp

end Lowering

open Lowering

/-! ## Graphs -/

/-- What a lowering starts from and makes. -/
structure LoweredFrom (u : CodeUnit) (c : Context) (a : Analysis) (e : Emission) (g : Graph) :
    Prop where
  unit : c.unit = u
  leaders : c.leaders = Lowering.leaders u
  settled : Analysis.Settled u a
  collected : c.Collected e
  filled : ∀ (b : BlockId) blk, g.blocks[b]? = some blk → c.Filled a e.assumptions b blk
  starts : g.blocks.toList.map (·.start) = c.leaders.toList
  handlers : g.handlers = c.handlers
  assumptions : g.assumptions = e.assumptions
  resume : g.resume = e.resume
  entry : g.entry = 0

/-- A graph that is lowered. -/
theorem lowerPlain_ok (hu : u.Checked) {h : Heap} {feedback : Feedback} {opts : LowerOptions}
    {g : Graph} (hg : lowerPlain h u feedback opts = .ok g) :
    ∃ c a e, LoweredFrom u c a e g ∧ c.heap = h ∧ u.analyze = .ok a := by
  unfold lowerPlain at hg
  dsimp only at hg
  split at hg
  · cases hg
  obtain ⟨a, ha, hg⟩ := except_bind_ok.mp hg
  obtain ⟨hs, hhs, hg⟩ := except_bind_ok.mp hg
  obtain ⟨⟨blocks, e⟩, hb, hg⟩ := except_bind_ok.mp hg
  cases hg
  have settled := hu.analyze_settled ha
  generalize hc : (⟨h, u, feedback, opts, Lowering.leaders u, backedgeTargets u, hs⟩ : Context) = c
    at hb
  have hunit : c.unit = u := by rw [← hc]
  have hleaders : c.leaders = Lowering.leaders u := by rw [← hc]
  have hhandlers : hs = c.handlers := by rw [← hc]
  have sound : c.Sound := by
    rw [← hc]
    exact ⟨hu, placedHandlers_setUp hu settled.setUp hhs⟩
  obtain ⟨-, collected, adds⟩ := Context.emitBlocks_ok sound a (by rw [hunit]; exact hu.contiguous)
      (fun i hi => by rw [hunit]; exact hu.instrAt?_of_mem hi) (by
      rw [hunit]
      unfold CodeUnit.stop
      rw [← Array.getLast?_toList]) (fun _ h => by cases h) hb
  obtain ⟨head, tail, all, closes, starts, filled⟩ := adds e.assumptions fun _ _ h => h
  cases closes
  have all : blocks.toList = tail := all
  have collected := collected ⟨fun _ h => absurd h (Array.not_mem_empty _),
    fun _ _ h => absurd h List.not_mem_nil⟩
  refine ⟨c, a, e, ⟨hunit, hleaders, settled, collected, fun b blk hblk => ?_, ?_, hhandlers,
    rfl, rfl, rfl⟩, by rw [← hc], ha⟩
  · have := filled b blk (by rwa [← all, Array.getElem?_toList])
    simpa using this
  · rw [all, starts, hleaders]
    exact leaders_eq_filter hu

namespace LoweredFrom

variable {c : Context} {a : Analysis} {e : Emission} {g : Graph}

/-- The block of a leader starts there. -/
theorem leads (h : LoweredFrom u c a e g) {ip : Nat} {b : BlockId} (hs : c.Starts ip b) :
    g.Leads u 0 ip b := by
  have start : (g.blocks.toList.map (·.start))[b]? = some ip := by
    rw [h.starts, Array.getElem?_toList]
    exact hs
  rw [List.getElem?_map, Array.getElem?_toList] at start
  obtain ⟨blk, hblk, rfl⟩ := Option.map_eq_some_iff.mp start
  refine ⟨(Array.getElem?_eq_some_iff.mp hblk).1, 0, Nat.le_refl 0, ?_⟩
  unfold Graph.block
  rw [hblk]
  exact .here

/-- There are no more blocks than words. -/
theorem size_le (h : LoweredFrom u c a e g) : g.blocks.size ≤ u.words.size := by
  have count := congrArg List.length h.starts
  rw [List.length_map, Array.length_toList, Array.length_toList, h.leaders] at count
  rw [count]
  unfold Lowering.leaders
  dsimp only
  exact Nat.le_trans (Array.size_filter_le ..) (Nat.le_of_eq Array.size_range)

/-- Before it is cleaned up, a graph does what the unit does. -/
theorem faithful (h : LoweredFrom u c a e g) (hu : u.Checked) : Faithful u c.heap 0 g where
  unit := hu
  numbered b blk hblk := (h.filled b blk hblk).id
  code b hb := by
    have hblk : g.blocks[b]? = some (g.block b) := by
      unfold Graph.block
      simp [hb]
    have code := (h.filled b _ hblk).code
    rw [h.unit] at code
    refine code.mono (fun _ _ _ _ hs => ?_) (fun _ _ ha => ?_) fun ip b hs => h.leads hs
    · unfold Graph.Sets
      rw [h.handlers]
      exact hs
    · rw [h.assumptions]
      exact ha
  opens b hb := by
    refine (h.filled b _ ?_).opens
    unfold Graph.block
    simp [hb]
  entry := by
    rw [h.entry]
    refine h.leads ?_
    unfold Context.Starts
    rw [h.leaders]
    exact leaders_zero hu
  resume ip b hr := by
    rw [h.resume] at hr
    obtain ⟨i, hi, hs⟩ := h.collected.resume ip b hr
    exact ⟨i, h.unit ▸ hi, h.leads hs⟩
  assumed as has := h.collected.assumed as (h.assumptions ▸ has)

end LoweredFrom

end TieredMachine
