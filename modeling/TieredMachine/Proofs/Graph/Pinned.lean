/-
  Blocks that are entered by an index.

  Wherever control may be placed a block starts, and it is pinned: clean-up leads no edge
  past it, and does not drop it.

  * `WellFormed.blockAt?_eq`: a block is found by its start;
  * `Body.part`, `Transcribes.body`: instructions and the blocks that hold them;
  * **`Transcribes.pinned`**: the blocks where control may be placed;
  * `threadJumps_pinned`: they are pinned still when jumps are threaded.
-/
import TieredMachine.Proofs.Graph.Polls
import TieredMachine.Proofs.Run.Anchor

namespace TieredMachine

variable {u : CodeUnit} {special : Bool} {g G : Graph} {b c : BlockId} {ip : Nat}

/-! ## Blocks by their starts -/

namespace Graph

theorem WellFormed.start_inj (wf : g.WellFormed) (hb : b < g.blocks.size)
    (hc : c < g.blocks.size) (h : (g.block b).start = (g.block c).start) : b = c := by
  obtain hlt | rfl | hlt := Nat.lt_trichotomy b c
  · exact absurd h (Nat.ne_of_lt (wf.start_lt hlt hc))
  · rfl
  · exact absurd h.symm (Nat.ne_of_lt (wf.start_lt hlt hb))

/-- A block is found by its start. -/
theorem WellFormed.blockAt?_eq (wf : g.WellFormed) (h : g.StartsAt ip b) :
    g.blockAt? ip = some b := by
  cases found : g.blockAt? ip with
  | none =>
    obtain ⟨blk, hblk, rfl⟩ := h
    unfold blockAt? at found
    simp only [Option.map_eq_none_iff, Array.find?_eq_none] at found
    exact absurd (beq_self_eq_true blk.start) (found blk (Array.mem_of_getElem? hblk))
  | some c =>
    obtain ⟨hc, start⟩ := blockAt?_eq_some wf.numbered found
    rw [wf.start_inj hc h.lt (start.trans h.start.symm)]

end Graph

/-! ## Instructions and their blocks -/

section

variable {sets : HandlerId → Nat → BlockKind → Nat → Prop} {leads : Nat → BlockId → Prop}

/-- An operation stands for each primitive of an instruction, or it is the way out. -/
theorem Body.part {i : Instr} {k : Nat} {ps : List Primitive} {is : List Inst}
    {t : Option Terminator} (h : Body u sets leads special i k ps is t) {p : Primitive}
    (hp : p ∈ ps) : (∃ op, StandsFor sets special i op p ∧ Lowering.endsBlock p.op = false) ∨
      ∃ k t', t = some t' ∧ Exits u leads i k p t' := by
  induction h with
  | nil => cases hp
  | op plain stands _ ih =>
    obtain rfl | hp := List.mem_cons.mp hp
    · exact .inl ⟨_, stands, plain⟩
    · exact ih hp
  | exit exits =>
    obtain rfl := List.mem_singleton.mp hp
    exact .inr ⟨_, _, rfl, exits⟩

/-- What stands for a setup pushes its handler. -/
theorem StandsFor.pushes {i : Instr} {op : Op} {p : Primitive} (h : StandsFor sets special i op p)
    (kind : p.op.blockKind?.isSome) {target : Nat} (ht : p.target? i.next = some target) :
    ∃ hd kind, op = .pushHandler hd ∧ sets hd i.ip kind target := by
  cases h with
  | same plain =>
    rw [plain] at kind
    cases kind
  | setup _ ht' sets =>
    obtain rfl := Option.some.inj (ht'.symm.trans ht)
    exact ⟨_, _, rfl, sets⟩
  | cached _ hop =>
    rw [hop] at kind
    cases kind
  | call => cases kind
  | int => cases ht

/-- A setup is no way out. -/
theorem Exits.plain {i : Instr} {k : Nat} {p : Primitive} {t : Terminator}
    (h : Exits u leads i k p t) : p.op.blockKind? = none := by
  by_contra kind
  have setup : p.op = .setupLoop ∨ p.op = .setupExcept ∨ p.op = .setupFinally := by
    unfold Opcode.blockKind? at kind
    split at kind
    · exact .inl ‹_›
    · exact .inr (.inl ‹_›)
    · exact .inr (.inr ‹_›)
    · exact absurd rfl kind
  cases h with
  | goto jumps => obtain h | h | h := setup <;> rw [h] at jumps <;> cases jumps
  | branch ops | speculate ops => obtain rfl | rfl | rfl := setup <;> revert ops <;> decide
  | forIter | return_ | yield_ => obtain h | h | h := setup <;> cases h
  | unwind _ hop => obtain h | h | h := setup <;> rw [h] at hop <;> cases hop
  | unwindOff ops =>
    obtain h | h | h := setup <;> rw [h] at ops <;>
      exact ops.elim (fun h => by cases h) fun h => by cases h.1

/-- A block holds operations for each instruction that it spells. -/
theorem Spells.body {js : List Instr} {is : List Inst} {t : Terminator}
    (h : Spells u sets leads special ip js is t) {i : Instr} (hi : i ∈ js) :
    ∃ is' t', Body u sets leads special i 0 i.prims is' t' ∧ ∀ t₁, t' = some t₁ → t = t₁ := by
  induction h with
  | falls | off => cases hi
  | exit _ body =>
    obtain rfl := List.mem_singleton.mp hi
    exact ⟨_, _, body, fun _ h => Option.some.inj h⟩
  | next _ body _ ih =>
    obtain rfl | hi := List.mem_cons.mp hi
    · exact ⟨_, _, body, nofun⟩
    · exact ih hi

end

namespace Transcribes

/-- Every instruction is in a block. -/
theorem body (h : Transcribes u special g) {i : Instr} (hi : i ∈ u.instrs.toList) :
    ∃ blk ∈ g.blocks.toList, ∃ is t, Body u g.Handles g.StartsAt special i 0 i.prims is t ∧
      ∀ t', t = some t' → blk.term = t' := by
  obtain ⟨pieces, parts, spelled⟩ := h.spelled
  rw [← parts] at hi
  obtain ⟨js, hjs, hi⟩ := List.mem_flatten.mp hi
  obtain ⟨blk, hblk, -, spells⟩ := forall₂_mem_left spelled hjs
  exact ⟨blk, hblk, spells.body hi⟩

/-- **A pinned block starts wherever control may be placed.** -/
theorem pinned (h : Transcribes u special g) (ha : u.Anchor ip) :
    ∃ b ∈ g.pinned, g.StartsAt ip b := by
  simp only [Graph.pinned, List.mem_cons, List.mem_append, List.mem_map]
  cases ha with
  | first => exact ⟨0, .inl h.entry.symm, h.first⟩
  | handler setsUp =>
    obtain ⟨i, hi, p, hp, kind, target⟩ := setsUp
    obtain ⟨-, -, is, t, body, -⟩ := h.body hi
    obtain ⟨op, stands, -⟩ | ⟨k, t', -, exits⟩ := body.part hp
    · obtain ⟨_, _, -, hd, get, -, -, rfl, starts⟩ := stands.pushes kind target
      exact ⟨hd.target, .inr (.inl (.inl ⟨hd,
        Array.mem_toList_iff.mpr (Array.mem_of_getElem? get), rfl⟩)), starts⟩
    · rw [exits.plain] at kind
      cases kind
  | continue_ continues =>
    obtain ⟨i, hi, p, hp, hop, harg⟩ := continues
    obtain ⟨op, arg⟩ := p
    cases hop
    cases harg
    obtain ⟨b, starts⟩ := h.targets i hi _ hp ip rfl
    obtain ⟨blk, hblk, is, t, body, term⟩ := h.body hi
    obtain ⟨-, -, plain⟩ | ⟨k, t', rfl, exits⟩ := body.part hp
    · cases plain
    · have left : blk.term = .unwind ⟨.continueLoop, some ip⟩ ⟨i.ip, k⟩ none := by
        rw [term t' rfl]
        cases exits with
        | goto jumps => cases jumps
        | branch ops =>
          obtain ops | ops | ops := ops
          · cases ops
          · cases ops
          · cases ops
        | speculate ops => cases ops
        | unwind _ other => cases other
        | unwindOff => rfl
      refine ⟨b, .inr (.inr (List.mem_filterMap.mpr ⟨blk, hblk, ?_⟩)), starts⟩
      rw [left]
      exact h.wellFormed.blockAt?_eq starts
  | @resume i hi yields =>
    obtain ⟨r, hr, -, starts⟩ := forall₂_mem_left h.resume (List.mem_filter.mpr ⟨hi, yields⟩)
    exact ⟨r.2, .inr (.inl (.inr ⟨r, hr, rfl⟩)), starts⟩

end Transcribes

/-! ## Cleaning up -/

namespace Graph

/-- Threading jumps pins the same blocks. -/
theorem threadJumps_pinned (g : Graph) : g.threadJumps.pinned = g.pinned := by
  have found (ip : Nat) : g.threadJumps.blockAt? ip = g.blockAt? ip := by
    unfold threadJumps blockAt?
    dsimp only
    rw [← Array.find?_toList, ← Array.find?_toList, Array.toList_map, List.find?_map,
      Option.map_map]
    rfl
  have targets : g.threadJumps.continueTargets = g.continueTargets := by
    unfold continueTargets
    rw [show g.threadJumps.blocks.toList = g.blocks.toList.map fun b =>
      { b with term := b.term.mapBlocks (resolve g.forwards g.blocks.size) } from Array.toList_map,
      List.filterMap_map]
    refine List.filterMap_congr fun blk _ => ?_
    simp only [Function.comp, found]
    cases blk.term with
    | unwind p site next =>
      unfold Terminator.mapBlocks
      split
      · rename_i h
        cases h
        rfl
      · rename_i other
        split
        · rename_i h
          cases h
          exact absurd rfl (other _ _ _)
        · rfl
    | _ => rfl
  unfold pinned
  rw [targets]
  rfl

end Graph

end TieredMachine
