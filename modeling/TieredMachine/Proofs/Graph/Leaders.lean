/-
  The starts of blocks.

  Every leader is the start of an instruction.  The instructions that start blocks, in
  order, are therefore the leaders.

  * `mem_leaders`: which indices are leaders;
  * `leaders_start`: leaders start instructions;
  * `leaders_eq_filter`: the leaders are the instructions that start blocks.
-/
import Mathlib.Data.List.Sort
import TieredMachine.Graph.Lowering
import TieredMachine.Proofs.Code.Unit

namespace TieredMachine

/-! ## Instructions in order -/

namespace Code.Contiguous

variable {words : Array Word} {ip : Nat} {is : List Instr} {i : Instr}

theorem pairwise (h : Contiguous words ip is) : (is.map (·.ip)).Pairwise (· < ·) := by
  induction h with
  | nil => exact .nil
  | @cons i is _ _ hc ih =>
    rw [List.map_cons, List.pairwise_cons]
    refine ⟨fun k hk => ?_, ih⟩
    obtain ⟨j, hj, rfl⟩ := List.mem_map.mp hk
    exact Nat.lt_of_lt_of_le (Instr.ip_lt_next i) (hc.le_ip hj)

/-- The last instruction is followed by the end of the code, every other one by the next. -/
theorem next (h : Contiguous words ip is) (hi : i ∈ is) :
    is.getLast?.map (·.next) = some i.next ∨ ∃ j ∈ is, j.ip = i.next := by
  induction h with
  | nil => exact absurd hi List.not_mem_nil
  | @cons j js _ _ hc ih =>
    rcases List.mem_cons.mp hi with rfl | hi
    · cases js with
      | nil => exact .inl rfl
      | cons k ks =>
        refine .inr ⟨k, by simp, ?_⟩
        generalize hn : i.next = n at hc
        cases hc
        rfl
    · rcases ih hi with h | ⟨k, hk, h⟩
      · refine .inl ?_
        cases js with
        | nil => exact absurd hi List.not_mem_nil
        | cons k ks => rwa [List.getLast?_cons_cons]
      · exact .inr ⟨k, List.mem_cons_of_mem _ hk, h⟩

end Code.Contiguous

namespace CodeUnit.Checked

variable {u : CodeUnit} {i : Instr}

theorem instrAt?_of_mem (hu : u.Checked) (hi : i ∈ u.instrs.toList) :
    u.instrAt? i.ip = some i :=
  hu.instrAt?_eq_some.mpr ⟨hi, rfl⟩

/-- The first instruction starts at the first word. -/
theorem first (hu : u.Checked) : ∃ i ∈ u.instrs.toList, i.ip = 0 := by
  have starts {n : Nat} {is : List Instr} (h : Code.Contiguous u.words n is)
      (hn : n < u.words.size) : ∃ i ∈ is, i.ip = n := by
    cases h with
    | nil h => exact absurd hn (Nat.not_lt.mpr h)
    | cons _ _ _ => exact ⟨_, List.mem_cons_self, rfl⟩
  exact starts hu.contiguous hu.nonempty

/-- An instruction that is not the last one is followed by an instruction. -/
theorem next_start (hu : u.Checked) (hi : i ∈ u.instrs.toList) (h : i.next < u.stop) :
    ∃ j ∈ u.instrs.toList, j.ip = i.next := by
  rcases hu.contiguous.next hi with hl | hj
  · have : u.stop = i.next := by
      unfold stop
      rw [← Array.getLast?_toList, hl]
      rfl
    omega
  · exact hj

end CodeUnit.Checked

namespace Lowering

/-! ## Leaders -/

theorem marks_get (is : List Nat) (t : Array Bool) {k : Nat} (hk : k < t.size) :
    (is.foldl (fun (t : Array Bool) i => t.setIfInBounds i true) t)[k]?.getD false =
      (decide (k ∈ is) || t[k]?.getD false) := by
  induction is generalizing t with
  | nil => simp
  | cons i is ih =>
    rw [List.foldl_cons, ih _ (by simpa using hk)]
    by_cases hik : i = k
    · subst hik
      simp [hk]
    · have : k ≠ i := fun h => hik h.symm
      simp [hik, this]

theorem mem_leaders {u : CodeUnit} {ip : Nat} : ip ∈ leaders u ↔
    ip < u.words.size ∧ (ip = 0 ∨ ∃ i ∈ u.instrs.toList, ip ∈ leadersOf u.stop i) := by
  unfold leaders
  simp only [Array.mem_filter, Array.mem_range]
  refine and_congr_right fun hlt => ?_
  rw [marks_get _ _ (by simpa using hlt)]
  simp [hlt]

/-- Leaders start instructions. -/
theorem leaders_start {u : CodeUnit} (hu : u.Checked) {ip : Nat} (h : ip ∈ leaders u) :
    ∃ i ∈ u.instrs.toList, i.ip = ip := by
  obtain ⟨-, rfl | ⟨i, hi, h⟩⟩ := mem_leaders.mp h
  · exact hu.first
  · unfold leadersOf at h
    rcases List.mem_append.mp h with h | h
    · obtain ⟨p, hp, ht⟩ := List.mem_filterMap.mp h
      obtain ⟨j, hj⟩ := Option.isSome_iff_exists.mp
        (hu.target_isSome (hu.instrAt?_of_mem hi) hp ht)
      exact ⟨j, hu.instrAt?_eq_some.mp hj⟩
    · split at h
      · rename_i hc
        obtain rfl := List.mem_singleton.mp h
        simp only [Bool.and_eq_true, decide_eq_true_eq] at hc
        exact hu.next_start hi hc.2
      · exact absurd h List.not_mem_nil

theorem leaders_pairwise (u : CodeUnit) : (leaders u).toList.Pairwise (· < ·) := by
  unfold leaders
  rw [Array.toList_filter, Array.toList_range]
  exact List.pairwise_lt_range.filter _

/-- The first leader is the first index. -/
theorem leaders_zero {u : CodeUnit} (hu : u.Checked) : (leaders u)[0]? = some 0 := by
  have hmem : 0 ∈ (leaders u).toList :=
    Array.mem_toList_iff.mpr (mem_leaders.mpr ⟨hu.nonempty, .inl rfl⟩)
  have sorted := leaders_pairwise u
  rw [← Array.getElem?_toList]
  cases hl : (leaders u).toList with
  | nil =>
    rw [hl] at hmem
    exact absurd hmem List.not_mem_nil
  | cons ip ips =>
    rw [hl] at hmem sorted
    rcases List.mem_cons.mp hmem with rfl | hmem
    · rfl
    · exact absurd ((List.pairwise_cons.mp sorted).1 0 hmem) (Nat.not_lt_zero ip)

/-- The leaders are the instructions that start blocks, in order. -/
theorem leaders_eq_filter {u : CodeUnit} (hu : u.Checked) :
    ((u.instrs.toList.filter fun i => (leaders u).contains i.ip).map (·.ip)) =
      (leaders u).toList := by
  refine List.Pairwise.eq_of_mem_iff ?_ (leaders_pairwise u) fun ip => ?_
  · exact hu.contiguous.pairwise.sublist (List.filter_sublist.map _)
  · constructor
    · intro h
      obtain ⟨i, hi, rfl⟩ := List.mem_map.mp h
      simpa using (List.mem_filter.mp hi).2
    · intro h
      obtain ⟨i, hi, rfl⟩ := leaders_start hu (Array.mem_toList_iff.mp h)
      exact List.mem_map.mpr ⟨i, List.mem_filter.mpr ⟨hi, by simpa using h⟩, rfl⟩

/-- The number of the block that starts at a leader. -/
theorem blockId_ok {starts : Array Nat} {ip : Nat} {b : BlockId}
    (h : blockId starts ip = .ok b) : starts[b]? = some ip := by
  unfold blockId at h
  split at h
  · rename_i b' hb
    cases h
    obtain ⟨hlt, hp, -⟩ := Array.findIdx?_eq_some_iff_getElem.mp hb
    rw [Array.getElem?_eq_getElem hlt]
    simpa using hp
  · cases h

end Lowering

end TieredMachine
