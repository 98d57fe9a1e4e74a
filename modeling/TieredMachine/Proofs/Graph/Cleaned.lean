/-
  What becomes of a block.

  Chains of blocks that only jump go ahead, so each ends in a block of another kind before
  the fuel for it does.  An edge to a block leads to where its chain ends, under the number
  that this block has among those that stay.

  * `Graph.goal`, `goal_settled`: where a chain of jumps ends;
  * `Graph.place`, `Graph.Stays`: what becomes of a block;
  * `cleanUp_block`, `Stays.successor`: the blocks that stay;
  * `cleanUp_handlers`, `cleanUp_resume`, `cleanUp_startsAt`: what refers to blocks.
-/
import TieredMachine.Proofs.Graph.Pinned

namespace TieredMachine

variable {g : Graph} {b c : BlockId} {ip : Nat}

/-- Renaming blocks twice is renaming them once. -/
theorem Terminator.mapBlocks_mapBlocks (f f' : BlockId → BlockId) (t : Terminator) :
    (t.mapBlocks f).mapBlocks f' = t.mapBlocks fun b => f' (f b) := by
  cases t with
  | unwind p site next => cases next <;> rfl
  | _ => rfl

namespace Graph

/-! ## Chains of jumps -/

/-- Nothing leads past a pinned block. -/
theorem forwards_of_pinned (hb : b ∈ g.pinned) : g.forwards[b]?.join = none := by
  cases h : g.forwards[b]?.join with
  | none => rfl
  | some t =>
    unfold forwards at h
    rw [Array.getElem?_map] at h
    simp only [Option.join_eq_some_iff, Option.map_eq_some_iff] at h
    obtain ⟨a, ha, h⟩ := h
    obtain ⟨-, rfl⟩ : _ ∧ b = a := by simpa [Array.getElem?_range] using ha
    unfold forward? at h
    dsimp only at h
    split at h
    · simp [hb] at h
    · cases h

theorem resolve_of_none {table : Array (Option BlockId)} (h : table[b]?.join = none)
    (fuel : Nat) : resolve table fuel b = b := by
  cases fuel with
  | zero => rfl
  | succ fuel =>
    unfold resolve
    rw [h]

/-- A chain that has ended goes no further. -/
theorem resolve_succ {table : Array (Option BlockId)} {fuel : Nat}
    (h : table[resolve table fuel b]?.join = none) :
    resolve table (fuel + 1) b = resolve table fuel b := by
  induction fuel generalizing b with
  | zero => exact resolve_of_none h 1
  | succ fuel ih =>
    rw [resolve]
    rw [resolve] at h ⊢
    cases ht : table[b]?.join with
    | none => rfl
    | some t =>
      rw [ht] at h
      exact ih h

theorem lt_of_forwards {t : BlockId} (ht : g.forwards[b]?.join = some t) : b < g.blocks.size := by
  by_contra hle
  have : g.forwards[b]? = none := by simp [forwards, Nat.le_of_not_lt hle]
  rw [this] at ht
  cases ht

/-- A chain of jumps goes ahead, but for its last block. -/
theorem Ascends.forwards (h : g.Ascends) (wf : g.WellFormed) {t : BlockId}
    (ht : g.forwards[b]?.join = some t) : b < t ∨ g.forwards[t]?.join = none := by
  obtain ⟨trivial, term⟩ := forwards_get ht
  have successor : t ∈ g.successors b := mem_successors.mpr (.inl (by
    rw [term]
    exact List.mem_singleton.mpr rfl))
  obtain later | polls := h b t ⟨lt_of_forwards ht, .inl successor⟩
  · exact .inl (wf.lt_of_start_lt (lt_of_forwards ht) later)
  · right
    cases h' : g.forwards[t]?.join with
    | none => rfl
    | some t' =>
      have := not_pollsFirst_of_trivial (forwards_get h').1
      rw [this] at polls
      cases polls

/-- A chain of jumps ends before the fuel does. -/
theorem resolve_settled (h : g.Ascends) (wf : g.WellFormed) (fuel : Nat)
    (hfuel : g.blocks.size - b ≤ fuel) :
    g.forwards[resolve g.forwards fuel b]?.join = none := by
  induction fuel generalizing b with
  | zero =>
    have : g.forwards[b]? = none := by simp [Graph.forwards]; omega
    unfold resolve
    rw [this]
    rfl
  | succ fuel ih =>
    unfold resolve
    split
    · rename_i t ht
      obtain hlt | settled := h.forwards wf ht
      · have := Nat.succ_le_of_lt hlt
        exact ih (by omega)
      · rwa [resolve_of_none settled]
    · assumption

/-- The block that a chain of jumps from a block ends in. -/
def goal (g : Graph) (b : BlockId) : BlockId := resolve g.forwards g.blocks.size b

theorem goal_settled (h : g.Ascends) (wf : g.WellFormed) (b : BlockId) :
    g.forwards[g.goal b]?.join = none := resolve_settled h wf _ (Nat.sub_le _ _)

theorem goal_of_none (h : g.forwards[b]?.join = none) : g.goal b = b := resolve_of_none h _

/-- The chain ends where it does from the next block on. -/
theorem goal_of_some (h : g.Ascends) (wf : g.WellFormed) {t : BlockId}
    (ht : g.forwards[b]?.join = some t) : g.goal t = g.goal b := by
  obtain ⟨n, size⟩ : ∃ n, g.blocks.size = n + 1 :=
    Nat.exists_eq_succ_of_ne_zero (Nat.ne_zero_of_lt (lt_of_forwards ht))
  have settled : g.forwards[resolve g.forwards n t]?.join = none := by
    obtain hlt | settled := h.forwards wf ht
    · have := Nat.succ_le_of_lt hlt
      exact resolve_settled h wf n (by omega)
    · rwa [resolve_of_none settled]
  unfold goal
  rw [size, resolve_succ settled, resolve, ht]

/-! ## New numbers -/

theorem numbersFrom_length (n : Nat) (live : List Bool) :
    (numbersFrom n live).length = live.length := by
  induction live generalizing n with
  | nil => rfl
  | cons keep live ih => exact congrArg (· + 1) (ih _)

/-- Blocks keep their numbers when all of them stay. -/
theorem newNumber_of_all (all : g.reachable.all fun b => b) : g.newNumber = fun b => b := by
  have live {b : BlockId} (hb : b < g.reachable.size) : g.reachable[b]? = some true := by
    rw [Array.getElem?_eq_getElem hb, Array.all_eq_true.mp all b hb]
  funext b
  by_cases hb : b < g.reachable.size
  · rw [newNumber_eq (live hb), rank, List.countP_eq_length.mpr, List.length_take,
      Array.length_toList, Nat.min_eq_left (Nat.le_of_lt hb)]
    intro keep hk
    obtain ⟨n, hn⟩ := List.getElem?_of_mem (List.mem_of_mem_take hk)
    rw [Array.getElem?_toList] at hn
    rw [live (Array.getElem?_eq_some_iff.mp hn).1] at hn
    exact (Option.some.inj hn).symm
  · have none : (renumbering g.reachable)[b]? = none := by
      rw [← Array.getElem?_toList, renumbering_toList, List.getElem?_eq_none_iff,
        numbersFrom_length]
      exact Nat.le_of_not_lt hb
    unfold newNumber
    rw [none]
    rfl

/-- Dropping what is not reached changes nothing when all is reached. -/
theorem dropUnreachable_eq_reduced (wf : g.WellFormed) : g.dropUnreachable = g.reduced := by
  rw [dropUnreachable_eq]
  split
  · rename_i all
    have kept : (g.blocks.filter fun b => g.reachable[b.id]?.getD false) = g.blocks := by
      refine Array.filter_eq_self.mpr fun blk hblk => ?_
      obtain ⟨b, hb⟩ := Array.mem_iff_getElem?.mp hblk
      have hlt : b < g.reachable.size := (reachable_closed g).1 ▸ lt_of_get hb
      rw [wf.numbered b blk hb, Array.getElem?_eq_getElem hlt]
      exact Array.all_eq_true.mp all b hlt
    unfold reduced
    simp only [newNumber_of_all all, kept, Terminator.mapBlocks_id, Array.map_id', List.map_id']
  · rfl

/-! ## What becomes of a block -/

/-- The number of the block that an edge to a block leads to in the graph cleaned up. -/
def place (g : Graph) (b : BlockId) : BlockId := g.threadJumps.newNumber (g.goal b)

/-- An edge to the block leads to a block that is not dropped. -/
def Stays (g : Graph) (b : BlockId) : Prop := g.threadJumps.reachable[g.goal b]? = some true

theorem cleanUp_eq (wf : g.WellFormed) : g.cleanUp = g.threadJumps.reduced :=
  dropUnreachable_eq_reduced (threadJumps_wellFormed wf)

theorem Stays.of_forwards (up : g.Ascends) (wf : g.WellFormed) {t : BlockId}
    (ht : g.forwards[b]?.join = some t) (hb : g.Stays b) : g.Stays t := by
  unfold Stays
  rwa [goal_of_some up wf ht]

theorem place_of_forwards (up : g.Ascends) (wf : g.WellFormed) {t : BlockId}
    (ht : g.forwards[b]?.join = some t) : g.place t = g.place b := by
  unfold place
  rw [goal_of_some up wf ht]

/-- Blocks that are pinned stay. -/
theorem stays_of_pinned (hb : b < g.blocks.size) (hp : b ∈ g.pinned) : g.Stays b := by
  unfold Stays
  rw [goal_of_none (forwards_of_pinned hp)]
  exact reachable_of_pinned (threadJumps_size (g := g) ▸ hb) (threadJumps_pinned g ▸ hp)

theorem place_of_pinned (hp : b ∈ g.pinned) : g.place b = g.threadJumps.newNumber b := by
  unfold place
  rw [goal_of_none (forwards_of_pinned hp)]

/-! A block that stays, and that does not only jump. -/

section

variable (wf : g.WellFormed) (hb : g.Stays b) (last : g.forwards[b]?.join = none)

include hb last in
theorem Stays.reachable : g.threadJumps.reachable[b]? = some true := by
  unfold Stays at hb
  rwa [goal_of_none last] at hb

include hb last in
theorem Stays.lt : b < g.blocks.size := by
  have size := (reachable_closed g.threadJumps).1
  rw [threadJumps_size] at size
  exact size ▸ (Array.getElem?_eq_some_iff.mp (hb.reachable last)).1

include wf hb last in
/-- The block does what it did, and its edges lead to where the blocks went. -/
theorem cleanUp_block : g.cleanUp.block (g.place b) = { g.block b with
    id := g.place b, term := (g.block b).term.mapBlocks g.place } := by
  have place : g.place b = g.threadJumps.newNumber b := by
    unfold Graph.place
    rw [goal_of_none last]
  rw [cleanUp_eq wf, place, reduced_block (threadJumps_wellFormed wf) (hb.reachable last)]
  unfold renumbered
  rw [threadJumps_block (hb.lt last)]
  dsimp only
  rw [Terminator.mapBlocks_mapBlocks]
  rfl

include wf hb last in
theorem Stays.successor (hc : c ∈ (g.block b).term.successors) : g.Stays c := by
  refine reachable_of_successor (threadJumps_wellFormed wf) (hb.reachable last) ?_
  exact (mem_threadJumps_successors (hb.lt last)).mpr (.inl ⟨c, hc, rfl⟩)

end

/-! ## What refers to blocks -/

theorem cleanUp_entry (wf : g.WellFormed) : g.cleanUp.entry = g.place g.entry := by
  rw [cleanUp_eq wf, place_of_pinned List.mem_cons_self]
  rfl

theorem mem_pinned_of_handler {hd : Handler} (h : hd ∈ g.handlers) : hd.target ∈ g.pinned := by
  simp only [pinned, List.mem_cons, List.mem_append, List.mem_map]
  exact .inr (.inl (.inl ⟨hd, Array.mem_toList_iff.mpr h, rfl⟩))

theorem mem_pinned_of_resume {r : Nat × BlockId} (h : r ∈ g.resume) : r.2 ∈ g.pinned := by
  simp only [pinned, List.mem_cons, List.mem_append, List.mem_map]
  exact .inr (.inl (.inr ⟨r, h, rfl⟩))

theorem cleanUp_handlers (wf : g.WellFormed) : g.cleanUp.handlers =
    g.handlers.map fun hd => { hd with target := g.place hd.target } := by
  rw [cleanUp_eq wf]
  refine Array.map_congr_left fun hd hmem => ?_
  rw [place_of_pinned (mem_pinned_of_handler (g := g) hmem)]

theorem cleanUp_resume (wf : g.WellFormed) : g.cleanUp.resume =
    g.resume.map fun r => (r.1, g.place r.2) := by
  rw [cleanUp_eq wf]
  refine List.map_congr_left fun r hmem => ?_
  rw [place_of_pinned (mem_pinned_of_resume (g := g) hmem)]

theorem cleanUp_assumptions (wf : g.WellFormed) : g.cleanUp.assumptions = g.assumptions := by
  rw [cleanUp_eq wf]
  rfl

/-- A handler keeps its kind and the instruction that handles. -/
theorem cleanUp_handler (wf : g.WellFormed) (h : HandlerId) :
    (g.cleanUp.handler h).kind = (g.handler h).kind ∧
      (g.cleanUp.handler h).targetIp = (g.handler h).targetIp := by
  unfold handler
  rw [cleanUp_handlers wf, Array.getElem?_map]
  cases g.handlers[h]? with
  | none => exact ⟨rfl, rfl⟩
  | some hd => exact ⟨rfl, rfl⟩

/-- A suspended frame resumes where the block went. -/
theorem cleanUp_resumeBlock? (wf : g.WellFormed) (lasti : Nat) :
    g.cleanUp.resumeBlock? lasti = (g.resumeBlock? lasti).map g.place := by
  unfold resumeBlock?
  rw [cleanUp_resume wf]
  induction g.resume with
  | nil => rfl
  | cons r rest ih =>
    rw [List.map_cons, List.lookup_cons, List.lookup_cons]
    split
    · rfl
    · exact ih

/-- A pinned block starts where it did. -/
theorem cleanUp_startsAt (wf : g.WellFormed) (hp : b ∈ g.pinned) (h : g.StartsAt ip b) :
    g.cleanUp.StartsAt ip (g.place b) := by
  have stays := stays_of_pinned h.lt hp
  have last := forwards_of_pinned hp
  have lt : g.place b < g.cleanUp.blocks.size := by
    rw [cleanUp_eq wf, place_of_pinned hp]
    exact newNumber_lt (threadJumps_wellFormed wf) (stays.reachable last)
  have start := startsAt_of_lt lt
  rwa [cleanUp_block wf stays last, h.start] at start

end Graph

end TieredMachine
