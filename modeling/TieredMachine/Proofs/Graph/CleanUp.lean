/-
  Cleaning up keeps graphs faithful.

  An edge that is led past a block which does nothing but jump leads past one more
  instruction that only jumps.  Blocks that are dropped are reached by no edge of a block
  that stays, and the new numbers follow the blocks.

  * `resolve_leads`, `threadJumps_faithful`: jumps that are threaded;
  * `mark_closed`, `reachable_closed`: what a search reaches;
  * `renumbering_get`, `dropUnreachable_faithful`: blocks that are dropped;
  * `lower_faithful`: the graph of a unit does what the unit does.
-/
import Mathlib.Algebra.BigOperators.Group.Finset.Basic
import Mathlib.Algebra.BigOperators.Intervals
import TieredMachine.Graph.CleanUp
import TieredMachine.Proofs.Graph.Lowered

namespace TieredMachine

variable {u : CodeUnit} {h : Heap} {most : Nat} {g : Graph}

namespace Graph

/-! ## Threading jumps -/

/-- A graph leads where another one does when its blocks start at the same indices. -/
theorem Leads.mono {g' : Graph} {m m' ip : Nat} {b : BlockId} (hl : g.Leads u m ip b)
    (hm : m ≤ m') (hsize : g'.blocks.size = g.blocks.size)
    (hstart : (g'.block b).start = (g.block b).start) : g'.Leads u m' ip b := by
  obtain ⟨hb, n, hn, hops⟩ := hl
  refine ⟨hsize ▸ hb, n, Nat.le_trans hn hm, ?_⟩
  rw [hstart]
  exact hops

/-- A block that does nothing but jump stands for one instruction that only jumps. -/
theorem trivialJump_hops (hf : Faithful u h most g) {b : BlockId} (hb : b < g.blocks.size)
    (ht : (g.block b).isTrivialJump) {t : BlockId} (hterm : (g.block b).term = .goto t) :
    ∃ ip, Hops u 1 (g.block b).start ip ∧ g.Leads u most ip t := by
  have code := hf.code b hb
  unfold GraphBlock.isTrivialJump at ht
  rw [hterm] at code
  generalize (g.block b).start = start at code
  generalize (g.block b).insts = insts at ht code
  split at ht
  · cases code with
    | begin hi hin =>
      rename_i i
      generalize hps : i.prims = ps at hin
      cases hin with
      | next _ =>
        have hops := (hf.unit.primitives hi).1
        rw [hps] at hops
        generalize i.op = op at hops
        cases op <;> cases hops
      | exit hx =>
        cases hx with
        | goto hj ht hl => exact ⟨_, .jump hi hps hj ht .here, hl⟩
  · cases ht

/-- Jumps that are threaded lead where they did, past more instructions that only jump. -/
theorem resolve_leads (hf : Faithful u h most g) {table : Array (Option BlockId)}
    (htable : ∀ b t, table[b]?.join = some t →
      (g.block b).isTrivialJump ∧ (g.block b).term = .goto t)
    (fuel : Nat) {m ip : Nat} {b : BlockId} (hl : g.Leads u m ip b) :
    g.Leads u (m + fuel * (most + 1)) ip (resolve table fuel b) := by
  induction fuel generalizing m b with
  | zero =>
    unfold resolve
    exact hl.mono (Nat.le_add_right _ _) rfl rfl
  | succ fuel ih =>
    unfold resolve
    split
    · rename_i t ht
      obtain ⟨hb, n, hn, hops⟩ := hl
      obtain ⟨htriv, hterm⟩ := htable b t ht
      obtain ⟨ip', hops', hlt, n', hn', hops''⟩ := trivialJump_hops hf hb htriv hterm
      have next : g.Leads u (m + (most + 1)) ip t :=
        ⟨hlt, n + 1 + n', by omega, (hops.trans hops').trans hops''⟩
      refine (ih next).mono ?_ rfl rfl
      rw [Nat.succ_mul]
      omega
    · exact hl.mono (Nat.le_add_right _ _) rfl rfl

theorem forward?_eq_some {pins : List BlockId} {b t : BlockId}
    (h : g.forward? pins b = some t) :
    (g.block b).isTrivialJump ∧ (g.block b).term = .goto t := by
  unfold forward? at h
  dsimp only at h
  split at h
  · rename_i t' hterm
    split at h
    · rename_i hc
      cases h
      simp only [Bool.and_eq_true] at hc
      exact ⟨hc.1.1, hterm⟩
    · cases h
  · cases h

/-- Where the edges to each block may be led past it. -/
def forwards (g : Graph) : Array (Option BlockId) :=
  (Array.range g.blocks.size).map (g.forward? g.pinned)

theorem forwards_get {b t : BlockId} (h : g.forwards[b]?.join = some t) :
    (g.block b).isTrivialJump ∧ (g.block b).term = .goto t := by
  unfold forwards at h
  rw [Array.getElem?_map] at h
  simp only [Option.join_eq_some_iff, Option.map_eq_some_iff] at h
  obtain ⟨a, ha, h⟩ := h
  rw [Array.getElem?_range] at ha
  split at ha <;> cases ha
  exact forward?_eq_some h

/-- A block of the graph with its jumps threaded. -/
theorem threadJumps_block {b : BlockId} (hb : b < g.blocks.size) :
    g.threadJumps.block b = { g.block b with
      term := (g.block b).term.mapBlocks (resolve g.forwards g.blocks.size) } := by
  unfold threadJumps block forwards
  simp [hb]

theorem threadJumps_leads {ip : Nat} {b : BlockId}
    (hl : g.Leads u most ip b) :
    g.threadJumps.Leads u (most + g.blocks.size * (most + 1)) ip b :=
  hl.mono (Nat.le_add_right _ _) (by simp [threadJumps]) (by rw [threadJumps_block hl.1])

/-- Threading jumps keeps graphs faithful. -/
theorem threadJumps_faithful (hf : Faithful u h most g) :
    Faithful u h (most + g.blocks.size * (most + 1)) g.threadJumps where
  unit := hf.unit
  numbered b blk hblk := by
    unfold threadJumps at hblk
    obtain ⟨blk', hblk', rfl⟩ := Option.map_eq_some_iff.mp (Array.getElem?_map .. ▸ hblk)
    exact hf.numbered b blk' hblk'
  code b hb := by
    have hb : b < g.blocks.size := by simpa [threadJumps] using hb
    rw [threadJumps_block hb]
    refine (hf.code b hb).mapBlocks (fun _ _ _ _ hs => hs) (fun _ _ ha => ha)
      fun b' _ ip hl => ?_
    have resolved := resolve_leads hf (fun _ _ => forwards_get) g.blocks.size hl
    exact resolved.mono (Nat.le_refl _) (by simp [threadJumps])
      (by rw [threadJumps_block resolved.1])
  opens b hb := by
    have hb : b < g.blocks.size := by simpa [threadJumps] using hb
    rw [threadJumps_block hb]
    exact hf.opens b hb
  entry := threadJumps_leads hf.entry
  resume ip b hr := by
    obtain ⟨i, hi, hl⟩ := hf.resume ip b hr
    exact ⟨i, hi, threadJumps_leads hl⟩
  assumed := hf.assumed

/-! ## What a search reaches -/

/-- Whatever is seen has all its successors seen, or in the worklist. -/
def Open (g : Graph) (work : List BlockId) (seen : Array Bool) : Prop :=
  ∀ b : BlockId, seen[b]? = some true → ∀ c ∈ g.successors b, c ∈ work ∨ seen[c]?.getD true

/-- The number of edges that a search has still to look at. -/
def pending (g : Graph) (seen : Array Bool) : Nat :=
  ∑ b ∈ Finset.range g.blocks.size, if seen[b]?.getD true then 0 else (g.successors b).length

/-- A block that is marked has its edges looked at. -/
theorem pending_mark {seen : Array Bool} {b : BlockId} (hb : b < g.blocks.size)
    (hs : seen[b]? = some false) :
    g.pending (seen.setIfInBounds b true) + (g.successors b).length = g.pending seen := by
  have hlt := (Array.getElem?_eq_some_iff.mp hs).1
  have mem : b ∈ Finset.range g.blocks.size := Finset.mem_range.mpr hb
  unfold pending
  rw [← Finset.add_sum_erase _ _ mem, ← Finset.add_sum_erase _ _ mem]
  have others : ∀ c ∈ (Finset.range g.blocks.size).erase b,
      (seen.setIfInBounds b true)[c]?.getD true = seen[c]?.getD true := by
    intro c hc
    rw [Array.getElem?_setIfInBounds_ne (Finset.ne_of_mem_erase hc).symm]
  rw [Finset.sum_congr rfl fun c hc => by rw [others c hc], Array.getElem?_setIfInBounds_self, hs]
  simp [hlt, Nat.add_comm]

/-- A search with enough fuel reaches its worklist, and ends with nothing left to look
    at. -/
theorem mark_closed (fuel : Nat) {work : List BlockId} {seen : Array Bool}
    (hsize : seen.size = g.blocks.size) (hfuel : work.length + g.pending seen ≤ fuel)
    (hopen : g.Open work seen) :
    (g.mark fuel work seen).size = g.blocks.size ∧ g.Open [] (g.mark fuel work seen) ∧
      (∀ c : BlockId, seen[c]?.getD true → (g.mark fuel work seen)[c]?.getD true) ∧
      ∀ c ∈ work, (g.mark fuel work seen)[c]?.getD true := by
  induction fuel generalizing work seen with
  | zero =>
    have empty : work = [] := List.eq_nil_of_length_eq_zero (by omega)
    subst empty
    exact ⟨hsize, hopen, fun _ h => h, fun _ h => absurd h List.not_mem_nil⟩
  | succ fuel ih =>
    cases work with
    | nil => exact ⟨hsize, hopen, fun _ h => h, fun _ h => absurd h List.not_mem_nil⟩
    | cons b rest =>
      unfold mark
      rw [List.length_cons] at hfuel
      split
      · rename_i hb
        have hopen' : g.Open rest seen := fun b' hb' c hc => by
          rcases hopen b' hb' c hc with hc | hc
          · rcases List.mem_cons.mp hc with rfl | hc
            · exact .inr hb
            · exact .inl hc
          · exact .inr hc
        obtain ⟨size, closed, kept, reached⟩ := ih hsize (by omega) hopen'
        refine ⟨size, closed, kept, fun c hc => ?_⟩
        rcases List.mem_cons.mp hc with rfl | hc
        · exact kept c hb
        · exact reached c hc
      · rename_i hb
        have hs : seen[b]? = some false := by
          cases hs : seen[b]? with
          | none => simp [hs] at hb
          | some v => simpa [hs] using hb
        have hlt : b < g.blocks.size := hsize ▸ (Array.getElem?_eq_some_iff.mp hs).1
        have marked : (seen.setIfInBounds b true)[b]?.getD true := by
          rw [Array.getElem?_setIfInBounds_self]
          split <;> rfl
        have more (c : BlockId) (hc : seen[c]?.getD true) :
            (seen.setIfInBounds b true)[c]?.getD true := by
          by_cases hcb : b = c
          · subst hcb
            exact marked
          · rwa [Array.getElem?_setIfInBounds_ne hcb]
        have hopen' : g.Open (g.successors b ++ rest) (seen.setIfInBounds b true) := by
          intro b' hb' c hc
          by_cases hbb : b = b'
          · subst hbb
            exact .inl (List.mem_append_left _ hc)
          · rw [Array.getElem?_setIfInBounds_ne hbb] at hb'
            rcases hopen b' hb' c hc with hc | hc
            · rcases List.mem_cons.mp hc with rfl | hc
              · exact .inr marked
              · exact .inl (List.mem_append_right _ hc)
            · exact .inr (more c hc)
        have fewer := pending_mark hlt hs
        obtain ⟨size, closed, kept, reached⟩ := ih (by simpa using hsize)
          (by rw [List.length_append]; omega) hopen'
        refine ⟨size, closed, fun c hc => kept c (more c hc), fun c hc => ?_⟩
        rcases List.mem_cons.mp hc with rfl | hc
        · exact kept c marked
        · exact reached c (List.mem_append_right _ hc)

/-- The bound on a search is enough. -/
theorem edgeBound_eq (g : Graph) : g.edgeBound =
    g.pinned.length + g.pending (.replicate g.blocks.size false) + 1 := by
  have sum (f : Nat → Nat) (n : Nat) :
      ((List.range n).map f).foldl (· + ·) 0 = ∑ b ∈ Finset.range n, f b := by
    induction n with
    | zero => rfl
    | succ n ih =>
      rw [List.range_succ, List.map_append, List.foldl_append, ih, Finset.sum_range_succ]
      rfl
  unfold edgeBound pending
  dsimp only
  rw [sum]
  refine congrArg (_ + · + 1) (Finset.sum_congr rfl fun b hb => ?_)
  simp [Finset.mem_range.mp hb]

/-- What is reached is closed, and holds the blocks that can be entered. -/
theorem reachable_closed (g : Graph) : g.reachable.size = g.blocks.size ∧
    g.Open [] g.reachable ∧ ∀ b ∈ g.pinned, g.reachable[b]?.getD true := by
  have none (b : BlockId) : (Array.replicate g.blocks.size false)[b]? ≠ some true := by
    rw [Array.getElem?_replicate]
    split <;> simp
  have hopen : g.Open g.pinned (.replicate g.blocks.size false) :=
    fun b hb => absurd hb (none b)
  obtain ⟨size, closed, -, reached⟩ := mark_closed (g.edgeBound + g.blocks.size)
    (Array.size_replicate ..) (by rw [edgeBound_eq]; omega) hopen
  exact ⟨size, closed, reached⟩

/-! ## New numbers -/

/-- The number of blocks before one that stay. -/
def rank (live : Array Bool) (b : BlockId) : BlockId := (live.toList.take b).countP id

/-- The new numbers, from a number on. -/
def numbersFrom : Nat → List Bool → List (Option BlockId)
  | _, [] => []
  | n, keep :: live => (if keep then some n else none) :: numbersFrom (n + keep.toNat) live

theorem renumbering_toList (live : Array Bool) :
    (renumbering live).toList = numbersFrom 0 live.toList := by
  have fold (l : List Bool) (out : Array (Option BlockId)) (n : Nat) :
      (l.foldl (fun (s : Array (Option BlockId) × Nat) keep =>
        if keep then (s.1.push (some s.2), s.2 + 1) else (s.1.push none, s.2)) (out, n)).1.toList =
        out.toList ++ numbersFrom n l := by
    induction l generalizing out n with
    | nil => simp [numbersFrom]
    | cons keep l ih => cases keep <;> simp [numbersFrom, ih]
  unfold renumbering
  rw [← Array.foldl_toList, fold]
  rfl

theorem numbersFrom_get (n : Nat) {live : List Bool} {b : BlockId} (hb : live[b]? = some true) :
    (numbersFrom n live)[b]? = some (some (n + (live.take b).countP id)) := by
  induction live generalizing n b with
  | nil => cases hb
  | cons keep live ih =>
    cases b with
    | zero =>
      cases hb
      rfl
    | succ b =>
      rw [List.getElem?_cons_succ] at hb
      unfold numbersFrom
      rw [List.getElem?_cons_succ, ih _ hb, List.take_succ_cons, List.countP_cons]
      cases keep
      · simp
      · simp
        omega

/-- The new number of a block that stays is the number of those before it. -/
theorem renumbering_get (live : Array Bool) {b : BlockId} (hb : live[b]? = some true) :
    (renumbering live)[b]?.join = some (rank live b) := by
  rw [← Array.getElem?_toList, renumbering_toList,
    numbersFrom_get 0 (by rwa [Array.getElem?_toList]), Nat.zero_add]
  rfl

/-- The place of what stays in a list is the number of those before it that stay. -/
theorem getElem?_filter_of_mem {α : Type} (p : α → Bool) (l : List α) {n : Nat} {a : α}
    (ha : l[n]? = some a) (hp : p a) : (l.filter p)[(l.take n).countP p]? = some a := by
  induction l generalizing n with
  | nil => cases ha
  | cons b l ih =>
    cases n with
    | zero =>
      cases ha
      simp [hp]
    | succ n =>
      rw [List.getElem?_cons_succ] at ha
      have := ih ha
      by_cases hb : p b
      · simpa [hb] using this
      · simpa [hb] using this

/-- What stays in a list was in it, after as many that stay as come before it. -/
theorem mem_of_getElem?_filter {α : Type} (p : α → Bool) (l : List α) {k : Nat} {a : α}
    (ha : (l.filter p)[k]? = some a) :
    ∃ n, l[n]? = some a ∧ p a ∧ (l.take n).countP p = k := by
  induction l generalizing k with
  | nil => cases ha
  | cons b l ih =>
    by_cases hb : p b
    · rw [List.filter_cons_of_pos hb] at ha
      cases k with
      | zero =>
        cases ha
        exact ⟨0, rfl, hb, rfl⟩
      | succ k =>
        obtain ⟨n, hn, hp, hk⟩ := ih ha
        exact ⟨n + 1, hn, hp, by simp [hb, hk]⟩
    · rw [List.filter_cons_of_neg hb] at ha
      obtain ⟨n, hn, hp, hk⟩ := ih ha
      exact ⟨n + 1, hn, hp, by simp [hb, hk]⟩

/-! ## Dropping blocks -/

/-- Handlers set up what they did when their blocks have other numbers. -/
theorem SetBy.renamed {handlers : Array Handler} {hd : HandlerId} {ip : Nat} {kind : BlockKind}
    {target : Nat} (hs : SetBy handlers hd ip kind target) (f : BlockId → BlockId) :
    SetBy (handlers.map fun h => { h with target := f h.target }) hd ip kind target := by
  obtain ⟨hfind, hkind, htarget⟩ := hs
  obtain ⟨hlt, -, -⟩ := Array.findIdx?_eq_some_iff_getElem.mp hfind
  have get : (handlers.map fun h => { h with target := f h.target })[hd]?.getD default =
      { handlers[hd]?.getD default with target := f (handlers[hd]?.getD default).target } := by
    simp [hlt]
  refine ⟨?_, by rw [get]; exact hkind, by rw [get]; exact htarget⟩
  rw [Array.findIdx?_map]
  exact hfind

/-- The new number of a block. -/
def newNumber (g : Graph) (b : BlockId) : BlockId :=
  ((renumbering g.reachable)[b]?.join).getD b

/-- A block under its new number. -/
def renumbered (g : Graph) (b : BlockId) : GraphBlock :=
  { g.block b with id := g.newNumber b, term := (g.block b).term.mapBlocks g.newNumber }

/-- The graph without the blocks that are not reached, when there are any. -/
def reduced (g : Graph) : Graph :=
  { g with
    blocks := (g.blocks.filter fun b => g.reachable[b.id]?.getD false).map fun b =>
      { b with id := g.newNumber b.id, term := b.term.mapBlocks g.newNumber }
    handlers := g.handlers.map fun h => { h with target := g.newNumber h.target }
    resume := g.resume.map fun r => (r.1, g.newNumber r.2)
    entry := g.newNumber g.entry }

theorem dropUnreachable_eq (g : Graph) :
    g.dropUnreachable = if g.reachable.all fun b => b then g else g.reduced := rfl

theorem newNumber_eq {b : BlockId} (hb : g.reachable[b]? = some true) :
    g.newNumber b = rank g.reachable b := by
  unfold newNumber
  rw [renumbering_get _ hb]
  rfl

/-- Which blocks stay is told by their numbers. -/
theorem reachable_toList (hn : ∀ b (blk : GraphBlock), g.blocks[b]? = some blk → blk.id = b) :
    g.blocks.toList.map (fun b => g.reachable[b.id]?.getD false) = g.reachable.toList := by
  have size := (reachable_closed g).1
  refine List.ext_getElem? fun n => ?_
  rw [List.getElem?_map, Array.getElem?_toList, Array.getElem?_toList]
  cases hblk : g.blocks[n]? with
  | none =>
    have : g.reachable.size ≤ n := size ▸ Array.getElem?_eq_none_iff.mp hblk
    rw [Array.getElem?_eq_none this]
    rfl
  | some blk =>
    have hlt : n < g.reachable.size := size ▸ (Array.getElem?_eq_some_iff.mp hblk).1
    rw [Option.map_some, hn n blk hblk, Array.getElem?_eq_getElem hlt]
    rfl

theorem rank_eq_countP (hn : ∀ b (blk : GraphBlock), g.blocks[b]? = some blk → blk.id = b)
    (b : BlockId) : rank g.reachable b =
      (g.blocks.toList.take b).countP fun blk => g.reachable[blk.id]?.getD false := by
  unfold rank
  rw [← reachable_toList hn, ← List.map_take, List.countP_map]
  rfl

/-- A block that stays is found under its new number. -/
theorem reduced_get (hn : ∀ b (blk : GraphBlock), g.blocks[b]? = some blk → blk.id = b)
    {b : BlockId} (hb : g.reachable[b]? = some true) :
    g.reduced.blocks[g.newNumber b]? = some (g.renumbered b) := by
  have hlt : b < g.blocks.size :=
    (reachable_closed g).1 ▸ (Array.getElem?_eq_some_iff.mp hb).1
  have hblk : g.blocks.toList[b]? = some (g.block b) := by
    unfold block
    simp [hlt]
  have hid : (g.block b).id = b := hn b _ (by rwa [Array.getElem?_toList] at hblk)
  have found := getElem?_filter_of_mem (fun blk => g.reachable[blk.id]?.getD false)
    g.blocks.toList hblk (by rw [hid, hb]; rfl)
  rw [← rank_eq_countP hn, ← newNumber_eq hb] at found
  unfold reduced renumbered
  rw [← Array.getElem?_toList, Array.toList_map, Array.toList_filter, List.getElem?_map, found,
    Option.map_some, hid]

/-- What is found under a new number is a block that stays. -/
theorem exists_of_reduced_get
    (hn : ∀ b (blk : GraphBlock), g.blocks[b]? = some blk → blk.id = b) {k : BlockId}
    {blk : GraphBlock} (hk : g.reduced.blocks[k]? = some blk) :
    ∃ b, g.reachable[b]? = some true ∧ b < g.blocks.size ∧ g.newNumber b = k ∧
      blk = g.renumbered b := by
  unfold reduced at hk
  rw [← Array.getElem?_toList, Array.toList_map, Array.toList_filter, List.getElem?_map] at hk
  obtain ⟨blk', hblk', rfl⟩ := Option.map_eq_some_iff.mp hk
  obtain ⟨b, hb, hp, hrank⟩ := mem_of_getElem?_filter _ _ hblk'
  rw [Array.getElem?_toList] at hb
  have hid := hn b blk' hb
  have hlt := (Array.getElem?_eq_some_iff.mp hb).1
  have live : g.reachable[b]? = some true := by
    rw [hid] at hp
    cases hr : g.reachable[b]? with
    | none => simp [hr] at hp
    | some v => simpa [hr] using hp
  have same : g.block b = blk' := by
    unfold block
    rw [hb]
    rfl
  refine ⟨b, live, hlt, ?_, ?_⟩
  · rw [newNumber_eq live, rank_eq_countP hn, hrank]
  · unfold renumbered
    rw [same, hid]

/-- Where an edge leads to a block that stays, the renamed edge leads. -/
theorem reduced_leads (hf : Faithful u h most g) {ip : Nat} {b : BlockId}
    (hb : g.reachable[b]?.getD true) (hl : g.Leads u most ip b) :
    g.reduced.Leads u most ip (g.newNumber b) := by
  obtain ⟨hlt, n, hn, hops⟩ := hl
  have live : g.reachable[b]? = some true := by
    have hlt : b < g.reachable.size := (reachable_closed g).1 ▸ hlt
    simpa [hlt] using hb
  have found := reduced_get hf.numbered live
  refine ⟨(Array.getElem?_eq_some_iff.mp found).1, n, hn, ?_⟩
  have start : (g.reduced.block (g.newNumber b)).start = (g.block b).start := by
    unfold block
    rw [found]
    rfl
  rw [start]
  exact hops

theorem reduced_faithful (hf : Faithful u h most g) : Faithful u h most g.reduced where
  unit := hf.unit
  numbered k blk hk := by
    obtain ⟨b, -, -, rfl, rfl⟩ := exists_of_reduced_get hf.numbered hk
    rfl
  code k hk := by
    have hblk : g.reduced.blocks[k]? = some (g.reduced.block k) := by
      unfold block
      simp [hk]
    obtain ⟨b, hb, hlt, rfl, hsame⟩ := exists_of_reduced_get hf.numbered hblk
    rw [hsame]
    refine (hf.code b hlt).mapBlocks (fun hd ip kind target hs => ?_) (fun _ _ ha => ha)
      fun c hc ip hl => reduced_leads hf ?_ hl
    · exact SetBy.renamed hs g.newNumber
    · rcases (reachable_closed g).2.1 b hb c (List.mem_append_left _ hc) with hc | hc
      · exact absurd hc List.not_mem_nil
      · exact hc
  opens k hk := by
    have hblk : g.reduced.blocks[k]? = some (g.reduced.block k) := by
      unfold block
      simp [hk]
    obtain ⟨b, hb, hlt, rfl, hsame⟩ := exists_of_reduced_get hf.numbered hblk
    rw [hsame]
    exact hf.opens b hlt
  entry := reduced_leads hf ((reachable_closed g).2.2 _ List.mem_cons_self) hf.entry
  resume ip k hr := by
    obtain ⟨⟨ip', b⟩, hmem, heq⟩ := List.mem_map.mp hr
    cases heq
    obtain ⟨i, hi, hl⟩ := hf.resume ip' b hmem
    refine ⟨i, hi, reduced_leads hf ((reachable_closed g).2.2 _ ?_) hl⟩
    unfold pinned
    have : b ∈ g.resume.map (·.2) := List.mem_map_of_mem hmem
    simp [this]
  assumed := hf.assumed

/-- Dropping blocks that are not reached keeps graphs faithful. -/
theorem dropUnreachable_faithful (hf : Faithful u h most g) :
    Faithful u h most g.dropUnreachable := by
  rw [dropUnreachable_eq]
  split
  · exact hf
  · exact reduced_faithful hf

end Graph

/-- **The graph of a unit does what the unit does.**  Its edges lead past at most as many
    instructions that only jump as it had blocks. -/
theorem lower_faithful (hu : u.Checked) {feedback : Feedback} {opts : LowerOptions}
    (hg : lower h u feedback opts = .ok g) : ∃ most ≤ u.words.size, Faithful u h most g := by
  unfold lower at hg
  obtain ⟨g₀, hg₀, hout⟩ := except_bind_ok.mp hg
  obtain ⟨c, a, e, from_, rfl, -⟩ := lowerPlain_ok hu hg₀
  have plain := from_.faithful hu
  obtain rfl := Except.ok.inj hout
  split
  · refine ⟨_, ?_, Graph.dropUnreachable_faithful (Graph.threadJumps_faithful plain)⟩
    rw [Nat.zero_add, Nat.mul_one]
    exact from_.size_le
  · exact ⟨0, Nat.zero_le _, plain⟩

end TieredMachine
