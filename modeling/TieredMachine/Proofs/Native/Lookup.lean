/-
  Blocks that are looked up.

  Where control goes on by an index of the code rather than along an edge, the block that
  starts there is looked up.  Pinned blocks are found where they were after the graph is
  cleaned up; a block that only edges lead to may be gone by then.

  * `Graph.Loose`: where a block starts that is not pinned;
  * `Threaded.Seeks`, `Threaded.LooksUp`, `Threaded.Misplaces`: what a run looks blocks up for;
  * `Graph.cleanUp_blockAt?`: lookups in the graph cleaned up;
  * `Misplaces.strays`: when a run of a frame of the unit looks for a block that is not pinned.
-/
import TieredMachine.Proofs.Native.Guarded

namespace TieredMachine

variable {u : CodeUnit} {special : Bool} {g : Graph} {guest : Guest} {entry : Entry}
  {s t : Activation} {b c : BlockId} {ip : Nat}

/-! ## Lookups in graphs that are cleaned up -/

namespace Graph

/-- A block starts at the index that only edges lead to. -/
def Loose (g : Graph) (ip : Nat) : Prop := ∃ b, g.StartsAt ip b ∧ b ∉ g.pinned

theorem startsAt_of_blockAt? (wf : g.WellFormed) (h : g.blockAt? ip = some b) :
    g.StartsAt ip b := by
  obtain ⟨hb, start⟩ := blockAt?_eq_some wf.numbered h
  exact start ▸ startsAt_of_lt hb

/-- The blocks of the graph cleaned up start where blocks of the graph do. -/
theorem of_cleanUp_startsAt (wf : g.WellFormed) (h : g.cleanUp.StartsAt ip c) :
    ∃ b, g.StartsAt ip b := by
  rw [cleanUp_eq wf] at h
  obtain ⟨b, -, hb, -, same⟩ := exists_of_lt_reduced (threadJumps_wellFormed wf) h.lt
  have start := h.start
  rw [same] at start
  exact ⟨b, threadJumps_startsAt (start ▸ startsAt_of_lt hb)⟩

/-- Where no block is loose, a lookup finds where the block went. -/
theorem cleanUp_blockAt? (wf : g.WellFormed) (h : ¬g.Loose ip) :
    g.cleanUp.blockAt? ip = (g.blockAt? ip).map g.place := by
  cases found : g.blockAt? ip with
  | some b =>
    have starts := startsAt_of_blockAt? wf found
    have hp : b ∈ g.pinned := by_contra fun hp => h ⟨b, starts, hp⟩
    exact (cleanUp_wellFormed wf).blockAt?_eq (cleanUp_startsAt wf hp starts)
  | none =>
    cases found' : g.cleanUp.blockAt? ip with
    | none => rfl
    | some c =>
      obtain ⟨b, starts⟩ :=
        of_cleanUp_startsAt wf (startsAt_of_blockAt? (cleanUp_wellFormed wf) found')
      rw [wf.blockAt?_eq starts] at found
      cases found

theorem stays_of_blockAt? (wf : g.WellFormed) (h : ¬g.Loose ip) (found : g.blockAt? ip = some b) :
    g.Stays b := by
  have starts := startsAt_of_blockAt? wf found
  exact stays_of_pinned starts.lt (by_contra fun hp => h ⟨b, starts, hp⟩)

end Graph

/-- Where control may be placed, the block that starts is pinned. -/
theorem Transcribes.not_loose (h : Transcribes u special g) (anchor : u.Anchor ip) :
    ¬g.Loose ip := by
  rintro ⟨b, starts, hb⟩
  obtain ⟨c, hc, starts'⟩ := h.pinned anchor
  have same := starts.start.trans starts'.start.symm
  exact hb (h.wellFormed.start_inj starts.lt starts'.lt same ▸ hc)

/-! ## What a run looks blocks up for -/

namespace Threaded

/-- The flow that operations and the way out behind them are left with, unless it has an edge. -/
inductive Leaves (guest : Guest) (g : Graph) (is : List Inst) (way : Terminator) (s : Activation) :
    Flow → Activation → Prop
  | within {flow : Flow} {t : Activation} : runOps guest g is s = .ok (.flow flow) t →
      Leaves guest g is way s flow t
  | behind {flow : Flow} {s₁ t : Activation} : runOps guest g is s = .ok .next s₁ →
      way.flow guest s₁ = .ok flow t → way.edge? flow = none → Leaves guest g is way s flow t

/-- The flow places control at an index, for a block to be looked up there. -/
def Places (flow : Flow) (s : Activation) (ip : Nat) : Prop :=
  ∃ t, heading flow s = .ok none t ∧ t.frame.ip = ip

/-- From the block on, the block at an index is looked up. -/
def LooksUp (guest : Guest) (g : Graph) (b : BlockId) (s : Activation) (ip : Nat) : Prop :=
  ∃ flow t, Leaves guest g (g.block b).insts (g.block b).term (entered g b s) flow t ∧
    Places flow t ip

/-- To enter the frame so, the block at an index is looked up. -/
inductive Seeks (g : Graph) (s : Activation) : Entry → Nat → Prop
  | resume {v : Value} : s.frame.lasti.bind g.resumeBlock? = none →
      Seeks g s (.resume v) s.frame.ip
  | throw_ {exc : Ref} {ip : Nat} : Places (.raise exc true) s ip → Seeks g s (.throw_ exc) ip
  | continue_ : Seeks g s .continue_ s.frame.ip

/-- The run looks for a block where one starts that only edges lead to. -/
def Misplaces (guest : Guest) (g : Graph) (entry : Entry) (s : Activation) : Prop :=
  (∃ ip, Seeks g s entry ip ∧ g.Loose ip) ∨
    ∃ b t, Visits guest g entry s b t ∧ ∃ ip, LooksUp guest g b t ip ∧ g.Loose ip

theorem Places.anchor (hs : s.frame.Anchored u) {flow : Flow} (hf : flow.Anchors u)
    (h : Places flow s ip) : u.Anchor ip := by
  obtain ⟨t, headed, rfl⟩ := h
  exact (heading_anchored hs headed).2 hf rfl

/-- A block is left for where control may be placed, unless it strays. -/
theorem LooksUp.anchor (hg : g.Serves u) (hs : s.frame.Anchored u)
    (h : LooksUp guest g b s ip) : u.Anchor ip ∨ Strays guest u g b s := by
  obtain ⟨flow, t, left, places⟩ := h
  have hs' : (entered g b s).frame.Anchored u := hs.at (g.block b).start
  cases left with
  | within ops =>
    obtain ⟨anchored, anchors⟩ := runOps_anchored (hg.ops b) hs' ops
    exact .inl (places.anchor anchored anchors)
  | behind ops out noEdge =>
    obtain ⟨anchored, -⟩ := runOps_anchored (hg.ops b) hs' ops
    obtain ⟨anchored, told⟩ := Terminator.flow_anchored (hg.ways b) anchored out
    rw [noEdge] at told
    obtain told | told | strays := told
    · cases told
    · exact .inl (places.anchor anchored told)
    · exact .inr ⟨_, flow, t, ops, out, strays⟩

/-- A frame is entered where control may be placed. -/
theorem Seeks.anchor (hs : s.frame.Anchored u) (takes : s.frame.Takes u entry)
    (h : Seeks g s entry ip) : u.Anchor ip := by
  cases h with
  | resume =>
    cases takes with
    | resume anchor => exact anchor
  | @throw_ exc _ places =>
    have raised : (Flow.raise exc true).Anchors u := trivial
    exact places.anchor hs raised
  | continue_ =>
    cases takes with
    | continue_ anchor => exact anchor

/-- A run of a frame of the unit looks for no block that only edges lead to, unless it strays. -/
theorem Misplaces.strays (hu : u.Checked) (hg : Transcribes u special g)
    (hs : s.frame.Anchored u) (takes : s.frame.Takes u entry) (h : Misplaces guest g entry s) :
    ∃ b t, Visits guest g entry s b t ∧ Strays guest u g b t := by
  have serves := hg.serves hu
  obtain ⟨ip, seeks, loose⟩ | ⟨b, t, visits, ip, looks, loose⟩ := h
  · exact absurd loose (hg.not_loose (seeks.anchor hs takes))
  · obtain ⟨l, s₁, entered, reaches⟩ := id visits
    have anchored := reaches.anchored serves (enter_lands serves hs takes entered).1
    obtain anchor | strays := looks.anchor serves anchored
    · exact absurd loose (hg.not_loose anchor)
    · exact ⟨b, t, visits, strays⟩

end Threaded

end TieredMachine
