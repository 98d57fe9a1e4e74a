/-
  Where exceptions are reported.

  A traceback reports the instruction that was begun last.  That is the instruction whose
  primitive runs, in the interpreter and in native code alike: native code keeps account of
  the instructions it begins, and runs the primitives of no other.

  * `SitedAt`, `Graph.Sited`: code that runs primitives of the instruction begun last;
  * `lower_sited`: graphs that were lowered are such code;
  * `Comes`: the stages that runs over valid machines come to;
  * **`ArrivesAt.reported`**: what arrives in a frame is raised freshly, and reported where it
    arrived.
-/
import TieredMachine.Proofs.Safety.Run
import TieredMachine.Proofs.Traceback.Arrival

namespace TieredMachine

variable {us : Array CodeUnit} {g : Guest} {e : Ref} {fresh : Bool} {s t : Activation}

/-! ## Instructions of primitives -/

/-- Operations and the way out run primitives of the instruction begun last; `begun` was
    begun before them. -/
def SitedAt (begun : Option Nat) : List Inst → Terminator → Prop
  | [], t => ∀ site p, t.primitive? = some (site, p) → begun = some site.ip
  | i :: is, t => (i.op.primitive?.isSome → begun = some i.site.ip) ∧
      SitedAt (if i.op.isBegin then some i.site.ip else begun) is t

/-- A way out runs a primitive of the instruction that it ends. -/
theorem Exits.sited {u : CodeUnit} {leads : Nat → BlockId → Prop} {i : Instr} {k : Nat}
    {p : Primitive} {t : Terminator} (h : Exits u leads i k p t) : SitedAt (some i.ip) [] t := by
  intro site prim given
  cases h <;> cases given <;> rfl

/-- The rest of a block that does what a unit does from a place on. -/
theorem At.sited {u : CodeUnit} (hu : u.Checked)
    {sets : HandlerId → Nat → BlockKind → Nat → Prop} {assumptions : Array Assumption}
    {leads : Nat → BlockId → Prop} {place : Place} {is : List Inst} {t : Terminator}
    (h : At u sets assumptions leads place is t) :
    ∀ begun, (∀ i k ps, place = .inside i k ps → begun = some i.ip) → SitedAt begun is t := by
  induction h with
  | poll _ ih => exact fun begun _ => ⟨nofun, ih begun nofun⟩
  | begin hi _ ih =>
    refine fun begun _ => ⟨nofun, ih _ fun i k ps inside => ?_⟩
    cases inside
    exact congrArg some (hu.ip_eq hi).symm
  | cached hi _ _ _ _ ih =>
    refine fun begun _ => ⟨nofun, nofun, nofun, ih _ fun i k ps inside => ?_⟩
    cases inside
    exact congrArg some (hu.ip_eq hi).symm
  | @op i k p ps op is t performs _ ih =>
    intro begun inside
    have begun_eq := inside i k (p :: ps) rfl
    have other : op.isBegin = false := by cases performs <;> rfl
    refine ⟨fun _ => begun_eq, ih _ fun j l qs inside => ?_⟩
    cases inside
    simp only [other, Bool.false_eq_true, if_false]
    exact begun_eq
  | next _ ih => exact fun begun _ => ih begun nofun
  | @exit i k p t exits =>
    intro begun inside
    rw [inside i k [p] rfl]
    exact exits.sited
  | fall | trap => exact fun _ _ => nofun

/-- Every block runs primitives of the instruction begun last, whatever was begun before it. -/
def Graph.Sited (G : Graph) : Prop :=
  ∀ b begun, SitedAt begun (G.block b).insts (G.block b).term

/-- A graph that was lowered runs primitives of the instruction begun last. -/
theorem lower_sited {u : CodeUnit} (hu : u.Checked) {h : Heap} {feedback : Feedback}
    {opts : LowerOptions} {G : Graph} (hl : lower h u feedback opts = .ok G) : G.Sited := by
  obtain ⟨most, -, faithful⟩ := lower_faithful hu hl
  intro b begun
  by_cases hb : b < G.blocks.size
  · exact (faithful.code b hb).sited hu begun nofun
  · have none : G.block b = default := by
      unfold Graph.block
      rw [Array.getElem?_eq_none (Nat.le_of_not_lt hb)]
      rfl
    rw [none]
    exact nofun

/-! ## Stages -/

namespace Stage

/-- The frame began last the instruction whose primitives run next. -/
def Sited : Stage → Activation → Prop
  | prims _ ip _ _, s => s.frame.lasti = some ip
  | native _ G _, _ | block _ G _, _ | way _ G _, _ => G.Sited
  | ops _ G is t, s => G.Sited ∧ SitedAt s.frame.lasti is t
  | _, _ => True

theorem sited_stepOr (w : Watch) (exit : Option Exit) : (stepOr w exit).Sited t := by
  cases exit <;> trivial

theorem sited_ofLanding {unit : Ref} {G : Graph} (h : G.Sited) (l : Threaded.Landing) :
    (ofLanding unit G l).Sited t := by
  cases l with
  | block b => exact h
  | exit | bail => trivial

theorem sited_ofExit (unit : Ref) (exit : NativeExit) : (ofExit unit exit).Sited t := by
  cases exit <;> trivial

/-- An instruction that is begun is the one begun last. -/
theorem begin_lasti {w : Watch} {i : Instr} (h : begin w s = .ok i t) :
    t.frame.lasti = some i.ip := by
  obtain ⟨f, u, looked, h⟩ := bind_ok.mp h
  cases looked
  cases found : s.frame.code.instrAt? s.frame.ip with
  | none =>
    simp only [found] at h
    cases h
  | some j =>
    simp only [found] at h
    split at h
    · obtain ⟨_, u, -, h⟩ := bind_ok.mp h
      cases h
      rfl
    · cases h
      rfl

/-- The instruction begun last stays the one whose primitives run. -/
theorem Sited.next {p q : Stage} (h : p.Sited s) (hq : p.next g s = .ok q t) : q.Sited t := by
  cases p with
  | enter w entry =>
    cases entry with
    | throw_ exc =>
      cases hq
      trivial
    | _ =>
      obtain ⟨exit, u, -, hq⟩ := bind_ok.mp hq
      cases hq
      exact sited_stepOr w exit
  | step w =>
    obtain ⟨i, u, begun, hq⟩ := bind_ok.mp hq
    cases hq
    exact begin_lasti begun
  | prims w ip k ps =>
    cases ps with
    | nil =>
      cases hq
      trivial
    | cons prim ps =>
      obtain ⟨out, u, ran, hq⟩ := bind_ok.mp hq
      cases out <;> cases hq <;> first | trivial | exact (Primitive.caught_stays ran).lasti.trans h
  | flow w out =>
    obtain ⟨exit, u, -, hq⟩ := bind_ok.mp hq
    cases hq
    exact sited_stepOr w exit
  | native unit G entry =>
    cases entry with
    | throw_ exc =>
      cases hq
      exact h
    | _ =>
      obtain ⟨l, u, -, hq⟩ := bind_ok.mp hq
      cases hq
      exact sited_ofLanding h l
  | block unit G b =>
    cases hq
    exact ⟨h, h b _⟩
  | ops unit G is term =>
    cases is with
    | nil =>
      obtain ⟨out, u, -, hq⟩ := bind_ok.mp hq
      cases leads : term.edge? out with
      | some along =>
        simp only [leads] at hq
        obtain ⟨l, v, -, hq⟩ := bind_ok.mp hq
        cases hq
        exact sited_ofLanding h.1 l
      | none =>
        simp only [leads] at hq
        cases hq
        exact h.1
    | cons i is =>
      obtain ⟨passed, u, ran, hq⟩ := bind_ok.mp hq
      cases passed <;> cases hq
      · refine ⟨h.1, ?_⟩
        have rest := h.2.2
        cases begins : i.op with
        | begin_ next =>
          unfold Threaded.runOp at ran
          simp only [begins] at ran
          cases ran
          rwa [begins] at rest
        | _ =>
          have other : i.op.isBegin = false := by rw [begins]; rfl
          have stays := (runOp_passes ran).1 fun next => by rw [begins]; exact Op.noConfusion
          rw [other] at rest
          rw [stays.lasti]
          exact rest
      · trivial
      · exact h.1
  | way unit G out =>
    obtain ⟨l, u, -, hq⟩ := bind_ok.mp hq
    cases hq
    exact sited_ofLanding h l
  | kernel unit k entry =>
    obtain ⟨exit, u, -, hq⟩ := bind_ok.mp hq
    cases hq
    exact sited_ofExit unit exit
  | bail unit reason =>
    obtain ⟨entry, u, -, hq⟩ := bind_ok.mp hq
    cases hq
    trivial
  | left exit =>
    cases hq
    trivial

theorem Sited.lasti {p : Stage} (h : p.Sited s) {site : Site} {prim : Primitive}
    (runs : p.primitive? = some (site, prim)) : s.frame.lasti = some site.ip := by
  cases p with
  | prims w ip k ps =>
    cases ps with
    | nil => cases runs
    | cons p ps =>
      cases runs
      exact h
  | ops unit G is term =>
    cases is with
    | nil => exact h.2 site prim runs
    | cons i is =>
      obtain ⟨p, performed, same⟩ := Option.map_eq_some_iff.mp runs
      cases same
      exact h.2.1 (by rw [performed]; rfl)
  | _ => cases runs

/-- A run over a valid machine begins with code that was lowered. -/
theorem sited_first (hu : Built us) {m : Machine} (hm : m.Valid us) (entry : Entry) (f : Frame) :
    (first entry f m).Sited s := by
  unfold first
  cases hn : ((Law.entered entry f m).profile f.code.id).runnable? with
  | none => trivial
  | some n =>
    dsimp only
    split
    · trivial
    · obtain ⟨h, feedback, opts, G, hl, code | ⟨k, -, code⟩⟩ := (hm.entered entry f).runnable hn
      · rw [code]
        exact lower_sited (hu.checked_of_lower hl) hl
      · rw [code]
        trivial

end Stage

/-- The stages that a run of a frame comes to, over a machine that is valid at first. -/
inductive Comes (us : Array CodeUnit) (g : Guest) : Stage → Activation → Prop
  | first {entry f m} : m.Valid us → Comes us g (.first entry f m) ⟨f, m.begun entry f⟩
  | next {p s q t} : Comes us g p s → p.next g s = .ok q t → Comes us g q t

theorem Comes.sited (hu : Built us) {p : Stage} (h : Comes us g p s) : p.Sited s := by
  induction h with
  | first hm => exact Stage.sited_first hu hm _ _
  | next _ hq ih => exact ih.next hq

/-! ## Arrivals -/

/-- An exception arrives in a frame at an instruction: it is thrown into the frame there, or
    the primitive of the instruction raises it that does not take it up again.  The flow
    that raises it is followed next. -/
inductive ArrivesAt (us : Array CodeUnit) (g : Guest) (e : Ref) (ip : Nat) :
    Stage → Activation → Prop
  | thrown {p s q t} : Comes us g p s → p.thrown? = some e → s.frame.position = ip →
      p.next g s = .ok q t → ArrivesAt us g e ip q t
  | raised {p s q t fresh site prim} : Comes us g p s → p.primitive? = some (site, prim) →
      site.ip = ip → ¬ prim.TakesUp e s.frame → p.next g s = .ok q t →
      q.flow? = some (.raise e fresh) → ArrivesAt us g e ip q t

/-- **What arrives is raised freshly, and is reported where it arrived.** -/
theorem ArrivesAt.reported (hu : Built us) {ip : Nat} {q : Stage} (h : ArrivesAt us g e ip q t) :
    q.flow? = some (.raise e true) ∧ t.frame.position = ip := by
  cases h with
  | @thrown p s _ _ comes thrown position next =>
    cases p with
    | enter w entry | native unit G entry =>
      cases entry <;> cases thrown
      cases next
      exact ⟨rfl, position⟩
    | _ => cases thrown
  | @raised p s _ _ fresh site prim comes runs ip_eq new next flow =>
    obtain ⟨thrown, -, -⟩ | ⟨site', prim', runs', tells, stays⟩ := Stage.raised_cases next flow
    · cases p with
      | enter | native => cases runs
      | _ => cases thrown
    · obtain ⟨rfl, rfl⟩ := Prod.mk.inj (Option.some.inj (runs.symm.trans runs'))
      rw [flow, tells.new new, ← ip_eq]
      refine ⟨rfl, ?_⟩
      rw [Frame.position, stays.lasti, (comes.sited hu).lasti runs]
      rfl

end TieredMachine
