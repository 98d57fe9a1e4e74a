/-
  Laws that are about objects.

  Tiers and records are not objects: counting, compiling, bailing and turning knobs leave
  the heap alone.  So a law that is about the heap only is carried by any session.

  * `Machine.heap_begun`, `Machine.heap_bail`, `Knob.heap_turn`: steps that leave the heap
    alone;
  * `Law.HeapOnly`: laws that are about the heap only;
  * `Law.HeapOnly.carried`: such laws are carried.
-/
import TieredMachine.Proofs.Host.Session
import TieredMachine.Proofs.Host.Plain

namespace TieredMachine

/-! ## Steps that leave the heap alone -/

namespace Machine

variable (m : Machine) (unit : Ref)

theorem heap_bail (reason : BailReason) : (m.bail unit reason).heap = m.heap :=
  (.bail unit reason : Unseen #[] (·.bail unit reason)).heap m

theorem heap_activate (globals : Ref) : (m.activate unit globals).heap = m.heap :=
  (.promote unit globals : Unseen #[] (·.promote unit globals)).heap
    ((m.record .callStartEval).mapProfile unit (·.recordEntry))

theorem heap_beginEval (entry : Entry) : (m.beginEval entry).heap = m.heap := by
  unfold beginEval
  split <;> rfl

theorem heap_beginNative (entry : Entry) : (m.beginNative entry).heap = m.heap := by
  unfold beginNative
  split <;> rfl

/-- A run of a frame begins without a change of the heap. -/
theorem heap_begun (entry : Entry) (f : Frame) : (m.begun entry f).heap = m.heap := by
  have entered : (Law.entered entry f m).heap = m.heap := by
    unfold Law.entered
    split
    · exact heap_activate m _ _
    · rfl
  rw [← entered]
  unfold begun
  dsimp only
  split
  · exact heap_beginEval _ entry
  · split
    · exact (heap_beginEval _ entry).trans (heap_bail _ _ _)
    · exact heap_beginNative _ entry

end Machine

theorem Knob.heap_turn (k : Knob) (m : Machine) : (k.turn m).2.heap = m.heap := by
  have unseen (h : k.isHidden) : Machine.Unseen #[] fun m => (k.turn m).2 := k.unseen_turn h
  cases k with
  | setLevel | setUseNative | resetTier => exact (unseen rfl).heap m
  | setControl | setTracing | setBailError | requestBail => rfl

/-! ## Laws -/

namespace Law

/-- A law is about the heap only. -/
class HeapOnly (L : Law) : Prop where
  same : ∀ {m m' : Machine}, m'.heap = m.heap → L.Bears m m'

/-- Whatever happens leaves such a law standing. -/
theorem HeapOnly.carried {L : Law} [L.HeapOnly] (a : Alarm) : L.Carried a a := by
  have counted (m : Machine) (unit : Ref) (f : Profile → Profile) :
      L.Bears m (m.mapProfile unit f) := HeapOnly.same rfl
  have begun (m : Machine) (entry : Entry) (f : Frame) : L.Bears m (m.begun entry f) :=
    HeapOnly.same (m.heap_begun entry f)
  have bailed (m : Machine) (unit : Ref) (reason : BailReason) : L.Bears m (m.bail unit reason) :=
    HeapOnly.same (m.heap_bail unit reason)
  have turned (m : Machine) (k : Knob) : L.Bears m (k.turn m).2 := HeapOnly.same (k.heap_turn m)
  exact {
    endures := {
      backedge := fun m unit _ => (counted m unit _).kept
      begun := fun m entry f => (begun m entry f).kept
      bail := fun m unit reason => (bailed m unit reason).kept
      turn := fun {m _ k} _ _ => (turned m k).kept }
    le := id
    ahead := fun _ ha hb => by rw [ha] at hb; cases hb
    backedge := fun unit => (counted _ unit _).stands
    begun := fun {m entry f} hm _ => (begun m entry f).stands hm
    bail := fun reason _ _ _ => (bailed _ _ reason).stands
    turn := fun {m _ k} _ hm _ => (turned m k).stands hm }

end Law

end TieredMachine
