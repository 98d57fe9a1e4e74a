/-
  The hotness of a unit.

  Every activation adds one to the hotness of its unit, and every backward jump adds its weight;
  no other operation but a reset touches it.  The counter is a word: it is what was added up as
  long as that fits, and drops back when it does not.  What an activation reports stops at the
  greatest word instead, so that the two part just there.

  * `Beat`, `Beat.record`, `heat`: what is counted, and how much it adds;
  * `Beats`: a history of a profile, with any other operations in between;
  * `Shared.Step.beat_or_rest`: those operations;
  * `Beat.toNat_record`, `Beats.toNat_hotness`: what one beat and a history make of the counter;
  * `Beats.hotness_le`: while the sum fits, the counter only grows;
  * `hotness_exact`: both taken together.
-/
import TieredMachine.Proofs.Tier.Permanence
import Mathlib.Algebra.GroupWithZero.Nat

namespace TieredMachine

/-! ## What is counted -/

/-- Something that makes a unit hotter. -/
inductive Beat where
  | entry
  | backedge (weight : UInt64)

namespace Beat

/-- The profile after a beat. -/
def record (p : Profile) : Beat → Profile
  | entry => p.recordEntry
  | backedge weight => p.recordBackedge weight

/-- The hotness that a beat is worth. -/
def heat : Beat → Nat
  | entry => 1
  | backedge weight => weight.toNat

end Beat

/-- The hotness that several beats are worth. -/
def heat (bs : List Beat) : Nat := (bs.map (·.heat)).sum

/-- The beats of a profile, one after the other.  Between them anything may happen that leaves the
    hotness alone. -/
inductive Beats : Profile → List Beat → Profile → Prop
  | done {p p'} (rest : p'.hotness = p.hotness) : Beats p [] p'
  | beat {p p₁ p' b bs} (rest : p₁.hotness = p.hotness) (run : Beats (b.record p₁) bs p') :
      Beats p (b :: bs) p'

variable {p p' q : Profile} {b : Beat} {bs bs' : List Beat}

/-- Every operation on a shared profile is a beat or leaves the hotness alone. -/
theorem Shared.Step.beat_or_rest {s t : Shared} (h : s.Step t) :
    t.profile.hotness = s.profile.hotness ∨ ∃ b : Beat, t.profile = b.record s.profile := by
  cases h with
  | entry => exact .inr ⟨.entry, rfl⟩
  | backedge weight => exact .inr ⟨.backedge weight, rfl⟩
  | claim manual hm | refused manual hm =>
    left
    show (Profile.beginCompile _ manual).hotness = _
    unfold Profile.beginCompile
    split <;> rfl
  | finish | fail | bail | setManualLevel | setUseNative => exact .inl rfl

/-! ## The counter -/

/-- A beat adds what it is worth, to the word. -/
theorem Beat.toNat_record (p : Profile) (b : Beat) :
    (b.record p).hotness.toNat = (p.hotness.toNat + b.heat) % 2 ^ 64 := by
  cases b with
  | entry => exact UInt64.toNat_add p.hotness 1
  | backedge weight => exact UInt64.toNat_add p.hotness weight

theorem Beat.heat_lt (b : Beat) : b.heat < 2 ^ 64 := by
  cases b with
  | entry => exact Nat.one_lt_two_pow (by decide)
  | backedge weight => exact weight.toNat_lt

/-- A beat makes a unit colder just when the word cannot hold the sum. -/
theorem Beat.record_lt_iff (p : Profile) (b : Beat) :
    (b.record p).hotness < p.hotness ↔ 2 ^ 64 ≤ p.hotness.toNat + b.heat := by
  have fits := p.hotness.toNat_lt
  have small := b.heat_lt
  rw [UInt64.lt_iff_toNat_lt, b.toNat_record]
  omega

/-- What an activation reports is the new hotness, unless that starts again at zero. -/
theorem entryHotness_eq_iff (p : Profile) :
    p.entryHotness = p.recordEntry.hotness ↔ p.hotness.toNat + 1 < 2 ^ 64 := by
  have fits := p.hotness.toNat_lt
  have next : (p.hotness + 1).toNat = (p.hotness.toNat + 1) % 2 ^ 64 := UInt64.toNat_add ..
  show (if p.hotness + 1 = 0 then p.hotness else p.hotness + 1) = p.hotness + 1 ↔ _
  split
  · rename_i zero
    rw [zero, UInt64.toNat_zero] at next
    rw [zero, ← UInt64.toNat_inj, UInt64.toNat_zero]
    omega
  · rename_i nonzero
    rw [← UInt64.toNat_inj, UInt64.toNat_zero] at nonzero
    exact iff_of_true rfl (by omega)

/-! ## Histories -/

theorem heat_cons (b : Beat) (bs : List Beat) : heat (b :: bs) = b.heat + heat bs := by
  rw [heat, List.map_cons, List.sum_cons, heat]

namespace Beats

/-- The counter is what the beats add up to, as far as a word holds it. -/
theorem toNat_hotness (run : Beats p bs q) :
    q.hotness.toNat = (p.hotness.toNat + heat bs) % 2 ^ 64 := by
  induction run with
  | @done p p' rest =>
    rw [rest]
    exact (Nat.mod_eq_of_lt p.hotness.toNat_lt).symm
  | @beat p p₁ p' b bs rest _ ih =>
    rw [ih, b.toNat_record, rest, heat_cons, Nat.mod_add_mod, Nat.add_assoc]

/-- While a word holds the sum, the counter only grows. -/
theorem hotness_le (run : Beats p bs q) (fits : p.hotness.toNat + heat bs < 2 ^ 64) :
    p.hotness ≤ q.hotness := by
  rw [UInt64.le_iff_toNat_le, run.toNat_hotness, Nat.mod_eq_of_lt fits]
  exact Nat.le_add_right ..

end Beats

/-- **Hotness adds up.**  Since the last reset the hotness is the sum of the activations and of the
    weights of the backward jumps, reduced to a word, and no other operation touches it.  Each of
    them makes the unit colder just when the word cannot hold the new sum, and an activation
    reports the new hotness just when it can.  As long as the sum fits, the hotness is the sum, it
    never decreases, and a threshold that it has reached stays reached. -/
theorem hotness_exact (run : Beats p.reset bs q) :
    q.hotness.toNat = heat bs % 2 ^ 64 ∧
    (∀ n t, Shared.Step ⟨q, n⟩ t →
      t.profile.hotness = q.hotness ∨ ∃ b : Beat, t.profile = b.record q) ∧
    (∀ b : Beat, (b.record q).hotness < q.hotness ↔ 2 ^ 64 ≤ q.hotness.toNat + b.heat) ∧
    (q.entryHotness = q.recordEntry.hotness ↔ q.hotness.toNat + 1 < 2 ^ 64) ∧
    (heat bs < 2 ^ 64 → q.hotness.toNat = heat bs) ∧
    ∀ q' bs', Beats q bs' q' → heat bs + heat bs' < 2 ^ 64 → q.hotness ≤ q'.hotness ∧
      ∀ threshold ≤ q.hotness.toNat, threshold ≤ q'.hotness.toNat := by
  have sum : q.hotness.toNat = heat bs % 2 ^ 64 := by
    rw [run.toNat_hotness]
    exact congrArg (· % 2 ^ 64) (Nat.zero_add _)
  have exact_of (fits : heat bs < 2 ^ 64) : q.hotness.toNat = heat bs :=
    sum.trans (Nat.mod_eq_of_lt fits)
  refine ⟨sum, fun n t step => step.beat_or_rest, Beat.record_lt_iff q, entryHotness_eq_iff q,
    exact_of, fun q' bs' later fits => ?_⟩
  have here := exact_of (Nat.lt_of_le_of_lt (Nat.le_add_right ..) fits)
  have grows := later.hotness_le (here.symm ▸ fits)
  exact ⟨grows, fun _ reached => Nat.le_trans reached (UInt64.le_iff_toNat_le.mp grows)⟩

theorem hotness_exact_of_compiling :
    let q := (Beat.entry.record (Profile.reset {})).beginCompile false
    Beats (Profile.reset {}) [.entry] q ∧ q.hotness.toNat = 1 ∧
      q.entryHotness = q.recordEntry.hotness ∧
      q.hotness ≤ ((Beat.backedge 10).record q).hotness := by
  have run : Beats (Profile.reset {}) [.entry]
      ((Beat.entry.record (Profile.reset {})).beginCompile false) := .beat rfl (.done rfl)
  obtain ⟨-, -, -, report, sum, grows⟩ := hotness_exact run
  exact ⟨run, sum (by decide), report.mpr (by decide),
    (grows _ [.backedge 10] (.beat rfl (.done rfl)) (by decide)).1⟩

/-- Two backward jumps of the greatest signed weight and an activation leave the greatest word.
    The next activation reports it once more and sets the counter back to zero. -/
theorem hotness_drops_to_zero :
    let weight : UInt64 := 9223372036854775807
    ∃ q, Beats (Profile.reset {}) [.backedge weight, .backedge weight, .entry] q ∧
      q.hotness.toNat = 2 ^ 64 - 1 ∧ q.entryHotness.toNat = 2 ^ 64 - 1 ∧
      q.recordEntry.hotness = 0 ∧ q.recordEntry.hotness < q.hotness := by
  intro weight
  refine ⟨Beat.entry.record ((Beat.backedge weight).record ((Beat.backedge weight).record
    (Profile.reset {}))), .beat rfl (.beat rfl (.beat rfl (.done rfl))), ?_⟩
  decide

end TieredMachine
