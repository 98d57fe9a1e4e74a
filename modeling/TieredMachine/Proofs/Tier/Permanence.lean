/-
  The verdict that a unit is interpreted for good.

  Several activations share the profile of a unit, and what they do to it
  interleaves: a compilation that claimed the unit is settled some time later, and
  between the two any other activation may count, bail or turn a knob.

  * `Shared`, `Shared.Step`: a profile with the claims that are not settled yet, and one
    operation on it; a reset is none of them;
  * `Shared.Step.verdict`: one operation keeps the verdict when no claim is open;
  * `verdict_permanent_iff`: no interleaving of operations lifts it, unless a claim is open;
  * `late_install_lifts_verdict`: a claim that was open when the verdict was reached lifts
    it when it is settled by an installation;
  * `verdict_of_fail`: the verdict of a compilation that failed always stands.
-/
import Mathlib.Logic.Relation
import TieredMachine.Tier.Profile

namespace TieredMachine

/-- A profile and the number of claims that are held and not settled. -/
structure Shared where
  profile : Profile := {}
  claims : Nat := 0

namespace Shared

/-- One operation on a shared profile.  Only a compilation that claimed the unit is
    settled, and once. -/
inductive Step : Shared → Shared → Prop
  | entry {p n} : Step ⟨p, n⟩ ⟨p.recordEntry, n⟩
  | backedge {p n} (weight : UInt64) : Step ⟨p, n⟩ ⟨p.recordBackedge weight, n⟩
  | claim {p n} (manual : Bool) : p.mayBegin manual → Step ⟨p, n⟩ ⟨p.beginCompile manual, n + 1⟩
  | refused {p n} (manual : Bool) : ¬p.mayBegin manual → Step ⟨p, n⟩ ⟨p.beginCompile manual, n⟩
  | finish {p n} (level : OptLevel) (graph : Graph) (native : NativeFunction) :
      Step ⟨p, n + 1⟩ ⟨p.finishCompile level graph native, n⟩
  | fail {p n} : Step ⟨p, n + 1⟩ ⟨p.failCompile, n⟩
  | bail {p n} (fatal : Bool) (maxFatalBails : Nat) :
      Step ⟨p, n⟩ ⟨p.recordBail fatal maxFatalBails, n⟩
  | setManualLevel {p n} (level : OptLevel) : Step ⟨p, n⟩ ⟨p.setManualLevel level, n⟩
  | setUseNative {p n} (on : Bool) : Step ⟨p, n⟩ ⟨p.setUseNative on, n⟩

/-- Any number of operations, in any order. -/
abbrev Run : Shared → Shared → Prop := Relation.ReflTransGen Step

/-- The unit is interpreted for good, and no compilation of it is under way. -/
structure Verdict (s : Shared) : Prop where
  tier : s.profile.tier = .permanentlyInterpreted
  settled : s.claims = 0

/-- A unit that is interpreted for good cannot be claimed. -/
theorem not_mayBegin {p : Profile} (h : p.tier = .permanentlyInterpreted) (manual : Bool) :
    ¬p.mayBegin manual := by
  simp [Profile.mayBegin, h]

/-- Native code of a unit that is interpreted for good does not run. -/
theorem runnable?_eq_none {p : Profile} (h : p.tier = .permanentlyInterpreted) :
    p.runnable? = none := by
  have : p.state.tier = .permanentlyInterpreted := h
  simp [Profile.runnable?, TierState.runnable?, this]

/-- **One operation** keeps the verdict. -/
theorem Step.verdict {s t : Shared} (h : Step s t) (hs : s.Verdict) : t.Verdict := by
  obtain ⟨tier, settled⟩ := hs
  cases h with
  | entry => exact ⟨tier, settled⟩
  | backedge weight => exact ⟨tier, settled⟩
  | claim manual hm => exact absurd hm (not_mayBegin tier manual)
  | refused manual hm =>
    refine ⟨?_, settled⟩
    rw [Profile.beginCompile, if_neg hm]
    exact tier
  -- without an open claim there is nothing to settle
  | finish level graph native => exact absurd settled (Nat.succ_ne_zero _)
  | fail => exact absurd settled (Nat.succ_ne_zero _)
  | bail fatal maxFatalBails =>
    refine ⟨?_, settled⟩
    simp only [Profile.recordBail, Profile.tier]
    split
    · rfl
    · exact tier
  | setManualLevel level =>
    refine ⟨?_, settled⟩
    simp only [Profile.tier] at tier
    simp [Profile.setManualLevel, Profile.tier, tier]
  | setUseNative on => exact ⟨tier, settled⟩

/-- Any number of operations keep the verdict. -/
theorem Run.verdict {s t : Shared} (h : Run s t) (hs : s.Verdict) : t.Verdict := by
  induction h with
  | refl => exact hs
  | tail _ step ih => exact step.verdict ih

/-! ## How long the verdict stands -/

/-- Nothing runs natively and nothing is compiled. -/
structure Barred (p : Profile) : Prop where
  tier : p.tier = .permanentlyInterpreted
  unrunnable : p.runnable? = none
  unclaimable : ∀ manual, ¬p.mayBegin manual

theorem Verdict.barred {s : Shared} (h : s.Verdict) : Barred s.profile :=
  ⟨h.tier, runnable?_eq_none h.tier, not_mayBegin h.tier⟩

/-- **The verdict stands for ever exactly when it finds no claim open.**  Then no
    interleaving of operations makes native code runnable or lets a compilation claim the
    unit; otherwise the compilation under way may still install what it made. -/
theorem verdict_permanent_iff {s : Shared} (h : s.profile.tier = .permanentlyInterpreted) :
    (∀ t, Run s t → Barred t.profile) ↔ s.claims = 0 := by
  constructor
  · intro permanent
    obtain ⟨p, claims⟩ := s
    cases claims with
    | zero => rfl
    | succ n =>
      have installed := permanent _ (.single (.finish .o0 default default))
      exact absurd installed.tier (by simp [Profile.finishCompile, Profile.tier])
  · intro settled t run
    exact (run.verdict ⟨h, settled⟩).barred

theorem verdict_permanent_iff_of_bail :
    let s : Shared := ⟨Profile.recordBail {} true 0, 0⟩
    s.profile.tier = .permanentlyInterpreted ∧
      ((∀ t, Run s t → Barred t.profile) ↔ s.claims = 0) :=
  ⟨rfl, verdict_permanent_iff rfl⟩

/-- A claim that is open when a fatal bail reaches the verdict lifts it when it is settled
    by an installation: native code runs again without a reset. -/
theorem late_install_lifts_verdict :
    ∃ s t : Shared, Run {} s ∧ s.profile.tier = .permanentlyInterpreted ∧
      Run s t ∧ t.profile.tier = .native ∧ t.profile.runnable?.isSome := by
  let installed := (Profile.beginCompile {} false).finishCompile .o0 default default
  let disabled := (installed.beginCompile true).recordBail true 1
  refine ⟨⟨disabled, 1⟩, ⟨disabled.finishCompile .o0 default default, 0⟩, ?_, rfl,
    .single (.finish .o0 default default), rfl, rfl⟩
  have first : Run {} ⟨installed, 0⟩ :=
    (Relation.ReflTransGen.single (.claim false rfl)).tail (.finish .o0 default default)
  have again : Step ⟨installed, 0⟩ ⟨installed.beginCompile true, 1⟩ := .claim true rfl
  have bailed : Step ⟨installed.beginCompile true, 1⟩ ⟨disabled, 1⟩ := .bail true 1
  exact (first.tail again).tail bailed

/-! ## Failed compilations -/

/-- At most one claim is open, and one is whenever the unit is being compiled. -/
structure Fair (s : Shared) : Prop where
  atMostOne : s.claims ≤ 1
  claimed : s.claims = 1 → s.profile.tier = .compiling ∨
    s.profile.tier = .permanentlyInterpreted

/-- One operation keeps claims fair. -/
theorem Step.fair {s t : Shared} (h : Step s t) (hs : s.Fair) : t.Fair := by
  obtain ⟨atMostOne, claimed⟩ := hs
  cases h with
  | entry => exact ⟨atMostOne, claimed⟩
  | backedge weight => exact ⟨atMostOne, claimed⟩
  | @claim p n manual hm =>
    -- a unit with an open claim cannot be claimed again
    have free : n ≠ 1 := by
      intro h
      cases claimed h with
      | inl tier => simp [Profile.mayBegin, tier] at hm
      | inr tier => exact not_mayBegin tier manual hm
    simp only at atMostOne
    refine ⟨by simp only; omega, fun _ => .inl ?_⟩
    rw [Profile.beginCompile, if_pos hm]
    rfl
  | refused manual hm =>
    rw [Profile.beginCompile, if_neg hm]
    exact ⟨atMostOne, claimed⟩
  | finish level graph native =>
    simp only at atMostOne
    exact ⟨by simp only; omega, by simp only; omega⟩
  | fail =>
    simp only at atMostOne
    exact ⟨by simp only; omega, by simp only; omega⟩
  | bail fatal maxFatalBails =>
    refine ⟨atMostOne, fun h => ?_⟩
    simp only [Profile.recordBail, Profile.tier]
    split
    · exact .inr rfl
    · exact claimed h
  | setManualLevel level =>
    refine ⟨atMostOne, fun h => ?_⟩
    have := claimed h
    simp only [Profile.tier] at this
    simp only [Profile.setManualLevel, Profile.tier]
    split
    · simp_all
    · exact this
  | setUseNative on => exact ⟨atMostOne, claimed⟩

theorem Run.fair {s t : Shared} (h : Run s t) (hs : s.Fair) : t.Fair := by
  induction h with
  | refl => exact hs
  | tail _ step ih => exact step.fair ih

/-- A compilation that fails reaches a verdict that stands for ever. -/
theorem verdict_of_fail {p : Profile} {n : Nat} (h : Run {} ⟨p, n + 1⟩) :
    Verdict ⟨p.failCompile, n⟩ := by
  have fresh : Fair {} := ⟨Nat.zero_le 1, by simp⟩
  have : n + 1 ≤ 1 := (h.fair fresh).atMostOne
  exact ⟨rfl, Nat.le_zero.mp (Nat.le_of_succ_le_succ this)⟩

end Shared

end TieredMachine
