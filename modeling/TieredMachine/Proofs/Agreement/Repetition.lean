/-
  Computations that are repeated until they answer.

  An interpreter repeats one turn until a frame is left.  A bound on the turns is all the fuel
  there is: with more of it nothing changes for a run that is not out of it.

  * `repeating`, `times`: a computation repeated until it answers, and some number of times;
  * `repeating_add`, `times_add`: a run begins with so many repetitions;
  * `repeating_more`: more fuel changes nothing.
-/
import TieredMachine.Proofs.Agreement.Basic

namespace TieredMachine

variable {σ α : Type} {x : EStateM Fault σ (Option α)} {s t : σ}

/-- Repeats a computation until it answers, at most so many times. -/
def repeating (x : EStateM Fault σ (Option α)) : Nat → EStateM Fault σ α
  | 0 => throw .outOfFuel
  | n + 1 => do
    match ← x with
    | some a => return a
    | none => repeating x n

/-- A computation that goes on unless there is an answer. -/
def unlessLeft (x : EStateM Fault σ (Option α)) : Option α → EStateM Fault σ (Option α)
  | some a => return some a
  | none => x

/-- Repeats a computation so many times, or fewer when it answers before. -/
def times (x : EStateM Fault σ (Option α)) : Nat → EStateM Fault σ (Option α)
  | 0 => return none
  | k + 1 => do unlessLeft (times x k) (← x)

/-- The rest of a repeated computation, unless there is an answer. -/
def orRepeating (x : EStateM Fault σ (Option α)) (n : Nat) : Option α → EStateM Fault σ α
  | some a => return a
  | none => repeating x n

theorem repeating_succ (x : EStateM Fault σ (Option α)) (n : Nat) (s : σ) :
    repeating x (n + 1) s = match x s with
      | .ok (some a) t => .ok a t
      | .ok none t => repeating x n t
      | .error e t => .error e t := by
  show (x >>= fun answer => match answer with
    | some a => pure a
    | none => repeating x n) s = _
  rw [bind_apply]
  cases x s with
  | error e t => rfl
  | ok answer t => cases answer <;> rfl

theorem times_succ (x : EStateM Fault σ (Option α)) (k : Nat) (s : σ) :
    times x (k + 1) s = match x s with
      | .ok (some a) t => .ok (some a) t
      | .ok none t => times x k t
      | .error e t => .error e t := by
  show (x >>= fun answer => unlessLeft (times x k) answer) s = _
  rw [bind_apply]
  cases x s with
  | error e t => rfl
  | ok answer t => cases answer <;> rfl

/-- A repeated computation begins with so many repetitions. -/
theorem repeating_add (x : EStateM Fault σ (Option α)) (k n : Nat) (s : σ) :
    repeating x (k + n) s = (times x k >>= orRepeating x n) s := by
  rw [bind_apply]
  induction k generalizing s with
  | zero => rw [Nat.zero_add]; rfl
  | succ k ih =>
    rw [Nat.succ_add, repeating_succ, times_succ]
    cases x s with
    | error e t => rfl
    | ok answer t =>
      cases answer with
      | none => exact ih t
      | some a => rfl

theorem times_add (x : EStateM Fault σ (Option α)) (j k : Nat) (s : σ) :
    times x (j + k) s = (times x j >>= unlessLeft (times x k)) s := by
  rw [bind_apply]
  induction j generalizing s with
  | zero => rw [Nat.zero_add]; rfl
  | succ j ih =>
    rw [Nat.succ_add, times_succ, times_succ]
    cases x s with
    | error e t => rfl
    | ok answer t =>
      cases answer with
      | none => exact ih t
      | some a => rfl

/-- When so many repetitions do not answer, neither do fewer. -/
theorem times_none_le {j k : Nat} (h : times x j s = .ok none t) (hk : k ≤ j) :
    ∃ u, times x k s = .ok none u := by
  rw [← Nat.add_sub_cancel' hk, times_add, bind_apply] at h
  cases hr : times x k s with
  | error e u =>
    rw [hr] at h
    cases h
  | ok answer u =>
    cases answer with
    | none => exact ⟨u, rfl⟩
    | some a =>
      rw [hr] at h
      cases h

/-- A repeated computation whose repetitions do not answer is out of fuel. -/
theorem repeating_out {j k : Nat} (h : times x j s = .ok none t) (hk : k ≤ j) :
    ∃ u, repeating x k s = .error .outOfFuel u := by
  obtain ⟨u, hu⟩ := times_none_le h hk
  refine ⟨u, ?_⟩
  rw [← Nat.add_zero k, repeating_add, bind_apply, hu]
  rfl

/-- More fuel changes nothing for a run that is not out of it. -/
theorem repeating_more (x : EStateM Fault σ (Option α)) (n k : Nat) (s : σ)
    (h : ∀ t, repeating x n s ≠ .error .outOfFuel t) :
    repeating x (n + k) s = repeating x n s := by
  have split := repeating_add x n 0 s
  rw [Nat.add_zero, bind_apply] at split
  rw [repeating_add, bind_apply, split]
  cases hr : times x n s with
  | error e t => rfl
  | ok answer t =>
    cases answer with
    | some a => rfl
    | none =>
      rw [hr] at split
      exact absurd split (h t)

end TieredMachine
