/-
  Computations on a frame that uphold a regime.

  What a computation does to a frame is told by three predicates: what is asked of the frame
  it begins on, what is known of its answer and the frame then, and what is known of its
  fault and the frame then.  The machine is as the regime wants it throughout.

  * `Guides`: the judgement;
  * `Guides.andThen`, `Guides.handle`, …: composed computations;
  * `Guides.machine`, `Guides.brings`, …: the ways of using a frame.
-/
import TieredMachine.Proofs.Safety.Validity
import TieredMachine.Run.Interpreter

namespace TieredMachine

variable {R : Regime} {α β : Type} {P P' : Frame → Prop} {Q Q' : α → Frame → Prop}
  {E E' : Fault → Frame → Prop}

/-- An outcome on a frame that a regime accepts, with an answer and a fault as told. -/
def Regime.Allows (R : Regime) (Q : α → Frame → Prop) (E : Fault → Frame → Prop) :
    EStateM.Result Fault Activation α → Prop
  | .ok a t => R.holds t.machine ∧ Q a t.frame
  | .error e t => R.holds t.machine ∧ E e t.frame

/-- Begun on a frame with `P`, the computation upholds the regime; it answers with `Q` or
    fails with `E`. -/
def Guides (R : Regime) (P : Frame → Prop) (x : FrameExec α) (Q : α → Frame → Prop)
    (E : Fault → Frame → Prop) : Prop :=
  ∀ s, R.holds s.machine → P s.frame → R.Allows Q E (x s)

namespace Guides

/-! ## Composition -/

theorem ret {a : α} (h : ∀ f, P f → Q a f) : Guides R P (pure a) Q E :=
  fun s hm hf => ⟨hm, h s.frame hf⟩

theorem fail {e : Fault} (h : ∀ f, P f → E e f) : Guides R P (throw e) Q E :=
  fun s hm hf => ⟨hm, h s.frame hf⟩

theorem andThen {x : FrameExec α} {k : α → FrameExec β} {S : β → Frame → Prop}
    (hx : Guides R P x Q E) (hk : ∀ a, Guides R (Q a) (k a) S E) : Guides R P (x >>= k) S E := by
  intro s hm hf
  have h := hx s hm hf
  rw [bind_apply]
  cases hr : x s with
  | ok a t =>
    rw [hr] at h
    exact hk a t h.1 h.2
  | error e t =>
    rw [hr] at h
    exact h

theorem handle {x : FrameExec α} {k : Fault → FrameExec α} (hx : Guides R P x Q E)
    (hk : ∀ e, Guides R (E e) (k e) Q E') : Guides R P (tryCatch x k) Q E' := by
  intro s hm hf
  have h := hx s hm hf
  rw [tryCatch_apply]
  cases hr : x s with
  | ok a t =>
    rw [hr] at h
    exact h
  | error e t =>
    rw [hr] at h
    exact hk e t h.1 h.2

/-- Less may be asked, and more be known. -/
theorem mono {x : FrameExec α} (hx : Guides R P x Q E) (hP : ∀ f, P' f → P f)
    (hQ : ∀ a f, Q a f → Q' a f) (hE : ∀ e f, E e f → E' e f) : Guides R P' x Q' E' := by
  intro s hm hf
  have h := hx s hm (hP _ hf)
  cases hr : x s with
  | ok a t =>
    rw [hr] at h
    exact ⟨h.1, hQ _ _ h.2⟩
  | error e t =>
    rw [hr] at h
    exact ⟨h.1, hE _ _ h.2⟩

theorem strengthen {x : FrameExec α} (hx : Guides R P x Q E) (hP : ∀ f, P' f → P f) :
    Guides R P' x Q E :=
  hx.mono hP (fun _ _ h => h) fun _ _ h => h

theorem weaken {x : FrameExec α} (hx : Guides R P x Q E) (hQ : ∀ a f, Q a f → Q' a f) :
    Guides R P x Q' E :=
  hx.mono (fun _ h => h) hQ fun _ _ h => h

/-- What is asked of the frame may be split off. -/
theorem given {x : FrameExec α} {p : Prop} (h : p → Guides R P x Q E) :
    Guides R (fun f => p ∧ P f) x Q E :=
  fun s hm hf => h hf.1 s hm hf.2

/-- The answer is one that the computation gives. -/
theorem answered {x : FrameExec α} (hx : Guides R P x Q E) :
    Guides R P x (fun a f => Q a f ∧ ∃ s m, x s = .ok a ⟨f, m⟩) E := by
  intro s hm hf
  have h := hx s hm hf
  cases hr : x s with
  | ok a t =>
    rw [hr] at h
    exact ⟨h.1, h.2, s, t.machine, hr⟩
  | error e t =>
    rw [hr] at h
    exact h

theorem ite {c : Prop} [Decidable c] {x y : FrameExec α} (hx : c → Guides R P x Q E)
    (hy : ¬c → Guides R P y Q E) : Guides R P (if c then x else y) Q E := by
  split
  · exact hx ‹_›
  · exact hy ‹_›

/-! ## Ways of using a frame -/

/-- A computation on the machine. -/
theorem machine {x : Exec α} (hx : Safe R x) (hQ : ∀ a f, P f → Q a f)
    (hE : ∀ e f, R.permits e → P f → E e f) : Guides R P (onMachine x) Q E := by
  intro s hm hf
  have h := hx s.machine hm
  rw [onMachine_apply]
  cases hr : x s.machine with
  | ok a m =>
    rw [hr] at h
    exact ⟨h, hQ a _ hf⟩
  | error e m =>
    rw [hr] at h
    exact ⟨h.1, hE e _ h.2 hf⟩

/-- A computation that only works on the stack and on the contents of variables. -/
theorem brings {k m : Nat} {x : FrameExec α} (hx : Brings R k m x)
    (spares : ∀ f, R.Spares k f) (fits : ∀ f, P f → R.fits f)
    (hQ : ∀ a f f', f.Kept f' → P f → Q a f')
    (hE : ∀ e f f', f.Kept f' → R.permits e → P f → E e f') :
    Guides R P x Q E := by
  intro s hm hf
  have h := hx s hm (fits _ hf) (spares _)
  cases hr : x s with
  | ok a t =>
    rw [hr] at h
    exact ⟨h.1, hQ a _ _ h.2.1 hf⟩
  | error e t =>
    rw [hr] at h
    exact ⟨h.1, hE e _ _ h.2.1 h.2.2 hf⟩

/-- A look at the frame. -/
theorem frameThen {k : Frame → FrameExec α} (hk : ∀ f, P f → Guides R (· = f) (k f) Q E) :
    Guides R P (frame >>= k) Q E :=
  fun s hm hf => hk s.frame hf s hm rfl

/-- A look at the frame and the machine. -/
theorem getThen {k : Activation → FrameExec α}
    (hk : ∀ s, R.holds s.machine → P s.frame → R.Allows Q E (k s s)) :
    Guides R P (get >>= k) Q E :=
  fun s hm hf => hk s hm hf

/-- A change of the frame. -/
theorem change {h : Frame → Frame} {Q : Unit → Frame → Prop} (hf : ∀ f, P f → Q () (h f)) :
    Guides R P (modifyFrame h) Q E :=
  fun s hm hs => ⟨hm, hf s.frame hs⟩

end Guides

end TieredMachine
