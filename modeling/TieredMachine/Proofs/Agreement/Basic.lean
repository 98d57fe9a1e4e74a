/-
  Agreement of computations.

  Two computations over one kind of state *agree* when, begun in states that look
  alike, they end the same way in states that look alike.  A comparison with *slack* is
  one-sided: the side that is *bounded* may run out of fuel, and nothing is then
  said about the other one.  Nothing is said either once a state is *worn out*,
  that is, once so much has changed that a 64-bit version may repeat.

  * `World`: how the states of two runs are compared;
  * `Keeps`: what a computation leaves as it was, wherever it begins;
  * `Agree`, `Agrees`: agreement of outcomes, and of computations;
  * `Agrees.andThen`, `Agrees.handle`, …: agreement of composed computations.
-/
import TieredMachine.Fault

namespace TieredMachine

/-- The two sides of a comparison. -/
inductive Side where
  | left | right
  deriving DecidableEq, Repr

/-- The bounds on both sides: the bounded one is at most the other. -/
def Side.bounds (side : Side) (n n' : Nat) : Prop :=
  (side = .left → n ≤ n') ∧ (side = .right → n' ≤ n)

theorem Side.bounds_self (side : Side) (n : Nat) : side.bounds n n :=
  ⟨fun _ => Nat.le_refl n, fun _ => Nat.le_refl n⟩

/-- The state that a computation ends in. -/
def finalState {σ α : Type} : EStateM.Result Fault σ α → σ
  | .ok _ s => s
  | .error _ s => s

@[simp]
theorem finalState_ok {σ α : Type} (a : α) (s : σ) :
    finalState (.ok a s : EStateM.Result Fault σ α) = s := rfl

@[simp]
theorem finalState_error {σ α : Type} (e : Fault) (s : σ) :
    finalState (.error e s : EStateM.Result Fault σ α) = s := rfl

/-- How the states of two runs are compared. -/
structure World (σ : Type) where
  /-- the states look the same to the code that runs -/
  alike : σ → σ → Prop
  /-- what two states that a fault ended in have in common -/
  failed : Fault → σ → σ → Prop
  /-- what every computation leaves as it was -/
  kept : σ → σ → Prop
  /-- versions may repeat from here on -/
  worn : σ → Prop
  /-- the fuel of the two runs may differ -/
  slack : Prop
  kept_refl : ∀ s, kept s s
  kept_trans : ∀ {s t u}, kept s t → kept t u → kept s u
  worn_of_kept : ∀ {s t}, kept s t → worn s → worn t
  failed_of_alike : ∀ {e s t}, alike s t → failed e s t
  alike_of_raised : ∀ {exc s t}, failed (.raised exc) s t → alike s t

variable {σ α β γ δ : Type} {W : World σ} {side : Side}

/-! ## Outcomes -/

/-- Whether an outcome says nothing: the fuel is used up, or the state is worn out. -/
def World.Spent (W : World σ) (r : EStateM.Result Fault σ α) : Prop :=
  (W.slack ∧ ∃ s, r = .error .outOfFuel s) ∨ W.worn (finalState r)

/-- The fuel that both sides may have: the same, or bounds when there is slack. -/
def World.fits (W : World σ) (side : Side) (n n' : Nat) : Prop :=
  n = n' ∨ W.slack ∧ side.bounds n n'

/-- Two outcomes meet: both are answers that `R` relates, or both are one fault, or that
    of the bounded side says nothing. -/
inductive Meet (W : World σ) (side : Side) (R : α → σ → β → σ → Prop) :
    EStateM.Result Fault σ α → EStateM.Result Fault σ β → Prop
  | ok {a b t t'} : R a t b t' → Meet W side R (.ok a t) (.ok b t')
  | error {e t t'} : W.failed e t t' → Meet W side R (.error e t) (.error e t')
  | left {r r'} : side = .left → W.Spent r → Meet W side R r r'
  | right {r r'} : side = .right → W.Spent r' → Meet W side R r r'

/-- The same answer in states that look alike. -/
def World.Same (W : World σ) (a : α) (s : σ) (b : α) (t : σ) : Prop := a = b ∧ W.alike s t

/-- Agreement of two outcomes. -/
abbrev Agree (W : World σ) (side : Side) (r r' : EStateM.Result Fault σ α) : Prop :=
  Meet W side W.Same r r'

/-- A computation leaves what the world keeps as it was, wherever it begins. -/
def Keeps (W : World σ) (x : EStateM Fault σ α) : Prop := ∀ s, W.kept s (finalState (x s))

/-- Agreement of two computations. -/
structure Agrees (W : World σ) (side : Side) (x y : EStateM Fault σ α) : Prop where
  left : Keeps W x
  right : Keeps W y
  agree : ∀ {s s'}, W.alike s s' → Agree W side (x s) (y s')

/-! ## Composition -/

theorem bind_apply (x : EStateM Fault σ α) (f : α → EStateM Fault σ β) (s : σ) :
    (x >>= f) s = match x s with
      | .ok a t => f a t
      | .error e t => .error e t := by
  show EStateM.bind x f s = _
  unfold EStateM.bind
  cases x s <;> rfl

theorem bind_ok {x : EStateM Fault σ α} {f : α → EStateM Fault σ β} {s t : σ} {b : β} :
    (x >>= f) s = .ok b t ↔ ∃ a u, x s = .ok a u ∧ f a u = .ok b t := by
  rw [bind_apply]
  cases x s with
  | ok a u =>
    constructor
    · exact fun h => ⟨a, u, rfl, h⟩
    · rintro ⟨_, _, h, h'⟩
      cases h
      exact h'
  | error e u =>
    constructor
    · exact fun h => by cases h
    · rintro ⟨_, _, h, -⟩
      cases h

theorem tryCatch_apply (x : EStateM Fault σ α) (h : Fault → EStateM Fault σ α) (s : σ) :
    (tryCatch x h) s = match x s with
      | .ok a t => .ok a t
      | .error e t => h e t := by
  show EStateM.tryCatch x h s = _
  unfold EStateM.tryCatch
  cases x s <;> rfl

/-- A handler that answers nothing leaves the answers as they are. -/
theorem tryCatch_ok {x : EStateM Fault σ α} {f : Fault → EStateM Fault σ α} {s t : σ} {a : α}
    (hf : ∀ e u a t, f e u ≠ .ok a t) (h : tryCatch x f s = .ok a t) : x s = .ok a t := by
  rw [tryCatch_apply] at h
  cases hx : x s with
  | ok b u =>
    rw [hx] at h
    exact h
  | error e u =>
    rw [hx] at h
    exact absurd h (hf e u a t)

theorem Keeps.pure (a : α) : Keeps W (Pure.pure a : EStateM Fault σ α) := fun s => W.kept_refl s

theorem Keeps.throw (e : Fault) : Keeps W (MonadExcept.throw e : EStateM Fault σ α) :=
  fun s => W.kept_refl s

theorem Keeps.bind {x : EStateM Fault σ α} {f : α → EStateM Fault σ β}
    (hx : Keeps W x) (hf : ∀ a, Keeps W (f a)) : Keeps W (x >>= f) := by
  intro s
  have h := hx s
  rw [bind_apply]
  cases hr : x s with
  | ok a t => rw [hr] at h; exact W.kept_trans h (hf a t)
  | error e t => rw [hr] at h; exact h

theorem Keeps.tryCatch {x : EStateM Fault σ α} {f : Fault → EStateM Fault σ α}
    (hx : Keeps W x) (hf : ∀ e, Keeps W (f e)) : Keeps W (tryCatch x f) := by
  intro s
  have h := hx s
  rw [tryCatch_apply]
  cases hr : x s with
  | ok a t => rw [hr] at h; exact h
  | error e t => rw [hr] at h; exact W.kept_trans h (hf e t)

/-- What is worn out stays so. -/
theorem Keeps.worn {x : EStateM Fault σ α} (hx : Keeps W x) {s : σ} (hs : W.worn s) :
    W.worn (finalState (x s)) :=
  W.worn_of_kept (hx s) hs

/-- An outcome that says nothing still says nothing after more. -/
theorem World.Spent.bind {x : EStateM Fault σ α} {f : α → EStateM Fault σ β} {s : σ}
    (h : W.Spent (x s)) (hf : ∀ a, Keeps W (f a)) : W.Spent ((x >>= f) s) := by
  rw [bind_apply]
  cases hx : x s with
  | ok a t =>
    rw [hx] at h
    obtain ⟨_, _, h⟩ | h := h
    · cases h
    · exact .inr ((hf a).worn h)
  | error e t =>
    rw [hx] at h
    obtain ⟨slack, u, h⟩ | h := h
    · cases h
      exact .inl ⟨slack, t, rfl⟩
    · exact .inr h

/-- Outcomes that meet within a number of steps, continued. -/
theorem Meet.bindWithin {R : α → σ → β → σ → Prop} {S : Nat → γ → σ → δ → σ → Prop} {most : Nat}
    {x : EStateM Fault σ α} {y : EStateM Fault σ β} {f : α → EStateM Fault σ γ}
    {g : Nat → β → EStateM Fault σ δ} {s s' : σ} (hx : Meet W side R (x s) (y s'))
    (hl : ∀ a, Keeps W (f a)) (hr : ∀ j b, Keeps W (g j b))
    (hf : ∀ a t b t', x s = .ok a t → y s' = .ok b t' → R a t b t' →
      ∃ j ≤ most, Meet W side (S j) (f a t) (g j b t')) :
    ∃ j ≤ most, Meet W side (S j) ((x >>= f) s) ((y >>= g j) s') := by
  cases hxs : x s with
  | ok a t =>
    cases hys : y s' with
    | ok b t' =>
      rw [hxs, hys] at hx
      cases hx with
      | ok h =>
        obtain ⟨j, hj, hm⟩ := hf a t b t' hxs hys h
        refine ⟨j, hj, ?_⟩
        rw [bind_apply, bind_apply, hxs, hys]
        exact hm
      | left hs h => exact ⟨0, Nat.zero_le _, .left hs ((hxs ▸ h : W.Spent (x s)).bind hl)⟩
      | right hs h => exact ⟨0, Nat.zero_le _, .right hs ((hys ▸ h : W.Spent (y s')).bind (hr 0))⟩
    | error e t' =>
      rw [hxs, hys] at hx
      cases hx with
      | left hs h => exact ⟨0, Nat.zero_le _, .left hs ((hxs ▸ h : W.Spent (x s)).bind hl)⟩
      | right hs h => exact ⟨0, Nat.zero_le _, .right hs ((hys ▸ h : W.Spent (y s')).bind (hr 0))⟩
  | error e t =>
    cases hys : y s' with
    | ok b t' =>
      rw [hxs, hys] at hx
      cases hx with
      | left hs h => exact ⟨0, Nat.zero_le _, .left hs ((hxs ▸ h : W.Spent (x s)).bind hl)⟩
      | right hs h => exact ⟨0, Nat.zero_le _, .right hs ((hys ▸ h : W.Spent (y s')).bind (hr 0))⟩
    | error e' t' =>
      rw [hxs, hys] at hx
      cases hx with
      | error h =>
        refine ⟨0, Nat.zero_le _, ?_⟩
        rw [bind_apply, bind_apply, hxs, hys]
        exact .error h
      | left hs h => exact ⟨0, Nat.zero_le _, .left hs ((hxs ▸ h : W.Spent (x s)).bind hl)⟩
      | right hs h => exact ⟨0, Nat.zero_le _, .right hs ((hys ▸ h : W.Spent (y s')).bind (hr 0))⟩

/-- Outcomes that meet, continued. -/
theorem Meet.bind {R : α → σ → β → σ → Prop} {S : γ → σ → δ → σ → Prop}
    {x : EStateM Fault σ α} {y : EStateM Fault σ β} {f : α → EStateM Fault σ γ}
    {g : β → EStateM Fault σ δ} {s s' : σ} (hx : Meet W side R (x s) (y s'))
    (hl : ∀ a, Keeps W (f a)) (hr : ∀ b, Keeps W (g b))
    (hf : ∀ a t b t', x s = .ok a t → y s' = .ok b t' → R a t b t' →
      Meet W side S (f a t) (g b t')) :
    Meet W side S ((x >>= f) s) ((y >>= g) s') := by
  obtain ⟨_, _, h⟩ := hx.bindWithin (g := fun _ => g) (S := fun _ => S) hl (fun _ => hr)
    fun a t b t' ha hb h => ⟨0, Nat.le_refl 0, hf a t b t' ha hb h⟩
  exact h

/-- What is known of related answers may be weakened. -/
theorem Meet.mono {R S : α → σ → β → σ → Prop} {r : EStateM.Result Fault σ α}
    {r' : EStateM.Result Fault σ β} (h : Meet W side R r r')
    (hRS : ∀ a t b t', R a t b t' → S a t b t') : Meet W side S r r' := by
  cases h with
  | ok h => exact .ok (hRS _ _ _ _ h)
  | error h => exact .error h
  | left hs h => exact .left hs h
  | right hs h => exact .right hs h

theorem Agree.same {a : α} {t t' : σ} (h : W.alike t t') :
    Agree W side (.ok a t) (.ok a t') := .ok ⟨rfl, h⟩

namespace Agrees

theorem ret (a : α) : Agrees W side (pure a) (pure a) where
  left := .pure a
  right := .pure a
  agree hs := .same hs

theorem fail (e : Fault) : Agrees W side (throw e : EStateM Fault σ α) (throw e) where
  left := .throw e
  right := .throw e
  agree hs := .error (W.failed_of_alike hs)

/-- Composition, when the answers of the first computations are known to have a
    property. -/
theorem andThenOf {x y : EStateM Fault σ α} {f g : α → EStateM Fault σ β} (p : α → Prop)
    (hx : Agrees W side x y)
    (hp : ∀ s s' a t t', W.alike s s' → x s = .ok a t → y s' = .ok a t' → p a)
    (hl : ∀ a, Keeps W (f a)) (hr : ∀ a, Keeps W (g a))
    (hf : ∀ a, p a → Agrees W side (f a) (g a)) :
    Agrees W side (x >>= f) (y >>= g) where
  left := hx.left.bind hl
  right := hx.right.bind hr
  agree {s s'} hs := by
    refine (hx.agree hs).bind hl hr fun a t b t' ha hb h => ?_
    obtain ⟨rfl, h⟩ := h
    exact (hf a (hp s s' a t t' hs ha hb)).agree h

theorem andThen {x y : EStateM Fault σ α} {f g : α → EStateM Fault σ β}
    (hx : Agrees W side x y) (hf : ∀ a, Agrees W side (f a) (g a)) :
    Agrees W side (x >>= f) (y >>= g) :=
  hx.andThenOf (fun _ => True) (fun _ _ _ _ _ _ _ _ => trivial) (fun a => (hf a).left)
    (fun a => (hf a).right) fun a _ => hf a

/-- An outcome that says nothing still says nothing when its faults are handled. -/
theorem spent_tryCatch {x : EStateM Fault σ α} {f : Fault → EStateM Fault σ α} {s : σ}
    (h : W.Spent (x s)) (hf : ∀ e, Keeps W (f e))
    (hout : ∀ t, ∃ u, f .outOfFuel t = .error .outOfFuel u) : W.Spent (tryCatch x f s) := by
  cases hx : x s with
  | ok a t =>
    rw [hx] at h
    rw [tryCatch_apply, hx]
    exact h
  | error e t =>
    rw [hx] at h
    rw [tryCatch_apply, hx]
    obtain ⟨slack, u, h⟩ | h := h
    · cases h
      exact .inl ⟨slack, hout t⟩
    · exact .inr ((hf e).worn h)

/-- A handler that agrees on every fault, and hands on that the fuel is used up. -/
theorem handle {x y : EStateM Fault σ α} {f g : Fault → EStateM Fault σ α}
    (hx : Agrees W side x y) (hl : ∀ e, Keeps W (f e)) (hr : ∀ e, Keeps W (g e))
    (hf : ∀ e {t t'}, W.failed e t t' → Agree W side (f e t) (g e t'))
    (ol : ∀ t, ∃ u, f .outOfFuel t = .error .outOfFuel u)
    (or : ∀ t, ∃ u, g .outOfFuel t = .error .outOfFuel u) :
    Agrees W side (tryCatch x f) (tryCatch y g) := by
  refine ⟨hx.left.tryCatch hl, hx.right.tryCatch hr, fun {s s'} hs => ?_⟩
  have h := hx.agree hs
  cases hxs : x s with
  | ok a t =>
    cases hys : y s' with
    | ok b t' =>
      rw [hxs, hys] at h
      rw [tryCatch_apply, tryCatch_apply, hxs, hys]
      exact h
    | error e t' =>
      rw [hxs, hys] at h
      cases h with
      | left hs h => exact .left hs (spent_tryCatch (hxs ▸ h : W.Spent (x s)) hl ol)
      | right hs h => exact .right hs (spent_tryCatch (hys ▸ h : W.Spent (y s')) hr or)
  | error e t =>
    cases hys : y s' with
    | ok b t' =>
      rw [hxs, hys] at h
      cases h with
      | left hs h => exact .left hs (spent_tryCatch (hxs ▸ h : W.Spent (x s)) hl ol)
      | right hs h => exact .right hs (spent_tryCatch (hys ▸ h : W.Spent (y s')) hr or)
    | error e' t' =>
      rw [hxs, hys] at h
      cases h with
      | error h =>
        rw [tryCatch_apply, tryCatch_apply, hxs, hys]
        exact hf e h
      | left hs h => exact .left hs (spent_tryCatch (hxs ▸ h : W.Spent (x s)) hl ol)
      | right hs h => exact .right hs (spent_tryCatch (hys ▸ h : W.Spent (y s')) hr or)

/-- A handler of guest exceptions hands on every other fault. -/
theorem catchRaised {x y : EStateM Fault σ α} {f g : Fault → EStateM Fault σ α}
    (hx : Agrees W side x y) (hf : ∀ exc, Agrees W side (f (.raised exc)) (g (.raised exc)))
    (hl : ∀ e, (∀ exc, e ≠ .raised exc) → f e = throw e)
    (hr : ∀ e, (∀ exc, e ≠ .raised exc) → g e = throw e) :
    Agrees W side (tryCatch x f) (tryCatch y g) := by
  refine hx.handle (fun e => ?_) (fun e => ?_) (fun e t t' h => ?_) (fun t => ⟨t, ?_⟩)
    (fun t => ⟨t, ?_⟩)
  · by_cases he : ∃ exc, e = .raised exc
    · obtain ⟨exc, rfl⟩ := he; exact (hf exc).left
    · rw [hl e fun exc h => he ⟨exc, h⟩]; exact Keeps.throw e
  · by_cases he : ∃ exc, e = .raised exc
    · obtain ⟨exc, rfl⟩ := he; exact (hf exc).right
    · rw [hr e fun exc h => he ⟨exc, h⟩]; exact Keeps.throw e
  · by_cases he : ∃ exc, e = .raised exc
    · obtain ⟨exc, rfl⟩ := he; exact (hf exc).agree (W.alike_of_raised h)
    · rw [hl e fun exc h => he ⟨exc, h⟩, hr e fun exc h => he ⟨exc, h⟩]
      exact .error h
  · rw [hl _ (by simp)]; rfl
  · rw [hr _ (by simp)]; rfl

/-- The bounded side may be out of fuel at once. -/
theorem outOfFuel_left {y : EStateM Fault σ α} (hW : W.slack) (hy : Keeps W y)
    (h : side = .left) : Agrees W side (throw .outOfFuel) y where
  left := .throw _
  right := hy
  agree {s _} _ := .left h (.inl ⟨hW, s, rfl⟩)

theorem outOfFuel_right {x : EStateM Fault σ α} (hW : W.slack) (hx : Keeps W x)
    (h : side = .right) : Agrees W side x (throw .outOfFuel) where
  left := hx
  right := .throw _
  agree {_ s'} _ := .right h (.inl ⟨hW, s', rfl⟩)

/-- A recursion on fuel that agrees step by step agrees when both sides have the same fuel
    or, with slack, the bounded side has at most the fuel of the other. -/
theorem fueled {ι : Type} {f g : Nat → ι → EStateM Fault σ α}
    (f_zero : ∀ i, f 0 i = throw .outOfFuel) (g_zero : ∀ i, g 0 i = throw .outOfFuel)
    (step : ∀ n n', (∀ i, Agrees W side (f n i) (g n' i)) →
      ∀ i, Agrees W side (f (n + 1) i) (g (n' + 1) i))
    {n n' : Nat} (h : W.fits side n n') (i : ι) : Agrees W side (f n i) (g n' i) := by
  have same : ∀ n i, Agrees W side (f n i) (g n i) := by
    intro n
    induction n with
    | zero => intro i; rw [f_zero, g_zero]; exact fail _
    | succ n ih => exact step n n ih
  obtain rfl | ⟨hW, h⟩ := h
  · exact same n i
  induction n generalizing n' i with
  | zero =>
    rw [f_zero]
    cases hs : side with
    | left => exact outOfFuel_left hW (same n' i).right rfl
    | right =>
      have : n' = 0 := Nat.le_zero.mp (h.2 hs)
      rw [this, g_zero]
      exact fail _
  | succ n ih =>
    cases n' with
    | zero =>
      rw [g_zero]
      cases hs : side with
      | left => exact absurd (h.1 hs) (Nat.not_succ_le_zero n)
      | right => exact outOfFuel_right hW (same (n + 1) i).left rfl
    | succ n' =>
      refine step n n' (fun i => ih i ⟨fun hs => ?_, fun hs => ?_⟩) i
      · exact Nat.le_of_succ_le_succ (h.1 hs)
      · exact Nat.le_of_succ_le_succ (h.2 hs)

/-- A state is changed alike on both sides. -/
theorem change {f g : σ → σ} (hf : ∀ s, W.kept s (f s)) (hg : ∀ s, W.kept s (g s))
    (h : ∀ {s s'}, W.alike s s' → W.alike (f s) (g s')) :
    Agrees W side (modify f) (modify g) where
  left := hf
  right := hg
  agree hs := .same (h hs)

end Agrees

end TieredMachine
