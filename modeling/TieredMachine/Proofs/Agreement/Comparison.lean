/-
  Comparisons that composed computations respect.

  An operation is put together from a few basic steps.  It compares well with itself
  wherever its parts do: what is compared, and how, does not matter.  Agreement in a world
  is one such comparison; comparisons of states that are not equal in what code sees of
  them are others.

  * `Comparison`: a way to compare computations;
  * `Comparison.Lawful`: composed computations compare as their parts do;
  * `World.agreement`: agreement as a comparison.
-/
import TieredMachine.Proofs.Agreement.Basic

namespace TieredMachine

/-- A way to compare two computations. -/
structure Comparison (σ : Type) where
  /-- both do the same, and give the same answer -/
  Same : {α : Type} → EStateM Fault σ α → EStateM Fault σ α → Prop
  /-- the fuel that both sides may have -/
  Fits : Nat → Nat → Prop

variable {σ α β γ : Type} {C : Comparison σ} {W : World σ} {side : Side}

namespace Comparison

/-- Composed computations compare as their parts do. -/
class Lawful (C : Comparison σ) : Prop where
  ret : ∀ {α : Type} (a : α), C.Same (pure a) (pure a)
  fail : ∀ {α : Type} (e : Fault), C.Same (throw e : EStateM Fault σ α) (throw e)
  andThen : ∀ {α β : Type} {x y : EStateM Fault σ α} {f g : α → EStateM Fault σ β},
    C.Same x y → (∀ a, C.Same (f a) (g a)) → C.Same (x >>= f) (y >>= g)
  /-- handlers of guest exceptions hand on every other fault -/
  catchRaised : ∀ {α : Type} {x y : EStateM Fault σ α} {f g : Fault → EStateM Fault σ α},
    C.Same x y → (∀ exc, C.Same (f (.raised exc)) (g (.raised exc))) →
    (∀ e, (∀ exc, e ≠ .raised exc) → f e = throw e) →
    (∀ e, (∀ exc, e ≠ .raised exc) → g e = throw e) → C.Same (tryCatch x f) (tryCatch y g)
  /-- recursions on fuel compare when they do step by step -/
  fueled : ∀ {ι α : Type} {f g : Nat → ι → EStateM Fault σ α},
    (∀ i, f 0 i = throw .outOfFuel) → (∀ i, g 0 i = throw .outOfFuel) →
    (∀ n n', (∀ i, C.Same (f n i) (g n' i)) → ∀ i, C.Same (f (n + 1) i) (g (n' + 1) i)) →
    ∀ {n n' : Nat}, C.Fits n n' → ∀ i, C.Same (f n i) (g n' i)

namespace Same

variable [C.Lawful]

theorem ret (a : α) : C.Same (pure a) (pure a) := Lawful.ret a

theorem fail (e : Fault) : C.Same (throw e : EStateM Fault σ α) (throw e) := Lawful.fail e

theorem andThen {x y : EStateM Fault σ α} {f g : α → EStateM Fault σ β} (hx : C.Same x y)
    (hf : ∀ a, C.Same (f a) (g a)) : C.Same (x >>= f) (y >>= g) :=
  Lawful.andThen hx hf

/-- A handler of guest exceptions hands on every other fault. -/
theorem catchRaised {x y : EStateM Fault σ α} {f g : Fault → EStateM Fault σ α}
    (hx : C.Same x y) (hf : ∀ exc, C.Same (f (.raised exc)) (g (.raised exc)))
    (hl : ∀ e, (∀ exc, e ≠ .raised exc) → f e = throw e)
    (hr : ∀ e, (∀ exc, e ≠ .raised exc) → g e = throw e) :
    C.Same (tryCatch x f) (tryCatch y g) :=
  Lawful.catchRaised hx hf hl hr

/-- A recursion on fuel that compares well step by step does as a whole. -/
theorem fueled {ι : Type} {f g : Nat → ι → EStateM Fault σ α}
    (f_zero : ∀ i, f 0 i = throw .outOfFuel) (g_zero : ∀ i, g 0 i = throw .outOfFuel)
    (step : ∀ n n', (∀ i, C.Same (f n i) (g n' i)) → ∀ i, C.Same (f (n + 1) i) (g (n' + 1) i))
    {n n' : Nat} (h : C.Fits n n') (i : ι) : C.Same (f n i) (g n' i) :=
  Lawful.fueled f_zero g_zero step h i

theorem mapped (f : α → β) {x y : EStateM Fault σ α} (hx : C.Same x y) :
    C.Same (f <$> x) (f <$> y) := by
  have e (x : EStateM Fault σ α) : f <$> x = x >>= fun a => pure (f a) := by
    funext s
    show EStateM.map f x s = EStateM.bind x _ s
    unfold EStateM.map EStateM.bind
    cases x s <;> rfl
  rw [e x, e y]
  exact hx.andThen fun a => .ret (f a)

/-! ### Lists -/

theorem mapM {f g : α → EStateM Fault σ γ} (h : ∀ a, C.Same (f a) (g a)) :
    ∀ as : List α, C.Same (as.mapM f) (as.mapM g)
  | [] => by simpa using ret []
  | a :: as => by
    rw [List.mapM_cons, List.mapM_cons]
    exact (h a).andThen fun b => (mapM h as).andThen fun bs => .ret (b :: bs)

theorem foldlM {f g : γ → α → EStateM Fault σ γ} (h : ∀ c a, C.Same (f c a) (g c a)) :
    ∀ (as : List α) (c : γ), C.Same (as.foldlM f c) (as.foldlM g c)
  | [], c => ret c
  | a :: as, c => by
    rw [List.foldlM_cons, List.foldlM_cons]
    exact (h c a).andThen fun d => foldlM h as d

theorem anyM {f g : α → EStateM Fault σ Bool} (h : ∀ a, C.Same (f a) (g a)) :
    ∀ as : List α, C.Same (as.anyM f) (as.anyM g)
  | [] => ret false
  | a :: as => by
    rw [List.anyM, List.anyM]
    refine (h a).andThen fun b => ?_
    cases b with
    | true => exact ret true
    | false => exact anyM h as

theorem forM {f g : α → EStateM Fault σ PUnit} (h : ∀ a, C.Same (f a) (g a)) :
    ∀ as : List α, C.Same (as.forM f) (as.forM g)
  | [] => ret ()
  | a :: as => (h a).andThen fun _ => forM h as

theorem arrayMapM {f g : α → EStateM Fault σ γ} (h : ∀ a, C.Same (f a) (g a)) (as : Array α) :
    C.Same (as.mapM f) (as.mapM g) := by
  rw [Array.mapM_eq_mapM_toList, Array.mapM_eq_mapM_toList]
  exact (mapM h as.toList).mapped _

end Same

end Comparison

/-! ## Agreement -/

/-- Agreement in a world. -/
def World.agreement (W : World σ) (side : Side) : Comparison σ where
  Same := Agrees W side
  Fits := W.fits side

instance : (W.agreement side).Lawful where
  ret := Agrees.ret
  fail := Agrees.fail
  andThen := Agrees.andThen
  catchRaised := Agrees.catchRaised
  fueled f_zero g_zero step := Agrees.fueled f_zero g_zero step

/-- What compares well by agreement agrees. -/
theorem Agrees.of {x y : EStateM Fault σ α} (h : (W.agreement side).Same x y) : Agrees W side x y :=
  h

theorem Agrees.mapped (f : α → β) {x y : EStateM Fault σ α} (hx : Agrees W side x y) :
    Agrees W side (f <$> x) (f <$> y) :=
  .of (Comparison.Same.mapped f hx)

end TieredMachine
