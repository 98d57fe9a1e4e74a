/-
  The items of a progression.

  A progression is iterated by words, and its items are those of the mathematical integers: the
  start, the start and a step, the start and two steps, and so on, as long as they are strictly
  before the bound in the direction of the step.  The item after the last one may be no word; the
  bound takes its place, before which nothing is left.

  * `Range.item`, `Range.Before`, `Range.Lists`: the items, as integers;
  * `Range.Lists.next`: one call of an iterator takes the first item off;
  * `Range.Lists.iterate`: any number of calls;
  * `Range.lists_toList`: the items that are collected, of which there are finitely many;
  * `RangeArgs`, `rangeOf_apply`: what the arguments of `range` and `xrange` say;
  * **`range_exact`**: the two functions.
-/
import TieredMachine.Builtin.Dispatch
import TieredMachine.Proofs.Agreement.Basic
import TieredMachine.Proofs.Integer.Words

namespace TieredMachine

open Integer

/-! ## Items -/

theorem Integer.ofInt?_of_not_fits {n : Int} (h : ¬Fits n) : ofInt? n = none := if_neg h

namespace Range

variable (r : Range)

/-- The item with a number, as an integer. -/
def item (i : Nat) : Int := r.next.toInt + i * r.step.toInt

/-- The integer is strictly before the bound, in the direction of the step. -/
def Before (x : Int) : Prop := if 0 < r.step then x < r.stop.toInt else r.stop.toInt < x

/-- The list is that of the items before the bound. -/
def Lists (l : List Int64) : Prop :=
  ∀ (i : Nat) (x : Int64), l[i]? = some x ↔ x.toInt = r.item i ∧ r.Before (r.item i)

/-- The progression after one more call. -/
def rest : Range := (r.next?.map (·.2)).getD r

variable {r} {l : List Int64} {i j : Nat} {x : Int}

theorem item_zero : r.item 0 = r.next.toInt := by simp [item]

theorem item_succ : r.item (i + 1) = r.item i + r.step.toInt := by
  simp only [item, Nat.cast_succ]
  rw [Int.add_mul, Int.one_mul, Int.add_assoc]

theorem step_pos : 0 < r.step ↔ 0 < r.step.toInt := Int64.lt_iff_toInt_lt

theorem before_iff : r.Before x ↔
    0 < r.step.toInt ∧ x < r.stop.toInt ∨ r.step.toInt ≤ 0 ∧ r.stop.toInt < x := by
  unfold Before
  split
  · rename_i up
    have := step_pos.mp up
    omega
  · rename_i down
    have := mt step_pos.mpr down
    omega

theorem hasNext_iff : r.hasNext ↔ r.Before (r.item 0) := by
  unfold hasNext Before
  rw [item_zero]
  split
  · exact decide_eq_true_iff.trans Int64.lt_iff_toInt_lt
  · exact decide_eq_true_iff.trans Int64.lt_iff_toInt_lt

/-- What is before the bound was so one step earlier. -/
theorem Before.earlier (h : r.Before (x + r.step.toInt)) : r.Before x := by
  rw [before_iff] at h ⊢
  omega

theorem before_zero (h : r.Before (r.item i)) : r.Before (r.item 0) := by
  induction i with
  | zero => exact h
  | succ i ih =>
    rw [item_succ] at h
    exact ih h.earlier

/-! ### One call -/

theorem next?_of_before (h : r.Before (r.item 0)) : r.next? =
    some (r.next, { r with next := (ofInt? (r.next.toInt + r.step.toInt)).getD r.stop }) :=
  if_pos (hasNext_iff.mpr h)

theorem next?_of_not_before (h : ¬r.Before (r.item 0)) : r.next? = none :=
  if_neg (mt hasNext_iff.mp h)

theorem rest_of_before (h : r.Before (r.item 0)) :
    r.rest = { r with next := (ofInt? (r.next.toInt + r.step.toInt)).getD r.stop } := by
  rw [rest, next?_of_before h]
  rfl

/-- The items that are left have moved up by one. -/
theorem rest_items (h : r.Before (r.item 0)) : (x = r.rest.item i ∧ r.rest.Before (r.rest.item i)) ↔
    (x = r.item (i + 1) ∧ r.Before (r.item (i + 1))) := by
  by_cases fits : Fits (r.next.toInt + r.step.toInt)
  · have next : r.rest = { r with next := Int64.ofInt (r.next.toInt + r.step.toInt) } := by
      rw [rest_of_before h, ofInt?_of_fits fits]
      rfl
    have moved : r.rest.item i = r.item (i + 1) := by
      rw [next, item_succ]
      simp only [item, toInt_ofInt_of_fits fits]
      omega
    have same : r.rest.Before = r.Before := by
      rw [next]
      rfl
    rw [moved, same]
  · -- the next item is beyond all words, so the bound is reached
    have next : r.rest = { r with next := r.stop } := by
      rw [rest_of_before h, ofInt?_of_not_fits fits]
      rfl
    have nothing : ¬r.rest.Before (r.rest.item i) := fun left => by
      have first := before_zero left
      rw [item_zero, next, before_iff] at first
      dsimp only at first
      omega
    have none : ¬r.Before (r.item (i + 1)) := fun left => by
      have second : r.Before (r.item 1) := by
        clear nothing
        induction i with
        | zero => exact left
        | succ i ih =>
          rw [item_succ] at left
          exact ih left.earlier
      rw [item_succ, item_zero, before_iff] at second
      have low := r.stop.le_toInt
      have high := r.stop.toInt_lt
      have low' := r.next.le_toInt
      have high' := r.next.toInt_lt
      unfold Fits at fits
      omega
    exact iff_of_false (fun h => nothing h.2) (fun h => none h.2)

/-- **One call** answers the first item and leaves the others. -/
theorem Lists.next (h : r.Lists l) : r.next?.map (·.1) = l.head? ∧ r.rest.Lists l.tail := by
  by_cases more : r.Before (r.item 0)
  · refine ⟨?_, fun i x => ?_⟩
    · rw [next?_of_before more, List.head?_eq_getElem?]
      exact ((h 0 r.next).mpr ⟨item_zero.symm, more⟩).symm
    · rw [List.getElem?_tail, h, rest_items more]
  · have empty : l = [] := List.eq_nil_iff_forall_not_mem.mpr fun x mem => by
      obtain ⟨i, hi⟩ := List.mem_iff_getElem?.mp mem
      exact more (before_zero ((h i x).mp hi).2)
    subst empty
    have stays : r.rest = r := by
      rw [rest, next?_of_not_before more]
      rfl
    refine ⟨?_, stays.symm ▸ h⟩
    rw [next?_of_not_before more]
    rfl

/-- **Any number of calls** take that many items off. -/
theorem Lists.iterate (h : r.Lists l) (k : Nat) : (rest^[k] r).Lists (l.drop k) := by
  induction k with
  | zero => exact h
  | succ k ih =>
    rw [Function.iterate_succ_apply', ← List.tail_drop]
    exact ih.next.2

/-! ### All items -/

theorem take_succ (n : Nat) : take (n + 1) r =
    match r.next? with
    | none => []
    | some (a, r) => a :: take n r := rfl

/-- The first items of a progression. -/
theorem getElem?_take (n : Nat) (i : Nat) (x : Int64) : (take n r)[i]? = some x ↔
    i < n ∧ x.toInt = r.item i ∧ r.Before (r.item i) := by
  induction n generalizing r i with
  | zero => simp [take]
  | succ n ih =>
    rw [take_succ]
    by_cases more : r.Before (r.item 0)
    · rw [next?_of_before more, ← rest_of_before more]
      dsimp only
      cases i with
      | zero =>
        rw [List.getElem?_cons_zero, Option.some_inj, item_zero]
        rw [item_zero] at more
        exact ⟨fun same => ⟨Nat.succ_pos n, same ▸ rfl, more⟩, fun h => Int64.toInt_inj.mp h.2.1.symm⟩
      | succ i => rw [List.getElem?_cons_succ, ih, rest_items more, Nat.succ_lt_succ_iff]
    · rw [next?_of_not_before more]
      exact iff_of_false nofun fun h => more (before_zero h.2.2)

/-- The distance to the bound takes no more steps than the bound says. -/
theorem not_before_bound (nonzero : r.step ≠ 0) : ¬r.Before (r.item r.bound) := by
  have nonzero : r.step.toInt ≠ 0 := fun h => nonzero (Int64.toInt_inj.mp h)
  have far := Nat.lt_mul_div_succ (r.stop.toInt - r.next.toInt).natAbs
    (Int.natAbs_pos.mpr nonzero)
  have far : ((r.stop.toInt - r.next.toInt).natAbs : Int) < r.step.toInt.natAbs * r.bound := by
    exact_mod_cast far
  rw [before_iff, item]
  rcases Int.natAbs_eq r.step.toInt with up | down
  · rw [← up, Int.mul_comm] at far
    omega
  · have same : (r.bound : Int) * r.step.toInt = -(r.step.toInt.natAbs * r.bound) := by
      rw [Int.mul_comm, ← Int.neg_mul, ← down]
    omega

/-- All items of a progression, of which there are finitely many. -/
theorem lists_toList (nonzero : r.step ≠ 0) : r.Lists r.toList := by
  intro i x
  rw [toList, getElem?_take]
  refine and_iff_right_of_imp fun ⟨_, before⟩ => ?_
  by_contra late
  obtain ⟨k, hk⟩ := Nat.exists_eq_add_of_le (Nat.le_of_not_lt late)
  refine not_before_bound nonzero ?_
  rw [hk] at before
  clear hk late
  induction k with
  | zero => exact before
  | succ k ih =>
    rw [Nat.add_succ, item_succ] at before
    exact ih before.earlier

end Range

/-! ## Arguments -/

/-- The arguments of `range` and `xrange`: a bound, a start and a bound, or these and a step. -/
inductive RangeArgs : List Value → Int64 → Int64 → Int64 → Prop
  | stop {v stop} : v.asInt? = some stop → RangeArgs [v] 0 stop 1
  | bounds {v w start stop} : v.asInt? = some start → w.asInt? = some stop →
      RangeArgs [v, w] start stop 1
  | step {v w x start stop step} : v.asInt? = some start → w.asInt? = some stop →
      x.asInt? = some step → RangeArgs [v, w, x] start stop step

variable {g : Guest} {m : Machine} {args : List Value} {start stop step : Int64} {name : String}

theorem mapM_intArg {bounds : List Int64} (h : args.map (·.asInt?) = bounds.map some) :
    args.mapM (BuiltinFn.intArg name) m = .ok bounds m := by
  induction args generalizing bounds with
  | nil =>
    obtain rfl := List.map_eq_nil_iff.mp h.symm
    rfl
  | cons v args ih =>
    obtain ⟨n, bounds, rfl, hn, rest⟩ := List.map_eq_cons_iff.mp h.symm
    have first : BuiltinFn.intArg name v m = .ok n m := by
      unfold BuiltinFn.intArg
      rw [show v.asInt? = some n from hn.symm]
      rfl
    rw [List.mapM_cons, bind_apply, first]
    dsimp only
    rw [bind_apply, ih rest.symm]
    rfl

theorem rangeOf_apply (h : RangeArgs args start stop step) (nonzero : step ≠ 0) :
    BuiltinFn.rangeOf name args m = .ok ⟨start, stop, step⟩ m := by
  obtain ⟨bounds, few, given, form⟩ : ∃ bounds : List Int64,
      BuiltinFn.between name 1 3 args m = .ok () m ∧ args.map (·.asInt?) = bounds.map some ∧
        (bounds = [stop] ∧ start = 0 ∧ step = 1 ∨ bounds = [start, stop] ∧ step = 1 ∨
          bounds = [start, stop, step]) := by
    cases h with
    | stop h => exact ⟨[stop], rfl, by simp [h], .inl ⟨rfl, rfl, rfl⟩⟩
    | bounds h h' => exact ⟨[start, stop], rfl, by simp [h, h'], .inr (.inl ⟨rfl, rfl⟩)⟩
    | step h h' h'' => exact ⟨[start, stop, step], rfl, by simp [h, h', h''], .inr (.inr rfl)⟩
  unfold BuiltinFn.rangeOf
  rw [bind_apply, few]
  dsimp only
  rw [bind_apply, mapM_intArg given]
  dsimp only
  rcases form with ⟨rfl, rfl, rfl⟩ | ⟨rfl, rfl⟩ | rfl
  all_goals exact congrFun (if_neg nonzero) m

/-! ## Calls -/

/-- The answers of an iterator that is called so often. -/
def callsOf (g : Guest) (it : Value) : Nat → Exec (List (Option Value))
  | 0 => return []
  | n + 1 => do
    let v ← advance? g it
    return v :: (← callsOf g it n)

/-- The machine with another state of an iterator. -/
def Machine.setIterator (m : Machine) (r : Ref) (state : IterState) : Machine :=
  m.mapHeap fun h => { h with iterators := h.iterators.setIfInBounds r state }

section

variable {r : Ref} {state : IterState}

theorem iterators_setIterator (h : r < m.heap.iterators.size) :
    (m.setIterator r state).heap.iterators[r]? = some state :=
  Array.getElem?_setIfInBounds_self_of_lt h

theorem setIterator_self (h : m.heap.iterators[r]? = some state) : m.setIterator r state = m := by
  obtain ⟨inside, rfl⟩ := Array.getElem?_eq_some_iff.mp h
  have same : m.heap.iterators.setIfInBounds r m.heap.iterators[r] = m.heap.iterators := by
    simp [Array.setIfInBounds, inside]
  exact congrArg (fun its => ({ m with heap := { m.heap with iterators := its } } : Machine)) same

/-- A call of the iterator of a progression changes nothing but its state. -/
theorem advance?_range {p : Range} (h : m.heap.iterators[r]? = some (.range p)) :
    advance? g (.iterator r) m =
      .ok (p.next?.map fun q => .int q.1) (m.setIterator r (.range p.rest)) := by
  have unfolded : advance? g (.iterator r) = (heap >>= fun h =>
      ((h.iterator r).next? h).elim (return none) fun q => (do
        modifyHeap fun h => { h with iterators := h.iterators.setIfInBounds r q.2 }
        return some q.1)) := by
    unfold advance?
    refine bind_congr fun h => ?_
    cases (h.iterator r).next? h <;> rfl
  have state : m.heap.iterator r = .range p := by rw [Heap.iterator, h]; rfl
  rw [unfolded, bind_apply, heap_apply]
  dsimp only
  rw [state, IterState.next?, Range.rest]
  cases p.next? with
  | none => exact congrArg (EStateM.Result.ok none) (setIterator_self h).symm
  | some q => rfl

end

/-- The items of a list one by one, and then nothing for ever. -/
def inTurn (items : List Int64) (k : Nat) : Option Value := items[k]?.map .int

/-- One call of the iterator of a progression answers the item that is next. -/
theorem advance?_lists {p : Range} {items : List Int64} (lists : p.Lists items) {r : Ref} {k : Nat}
    (h : m.heap.iterators[r]? = some (.range (Range.rest^[k] p))) :
    advance? g (.iterator r) m =
      .ok (inTurn items k) (m.setIterator r (.range (Range.rest^[k + 1] p))) := by
  obtain ⟨first, -⟩ := (lists.iterate k).next
  rw [List.head?_drop] at first
  rw [advance?_range h, Function.iterate_succ_apply', inTurn, ← first, Option.map_map]
  rfl

/-- Calls one after the other answer the items one by one. -/
theorem callsOf_lists {p : Range} {items : List Int64} (lists : p.Lists items) {r : Ref} (n k : Nat)
    (h : m.heap.iterators[r]? = some (.range (Range.rest^[k] p))) :
    ∃ m', callsOf g (.iterator r) n m = .ok ((List.range' k n).map (inTurn items)) m' := by
  induction n generalizing m k with
  | zero => exact ⟨m, rfl⟩
  | succ n ih =>
    obtain ⟨inside, -⟩ := Array.getElem?_eq_some_iff.mp h
    obtain ⟨m', answers⟩ := ih (k + 1) (iterators_setIterator inside)
    refine ⟨m', ?_⟩
    rw [callsOf, bind_apply, advance?_lists lists h]
    dsimp only
    rw [bind_apply, answers]
    rfl

/-! ## The functions -/

/-- **Ranges are exact.**  The arguments of `range` and `xrange` stand for a progression with
    finitely many items: the start, the start and a step and so on, as long as these integers are
    strictly before the bound.  `range` answers a new list of the items.  `xrange` answers a new
    iterator, and calls of it answer the items one by one and then nothing for ever, whatever
    happens in between that leaves the iterator alone. -/
theorem range_exact (start stop step : Int64) (nonzero : step ≠ 0) : ∃ items : List Int64,
    (∀ (i : Nat) (x : Int64), items[i]? = some x ↔ x.toInt = start.toInt + i * step.toInt ∧
      if 0 < step then x.toInt < stop.toInt else stop.toInt < x.toInt) ∧
    ∀ g args m, RangeArgs args start stop step →
      BuiltinFn.range.run g args m = .ok (.list m.heap.lists.size)
        (m.mapHeap fun h => (h.newList (items.map Value.int).toArray).2) ∧
      ∃ state : Nat → IterState,
        BuiltinFn.xrange.run g args m = .ok (.iterator m.heap.iterators.size)
          (m.mapHeap fun h => (h.newIterator (state 0)).2) ∧
        (∀ r k m', m'.heap.iterators[r]? = some (state k) → advance? g (.iterator r) m' =
          .ok (inTurn items k) (m'.setIterator r (state (k + 1)))) ∧
        ∀ n, ∃ m', (BuiltinFn.xrange.run g args >>= fun it => callsOf g it n) m =
          .ok ((List.range n).map (inTurn items)) m' := by
  let p : Range := ⟨start, stop, step⟩
  have lists : p.Lists p.toList := Range.lists_toList nonzero
  refine ⟨p.toList, fun i x => ?_, fun g args m given => ?_⟩
  · refine (lists i x).trans (and_congr_right fun same => ?_)
    rw [← same]
    exact Iff.rfl
  have made : BuiltinFn.xrange.run g args m = .ok (.iterator m.heap.iterators.size)
      (m.mapHeap fun h => (h.newIterator (.range p)).2) := by
    show (BuiltinFn.rangeOf "xrange" args >>= fun r => alloc (·.newIterator (.range r))) m = _
    rw [bind_apply, rangeOf_apply given nonzero]
    rfl
  refine ⟨?_, fun k => .range (Range.rest^[k] p), made, fun r k m => advance?_lists lists,
    fun n => ?_⟩
  · show (BuiltinFn.rangeOf "range" args >>= fun r => newList (r.toList.map Value.int)) m = _
    rw [bind_apply, rangeOf_apply given nonzero]
    rfl
  · rw [bind_apply, made, List.range_eq_range']
    refine callsOf_lists lists n 0 ?_
    show (m.heap.iterators.push _)[m.heap.iterators.size]? = _
    rw [Array.getElem?_push_size]
    rfl

/-- A progression whose second item is no word. -/
theorem range_exact_of_last_word :
    let start : Int64 := 9223372036854775806
    let stop : Int64 := 9223372036854775807
    let args : List Value := [.int start, .int stop, .int 5]
    (5 : Int64) ≠ 0 ∧ RangeArgs args start stop 5 ∧ ∀ g m,
      BuiltinFn.range.run g args m = .ok (.list m.heap.lists.size)
        (m.mapHeap fun h => (h.newList #[.int start]).2) ∧
      ∃ m', (BuiltinFn.xrange.run g args >>= fun it => callsOf g it 3) m =
        .ok [some (.int start), none, none] m' := by
  intro start stop args
  have given : RangeArgs args start stop 5 := .step rfl rfl rfl
  obtain ⟨items, exact, answers⟩ := range_exact start stop 5 (by decide)
  have one : items = [start] := by
    refine List.ext_getElem? fun i => ?_
    cases i with
    | zero => exact (exact 0 start).mpr (by decide)
    | succ i =>
      refine Option.eq_none_iff_forall_ne_some.mpr fun x hx => ?_
      obtain ⟨item, before⟩ := (exact (i + 1) x).mp hx
      have first : start.toInt = 9223372036854775806 := by decide
      have bound : x.toInt < 9223372036854775807 := before
      have five : (5 : Int64).toInt = 5 := by decide
      rw [first, five] at item
      omega
  subst one
  refine ⟨by decide, given, fun g m => ?_⟩
  obtain ⟨list, state, -, -, calls⟩ := answers g args m given
  exact ⟨list, calls 3⟩

end TieredMachine
