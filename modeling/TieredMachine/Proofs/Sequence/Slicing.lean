/-
  Slices of built-in sequences.

  A slice is read over a list, a tuple or a string, taken out of a list, or assigned to one.
  All of them go by the same positions.  The exceptions of a slice come before anything is
  changed; but an assignment goes through its right side first, and guest code that runs
  then can change the list.

  * `SliceObj.bounds?`, `spanOf_apply`: the slices that mean something, and what the others
    raise;
  * `getItem_list`, `deleteItem_slice`, `setItem_slice`: reading, taking out, assigning;
  * `collect_lists`: values whose iteration runs no guest code;
  * `loadSlice_apply`, `storeSlice_apply`, `dropSlice_apply`: instructions that slice;
  * `slices_follow_their_law`: what slices do, for every length, bound and step.
-/
import TieredMachine.Proofs.Agreement.Frame
import TieredMachine.Proofs.Generator.Resume
import TieredMachine.Proofs.Sequence.Items
import TieredMachine.Proofs.Sequence.Span
import TieredMachine.Run.Guest

namespace TieredMachine

open Sequence

/-! ## Bounds -/

/-- The bound that a value stands for; `None` stands for the absence of one. -/
def Value.bound? : Value → Option (Option Int64)
  | .none => some Option.none
  | v => v.asInt?.map some

namespace SliceObj

/-- The bounds and the step of a slice that means something. -/
def bounds? (s : SliceObj) : Option (Option Int64 × Option Int64 × Int64) :=
  match s.start.bound?, s.stop.bound?, s.step.bound? with
  | some start, some stop, some step =>
    if step.getD 1 = 0 then none else some (start, stop, step.getD 1)
  | _, _, _ => none

/-- What is wrong with a slice that means nothing. -/
def complaint (s : SliceObj) : ExceptionKind × String :=
  if s.step.bound? = some (some 0) then (.valueError, "slice step cannot be zero")
  else (.typeError, "slice indices must be integers or None")

/-- A slice that means nothing raises an exception, and nothing else changes. -/
def refused {α : Type} (s : SliceObj) (m : Machine) : EStateM.Result Fault Machine α :=
  m.raising s.complaint.1 [.str s.complaint.2]

variable {s : SliceObj} {start stop : Option Int64} {step : Int64}

theorem step_ne_zero (h : s.bounds? = some (start, stop, step)) : step ≠ 0 := by
  unfold bounds? at h
  split at h
  · split at h
    · cases h
    · cases h
      assumption
  · cases h

end SliceObj

variable {g : Guest} {m m' : Machine} {s : SliceObj} {r sr : Ref} {v : Value}
  {start stop : Option Int64} {step : Int64}

theorem sliceBound_apply (v : Value) (m : Machine) : sliceBound v m = match v.bound? with
    | some bound => .ok bound m
    | none => m.raising .typeError [.str "slice indices must be integers or None"] := by
  cases v <;> rfl

/-- The span of a slice, or its exception.  The step is looked at first. -/
theorem spanOf_apply (s : SliceObj) (len : Nat) (m : Machine) :
    spanOf s len m = match s.bounds? with
      | some (start, stop, step) => .ok (.of start stop step len) m
      | none => s.refused m := by
  unfold spanOf sliceStep SliceObj.bounds? SliceObj.refused SliceObj.complaint
  simp only [bind_apply, sliceBound_apply]
  cases hstep : s.step.bound? with
  | none => cases s.start.bound? <;> cases s.stop.bound? <;> rfl
  | some step =>
    by_cases zero : step.getD 1 = 0
    · have given : step = some 0 := by
        cases step with
        | none => exact absurd zero (by decide)
        | some i => exact congrArg some zero
      subst given
      cases s.start.bound? <;> cases s.stop.bound? <;> rfl
    · have other : ¬some step = some (some 0) := fun h => zero (by cases h; rfl)
      cases s.start.bound? <;> cases s.stop.bound? <;> simp only [if_neg zero, if_neg other] <;> rfl

/-! ## Reading -/

theorem pickSlice_apply {α : Type} (s : SliceObj) (items : Array α) (m : Machine) :
    pickSlice s items m = match s.bounds? with
      | some (start, stop, step) => .ok (pick items (Span.of start stop step items.size).positions) m
      | none => s.refused m := by
  unfold pickSlice
  rw [bind_apply, spanOf_apply]
  cases s.bounds? with
  | none => rfl
  | some bounds => rfl

/-- A left operand that answers an operator has answered it for good. -/
theorem binary_of_left {op : BinaryOp} {a b : Value} {res : EStateM.Result Fault Machine Value}
    (left : leftBinary g op a b m = res) (given : ∀ v n, res = .ok v n → v ≠ .notImplemented) :
    binary g op a b m = res := by
  unfold binary
  rw [bind_apply, left]
  cases res with
  | ok v n =>
    cases v with
    | notImplemented => exact absurd rfl (given _ _ rfl)
    | _ => rfl
  | error e n => rfl

/-- A container that answers a subscription has answered it for good. -/
theorem binary_getItem {a : Value} {res : EStateM.Result Fault Machine Value}
    (builtin : ∀ i, a ≠ .inst i) (answer : subscript a (.slice sr) m = res)
    (given : ∀ v n, res = .ok v n → v ≠ .notImplemented) :
    binary g .getItem a (.slice sr) m = res := by
  refine binary_of_left ?_ given
  rw [← answer]
  cases a with
  | inst i => exact absurd rfl (builtin i)
  | _ => rfl

section Reading

variable (h : (m.heap.slice sr).bounds? = some (start, stop, step))

include h

/-- A container whose subscription picks the items of a slice answers what is made of them. -/
theorem getItem_picked {α : Type} {items : Array α} {a : Value} (make : Array α → Exec Value)
    (builtin : ∀ i, a ≠ .inst i)
    (picks : subscript a (.slice sr) m = (pickSlice (m.heap.slice sr) items >>= make) m)
    (given : ∀ picked, ∃ v n, make picked m = .ok v n ∧ v ≠ .notImplemented) : ∃ picked,
    Picked items (Span.of start stop step items.size).positions picked ∧
      binary g .getItem a (.slice sr) m = make picked m := by
  rw [bind_apply, pickSlice_apply, h] at picks
  refine ⟨_, pick_picked fun _ => Span.lt_of_mem (SliceObj.step_ne_zero h),
    binary_getItem builtin picks fun v n made => ?_⟩
  obtain ⟨v', n', made', implemented⟩ := given
    (pick items (Span.of start stop step items.size).positions)
  cases made.symm.trans made'
  exact implemented

theorem getItem_list (r : Ref) : ∃ picked,
    Picked (m.heap.list r) (Span.of start stop step (m.heap.list r).size).positions picked ∧
      binary g .getItem (.list r) (.slice sr) m =
        .ok (.list m.heap.lists.size) (m.mapHeap fun h => (h.newList picked).2) :=
  getItem_picked h (fun items => alloc (·.newList items)) nofun rfl fun _ => ⟨_, _, rfl, nofun⟩

theorem getItem_tuple (r : Ref) : ∃ picked,
    Picked (m.heap.tuple r) (Span.of start stop step (m.heap.tuple r).size).positions picked ∧
      binary g .getItem (.tuple r) (.slice sr) m =
        .ok (.tuple m.heap.tuples.size) (m.mapHeap fun h => (h.newTuple picked).2) :=
  getItem_picked h (fun items => alloc (·.newTuple items)) nofun rfl fun _ => ⟨_, _, rfl, nofun⟩

theorem getItem_str (t : String) : ∃ picked,
    Picked t.toList.toArray (Span.of start stop step t.toList.toArray.size).positions picked ∧
      binary g .getItem (.str t) (.slice sr) m = .ok (.str (.ofList picked.toList)) m :=
  getItem_picked h (fun cs => return .str (.ofList cs.toList)) nofun rfl fun _ =>
    ⟨_, _, rfl, nofun⟩

end Reading

/-- A sequence that is read over a slice that means nothing. -/
theorem getItem_refused (h : (m.heap.slice sr).bounds? = none) {a : Value}
    (sequence : (∃ r, a = .list r) ∨ (∃ r, a = .tuple r) ∨ ∃ t, a = .str t) :
    binary g .getItem a (.slice sr) m = (m.heap.slice sr).refused m := by
  have answer : subscript a (.slice sr) m = (m.heap.slice sr).refused m := by
    unfold subscript
    rw [bind_apply, heap_apply]
    rcases sequence with ⟨r, rfl⟩ | ⟨r, rfl⟩ | ⟨t, rfl⟩ <;> dsimp only <;>
      rw [bind_apply, pickSlice_apply, h] <;> rfl
  exact binary_getItem (by rintro i rfl; simp at sequence) answer fun v n eq => by cases eq

/-! ## Changing -/

/-- The machine with other items in a list. -/
def Machine.withList (m : Machine) (r : Ref) (items : Array Value) : Machine :=
  m.mapHeap fun h => { h with lists := h.lists.modify r fun _ => items }

theorem modifyList_apply (r : Ref) (f : Array Value → Array Value) (m : Machine) :
    modifyList r f m = .ok () (m.withList r (f (m.heap.list r))) := by
  have same : m.heap.lists.modify r f = m.heap.lists.modify r fun _ => f (m.heap.list r) := by
    refine Array.ext_getElem? fun i => ?_
    rw [Array.getElem?_modify, Array.getElem?_modify]
    split
    · rename_i hi
      subst hi
      unfold Heap.list
      cases m.heap.lists[r]? <;> rfl
    · rfl
  exact congrArg (fun lists => EStateM.Result.ok ()
    ({ m with heap := { m.heap with lists := lists } } : Machine)) same

theorem deleteItem_slice (r : Ref) : deleteItem g (.list r) (.slice sr) m =
    match (m.heap.slice sr).bounds? with
    | some (start, stop, step) =>
      .ok () (m.withList r
        (erase (m.heap.list r) (Span.of start stop step (m.heap.list r).size).positions))
    | none => (m.heap.slice sr).refused m := by
  show (spanOf (m.heap.slice sr) (m.heap.list r).size >>= fun span =>
    modifyList r fun items => erase items span.positions) m = _
  rw [bind_apply, spanOf_apply]
  cases (m.heap.slice sr).bounds? with
  | none => rfl
  | some bounds => exact modifyList_apply ..

/-- What is said of too few or too many items for the positions of a slice. -/
def Sequence.misfit (given wanted : Nat) : String :=
  s!"attempt to assign sequence of size {given} " ++ s!"to extended slice of size {wanted}"

/-- An assignment goes through its right side before it looks at anything else. -/
theorem setItem_slice (r : Ref) (v : Value) : setItem g (.list r) (.slice sr) v m =
    match collect g v m with
    | .ok new m' =>
      match (m.heap.slice sr).bounds? with
      | some (start, stop, step) =>
        let items := m'.heap.list r
        let span := Span.of start stop step items.size
        if span.step = 1 then
          .ok () (m'.withList r (splice items span.start.toNat span.count new.toArray))
        else if new.length ≠ span.count then
          m'.raising .valueError [.str (misfit new.length span.count)]
        else .ok () (m'.withList r (overwrite items span.positions new))
      | none => (m.heap.slice sr).refused m'
    | .error e m' => .error e m' := by
  show assignSlice g r (m.heap.slice sr) v m = _
  unfold assignSlice
  rw [bind_apply]
  cases collect g v m with
  | error e m' => rfl
  | ok new m' =>
    dsimp only
    rw [bind_apply, heap_apply]
    dsimp only
    rw [bind_apply, spanOf_apply]
    cases (m.heap.slice sr).bounds? with
    | none => rfl
    | some bounds =>
      dsimp only
      split
      · exact modifyList_apply ..
      · split
        · rfl
        · exact modifyList_apply ..

/-- What the items of a list are after some items were assigned to a slice of it. -/
def Sequence.Assigned {α : Type} (start stop : Option Int64) (step : Int64) (items : Array α)
    (new : List α) (result : Array α) : Prop :=
  let a := first start step items.size
  let b := last stop step items.size
  if step = 1 then
    result.toList = items.toList.take a.toNat ++ new ++ items.toList.drop (max a b).toNat
  else Replaced items (Span.of start stop step items.size).positions new result

theorem splice_assigned {α : Type} (items : Array α) (new : List α) :
    Assigned start stop 1 items new (splice items (Span.of start stop 1 items.size).start.toNat
      (Span.of start stop 1 items.size).count new.toArray) := by
  unfold Assigned
  dsimp only
  rw [if_pos rfl, splice_toList, span_eq]
  obtain ⟨low, -⟩ := first_bounds start 1 items.size
  have low : 0 ≤ first start 1 items.size := low
  have count : reach 1 (first start 1 items.size) (last stop 1 items.size) =
      max 0 (last stop 1 items.size - first start 1 items.size) := by
    unfold reach
    have one : (1 : Int64).toInt = 1 := rfl
    rw [if_neg (by decide), one, Int.ediv_one]
    split <;> omega
  have ends : (first start 1 items.size).toNat +
      (reach 1 (first start 1 items.size) (last stop 1 items.size)).toNat =
      (max (first start 1 items.size) (last stop 1 items.size)).toNat := by
    rw [count]
    omega
  rw [ends]

/-- An assignment to a slice that means something. -/
theorem setItem_assigned (h : (m.heap.slice sr).bounds? = some (start, stop, step)) (r : Ref)
    {new : List Value} (hv : collect g v m = .ok new m')
    (fits : step = 1 ∨
      new.length = (Span.of start stop step (m'.heap.list r).size).positions.length) :
    ∃ items, Assigned start stop step (m'.heap.list r) new items ∧
      setItem g (.list r) (.slice sr) v m = .ok () (m'.withList r items) := by
  rw [setItem_slice, hv]
  dsimp only
  rw [h]
  dsimp only
  by_cases one : step = 1
  · subst one
    rw [if_pos (Span.step_eq_one_iff.mpr rfl)]
    exact ⟨_, splice_assigned .., rfl⟩
  · have fits := fits.resolve_left one
    rw [if_neg (mt Span.step_eq_one_iff.mp one), if_neg (by rw [fits, Span.positions_length]; exact fun ne => ne rfl)]
    refine ⟨_, ?_, rfl⟩
    unfold Assigned
    rw [if_neg one]
    have nonzero := SliceObj.step_ne_zero h
    exact overwrite_replaced (fun _ => Span.lt_of_mem nonzero) (Span.positions_nodup nonzero) fits

/-- An assignment of too few or too many items. -/
theorem setItem_mismatched (h : (m.heap.slice sr).bounds? = some (start, stop, step)) (r : Ref)
    {new : List Value} (hv : collect g v m = .ok new m') (other : step ≠ 1)
    (misfits : new.length ≠ (Span.of start stop step (m'.heap.list r).size).positions.length) :
    setItem g (.list r) (.slice sr) v m = m'.raising .valueError
      [.str (misfit new.length
        (Span.of start stop step (m'.heap.list r).size).positions.length)] := by
  rw [Span.positions_length] at misfits ⊢
  rw [setItem_slice, hv]
  dsimp only
  rw [h]
  dsimp only
  rw [if_neg (mt Span.step_eq_one_iff.mp other), if_pos misfits]

/-! ## Iteration without guest code -/

/-- To go through the items of a value runs no guest code. -/
def Heap.Passive (h : Heap) : Value → Prop
  | .generator _ => False
  | .inst r => h.classAttr? r "__iter__" = none
  | _ => True

theorem drain_lists (r : Ref) (fuel : Nat) (items : Array Value) (m : Machine) :
    (finalState (drain g (.iterator r) fuel items m)).heap.lists = m.heap.lists := by
  induction fuel generalizing items m with
  | zero => rfl
  | succ fuel ih =>
    show (finalState ((advance? g (.iterator r) >>= _) m)).heap.lists = _
    rw [bind_apply]
    have step : ∃ next m', advance? g (.iterator r) m = .ok next m' ∧
        m'.heap.lists = m.heap.lists := by
      show ∃ next m', (heap >>= _) m = .ok next m' ∧ _
      rw [bind_apply, heap_apply]
      dsimp only
      cases (m.heap.iterator r).next? m.heap with
      | none => exact ⟨_, _, rfl, rfl⟩
      | some next => exact ⟨_, _, rfl, rfl⟩
    obtain ⟨next, m', ran, same⟩ := step
    rw [ran]
    cases next with
    | none => exact same
    | some item => exact (ih (items.push item) m').trans same

/-- What is gone through without guest code changes no list. -/
theorem collect_lists (h : m.heap.Passive v) :
    (finalState (collect g v m)).heap.lists = m.heap.lists := by
  cases v with
  | list r | tuple r => rfl
  | str s => exact drain_lists _ _ _ _
  | dict r => exact drain_lists _ _ _ _
  | iterator r => exact drain_lists _ _ _ _
  | generator r => exact h.elim
  | inst r =>
    have lacks : m.heap.classAttr? r "__iter__" = none := h
    have special : callSpecial g (.inst r) "__iter__" [] m = .ok .notImplemented m := by
      show (heap >>= _) m = _
      rw [bind_apply, heap_apply]
      dsimp only
      rw [lacks]
      rfl
    have fails : iterate g (.inst r) m =
        m.raising .typeError [.str s!"'{(Value.inst r).typeName}' object is not iterable"] := by
      show (callSpecial g (.inst r) "__iter__" [] >>= _) m = _
      rw [bind_apply, special]
      rfl
    show (finalState ((iterate g (.inst r) >>= _) m)).heap.lists = _
    rw [bind_apply, fails]
    rfl
  | _ => rfl

/-! ## Instructions -/

/-- The machine with a new slice, of the bounds that are there. -/
def Machine.withSlice (m : Machine) (start stop : Option Value) : Machine :=
  m.mapHeap fun h => (h.newSlice ⟨start.getD .none, stop.getD .none, .none⟩).2

theorem slice_withSlice (start stop : Option Value) :
    (m.withSlice start stop).heap.slice m.heap.slices.size =
      ⟨start.getD .none, stop.getD .none, .none⟩ := by
  show (m.heap.slices.push _)[m.heap.slices.size]?.getD default = _
  rw [Array.getElem?_push_size]
  rfl

section Instructions

variable {f : Frame} {lower upper : Option Value} {container v : Value} {rest : List Value}

theorem sliceOperand_apply (stack : f.stack = upper.toList ++ (lower.toList ++ rest)) :
    Primitive.sliceOperand (lower.isSome, upper.isSome) ⟨f, m⟩ =
      .ok (.slice m.heap.slices.size) ⟨{ f with stack := rest }, m.withSlice lower upper⟩ := by
  cases upper with
  | none =>
    cases lower with
    | none =>
      have same : { f with stack := rest } = f := by rw [← show f.stack = rest from stack]
      rw [same]
      rfl
    | some a =>
      show (pop >>= fun start => onMachine (alloc (·.newSlice ⟨start, .none, .none⟩)))
        (⟨f, m⟩ : Activation) = _
      rw [bind_apply, pop_apply stack]
      rfl
  | some b =>
    cases lower with
    | none =>
      show (pop >>= fun stop => onMachine (alloc (·.newSlice ⟨.none, stop, .none⟩)))
        (⟨f, m⟩ : Activation) = _
      rw [bind_apply, pop_apply stack]
      rfl
    | some a =>
      show (pop >>= fun stop => pop >>= fun start =>
        onMachine (alloc (·.newSlice ⟨start, stop, .none⟩))) (⟨f, m⟩ : Activation) = _
      rw [bind_apply, pop_apply stack]
      dsimp only
      rw [bind_apply, pop_apply rfl]
      rfl

/-- Reading over a slice. -/
theorem loadSlice_apply (stack : f.stack = upper.toList ++ (lower.toList ++ container :: rest)) :
    Primitive.loadSlice g (lower.isSome, upper.isSome) ⟨f, m⟩ =
      (onMachine (binary g .getItem container (.slice m.heap.slices.size)) >>= push)
        ⟨{ f with stack := rest }, m.withSlice lower upper⟩ := by
  unfold Primitive.loadSlice
  rw [bind_apply, sliceOperand_apply stack]
  dsimp only
  rw [bind_apply, pop_apply rfl]
  rfl

/-- Assigning to a slice. -/
theorem storeSlice_apply
    (stack : f.stack = upper.toList ++ (lower.toList ++ container :: v :: rest)) :
    Primitive.storeSlice g (lower.isSome, upper.isSome) ⟨f, m⟩ =
      onMachine (setItem g container (.slice m.heap.slices.size) v)
        ⟨{ f with stack := rest }, m.withSlice lower upper⟩ := by
  unfold Primitive.storeSlice
  rw [bind_apply, sliceOperand_apply stack]
  dsimp only
  rw [bind_apply, pop_apply rfl]
  dsimp only
  rw [bind_apply, pop_apply rfl]
  rfl

/-- Deleting a slice. -/
theorem dropSlice_apply (stack : f.stack = upper.toList ++ (lower.toList ++ container :: rest)) :
    Primitive.dropSlice g (lower.isSome, upper.isSome) ⟨f, m⟩ =
      onMachine (deleteItem g container (.slice m.heap.slices.size))
        ⟨{ f with stack := rest }, m.withSlice lower upper⟩ := by
  unfold Primitive.dropSlice
  rw [bind_apply, sliceOperand_apply stack]
  dsimp only
  rw [bind_apply, pop_apply rfl]
  rfl

end Instructions

/-! ## The law -/

/-- **Slices follow their law**, for every length, bound and step.

    * The positions are those of the progression that starts at the first bound and stays
      before the last one.  They are distinct and in range, and to compute them on words
      never overflows.
    * Over a slice that means something, reading answers the items at the positions, in
      their order; deleting keeps the items at the other ones; assigning replaces the range
      when the step is one, and the items at the positions one by one when it is another.
    * Over one that means nothing, each of them raises an exception and changes nothing.
    * An assignment goes through its right side first.  An exception finds the list as that
      has left it, which is as it was when no guest code ran.
    * The instructions that slice do this with the bounds that they take off the stack. -/
theorem slices_follow_their_law (g : Guest) (m : Machine) (sr : Ref) :
    (∀ (start stop : Option Int64) (step : Int64) (len : Nat), step ≠ 0 → len < 2 ^ 63 →
      let span := Span.of start stop step len
      (∀ k p : Nat, span.positions[k]? = some p ↔
        (p : Int) = first start step len + k * step.toInt ∧
          Before step (first start step len + k * step.toInt) (last stop step len)) ∧
      span.positions.Nodup ∧ (∀ p ∈ span.positions, p < len) ∧
      ∃ start' step' count, spanWords start stop step len = .ok (start', step', count) ∧
        start'.toInt = span.start ∧ count.toInt = span.count ∧
        ∀ k p : Nat, span.positions[k]? = some p →
          positionWord start' step' (Int64.ofInt k) = .ok (Int64.ofInt p)) ∧
    (∀ start stop step, (m.heap.slice sr).bounds? = some (start, stop, step) →
      let selected := fun len => (Span.of start stop step len).positions
      (∀ r, ∃ picked, Picked (m.heap.list r) (selected (m.heap.list r).size) picked ∧
        binary g .getItem (.list r) (.slice sr) m =
          .ok (.list m.heap.lists.size) (m.mapHeap fun h => (h.newList picked).2)) ∧
      (∀ r, ∃ picked, Picked (m.heap.tuple r) (selected (m.heap.tuple r).size) picked ∧
        binary g .getItem (.tuple r) (.slice sr) m =
          .ok (.tuple m.heap.tuples.size) (m.mapHeap fun h => (h.newTuple picked).2)) ∧
      (∀ t : String, ∃ picked,
        Picked t.toList.toArray (selected t.toList.toArray.size) picked ∧
        binary g .getItem (.str t) (.slice sr) m = .ok (.str (.ofList picked.toList)) m) ∧
      (∀ r, deleteItem g (.list r) (.slice sr) m = .ok () (m.withList r
        (kept (m.heap.list r).toList (selected (m.heap.list r).size)).toArray)) ∧
      ∀ r v new m', collect g v m = .ok new m' →
        let positions := selected (m'.heap.list r).size
        if step = 1 ∨ new.length = positions.length then
          ∃ items, Assigned start stop step (m'.heap.list r) new items ∧
            setItem g (.list r) (.slice sr) v m = .ok () (m'.withList r items)
        else setItem g (.list r) (.slice sr) v m =
          m'.raising .valueError [.str (misfit new.length positions.length)]) ∧
    ((m.heap.slice sr).bounds? = none →
      (∀ a : Value, ((∃ r, a = .list r) ∨ (∃ r, a = .tuple r) ∨ ∃ t, a = .str t) →
        binary g .getItem a (.slice sr) m = (m.heap.slice sr).refused m) ∧
      (∀ r, deleteItem g (.list r) (.slice sr) m = (m.heap.slice sr).refused m) ∧
      ∀ r v new m', collect g v m = .ok new m' →
        setItem g (.list r) (.slice sr) v m = (m.heap.slice sr).refused m') ∧
    (∀ r v e m', collect g v m = .error e m' →
      setItem g (.list r) (.slice sr) v m = .error e m') ∧
    (∀ v, m.heap.Passive v → (finalState (collect g v m)).heap.lists = m.heap.lists) ∧
    ∀ (f : Frame) (lower upper : Option Value) (container : Value) (rest : List Value),
      f.stack = upper.toList ++ (lower.toList ++ container :: rest) →
      let m' := m.withSlice lower upper
      let slice := Value.slice m.heap.slices.size
      m'.heap.slice m.heap.slices.size = ⟨lower.getD .none, upper.getD .none, .none⟩ ∧
      Primitive.loadSlice g (lower.isSome, upper.isSome) ⟨f, m⟩ =
        (onMachine (binary g .getItem container slice) >>= push) ⟨{ f with stack := rest }, m'⟩ ∧
      Primitive.dropSlice g (lower.isSome, upper.isSome) ⟨f, m⟩ =
        onMachine (deleteItem g container slice) ⟨{ f with stack := rest }, m'⟩ ∧
      ∀ v rest', rest = v :: rest' →
        Primitive.storeSlice g (lower.isSome, upper.isSome) ⟨f, m⟩ =
          onMachine (setItem g container slice v) ⟨{ f with stack := rest' }, m'⟩ := by
  refine ⟨fun start stop step len nonzero short => ?_, fun start stop step h => ?_,
    fun h => ⟨fun a => getItem_refused h, fun r => ?_, fun r v new m' hv => ?_⟩,
    fun r v e m' hv => ?_, fun v => collect_lists, fun f lower upper container rest stack =>
      ⟨slice_withSlice lower upper, loadSlice_apply stack, dropSlice_apply stack,
        fun v rest' same => storeSlice_apply (same ▸ stack)⟩⟩
  · exact ⟨Span.of_selects nonzero, Span.positions_nodup nonzero, fun p => Span.lt_of_mem nonzero,
      spanWords_ok nonzero short⟩
  · refine ⟨getItem_list h, getItem_tuple h, getItem_str h, fun r => ?_, fun r v new m' hv => ?_⟩
    · have nodup : (Span.of start stop step (m.heap.list r).size).positions.Nodup :=
        Span.positions_nodup (SliceObj.step_ne_zero h)
      rw [deleteItem_slice, h]
      dsimp only
      rw [← erase_toList _ nodup, Array.toArray_toList]
    · dsimp only
      split
      · rename_i fits
        exact setItem_assigned h r hv fits
      · rename_i misfits
        obtain ⟨other, misfits⟩ := not_or.mp misfits
        exact setItem_mismatched h r hv other misfits
  · rw [deleteItem_slice, h]
  · rw [setItem_slice, hv, h]
  · rw [setItem_slice, hv]

/-! ### An assignment that changes the list before it fails -/

/-- The parts of a generator's unit that appends 9 to its argument and yields nothing. -/
def CodeParts.grows : CodeParts where
  name := "grow"
  argcount := 1
  words := #[.ofOpcode .loadFast, ⟨1⟩, .ofOpcode .loadConst, ⟨1⟩, .ofOpcode .listAppend, ⟨3⟩,
    .ofOpcode .popTop, .ofOpcode .loadConst, ⟨3⟩, .ofOpcode .returnValue]
  consts := #[.int 9, .none]
  varnames := #["l"]

/-- The unit with these parts. -/
def CodeUnit.grows : CodeUnit := (CodeUnit.ofParts 0 .grows).toOption.getD default

/-- A frame of that unit that has not begun. -/
def Frame.growing : Frame where
  code := .grows
  globals := 0
  builtins := 1
  locals := #[some (.list 0)]
  cells := #[]

/-- A machine with a list of three items, a slice that selects two of them, one that takes
    them backwards, and a generator over that unit and the list. -/
def Machine.growing : Machine where
  config := {}
  heap :=
    { lists := #[#[.int 1, .int 2, .int 3]]
      slices := #[⟨.none, .none, .int 2⟩, ⟨.none, .none, .int (-1)⟩]
      units := #[.grows]
      namespaces := #[{}, {}]
      generators := #[⟨"grow", some .growing, false⟩] }
  units := #[{}]
  globals := 0
  builtins := 1
  bailError := false
  control := .never
  timer := .new 1 false

/-- The list is read backwards, and turned around by assigning its own items. -/
theorem slices_follow_their_law_of_growing :
    (Machine.growing.heap.slice 1).bounds? = some (none, none, -1) ∧
    binary (guestWithin 9) .getItem (.list 0) (.slice 1) .growing = .ok (.list 1)
      (Machine.growing.mapHeap fun h => (h.newList #[.int 3, .int 2, .int 1]).2) ∧
    ∃ items, Replaced #[.int 1, .int 2, .int 3] [2, 1, 0] [.int 1, .int 2, .int 3] items ∧
      setItem (guestWithin 9) (.list 0) (.slice 1) (.list 0) .growing =
        .ok () (Machine.growing.withList 0 items) := by
  obtain ⟨-, law, -⟩ := slices_follow_their_law (guestWithin 9) .growing 1
  have means : (Machine.growing.heap.slice 1).bounds? = some (none, none, -1) := rfl
  obtain ⟨read, -, -, -, assign⟩ := law none none (-1) means
  obtain ⟨picked, backwards, ran⟩ := read 0
  have reversed : picked.toList.map some = [.int 3, .int 2, .int 1].map some := backwards
  have known : picked = #[.int 3, .int 2, .int 1] :=
    Array.toList_inj.mp (List.map_injective_iff.mpr (fun _ _ => Option.some.inj) reversed)
  have assigned := assign 0 (.list 0) [.int 1, .int 2, .int 3] .growing rfl
  rw [if_pos (.inr rfl)] at assigned
  obtain ⟨items, replaced, done⟩ := assigned
  exact ⟨means, known ▸ ran, items, replaced, done⟩

/-- The right side of an assignment is a generator that appends to the list and yields
    nothing: there are too few items, and the list has grown all the same. -/
theorem failed_assignment_changes_the_list :
    let assigned := setItem (guestWithin 9) (.list 0) (.slice 0) (.generator 0) .growing
    let mismatched : Bool := match assigned with
      | .ok _ _ => false
      | .error e m => e.isException m.heap .valueError
    Machine.growing.heap.list 0 = #[.int 1, .int 2, .int 3] ∧ mismatched = true ∧
      (finalState assigned).heap.list 0 = #[.int 1, .int 2, .int 3, .int 9] := by
  decide +kernel

end TieredMachine
