/-
  What primitives take off the value stack and leave on it.

  A primitive that neither jumps nor touches the block stack replaces some topmost values
  by others, and does not look below them.  How many it takes and leaves depends on the
  primitive and its argument only.  It leaves the rest of the frame as it is, also when it
  fails.

  * `Brings`: a computation that takes so many values and leaves so many;
  * one lemma for each way of using a frame, and one for each primitive.
-/
import TieredMachine.Proofs.Safety.Operation

namespace TieredMachine

/-- Whether a fault tells of a value or a block that is missing, or of a block too many. -/
def Fault.isStackFault : Fault → Bool
  | stackUnderflow _ | blockStackUnderflow _ | blockStackOverflow _ => true
  | _ => false

/-- The frame has so many values on its stack, unless the regime does not care. -/
def Regime.Spares (R : Regime) (k : Nat) (f : Frame) : Prop :=
  k ≤ f.stack.length ∨ ∀ e : Fault, e.isStackFault → R.permits e

/-- The outcome of a computation that takes `k` values off the stack of a frame and leaves
    `m` in their place, and those below as they are. -/
def Regime.Shifts {α : Type} (R : Regime) (k m : Nat) (s : Activation) :
    EStateM.Result Fault Activation α → Prop
  | .ok _ t => R.holds t.machine ∧ s.frame.Kept t.frame ∧
      t.frame.stack.length + k = s.frame.stack.length + m ∧
      t.frame.stack.drop m = s.frame.stack.drop k
  | .error e t => R.holds t.machine ∧ s.frame.Kept t.frame ∧ R.permits e

/-- Begun on a frame, the computation takes `k` values off the stack and leaves `m` in their
    place. -/
def BringsOn {α : Type} (R : Regime) (f : Frame) (k m : Nat) (x : FrameExec α) : Prop :=
  ∀ s, s.frame = f → R.holds s.machine → R.fits f → R.Spares k f → R.Shifts k m s (x s)

/-- The computation takes `k` values off the stack and leaves `m` in their place. -/
def Brings {α : Type} (R : Regime) (k m : Nat) (x : FrameExec α) : Prop :=
  ∀ s, R.holds s.machine → R.fits s.frame → R.Spares k s.frame → R.Shifts k m s (x s)

variable {R : Regime} {g : Guest} {α β : Type} {k m n : Nat}

/-! ## Composition -/

namespace Brings

theorem ret (a : α) : Brings R k k (pure a) := fun s hm _ _ => ⟨hm, .refl s.frame, rfl, rfl⟩

theorem fail {e : Fault} (he : R.permits e) : Brings R k m (throw e : FrameExec α) :=
  fun s hm _ _ => ⟨hm, .refl s.frame, he⟩

/-- A computation on the machine. -/
theorem lift {x : Exec α} (hx : Safe R x) : Brings R k k (onMachine x) := by
  intro s hm _ _
  have h := hx s.machine hm
  rw [onMachine_apply]
  cases hr : x s.machine with
  | ok a u =>
    rw [hr] at h
    exact ⟨h, .refl s.frame, rfl, rfl⟩
  | error e u =>
    rw [hr] at h
    exact ⟨h.1, .refl s.frame, h.2⟩

theorem andThen [R.Closed] {x : FrameExec α} {f : α → FrameExec β} (hx : Brings R k m x)
    (hf : ∀ a, Brings R m n (f a)) : Brings R k n (x >>= f) := by
  intro s hm hs hk
  have h := hx s hm hs hk
  rw [bind_apply]
  cases hr : x s with
  | ok a t =>
    rw [hr] at h
    dsimp only
    obtain ⟨ht, kept, len, below⟩ := h
    have spares : R.Spares m t.frame := hk.imp_left fun hk => by omega
    have h' := hf a t ht (Regime.Closed.fits_of_kept kept hs) spares
    cases hr' : f a t with
    | ok b u =>
      rw [hr'] at h'
      obtain ⟨hu, kept', len', below'⟩ := h'
      exact ⟨hu, kept.trans kept', by omega, below'.trans below⟩
    | error e u =>
      rw [hr'] at h'
      exact ⟨h'.1, kept.trans h'.2.1, h'.2.2⟩
  | error e t =>
    rw [hr] at h
    exact h

theorem mapped [R.Closed] {x : FrameExec α} (f : α → β) (hx : Brings R k m x) :
    Brings R k m (f <$> x) := by
  rw [← bind_pure_comp]
  exact hx.andThen fun _ => .ret _

end Brings

/-! ## The frame -/

theorem Brings.on {x : FrameExec α} (h : Brings R k m x) (f : Frame) : BringsOn R f k m x :=
  fun s hs hm hf hk => h s hm (hs ▸ hf) (hs ▸ hk)

/-- A look at the frame. -/
theorem Brings.frameThen {x : Frame → FrameExec α}
    (h : ∀ f, R.fits f → R.Spares k f → BringsOn R f k m (x f)) : Brings R k m (frame >>= x) :=
  fun s hm hf hk => h s.frame hf hk s rfl hm hf hk

theorem BringsOn.fail {f : Frame} {e : Fault} (he : R.permits e) :
    BringsOn R f k m (throw e : FrameExec α) :=
  fun s _ hm _ _ => ⟨hm, .refl s.frame, he⟩

/-- A change of a frame that is known. -/
theorem BringsOn.modify {f : Frame} {h : Frame → Frame} (kept : f.Kept (h f))
    (len : (h f).stack.length + k = f.stack.length + m)
    (below : (h f).stack.drop m = f.stack.drop k) : BringsOn R f k m (modifyFrame h) := by
  rintro s rfl hm _ _
  exact ⟨hm, kept, len, below⟩

theorem frame_brings : Brings R k k frame := fun s hm _ _ => ⟨hm, .refl s.frame, rfl, rfl⟩

theorem push_brings (v : Value) : Brings R k (k + 1) (push v) := by
  intro s hm _ _
  exact ⟨hm, ⟨⟨rfl, rfl, rfl, rfl, rfl⟩, rfl, rfl, rfl⟩, Nat.add_right_comm _ 1 k, rfl⟩

theorem pop_brings : Brings R (k + 1) k pop := by
  intro s hm _ hk
  unfold pop
  rw [take_apply, Frame.pop]
  cases hs : s.frame.stack with
  | nil =>
    refine ⟨hm, .refl s.frame, hk.resolve_left (fun hk => ?_) _ rfl⟩
    rw [hs] at hk
    exact absurd hk (Nat.not_succ_le_zero k)
  | cons v rest =>
    refine ⟨hm, ⟨⟨rfl, rfl, rfl, rfl, rfl⟩, rfl, rfl, rfl⟩, ?_, ?_⟩
    · rw [hs, List.length_cons]
      dsimp only
      omega
    · rw [hs, List.drop_succ_cons]

theorem popN_brings (h : k = m + n) : Brings R k m (popN n) := by
  intro s hm _ hk
  unfold popN
  rw [take_apply, Frame.popN]
  split
  · rename_i hr
    split at hr
    · cases hr
    · cases hr
      refine ⟨hm, ⟨⟨rfl, rfl, rfl, rfl, rfl⟩, rfl, rfl, rfl⟩, ?_, ?_⟩
      · dsimp only
        rw [List.length_drop]
        omega
      · rw [List.drop_drop, h, Nat.add_comm]
  · rename_i e hr
    split at hr
    · cases hr
      exact ⟨hm, .refl s.frame, hk.resolve_left (fun hk => by omega) _ rfl⟩
    · cases hr

theorem peek_brings {d : Nat} (h : d < k) : Brings R k k (peek d) := by
  intro s hm _ hk
  unfold peek
  rw [look_apply, Frame.peek]
  cases hs : s.frame.stack[d]? with
  | none =>
    refine ⟨hm, .refl s.frame, hk.resolve_left (fun hk => ?_) _ rfl⟩
    rw [List.getElem?_eq_none_iff] at hs
    omega
  | some v => exact ⟨hm, .refl s.frame, rfl, rfl⟩

/-- A change of the frame. -/
theorem modifyFrame_brings {h : Frame → Frame} (kept : ∀ f : Frame, f.Kept (h f))
    (len : ∀ f : Frame, (h f).stack.length + k = f.stack.length + m)
    (below : ∀ f : Frame, (h f).stack.drop m = f.stack.drop k) : Brings R k m (modifyFrame h) :=
  fun s hm _ _ => ⟨hm, kept s.frame, len s.frame, below s.frame⟩

theorem storeLocal_brings {i : Nat} (v : Value)
    (hi : ∀ f, R.fits f → R.permits (.invalidLocal i) ∨ i < f.locals.size) :
    Brings R k k (storeLocal i v) := by
  refine .frameThen fun f hf _ => ?_
  split
  · exact .modify ⟨⟨rfl, rfl, rfl, rfl, rfl⟩, rfl, Array.size_setIfInBounds, rfl⟩ rfl rfl
  · exact .fail ((hi f hf).resolve_right ‹_›)

theorem cellRef_brings {i : Nat}
    (hi : ∀ f, R.fits f → R.permits (.invalidCell i) ∨ i < f.cells.size) :
    Brings R k k (cellRef i) := by
  intro s hm hs _
  unfold cellRef
  rw [look_apply, Frame.cell]
  cases h : s.frame.cells[i]? with
  | none =>
    rw [Array.getElem?_eq_none_iff] at h
    exact ⟨hm, .refl s.frame, (hi s.frame hs).resolve_right (Nat.not_lt.mpr h)⟩
  | some c => exact ⟨hm, .refl s.frame, rfl, rfl⟩

/-! ## The stack -/

namespace Primitive

theorem rotate_brings (site : Site) (hn : 0 < n) (h : n ≤ k) : Brings R k k (rotate site n) := by
  refine .frameThen fun f _ hk => ?_
  have under (hlen : f.stack.length < n) : R.permits (.stackUnderflow site.ip) :=
    hk.resolve_left (fun hk => by omega) _ rfl
  split
  · rename_i top rest hs
    dsimp only
    split
    · exact .fail (under (by rw [hs, List.length_cons]; omega))
    · have taken : (rest.take (n - 1)).length = n - 1 := by
        rw [List.length_take]
        omega
      refine .modify ⟨⟨rfl, rfl, rfl, rfl, rfl⟩, rfl, rfl, rfl⟩ ?_ ?_
      · rw [hs, List.length_append, taken, List.length_cons, List.length_cons, List.length_drop]
        omega
      · obtain ⟨j, rfl⟩ : ∃ j, k = n - 1 + (j + 1) := ⟨k - n, by omega⟩
        rw [hs, List.drop_append, taken, Nat.add_sub_cancel_left, List.drop_succ_cons,
          List.drop_drop, List.drop_eq_nil_of_le (by omega), List.nil_append]
        rfl
  · rename_i hs
    exact .fail (under (by rw [hs]; exact hn))

theorem duplicate_brings (site : Site) (n : Nat) :
    Brings R (k + n) (k + (n + n)) (duplicate site n) := by
  refine .frameThen fun f _ hk => ?_
  dsimp only
  split
  · exact .fail (hk.resolve_left (fun hk => by omega) _ rfl)
  · have taken : (f.stack.take n).length = n := by
      rw [List.length_take]
      omega
    refine .modify ⟨⟨rfl, rfl, rfl, rfl, rfl⟩, rfl, rfl, rfl⟩ ?_ ?_
    · rw [List.length_append, taken]
      omega
    · rw [← Nat.add_assoc, Nat.add_comm _ n, List.drop_append, taken, Nat.add_sub_cancel_left,
        List.drop_eq_nil_of_le (by omega), List.nil_append]

theorem loadConst_brings {i : Nat}
    (hi : ∀ f, R.fits f → R.permits (.invalidConstant i) ∨ i < f.code.consts.size) :
    Brings R k (k + 1) (loadConst i) := by
  refine .frameThen fun f hf _ => ?_
  split
  · exact (push_brings _).on f
  · rename_i h
    rw [Array.getElem?_eq_none_iff] at h
    exact .fail ((hi f hf).resolve_right (Nat.not_lt.mpr h))

theorem nameAt_brings {i : Nat}
    (hi : ∀ f, R.fits f → R.permits (.invalidName i) ∨ i < f.code.names.size) :
    Brings R k k (nameAt i) := by
  refine .frameThen fun f hf _ => ?_
  split
  · exact (Brings.ret _).on f
  · rename_i h
    rw [Array.getElem?_eq_none_iff] at h
    exact .fail ((hi f hf).resolve_right (Nat.not_lt.mpr h))

end Primitive

/-! ## Variables and names -/

section

variable [R.Closed] {i : Nat}

/-- What raises an exception leaves no values, and so any number of them. -/
theorem raise_brings (kind : ExceptionKind) (message : String) :
    Brings R k m (onMachine (raise kind message : Exec α)) := by
  intro s hm _ _
  have h := raise_safe (R := R) (α := α) kind message s.machine hm
  exact ⟨h.1, .refl s.frame, h.2⟩

theorem loadLocal_brings
    (hi : ∀ f, R.fits f → R.permits (.invalidLocal i) ∨ i < f.locals.size) :
    Brings R k k (loadLocal i) := by
  refine .frameThen fun f hf _ => ?_
  split
  · exact (Brings.ret _).on f
  · exact (Brings.lift (raise_safe _ _)).on f
  · rename_i h
    rw [Array.getElem?_eq_none_iff] at h
    exact .fail ((hi f hf).resolve_right (Nat.not_lt.mpr h))

theorem deleteLocal_brings
    (hi : ∀ f, R.fits f → R.permits (.invalidLocal i) ∨ i < f.locals.size) :
    Brings R k k (deleteLocal i) := by
  refine (loadLocal_brings hi).andThen fun _ => modifyFrame_brings (fun f => ?_) (fun _ => rfl) fun _ => rfl
  exact ⟨⟨rfl, rfl, rfl, rfl, rfl⟩, rfl, Array.size_setIfInBounds, rfl⟩

namespace Primitive

variable (hname : ∀ f, R.fits f → R.permits (.invalidName i) ∨ i < f.code.names.size)
  (hcell : ∀ f, R.fits f → R.permits (.invalidCell i) ∨ i < f.cells.size)

include hname in
theorem loadGlobal_brings : Brings R k (k + 1) (loadGlobal i) := by
  refine (nameAt_brings hname).andThen fun name => frame_brings.andThen fun f =>
    (Brings.lift heap_safe).andThen fun h => ?_
  split
  · exact push_brings _
  · exact raise_brings _ _

include hname in
theorem storeGlobal_brings : Brings R (k + 1) k (storeGlobal i) :=
  (nameAt_brings hname).andThen fun name => pop_brings.andThen fun v =>
    frame_brings.andThen fun f => .lift fun _ hm =>
      Regime.Closed.bind f.globals (fun n => n.evolves_set name v) hm

include hname in
theorem deleteGlobal_brings : Brings R k k (deleteGlobal i) := by
  refine (nameAt_brings hname).andThen fun name => frame_brings.andThen fun f =>
    (Brings.lift heap_safe).andThen fun h => ?_
  split
  · exact .lift fun _ hm => Regime.Closed.bind f.globals (fun n => n.evolves_erase name) hm
  · exact raise_brings _ _

include hcell in
theorem loadClosure_brings : Brings R k (k + 1) (loadClosure i) :=
  (cellRef_brings hcell).andThen fun _ => push_brings _

theorem emptyCell_brings (u : CodeUnit) (j : Nat) :
    Brings R k m (onMachine (emptyCell u j : Exec α)) := by
  unfold emptyCell
  dsimp only
  split
  · exact raise_brings _ _
  · exact raise_brings _ _

include hcell in
theorem loadDeref_brings : Brings R k (k + 1) (loadDeref i) := by
  refine (cellRef_brings hcell).andThen fun c => (Brings.lift heap_safe).andThen fun h => ?_
  split
  · exact push_brings _
  · exact frame_brings.andThen fun f => emptyCell_brings f.code i

include hcell in
theorem storeDeref_brings : Brings R (k + 1) k (storeDeref i) :=
  pop_brings.andThen fun _ => (cellRef_brings hcell).andThen fun _ =>
    .lift (modifyHeap_safe ⟨fun _ => rfl, fun _ => rfl, fun _ => rfl, fun _ => rfl⟩)

/-! ## Attributes and operators -/

include hname in
theorem loadAttr_brings (hg : g.Safe R) : Brings R (k + 1) (k + 1) (loadAttr g i) :=
  (nameAt_brings hname).andThen fun name => pop_brings.andThen fun v =>
    (Brings.lift (getAttr_safe hg v name)).andThen push_brings

include hname in
theorem storeAttr_brings : Brings R (k + 2) k (storeAttr i) :=
  (nameAt_brings hname).andThen fun name => pop_brings.andThen fun v =>
    pop_brings.andThen fun a => .lift (setAttr_safe v name a)

include hname in
theorem dropAttr_brings : Brings R (k + 1) k (dropAttr i) :=
  (nameAt_brings hname).andThen fun name => pop_brings.andThen fun v =>
    .lift (deleteAttr_safe v name)

theorem applyUnary_brings (hg : g.Safe R) (op : UnaryOp) :
    Brings R (k + 1) (k + 1) (applyUnary g op) :=
  pop_brings.andThen fun v => (Brings.lift (unary_safe hg op v)).andThen push_brings

theorem report_brings (change : Feedback → Feedback) : Brings R k k (report change) :=
  frame_brings.andThen fun f =>
    .lift (.touch (fun m => .mapFeedback m f.code.id change) fun _ => rfl)

theorem applyBinary_brings (site : Site) (recording : Bool)
    {operator : Guest → BinaryOp → Value → Value → Exec Value}
    (safe : ∀ op a b, Safe R (operator g op a b)) (op : BinaryOp) :
    Brings R (k + 2) (k + 1) (applyBinary g site recording operator op) := by
  refine pop_brings.andThen fun b => pop_brings.andThen fun a => ?_
  have answer : Brings R k (k + 1) (onMachine (operator g op a b) >>= push) :=
    (Brings.lift (safe op a b)).andThen push_brings
  dsimp only
  split
  · exact (report_brings _).andThen fun _ => answer
  · exact answer

theorem applyCompare_brings (hg : g.Safe R) (arg : Nat) :
    Brings R (k + 2) (k + 1) (applyCompare g arg) := by
  unfold applyCompare
  split
  · exact .fail (Regime.Closed.misuse _)
  · exact pop_brings.andThen fun b => pop_brings.andThen fun a =>
      (Brings.lift (compare_safe hg _ a b)).andThen push_brings

/-! ## Containers -/

theorem storeSubscr_brings (hg : g.Safe R) : Brings R (k + 3) k (storeSubscr g) :=
  pop_brings.andThen fun index => pop_brings.andThen fun container =>
    pop_brings.andThen fun v => .lift (setItem_safe hg container index v)

theorem deleteSubscr_brings (hg : g.Safe R) : Brings R (k + 2) k (deleteSubscr g) :=
  pop_brings.andThen fun index => pop_brings.andThen fun container =>
    .lift (deleteItem_safe hg container index)

theorem buildTuple_brings (n : Nat) : Brings R (k + n) (k + 1) (buildTuple n) :=
  (popN_brings rfl).andThen fun items => (Brings.lift (newTuple_safe items)).andThen push_brings

theorem buildList_brings (n : Nat) : Brings R (k + n) (k + 1) (buildList n) :=
  (popN_brings rfl).andThen fun items => (Brings.lift (newList_safe items)).andThen push_brings

theorem buildMap_brings : Brings R k (k + 1) buildMap :=
  (Brings.lift (alloc_safe ⟨fun _ => rfl, fun _ => rfl, fun _ => rfl, fun _ => rfl⟩)).andThen
    push_brings

theorem newSlice_brings (start stop step : Value) :
    Brings R k k (onMachine (alloc (·.newSlice ⟨start, stop, step⟩))) :=
  .lift (alloc_safe ⟨fun _ => rfl, fun _ => rfl, fun _ => rfl, fun _ => rfl⟩)

theorem buildSlice_brings (n : Nat) : Brings R (k + n) (k + 1) (buildSlice n) := by
  have rest (step : Value) : Brings R (k + 2) (k + 1)
      (pop >>= fun stop => pop >>= fun start =>
        onMachine (alloc (·.newSlice ⟨start, stop, step⟩)) >>= push) :=
    pop_brings.andThen fun stop => pop_brings.andThen fun start =>
      (newSlice_brings start stop step).andThen push_brings
  unfold buildSlice
  split
  · exact (Brings.ret _).andThen rest
  · exact pop_brings.andThen rest
  · exact .fail (Regime.Closed.misuse _)

/-- The number of bounds that a slice takes from the stack. -/
def boundCount (bounds : Bool × Bool) : Nat := bounds.1.toNat + bounds.2.toNat

/-- A bound that is on the stack, if it is there. -/
theorem popOr_brings {present : Bool} {v : Value} {x : Value → FrameExec α}
    (hx : ∀ v, Brings R k m (x v)) : Brings R (k + present.toNat) m
      (if present then pop >>= x else pure v >>= x) := by
  cases present with
  | false => exact (Brings.ret v).andThen hx
  | true => exact pop_brings.andThen hx

theorem sliceOperand_brings (bounds : Bool × Bool) :
    Brings R (k + boundCount bounds) k (sliceOperand bounds) := by
  unfold boundCount
  rw [← Nat.add_assoc]
  exact popOr_brings fun stop => popOr_brings fun start => newSlice_brings start stop .none

theorem loadSlice_brings (hg : g.Safe R) (bounds : Bool × Bool) :
    Brings R (k + 1 + boundCount bounds) (k + 1) (loadSlice g bounds) :=
  (sliceOperand_brings bounds).andThen fun slice => pop_brings.andThen fun v =>
    (Brings.lift (binary_safe hg .getItem v slice)).andThen push_brings

theorem storeSlice_brings (hg : g.Safe R) (bounds : Bool × Bool) :
    Brings R (k + 2 + boundCount bounds) k (storeSlice g bounds) :=
  (sliceOperand_brings bounds).andThen fun slice => pop_brings.andThen fun container =>
    pop_brings.andThen fun v => .lift (setItem_safe hg container slice v)

theorem dropSlice_brings (hg : g.Safe R) (bounds : Bool × Bool) :
    Brings R (k + 1 + boundCount bounds) k (dropSlice g bounds) :=
  (sliceOperand_brings bounds).andThen fun slice => pop_brings.andThen fun container =>
    .lift (deleteItem_safe hg container slice)

theorem storeMap_brings : Brings R (k + 3) (k + 1) storeMap := by
  refine pop_brings.andThen fun key => pop_brings.andThen fun v =>
    (peek_brings (Nat.succ_pos k)).andThen fun d => ?_
  split
  · exact .lift (dictInsert_safe _ key v)
  · exact .fail (Regime.Closed.misuse _)

theorem appendTo_brings (n : Nat) :
    Brings R (k + (max n 1 + 1)) (k + max n 1) (appendTo n) := by
  rw [← Nat.add_assoc]
  refine pop_brings.andThen fun v => (peek_brings (by omega)).andThen fun target => ?_
  split
  · exact .lift (modifyList_safe _ _)
  · exact .fail (Regime.Closed.misuse _)

theorem unpack_brings (hg : g.Safe R) (n : Nat) : Brings R (k + 1) (k + n) (unpack g n) := by
  refine pop_brings.andThen fun v => (Brings.lift (collect_safe hg v)).andThen fun items => ?_
  dsimp only
  split
  · exact raise_brings _ _
  · split
    · exact raise_brings _ _
    · have all : items.length = n := by omega
      refine modifyFrame_brings (fun f => ⟨⟨rfl, rfl, rfl, rfl, rfl⟩, rfl, rfl, rfl⟩)
        (fun f => ?_) fun f => ?_
      · rw [List.length_append]
        omega
      · rw [Nat.add_comm, ← all, ← List.drop_drop, List.drop_left]

theorem getIter_brings (hg : g.Safe R) : Brings R (k + 1) (k + 1) (getIter g) :=
  pop_brings.andThen fun v => (Brings.lift (iterate_safe hg v)).andThen push_brings

end Primitive

end

end TieredMachine
