/-
  How a call is handed on.

  Bound methods, classes and instances hand a call on: to their function, to `__init__` and to
  `__call__`.  Those can be set to anything, so that what a call is handed to can hand it on in
  its turn.  There are finitely many values that a call can be handed to; a call that is not at
  its end after so many steps goes in a circle.  The recursion limit is not asked on the way, and
  a call in a circle has no answer at all.

  * `Heap.onward?`, `Heap.handed`: the value that a call is handed to, in one step and in many;
  * `Heap.Ends`, `Heap.onward?_eq_none_iff`: where it ends;
  * `Heap.ends_or_leadsBack`: it ends, or leads back to itself;
  * `callWithin_handed`: the call is the one of the value that it is handed to;
  * `dispatch_ends_or_circles`: both taken together.
-/
import Mathlib.Data.Finset.Card
import TieredMachine.Proofs.Generator.Resume
import TieredMachine.Run.Guest

namespace TieredMachine

/-! ## The values that a call is handed to -/

/-- Whether values of that type take calls at all. -/
def Value.takesCalls : Value → Bool
  | .function _ | .builtin _ | .method _ | .classObj _ | .inst _ | .excType _ => true
  | _ => false

namespace Heap

variable {h : Heap} {v w : Value} {n k : Nat}

/-- The value to which another one hands its calls, if it does. -/
def onward? (h : Heap) : Value → Option Value
  | .method r => h.methods[r]?.map (·.func)
  | .classObj r => (h.classObj r).attrs["__init__"]?
  | .inst r => if r < h.instances.size then h.classAttr? r "__call__" else none
  | _ => none

/-- The value to which a call is handed in `n` steps. -/
def handed (h : Heap) : Nat → Value → Option Value
  | 0, v => some v
  | n + 1, v => (h.onward? v).bind (h.handed n)

/-- Where a call ends. -/
inductive Ends (h : Heap) : Value → Prop
  | function (r : Ref) : Ends h (.function r)
  | builtin (r : Ref) : Ends h (.builtin r)
  | excType (kind : ExceptionKind) : Ends h (.excType kind)
  | plain {r} (simple : (h.classObj r).attrs["__init__"]? = none) : Ends h (.classObj r)
  /-- an instance that cannot be called -/
  | uncalled {r} (lacks : h.classAttr? r "__call__" = none) : Ends h (.inst r)
  /-- a value of a type that has no calls -/
  | uncallable {u : Value} (other : u.takesCalls = false) : Ends h u
  /-- no object of the heap -/
  | noMethod {r} (absent : h.methods.size ≤ r) : Ends h (.method r)
  | noInstance {r} (absent : h.instances.size ≤ r) : Ends h (.inst r)

theorem onward?_eq_none_iff : h.onward? v = none ↔ h.Ends v := by
  constructor
  · intro last
    cases v with
    | method r => exact .noMethod (by simpa [onward?] using last)
    | classObj r => exact .plain last
    | inst r =>
      by_cases there : r < h.instances.size
      · exact .uncalled ((if_pos there).symm.trans last)
      · exact .noInstance (Nat.le_of_not_lt there)
    | function r => exact .function r
    | builtin r => exact .builtin r
    | excType kind => exact .excType kind
    | _ => exact .uncallable rfl
  · intro ends
    cases ends with
    | function | builtin | excType => rfl
    | plain simple => exact simple
    | uncalled lacks => exact ite_eq_right_iff.mpr fun _ => lacks
    | uncallable other =>
      cases v with
      | method | classObj | inst => cases other
      | _ => rfl
    | noMethod absent => simpa [onward?] using absent
    | noInstance absent => exact if_neg (Nat.not_lt.mpr absent)

/-! ### Many steps -/

theorem handed_succ (n : Nat) (v : Value) :
    h.handed (n + 1) v = (h.handed n v).bind h.onward? := by
  induction n generalizing v with
  | zero =>
    show (h.onward? v).bind some = h.onward? v
    exact Option.bind_fun_some _
  | succ n ih =>
    show (h.onward? v).bind (h.handed (n + 1)) = ((h.onward? v).bind (h.handed n)).bind h.onward?
    rw [Option.bind_assoc]
    exact Option.bind_congr fun w _ => ih w

theorem handed_add (n k : Nat) (v : Value) :
    h.handed (n + k) v = (h.handed n v).bind (h.handed k) := by
  induction n generalizing v with
  | zero => rw [Nat.zero_add]; rfl
  | succ n ih =>
    rw [Nat.succ_add]
    show (h.onward? v).bind (h.handed (n + k)) = ((h.onward? v).bind (h.handed n)).bind (h.handed k)
    rw [Option.bind_assoc]
    exact Option.bind_congr fun w _ => ih w

/-- What is handed on for long is handed on for shorter. -/
theorem exists_handed_of_le (hk : k ≤ n) (long : h.handed n v = some w) :
    ∃ w', h.handed k v = some w' := by
  obtain ⟨rest, rfl⟩ := Nat.exists_eq_add_of_le hk
  rw [handed_add] at long
  obtain ⟨w', short, -⟩ := Option.bind_eq_some_iff.mp long
  exact ⟨w', short⟩

/-- A call that is not handed on so many times has ended before. -/
theorem ends_of_handed_eq_none (stopped : h.handed n v = none) :
    ∃ k < n, ∃ w, h.handed k v = some w ∧ h.Ends w := by
  induction n with
  | zero => cases stopped
  | succ n ih =>
    cases before : h.handed n v with
    | none =>
      obtain ⟨k, hk, ended⟩ := ih before
      exact ⟨k, Nat.lt_succ_of_lt hk, ended⟩
    | some w =>
      rw [handed_succ, before] at stopped
      exact ⟨n, Nat.lt_succ_self n, w, before, onward?_eq_none_iff.mp stopped⟩

/-- The call comes by one value twice. -/
def LeadsBack (h : Heap) (v : Value) : Prop :=
  ∃ i j w, i < j ∧ h.handed i v = some w ∧ h.handed j v = some w

/-- A call that leads back to itself is handed on without end. -/
theorem LeadsBack.endless (back : h.LeadsBack v) (n : Nat) : ∃ w, h.handed n v = some w := by
  obtain ⟨i, j, w, before, first, again⟩ := back
  obtain ⟨period, rfl⟩ := Nat.exists_eq_add_of_lt before
  rw [Nat.add_assoc, handed_add, first] at again
  have round (q : Nat) : h.handed ((period + 1) * q) w = some w := by
    induction q with
    | zero => rfl
    | succ q ih =>
      rw [Nat.mul_succ, handed_add, ih]
      exact again
  have far : h.handed (i + (period + 1) * n) v = some w := by
    rw [handed_add, first]
    exact round n
  have past : n ≤ i + (period + 1) * n := by
    have := Nat.le_mul_of_pos_left n (show 0 < period + 1 by omega)
    omega
  exact exists_handed_of_le past far

/-! ### An end, or a circle -/

/-- The values that are handed calls by objects of the heap. -/
def relays (h : Heap) : List Value :=
  h.methods.toList.map (·.func) ++ h.classes.toList.filterMap (·.attrs["__init__"]?) ++
    h.classes.toList.filterMap (·.attrs["__call__"]?)

theorem relays_length_le (h : Heap) :
    h.relays.length ≤ h.methods.size + 2 * h.classes.size := by
  have inits := List.length_filterMap_le (fun c : ClassObj => c.attrs["__init__"]?) h.classes.toList
  have calls := List.length_filterMap_le (fun c : ClassObj => c.attrs["__call__"]?) h.classes.toList
  unfold relays
  simp only [List.length_append, List.length_map, Array.length_toList] at inits calls ⊢
  omega

/-- A class that has an attribute is in the heap. -/
theorem exists_class {r : Ref} {name : String} (attr : (h.classObj r).attrs[name]? = some v) :
    ∃ c ∈ h.classes.toList, c.attrs[name]? = some v := by
  unfold classObj at attr
  cases known : h.classes[r]? with
  | none =>
    rw [known] at attr
    cases attr.symm.trans (Std.HashMap.getElem?_empty (a := name))
  | some c =>
    rw [known] at attr
    exact ⟨c, Array.mem_toList_iff.mpr (Array.mem_of_getElem? known), attr⟩

theorem mem_relays (step : h.onward? v = some w) : w ∈ h.relays := by
  unfold relays
  rw [List.mem_append, List.mem_append, List.mem_map, List.mem_filterMap, List.mem_filterMap]
  cases v with
  | method r =>
    obtain ⟨b, known, rfl⟩ := Option.map_eq_some_iff.mp step
    exact .inl (.inl ⟨b, Array.mem_toList_iff.mpr (Array.mem_of_getElem? known), rfl⟩)
  | classObj r => exact .inl (.inr (exists_class step))
  | inst r =>
    obtain ⟨-, attr⟩ := Option.ite_none_right_eq_some.mp step
    exact .inr (exists_class attr)
  | _ => cases step

/-- A call that does not lead back to itself ends after no more steps than there are values that
    a call can be handed to. -/
theorem ends_or_leadsBack (h : Heap) (v : Value) :
    (∃ n ≤ h.methods.size + 2 * h.classes.size, ∃ w, h.handed n v = some w ∧ h.Ends w) ∨
      h.LeadsBack v := by
  have few := h.relays_length_le
  generalize h.methods.size + 2 * h.classes.size = most at few ⊢
  by_cases on : ∃ w, h.handed (most + 1) v = some w
  · right
    obtain ⟨last, on⟩ := on
    have known (i : Nat) (hi : i ≤ most + 1) : h.handed i v = some ((h.handed i v).getD default) := by
      obtain ⟨w, hw⟩ := exists_handed_of_le hi on
      rw [hw]
      rfl
    -- there are more steps than values to be handed to
    have crowded : h.relays.toFinset.card < (Finset.range (most + 1)).card := by
      have := h.relays.toFinset_card_le
      rw [Finset.card_range]
      omega
    obtain ⟨i, hi, j, hj, apart, same⟩ := Finset.exists_ne_map_eq_of_card_lt_of_maps_to crowded
      (f := fun i => (h.handed (i + 1) v).getD default) fun i hi => by
        have step := known (i + 1) (Nat.succ_le_succ (Nat.le_of_lt_succ (Finset.mem_range.mp hi)))
        rw [handed_succ] at step
        obtain ⟨before, -, step⟩ := Option.bind_eq_some_iff.mp step
        rw [← handed_succ] at step
        exact List.mem_toFinset.mpr (mem_relays step)
    have hi := known (i + 1) (Finset.mem_range.mp hi)
    have hj := known (j + 1) (Finset.mem_range.mp hj)
    rcases Nat.lt_or_gt_of_ne apart with lt | gt
    · exact ⟨i + 1, j + 1, _, Nat.succ_lt_succ lt, hi, hj.trans (congrArg some same.symm)⟩
    · exact ⟨j + 1, i + 1, _, Nat.succ_lt_succ gt, hj, hi.trans (congrArg some same)⟩
  · left
    have stopped : h.handed (most + 1) v = none :=
      Option.eq_none_iff_forall_ne_some.mpr fun w hw => on ⟨w, hw⟩
    obtain ⟨n, before, w, hw, ends⟩ := ends_of_handed_eq_none stopped
    exact ⟨n, Nat.le_of_lt_succ before, w, hw, ends⟩

end Heap

/-! ## Calls that are handed on -/

variable {m : Machine} {callee v w : Value} {args : List Value} {kwargs : List (String × Value)}
  {fuel n : Nat} {r : Ref}

namespace Machine

/-- The machine with a new instance of a class. -/
def instantiated (m : Machine) (r : Ref) : Machine :=
  m.mapHeap fun h => (h.newInstance { classRef := r }).2

/-- The machine with new instances of some classes, one after the other. -/
def making (m : Machine) (classes : List Ref) : Machine := classes.foldl instantiated m

/-- The next instances of the machine. -/
def upcoming (m : Machine) (count : Nat) : List Value :=
  (List.range' m.heap.instances.size count).map .inst

theorem upcoming_succ (m : Machine) (r : Ref) (count : Nat) :
    m.upcoming (count + 1) =
      .inst m.heap.instances.size :: (m.instantiated r).upcoming count := by
  have size : (m.instantiated r).heap.instances.size = m.heap.instances.size + 1 :=
    Array.size_push _
  unfold upcoming
  rw [size, List.range'_succ, List.map_cons]

/-- An instance more changes nothing for the values that hand on their calls. -/
theorem onward?_instantiated (step : m.heap.onward? v = some w) (r : Ref) :
    (m.instantiated r).heap.onward? v = some w := by
  cases v with
  | inst r' =>
    obtain ⟨there, attr⟩ := Option.ite_none_right_eq_some.mp step
    have there' : r' < (m.instantiated r).heap.instances.size := by
      show r' < (m.heap.instances.push _).size
      rw [Array.size_push]
      exact Nat.lt_succ_of_lt there
    have same : (m.instantiated r).heap.inst r' = m.heap.inst r' := by
      show ((m.heap.instances.push _)[r']?).getD default = (m.heap.instances[r']?).getD default
      rw [Array.getElem?_push_lt there, Array.getElem?_eq_getElem there]
    refine (if_pos there').trans ?_
    unfold Heap.classAttr? at attr ⊢
    rw [same]
    exact attr
  | _ => exact step

theorem handed_instantiated (steps : m.heap.handed n v = some w) (r : Ref) :
    (m.instantiated r).heap.handed n v = some w := by
  induction n generalizing v with
  | zero => exact steps
  | succ n ih =>
    obtain ⟨next, step, steps⟩ := Option.bind_eq_some_iff.mp steps
    exact Option.bind_eq_some_iff.mpr ⟨next, onward?_instantiated step r, ih steps⟩

end Machine

/-- What becomes of the answer of `__init__`: the instance, if it is `None`. -/
def initialized (inst : Value) :
    EStateM.Result Fault Machine Value → EStateM.Result Fault Machine Value
  | .ok v m =>
    if v = .none then .ok inst m
    else m.raising .typeError [.str "__init__() should return None"]
  | .error e m => .error e m

/-- The same for classes inside one another, the outermost one first. -/
def allInitialized (insts : List Value) (res : EStateM.Result Fault Machine Value) :
    EStateM.Result Fault Machine Value :=
  insts.foldr initialized res

theorem allInitialized_error (insts : List Value) (e : Fault) (m : Machine) :
    allInitialized insts (.error e m) = .error e m := by
  induction insts with
  | nil => rfl
  | cons inst insts ih =>
    show initialized inst (allInitialized insts (.error e m)) = _
    rw [ih]
    rfl

/-! ### One step -/

theorem callWithin_succ : callWithin (fuel + 1) callee args kwargs m =
    callIn (guestWithin fuel) m.heap callee args kwargs m := by
  rw [callWithin, callWith, bind_apply, heap_apply]
  rfl

theorem callWithin_method {b : BoundMethod} (known : m.heap.methods[r]? = some b) :
    callWithin (fuel + 1) (.method r) args kwargs m =
      callWithin fuel b.func (b.receiver :: args) kwargs m := by
  have same : m.heap.method r = b := by rw [Heap.method, known]; rfl
  rw [callWithin_succ, ← same]
  rfl

theorem callWithin_inst (attr : m.heap.classAttr? r "__call__" = some v) :
    callWithin (fuel + 1) (.inst r) args kwargs m =
      callWithin fuel v (.inst r :: args) kwargs m := by
  rw [callWithin_succ]
  simp only [callIn, attr]
  rfl

theorem callWithin_class (init : (m.heap.classObj r).attrs["__init__"]? = some v) :
    callWithin (fuel + 1) (.classObj r) args kwargs m =
      initialized (.inst m.heap.instances.size)
        (callWithin fuel v (.inst m.heap.instances.size :: args) kwargs (m.instantiated r)) := by
  have made : alloc (·.newInstance { classRef := r }) m =
      .ok (.inst m.heap.instances.size) (m.instantiated r) := rfl
  have same : ((m.instantiated r).heap.classObj r).attrs["__init__"]? = some v := init
  rw [callWithin_succ]
  show instantiate (guestWithin fuel) r args kwargs m = _
  rw [instantiate, bind_apply, made]
  dsimp only
  rw [bind_apply, heap_apply]
  dsimp only
  rw [same]
  dsimp only
  rw [bind_apply]
  simp only [guestWithin]
  cases callWithin fuel v (.inst m.heap.instances.size :: args) kwargs (m.instantiated r) with
  | ok answer m' =>
    by_cases nothing : answer = .none
    · have nothing' : ¬answer ≠ .none := not_not.mpr nothing
      simp only [initialized, if_pos nothing, if_neg nothing']
      rfl
    · have nothing' : answer ≠ .none := nothing
      simp only [initialized, if_neg nothing, if_pos nothing']
      rfl
  | error e m' => rfl

/-- One step of a call that is handed on. -/
theorem callWithin_onward (step : m.heap.onward? callee = some v) (args : List Value) :
    (∃ receiver, ∀ fuel kwargs, callWithin (fuel + 1) callee args kwargs m =
      callWithin fuel v (receiver :: args) kwargs m) ∨
    ∃ r, ∀ fuel kwargs, callWithin (fuel + 1) callee args kwargs m =
      initialized (.inst m.heap.instances.size)
        (callWithin fuel v (.inst m.heap.instances.size :: args) kwargs (m.instantiated r)) := by
  cases callee with
  | method r =>
    obtain ⟨b, known, rfl⟩ := Option.map_eq_some_iff.mp step
    exact .inl ⟨b.receiver, fun _ _ => callWithin_method known⟩
  | classObj r => exact .inr ⟨r, fun _ _ => callWithin_class step⟩
  | inst r =>
    obtain ⟨-, attr⟩ := Option.ite_none_right_eq_some.mp step
    exact .inl ⟨.inst r, fun _ _ => callWithin_inst attr⟩
  | _ => cases step

/-! ### Many steps -/

/-- A call that is handed on is the one of the value that it is handed to, with some arguments
    in front, and with a new instance for each class on the way. -/
theorem callWithin_handed (steps : m.heap.handed n callee = some w) (args : List Value) :
    ∃ given made, ∀ fuel kwargs, callWithin (fuel + n) callee args kwargs m =
      allInitialized (m.upcoming made.length)
        (callWithin fuel w (given ++ args) kwargs (m.making made)) := by
  induction n generalizing callee args m with
  | zero =>
    cases steps
    exact ⟨[], [], fun _ _ => rfl⟩
  | succ n ih =>
    obtain ⟨next, step, steps⟩ := Option.bind_eq_some_iff.mp steps
    rcases callWithin_onward step args with ⟨receiver, on⟩ | ⟨r, on⟩
    · obtain ⟨given, made, rest⟩ := ih steps (receiver :: args)
      refine ⟨given ++ [receiver], made, fun fuel kwargs => ?_⟩
      rw [List.append_assoc, List.singleton_append, ← rest fuel kwargs]
      exact on (fuel + n) kwargs
    · obtain ⟨given, made, rest⟩ :=
        ih (Machine.handed_instantiated steps r) (.inst m.heap.instances.size :: args)
      refine ⟨given ++ [.inst m.heap.instances.size], r :: made, fun fuel kwargs => ?_⟩
      rw [List.append_assoc, List.singleton_append, List.length_cons, m.upcoming_succ r]
      refine (on (fuel + n) kwargs).trans (congrArg (initialized _) ?_)
      exact rest fuel kwargs

/-- A call that leads back to itself runs out of every fuel, whatever the recursion limit. -/
theorem Heap.LeadsBack.outOfFuel (back : m.heap.LeadsBack callee) (fuel : Nat)
    (args : List Value) (kwargs : List (String × Value)) :
    ∃ made, callWithin fuel callee args kwargs m = .error .outOfFuel (m.making made) := by
  obtain ⟨w, steps⟩ := back.endless fuel
  obtain ⟨given, made, on⟩ := callWithin_handed steps args
  refine ⟨made, ?_⟩
  have ran := on 0 kwargs
  rw [Nat.zero_add] at ran
  have spent : callWithin 0 w (given ++ args) kwargs (m.making made) =
      .error .outOfFuel (m.making made) := by
    rw [callWithin]
    rfl
  rw [ran, spent, allInitialized_error]

/-! ### Ends that raise -/

theorem callWithin_uncalled (lacks : m.heap.classAttr? r "__call__" = none) :
    callWithin (fuel + 1) (.inst r) args kwargs m = m.raising .attributeError
      [.str s!"{(m.heap.classObj (m.heap.inst r).classRef).name} instance has no __call__ method"] := by
  rw [callWithin_succ]
  simp only [callIn, lacks]
  rfl

theorem callWithin_uncallable (other : callee.takesCalls = false) :
    callWithin (fuel + 1) callee args kwargs m =
      m.raising .typeError [.str s!"'{callee.typeName}' object is not callable"] := by
  rw [callWithin_succ]
  cases callee with
  | function | builtin | method | classObj | inst | excType => cases other
  | _ => rfl

/-! ## The end of a call -/

/-- **A call is handed on to its end, or in a circle.**  After no more steps than there are values
    that calls can be handed to, it is the call of a function, a builtin, an exception class, a
    class without `__init__`, or of what raises an exception at once; or else it leads back to
    itself, and then no fuel is enough, whatever the recursion limit. -/
theorem dispatch_ends_or_circles (m : Machine) (callee : Value) :
    ((∃ n ≤ m.heap.methods.size + 2 * m.heap.classes.size, ∃ w,
        m.heap.handed n callee = some w ∧ m.heap.Ends w ∧
        ∀ args, ∃ given made, ∀ fuel kwargs, callWithin (fuel + n) callee args kwargs m =
          allInitialized (m.upcoming made.length)
            (callWithin fuel w (given ++ args) kwargs (m.making made))) ∨
      m.heap.LeadsBack callee ∧ ∀ fuel args kwargs, ∃ made,
        callWithin fuel callee args kwargs m = .error .outOfFuel (m.making made)) ∧
    ∀ w, (∃ r, w = .inst r ∧ m.heap.classAttr? r "__call__" = none) ∨ w.takesCalls = false →
      ∀ fuel args kwargs, ∃ kind text,
        callWithin (fuel + 1) w args kwargs m = m.raising kind [.str text] := by
  refine ⟨?_, ?_⟩
  · rcases m.heap.ends_or_leadsBack callee with ⟨n, few, w, steps, ends⟩ | back
    · exact .inl ⟨n, few, w, steps, ends, callWithin_handed steps⟩
    · exact .inr ⟨back, back.outOfFuel⟩
  · rintro w (⟨r, rfl, lacks⟩ | other) fuel args kwargs
    · exact ⟨_, _, callWithin_uncalled lacks⟩
    · exact ⟨_, _, callWithin_uncallable other⟩

/-! ### An instance that is its own `__call__` -/

/-- A machine with an instance of a class whose `__call__` is that instance. -/
def Machine.selfCalling : Machine where
  config := {}
  heap :=
    { classes := #[{ name := "C", attrs := .insert ∅ "__call__" (.inst 0) }]
      instances := #[{ classRef := 0 }] }
  units := #[]
  globals := 0
  builtins := 0
  bailError := false
  control := .never
  timer := .new 1 false

/-- The call of the instance leads back to itself at once, and ends in no exception. -/
theorem self_call_circles :
    Machine.selfCalling.heap.LeadsBack (.inst 0) ∧
      ∃ m, callValue (.inst 0) [] [] .selfCalling = .error .outOfFuel m := by
  have attr : Machine.selfCalling.heap.classAttr? 0 "__call__" = some (.inst 0) :=
    Std.HashMap.getElem?_insert_self
  have step : Machine.selfCalling.heap.onward? (.inst 0) = some (.inst 0) := attr
  have back : Machine.selfCalling.heap.LeadsBack (.inst 0) := by
    refine ⟨0, 1, .inst 0, Nat.zero_lt_one, rfl, ?_⟩
    exact Option.bind_eq_some_iff.mpr ⟨_, step, rfl⟩
  obtain ⟨made, spent⟩ := back.outOfFuel ampleFuel [] []
  exact ⟨back, _, spent⟩

end TieredMachine
