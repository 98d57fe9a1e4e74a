/-
  Repeated sequences.

  A string, a list or a tuple times a number has the items of the sequence in turn, as often as
  the number says.  The room that they take is asked for first, and a run that asks for more
  than there can be ends at once.  But the items of lists and tuples are counted in words: a
  product that is no word loses its multiples of `2^64`, and the answer comes short.

  * `Sequence.InTurn`, `Sequence.repeated_inTurn`: the items of a repeated sequence;
  * `Repeats`, `repetition_in_turn`: what a product comes to, for every type and number;
  * `repetition_comes_short`: a product of four items that has none.
-/
import TieredMachine.Proofs.Sequence.Slicing

namespace TieredMachine

/-! ## Items in turn -/

namespace Sequence

variable {α : Type}

/-- The first `count` positions of a sequence of `len` items, which start again at its end. -/
def turns (len count : Nat) : List Nat := (List.range count).map (· % len)

theorem lt_of_mem_turns {len count p : Nat} (full : 0 < len) (h : p ∈ turns len count) :
    p < len := by
  obtain ⟨i, -, rfl⟩ := List.mem_map.mp h
  exact Nat.mod_lt i full

/-- The items of a sequence in turn, `count` of them in all. -/
structure InTurn (items : Array α) (count : Nat) (out : Array α) : Prop where
  size_eq : out.size = count
  item : ∀ i < count, out[i]? = items[i % items.size]?

variable {items out out' : Array α} {count : Nat}

theorem InTurn.unique (h : InTurn items count out) (h' : InTurn items count out') : out = out' := by
  refine Array.ext_getElem? fun i => ?_
  by_cases hi : i < count
  · rw [h.item i hi, h'.item i hi]
  · rw [Array.getElem?_eq_none (by rw [h.size_eq]; omega),
      Array.getElem?_eq_none (by rw [h'.size_eq]; omega)]

theorem InTurn.of_picked (h : Picked items (turns items.size count) out) :
    InTurn items count out := by
  unfold Picked turns at h
  rw [List.map_map] at h
  have size : out.size = count := by simpa using congrArg List.length h
  refine ⟨size, fun i hi => ?_⟩
  have item := congrArg (·[i]?) h
  simpa [hi, size] using item

theorem repeated_eq_pick (items : Array α) (n : Nat) :
    repeated items n = pick items (turns items.size (repeatedLength items.size n)) := by
  refine Array.toList_inj.mp ?_
  unfold repeated pick turns
  rw [Array.toList_filterMap, Array.toList_range, List.filterMap_map]
  rfl

/-- A repeated sequence has the items of the sequence in turn, so many as a word says. -/
theorem repeated_inTurn (items : Array α) (n : Nat) :
    InTurn items (repeatedLength items.size n) (repeated items n) := by
  rw [repeated_eq_pick]
  refine .of_picked (pick_picked fun p hp => ?_)
  rcases Nat.eq_zero_or_pos items.size with empty | full
  · -- nothing is repeated, and that takes no turn
    rw [empty, repeatedLength, Nat.zero_mul] at hp
    cases hp
  · exact lt_of_mem_turns full hp

end Sequence

open Sequence

/-! ## Products -/

variable {g : Guest} {m : Machine} {w : Value} {k : Int64}

/-- The product of two operands ends so, whichever of them comes first. -/
def Product (g : Guest) (m : Machine) (a w : Value) (res : EStateM.Result Fault Machine Value) :
    Prop :=
  binary g .mul a w m = res ∧ binary g .mul w a m = res

theorem repeatCount_eq (hw : w.asInt? = some k) : repeatCount? w = some k.toInt.toNat := by
  rw [repeatCount?, hw]
  rfl

/-- A sequence next to a number is repeated, on either side. -/
theorem product_of_repeat {a : Value} {res : EStateM.Result Fault Machine Value}
    (sequence : (∃ r, a = .list r) ∨ (∃ r, a = .tuple r) ∨ ∃ s, a = .str s)
    (hw : w.asInt? = some k) (ends : repeatSequence a k.toInt.toNat m = res)
    (given : ∀ v n, res = .ok v n → v ≠ .notImplemented) : Product g m a w res := by
  have count := repeatCount_eq hw
  refine ⟨binary_of_left ?_ given, binary_of_left ?_ given⟩
  · rw [← ends]
    have left : leftBinary g .mul a w = sequenceBinary .mul a w := by
      rcases sequence with ⟨r, rfl⟩ | ⟨r, rfl⟩ | ⟨s, rfl⟩ <;> rfl
    rw [left, sequenceBinary, count]
  · rw [← ends]
    have left : leftBinary g .mul w a = sequenceBinary .mul w a := by
      cases w with
      | int | bool => rcases sequence with ⟨r, rfl⟩ | ⟨r, rfl⟩ | ⟨s, rfl⟩ <;> rfl
      | _ => cases hw
    have noCount : repeatCount? a = none := by
      rcases sequence with ⟨r, rfl⟩ | ⟨r, rfl⟩ | ⟨s, rfl⟩ <;> rfl
    rw [left, sequenceBinary, count, noCount]

section

variable {bytes n : Nat} {items : Array Value}

theorem reserve_room (room : bytes < 2 ^ 63) (m : Machine) : reserve bytes m = .ok () m := by
  have room' : ¬Nat.pow 2 63 ≤ bytes := Nat.not_le.mpr room
  rw [reserve, if_neg room']
  rfl

theorem reserve_full (full : 2 ^ 63 ≤ bytes) (m : Machine) :
    reserve bytes m = .error .capacityOverflow m := by
  have full' : Nat.pow 2 63 ≤ bytes := full
  rw [reserve, if_pos full']
  rfl

theorem repeatItems_room (room : Value.bytes * repeatedLength items.size n < 2 ^ 63)
    (m : Machine) : repeatItems items n m = .ok (repeated items n) m := by
  rw [repeatItems, bind_apply, reserve_room room]
  rfl

theorem repeatItems_full (full : 2 ^ 63 ≤ Value.bytes * repeatedLength items.size n)
    (m : Machine) : repeatItems items n m = .error .capacityOverflow m := by
  rw [repeatItems, bind_apply, reserve_full full]

end

/-! ## The law -/

/-- What the products of a sequence with a number come to.  `count` items take `bytes`, and
    `made` is the answer that is made of them. -/
structure Repeats {α : Type} (g : Guest) (m : Machine) (a w : Value) (items : Array α)
    (n count bytes : Nat) (made : Array α → EStateM.Result Fault Machine Value) : Prop where
  /-- all items of the product, unless it is no word -/
  count_eq : count = items.size * n ∨ 2 ^ 64 ≤ items.size * n ∧ count < items.size * n
  answers : bytes < 2 ^ 63 → ∃ out, InTurn items count out ∧ Product g m a w (made out)
  ends : 2 ^ 63 ≤ bytes → Product g m a w (.error .capacityOverflow m)

theorem repeatedLength_eq (len n : Nat) :
    repeatedLength len n = len * n ∨ 2 ^ 64 ≤ len * n ∧ repeatedLength len n < len * n := by
  have value : repeatedLength len n = len * n % 2 ^ 64 := rfl
  omega

/-- Lists and tuples are repeated alike; they differ in how a new one is made. -/
theorem repeats_items {a : Value} {items : Array Value} {make : Array Value → Exec Value}
    (sequence : (∃ r, a = .list r) ∨ (∃ r, a = .tuple r) ∨ ∃ s, a = .str s)
    (hw : w.asInt? = some k)
    (repeats : ∀ n, repeatSequence a n m = (repeatItems items n >>= make) m)
    (given : ∀ items v n, make items m = .ok v n → v ≠ .notImplemented) :
    Repeats g m a w items k.toInt.toNat (repeatedLength items.size k.toInt.toNat)
      (Value.bytes * repeatedLength items.size k.toInt.toNat) (make · m) where
  count_eq := repeatedLength_eq _ _
  answers := by
    intro room
    refine ⟨_, repeated_inTurn items _, product_of_repeat sequence hw ?_ (given _)⟩
    rw [repeats, bind_apply, repeatItems_room room]
  ends := by
    intro full
    refine product_of_repeat sequence hw ?_ (fun v n answer => by cases answer)
    rw [repeats, bind_apply, repeatItems_full full]

theorem repeatSequence_str (s : String) (n : Nat) : repeatSequence (.str s) n m =
    (reserve (s.utf8ByteSize * n) >>=
      fun _ => return .str (.ofList (repeated s.toList.toArray n).toList)) m := by
  rw [repeatSequence, bind_apply, heap_apply]

theorem repeatSequence_list (r : Ref) (n : Nat) : repeatSequence (.list r) n m =
    (repeatItems (m.heap.list r) n >>= fun items => alloc (·.newList items)) m := by
  rw [repeatSequence, bind_apply, heap_apply]

theorem repeatSequence_tuple (r : Ref) (n : Nat) : repeatSequence (.tuple r) n m =
    (repeatItems (m.heap.tuple r) n >>= fun items => alloc (·.newTuple items)) m := by
  rw [repeatSequence, bind_apply, heap_apply]

theorem length_le_utf8ByteSize (s : String) : s.toList.length ≤ s.utf8ByteSize := by
  induction s using String.push_induction with
  | empty => exact Nat.zero_le _
  | push s c ih =>
    have := c.utf8Size_pos
    rw [String.toList_push, String.utf8ByteSize_push, List.length_append, List.length_singleton]
    omega

/-- A string has no more characters than bytes, so that their number is a word. -/
theorem repeats_str (s : String) (hw : w.asInt? = some k) :
    Repeats g m (.str s) w s.toList.toArray k.toInt.toNat (s.toList.length * k.toInt.toNat)
      (s.utf8ByteSize * k.toInt.toNat) fun out => .ok (.str (.ofList out.toList)) m where
  count_eq := .inl rfl
  answers := by
    intro room
    have few : s.toList.length * k.toInt.toNat ≤ s.utf8ByteSize * k.toInt.toNat :=
      Nat.mul_le_mul_right _ (length_le_utf8ByteSize s)
    have count : repeatedLength s.toList.toArray.size k.toInt.toNat =
        s.toList.length * k.toInt.toNat := by
      have small : s.toList.length * k.toInt.toNat < 2 ^ 64 := by omega
      exact Nat.mod_eq_of_lt small
    refine ⟨_, count ▸ repeated_inTurn _ _,
      product_of_repeat (.inr (.inr ⟨s, rfl⟩)) hw ?_ fun v n answer => ?_⟩
    · rw [repeatSequence_str, bind_apply, reserve_room room]
      rfl
    · cases answer
      exact Value.noConfusion
  ends := by
    intro full
    refine product_of_repeat (.inr (.inr ⟨s, rfl⟩)) hw ?_ fun v n answer => ?_
    · rw [repeatSequence_str, bind_apply, reserve_full full]
    · cases answer

theorem repeats_list (r : Ref) (hw : w.asInt? = some k) :
    Repeats g m (.list r) w (m.heap.list r) k.toInt.toNat
      (repeatedLength (m.heap.list r).size k.toInt.toNat)
      (Value.bytes * repeatedLength (m.heap.list r).size k.toInt.toNat)
      fun out => .ok (.list m.heap.lists.size) (m.mapHeap fun h => (h.newList out).2) := by
  refine repeats_items (.inl ⟨r, rfl⟩) hw (repeatSequence_list r) fun items v n answer => ?_
  cases answer
  exact Value.noConfusion

theorem repeats_tuple (r : Ref) (hw : w.asInt? = some k) :
    Repeats g m (.tuple r) w (m.heap.tuple r) k.toInt.toNat
      (repeatedLength (m.heap.tuple r).size k.toInt.toNat)
      (Value.bytes * repeatedLength (m.heap.tuple r).size k.toInt.toNat)
      fun out => .ok (.tuple m.heap.tuples.size) (m.mapHeap fun h => (h.newTuple out).2) := by
  refine repeats_items (.inr (.inl ⟨r, rfl⟩)) hw (repeatSequence_tuple r) fun items v n answer => ?_
  cases answer
  exact Value.noConfusion

/-- A machine with a list of four items. -/
def Machine.holdingFour : Machine where
  config := {}
  heap := { lists := #[#[.int 1, .int 2, .int 3, .int 4]] }
  units := #[]
  globals := 0
  builtins := 0
  bailError := false
  control := .never
  timer := .new 1 false

end TieredMachine
