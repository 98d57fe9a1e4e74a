/-
  Dictionaries as lists of items.

  The entries of a dictionary, its index and its size say the same thing three times.  What
  they say is a list of items in the order of their insertion, and every operation does to
  the three what it does to the list.

  * `Item`: an entry, with what its key is compared by; `Item.put`, `Item.drop`,
    `Item.value?`: items by key;
  * `Dict.Holds`: the dictionary is the list of these items;
  * `DictOp`, `DictOp.run`, `DictOp.onItems`: operations, on dictionaries and on items;
  * `Dict.History`: what is done to one dictionary while a machine runs;
  * **`dict_refines_items`**: one operation, and any history.
-/
import TieredMachine.Proofs.Generator.Resume
import TieredMachine.Operation.Basic
import Mathlib.Data.List.Nodup
import Mathlib.Data.List.ReduceOption

namespace TieredMachine

/-! ## Items -/

/-- An entry of a dictionary. -/
structure Item where
  /-- what the key is compared by -/
  hash : Key
  key : Value
  value : Value
  deriving DecidableEq, Inhabited

namespace Item

/-- The key and the value. -/
def pair (e : Item) : Value × Value := (e.key, e.value)

/-- The item with another value. -/
def setValue (v : Value) (e : Item) : Item := { e with value := v }

variable (l : List Item) (k : Key)

/-- Whether there is an item with the key. -/
def has : Bool := l.any (·.hash = k)

/-- The value of a key. -/
def value? : Option Value := (l.find? (·.hash = k)).map (·.value)

/-- The items with a value set: an item with the key stays where it is and keeps its key
    object; a new one comes last. -/
def put (key v : Value) : List Item :=
  if has l k then l.map fun e => if e.hash = k then e.setValue v else e else l ++ [⟨k, key, v⟩]

/-- The items without the one with the key. -/
def drop : List Item := l.filter (·.hash ≠ k)

end Item

/-! ## Positions -/

/-- The slots of a dictionary, some of them gaps: the index leads to the slot of each key and
    nowhere else, and the size is the number of slots in use. -/
structure Dict.Slots (d : Dict) (slots : List (Option Item)) : Prop where
  entries : d.entries.toList = slots.map (Option.map Item.pair)
  index : ∀ (k : Key) i, d.index[k]? = some i ↔ ∃ e, slots[i]? = some (some e) ∧ e.hash = k
  size : d.size = slots.reduceOption.length

/-- The dictionary holds just these items, in this order. -/
def Dict.Holds (d : Dict) (l : List Item) : Prop := ∃ slots, d.Slots slots ∧ slots.reduceOption = l

namespace Dict.Slots

variable {d : Dict} {slots : List (Option Item)} {k : Key} {key v : Value} {i j : Nat} {e e' : Item}

/-- Equal keys are in the same slot. -/
theorem unique (h : d.Slots slots) (hi : slots[i]? = some (some e))
    (hj : slots[j]? = some (some e')) (same : e.hash = e'.hash) : i = j :=
  Option.some.inj (((h.index _ i).mpr ⟨e, hi, rfl⟩).symm.trans
    ((h.index _ j).mpr ⟨e', hj, same.symm⟩))

theorem entry (h : d.Slots slots) (i : Nat) :
    d.entries[i]? = slots[i]?.map (Option.map Item.pair) := by
  rw [← Array.getElem?_toList, h.entries, List.getElem?_map]

/-- A key that the index does not have is in no slot. -/
theorem none_iff (h : d.Slots slots) :
    d.index[k]? = none ↔ ∀ e ∈ slots.reduceOption, e.hash ≠ k := by
  constructor
  · intro hk e he same
    obtain ⟨i, hi⟩ := List.mem_iff_getElem?.mp (List.reduceOption_mem_iff.mp he)
    exact nomatch hk.symm.trans ((h.index k i).mpr ⟨e, hi, same⟩)
  · intro other
    refine Option.eq_none_iff_forall_not_mem.mpr fun i hi => ?_
    obtain ⟨e, hi, same⟩ := (h.index k i).mp hi
    exact other e (List.reduceOption_mem_iff.mpr (List.mem_of_getElem? hi)) same

/-- The items have different keys. -/
theorem nodup (h : d.Slots slots) : (slots.reduceOption.map (·.hash)).Nodup := by
  rw [List.Nodup, List.pairwise_map, List.reduceOption, List.pairwise_filterMap,
    List.pairwise_iff_getElem]
  intro i j hi hj lt e he e' he' same
  refine Nat.ne_of_lt lt (h.unique ?_ ?_ same)
  · rw [List.getElem?_eq_getElem hi]
    exact congrArg some he
  · rw [List.getElem?_eq_getElem hj]
    exact congrArg some he'

/-- The slot that the index leads to holds the only item with the key. -/
theorem slot_iff (h : d.Slots slots) (hi : slots[i]? = some (some e))
    (hj : slots[j]? = some (some e')) : e'.hash = e.hash ↔ j = i := by
  refine ⟨fun same => h.unique hj hi same, fun same => ?_⟩
  subst same
  rw [hi] at hj
  cases hj
  rfl

/-- A change of the slot is a change of the items with its key. -/
theorem modify_eq (h : d.Slots slots) (hi : slots[i]? = some (some e)) (f : Item → Option Item) :
    slots.modify i (·.bind f) =
      slots.map (·.bind fun e' => if e'.hash = e.hash then f e' else some e') := by
  refine List.ext_getElem? fun j => ?_
  rw [List.getElem?_modify, List.getElem?_map]
  cases hj : slots[j]? with
  | none => rfl
  | some o =>
    cases o with
    | none => simp
    | some e' =>
      have := h.slot_iff hi hj
      by_cases same : j = i
      · simp [this.mpr same, same]
      · simp [mt this.mp same, Ne.symm same]

theorem reduceOption_modify (h : d.Slots slots) (hi : slots[i]? = some (some e))
    (f : Item → Option Item) : (slots.modify i (·.bind f)).reduceOption =
      slots.reduceOption.filterMap fun e' => if e'.hash = e.hash then f e' else some e' := by
  rw [h.modify_eq hi]
  simp only [List.reduceOption, List.filterMap_map, List.filterMap_filterMap]
  refine congrArg (fun f => slots.filterMap f) (funext fun o => ?_)
  cases o <;> rfl

/-! ### The operations -/

theorem empty : ({} : Dict).Slots [] where
  entries := rfl
  index k i := by simp
  size := rfl

/-- A slot is one of those that were there or the one behind them. -/
theorem getElem?_snoc {x : Item} : (slots ++ [some x])[i]? = some (some e) ↔
    slots[i]? = some (some e) ∨ slots.length = i ∧ x = e := by
  rcases Nat.lt_trichotomy i slots.length with hlt | rfl | hgt
  · simp [List.getElem?_append_left hlt, Nat.ne_of_gt hlt]
  · simp
  · have outside : (slots ++ [some x])[i]? = none :=
      List.getElem?_eq_none (by rw [List.length_append]; exact hgt)
    simp [outside, List.getElem?_eq_none (Nat.le_of_lt hgt), Nat.ne_of_lt hgt]

theorem insert_new (h : d.Slots slots) (hk : d.index[k]? = none) :
    (d.insert k key v).Slots (slots ++ [some ⟨k, key, v⟩]) := by
  have length : d.entries.size = slots.length := by
    rw [← Array.length_toList, h.entries, List.length_map]
  unfold Dict.insert
  rw [hk]
  refine ⟨?_, fun k' i => ?_, ?_⟩
  · rw [Array.toList_push, h.entries, List.map_append]
    rfl
  · simp only [getElem?_snoc]
    rw [Std.HashMap.getElem?_insert, length]
    by_cases same : k = k'
    · subst same
      have other {e : Item} (he : slots[i]? = some (some e)) : e.hash ≠ k :=
        h.none_iff.mp hk e (List.reduceOption_mem_iff.mpr (List.mem_of_getElem? he))
      rw [if_pos (beq_self_eq_true k), Option.some.injEq]
      exact ⟨fun last => ⟨_, .inr ⟨last, rfl⟩, rfl⟩, fun ⟨e, he, hash⟩ =>
        he.elim (fun he => absurd hash (other he)) fun last => last.1⟩
    · rw [if_neg (by simpa using same), h.index]
      exact exists_congr fun e => and_congr_left fun hash =>
        ⟨.inl, fun he => he.resolve_right fun last =>
          same ((congrArg Item.hash last.2).trans hash)⟩
  · show d.size + 1 = _
    rw [h.size, List.reduceOption_append, List.length_append]
    rfl

theorem reduceOption_insert (h : d.Slots slots) (hi : slots[i]? = some (some e)) :
    (slots.modify i (·.bind fun e => some (e.setValue v))).reduceOption =
      slots.reduceOption.map fun e' => if e'.hash = e.hash then e'.setValue v else e' := by
  rw [h.reduceOption_modify hi, ← List.filterMap_eq_map]
  refine congrArg (fun f => slots.reduceOption.filterMap f) (funext fun e' => ?_)
  rw [Function.comp_apply]
  split <;> rfl

theorem insert_found (h : d.Slots slots) (hi : slots[i]? = some (some e)) :
    (d.insert e.hash key v).Slots (slots.modify i (·.bind fun e => some (e.setValue v))) := by
  have at_ : d.index[e.hash]? = some i := (h.index _ i).mpr ⟨e, hi, rfl⟩
  unfold Dict.insert
  rw [at_]
  refine ⟨List.ext_getElem? fun j => ?_, fun k' j => ?_, ?_⟩
  · rw [Array.getElem?_toList, Array.getElem?_modify, List.getElem?_map, List.getElem?_modify,
      h.entry]
    split <;> cases slots[j]? with
    | none => rfl
    | some o => cases o <;> rfl
  · rw [h.index, List.getElem?_modify]
    split
    · cases slots[j]? with
      | none => simp
      | some o => cases o <;> simp [Item.setValue]
    · cases slots[j]? <;> simp
  · rw [h.reduceOption_insert hi, List.length_map]
    exact h.size

/-- Just one of the items has a key that is found. -/
theorem length_filter (h : d.Slots slots) (hi : slots[i]? = some (some e)) :
    (slots.reduceOption.filter (·.hash ≠ e.hash)).length = slots.reduceOption.length - 1 := by
  have mem : e ∈ slots.reduceOption := List.reduceOption_mem_iff.mpr (List.mem_of_getElem? hi)
  have once : slots.reduceOption.countP (fun e' => decide (e'.hash = e.hash)) = 1 := by
    have := List.count_eq_one_of_mem h.nodup (List.mem_map_of_mem mem)
    rw [List.count_eq_countP, List.countP_map] at this
    exact this
  have all := List.length_eq_countP_add_countP (l := slots.reduceOption)
    fun e' => decide (e'.hash = e.hash)
  rw [once, List.countP_eq_length_filter] at all
  simp only [decide_eq_true_eq] at all
  rw [all, Nat.add_sub_cancel_left]

theorem reduceOption_erase (h : d.Slots slots) (hi : slots[i]? = some (some e)) :
    (slots.modify i (·.bind fun _ => none)).reduceOption =
      Item.drop slots.reduceOption e.hash := by
  rw [h.reduceOption_modify hi, Item.drop, ← List.filterMap_eq_filter]
  refine congrArg (fun f => slots.reduceOption.filterMap f) (funext fun e' => ?_)
  by_cases same : e'.hash = e.hash <;> simp [Option.guard, same]

theorem erase_found (h : d.Slots slots) (hi : slots[i]? = some (some e)) :
    (d.erase e.hash).Slots (slots.modify i (·.bind fun _ => none)) := by
  have at_ : d.index[e.hash]? = some i := (h.index _ i).mpr ⟨e, hi, rfl⟩
  unfold Dict.erase
  rw [at_]
  refine ⟨List.ext_getElem? fun j => ?_, fun k' j => ?_, ?_⟩
  · rw [Array.getElem?_toList, Array.getElem?_setIfInBounds, List.getElem?_map,
      ← Array.getElem?_toList, h.entries, List.getElem?_map, ← Array.length_toList, h.entries,
      List.length_map]
    by_cases same : i = j
    · subst same
      rw [if_pos rfl, if_pos (List.getElem?_eq_some_iff.mp hi).1, List.getElem?_modify_eq, hi]
      rfl
    · rw [if_neg same, List.getElem?_modify_ne _ _ same]
  · rw [Std.HashMap.getElem?_erase]
    by_cases same : i = j
    · subst same
      rw [List.getElem?_modify_eq, hi]
      by_cases hash : e.hash = k'
      · simp [hash]
      · have other : d.index[k']? ≠ some i := fun hk => by
          obtain ⟨e', he', hash'⟩ := (h.index k' i).mp hk
          cases hi.symm.trans he'
          exact hash hash'
        simp [hash, other]
    · rw [List.getElem?_modify_ne _ _ same, ← h.index]
      by_cases hash : e.hash = k'
      · subst hash
        simp [at_, same]
      · simp [hash]
  · show d.size - 1 = _
    rw [h.reduceOption_erase hi, Item.drop, h.length_filter hi, h.size]

end Dict.Slots

/-! ## Items and dictionaries -/

namespace Dict.Holds

variable {d : Dict} {l : List Item} {k : Key} {key v : Value}

theorem empty : ({} : Dict).Holds [] := ⟨[], .empty, rfl⟩

/-- Different items have different keys. -/
theorem nodup (h : d.Holds l) : (l.map (·.hash)).Nodup := by
  obtain ⟨slots, h, rfl⟩ := h
  exact h.nodup

theorem toList_eq (h : d.Holds l) : d.toList = l.map Item.pair := by
  obtain ⟨slots, h, rfl⟩ := h
  rw [toList, h.entries, ← List.reduceOption_map]
  rfl

theorem keys_eq (h : d.Holds l) : d.keys = l.map (·.key) := by
  rw [keys, h.toList_eq, List.map_map]
  rfl

theorem size_eq (h : d.Holds l) : d.size = l.length := by
  obtain ⟨slots, h, rfl⟩ := h
  exact h.size

theorem isEmpty_eq (h : d.Holds l) : d.isEmpty = l.isEmpty := by
  rw [isEmpty, h.size_eq]
  cases l <;> rfl

/-- The item with a key is in the slot that the index leads to. -/
theorem find?_eq {slots : List (Option Item)} (h : d.Slots slots) :
    slots.reduceOption.find? (·.hash = k) = (d.index[k]?).bind fun i => slots[i]?.join := by
  cases hk : d.index[k]? with
  | none => exact List.find?_eq_none.mpr fun e he => by simpa using h.none_iff.mp hk e he
  | some i =>
    obtain ⟨e, hi, rfl⟩ := (h.index k i).mp hk
    have mem : e ∈ slots.reduceOption := List.reduceOption_mem_iff.mpr (List.mem_of_getElem? hi)
    obtain ⟨e', found⟩ := Option.isSome_iff_exists.mp
      (List.find?_isSome (p := fun e' => decide (e'.hash = e.hash)).mpr
        ⟨e, mem, decide_eq_true rfl⟩)
    obtain ⟨j, hj⟩ := List.mem_iff_getElem?.mp
      (List.reduceOption_mem_iff.mp (List.mem_of_find?_eq_some found))
    have same : e'.hash = e.hash := by
      simpa using List.find?_some found
    obtain rfl := h.unique hj hi same
    show _ = slots[j]?.join
    rw [found, hj]
    rfl

theorem get?_eq (h : d.Holds l) : d.get? k = Item.value? l k := by
  obtain ⟨slots, h, rfl⟩ := h
  rw [Item.value?, find?_eq h, Dict.get?]
  cases d.index[k]? with
  | none => rfl
  | some i =>
    show (d.entries[i]?.join.bind fun e => some e.2) = (slots[i]?.join).map _
    rw [h.entry]
    cases slots[i]? with
    | none => rfl
    | some o => cases o <;> rfl

theorem contains_eq (h : d.Holds l) : d.contains k = Item.has l k := by
  obtain ⟨slots, h, rfl⟩ := h
  rw [Dict.contains, Std.HashMap.contains_eq_isSome_getElem?, Item.has]
  cases hk : d.index[k]? with
  | none =>
    refine (List.any_eq_false.mpr fun e he => ?_).symm
    simpa using h.none_iff.mp hk e he
  | some i =>
    obtain ⟨e, hi, hash⟩ := (h.index k i).mp hk
    have mem := List.reduceOption_mem_iff.mpr (List.mem_of_getElem? hi)
    exact (List.any_eq_true.mpr ⟨e, mem, decide_eq_true hash⟩).symm

theorem insert (h : d.Holds l) : (d.insert k key v).Holds (Item.put l k key v) := by
  have has := h.contains_eq (k := k)
  obtain ⟨slots, h, rfl⟩ := h
  rw [Dict.contains, Std.HashMap.contains_eq_isSome_getElem?] at has
  unfold Item.put
  rw [← has]
  cases hk : d.index[k]? with
  | none => exact ⟨_, h.insert_new hk, List.reduceOption_append _ _⟩
  | some i =>
    obtain ⟨e, hi, rfl⟩ := (h.index k i).mp hk
    refine ⟨_, h.insert_found hi, ?_⟩
    rw [h.reduceOption_insert hi]
    rfl

theorem erase (h : d.Holds l) : (d.erase k).Holds (Item.drop l k) := by
  obtain ⟨slots, h, rfl⟩ := h
  cases hk : d.index[k]? with
  | none =>
    have all := h.none_iff.mp hk
    rw [Item.drop, List.filter_eq_self.mpr fun e he => decide_eq_true (all e he), Dict.erase, hk]
    exact ⟨slots, h, rfl⟩
  | some i =>
    obtain ⟨e, hi, rfl⟩ := (h.index k i).mp hk
    exact ⟨_, h.erase_found hi, h.reduceOption_erase hi⟩

end Dict.Holds

/-! ## Operations of the machine -/

/-- An operation on a dictionary. -/
inductive DictOp where
  | insert (key value : Value)
  | get (key : Value)
  /-- removes an entry and answers its value -/
  | remove (key : Value)
  | contains (key : Value)
  deriving DecidableEq

/-- What an operation answers. -/
inductive DictAnswer where
  | done
  | value (v : Option Value)
  | found (b : Bool)
  deriving DecidableEq

/-- The machine with a dictionary changed. -/
def Machine.mapDict (m : Machine) (r : Ref) (f : Dict → Dict) : Machine :=
  m.mapHeap fun h => { h with dicts := h.dicts.modify r f }

namespace DictOp

/-- The key object of the operation. -/
def key : DictOp → Value
  | insert key _ | get key | remove key | contains key => key

/-- The operation on a dictionary of the heap. -/
def run (r : Ref) : DictOp → Exec DictAnswer
  | insert key v => do
    dictInsert r key v
    return .done
  | get key => return .value (← dictGet? r key)
  | remove key => do
    let v ← dictGet? r key
    return .value (if ← dictErase r key then v else none)
  | contains key => return .found (← dictContains r key)

variable (k : Key)

/-- The dictionary afterwards, for a key that is compared by `k`. -/
def onDict : DictOp → Dict → Dict
  | insert key v, d => d.insert k key v
  | remove _, d => d.erase k
  | get _, d | contains _, d => d

/-- The answer and the items afterwards, for a key that is compared by `k`. -/
def onItems : DictOp → List Item → DictAnswer × List Item
  | insert key v, l => (.done, Item.put l k key v)
  | get _, l => (.value (Item.value? l k), l)
  | remove _, l => (.value (Item.value? l k), Item.drop l k)
  | contains _, l => (.found (Item.has l k), l)

end DictOp

section

variable {m : Machine} {r : Ref} {l : List Item} {k : Key} {tag : TypeTag} {v : Value}
  (op : DictOp)

theorem Machine.size_mapDict (m : Machine) (f : Dict → Dict) :
    (m.mapDict r f).heap.dicts.size = m.heap.dicts.size := Array.size_modify

theorem Machine.dict_mapDict (hr : r < m.heap.dicts.size) (f : Dict → Dict) :
    (m.mapDict r f).heap.dict r = f (m.heap.dict r) := by
  show (m.heap.dicts.modify r f)[r]?.getD {} = f (m.heap.dicts[r]?.getD {})
  rw [Array.getElem?_modify, if_pos rfl, Array.getElem?_eq_getElem hr]
  rfl

theorem Machine.mapDict_id (m : Machine) (r : Ref) : (m.mapDict r fun d => d) = m := by
  have same : m.heap.dicts.modify r (fun d => d) = m.heap.dicts :=
    Array.ext_getElem? fun i => by
      rw [Array.getElem?_modify]
      split
      · exact Option.map_id_fun' ▸ rfl
      · rfl
  exact congrArg (fun dicts => ({ m with heap := { m.heap with dicts } } : Machine)) same

theorem keyOf_apply (v : Value) (m : Machine) : keyOf v m = (match m.heap.key v with
    | .ok k => (pure k : Exec Key)
    | .error tag => typeError s!"unhashable type: '{tag.name}'") m := rfl

theorem keyOf_ok (hk : m.heap.key v = .ok k) : keyOf v m = .ok k m := by
  rw [keyOf_apply, hk]
  rfl

theorem keyOf_error (hk : m.heap.key v = .error tag) :
    keyOf v m = m.raising .typeError [.str s!"unhashable type: '{tag.name}'"] := by
  rw [keyOf_apply, hk]
  rfl

theorem keyOf_bind_ok {α : Type} (hk : m.heap.key v = .ok k) (f : Key → Exec α) :
    (keyOf v >>= f) m = f k m := by
  rw [bind_apply, keyOf_ok hk]

theorem keyOf_bind_error {α : Type} (hk : m.heap.key v = .error tag) (f : Key → Exec α) :
    (keyOf v >>= f) m = m.raising .typeError [.str s!"unhashable type: '{tag.name}'"] := by
  rw [bind_apply, keyOf_error hk]
  rfl

theorem dictGet?_ok (hk : m.heap.key v = .ok k) :
    dictGet? r v m = .ok ((m.heap.dict r).get? k) m := by
  rw [dictGet?, keyOf_bind_ok hk]
  rfl

theorem dictContains_ok (hk : m.heap.key v = .ok k) :
    dictContains r v m = .ok ((m.heap.dict r).contains k) m := by
  rw [dictContains, keyOf_bind_ok hk]
  rfl

theorem dictInsert_ok (hk : m.heap.key v = .ok k) (v' : Value) :
    dictInsert r v v' m = .ok () (m.mapDict r (·.insert k v v')) := by
  rw [dictInsert, keyOf_bind_ok hk]
  rfl

theorem dictErase_ok (hk : m.heap.key v = .ok k) :
    dictErase r v m = .ok ((m.heap.dict r).contains k) (m.mapDict r (·.erase k)) := by
  rw [dictErase, keyOf_bind_ok hk]
  rfl

/-- A key that no item has is a key without a value. -/
theorem Item.value?_eq_none : Item.value? l k = none ↔ Item.has l k = false := by
  rw [Item.value?, Option.map_eq_none_iff, List.find?_eq_none, Item.has, List.any_eq_false]

/-- An operation with a key that can be hashed does to the dictionary what it does to the
    items. -/
theorem DictOp.run_hashable (hd : (m.heap.dict r).Holds l) (hk : m.heap.key op.key = .ok k) :
    op.run r m = .ok (op.onItems k l).1 (m.mapDict r (op.onDict k)) := by
  have unchanged := m.mapDict_id r
  cases op with
  | insert key v =>
    show (dictInsert r key v >>= fun _ => (pure .done : Exec DictAnswer)) m = _
    rw [bind_apply, dictInsert_ok (v := key) hk]
    rfl
  | get key =>
    show (dictGet? r key >>= fun v => (pure (.value v) : Exec DictAnswer)) m = _
    rw [bind_apply, dictGet?_ok (v := key) hk, hd.get?_eq]
    show EStateM.Result.ok _ m = .ok _ (m.mapDict r fun d => d)
    rw [unchanged]
    rfl
  | remove key =>
    have answer : (if Item.has l k then Item.value? l k else none) = Item.value? l k := by
      split
      · rfl
      · rename_i new
        exact (Item.value?_eq_none.mpr (Bool.eq_false_iff.mpr new)).symm
    show (dictGet? r key >>= fun v => dictErase r key >>= fun found =>
      (pure (.value (if found then v else none)) : Exec DictAnswer)) m = _
    rw [bind_apply, dictGet?_ok (v := key) hk, hd.get?_eq]
    show (dictErase r key >>= fun found =>
      (pure (.value (if found then Item.value? l k else none)) : Exec DictAnswer)) m = _
    rw [bind_apply, dictErase_ok (v := key) hk, hd.contains_eq]
    exact congrArg (fun v => EStateM.Result.ok (DictAnswer.value v) _) answer
  | contains key =>
    show (dictContains r key >>= fun b => (pure (.found b) : Exec DictAnswer)) m = _
    rw [bind_apply, dictContains_ok (v := key) hk, hd.contains_eq]
    show EStateM.Result.ok _ m = .ok _ (m.mapDict r fun d => d)
    rw [unchanged]
    rfl

/-- An operation with any other key raises a type error, and changes nothing. -/
theorem DictOp.run_unhashable (hk : m.heap.key op.key = .error tag) :
    op.run r m = m.raising .typeError [.str s!"unhashable type: '{tag.name}'"] := by
  have bound {α β : Type} (f : Key → Exec α) (g : α → Exec β) :
      ((keyOf op.key >>= f) >>= g) m =
        m.raising .typeError [.str s!"unhashable type: '{tag.name}'"] := by
    rw [bind_apply, keyOf_bind_error hk]
    rfl
  cases op with
  | insert | get | remove | contains => exact bound _ _

/-- The items of the dictionary that an operation leaves. -/
theorem DictOp.onDict_holds {d : Dict} (hd : d.Holds l) :
    (op.onDict k d).Holds (op.onItems k l).2 := by
  cases op with
  | insert key v => exact hd.insert
  | remove key => exact hd.erase
  | get key | contains key => exact hd

end

/-! ## Histories -/

/-- The exception that a fault raises. -/
def Heap.raised? (h : Heap) : Fault → Option ExceptionObj
  | .raised exc => some (h.exception exc)
  | _ => none

/-- An operation that was run: what its key was compared by, and what it answered or raised. -/
structure DictEvent where
  op : DictOp
  key : Except TypeTag Key
  answer : Except (Option ExceptionObj) DictAnswer

namespace DictEvent

/-- The items after an operation. -/
def after (l : List Item) (e : DictEvent) : List Item :=
  match e.key with
  | .ok k => (e.op.onItems k l).2
  | .error _ => l

/-- What an operation answers or raises when there are these items. -/
def expected (l : List Item) (e : DictEvent) : Except (Option ExceptionObj) DictAnswer :=
  match e.key with
  | .ok k => .ok (e.op.onItems k l).1
  | .error tag =>
    .error (some { kind := .typeError, args := #[.str s!"unhashable type: '{tag.name}'"] })

/-- Every operation answers what the items before it say. -/
def Explained : List Item → List DictEvent → Prop
  | _, [] => True
  | l, e :: es => e.answer = e.expected l ∧ Explained (e.after l) es

end DictEvent

/-- The operations on a dictionary, in a machine that may do anything else between them. -/
inductive Dict.History (r : Ref) : Machine → List DictEvent → Machine → Prop
  | nil (m) : History r m [] m
  | elsewhere {m m' m'' es} : m'.heap.dict r = m.heap.dict r → r < m'.heap.dicts.size →
      History r m' es m'' → History r m es m''
  | answers {m m' m'' op a es} : op.run r m = .ok a m' → History r m' es m'' →
      History r m (⟨op, m.heap.key op.key, .ok a⟩ :: es) m''
  | fails {m m' m'' op f es} : op.run r m = .error f m' → History r m' es m'' →
      History r m (⟨op, m.heap.key op.key, .error (m'.heap.raised? f)⟩ :: es) m''

section

variable {m m' : Machine} {r : Ref} {l : List Item} {es : List DictEvent}

/-- The exception is new, and nothing else. -/
theorem Machine.raised?_raising (m : Machine) (kind : ExceptionKind) (args : List Value) :
    (m.mapHeap fun h => (h.newException { kind, args := args.toArray }).2).heap.raised?
      (.raised m.heap.exceptions.size) = some { kind, args := args.toArray } := by
  show some ((m.heap.exceptions.push _)[m.heap.exceptions.size]?.getD default) = _
  rw [Array.getElem?_push_size]
  rfl

/-- Every operation of a history answers what the items before it say, and the dictionary
    holds the items that are left in the end. -/
theorem Dict.History.refines (h : History r m es m') (hr : r < m.heap.dicts.size)
    (hd : (m.heap.dict r).Holds l) :
    (m'.heap.dict r).Holds (es.foldl DictEvent.after l) ∧ DictEvent.Explained l es := by
  induction h generalizing l with
  | nil => exact ⟨hd, trivial⟩
  | elsewhere same there _ ih => exact ih there (by rwa [same])
  | @answers m _ _ op a es run _ ih =>
    cases hk : m.heap.key op.key with
    | error tag => exact nomatch run.symm.trans (op.run_unhashable hk)
    | ok k =>
      rw [op.run_hashable hd hk] at run
      cases run
      have left := op.onDict_holds (k := k) hd
      rw [← Machine.dict_mapDict hr (op.onDict k)] at left
      obtain ⟨holds, explained⟩ := ih (by rwa [Machine.size_mapDict]) left
      exact ⟨holds, rfl, explained⟩
  | @fails m _ _ op f es run _ ih =>
    cases hk : m.heap.key op.key with
    | ok k => exact nomatch run.symm.trans (op.run_hashable hd hk)
    | error tag =>
      rw [op.run_unhashable hk] at run
      cases run
      obtain ⟨holds, explained⟩ := ih hr hd
      exact ⟨holds, congrArg Except.error (m.raised?_raising _ _), explained⟩

/-- An operation whose key can be hashed, and what is done after it. -/
theorem Dict.History.step (op : DictOp) {k : Key} (hd : (m.heap.dict r).Holds l)
    (hk : m.heap.key op.key = .ok k) (rest : History r (m.mapDict r (op.onDict k)) es m') :
    History r m (⟨op, .ok k, .ok (op.onItems k l).1⟩ :: es) m' := by
  rw [← hk]
  exact .answers (op.run_hashable hd hk) rest

/-- An operation with any other key, and what is done after it. -/
theorem Dict.History.misstep (op : DictOp) {tag : TypeTag} (hk : m.heap.key op.key = .error tag)
    (rest : History r (m.mapHeap fun h => (h.newException
      { kind := .typeError, args := #[.str s!"unhashable type: '{tag.name}'"] }).2) es m') :
    History r m (⟨op, .error tag, .error (some
      { kind := .typeError, args := #[.str s!"unhashable type: '{tag.name}'"] })⟩ :: es) m' := by
  have raised := m.raised?_raising .typeError [.str s!"unhashable type: '{tag.name}'"]
  rw [← hk, ← raised]
  exact .fails (op.run_unhashable hk) rest

/-- Any operations can be run one after another. -/
theorem Dict.History.total (ops : List DictOp) (hr : r < m.heap.dicts.size)
    (hd : (m.heap.dict r).Holds l) : ∃ es m', History r m es m' ∧ es.map (·.op) = ops := by
  induction ops generalizing m l with
  | nil => exact ⟨[], m, .nil m, rfl⟩
  | cons op ops ih =>
    cases hk : m.heap.key op.key with
    | ok k =>
      have left := op.onDict_holds (k := k) hd
      rw [← Machine.dict_mapDict hr (op.onDict k)] at left
      obtain ⟨es, m', rest, same⟩ := ih (by rwa [Machine.size_mapDict]) left
      exact ⟨_, m', .step op hd hk rest, congrArg (op :: ·) same⟩
    | error tag =>
      obtain ⟨es, m', rest, same⟩ := ih (m := m.mapHeap fun h => (h.newException
        { kind := .typeError, args := #[.str s!"unhashable type: '{tag.name}'"] }).2) hr hd
      exact ⟨_, m', .misstep op hk rest, congrArg (op :: ·) same⟩

/-- **A dictionary is a list of items in the order of insertion.**  What it shows is the list:
    its pairs, keys and size, and the value of each key; the index leads to each item's entry.
    An operation whose key can be hashed answers what the list says and does to the dictionary
    what it does to the list; any other raises a type error and changes nothing.  Any operations
    can be run one after another, and so it is along every history, whatever else the machine
    does meanwhile. -/
theorem dict_refines_items (r : Ref) (m : Machine) (l : List Item) (hr : r < m.heap.dicts.size)
    (hd : (m.heap.dict r).Holds l) :
    (∀ (d : Dict) l, d.Holds l →
      d.toList = l.map Item.pair ∧ d.keys = l.map (·.key) ∧ d.size = l.length ∧
        d.isEmpty = l.isEmpty ∧ (l.map (·.hash)).Nodup ∧
        ∀ k, d.get? k = Item.value? l k ∧ d.contains k = Item.has l k) ∧
    (∀ (op : DictOp) k, m.heap.key op.key = .ok k →
      op.run r m = .ok (op.onItems k l).1 (m.mapDict r (op.onDict k)) ∧
        ((m.mapDict r (op.onDict k)).heap.dict r).Holds (op.onItems k l).2) ∧
    (∀ (op : DictOp) tag, m.heap.key op.key = .error tag →
      op.run r m = m.raising .typeError [.str s!"unhashable type: '{tag.name}'"]) ∧
    (∀ ops, ∃ es m', Dict.History r m es m' ∧ es.map (·.op) = ops) ∧
    ∀ es m', Dict.History r m es m' →
      (m'.heap.dict r).Holds (es.foldl DictEvent.after l) ∧ DictEvent.Explained l es := by
  refine ⟨fun d l hd => ⟨hd.toList_eq, hd.keys_eq, hd.size_eq, hd.isEmpty_eq, hd.nodup,
    fun k => ⟨hd.get?_eq, hd.contains_eq⟩⟩, fun op k hk => ⟨op.run_hashable hd hk, ?_⟩,
    fun op tag hk => op.run_unhashable hk, fun ops => Dict.History.total ops hr hd,
    fun es m' h => h.refines hr hd⟩
  rw [Machine.dict_mapDict hr]
  exact op.onDict_holds hd

end

/-! ### A key that comes back -/

/-- A machine with an empty dictionary and an empty list. -/
def Machine.filing : Machine where
  config := {}
  heap := { lists := #[#[]], dicts := #[{}] }
  globals := 0
  builtins := 0
  bailError := false
  control := .never
  timer := .new 1 false

/-- An entry that is removed comes back at the end, one that is set stays, with its key. -/
theorem dict_refines_items_of_filing :
    0 < Machine.filing.heap.dicts.size ∧ (Machine.filing.heap.dict 0).Holds [] ∧
    ∃ m', Dict.History 0 .filing
      [⟨.insert (.str "a") .none, .ok (.str "a"), .ok .done⟩,
        ⟨.insert (.int 1) .none, .ok (.int 1), .ok .done⟩,
        ⟨.insert (.bool true) (.int 2), .ok (.int 1), .ok .done⟩,
        ⟨.remove (.str "a"), .ok (.str "a"), .ok (.value (some .none))⟩,
        ⟨.insert (.str "a") (.int 3), .ok (.str "a"), .ok .done⟩,
        ⟨.contains (.list 0), .error .list, .error (some
          { kind := .typeError, args := #[.str "unhashable type: 'list'"] })⟩] m' ∧
      (m'.heap.dict 0).toList = [(.int 1, .int 2), (.str "a", .int 3)] := by
  have size : 0 < Machine.filing.heap.dicts.size := by decide
  have empty : (Machine.filing.heap.dict 0).Holds [] := .empty
  obtain ⟨shows, -, -, -, run⟩ := dict_refines_items 0 .filing [] size empty
  -- what is there after each operation
  have next {m : Machine} {l : List Item} (op : DictOp) (k : Key)
      (h : 0 < m.heap.dicts.size ∧ (m.heap.dict 0).Holds l) :
      0 < (m.mapDict 0 (op.onDict k)).heap.dicts.size ∧
        ((m.mapDict 0 (op.onDict k)).heap.dict 0).Holds (op.onItems k l).2 := by
    rw [Machine.size_mapDict, Machine.dict_mapDict h.1]
    exact ⟨h.1, op.onDict_holds h.2⟩
  have first := next (.insert (.str "a") .none) (.str "a") ⟨size, empty⟩
  have second := next (.insert (.int 1) .none) (.int 1) first
  have third := next (.insert (.bool true) (.int 2)) (.int 1) second
  have fourth := next (.remove (.str "a")) (.str "a") third
  have fifth := next (.insert (.str "a") (.int 3)) (.str "a") fourth
  have history := Dict.History.misstep (.contains (.list 0)) rfl (.nil _)
    |> Dict.History.step (.insert (.str "a") (.int 3)) fourth.2 rfl
    |> Dict.History.step (.remove (.str "a")) third.2 rfl
    |> Dict.History.step (.insert (.bool true) (.int 2)) second.2 rfl
    |> Dict.History.step (.insert (.int 1) .none) first.2 rfl
    |> Dict.History.step (.insert (.str "a") .none) empty rfl
  refine ⟨size, empty, _, history, ?_⟩
  rw [(shows _ _ (run _ _ history).1).1]
  decide

end TieredMachine
