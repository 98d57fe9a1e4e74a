/-
  Equality of data, and the keys that agree with it.

  Two data are alike if they are the same number, text or the like, or containers of alike
  data: item by item for sequences, key by key for dictionaries.  Alikeness is an equivalence
  by its rules.  Equality decides it, and so do the keys of the data that have one.

  * `Heap.Alike`, `Heap.Data.alike_refl`, `Heap.Alike.symm`, `Heap.Alike.trans`;
  * `Dict.Holds.alike_iff`: as many entries, each with an alike one under its key, are the
    same keys;
  * `Heap.Data.equalWithin_decides`, `Heap.Data.keyWithin_decides`: what is computed;
  * **`equality_is_equivalence`**: equality and keys of data.
-/
import TieredMachine.Proofs.Heap.Data
import TieredMachine.Run.Guest

namespace TieredMachine

/-! ## Alike data -/

/-- Data that are equal. -/
inductive Heap.Alike (h : Heap) : Value → Value → Prop
  | none : Alike h .none .none
  | number {a b n} : a.asInt? = some n → b.asInt? = some n → Alike h a b
  | str (s) : Alike h (.str s) (.str s)
  | excType (kind) : Alike h (.excType kind) (.excType kind)
  | tuple {r s} : (h.tuple r).size = (h.tuple s).size →
      (∀ (i : Nat) v w, (h.tuple r)[i]? = some v → (h.tuple s)[i]? = some w → Alike h v w) →
      Alike h (.tuple r) (.tuple s)
  | list {r s} : (h.list r).size = (h.list s).size →
      (∀ (i : Nat) v w, (h.list r)[i]? = some v → (h.list s)[i]? = some w → Alike h v w) →
      Alike h (.list r) (.list s)
  | dict {r s} : (∀ k, ((h.dict r).get? k).isSome = ((h.dict s).get? k).isSome) →
      (∀ k v w, (h.dict r).get? k = some v → (h.dict s).get? k = some w → Alike h v w) →
      Alike h (.dict r) (.dict s)

namespace Dict.Holds

variable {d d' : Dict} {l l' : List Item} {k : Key} {v : Value}

/-- The value of a key is that of its item. -/
theorem get?_iff (hd : d.Holds l) : d.get? k = some v ↔ ∃ e ∈ l, e.hash = k ∧ e.value = v := by
  rw [hd.get?_eq, Item.value?, Option.map_eq_some_iff]
  constructor
  · rintro ⟨e, found, value⟩
    exact ⟨e, List.mem_of_find?_eq_some found, by simpa using List.find?_some found, value⟩
  · rintro ⟨e, mem, rfl, value⟩
    obtain ⟨e', found⟩ := Option.isSome_iff_exists.mp
      (List.find?_isSome (p := fun e' => decide (e'.hash = e.hash)).mpr
        ⟨e, mem, decide_eq_true rfl⟩)
    have same : e'.hash = e.hash := by simpa using List.find?_some found
    rw [List.inj_on_of_nodup_map hd.nodup (List.mem_of_find?_eq_some found) mem same] at found
    exact ⟨e, found, value⟩

theorem isSome_iff (hd : d.Holds l) : (d.get? k).isSome ↔ k ∈ l.map (·.hash) := by
  rw [Option.isSome_iff_exists, List.mem_map]
  simp only [hd.get?_iff]
  exact ⟨fun ⟨_, e, mem, hash, _⟩ => ⟨e, mem, hash⟩, fun ⟨e, mem, hash⟩ => ⟨_, e, mem, hash, rfl⟩⟩

/-- Where as many keys have their counterparts, no key is left over. -/
theorem alike_iff (hd : d.Holds l) (hd' : d'.Holds l') {P : Value → Value → Prop} :
    (d.size = d'.size ∧ ∀ e ∈ l, ∃ w, d'.get? e.hash = some w ∧ P e.value w) ↔
      (∀ k, (d.get? k).isSome = (d'.get? k).isSome) ∧
        ∀ k v w, d.get? k = some v → d'.get? k = some w → P v w := by
  rw [hd.size_eq, hd'.size_eq]
  constructor
  · rintro ⟨size, each⟩
    have sub : l.map (·.hash) ⊆ l'.map (·.hash) := by
      intro k hk
      obtain ⟨e, mem, rfl⟩ := List.mem_map.mp hk
      obtain ⟨w, hw, -⟩ := each e mem
      exact hd'.isSome_iff.mp (Option.isSome_of_eq_some hw)
    have perm : (l.map (·.hash)).Perm (l'.map (·.hash)) :=
      (hd.nodup.subperm sub).perm_of_length_le (by simp [size])
    refine ⟨fun k => ?_, fun k v w hv hw => ?_⟩
    · rw [Bool.eq_iff_iff, hd.isSome_iff, hd'.isSome_iff, perm.mem_iff]
    · obtain ⟨e, mem, rfl, rfl⟩ := hd.get?_iff.mp hv
      obtain ⟨w', hw', holds⟩ := each e mem
      cases hw.symm.trans hw'
      exact holds
  · rintro ⟨same, each⟩
    have perm : (l.map (·.hash)).Perm (l'.map (·.hash)) :=
      (List.perm_ext_iff_of_nodup hd.nodup hd'.nodup).mpr fun k => by
        rw [← hd.isSome_iff, ← hd'.isSome_iff, same]
    refine ⟨by simpa using perm.length_eq, fun e mem => ?_⟩
    have here : d.get? e.hash = some e.value := hd.get?_iff.mpr ⟨e, mem, rfl, rfl⟩
    obtain ⟨w, hw⟩ := Option.isSome_iff_exists.mp
      ((same e.hash).symm.trans (Option.isSome_of_eq_some here))
    exact ⟨w, hw, each _ _ _ here hw⟩

end Dict.Holds

namespace Heap

variable {h : Heap} {a b c v : Value}

theorem Alike.symm (hab : h.Alike a b) : h.Alike b a := by
  induction hab with
  | none => exact .none
  | number ha hb => exact .number hb ha
  | str s => exact .str s
  | excType kind => exact .excType kind
  | tuple size _ ih => exact .tuple size.symm fun i v w hv hw => ih i w v hw hv
  | list size _ ih => exact .list size.symm fun i v w hv hw => ih i w v hw hv
  | dict keys _ ih => exact .dict (fun k => (keys k).symm) fun k v w hv hw => ih k w v hw hv

theorem Alike.trans (hab : h.Alike a b) (hbc : h.Alike b c) : h.Alike a c := by
  -- the sequence in the middle has an item where the first one does
  have between {as bs : Array Value} (size : as.size = bs.size) {i : Nat} {v : Value}
      (hv : as[i]? = some v) : ∃ u, bs[i]? = some u := by
    have inside := (Array.getElem?_eq_some_iff.mp hv).1
    exact ⟨_, Array.getElem?_eq_getElem (size ▸ inside)⟩
  induction hab generalizing c with
  | none | str | excType => exact hbc
  | number ha hb =>
    cases hbc with
    | number hb' hc =>
      cases hb.symm.trans hb'
      exact .number ha hc
    | _ => cases hb
  | tuple size _ ih =>
    cases hbc with
    | number h => cases h
    | tuple size' each =>
      refine .tuple (size.trans size') fun i v w hv hw => ?_
      obtain ⟨u, hu⟩ := between size hv
      exact ih i v u hv hu (each i u w hu hw)
  | list size _ ih =>
    cases hbc with
    | number h => cases h
    | list size' each =>
      refine .list (size.trans size') fun i v w hv hw => ?_
      obtain ⟨u, hu⟩ := between size hv
      exact ih i v u hv hu (each i u w hu hw)
  | dict keys _ ih =>
    cases hbc with
    | number h => cases h
    | dict keys' each =>
      refine .dict (fun k => (keys k).trans (keys' k)) fun k v w hv hw => ?_
      obtain ⟨u, hu⟩ := Option.isSome_iff_exists.mp
        ((keys k).symm.trans (Option.isSome_of_eq_some hv))
      exact ih k v u hv hu (each k u w hu hw)

theorem Data.alike_refl (hv : h.Data v) : h.Alike v v := by
  induction hv with
  | none => exact .none
  | bool | int => exact .number rfl rfl
  | str s => exact .str s
  | excType kind => exact .excType kind
  | tuple _ ih =>
    refine .tuple rfl fun i v w hv hw => ?_
    cases hv.symm.trans hw
    exact ih v (Array.mem_of_getElem? hv)
  | list _ ih =>
    refine .list rfl fun i v w hv hw => ?_
    cases hv.symm.trans hw
    exact ih v (Array.mem_of_getElem? hv)
  | dict holds _ _ _ _ ih =>
    refine .dict (fun _ => rfl) fun k v w hv hw => ?_
    cases hv.symm.trans hw
    obtain ⟨e, mem, -, rfl⟩ := holds.get?_iff.mp hv
    exact ih e mem

end Heap

/-! ## What equality answers -/

section

variable {m : Machine} {eq : Value → Value → Exec Bool} {P : Value → Value → Prop}

theorem pointwise_cons {a b : Value} {as bs : List Value} :
    (∀ (i : Nat) v w, (a :: as)[i]? = some v → (b :: bs)[i]? = some w → P v w) ↔
      P a b ∧ ∀ (i : Nat) v w, as[i]? = some v → bs[i]? = some w → P v w := by
  refine ⟨fun all => ⟨all 0 a b rfl rfl, fun i v w hv hw => all (i + 1) v w hv hw⟩, ?_⟩
  rintro ⟨first, rest⟩ i v w hv hw
  cases i with
  | zero =>
    cases hv
    cases hw
    exact first
  | succ i => exact rest i v w hv hw

/-- Items are compared as the test for two of them says. -/
theorem allEqual_decides {as bs : List Value} (length : as.length = bs.length)
    (each : ∀ v ∈ as, ∀ w ∈ bs, ∃ b, eq v w m = .ok b m ∧ (b = true ↔ P v w)) :
    ∃ b, allEqual eq as bs m = .ok b m ∧
      (b = true ↔ ∀ (i : Nat) v w, as[i]? = some v → bs[i]? = some w → P v w) := by
  induction as generalizing bs with
  | nil =>
    obtain rfl := List.eq_nil_of_length_eq_zero length.symm
    exact ⟨true, rfl, by simp⟩
  | cons a as ih =>
    obtain ⟨b, bs, rfl⟩ := List.exists_cons_of_length_eq_add_one length.symm
    obtain ⟨first, run, same⟩ := each a List.mem_cons_self b List.mem_cons_self
    obtain ⟨rest, run', same'⟩ := ih (Nat.succ.inj length) fun v hv w hw =>
      each v (List.mem_cons_of_mem _ hv) w (List.mem_cons_of_mem _ hw)
    have unfolded : allEqual eq (a :: as) (b :: bs) m =
        if first then allEqual eq as bs m else .ok false m := by
      show (eq a b >>= fun c => if c then allEqual eq as bs else pure false) m = _
      rw [bind_apply, run]
      cases first <;> rfl
    rw [unfolded, pointwise_cons]
    cases first with
    | false => exact ⟨false, rfl, ⟨fun h => Bool.noConfusion h, fun all => same.mpr all.1⟩⟩
    | true => exact ⟨rest, run', same'.trans (and_iff_right (same.mp rfl)).symm⟩

/-- Two sequences of one length are compared item by item. -/
theorem itemsEqual_decides {as bs : Array Value}
    (each : ∀ v ∈ as.toList, ∀ w ∈ bs.toList, ∃ b, eq v w m = .ok b m ∧ (b = true ↔ P v w)) :
    ∃ b, (if as.size = bs.size then allEqual eq as.toList bs.toList
        else return false : Exec Bool) m = .ok b m ∧
      (b = true ↔ as.size = bs.size ∧
        ∀ (i : Nat) v w, as[i]? = some v → bs[i]? = some w → P v w) := by
  split
  · rename_i size
    obtain ⟨b, run, same⟩ := allEqual_decides size each
    simp only [Array.getElem?_toList] at same
    exact ⟨b, run, same.trans (and_iff_right size).symm⟩
  · rename_i size
    exact ⟨false, rfl, ⟨fun h => Bool.noConfusion h, fun h => absurd h.1 size⟩⟩

/-- Entries are compared with those under their keys. -/
theorem entriesEqual_decides {other : Dict} {l : List Item}
    (keys : ∀ e ∈ l, m.heap.key e.key = .ok e.hash)
    (each : ∀ e ∈ l, ∀ w, other.get? e.hash = some w →
      ∃ b, eq e.value w m = .ok b m ∧ (b = true ↔ P e.value w)) :
    ∃ b, entriesEqual eq other (l.map Item.pair) m = .ok b m ∧
      (b = true ↔ ∀ e ∈ l, ∃ w, other.get? e.hash = some w ∧ P e.value w) := by
  induction l with
  | nil => exact ⟨true, rfl, by simp⟩
  | cons e l ih =>
    obtain ⟨key, keys⟩ := List.forall_mem_cons.mp keys
    obtain ⟨first, each⟩ := List.forall_mem_cons.mp each
    obtain ⟨rest, run', same'⟩ := ih keys each
    simp only [List.forall_mem_cons]
    have unfolded : entriesEqual eq other ((e :: l).map Item.pair) m =
        (other.get? e.hash).elim (.ok false m) fun w => (eq e.value w >>= fun b =>
          if b then entriesEqual eq other (l.map Item.pair) else pure false) m := by
      show (keyOf e.key >>= _) m = _
      rw [keyOf_bind_ok key]
      cases other.get? e.hash <;> rfl
    rw [unfolded]
    cases found : other.get? e.hash with
    | none => exact ⟨false, rfl, by simp⟩
    | some w =>
      obtain ⟨b, run, same⟩ := first w found
      rw [Option.elim_some, bind_apply, run]
      cases b with
      | false =>
        refine ⟨false, rfl, ⟨fun h => Bool.noConfusion h, ?_⟩⟩
        rintro ⟨⟨w', hw', holds⟩, -⟩
        cases hw'
        exact same.mpr holds
      | true =>
        refine ⟨rest, run', fun h => ⟨⟨w, rfl, same.mp rfl⟩, same'.mp h⟩, fun all => ?_⟩
        exact same'.mpr all.2

end

/-- The key of a tuple has the keys of its items in it. -/
theorem Key.tuple_inj {keys keys' : List Key} :
    keys.foldr Key.cons .nil = keys'.foldr Key.cons .nil ↔ keys = keys' := by
  refine ⟨fun h => ?_, fun h => h ▸ rfl⟩
  induction keys generalizing keys' with
  | nil =>
    cases keys' with
    | nil => rfl
    | cons => cases h
  | cons k keys ih =>
    cases keys' with
    | nil => cases h
    | cons k' keys' =>
      obtain ⟨head, tail⟩ := Key.cons.inj h
      rw [head, ih tail]

/-- Sequences of keys are one if they were read of items that are alike. -/
theorem keys_eq_iff {ε : Type} {f : Value → Except ε Key} {as bs : List Value}
    {keys keys' : List Key} (hk : as.map f = keys.map .ok) (hk' : bs.map f = keys'.map .ok)
    {P : Value → Value → Prop} (each : ∀ v ∈ as, ∀ w ∈ bs, ∀ k k', f v = .ok k → f w = .ok k' →
      (k = k' ↔ P v w)) :
    keys = keys' ↔ as.length = bs.length ∧
      ∀ (i : Nat) v w, as[i]? = some v → bs[i]? = some w → P v w := by
  induction as generalizing bs keys keys' with
  | nil =>
    obtain rfl := List.map_eq_nil_iff.mp hk.symm
    cases bs with
    | nil =>
      obtain rfl := List.map_eq_nil_iff.mp hk'.symm
      simp
    | cons b bs =>
      obtain ⟨k', keys', rfl, -, -⟩ := List.map_eq_cons_iff.mp hk'.symm
      simp
  | cons a as ih =>
    obtain ⟨k, keys, rfl, ha, hk⟩ := List.map_eq_cons_iff.mp hk.symm
    cases bs with
    | nil =>
      obtain rfl := List.map_eq_nil_iff.mp hk'.symm
      simp
    | cons b bs =>
      obtain ⟨k', keys', rfl, hb, hk'⟩ := List.map_eq_cons_iff.mp hk'.symm
      rw [List.cons.injEq, pointwise_cons, List.length_cons, List.length_cons,
        Nat.add_right_cancel_iff, each a List.mem_cons_self b List.mem_cons_self k k' ha.symm hb.symm,
        ih hk.symm hk'.symm fun v hv w hw =>
          each v (List.mem_cons_of_mem _ hv) w (List.mem_cons_of_mem _ hw)]
      exact and_left_comm

/-- Whether two values are the same number or text, or else the same value. -/
def Value.sameScalar (a b : Value) : Bool :=
  match a, b with
  | .str s, .str t => s == t
  | a, b =>
    match a.asInt?, b.asInt? with
    | some m, some n => m == n
    | _, _ => a.isSame b

namespace Heap

variable {h : Heap} {a b : Value} {n fuel : Nat}

theorem alike_iff_of_asInt? {i j : Int64} (ha : a.asInt? = some i) (hb : b.asInt? = some j) :
    h.Alike a b ↔ i = j := by
  constructor
  · intro alike
    cases alike with
    | number ha' hb' =>
      cases ha.symm.trans ha'
      cases hb.symm.trans hb'
      rfl
    | _ => cases ha
  · rintro rfl
    exact .number ha hb

theorem alike_str_iff {s t : String} : h.Alike (.str s) (.str t) ↔ s = t := by
  constructor
  · intro alike
    cases alike with
    | number ha => cases ha
    | str => rfl
  · rintro rfl
    exact .str s

theorem alike_excType_iff {kind kind' : ExceptionKind} :
    h.Alike (.excType kind) (.excType kind') ↔ kind = kind' := by
  constructor
  · intro alike
    cases alike with
    | number ha => cases ha
    | excType => rfl
  · rintro rfl
    exact .excType kind

theorem alike_tuple_iff {r s : Ref} : h.Alike (.tuple r) (.tuple s) ↔
    (h.tuple r).size = (h.tuple s).size ∧
      ∀ (i : Nat) v w, (h.tuple r)[i]? = some v → (h.tuple s)[i]? = some w → h.Alike v w := by
  refine ⟨fun alike => ?_, fun ⟨size, each⟩ => .tuple size each⟩
  cases alike with
  | number ha => cases ha
  | tuple size each => exact ⟨size, each⟩

theorem alike_list_iff {r s : Ref} : h.Alike (.list r) (.list s) ↔
    (h.list r).size = (h.list s).size ∧
      ∀ (i : Nat) v w, (h.list r)[i]? = some v → (h.list s)[i]? = some w → h.Alike v w := by
  refine ⟨fun alike => ?_, fun ⟨size, each⟩ => .list size each⟩
  cases alike with
  | number ha => cases ha
  | list size each => exact ⟨size, each⟩

theorem alike_dict_iff {r s : Ref} : h.Alike (.dict r) (.dict s) ↔
    (∀ k, ((h.dict r).get? k).isSome = ((h.dict s).get? k).isSome) ∧
      ∀ k v w, (h.dict r).get? k = some v → (h.dict s).get? k = some w → h.Alike v w := by
  refine ⟨fun alike => ?_, fun ⟨keys, each⟩ => .dict keys each⟩
  cases alike with
  | number ha => cases ha
  | dict keys each => exact ⟨keys, each⟩

theorem key_of_tuple {r : Ref} {k : Key} (hk : h.keyWithin (fuel + 1) (.tuple r) = .ok k) :
    k = .nil ∨ ∃ head tail, k = .cons head tail := by
  obtain ⟨keys, -, rfl⟩ := keyWithin_tuple.mp hk
  cases keys with
  | nil => exact .inl rfl
  | cons head keys => exact .inr ⟨_, _, rfl⟩

/-- The values are no two containers of one kind. -/
def Apart : Value → Value → Prop
  | .tuple _, .tuple _ | .list _, .list _ | .dict _, .dict _ => False
  | _, _ => True

/-- What two data may be. -/
theorem Data.pair (ha : h.Data a) (hb : h.Data b) :
    (∃ r s, a = .tuple r ∧ b = .tuple s) ∨ (∃ r s, a = .list r ∧ b = .list s) ∨
      (∃ r s, a = .dict r ∧ b = .dict s) ∨ Apart a b := by
  cases ha <;> cases hb <;>
    first
    | exact .inl ⟨_, _, rfl, rfl⟩
    | exact .inr (.inl ⟨_, _, rfl, rfl⟩)
    | exact .inr (.inr (.inl ⟨_, _, rfl, rfl⟩))
    | exact .inr (.inr (.inr trivial))

/-- Data that are apart are compared as scalars. -/
theorem Data.equalWithin_apart (ha : h.Data a) (hb : h.Data b) (apart : Apart a b) (g : Guest)
    (m : Machine) : equalWithin g (fuel + 1) a b m = .ok (a.sameScalar b) m := by
  cases ha <;> cases hb <;>
    first
    | exact apart.elim
    | rfl

theorem Data.alike_apart (ha : h.Data a) (hb : h.Data b) (apart : Apart a b) :
    a.sameScalar b = true ↔ h.Alike a b := by
  cases ha <;> cases hb <;>
    first
    | exact apart.elim
    | exact ⟨fun h => Bool.noConfusion h, fun h => by cases h <;> contradiction⟩
    | rw [alike_iff_of_asInt? rfl rfl]; exact beq_iff_eq
    | rw [alike_str_iff]; exact beq_iff_eq
    | rw [alike_excType_iff]; simp [Value.sameScalar, Value.asInt?, Value.isSame]
    | exact ⟨fun _ => .none, fun _ => rfl⟩

/-- Data that are apart have one key if they are alike, should they have keys. -/
theorem Data.key_apart (ha : h.Data a) (hb : h.Data b) (apart : Apart a b) {k k' : Key}
    (hk : h.keyWithin (fuel + 1) a = .ok k) (hk' : h.keyWithin (fuel + 1) b = .ok k') :
    k = k' ↔ h.Alike a b := by
  have other {k k' : Key} (keys : k ≠ k') (values : h.Alike a b → False) : k = k' ↔ h.Alike a b :=
    ⟨fun same => absurd same keys, fun alike => (values alike).elim⟩
  cases ha <;> cases hb <;>
    first
    | exact apart.elim
    | cases hk; done
    | cases hk'; done
    | cases hk; cases hk'
      first
      | rw [alike_iff_of_asInt? rfl rfl, Key.int.injEq]
      | rw [alike_str_iff, Key.str.injEq]
      | rw [alike_excType_iff, Key.excType.injEq]
      | exact ⟨fun _ => .none, fun _ => rfl⟩
      | exact other nofun fun h => by cases h; contradiction
    | cases hk
      rcases key_of_tuple hk' with rfl | ⟨_, _, rfl⟩ <;>
        exact other nofun fun h => by cases h; contradiction
    | cases hk'
      rcases key_of_tuple hk with rfl | ⟨_, _, rfl⟩ <;>
        exact other nofun fun h => by cases h; contradiction

/-! ### Containers -/

variable {g : Guest} {m : Machine}

theorem equalWithin_tuple (r s : Ref) : equalWithin g (fuel + 1) (.tuple r) (.tuple s) m =
    (if (m.heap.tuple r).size = (m.heap.tuple s).size then
      allEqual (equalWithin g fuel) (m.heap.tuple r).toList (m.heap.tuple s).toList
    else return false : Exec Bool) m := rfl

theorem equalWithin_list (r s : Ref) : equalWithin g (fuel + 1) (.list r) (.list s) m =
    (if r = s then return true
    else if (m.heap.list r).size = (m.heap.list s).size then
      allEqual (equalWithin g fuel) (m.heap.list r).toList (m.heap.list s).toList
    else return false : Exec Bool) m := rfl

theorem equalWithin_dict (r s : Ref) : equalWithin g (fuel + 1) (.dict r) (.dict s) m =
    (if r = s then return true
    else if (m.heap.dict r).size ≠ (m.heap.dict s).size then return false
    else entriesEqual (equalWithin g fuel) (m.heap.dict s) (m.heap.dict r).toList : Exec Bool) m :=
  rfl

/-- Equality decides whether data are alike when it may follow containers as far as they
    nest. -/
theorem Data.equalWithin_decides (ha : m.heap.Data a) (hb : m.heap.Data b)
    (hn : m.heap.Nests n a) (hf : n < fuel) :
    ∃ r, equalWithin g fuel a b m = .ok r m ∧ (r = true ↔ m.heap.Alike a b) := by
  induction fuel generalizing a b n with
  | zero => exact absurd hf (Nat.not_lt_zero n)
  | succ fuel ih =>
    -- what is in the containers is compared with less fuel, and nests less deep
    have inside {v w : Value} (hv : v ∈ m.heap.children a) (hw : w ∈ m.heap.children b) :
        ∃ r, equalWithin g fuel v w m = .ok r m ∧ (r = true ↔ m.heap.Alike v w) := by
      obtain ⟨n', hlt, nests⟩ := hn.child hv
      exact ih (ha.child hv) (hb.child hw) nests (by omega)
    rcases ha.pair hb with ⟨r, s, rfl, rfl⟩ | ⟨r, s, rfl, rfl⟩ | ⟨r, s, rfl, rfl⟩ | apart
    · rw [equalWithin_tuple, alike_tuple_iff]
      exact itemsEqual_decides fun v hv w hw => inside hv hw
    · rw [equalWithin_list]
      split
      · rename_i same
        exact ⟨true, rfl, ⟨fun _ => same ▸ ha.alike_refl, fun _ => rfl⟩⟩
      · rw [alike_list_iff]
        exact itemsEqual_decides fun v hv w hw => inside hv hw
    · rw [equalWithin_dict]
      split
      · rename_i same
        exact ⟨true, rfl, ⟨fun _ => same ▸ ha.alike_refl, fun _ => rfl⟩⟩
      · cases ha with
        | dict holds hashes _ _ =>
        cases hb with
        | dict holds' _ _ _ =>
        rw [alike_dict_iff, ← holds.alike_iff holds']
        split
        · rename_i size
          exact ⟨false, rfl, ⟨fun h => Bool.noConfusion h, fun h => absurd h.1 size⟩⟩
        · rename_i size
          rw [holds.toList_eq]
          obtain ⟨b, run, same⟩ := entriesEqual_decides (P := m.heap.Alike) hashes
            fun e mem w hw => by
              obtain ⟨e', mem', -, rfl⟩ := holds'.get?_iff.mp hw
              exact inside ((mem_children_dict holds).mpr ⟨e, mem, .inr rfl⟩)
                ((mem_children_dict holds').mpr ⟨e', mem', .inr rfl⟩)
          exact ⟨b, run, same.trans (and_iff_right (not_not.mp size)).symm⟩
    · exact ⟨_, ha.equalWithin_apart hb apart g m, ha.alike_apart hb apart⟩

/-- Data have one key if they are alike, should they have keys. -/
theorem Data.keyWithin_decides {n' : Nat} {k k' : Key} (ha : h.Data a) (hb : h.Data b)
    (hn : h.Nests n a) (hn' : h.Nests n' b) (hf : n < fuel) (hf' : n' < fuel)
    (hk : h.keyWithin fuel a = .ok k) (hk' : h.keyWithin fuel b = .ok k') :
    k = k' ↔ h.Alike a b := by
  induction fuel generalizing a b n n' k k' with
  | zero => exact absurd hf (Nat.not_lt_zero n)
  | succ fuel ih =>
    rcases ha.pair hb with ⟨r, s, rfl, rfl⟩ | ⟨r, s, rfl, rfl⟩ | ⟨r, s, rfl, rfl⟩ | apart
    · obtain ⟨keys, read, rfl⟩ := keyWithin_tuple.mp hk
      obtain ⟨keys', read', rfl⟩ := keyWithin_tuple.mp hk'
      have same := keys_eq_iff (P := h.Alike) read read' fun v hv w hw k k' hk hk' => by
        obtain ⟨m, hlt, nests⟩ := hn.child hv
        obtain ⟨m', hlt', nests'⟩ := hn'.child hw
        exact ih (ha.child hv) (hb.child hw) nests nests' (by omega) (by omega) hk hk'
      rw [alike_tuple_iff, Key.tuple_inj, same]
      simp only [Array.getElem?_toList, Array.length_toList]
    · cases hk
    · cases hk
    · exact ha.key_apart hb apart hk hk'

/-! ## Equality and keys -/

/-- Equality of data is decided, and nothing changes. -/
theorem Data.equal_decides (ha : m.heap.Data a) (hb : m.heap.Data b)
    (deep : m.heap.depth < g.fuel) :
    ∃ r, equal g a b m = .ok r m ∧ (r = true ↔ m.heap.Alike a b) := by
  obtain ⟨n, hlt, nests⟩ := ha.nests
  exact ha.equalWithin_decides hb nests (Nat.lt_trans hlt deep)

theorem Data.equal_iff (ha : m.heap.Data a) (hb : m.heap.Data b) (deep : m.heap.depth < g.fuel) :
    equal g a b m = .ok true m ↔ m.heap.Alike a b := by
  obtain ⟨r, run, same⟩ := ha.equal_decides hb deep
  rw [run, ← same]
  exact ⟨fun h => by cases h; rfl, fun h => by rw [h]⟩

theorem Data.key_iff {k k' : Key} (ha : h.Data a) (hb : h.Data b) (hk : h.key a = .ok k)
    (hk' : h.key b = .ok k') : k = k' ↔ h.Alike a b := by
  obtain ⟨n, hlt, nests⟩ := ha.nests
  obtain ⟨n', hlt', nests'⟩ := hb.nests
  exact ha.keyWithin_decides hb nests nests' (Nat.lt_succ_of_lt hlt) (Nat.lt_succ_of_lt hlt') hk hk'

/-- Dictionaries of data are equal if they have the same keys and equal values for them, in
    whatever order. -/
theorem Data.equal_dict_iff {r s : Ref} (hr : m.heap.Data (.dict r)) (hs : m.heap.Data (.dict s))
    (deep : m.heap.depth < g.fuel) : equal g (.dict r) (.dict s) m = .ok true m ↔
      ∀ k, Option.Rel (fun v w => equal g v w m = .ok true m) ((m.heap.dict r).get? k)
        ((m.heap.dict s).get? k) := by
  have value {r : Ref} {k : Key} {v : Value} (hr : m.heap.Data (.dict r))
      (hv : (m.heap.dict r).get? k = some v) : m.heap.Data v := by
    cases hr with
    | dict holds _ _ values =>
      obtain ⟨e, mem, -, rfl⟩ := holds.get?_iff.mp hv
      exact values e mem
  rw [hr.equal_iff hs deep, alike_dict_iff]
  constructor
  · rintro ⟨keys, each⟩ k
    have both := keys k
    cases hv : (m.heap.dict r).get? k with
    | none =>
      cases hw : (m.heap.dict s).get? k with
      | none => exact .none
      | some w =>
        rw [hv, hw] at both
        cases both
    | some v =>
      cases hw : (m.heap.dict s).get? k with
      | none =>
        rw [hv, hw] at both
        cases both
      | some w => exact .some (((value hr hv).equal_iff (value hs hw) deep).mpr (each k v w hv hw))
  · intro all
    have both {R : Value → Value → Prop} {x y : Option Value} (h : Option.Rel R x y) :
        x.isSome = y.isSome := by cases h <;> rfl
    refine ⟨fun k => both (all k), fun k v w hv hw => ?_⟩
    · have both := all k
      rw [hv, hw] at both
      cases both with
      | some same => exact ((value hr hv).equal_iff (value hs hw) deep).mp same

/-- Data has a key if there is no list and no dictionary in it. -/
theorem Data.key_cases (hv : h.Data a) : (h.Hashable a ∧ ∃ k, h.key a = .ok k) ∨
    (¬h.Hashable a ∧ ∃ tag, h.key a = .error tag ∧ (tag = .list ∨ tag = .dict)) := by
  obtain ⟨n, hlt, nests⟩ := hv.nests
  exact hv.keyWithin_cases nests (Nat.lt_succ_of_lt hlt)

end Heap

/-- **Equality of data is an equivalence, and keys agree with it.**  Equality never fails on
    data and is reflexive, symmetric and transitive; dictionaries are equal if they have the
    same keys, in whatever order, and equal values for them.  Data without lists and
    dictionaries in it has a key, which is that of just the data that equals it; a key of any
    other data is refused with a type error. -/
theorem equality_is_equivalence (g : Guest) (m : Machine) (deep : m.heap.depth < g.fuel) :
    (∀ a b, m.heap.Data a → m.heap.Data b → ∃ r, equal g a b m = .ok r m) ∧
    (∀ a, m.heap.Data a → equal g a a m = .ok true m) ∧
    (∀ a b, m.heap.Data a → m.heap.Data b → equal g b a m = equal g a b m) ∧
    (∀ a b c, m.heap.Data a → m.heap.Data b → m.heap.Data c → equal g a b m = .ok true m →
      equal g b c m = .ok true m → equal g a c m = .ok true m) ∧
    (∀ r s, m.heap.Data (.dict r) → m.heap.Data (.dict s) →
      (equal g (.dict r) (.dict s) m = .ok true m ↔
        ∀ k, Option.Rel (fun v w => equal g v w m = .ok true m) ((m.heap.dict r).get? k)
          ((m.heap.dict s).get? k))) ∧
    (∀ a, m.heap.Data a → m.heap.Hashable a →
      ∃ k, m.heap.key a = .ok k ∧ keyOf a m = .ok k m) ∧
    (∀ a b, m.heap.Data a → m.heap.Data b → m.heap.Hashable a → m.heap.Hashable b →
      (m.heap.key a = m.heap.key b ↔ equal g a b m = .ok true m)) ∧
    ∀ a, m.heap.Data a → ¬m.heap.Hashable a → ∃ tag : TypeTag, (tag = .list ∨ tag = .dict) ∧
      keyOf a m = m.raising .typeError [.str s!"unhashable type: '{tag.name}'"] := by
  have key {a : Value} (ha : m.heap.Data a) (hashable : m.heap.Hashable a) :
      ∃ k, m.heap.key a = .ok k :=
    (ha.key_cases.resolve_right fun h => h.1 hashable).2
  refine ⟨fun a b ha hb => ?_, fun a ha => ?_, fun a b ha hb => ?_,
    fun a b c ha hb hc hab hbc => ?_, fun r s hr hs => hr.equal_dict_iff hs deep,
    fun a ha hashable => ?_,
    fun a b ha hb hashable hashable' => ?_, fun a ha unhashable => ?_⟩
  · obtain ⟨r, run, -⟩ := ha.equal_decides hb deep
    exact ⟨r, run⟩
  · exact (ha.equal_iff ha deep).mpr ha.alike_refl
  · obtain ⟨r, run, same⟩ := ha.equal_decides hb deep
    obtain ⟨r', run', same'⟩ := hb.equal_decides ha deep
    have answers : r' = r := by
      rw [Bool.eq_iff_iff, same, same']
      exact ⟨Heap.Alike.symm, Heap.Alike.symm⟩
    rw [run, run', answers]
  · exact (ha.equal_iff hc deep).mpr
      (((ha.equal_iff hb deep).mp hab).trans ((hb.equal_iff hc deep).mp hbc))
  · obtain ⟨k, hk⟩ := key ha hashable
    exact ⟨k, hk, keyOf_ok hk⟩
  · obtain ⟨k, hk⟩ := key ha hashable
    obtain ⟨k', hk'⟩ := key hb hashable'
    rw [ha.equal_iff hb deep, ← ha.key_iff hb hk hk', hk, hk', Except.ok.injEq]
  · obtain ⟨-, tag, refused, kind⟩ := ha.key_cases.resolve_left fun h => unhashable h.1
    exact ⟨tag, kind, keyOf_error refused⟩

/-! ### Two orders of insertion -/

/-- A machine with two dictionaries of the same entries, inserted in two orders under equal
    keys; one of its tuples has a list in it. -/
def Machine.reordering : Machine where
  config := {}
  heap :=
    { tuples := #[#[.int 1, .str "a"], #[.bool true, .str "a"], #[.list 0]], lists := #[#[.none]]
      dicts := #[
        (({} : Dict).insert (.str "x") (.str "x") (.tuple 0)).insert (.int 1) (.int 1) .none,
        (({} : Dict).insert (.int 1) (.bool true) .none).insert (.str "x") (.str "x") (.tuple 1)] }
  globals := 0
  builtins := 0
  bailError := false
  control := .never
  timer := .new 1 false

theorem equality_is_equivalence_of_reordering :
    Machine.reordering.heap.depth < (guestWithin 9).fuel ∧
    equal (guestWithin 9) (.dict 0) (.dict 1) .reordering = .ok true .reordering ∧
    Machine.reordering.heap.key (.tuple 0) = Machine.reordering.heap.key (.tuple 1) ∧
    ∃ tag : TypeTag, (tag = .list ∨ tag = .dict) ∧ keyOf (.tuple 2) .reordering =
      Machine.reordering.raising .typeError [.str s!"unhashable type: '{tag.name}'"] := by
  have deep : Machine.reordering.heap.depth < (guestWithin 9).fuel := by decide
  obtain ⟨-, -, -, -, dicts, -, keys, refused⟩ := equality_is_equivalence _ _ deep
  have items {P : Value → Prop} {x y : Value} (hx : P x) (hy : P y) : ∀ v ∈ #[x, y], P v := by
    simp [hx, hy]
  have tuple₀ : Machine.reordering.heap.Data (.tuple 0) := .tuple (items (.int 1) (.str "a"))
  have tuple₁ : Machine.reordering.heap.Data (.tuple 1) := .tuple (items (.bool true) (.str "a"))
  have tuple₂ : Machine.reordering.heap.Data (.tuple 2) := by
    refine .tuple (r := 2) fun v hv => ?_
    obtain rfl : v = .list 0 := Array.mem_singleton.mp hv
    refine .list (r := 0) fun v hv => ?_
    obtain rfl : v = .none := Array.mem_singleton.mp hv
    exact .none
  have single {v : Value} (tag : v.tag ≠ .tuple ∧ v.tag ≠ .list ∧ v.tag ≠ .dict) :
      Machine.reordering.heap.Hashable v := fun w hw => hw.eq_self tag.1 ▸ tag.2
  have flat₀ : Machine.reordering.heap.Hashable (.tuple 0) :=
    Heap.hashable_tuple.mpr (items (single (by decide)) (single (by decide)))
  have flat₁ : Machine.reordering.heap.Hashable (.tuple 1) :=
    Heap.hashable_tuple.mpr (items (single (by decide)) (single (by decide)))
  have deepList : ¬Machine.reordering.heap.Hashable (.tuple 2) := fun all =>
    (all (.list 0) (.tuple (r := 2) (Array.mem_singleton.mpr rfl) .self)).1 rfl
  have same : Machine.reordering.heap.key (.tuple 0) = Machine.reordering.heap.key (.tuple 1) := rfl
  have holds₀ : (Machine.reordering.heap.dict 0).Holds
      [⟨.str "x", .str "x", .tuple 0⟩, ⟨.int 1, .int 1, .none⟩] := Dict.Holds.empty.insert.insert
  have holds₁ : (Machine.reordering.heap.dict 1).Holds
      [⟨.int 1, .bool true, .none⟩, ⟨.str "x", .str "x", .tuple 1⟩] :=
    Dict.Holds.empty.insert.insert
  have dict₀ : Machine.reordering.heap.Data (.dict 0) :=
    .dict holds₀ (by simp [Heap.key, Heap.keyWithin]) (by simp [Heap.Data.str, Heap.Data.int])
      (by simp [tuple₀, Heap.Data.none])
  have dict₁ : Machine.reordering.heap.Data (.dict 1) :=
    .dict holds₁ (by simp [Heap.key, Heap.keyWithin]) (by simp [Heap.Data.str, Heap.Data.bool])
      (by simp [tuple₁, Heap.Data.none])
  have alike₀ := (keys _ _ tuple₀ tuple₁ flat₀ flat₁).mp same
  refine ⟨deep, (dicts 0 1 dict₀ dict₁).mpr fun k => ?_, same, refused _ tuple₂ deepList⟩
  rw [holds₀.get?_eq, holds₁.get?_eq]
  by_cases hx : k = .str "x"
  · subst hx
    exact .some alike₀
  · by_cases h1 : k = .int 1
    · subst h1
      exact .some ((keys _ _ .none .none (single (by decide)) (single (by decide))).mp rfl)
    · simp only [Item.value?, List.find?, Ne.symm hx, Ne.symm h1, decide_false]
      exact .none

end TieredMachine
