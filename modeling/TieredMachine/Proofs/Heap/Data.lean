/-
  Values that are plain data.

  Data are scalars and the tuples, lists and dictionaries of data.  They are built from the
  inside out, so none contains itself, and no chain of containers in each other is longer
  than there are containers: each step inwards is to a container of a lower rank.

  * `Heap.Data`: data, the keys of its dictionaries being found by what they are compared by;
  * `Heap.Nests`, `Heap.Rank`: how deep containers are in each other;
  * `Heap.Data.nests`: less deep than the heap's bound;
  * `Heap.Hashable`, `Heap.Data.keyWithin_cases`: data that can be a key, and data that cannot.
-/
import TieredMachine.Proofs.Heap.Dict
import TieredMachine.Proofs.Code.Unit
import Mathlib.Data.List.Perm.Subperm
import Mathlib.Data.Nat.Find

namespace TieredMachine

/-! ## Data -/

/-- Data: scalars, and the containers of data.  A dictionary has its items under what their
    key objects are compared by. -/
inductive Heap.Data (h : Heap) : Value → Prop
  | none : Data h .none
  | bool (b : Bool) : Data h (.bool b)
  | int (n : Int64) : Data h (.int n)
  | str (s : String) : Data h (.str s)
  | excType (kind : ExceptionKind) : Data h (.excType kind)
  | tuple {r} : (∀ v ∈ h.tuple r, Data h v) → Data h (.tuple r)
  | list {r} : (∀ v ∈ h.list r, Data h v) → Data h (.list r)
  | dict {r l} : (h.dict r).Holds l → (∀ e ∈ l, h.key e.key = .ok e.hash) →
      (∀ e ∈ l, Data h e.key) → (∀ e ∈ l, Data h e.value) → Data h (.dict r)

namespace Heap

variable (h : Heap)

/-! ## Nesting -/

/-- The values in a container. -/
def children : Value → List Value
  | .tuple r => (h.tuple r).toList
  | .list r => (h.list r).toList
  | .dict r => (h.dict r).toList.flatMap fun p => [p.1, p.2]
  | _ => []

/-- At most `n` containers that are not empty are in each other. -/
def Nests : Nat → Value → Prop
  | 0, v => h.children v = []
  | n + 1, v => ∀ w ∈ h.children v, Nests n w

/-- Just `n` containers that are not empty are in each other. -/
def Rank (n : Nat) (v : Value) : Prop := h.Nests n v ∧ ∀ m < n, ¬h.Nests m v

/-- The containers of the heap. -/
def containers : List Value :=
  (List.range h.tuples.size).map .tuple ++ (List.range h.lists.size).map .list ++
    (List.range h.dicts.size).map .dict

variable {h} {v w : Value} {n m : Nat}

theorem Nests.succ (hv : h.Nests n v) : h.Nests (n + 1) v := by
  induction n generalizing v with
  | zero =>
    intro w hw
    rw [Nests] at hv
    rw [hv] at hw
    exact absurd hw List.not_mem_nil
  | succ n ih => exact fun w hw => ih (hv w hw)

theorem Nests.mono (hv : h.Nests n v) (hle : n ≤ m) : h.Nests m v := by
  induction hle with
  | refl => exact hv
  | step _ ih => exact ih.succ

/-- What is in a container nests less deep. -/
theorem Nests.child (hv : h.Nests n v) (hw : w ∈ h.children v) : ∃ m < n, h.Nests m w := by
  cases n with
  | zero =>
    rw [Nests] at hv
    rw [hv] at hw
    exact absurd hw List.not_mem_nil
  | succ n => exact ⟨n, Nat.lt_succ_self n, hv w hw⟩

theorem Nests.exists_rank (hv : h.Nests n v) : ∃ m, h.Rank m v := by
  classical
  have some : ∃ n, h.Nests n v := ⟨n, hv⟩
  exact ⟨Nat.find some, Nat.find_spec some, fun m hm => Nat.find_min some hm⟩

/-- A rank above zero is that of a container with something of the rank below in it. -/
theorem Rank.child (hv : h.Rank (n + 1) v) : ∃ w ∈ h.children v, h.Rank n w := by
  obtain ⟨nests, least⟩ := hv
  by_contra none
  refine least n (Nat.lt_succ_self n) ?_
  cases n with
  | zero =>
    refine List.eq_nil_iff_forall_not_mem.mpr fun w hw => none ⟨w, hw, nests w hw, nofun⟩
  | succ n =>
    intro w hw
    by_contra deep
    exact none ⟨w, hw, nests w hw, fun m hm hw => deep (hw.mono (Nat.le_of_lt_succ hm))⟩

theorem Rank.unique (hv : h.Rank n v) (hv' : h.Rank m v) : n = m :=
  Nat.le_antisymm (Nat.le_of_not_lt fun hlt => hv.2 m hlt hv'.1)
    (Nat.le_of_not_lt fun hlt => hv'.2 n hlt hv.1)

/-- A container with something in it is in the heap. -/
theorem mem_containers (hw : w ∈ h.children v) : v ∈ h.containers := by
  have inTable {α : Type} [Inhabited α] {table : Array α} {r : Ref} {a : α}
      (ha : table[r]?.getD a ≠ a) : r < table.size := by
    by_contra outside
    exact ha (by rw [Array.getElem?_eq_none (Nat.le_of_not_lt outside), Option.getD_none])
  simp only [containers, List.mem_append, List.mem_map, List.mem_range]
  cases v with
  | tuple r =>
    refine .inl (.inl ⟨r, inTable (a := #[]) fun empty => ?_, rfl⟩)
    rw [children, tuple, empty] at hw
    exact absurd hw List.not_mem_nil
  | list r =>
    refine .inl (.inr ⟨r, inTable (a := #[]) fun empty => ?_, rfl⟩)
    rw [children, list, empty] at hw
    exact absurd hw List.not_mem_nil
  | dict r =>
    refine .inr ⟨r, inTable (a := {}) fun empty => ?_, rfl⟩
    rw [children, dict, empty] at hw
    exact absurd hw List.not_mem_nil
  | _ => exact absurd hw List.not_mem_nil

/-- As many different containers as the rank says are in each other. -/
theorem Rank.chain (hv : h.Rank n v) : ∃ l : List Value, l.length = n ∧ l.Nodup ∧
    ∀ c ∈ l, c ∈ h.containers ∧ ∃ m ≤ n, h.Rank m c := by
  induction n generalizing v with
  | zero => exact ⟨[], rfl, .nil, fun c hc => absurd hc List.not_mem_nil⟩
  | succ n ih =>
    obtain ⟨w, hw, rank⟩ := hv.child
    obtain ⟨l, length, nodup, all⟩ := ih rank
    refine ⟨v :: l, congrArg Nat.succ length, List.nodup_cons.mpr ⟨fun mem => ?_, nodup⟩,
      List.forall_mem_cons.mpr ⟨⟨mem_containers hw, n + 1, Nat.le_refl _, hv⟩, fun c hc => ?_⟩⟩
    · obtain ⟨-, m, hle, rank'⟩ := all v mem
      exact absurd (hv.unique rank') (Nat.ne_of_gt (Nat.lt_succ_of_le hle))
    · obtain ⟨mem, m, hle, rank'⟩ := all c hc
      exact ⟨mem, m, Nat.le_succ_of_le hle, rank'⟩

theorem length_containers_lt (h : Heap) : h.containers.length < h.depth := by
  simp only [containers, List.length_append, List.length_map, List.length_range, depth]
  omega

theorem Rank.lt_depth (hv : h.Rank n v) : n < h.depth := by
  obtain ⟨l, rfl, nodup, all⟩ := hv.chain
  exact Nat.lt_of_le_of_lt
    (nodup.subperm fun c hc => (all c hc).1).length_le h.length_containers_lt

/-- Values that each nest somehow deep all nest as deep as the deepest. -/
theorem exists_nests {l : List Value} (each : ∀ v ∈ l, ∃ n, h.Nests n v) :
    ∃ n, ∀ v ∈ l, h.Nests n v := by
  induction l with
  | nil => exact ⟨0, fun v hv => absurd hv List.not_mem_nil⟩
  | cons v l ih =>
    obtain ⟨⟨n, hn⟩, rest⟩ := List.forall_mem_cons.mp each
    obtain ⟨m, hm⟩ := ih rest
    exact ⟨max n m, List.forall_mem_cons.mpr ⟨hn.mono (Nat.le_max_left ..),
      fun w hw => (hm w hw).mono (Nat.le_max_right ..)⟩⟩

theorem exists_nests_of_children (each : ∀ w ∈ h.children v, ∃ n, h.Nests n w) :
    ∃ n, h.Nests n v := by
  obtain ⟨n, all⟩ := exists_nests each
  exact ⟨n + 1, all⟩

/-- What nests somehow deep nests less deep than the heap's bound says. -/
theorem Nests.lt_depth (hv : h.Nests n v) : ∃ m < h.depth, h.Nests m v := by
  obtain ⟨m, rank⟩ := hv.exists_rank
  exact ⟨m, rank.lt_depth, rank.1⟩

/-- What is in the dictionary's items is in the dictionary. -/
theorem mem_children_dict {r : Ref} {l : List Item} (hd : (h.dict r).Holds l) :
    v ∈ h.children (.dict r) ↔ ∃ e ∈ l, v = e.key ∨ v = e.value := by
  rw [children, hd.toList_eq, List.flatMap_map]
  simp [Item.pair]

namespace Data

theorem child (hv : h.Data v) (hw : w ∈ h.children v) : h.Data w := by
  cases hv with
  | tuple items => exact items w (Array.mem_def.mpr hw)
  | list items => exact items w (Array.mem_def.mpr hw)
  | dict holds _ keys values =>
    obtain ⟨e, he, rfl | rfl⟩ := (mem_children_dict holds).mp hw
    · exact keys e he
    · exact values e he
  | _ => exact absurd hw List.not_mem_nil

/-- Data nests less deep than the heap's bound says. -/
theorem nests (hv : h.Data v) : ∃ n < h.depth, h.Nests n v := by
  have some : ∃ n, h.Nests n v := by
    induction hv with
    | tuple _ ih => exact exists_nests_of_children fun w hw => ih w (Array.mem_def.mpr hw)
    | list _ ih => exact exists_nests_of_children fun w hw => ih w (Array.mem_def.mpr hw)
    | dict holds _ _ _ keys values =>
      refine exists_nests_of_children fun w hw => ?_
      obtain ⟨e, he, rfl | rfl⟩ := (mem_children_dict holds).mp hw
      · exact keys e he
      · exact values e he
    | _ => exact ⟨0, rfl⟩
  obtain ⟨n, hn⟩ := some
  exact hn.lt_depth

end Data

/-! ## Keys -/

variable (h) in
/-- The value is there, perhaps inside of tuples. -/
inductive Inside (w : Value) : Value → Prop
  | self : Inside w w
  | tuple {r v} : v ∈ h.tuple r → Inside w v → Inside w (.tuple r)

variable (h) in
/-- There is no list and no dictionary in the value. -/
def Hashable (v : Value) : Prop := ∀ w, h.Inside w v → w.tag ≠ .list ∧ w.tag ≠ .dict

theorem hashable_tuple {r : Ref} : h.Hashable (.tuple r) ↔ ∀ v ∈ h.tuple r, h.Hashable v := by
  refine ⟨fun all v hv w hw => all w (.tuple hv hw), fun each w hw => ?_⟩
  cases hw with
  | self => exact ⟨nofun, nofun⟩
  | tuple hv hw => exact each _ hv w hw

/-- A value that is no tuple has only itself in it. -/
theorem Inside.eq_self (hw : h.Inside w v) (single : v.tag ≠ .tuple) : w = v := by
  cases hw with
  | self => rfl
  | tuple => exact absurd rfl single

end Heap

/-- What is read of every item of a list is read of the list. -/
theorem mapM_ok_iff {ε α β : Type} {f : α → Except ε β} {as : List α} {bs : List β} :
    as.mapM f = .ok bs ↔ as.map f = bs.map .ok := by
  induction as generalizing bs with
  | nil =>
    rw [List.mapM_nil]
    cases bs <;> simp [pure, Except.pure]
  | cons a as ih =>
    rw [List.mapM_cons]
    constructor
    · intro h
      obtain ⟨b, hb, h⟩ := except_bind_ok.mp h
      obtain ⟨bs', hbs, h⟩ := except_bind_ok.mp h
      cases h
      rw [List.map_cons, hb, ih.mp hbs]
      rfl
    · cases bs with
      | nil => exact nofun
      | cons b bs =>
        intro h
        obtain ⟨hb, hbs⟩ := List.cons.inj h
        exact except_bind_ok.mpr ⟨b, hb, except_bind_ok.mpr ⟨bs, ih.mpr hbs, rfl⟩⟩

theorem exists_map_ok {ε α β : Type} {f : α → Except ε β} {as : List α}
    (each : ∀ a ∈ as, ∃ b, f a = .ok b) : ∃ bs : List β, as.map f = bs.map .ok := by
  induction as with
  | nil => exact ⟨[], rfl⟩
  | cons a as ih =>
    obtain ⟨⟨b, hb⟩, rest⟩ := List.forall_mem_cons.mp each
    obtain ⟨bs, hbs⟩ := ih rest
    exact ⟨b :: bs, congrArg₂ List.cons hb hbs⟩

/-- A list with an item of which nothing is read fails as one of these items does. -/
theorem mapM_error {ε α β : Type} {P : ε → Prop} {f : α → Except ε β} {as : List α}
    (each : ∀ a ∈ as, ∀ e, f a = .error e → P e) (some : ∃ a ∈ as, ∃ e, f a = .error e) :
    ∃ e, as.mapM f = .error e ∧ P e := by
  induction as with
  | nil => exact absurd some (by simp)
  | cons a as ih =>
    rw [List.mapM_cons]
    cases ha : f a with
    | error e => exact ⟨e, rfl, each a List.mem_cons_self e ha⟩
    | ok b =>
      obtain ⟨a', mem, e', he'⟩ := some
      have later : a' ∈ as := (List.mem_cons.mp mem).resolve_left fun same => by
        rw [same, ha] at he'
        cases he'
      obtain ⟨e, he, holds⟩ :=
        ih (fun a ha => each a (List.mem_cons_of_mem _ ha)) ⟨a', later, e', he'⟩
      refine ⟨e, ?_, holds⟩
      rw [he]
      rfl

namespace Heap

variable {h : Heap} {v : Value} {n fuel : Nat} {r : Ref} {k : Key}

theorem keyWithin_tuple : h.keyWithin (fuel + 1) (.tuple r) = .ok k ↔
    ∃ keys : List Key, (h.tuple r).toList.map (h.keyWithin fuel) = keys.map .ok ∧
      keys.foldr .cons .nil = k := by
  show ((h.tuple r).toList.mapM (h.keyWithin fuel) >>= fun keys =>
    (pure (keys.foldr .cons .nil) : Except TypeTag Key)) = .ok k ↔ _
  rw [except_bind_ok]
  exact exists_congr fun keys => and_congr mapM_ok_iff (by simp [pure, Except.pure])

/-- Data can be a key if no list and no dictionary is in it; the key of any other data is
    refused for one of these. -/
theorem Data.keyWithin_cases (hv : h.Data v) (hn : h.Nests n v) (hf : n < fuel) :
    (h.Hashable v ∧ ∃ k, h.keyWithin fuel v = .ok k) ∨
      (¬h.Hashable v ∧ ∃ tag, h.keyWithin fuel v = .error tag ∧ (tag = .list ∨ tag = .dict)) := by
  induction fuel generalizing v n with
  | zero => exact absurd hf (Nat.not_lt_zero n)
  | succ fuel ih =>
    have scalar {v : Value} (single : v.tag ≠ .tuple ∧ v.tag ≠ .list ∧ v.tag ≠ .dict) :
        h.Hashable v := fun w hw => hw.eq_self single.1 ▸ single.2
    cases hv with
    | none | bool | int | str | excType => exact .inl ⟨scalar ⟨nofun, nofun, nofun⟩, _, rfl⟩
    | list => exact .inr ⟨fun all => (all _ .self).1 rfl, _, rfl, .inl rfl⟩
    | dict => exact .inr ⟨fun all => (all _ .self).2 rfl, _, rfl, .inr rfl⟩
    | @tuple r items =>
      have each (v : Value) (mem : v ∈ (h.tuple r).toList) :
          (h.Hashable v ∧ ∃ k, h.keyWithin fuel v = .ok k) ∨
            (¬h.Hashable v ∧ ∃ tag, h.keyWithin fuel v = .error tag ∧
              (tag = .list ∨ tag = .dict)) := by
        obtain ⟨m, hm, nests⟩ := hn.child mem
        exact ih (items v (Array.mem_def.mpr mem)) nests (by omega)
      rw [hashable_tuple]
      by_cases all : ∀ v ∈ h.tuple r, h.Hashable v
      · obtain ⟨keys, hkeys⟩ := exists_map_ok (f := h.keyWithin fuel) fun v mem =>
          (((each v mem).resolve_right fun h => h.1 (all v (Array.mem_def.mpr mem))).2)
        exact .inl ⟨all, _, keyWithin_tuple.mpr ⟨keys, hkeys, rfl⟩⟩
      · obtain ⟨tag, refused, kind⟩ : ∃ tag, (h.tuple r).toList.mapM (h.keyWithin fuel) =
            .error tag ∧ (tag = .list ∨ tag = .dict) := by
          refine mapM_error (fun v mem tag refused => ?_) ?_
          · rcases each v mem with ⟨-, k, hk⟩ | ⟨-, tag', refused', kind⟩
            · cases hk.symm.trans refused
            · cases refused'.symm.trans refused
              exact kind
          · obtain ⟨v, some⟩ := not_forall.mp all
            obtain ⟨mem, bad⟩ := not_forall.mp some
            have mem := Array.mem_def.mp mem
            obtain ⟨-, tag, refused, -⟩ := (each v mem).resolve_left fun h => bad h.1
            exact ⟨v, mem, tag, refused⟩
        refine .inr ⟨all, tag, ?_, kind⟩
        show ((h.tuple r).toList.mapM (h.keyWithin fuel) >>= fun keys =>
          (pure (keys.foldr .cons .nil) : Except TypeTag Key)) = _
        rw [refused]
        rfl

end Heap

end TieredMachine
