/-
  The order of data.

  Numbers and texts have orders of their own.  Of two sequences of one kind the first items
  that are not alike decide, or else the lengths.  What comes first is told of whole lists of
  values, since that of two values is that of the lists of just them: so what is inside of a
  value and what follows it are compared in one way.

  * `Value.order?`: the order of two numbers or of two texts;
  * `Heap.Precedes`, `Heap.Precedes.trans`, `Heap.Precedes.congr_left`: what comes first;
  * `Heap.Ranked`, `Heap.Ranked.trans`, `Heap.Ranked.unique`: the order of two values.
-/
import TieredMachine.Proofs.Heap.Equality

namespace TieredMachine

/-! ## Numbers and texts -/

/-- The order of two numbers or of two texts. -/
def Value.order? (a b : Value) : Option Ordering :=
  match a, b with
  | .str s, .str t => some (Ord.compare s t)
  | a, b =>
    match a.asInt?, b.asInt? with
    | some m, some n => some (Ord.compare m n)
    | _, _ => Option.none

namespace Value

variable {a b c : Value} {o o' : Ordering}

theorem order?_eq_some_iff : a.order? b = some o ↔
    (∃ m n, a.asInt? = some m ∧ b.asInt? = some n ∧ Ord.compare m n = o) ∨
      ∃ s t, a = .str s ∧ b = .str t ∧ Ord.compare s t = o := by
  unfold order?
  split
  · simp [asInt?]
  · rename_i texts
    split
    · rename_i m n ha hb
      rw [ha, hb, Option.some.injEq]
      constructor
      · exact fun ho => .inl ⟨m, n, rfl, rfl, ho⟩
      · rintro (⟨m, n, hm, hn, ho⟩ | ⟨s, t, rfl, rfl, -⟩)
        · cases hm
          cases hn
          exact ho
        · exact (texts s t rfl rfl).elim
    · rename_i numbers
      refine ⟨fun h => (Option.some_ne_none o h.symm).elim, ?_⟩
      rintro (⟨m, n, hm, hn, -⟩ | ⟨s, t, rfl, rfl, -⟩)
      · exact (numbers m n hm hn).elim
      · exact (texts s t rfl rfl).elim

theorem order?_swap (h : a.order? b = some o) : b.order? a = some o.swap := by
  rw [order?_eq_some_iff] at h ⊢
  rcases h with ⟨m, n, ha, hb, rfl⟩ | ⟨s, t, rfl, rfl, rfl⟩
  · exact .inl ⟨n, m, hb, ha, Std.OrientedCmp.eq_swap⟩
  · exact .inr ⟨t, s, rfl, rfl, Std.OrientedCmp.eq_swap⟩

theorem order?_trans (h : a.order? b = some .lt) (h' : b.order? c = some .lt) :
    a.order? c = some .lt := by
  rw [order?_eq_some_iff] at h h' ⊢
  rcases h with ⟨m, n, ha, hb, lt⟩ | ⟨s, t, rfl, rfl, lt⟩
  · rcases h' with ⟨n', k, hb', hc, lt'⟩ | ⟨s, t, rfl, -⟩
    · cases hb.symm.trans hb'
      exact .inl ⟨m, k, ha, hc, Std.TransCmp.lt_trans lt lt'⟩
    · cases hb
  · rcases h' with ⟨n', k, hb', -⟩ | ⟨t', u, same, rfl, lt'⟩
    · cases hb'
    · cases same
      exact .inr ⟨s, u, rfl, rfl, Std.TransCmp.lt_trans lt lt'⟩

end Value

/-! ## Sequences -/

namespace Heap

variable {h : Heap} {a b c : Value} {tag : TypeTag} {as bs cs xs ys : List Value}

variable (h) in
/-- What kind of sequence a value is, and its items. -/
def sequence? : Value → Option (TypeTag × List Value)
  | .tuple r => some (.tuple, (h.tuple r).toList)
  | .list r => some (.list, (h.list r).toList)
  | _ => none

theorem sequence?_children (ha : h.sequence? a = some (tag, xs)) : h.children a = xs := by
  cases a with
  | tuple r | list r =>
    cases ha
    rfl
  | _ => cases ha

/-- A sequence is no number and no text. -/
theorem order?_of_sequence (ha : h.sequence? a = some (tag, xs)) (b : Value) :
    a.order? b = none ∧ b.order? a = none := by
  cases a with
  | tuple r | list r => cases b <;> exact ⟨rfl, rfl⟩
  | _ => cases ha

/-- Lists of alike values, as their places say. -/
theorem alikes_iff : List.Forall₂ h.Alike as bs ↔ as.length = bs.length ∧
    ∀ (i : Nat) v w, as[i]? = some v → bs[i]? = some w → h.Alike v w := by
  induction as generalizing bs with
  | nil => cases bs <;> simp
  | cons a as ih =>
    cases bs with
    | nil => simp
    | cons b bs =>
      rw [List.forall₂_cons, ih, pointwise_cons, List.length_cons, List.length_cons,
        Nat.add_right_cancel_iff]
      exact and_left_comm

theorem alike_sequence_iff (ha : h.sequence? a = some (tag, xs))
    (hb : h.sequence? b = some (tag, ys)) : h.Alike a b ↔ List.Forall₂ h.Alike xs ys := by
  cases a with
  | tuple r =>
    cases ha
    cases b with
    | tuple s =>
      cases hb
      rw [alike_tuple_iff, alikes_iff]
      simp
    | _ => cases hb
  | list r =>
    cases ha
    cases b with
    | list s =>
      cases hb
      rw [alike_list_iff, alikes_iff]
      simp
    | _ => cases hb
  | _ => cases ha

namespace Alike

theorem asInt?_eq (hab : h.Alike a b) : a.asInt? = b.asInt? := by
  cases hab with
  | number ha hb => exact ha.trans hb.symm
  | _ => rfl

theorem eq_str {s : String} (hab : h.Alike (.str s) b) : b = .str s := by
  cases hab with
  | number ha => cases ha
  | str => rfl

/-- Alike values are ordered alike. -/
theorem order? {o : Ordering} (hab : h.Alike a b) (hbc : b.order? c = some o) :
    a.order? c = some o := by
  rw [Value.order?_eq_some_iff] at hbc ⊢
  rcases hbc with ⟨m, n, hb, hc, ho⟩ | ⟨s, t, rfl, rfl, ho⟩
  · exact .inl ⟨m, n, hab.asInt?_eq.trans hb, hc, ho⟩
  · exact .inr ⟨s, t, hab.symm.eq_str, rfl, ho⟩

theorem order?_right {o : Ordering} (hab : h.Alike a b) (hca : c.order? a = some o) :
    c.order? b = some o :=
  o.swap_swap ▸ Value.order?_swap (hab.symm.order? (Value.order?_swap hca))

/-- Alike numbers and alike texts are equal. -/
theorem eq_of_order? {o : Ordering} (hab : h.Alike a b) (ho : a.order? b = some o) : o = .eq := by
  rw [Value.order?_eq_some_iff] at ho
  rcases ho with ⟨m, n, ha, hb, rfl⟩ | ⟨s, t, rfl, rfl, rfl⟩
  · cases (ha.symm.trans hab.asInt?_eq).trans hb
    exact Std.ReflCmp.compare_self
  · cases hab.eq_str
    exact Std.ReflCmp.compare_self

/-- What is alike to a sequence is a sequence of that kind, with alike items. -/
theorem sequence (hab : h.Alike a b) (ha : h.sequence? a = some (tag, xs)) :
    ∃ ys, h.sequence? b = some (tag, ys) ∧ List.Forall₂ h.Alike xs ys := by
  have some : ∃ ys, h.sequence? b = some (tag, ys) := by
    cases hab with
    | number hn =>
      cases a with
      | tuple | list => cases hn
      | _ => cases ha
    | tuple | list =>
      cases ha
      exact ⟨_, rfl⟩
    | _ => cases ha
  obtain ⟨ys, hb⟩ := some
  exact ⟨ys, hb, (alike_sequence_iff ha hb).mp hab⟩

end Alike

theorem alikes_symm (same : List.Forall₂ h.Alike as bs) : List.Forall₂ h.Alike bs as :=
  same.flip.imp fun _ _ hab => hab.symm

theorem alikes_refl (data : ∀ v ∈ as, h.Data v) : List.Forall₂ h.Alike as as :=
  List.forall₂_same.mpr fun v hv => (data v hv).alike_refl

/-! ## What comes first -/

/-- The first list comes before the other one: it ends first, or a value of it comes before
    the other's while those in front are alike. -/
inductive Precedes (h : Heap) : List Value → List Value → Prop
  | ended (b : Value) (bs : List Value) : Precedes h [] (b :: bs)
  | alike {a b : Value} {as bs : List Value} : h.Alike a b → Precedes h as bs →
      Precedes h (a :: as) (b :: bs)
  | scalar {a b : Value} {as bs : List Value} : a.order? b = some .lt →
      Precedes h (a :: as) (b :: bs)
  | inside {a b : Value} {tag : TypeTag} {xs ys as bs : List Value} :
      h.sequence? a = some (tag, xs) → h.sequence? b = some (tag, ys) → Precedes h xs ys →
      Precedes h (a :: as) (b :: bs)

namespace Precedes

theorem congr_left (hab : h.Precedes as bs) {as' : List Value}
    (same : List.Forall₂ h.Alike as' as) : h.Precedes as' bs := by
  induction hab generalizing as' with
  | ended =>
    cases same
    exact .ended ..
  | alike first _ ih =>
    cases same with
    | cons head tail => exact .alike (head.trans first) (ih tail)
  | scalar lt =>
    cases same with
    | cons head _ => exact .scalar (head.order? lt)
  | inside ha hb _ ih =>
    cases same with
    | cons head _ =>
      obtain ⟨xs', ha', items⟩ := head.symm.sequence ha
      exact .inside ha' hb (ih (alikes_symm items))

theorem congr_right (hab : h.Precedes as bs) {bs' : List Value}
    (same : List.Forall₂ h.Alike bs bs') : h.Precedes as bs' := by
  induction hab generalizing bs' with
  | ended =>
    cases same
    exact .ended ..
  | alike first _ ih =>
    cases same with
    | cons head tail => exact .alike (first.trans head) (ih tail)
  | scalar lt =>
    cases same with
    | cons head _ => exact .scalar (head.order?_right lt)
  | inside ha hb _ ih =>
    cases same with
    | cons head _ =>
      obtain ⟨ys', hb', items⟩ := head.sequence hb
      exact .inside ha hb' (ih items)

/-- Where the first of two lists differs from the one in the middle, or that from the last
    one, whichever is in front, the first one comes before the last one. -/
theorem trans (hab : h.Precedes as bs) (hbc : h.Precedes bs cs) : h.Precedes as cs := by
  induction hab generalizing cs with
  | ended => cases hbc <;> exact .ended ..
  | alike first _ ih =>
    cases hbc with
    | alike second rest => exact .alike (first.trans second) (ih rest)
    | scalar lt => exact .scalar (first.order? lt)
    | inside hb hc items =>
      obtain ⟨xs, ha, same⟩ := first.symm.sequence hb
      exact .inside ha hc (items.congr_left (alikes_symm same))
  | scalar lt =>
    cases hbc with
    | alike second _ => exact .scalar (second.order?_right lt)
    | scalar lt' => exact .scalar (Value.order?_trans lt lt')
    | inside hb => cases ((order?_of_sequence hb _).2).symm.trans lt
  | inside ha hb items ih =>
    cases hbc with
    | alike second _ =>
      obtain ⟨zs, hc, same⟩ := second.sequence hb
      exact .inside ha hc (items.congr_right same)
    | scalar lt => cases ((order?_of_sequence hb _).1).symm.trans lt
    | inside hb' hc items' =>
      cases hb.symm.trans hb'
      exact .inside ha hc (ih items')

/-- What comes first is not alike. -/
theorem not_alikes (hab : h.Precedes as bs) : ¬List.Forall₂ h.Alike as bs := by
  induction hab with
  | ended => exact nofun
  | alike _ _ ih =>
    intro same
    cases same with
    | cons _ tail => exact ih tail
  | scalar lt =>
    intro same
    cases same with
    | cons head _ => cases head.eq_of_order? lt
  | inside ha hb _ ih =>
    intro same
    cases same with
    | cons head _ => exact ih ((alike_sequence_iff ha hb).mp head)

theorem asymm (data : ∀ v ∈ as, h.Data v) (hab : h.Precedes as bs) : ¬h.Precedes bs as :=
  fun hba => (hab.trans hba).not_alikes (alikes_refl data)

/-- Behind alike values the rest decides. -/
theorem cons_iff_of_alike (first : h.Alike a b) :
    h.Precedes (a :: as) (b :: bs) ↔ h.Precedes as bs := by
  refine ⟨fun hab => ?_, .alike first⟩
  cases hab with
  | alike _ rest => exact rest
  | scalar lt => cases first.eq_of_order? lt
  | inside ha hb items => exact absurd ((alike_sequence_iff ha hb).mp first) items.not_alikes

/-- Where the first values are not alike they decide. -/
theorem cons_iff_of_not_alike (first : ¬h.Alike a b) :
    h.Precedes (a :: as) (b :: bs) ↔ h.Precedes [a] [b] := by
  constructor <;> intro hab <;>
    cases hab with
    | alike same _ => exact absurd same first
    | scalar lt => exact .scalar lt
    | inside ha hb items => exact .inside ha hb items

theorem single_iff (ha : h.sequence? a = some (tag, xs)) (hb : h.sequence? b = some (tag, ys)) :
    h.Precedes [a] [b] ↔ h.Precedes xs ys := by
  refine ⟨fun hab => ?_, .inside ha hb⟩
  cases hab with
  | alike _ rest => cases rest
  | scalar lt => cases ((order?_of_sequence ha _).1).symm.trans lt
  | inside ha' hb' items =>
    cases ha.symm.trans ha'
    cases hb.symm.trans hb'
    exact items

end Precedes

end Heap

/-! ## Orders -/

/-- Values that have a place among those alike to them. -/
def Value.Orderable : Value → Prop
  | .bool _ | .int _ | .str _ | .tuple _ | .list _ => True
  | _ => False

namespace Heap

variable {h : Heap} {a b c : Value} {tag : TypeTag} {as bs xs ys : List Value} {o o' : Ordering}

variable (h) in
/-- The order of two lists of values. -/
def RankedItems (o : Ordering) (as bs : List Value) : Prop :=
  match o with
  | .lt => h.Precedes as bs
  | .eq => List.Forall₂ h.Alike as bs
  | .gt => h.Precedes bs as

variable (h) in
/-- The order of two values. -/
def Ranked (o : Ordering) (a b : Value) : Prop :=
  match o with
  | .lt => h.Precedes [a] [b]
  | .eq => h.Alike a b ∧ a.Orderable
  | .gt => h.Precedes [b] [a]

theorem Alike.orderable (hab : h.Alike a b) (ha : a.Orderable) : b.Orderable := by
  cases hab with
  | number hn hm =>
    cases b with
    | bool | int => trivial
    | _ => cases hm
  | _ => exact ha

/-- The order of sequences of one kind is that of their items. -/
theorem ranked_sequence (ha : h.sequence? a = some (tag, xs)) (hb : h.sequence? b = some (tag, ys)) :
    h.Ranked o a b ↔ h.RankedItems o xs ys := by
  have orderable : a.Orderable := by
    cases a with
    | tuple | list => trivial
    | _ => cases ha
  cases o with
  | lt => exact Precedes.single_iff ha hb
  | eq => exact (and_iff_left orderable).trans (alike_sequence_iff ha hb)
  | gt => exact Precedes.single_iff hb ha

/-- Other values are ordered as numbers and texts are. -/
theorem ranked_scalar
    (other : ∀ tag xs ys, h.sequence? a = some (tag, xs) → h.sequence? b ≠ some (tag, ys)) :
    h.Ranked o a b ↔ a.order? b = some o := by
  have precedes {a b : Value}
      (other : ∀ tag xs ys, h.sequence? a = some (tag, xs) → h.sequence? b ≠ some (tag, ys)) :
      h.Precedes [a] [b] ↔ a.order? b = some .lt := by
    refine ⟨fun hab => ?_, .scalar⟩
    cases hab with
    | alike _ rest => cases rest
    | scalar lt => exact lt
    | inside ha hb _ => exact absurd hb (other _ _ _ ha)
  cases o with
  | lt => exact precedes other
  | eq =>
    constructor
    · rintro ⟨alike, orderable⟩
      cases a with
      | bool | int =>
        exact Value.order?_eq_some_iff.mpr
          (.inl ⟨_, _, rfl, alike.asInt?_eq.symm, Std.ReflCmp.compare_self⟩)
      | str s =>
        exact Value.order?_eq_some_iff.mpr
          (.inr ⟨s, s, rfl, alike.eq_str, Std.ReflCmp.compare_self⟩)
      | tuple | list =>
        obtain ⟨ys, hb, -⟩ := alike.sequence rfl
        exact absurd hb (other _ _ _ rfl)
      | _ => exact orderable.elim
    · intro same
      rcases Value.order?_eq_some_iff.mp same with ⟨m, n, ha, hb, eq⟩ | ⟨s, t, rfl, rfl, eq⟩
      · cases Std.LawfulEqCmp.eq_of_compare eq
        refine ⟨.number ha hb, ?_⟩
        cases a with
        | bool | int => trivial
        | _ => cases ha
      · cases Std.LawfulEqCmp.eq_of_compare eq
        exact ⟨.str s, trivial⟩
  | gt =>
    refine (precedes fun tag xs ys hb ha => other tag ys xs ha hb).trans ⟨fun lt => ?_, fun gt => ?_⟩
    · exact Value.order?_swap lt
    · exact Value.order?_swap gt

theorem rankedItems_cons_of_alike (first : h.Alike a b) :
    h.RankedItems o (a :: as) (b :: bs) ↔ h.RankedItems o as bs := by
  cases o with
  | lt => exact Precedes.cons_iff_of_alike first
  | eq => exact List.forall₂_cons.trans (and_iff_right first)
  | gt => exact Precedes.cons_iff_of_alike first.symm

theorem rankedItems_cons_of_not_alike (first : ¬h.Alike a b) :
    h.RankedItems o (a :: as) (b :: bs) ↔ h.Ranked o a b := by
  cases o with
  | lt => exact Precedes.cons_iff_of_not_alike first
  | eq =>
    exact ⟨fun same => absurd (List.forall₂_cons.mp same).1 first, fun same => absurd same.1 first⟩
  | gt => exact Precedes.cons_iff_of_not_alike fun same => first same.symm

namespace Ranked

theorem swap (hab : h.Ranked o a b) : h.Ranked o.swap b a := by
  cases o with
  | lt => exact hab
  | eq => exact ⟨hab.1.symm, hab.1.orderable hab.2⟩
  | gt => exact hab

/-- Alike values have one order with others. -/
theorem congr_left {a' : Value} (same : h.Alike a a') (hab : h.Ranked o a b) :
    h.Ranked o a' b := by
  cases o with
  | lt => exact Precedes.congr_left hab (.cons same.symm .nil)
  | eq => exact ⟨same.symm.trans hab.1, same.orderable hab.2⟩
  | gt => exact Precedes.congr_right hab (.cons same .nil)

theorem congr_right {b' : Value} (hab : h.Ranked o a b) (same : h.Alike b b') :
    h.Ranked o a b' :=
  o.swap_swap ▸ (hab.swap.congr_left same).swap

theorem trans (hab : h.Ranked o a b) (hbc : h.Ranked o b c) : h.Ranked o a c := by
  cases o with
  | lt => exact Precedes.trans hab hbc
  | eq => exact ⟨hab.1.trans hbc.1, hab.2⟩
  | gt => exact Precedes.trans hbc hab

/-- Alike values are in one place. -/
theorem eq_of_alike (hab : h.Ranked o a b) (same : h.Alike a b) : o = .eq := by
  cases o with
  | lt => exact absurd (.cons same .nil) (Precedes.not_alikes hab)
  | eq => rfl
  | gt => exact absurd (.cons same.symm .nil) (Precedes.not_alikes hab)

/-- Data have at most one order. -/
theorem unique (ha : h.Data a) (hb : h.Data b) (hab : h.Ranked o a b) (hab' : h.Ranked o' a b) :
    o = o' := by
  have data {v : Value} (hv : h.Data v) : ∀ w ∈ [v], h.Data w := by simpa using hv
  cases o <;> cases o'
  case lt.lt | eq.eq | gt.gt => rfl
  case lt.eq | gt.eq => exact hab.eq_of_alike hab'.1
  case eq.lt | eq.gt => exact (hab'.eq_of_alike hab.1).symm
  case lt.gt => exact absurd hab' (Precedes.asymm (data ha) hab)
  case gt.lt => exact absurd hab' (Precedes.asymm (data hb) hab)

end Ranked

end Heap

end TieredMachine
