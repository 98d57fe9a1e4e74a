/-
  The order of data, and the least and the greatest of several.

  The comparison of data answers their order where they have one and raises a type error
  where they have none.  So what is known of the order of data holds of the comparison: it
  turns with its operands, agrees with equality, and goes from one value to the next.  The
  least of several values is then the first one that no other comes before.

  * `Heap.Data.orderWithin_decides`, `Heap.Data.order_decides`: what is computed;
  * `BuiltinFn.best_leads`: the first of the best;
  * **`order_is_total`**: the order of data, and `min` and `max`.
-/
import TieredMachine.Proofs.Heap.Precedence

namespace TieredMachine

/-! ## What the comparison answers -/

/-- A comparison answers the order that there is, or raises a type error if there is none. -/
def Decides (m : Machine) (x : Exec Ordering) (P : Ordering → Prop) : Prop :=
  (∃ o, x m = .ok o m ∧ P o) ∨
    (∃ text, x m = m.raising .typeError [.str text]) ∧ ∀ o, ¬P o

theorem Decides.congr {m : Machine} {x : Exec Ordering} {P Q : Ordering → Prop}
    (hx : Decides m x P) (same : ∀ o, P o ↔ Q o) : Decides m x Q := by
  obtain rfl : P = Q := funext fun o => propext (same o)
  exact hx

section

variable {m : Machine} {eq : Value → Value → Exec Bool} {ord : Value → Value → Exec Ordering}

/-- The first items that are not alike decide, or else the lengths. -/
theorem orderItems_decides {as bs : List Value}
    (equality : ∀ v ∈ as, ∀ w ∈ bs, ∃ b, eq v w m = .ok b m ∧ (b = true ↔ m.heap.Alike v w))
    (order : ∀ v ∈ as, ∀ w ∈ bs, Decides m (ord v w) (m.heap.Ranked · v w)) :
    Decides m (orderItems eq ord as bs) (m.heap.RankedItems · as bs) := by
  induction as generalizing bs with
  | nil =>
    cases bs with
    | nil => exact .inl ⟨.eq, rfl, .nil⟩
    | cons b bs => exact .inl ⟨.lt, rfl, .ended b bs⟩
  | cons a as ih =>
    cases bs with
    | nil => exact .inl ⟨.gt, rfl, .ended a as⟩
    | cons b bs =>
      obtain ⟨same, run, alike⟩ := equality a List.mem_cons_self b List.mem_cons_self
      have unfolded : orderItems eq ord (a :: as) (b :: bs) m =
          (if same then orderItems eq ord as bs else ord a b) m := by
        show (eq a b >>= fun same => if same then orderItems eq ord as bs else ord a b) m = _
        rw [bind_apply, run]
      unfold Decides
      rw [unfolded]
      cases same with
      | true =>
        refine Decides.congr (ih (fun v hv w hw => ?_) fun v hv w hw => ?_) fun o =>
          (Heap.rankedItems_cons_of_alike (alike.mp rfl)).symm
        · exact equality v (List.mem_cons_of_mem _ hv) w (List.mem_cons_of_mem _ hw)
        · exact order v (List.mem_cons_of_mem _ hv) w (List.mem_cons_of_mem _ hw)
      | false =>
        refine Decides.congr (order a List.mem_cons_self b List.mem_cons_self) fun o =>
          (Heap.rankedItems_cons_of_not_alike fun same => ?_).symm
        exact Bool.noConfusion (alike.mpr same)

end

namespace Heap

variable {g : Guest} {m : Machine} {h : Heap} {a b : Value} {tag : TypeTag} {xs ys : List Value}
  {n fuel : Nat} {o : Ordering}

theorem orderWithin_sequence (ha : m.heap.sequence? a = some (tag, xs))
    (hb : m.heap.sequence? b = some (tag, ys)) : orderWithin g (fuel + 1) a b m =
      orderItems (equal g) (orderWithin g fuel) xs ys m := by
  cases a with
  | tuple r =>
    cases ha
    cases b with
    | tuple s =>
      cases hb
      rfl
    | _ => cases hb
  | list r =>
    cases ha
    cases b with
    | list s =>
      cases hb
      rfl
    | _ => cases hb
  | _ => cases ha

/-- Data that are no sequences of one kind are compared as numbers and texts, or not at all. -/
theorem Data.orderWithin_scalar (ha : h.Data a) (hb : h.Data b)
    (other : ∀ tag xs ys, h.sequence? a = some (tag, xs) → h.sequence? b ≠ some (tag, ys)) :
    orderWithin g (fuel + 1) a b m = (match a.order? b with
      | some o => .ok o m
      | Option.none => m.raising .typeError
          [.str s!"unorderable types: {a.typeName}() and {b.typeName}()"]) := by
  cases ha <;> cases hb <;>
    first
    | rfl
    | exact absurd rfl (other _ _ _ rfl)

/-- The comparison of data decides their order when it may follow sequences as far as they
    nest. -/
theorem Data.orderWithin_decides (ha : m.heap.Data a) (hb : m.heap.Data b)
    (deep : m.heap.depth < g.fuel) (hn : m.heap.Nests n a) (hf : n < fuel) :
    Decides m (orderWithin g fuel a b) (m.heap.Ranked · a b) := by
  induction fuel generalizing a b n with
  | zero => exact absurd hf (Nat.not_lt_zero n)
  | succ fuel ih =>
    by_cases alike : ∃ tag xs ys, m.heap.sequence? a = some (tag, xs) ∧
        m.heap.sequence? b = some (tag, ys)
    · obtain ⟨tag, xs, ys, hxs, hys⟩ := alike
      have insideA {v : Value} (hv : v ∈ xs) : v ∈ m.heap.children a :=
        sequence?_children hxs ▸ hv
      have insideB {w : Value} (hw : w ∈ ys) : w ∈ m.heap.children b :=
        sequence?_children hys ▸ hw
      unfold Decides
      rw [orderWithin_sequence hxs hys]
      refine Decides.congr (orderItems_decides (fun v hv w hw => ?_) fun v hv w hw => ?_)
        fun o => (ranked_sequence hxs hys).symm
      · exact (ha.child (insideA hv)).equal_decides (hb.child (insideB hw)) deep
      · obtain ⟨n', hlt, nests⟩ := hn.child (insideA hv)
        exact ih (ha.child (insideA hv)) (hb.child (insideB hw)) nests (by omega)
    · have other (tag) (xs ys : List Value) (hxs : m.heap.sequence? a = some (tag, xs)) :
          m.heap.sequence? b ≠ some (tag, ys) := fun hys => alike ⟨tag, xs, ys, hxs, hys⟩
      unfold Decides
      rw [ha.orderWithin_scalar hb other]
      simp only [ranked_scalar other]
      cases a.order? b with
      | some o => exact .inl ⟨o, rfl, rfl⟩
      | none => exact .inr ⟨⟨_, rfl⟩, nofun⟩

/-- The comparison of data decides their order, and nothing changes. -/
theorem Data.order_decides (ha : m.heap.Data a) (hb : m.heap.Data b)
    (deep : m.heap.depth < g.fuel) : Decides m (order g a b) (m.heap.Ranked · a b) := by
  obtain ⟨n, hlt, nests⟩ := ha.nests
  exact ha.orderWithin_decides hb deep nests (Nat.lt_trans hlt deep)

theorem Data.order_iff (ha : m.heap.Data a) (hb : m.heap.Data b) (deep : m.heap.depth < g.fuel) :
    order g a b m = .ok o m ↔ m.heap.Ranked o a b := by
  rcases ha.order_decides hb deep with ⟨o', run, ranked⟩ | ⟨⟨text, run⟩, unranked⟩
  · rw [run]
    constructor
    · intro same
      cases same
      exact ranked
    · intro ranked'
      rw [ranked.unique ha hb ranked']
  · rw [run]
    exact ⟨nofun, fun ranked => absurd ranked (unranked o)⟩

/-- The operators on data compare their order. -/
theorem Data.compareOrder_eq (ha : h.Data a) (op : CmpOp) (b : Value) : compareOrder g op a b m =
    (order g a b >>= fun o => pure (.bool (op.holds o)) : Exec Value) m := by
  cases ha <;> rfl

theorem Data.compareOrder_ok (ha : h.Data a) (op : CmpOp) (run : order g a b m = .ok o m) :
    compareOrder g op a b m = .ok (.bool (op.holds o)) m := by
  rw [ha.compareOrder_eq, bind_apply, run]
  rfl

theorem Data.le_iff (ha : m.heap.Data a) (hb : m.heap.Data b) (deep : m.heap.depth < g.fuel) :
    compare g .le a b m = .ok (.bool true) m ↔ m.heap.Ranked .lt a b ∨ m.heap.Ranked .eq a b := by
  rw [← ha.order_iff hb deep (g := g), ← ha.order_iff hb deep (g := g)]
  show compareOrder g .le a b m = _ ↔ _
  rcases ha.order_decides hb deep with ⟨o, run, -⟩ | ⟨⟨text, run⟩, -⟩
  · rw [ha.compareOrder_ok .le run, run]
    cases o <;> simp [CmpOp.holds]
  · rw [ha.compareOrder_eq, bind_apply, run]
    exact ⟨nofun, by rintro (h | h) <;> cases h⟩

end Heap

/-! ## The best of several -/

namespace BuiltinFn

variable {g : Guest} {m : Machine} {op : CmpOp} {d o : Ordering} {u v w : Value}
  {items before after : List Value}

/-- The values that `min` and `max` choose from: the arguments, or the items of the only one. -/
def candidates (g : Guest) : List Value → Exec (List Value)
  | [v] => collect g v
  | args => pure args

theorem candidates_list (r : Ref) (m : Machine) :
    candidates g [.list r] m = .ok (m.heap.list r).toList m := rfl

theorem extremum_candidates {name : String} {args : List Value} {m₀ : Machine}
    (given : candidates g args m₀ = .ok (v :: items) m) :
    extremum g name op args m₀ = best g op v items m := by
  match args with
  | [] => cases given
  | [_] =>
    show (collect g _ >>= _) m₀ = _
    rw [bind_apply, show collect g _ m₀ = .ok (v :: items) m from given]
  | _ :: _ :: _ =>
    cases given
    rfl

/-- A value leads others in a direction: it goes before those in front of it, and none of
    those behind it goes before it. -/
def Leads (h : Heap) (d : Ordering) (w : Value) (before after : List Value) : Prop :=
  (∀ v ∈ before, h.Ranked d w v) ∧ ∀ v ∈ after, ∃ o, h.Ranked o w v ∧ (o = .eq ∨ o = d)

/-- What leads is at least as good as the first of all. -/
theorem Leads.first (leads : Leads m.heap d w before after) (list : v :: items = before ++ w :: after) :
    w = v ∨ m.heap.Ranked d w v := by
  cases before with
  | nil => exact .inl (List.cons.inj list).1.symm
  | cons b before =>
    obtain rfl : v = b := (List.cons.inj list).1
    exact .inr (leads.1 v List.mem_cons_self)

/-- A value that does not go before the first one can be put in right behind it. -/
theorem Leads.behind_first (leads : Leads m.heap d w before after)
    (list : v :: items = before ++ w :: after) (ranked : m.heap.Ranked o v u)
    (notWorse : o = .eq ∨ o = d) : ∃ before' after', v :: u :: items = before' ++ w :: after' ∧
      Leads m.heap d w before' after' := by
  cases before with
  | nil =>
    obtain ⟨rfl, rfl⟩ := List.cons.inj list
    exact ⟨[], u :: items, rfl, nofun, List.forall_mem_cons.mpr ⟨⟨o, ranked, notWorse⟩, leads.2⟩⟩
  | cons b before =>
    obtain ⟨rfl, rfl⟩ := List.cons.inj list
    have further : m.heap.Ranked d w v := leads.1 v List.mem_cons_self
    have ahead : m.heap.Ranked d w u := by
      rcases notWorse with rfl | rfl
      · exact further.congr_right ranked.1
      · exact further.trans ranked
    refine ⟨v :: u :: before, after, rfl, List.forall_mem_cons.mpr ⟨further, ?_⟩, leads.2⟩
    exact List.forall_mem_cons.mpr ⟨ahead, fun x hx => leads.1 x (List.mem_cons_of_mem v hx)⟩

/-- An operator that holds between values in one order finds the first value that leads in
    that order. -/
theorem best_leads (deep : m.heap.depth < g.fuel) (strict : ∀ o, op.holds o = (o == d))
    (compares : ∀ v w, compare g op v w = compareOrder g op v w)
    (turns : d ≠ .eq) (data : ∀ u ∈ v :: items, m.heap.Data u)
    (comparable : (v :: items).Pairwise fun u w => ∃ o, order g u w m = .ok o m) :
    ∃ before w after, v :: items = before ++ w :: after ∧ best g op v items m = .ok w m ∧
      Leads m.heap d w before after := by
  induction items generalizing v with
  | nil => exact ⟨[], v, [], rfl, rfl, nofun, nofun⟩
  | cons u items ih =>
    have hv : m.heap.Data v := data v List.mem_cons_self
    have hu : m.heap.Data u := data u (by simp)
    obtain ⟨o, run⟩ := (List.pairwise_cons.mp comparable).1 u List.mem_cons_self
    have ranked : m.heap.Ranked o v u := (hv.order_iff hu deep).mp run
    have run' : order g u v m = .ok o.swap m := (hu.order_iff hv deep).mpr ranked.swap
    have step : best g op v (u :: items) m =
        (if op.holds o.swap then best g op u items else best g op v items) m := by
      show (compare g op u v >>= fun b => truthOf b >>= fun t =>
        if t then best g op u items else best g op v items) m = _
      rw [bind_apply, compares, hu.compareOrder_ok op run']
      rfl
    rw [step, strict]
    by_cases beats : o.swap = d
    · -- the next value goes before the first one, and what leads from there on does too
      obtain ⟨before, w, after, list, ran, leads⟩ :=
        ih (v := u) (fun x hx => data x (List.mem_cons_of_mem _ hx)) (List.pairwise_cons.mp comparable).2
      have ahead : m.heap.Ranked d u v := beats ▸ ranked.swap
      refine ⟨v :: before, w, after, by rw [list, List.cons_append], ?_, ?_, leads.2⟩
      · rw [if_pos (by simpa using beats)]
        exact ran
      · refine List.forall_mem_cons.mpr ⟨?_, leads.1⟩
        rcases leads.first list with rfl | further
        · exact ahead
        · exact further.trans ahead
    · -- the next value is left out
      obtain ⟨comparable₁, comparable₂⟩ := List.pairwise_cons.mp comparable
      obtain ⟨before, w, after, list, ran, leads⟩ := ih (v := v)
        (List.forall_mem_cons.mpr ⟨hv, fun x hx => data x (by simp [hx])⟩)
        (List.pairwise_cons.mpr ⟨fun x hx => comparable₁ x (List.mem_cons_of_mem _ hx),
          (List.pairwise_cons.mp comparable₂).2⟩)
      have notWorse : o = .eq ∨ o = d := by
        cases o <;> cases d <;> simp_all
      obtain ⟨before', after', list', leads'⟩ := leads.behind_first list ranked notWorse
      rw [if_neg (by simpa using beats)]
      exact ⟨before', w, after', list', ran, leads'⟩

/-- What leads is, by the operator that holds unless the order is turned, as good as any other,
    and nothing in front of it is as good. -/
theorem extremum_leads {weak : CmpOp} {name : String} {args : List Value} {m₀ : Machine}
    (deep : m.heap.depth < g.fuel) (strict : ∀ o, op.holds o = (o == d))
    (weakly : ∀ o, weak.holds o = (o != d.swap)) (turns : d ≠ .eq)
    (compares : ∀ v w, compare g op v w = compareOrder g op v w)
    (compares' : ∀ v w, compare g weak v w = compareOrder g weak v w)
    (given : candidates g args m₀ = .ok items m) (some : items ≠ [])
    (data : ∀ u ∈ items, m.heap.Data u)
    (comparable : items.Pairwise fun u w => ∃ o, order g u w m = .ok o m) :
    ∃ before w after, items = before ++ w :: after ∧ extremum g name op args m₀ = .ok w m ∧
      (∀ v ∈ before ++ after, compare g weak w v m = .ok (.bool true) m) ∧
      ∀ v ∈ before, compare g weak v w m = .ok (.bool false) m := by
  obtain ⟨u, rest, rfl⟩ := List.exists_cons_of_ne_nil some
  obtain ⟨before, w, after, list, ran, ahead, notBehind⟩ :=
    best_leads deep strict compares turns data comparable
  rw [list] at data
  have hw : m.heap.Data w := data w (by simp)
  have answers {o : Ordering} {v v' : Value} (hv : m.heap.Data v) (hv' : m.heap.Data v')
      (ranked : m.heap.Ranked o v v') : compare g weak v v' m = .ok (.bool (o != d.swap)) m := by
    rw [compares', hv.compareOrder_ok weak ((hv.order_iff hv' deep).mpr ranked), weakly]
  have turned : d ≠ d.swap := by cases d <;> first | exact absurd rfl turns | decide
  refine ⟨before, w, after, list, (extremum_candidates given).trans ran, fun v mem => ?_,
    fun v mem => ?_⟩
  · rcases List.mem_append.mp mem with mem | mem
    · rw [answers hw (data v (by simp [mem])) (ahead v mem)]
      simp [turned]
    · obtain ⟨o, ranked, notWorse⟩ := notBehind v mem
      rw [answers hw (data v (by simp [mem])) ranked]
      rcases notWorse with rfl | rfl
      · cases d <;> first | exact absurd rfl turns | rfl
      · simp [turned]
  · rw [answers (data v (by simp [mem])) hw (ahead v mem).swap]
    simp

end BuiltinFn

/-- **Data are ordered totally where they are ordered.**  The comparison of data either answers
    an order, which turns with the operands, or raises a type error for both of their orders.
    Data in one place are equal data; `<=` goes from one value to the next, where it need not
    be known beforehand that the first and the last can be compared; equal data stand for each
    other.  Of values of which each two are comparable `min` and `max` answer the first that is
    `<=` and `>=` every other. -/
theorem order_is_total (g : Guest) (m : Machine) (deep : m.heap.depth < g.fuel) :
    (∀ a b, m.heap.Data a → m.heap.Data b →
      (∃ o, order g a b m = .ok o m ∧ order g b a m = .ok o.swap m) ∨
      ∃ text text', order g a b m = m.raising .typeError [.str text] ∧
        order g b a m = m.raising .typeError [.str text']) ∧
    (∀ a b o, m.heap.Data a → m.heap.Data b → order g a b m = .ok o m →
      (o = .eq ↔ equal g a b m = .ok true m)) ∧
    (∀ a b c, m.heap.Data a → m.heap.Data b → m.heap.Data c →
      compare g .le a b m = .ok (.bool true) m → compare g .le b c m = .ok (.bool true) m →
      compare g .le a c m = .ok (.bool true) m) ∧
    (∀ a a' b, m.heap.Data a → m.heap.Data a' → m.heap.Data b →
      equal g a a' m = .ok true m → ∀ o, (order g a b m = .ok o m ↔ order g a' b m = .ok o m) ∧
        (order g b a m = .ok o m ↔ order g b a' m = .ok o m)) ∧
    ∀ args items m₀, BuiltinFn.candidates g args m₀ = .ok items m → items ≠ [] →
      (∀ v ∈ items, m.heap.Data v) →
      (items.Pairwise fun v w => ∃ o, order g v w m = .ok o m) →
      (∃ before w after, items = before ++ w :: after ∧ BuiltinFn.min.run g args m₀ = .ok w m ∧
        (∀ v ∈ before ++ after, compare g .le w v m = .ok (.bool true) m) ∧
        ∀ v ∈ before, compare g .le v w m = .ok (.bool false) m) ∧
      ∃ before w after, items = before ++ w :: after ∧ BuiltinFn.max.run g args m₀ = .ok w m ∧
        (∀ v ∈ before ++ after, compare g .ge w v m = .ok (.bool true) m) ∧
        ∀ v ∈ before, compare g .ge v w m = .ok (.bool false) m := by
  have ranked {o : Ordering} {a b : Value} (ha : m.heap.Data a) (hb : m.heap.Data b) :
      order g a b m = .ok o m ↔ m.heap.Ranked o a b := ha.order_iff hb deep
  refine ⟨fun a b ha hb => ?_, fun a b o ha hb run => ?_, fun a b c ha hb hc hab hbc => ?_,
    fun a a' b ha ha' hb same o => ?_, fun args items m₀ given some data comparable => ⟨?_, ?_⟩⟩
  · rcases ha.order_decides hb deep with ⟨o, run, hab⟩ | ⟨⟨text, run⟩, unranked⟩
    · exact .inl ⟨o, run, (ranked hb ha).mpr hab.swap⟩
    · obtain ⟨o, -, hba⟩ | ⟨⟨text', run'⟩, -⟩ := hb.order_decides ha deep
      · exact absurd hba.swap (unranked _)
      · exact .inr ⟨text, text', run, run'⟩
  · have hab := (ranked ha hb).mp run
    rw [ha.equal_iff hb deep]
    constructor
    · rintro rfl
      exact hab.1
    · exact hab.eq_of_alike
  · rw [ha.le_iff hb deep] at hab
    rw [hb.le_iff hc deep] at hbc
    rw [ha.le_iff hc deep]
    rcases hab with hab | hab
    · exact .inl (hbc.elim hab.trans fun hbc => hab.congr_right hbc.1)
    · exact hbc.imp (·.congr_left hab.1.symm) hab.trans
  · have same := (ha.equal_iff ha' deep).mp same
    rw [ranked ha hb, ranked ha' hb, ranked hb ha, ranked hb ha']
    exact ⟨⟨.congr_left same, .congr_left same.symm⟩,
      ⟨fun h => h.congr_right same, fun h => h.congr_right same.symm⟩⟩
  · exact BuiltinFn.extremum_leads deep (fun o => by cases o <;> rfl) (fun o => by cases o <;> rfl)
      (by decide) (fun _ _ => rfl) (fun _ _ => rfl) given some data comparable
  · exact BuiltinFn.extremum_leads deep (fun o => by cases o <;> rfl) (fun o => by cases o <;> rfl)
      (by decide) (fun _ _ => rfl) (fun _ _ => rfl) given some data comparable

/-! ### Three tuples, two of them in one place -/

/-- A machine with a list of tuples that begin with a value that has no order. -/
def Machine.ranking : Machine where
  config := {}
  heap :=
    { tuples := #[#[.none, .int 2], #[.none, .bool true], #[.none, .int 1]]
      lists := #[#[.tuple 0, .tuple 1, .tuple 2]] }
  globals := 0
  builtins := 0
  bailError := false
  control := .never
  timer := .new 1 false

theorem order_is_total_of_ranking :
    Machine.ranking.heap.depth < (guestWithin 9).fuel ∧
    (order (guestWithin 9) (.tuple 0) (.tuple 1) .ranking = .ok .gt .ranking ∧
      order (guestWithin 9) (.tuple 1) (.tuple 0) .ranking = .ok .lt .ranking) ∧
    equal (guestWithin 9) (.tuple 1) (.tuple 2) .ranking = .ok true .ranking ∧
    compare (guestWithin 9) .le (.tuple 2) (.tuple 0) .ranking = .ok (.bool true) .ranking ∧
    ∃ before w after, [Value.tuple 0, .tuple 1, .tuple 2] = before ++ w :: after ∧
      BuiltinFn.min.run (guestWithin 9) [.list 0] .ranking = .ok w .ranking ∧ w = .tuple 1 ∧
      (∀ v ∈ before ++ after,
        compare (guestWithin 9) .le w v .ranking = .ok (.bool true) .ranking) ∧
      ∀ v ∈ before, compare (guestWithin 9) .le v w .ranking = .ok (.bool false) .ranking := by
  have deep : Machine.ranking.heap.depth < (guestWithin 9).fuel := by decide
  obtain ⟨orders, places, onward, -, best⟩ := order_is_total _ _ deep
  have items {P : Value → Prop} {x y : Value} (hx : P x) (hy : P y) : ∀ v ∈ #[x, y], P v := by
    simp [hx, hy]
  have tuple₀ : Machine.ranking.heap.Data (.tuple 0) := .tuple (items .none (.int 2))
  have tuple₁ : Machine.ranking.heap.Data (.tuple 1) := .tuple (items .none (.bool true))
  have tuple₂ : Machine.ranking.heap.Data (.tuple 2) := .tuple (items .none (.int 1))
  have gt : order (guestWithin 9) (.tuple 0) (.tuple 1) .ranking = .ok .gt .ranking := rfl
  have lt : order (guestWithin 9) (.tuple 1) (.tuple 0) .ranking = .ok .lt .ranking := by
    rcases orders _ _ tuple₀ tuple₁ with ⟨o, run, turned⟩ | ⟨text, -, run, -⟩
    · cases gt.symm.trans run
      exact turned
    · cases gt.symm.trans run
  have same : equal (guestWithin 9) (.tuple 1) (.tuple 2) .ranking = .ok true .ranking :=
    (places _ _ .eq tuple₁ tuple₂ rfl).mp rfl
  obtain ⟨before, w, after, list, ran, leads, first⟩ :=
    (best [.list 0] [.tuple 0, .tuple 1, .tuple 2] _
      (BuiltinFn.candidates_list 0 .ranking) (by simp)
      (by simp [tuple₀, tuple₁, tuple₂])
      (by
        simp only [List.pairwise_cons, List.forall_mem_cons, List.not_mem_nil, false_imp_iff,
          implies_true, and_true, List.Pairwise.nil]
        exact ⟨⟨⟨_, gt⟩, ⟨_, rfl⟩⟩, ⟨_, rfl⟩⟩)).1
  refine ⟨deep, ⟨gt, lt⟩, same, ?_, before, w, after, list, ran, ?_, leads, first⟩
  · exact onward _ (.tuple 1) _ tuple₂ tuple₁ tuple₀ rfl rfl
  · cases ran.symm.trans (show _ = .ok (.tuple 1) Machine.ranking from rfl)
    rfl

end TieredMachine
