/-
  Keyword arguments that are given more than once.

  A name can come twice from the stack, from the stack and from a mapping that is unpacked, or
  from one of these and from the positional arguments.  Each of the three is looked for in a
  place of its own, and before a frame is made.

  * `Binding.names_of_bindKeywords`: what a binding says of each keyword;
  * `addKeywords_cases`: unpacked names are new;
  * `Primitive.Clash`: names that come twice, but for those that go twice to the dictionary of
    surplus keywords;
  * `Primitive.clash_raises`: calls with such names.
-/
import Mathlib.Data.List.Count
import TieredMachine.Primitive.Dispatch
import TieredMachine.Proofs.Agreement.Frame
import TieredMachine.Proofs.Heap.Dict
import TieredMachine.Proofs.Run.Binding
import TieredMachine.Run.Guest

namespace TieredMachine

/-! ## Binding -/

namespace Binding

variable {names : List String} {collecting : Bool} {b b' : Binding} {arg : String × Value}
  {kwargs : List (String × Value)}

/-- What binds a keyword: the first parameter of its name, if that was not filled, or the
    surplus keywords. -/
theorem keyword_ok (h : keyword names collecting b arg = .ok b') :
    (∃ i, names.findIdx? (· == arg.1) = some i ∧ b.params[i]?.join = none ∧
      b' = { b with params := b.params.setIfInBounds i (some arg.2) }) ∨
      arg.1 ∉ names ∧ collecting = true ∧ b' = { b with keywords := b.keywords ++ [arg] } := by
  unfold keyword at h
  cases hidx : names.findIdx? (· == arg.1) with
  | some i =>
    rw [hidx] at h
    dsimp only at h
    split at h
    · cases h
    · rename_i free
      exact .inl ⟨i, rfl, Option.not_isSome_iff_eq_none.mp free, (Except.ok.inj h).symm⟩
  | none =>
    rw [hidx] at h
    dsimp only at h
    split at h
    · rename_i collects
      exact .inr ⟨findIdx?_eq_none_iff.mp hidx, collects, (Except.ok.inj h).symm⟩
    · cases h

/-- A keyword that is bound leaves the parameters filled that were. -/
theorem keyword_keeps (h : keyword names collecting b arg = .ok b') :
    b'.params.size = b.params.size ∧
      (∀ i : Nat, (b.params[i]?.join).isSome → (b'.params[i]?.join).isSome) ∧
      b'.keywords = b.keywords ++ [arg].filter fun p => decide (p.1 ∉ names) := by
  rcases keyword_ok h with ⟨i, hidx, -, rfl⟩ | ⟨other, -, rfl⟩
  · have named : arg.1 ∈ names := Decidable.not_not.mp fun other => by
      rw [findIdx?_eq_none_iff.mpr other] at hidx
      cases hidx
    refine ⟨Array.size_setIfInBounds, fun j hj => ?_, ?_⟩
    · dsimp only
      by_cases same : i = j
      · subst same
        have inside : i < b.params.size := Nat.lt_of_not_le fun outside => by
          rw [Array.getElem?_eq_none outside] at hj
          cases hj
        rw [Array.getElem?_setIfInBounds_self_of_lt inside]
        rfl
      · rwa [Array.getElem?_setIfInBounds_ne same]
    · rw [List.filter_cons_of_neg (by simpa using named), List.filter_nil, List.append_nil]
  · refine ⟨rfl, fun _ hj => hj, ?_⟩
    rw [List.filter_cons_of_pos (by simpa using other), List.filter_nil]

/-- A keyword that is bound names a parameter that was not filled, or is collected. -/
theorem keyword_bound (h : keyword names collecting b arg = .ok b')
    (size : names.length ≤ b.params.size) :
    (arg.1 ∉ names ∧ collecting = true) ∨ ∃ i, names.findIdx? (· == arg.1) = some i ∧
      b.params[i]?.join = none ∧ (b'.params[i]?.join).isSome := by
  rcases keyword_ok h with ⟨i, hidx, free, rfl⟩ | ⟨other, collects, -⟩
  · have inside : i < b.params.size :=
      Nat.lt_of_lt_of_le (List.findIdx?_eq_some_iff_getElem.mp hidx).1 size
    refine .inr ⟨i, hidx, free, ?_⟩
    rw [Array.getElem?_setIfInBounds_self_of_lt inside]
    rfl
  · exact .inl ⟨other, collects⟩

/-- Keywords that are bound name no parameter and are collected, or name each a parameter that
    was not filled, and no other one names it. -/
theorem names_of_bindKeywords (h : kwargs.foldlM (keyword names collecting) b = .ok b')
    (size : names.length ≤ b.params.size) {name : String} (given : name ∈ kwargs.map (·.1)) :
    (name ∉ names ∧ collecting = true) ∨ ∃ i, names.findIdx? (· == name) = some i ∧
      b.params[i]?.join = none ∧ (kwargs.map (·.1)).count name = 1 := by
  induction kwargs generalizing b with
  | nil => cases given
  | cons arg kwargs ih =>
    rw [List.foldlM_cons] at h
    obtain ⟨b₁, first, h⟩ := except_bind_ok.mp h
    obtain ⟨size₁, kept, -⟩ := keyword_keeps first
    have later := ih h (by rw [size₁]; exact size)
    rw [List.map_cons] at given ⊢
    by_cases own : arg.1 = name
    · subst own
      refine (keyword_bound first size).imp id ?_
      rintro ⟨i, named, free, filled⟩
      -- the parameter is filled now, so that no later keyword can name it
      have once : arg.1 ∉ kwargs.map (·.1) := fun again => by
        rcases later again with ⟨other, -⟩ | ⟨j, named', free', -⟩
        · rw [findIdx?_eq_none_iff.mpr other] at named
          cases named
        · cases named.symm.trans named'
          rw [free'] at filled
          cases filled
      exact ⟨i, named, free, by rw [List.count_cons_self, List.count_eq_zero_of_not_mem once]⟩
    · refine (later ((List.mem_cons.mp given).resolve_left (Ne.symm own))).imp id ?_
      rintro ⟨i, named, free, once⟩
      refine ⟨i, named, Option.not_isSome_iff_eq_none.mp fun filled => ?_, ?_⟩
      · have := kept i filled
        rw [free] at this
        cases this
      · rw [List.count_cons_of_ne own, once]

/-- The keywords that name no parameter are all collected, in their order. -/
theorem keywords_of_bindKeywords (h : kwargs.foldlM (keyword names collecting) b = .ok b') :
    b'.keywords = b.keywords ++ kwargs.filter fun p => decide (p.1 ∉ names) := by
  induction kwargs generalizing b with
  | nil =>
    cases h
    exact (List.append_nil _).symm
  | cons arg kwargs ih =>
    rw [List.foldlM_cons] at h
    obtain ⟨b₁, first, h⟩ := except_bind_ok.mp h
    rw [ih h, (keyword_keeps first).2.2, List.append_assoc, ← List.filter_append,
      List.singleton_append]

end Binding

section Binding

variable {u : CodeUnit} {defaults : Array Value} {args : List Value}
  {kwargs : List (String × Value)} {b : Binding}

/-- A binding that succeeds, step by step. -/
theorem bindParameters_steps (h : bindParameters u defaults args kwargs = .ok b) :
    ∃ b₁, kwargs.foldlM (Binding.keyword u.paramNames (u.flags.contains .varkeywords))
      (.positional u.argcount args) = .ok b₁ ∧ b₁.fillDefaults defaults = .ok b := by
  unfold bindParameters at h
  dsimp only at h
  split at h
  · cases h
  · exact except_bind_ok.mp h

/-- Where arguments are bound, a keyword that names a parameter comes once, and no positional
    argument fills the parameter. -/
theorem names_of_bindParameters (h : bindParameters u defaults args kwargs = .ok b)
    {name : String} (given : name ∈ kwargs.map (·.1)) :
    (name ∉ u.paramNames ∧ u.flags.contains .varkeywords = true) ∨
      (kwargs.map (·.1)).count name = 1 ∧
        ∀ i < u.argcount, u.varnames[i]? = some name → args.length ≤ i := by
  obtain ⟨b₁, bound, -⟩ := bindParameters_steps h
  have size : u.paramNames.length ≤ (Binding.positional u.argcount args).params.size := by
    rw [Binding.positional_size]
    unfold CodeUnit.paramNames
    rw [Array.length_toList, Array.size_extract]
    omega
  refine (Binding.names_of_bindKeywords bound size given).imp id ?_
  rintro ⟨i, named, free, once⟩
  refine ⟨once, fun j hj hn => ?_⟩
  obtain ⟨hi, -, least⟩ := List.findIdx?_eq_some_iff_getElem.mp named
  -- the keyword goes to the first parameter of its name
  have order : i ≤ j := Nat.le_of_not_lt fun before => by
    have there : u.paramNames[j]? = some name := (CodeUnit.paramNames_get hj).trans hn
    have := least j before
    rw [(List.getElem?_eq_some_iff.mp there).2] at this
    exact this (beq_self_eq_true name)
  rw [Binding.positional_get (Nat.lt_of_le_of_lt order hj)] at free
  exact Nat.le_trans (List.getElem?_eq_none_iff.mp free) order

end Binding

/-! ## Surplus keywords -/

namespace Item

/-- The value of a key after one was set. -/
theorem value?_put (l : List Item) (k k' : Key) (key v : Value) :
    value? (put l k key v) k' = if k' = k then some v else value? l k' := by
  unfold value? put
  by_cases present : has l k = true
  · rw [if_pos present, List.find?_map]
    have hash : (fun e : Item => decide (e.hash = k')) ∘
        (fun e => if e.hash = k then e.setValue v else e) = fun e => decide (e.hash = k') := by
      funext e
      show decide ((if e.hash = k then e.setValue v else e).hash = k') = _
      split <;> rfl
    rw [hash]
    by_cases own : k' = k
    · subst own
      obtain ⟨e, he, same⟩ := List.any_eq_true.mp present
      obtain ⟨e', found⟩ := Option.isSome_iff_exists.mp
        (List.find?_isSome (p := fun e => decide (e.hash = k')).mpr ⟨e, he, same⟩)
      have hash' : e'.hash = k' := by simpa using List.find?_some found
      rw [found, if_pos rfl]
      simp only [Option.map_some, if_pos hash', setValue]
    · rw [if_neg own]
      cases found : l.find? (fun e => decide (e.hash = k')) with
      | none => rfl
      | some e =>
        have hash' : e.hash = k' := by simpa using List.find?_some found
        simp only [Option.map_some, if_neg (hash' ▸ own : ¬e.hash = k)]
  · rw [if_neg present, List.find?_append]
    have absent : l.find? (fun e => decide (e.hash = k)) = none :=
      List.find?_eq_none.mpr fun e he same => present (List.any_eq_true.mpr ⟨e, he, same⟩)
    by_cases own : k' = k
    · subst own
      rw [absent, if_pos rfl]
      simp
    · rw [if_neg own]
      have other : ¬k = k' := Ne.symm own
      cases l.find? (fun e => decide (e.hash = k')) with
      | none => simp [other]
      | some e => rfl

end Item

/-- Of several values of a name the last one stays. -/
theorem Dict.get?_withNames {d : Dict} {l : List Item} (h : d.Holds l)
    (ps : List (String × Value)) (name : String) : (d.withNames ps).get? (.str name) =
      (List.lookup name ps.reverse <|> d.get? (.str name)) := by
  induction ps generalizing d l with
  | nil => rfl
  | cons p ps ih =>
    obtain ⟨key, v⟩ := p
    have more : (d.insert (.str key) (.str key) v).Holds _ := h.insert
    rw [List.reverse_cons, List.lookup_append]
    refine (ih more).trans ?_
    rw [more.get?_eq, Item.value?_put, ← h.get?_eq]
    cases List.lookup name ps.reverse with
    | some v => rfl
    | none =>
      by_cases own : name = key
      · subst own
        simp
      · have other : (name == key) = false := beq_eq_false_iff_ne.mpr own
        simp [List.lookup_cons, own, other]

/-- The value of a surplus keyword is the last one that was given. -/
theorem surplus_value {u : CodeUnit} {defaults : Array Value} {args : List Value}
    {kwargs : List (String × Value)} {b : Binding}
    (h : bindParameters u defaults args kwargs = .ok b) {name : String}
    (surplus : name ∉ u.paramNames) :
    (({} : Dict).withNames b.keywords).get? (.str name) = List.lookup name kwargs.reverse := by
  obtain ⟨b₁, bound, filled⟩ := bindParameters_steps h
  have kept : b.keywords = b₁.keywords := by
    obtain ⟨params, -, done⟩ := except_bind_ok.mp filled
    cases done
    rfl
  rw [kept, Binding.keywords_of_bindKeywords bound]
  show (({} : Dict).withNames (kwargs.filter _)).get? (.str name) = _
  rw [Dict.get?_withNames .empty, ← List.filter_reverse, Dict.lookup_filter_not_mem,
    if_neg surplus, Dict.Holds.empty.get?_eq]
  cases List.lookup name kwargs.reverse <;> rfl

/-! ## Arguments on the stack -/

namespace Primitive

/-- The names of keyword arguments as they are on the stack, as far as they are text. -/
def keywordNames : List Value → List String
  | .str name :: _ :: rest => name :: keywordNames rest
  | _ :: _ :: rest => keywordNames rest
  | _ => []

/-- The names among the keys of a dictionary. -/
def entryNames (entries : List (Value × Value)) : List String :=
  entries.filterMap fun
    | (.str name, _) => some name
    | _ => none

/-- The names in a mapping that is unpacked. -/
def unpackedNames (h : Heap) : Option Value → List String
  | some (.dict r) => entryNames (h.dict r).toList
  | _ => []

/-- The positional arguments that come from a sequence to unpack. -/
def spreadOut (g : Guest) : Option Value → Exec (List Value)
  | some v => unpackedArguments g v
  | none => return []

/-- Keyword arguments with those of a mapping to unpack. -/
def withUnpacked (kwargs : List (String × Value)) : Option Value → Exec (List (String × Value))
  | some v => unpackedKeywords kwargs v
  | none => return kwargs

variable {g : Guest} {m m' : Machine} {name : String}

theorem keywordPairs_cases (m : Machine) : ∀ ks,
    (∃ explicit, keywordPairs ks m = .ok explicit m ∧ explicit.map (·.1) = keywordNames ks) ∨
      keywordPairs ks m = (typeError "keywords must be strings" : Exec _) m
  | [] => .inl ⟨[], rfl, rfl⟩
  | [v] => .inl ⟨[], by cases v <;> rfl, by cases v <;> rfl⟩
  | key :: v :: rest => by
    cases key with
    | str name =>
      show (∃ explicit, (keywordPairs rest >>= _) m = .ok explicit m ∧ _) ∨
        (keywordPairs rest >>= _) m = _
      rw [bind_apply]
      rcases keywordPairs_cases m rest with ⟨explicit, ran, named⟩ | raised
      · rw [ran]
        exact .inl ⟨(name, v) :: explicit, rfl, congrArg (name :: ·) named⟩
      · rw [raised]
        exact .inr rfl
    | _ => exact .inr rfl

/-- Unpacked names are new, and follow the others. -/
theorem addKeywords_cases (kwargs : List (String × Value)) (entries : List (Value × Value))
    (m : Machine) :
    (∃ all, addKeywords kwargs entries m = .ok all m ∧
      all.map (·.1) = kwargs.map (·.1) ++ entryNames entries ∧
      ∀ name ∈ kwargs.map (·.1), name ∉ entryNames entries) ∨
      ∃ text, addKeywords kwargs entries m = (typeError text : Exec _) m := by
  induction entries generalizing kwargs with
  | nil => exact .inl ⟨kwargs, rfl, (List.append_nil _).symm, fun _ _ => nofun⟩
  | cons entry rest ih =>
    obtain ⟨key, v⟩ := entry
    cases key with
    | str name =>
      show (∃ all, (if kwargs.any (·.1 == name) then _ else _ : Exec _) m = .ok all m ∧ _) ∨
        ∃ text, (if kwargs.any (·.1 == name) then _ else _ : Exec _) m = _
      by_cases old : kwargs.any (·.1 == name) = true
      · simp only [if_pos old]
        exact .inr ⟨_, rfl⟩
      · simp only [if_neg old]
        refine (ih (kwargs ++ [(name, v)])).imp ?_ id
        rintro ⟨all, ran, named, apart⟩
        have fresh : name ∉ kwargs.map (·.1) := fun given => old <| by
          obtain ⟨p, hp, same⟩ := List.mem_map.mp given
          exact List.any_eq_true.mpr ⟨p, hp, beq_iff_eq.mpr same⟩
        rw [List.map_append] at named apart
        refine ⟨all, ran, by rw [named, List.append_assoc]; rfl, fun other hother => ?_⟩
        refine List.not_mem_cons_of_ne_of_not_mem ?_ (apart other (List.mem_append_left _ hother))
        exact fun same => fresh (same ▸ hother)
    | _ => exact .inr ⟨_, rfl⟩

theorem withUnpacked_cases (kwargs : List (String × Value)) (mapping : Option Value)
    (m : Machine) :
    (∃ all, withUnpacked kwargs mapping m = .ok all m ∧
      all.map (·.1) = kwargs.map (·.1) ++ unpackedNames m.heap mapping ∧
      ∀ name ∈ kwargs.map (·.1), name ∉ unpackedNames m.heap mapping) ∨
      ∃ text, withUnpacked kwargs mapping m = (typeError text : Exec _) m := by
  cases mapping with
  | none => exact .inl ⟨kwargs, rfl, (List.append_nil _).symm, fun _ _ => nofun⟩
  | some v =>
    cases v with
    | dict r => exact addKeywords_cases kwargs (m.heap.dict r).toList m
    | _ => exact .inr ⟨_, rfl⟩

/-- A keyword comes twice, or names a parameter that one of so many positional arguments
    fills. -/
inductive Clash (u : CodeUnit) (count : Nat) (explicit unpacked : List String) : Prop
  /-- both times from the stack; and the name is a parameter, or has no place to go -/
  | twice (name : String) : 2 ≤ explicit.count name →
      name ∈ u.paramNames ∨ u.flags.contains .varkeywords = false →
      Clash u count explicit unpacked
  /-- from the stack and from the mapping -/
  | unpacked (name : String) : name ∈ explicit → name ∈ unpacked →
      Clash u count explicit unpacked
  | positional (name : String) (i : Nat) : name ∈ explicit ++ unpacked →
      u.varnames[i]? = some name → i < u.argcount → i < count →
      Clash u count explicit unpacked

/-- Arguments with such a keyword are not bound. -/
theorem Clash.not_bound {u : CodeUnit} {defaults : Array Value} {args : List Value}
    {kwargs : List (String × Value)} {explicit unpacked : List String}
    (clash : Clash u args.length explicit unpacked)
    (named : kwargs.map (·.1) = explicit ++ unpacked)
    (apart : ∀ name ∈ explicit, name ∉ unpacked) :
    ∃ e, bindParameters u defaults args kwargs = .error e := by
  cases bound : bindParameters u defaults args kwargs with
  | error e => exact ⟨e, rfl⟩
  | ok b =>
    exfalso
    cases clash with
    | twice name often place =>
      have more : 2 ≤ (kwargs.map (·.1)).count name := by
        rw [named, List.count_append]
        omega
      have given : name ∈ kwargs.map (·.1) := List.count_pos_iff.mp (by omega)
      rcases names_of_bindParameters bound given with
        ⟨other, collects⟩ | ⟨once, -⟩
      · rcases place with param | none
        · exact other param
        · rw [none] at collects
          cases collects
      · omega
    | unpacked name first second => exact apart name first second
    | positional name i given hn hi filled =>
      rcases names_of_bindParameters bound (named ▸ given) with ⟨other, -⟩ | ⟨-, free⟩
      · refine other (List.mem_of_getElem? ((CodeUnit.paramNames_get hi).trans hn))
      · exact Nat.not_le_of_lt filled (free i hi hn)

/-! ## Calls -/

section Calls

variable {fuel : Nat} {r : Ref} {args keywords more : List Value} {sequence mapping : Option Value}

/-- A call of a function whose arguments are not bound. -/
theorem call_unbound (fuel : Nat) {kwargs : List (String × Value)} {e : BindError}
    (he : bindParameters (m.heap.unit (m.heap.function r).code) (m.heap.function r).defaults args
      kwargs = .error e) :
    ∃ text, (guestWithin (fuel + 1)).call (.function r) args kwargs m =
      (typeError text : Exec Value) m := by
  refine ⟨e.message (m.heap.function r) (m.heap.unit (m.heap.function r).code)
    (args.length + kwargs.length), ?_⟩
  show (frameFor (m.heap.function r) args kwargs >>= _) m = _
  rw [bind_apply, frameFor_error rfl he]
  rfl

theorem callUnpacking_eq (g : Guest) (callee : Value) (args keywords : List Value)
    (sequence mapping : Option Value) : callUnpacking g callee args keywords sequence mapping =
      keywordPairs keywords >>= fun explicit => spreadOut g sequence >>= fun more =>
        withUnpacked explicit mapping >>= fun kwargs => g.call callee (args ++ more) kwargs := by
  unfold callUnpacking spreadOut withUnpacked
  refine congrArg _ (funext fun explicit => ?_)
  cases sequence with
  | none =>
    cases mapping <;> simp only [pure_bind, List.append_nil]
  | some v =>
    cases mapping <;> simp only [pure_bind]

/-- A call whose sequence can be gone through. -/
theorem callUnpacking_clash
    (spread : spreadOut (guestWithin (fuel + 1)) sequence m = .ok more m')
    (clash : Clash (m'.heap.unit (m'.heap.function r).code) (args ++ more).length
      (keywordNames keywords) (unpackedNames m'.heap mapping)) :
    ∃ m₂ text, (m₂ = m ∨ m₂ = m') ∧
      callUnpacking (guestWithin (fuel + 1)) (.function r) args keywords sequence mapping m =
        (typeError text : Exec Value) m₂ := by
  rw [callUnpacking_eq, bind_apply]
  rcases keywordPairs_cases m keywords with ⟨explicit, ran, named⟩ | raised
  · rw [ran]
    dsimp only
    rw [bind_apply, spread]
    dsimp only
    rw [bind_apply]
    rcases withUnpacked_cases explicit mapping m' with ⟨kwargs, ran', named', apart⟩ | ⟨text, raised⟩
    · rw [ran']
      rw [← named] at clash
      obtain ⟨e, he⟩ : ∃ e, bindParameters _ (m'.heap.function r).defaults _ kwargs = .error e :=
        clash.not_bound named' apart
      obtain ⟨text, raised⟩ := call_unbound fuel he
      exact ⟨m', text, .inr rfl, raised⟩
    · rw [raised]
      exact ⟨m', text, .inr rfl, rfl⟩
  · rw [raised]
    exact ⟨m, _, .inl rfl, rfl⟩

/-- A call whose sequence cannot. -/
theorem callUnpacking_unspread {e : Fault} (callee : Value)
    (spread : spreadOut g sequence m = .error e m') :
    callUnpacking g callee args keywords sequence mapping m = .error e m' ∨
      ∃ text, callUnpacking g callee args keywords sequence mapping m =
        (typeError text : Exec Value) m := by
  rw [callUnpacking_eq, bind_apply]
  rcases keywordPairs_cases m keywords with ⟨explicit, ran, -⟩ | raised
  · rw [ran]
    dsimp only
    rw [bind_apply, spread]
    exact .inl rfl
  · rw [raised]
    exact .inr ⟨_, rfl⟩

end Calls

/-! ## Call instructions -/

theorem run_call {op : Opcode} {extras : Bool × Bool} (h : op.callExtras? = some extras)
    (g : Guest) (site : Site) (recording : Bool) (arg : Nat) :
    Primitive.run g site recording ⟨op, some arg⟩ =
      thenNext (callFunction g site recording extras arg) := by
  cases op <;> cases h <;> rfl

theorem popIf_apply {f : Frame} {v : Option Value} {rest : List Value} {present : Bool}
    (hv : v.isSome = present) (stack : f.stack = v.toList ++ rest) :
    popIf present ⟨f, m⟩ = .ok v ⟨{ f with stack := rest }, m⟩ := by
  subst hv
  cases v with
  | none =>
    have same : { f with stack := rest } = f := by rw [← show f.stack = rest from stack]
    rw [same]
    rfl
  | some v =>
    show (some <$> pop) (⟨f, m⟩ : Activation) = _
    rw [map_eq_pure_bind, bind_apply, pop_apply stack]
    rfl

/-- A call instruction on a stack that holds what it calls for. -/
theorem callFunction_apply {f : Frame} {site : Site} {recording : Bool} {extras : Bool × Bool}
    {arg : Nat} {callee : Value} {args keywords rest : List Value}
    {sequence mapping : Option Value} (hm : mapping.isSome = extras.2)
    (hs : sequence.isSome = extras.1) (hk : keywords.length = keywordCount arg * 2)
    (ha : args.length = positionalCount arg) (stack : f.stack = mapping.toList ++
      (sequence.toList ++ (keywords.reverse ++ (args.reverse ++ callee :: rest)))) :
    callFunction g site recording extras arg ⟨f, m⟩ =
      (onMachine (callUnpacking g callee args keywords sequence mapping) >>= push)
        ⟨{ f with stack := rest },
          if recording then m.mapFeedback f.code.id (·.recordCallee site callee) else m⟩ := by
  unfold callFunction
  rw [bind_apply, popIf_apply hm stack]
  dsimp only
  rw [bind_apply, popIf_apply hs rfl]
  dsimp only
  rw [bind_apply, popN_apply hk rfl]
  dsimp only
  rw [bind_apply, popN_apply ha rfl]
  dsimp only
  rw [bind_apply, pop_apply rfl]
  cases recording <;> rfl

/-- **A keyword that comes twice is an error.**  In every call instruction whose callee is a
    function, on every stack that holds what the instruction takes off it:

    * where a keyword comes twice from the stack, from the stack and from the mapping that is
      unpacked, or names a parameter that a positional argument fills, a type error is raised
      before a frame is made.  It comes before or after the sequence is gone through;
    * a call that fails to go through the sequence fails with that;
    * except that a name that is no parameter can come twice from the stack, when surplus
      keywords are collected.  Then the last value stays, and the others are lost. -/
theorem clash_raises {op : Opcode} {extras : Bool × Bool} {f : Frame} {arg : Nat} {r : Ref}
    {args keywords rest : List Value} {sequence mapping : Option Value} (m : Machine)
    (fuel : Nat) (site : Site) (recording : Bool) (call : op.callExtras? = some extras)
    (hm : mapping.isSome = extras.2) (hs : sequence.isSome = extras.1)
    (hk : keywords.length = keywordCount arg * 2) (ha : args.length = positionalCount arg)
    (stack : f.stack = mapping.toList ++
      (sequence.toList ++ (keywords.reverse ++ (args.reverse ++ .function r :: rest)))) :
    let g := guestWithin (fuel + 1)
    let m₀ := if recording then m.mapFeedback f.code.id (·.recordCallee site (.function r)) else m
    let taken := { f with stack := rest }
    let result := Primitive.run g site recording ⟨op, some arg⟩ ⟨f, m⟩
    (∀ more m', spreadOut g sequence m₀ = .ok more m' →
      Clash (m'.heap.unit (m'.heap.function r).code) (args ++ more).length
        (keywordNames keywords) (unpackedNames m'.heap mapping) →
      ∃ m₂ text, (m₂ = m₀ ∨ m₂ = m') ∧ result = onMachine (typeError text) ⟨taken, m₂⟩) ∧
    (∀ e m', spreadOut g sequence m₀ = .error e m' → result = .error e ⟨taken, m'⟩ ∨
      ∃ text, result = onMachine (typeError text) ⟨taken, m₀⟩) ∧
    ∀ (h : Heap) args kwargs b,
      bindParameters (h.unit (h.function r).code) (h.function r).defaults args kwargs = .ok b →
      ∀ name ∉ (h.unit (h.function r).code).paramNames,
        (({} : Dict).withNames b.keywords).get? (.str name) = List.lookup name kwargs.reverse := by
  intro g m₀ taken result
  have ran : result = (thenNext (onMachine
      (callUnpacking g (.function r) args keywords sequence mapping) >>= push)) ⟨taken, m₀⟩ := by
    show Primitive.run g site recording ⟨op, some arg⟩ ⟨f, m⟩ = _
    rw [run_call call]
    unfold thenNext
    rw [bind_apply, bind_apply, callFunction_apply hm hs hk ha stack]
  have failed {e : Fault} {m' : Machine} (h : callUnpacking g (.function r) args keywords sequence
      mapping m₀ = .error e m') : result = .error e ⟨taken, m'⟩ := by
    rw [ran]
    unfold thenNext
    rw [bind_apply, bind_apply, onMachine_apply, h]
  refine ⟨fun more m' spread clash => ?_, fun e m' spread => ?_,
    fun h args kwargs b bound name surplus => surplus_value bound surplus⟩
  · obtain ⟨m₂, text, which, raised⟩ := callUnpacking_clash spread clash
    exact ⟨m₂, text, which, failed raised⟩
  · rcases callUnpacking_unspread (.function r) spread with raised | ⟨text, raised⟩
    · exact .inl (failed raised)
    · exact .inr ⟨text, failed raised⟩

end Primitive

/-! ### A function that collects keywords -/

/-- The parts of a unit with one parameter that returns the surplus keywords. -/
def CodeParts.collects : CodeParts where
  name := "f"
  argcount := 1
  flags := .varkeywords
  words := #[.ofOpcode .loadFast, ⟨3⟩, .ofOpcode .returnValue]
  varnames := #["a", "kw"]

/-- The unit with these parts. -/
def CodeUnit.collects : CodeUnit := (CodeUnit.ofParts 0 .collects).toOption.getD default

/-- A machine with a function over that unit. -/
def Machine.collecting : Machine where
  config := {}
  heap := { units := #[.collects], namespaces := #[{}, {}]
            functions := #[{ name := "f", code := 0, globals := 0 }] }
  units := #[{}]
  globals := 0
  builtins := 1
  bailError := false
  control := .never
  timer := .new 1 false

/-- A frame with what a call takes off its stack. -/
def Frame.calling (stack : List Value) : Frame where
  code := .collects
  globals := 0
  builtins := 1
  stack := stack
  locals := #[]
  cells := #[]

open Primitive in
/-- A positional argument and a keyword for one parameter. -/
theorem clash_raises_of_collecting :
    let run := Primitive.run (guestWithin 9) ⟨0, 0⟩ false ⟨.callFunction, some 257⟩
    Clash .collects 1 ["a"] [] ∧
    ∃ text, run ⟨.calling [.int 1, .str "a", .int 7, .function 0], .collecting⟩ =
      onMachine (typeError text) ⟨.calling [], .collecting⟩ := by
  intro run
  have clash : Clash .collects 1 ["a"] [] := .positional "a" 0 (by simp)
    (by decide +kernel) (by decide +kernel) Nat.one_pos
  have call : Opcode.callFunction.callExtras? = some (false, false) := rfl
  have absent : (none : Option Value).isSome = false := rfl
  have keywords : [Value.str "a", .int 1].length = keywordCount 257 * 2 := rfl
  have args : [Value.int 7].length = positionalCount 257 := rfl
  have stack : (Frame.calling [.int 1, .str "a", .int 7, .function 0]).stack =
      (none : Option Value).toList ++ ((none : Option Value).toList ++
        ([.str "a", .int 1].reverse ++ ([.int 7].reverse ++ .function 0 :: []))) := rfl
  obtain ⟨m₂, text, which, raised⟩ := (clash_raises .collecting 8 ⟨0, 0⟩ false call absent absent
    keywords args stack).1 [] .collecting rfl clash
  rcases which with rfl | rfl <;> exact ⟨clash, text, raised⟩

/-- A keyword that is no parameter comes twice from the stack.  The callee runs and answers
    the surplus keywords, and the first of the two values is lost. -/
theorem first_keyword_is_lost :
    let result := Primitive.run (guestWithin 9) ⟨0, 0⟩ false ⟨.callFunction, some 513⟩
      ⟨.calling [.int 2, .str "x", .int 1, .str "x", .int 7, .function 0], .collecting⟩
    (finalState result).frame.stack = [.dict 0] ∧
    ∃ b, bindParameters .collects #[] [.int 7] [("x", .int 1), ("x", .int 2)] = .ok b ∧
      (({} : Dict).withNames b.keywords).get? (.str "x") = some (.int 2) := by
  refine ⟨by decide +kernel, ?_⟩
  have fits : (bindParameters .collects #[] [.int 7] [("x", .int 1), ("x", .int 2)]).toOption.isSome :=
    by decide +kernel
  cases bound : bindParameters .collects #[] [.int 7] [("x", .int 1), ("x", .int 2)] with
  | ok b => exact ⟨b, rfl, surplus_value bound (by decide +kernel)⟩
  | error e =>
    rw [bound] at fits
    cases fits

end TieredMachine
