/-
  Which arguments fit parameters, and what the parameters hold then.

  Positional arguments, keyword arguments and defaults are bound one kind after the other.
  What comes of it can be told for each argument and for each parameter by itself: a keyword
  argument is taken if it names a parameter that no positional argument fills, or none at all
  where such arguments are collected; and a parameter holds the positional argument of its
  place, or else the keyword argument of its name, or else its default.

  * `CodeUnit.argument?`: what a parameter is given;
  * `CodeUnit.Admits`: arguments that fit;
  * `bindKeywords_ok`, `fillDefaults_ok`: keyword arguments, and defaults;
  * `bindParameters_ok`, `bindParameters_admits`: the whole binding.
-/
import TieredMachine.Proofs.Code.Unit
import TieredMachine.Run.Binding

namespace TieredMachine

/-! ## Parameters and arguments -/

/-- The first items of an array. -/
theorem getElem?_toList_extract {α : Type} {xs : Array α} {n i : Nat} (hi : i < n) :
    (xs.extract 0 n).toList[i]? = xs[i]? := by
  rw [Array.getElem?_toList, Array.getElem?_extract]
  by_cases h : i < xs.size
  · rw [if_pos (by omega), Nat.zero_add]
  · rw [if_neg (by omega), Array.getElem?_eq_none (Nat.le_of_not_lt h)]

theorem length_toList_extract {α : Type} {xs : Array α} {n : Nat} (h : n ≤ xs.size) :
    (xs.extract 0 n).toList.length = n := by
  rw [Array.length_toList, Array.size_extract]
  omega

namespace CodeUnit

variable (u : CodeUnit) (defaults : Array Value) (args : List Value)
  (kwargs : List (String × Value))

/-- The names of the parameters. -/
def paramNames : List String := (u.varnames.extract 0 u.argcount).toList

/-- The default of a parameter; the defaults are those of the last parameters. -/
def default? (i : Nat) : Option Value :=
  if u.argcount ≤ i + defaults.size then defaults[i + defaults.size - u.argcount]? else none

/-- What a parameter is given. -/
def argument? (i : Nat) : Option Value :=
  args[i]? <|> (u.varnames[i]?.bind (List.lookup · kwargs)) <|> u.default? defaults i

/-- The arguments fit the parameters. -/
structure Admits : Prop where
  /-- a surplus of positional arguments has a place to go -/
  surplus : args.length ≤ u.argcount ∨ u.flags.contains .varargs
  /-- keyword arguments name parameters that no positional argument fills, or have a place
      to go -/
  keyword : ∀ p ∈ kwargs, (∃ i < u.argcount, u.varnames[i]? = some p.1 ∧ args.length ≤ i) ∨
    u.flags.contains .varkeywords ∧ ∀ i < u.argcount, u.varnames[i]? ≠ some p.1
  /-- every parameter is given something -/
  filled : ∀ i < u.argcount, (u.argument? defaults args kwargs i).isSome

instance : Decidable (u.Admits defaults args kwargs) :=
  decidable_of_iff ((args.length ≤ u.argcount ∨ u.flags.contains .varargs) ∧
    (∀ p ∈ kwargs, (∃ i < u.argcount, u.varnames[i]? = some p.1 ∧ args.length ≤ i) ∨
      u.flags.contains .varkeywords ∧ ∀ i < u.argcount, u.varnames[i]? ≠ some p.1) ∧
    ∀ i < u.argcount, (u.argument? defaults args kwargs i).isSome)
    ⟨fun h => ⟨h.1, h.2.1, h.2.2⟩, fun h => ⟨h.surplus, h.keyword, h.filled⟩⟩

variable {u defaults args kwargs}

theorem paramNames_get {i : Nat} (hi : i < u.argcount) : u.paramNames[i]? = u.varnames[i]? :=
  getElem?_toList_extract hi

theorem paramNames_length (h : u.argcount ≤ u.varnames.size) : u.paramNames.length = u.argcount :=
  length_toList_extract h

theorem mem_paramNames (h : u.argcount ≤ u.varnames.size) {name : String} :
    name ∈ u.paramNames ↔ ∃ i < u.argcount, u.varnames[i]? = some name := by
  rw [List.mem_iff_getElem?]
  refine exists_congr fun i => ⟨fun hi => ?_, fun ⟨hlt, hi⟩ => by rw [paramNames_get hlt, hi]⟩
  have hlt : i < u.argcount := by
    rw [← paramNames_length h]
    exact (List.getElem?_eq_some_iff.mp hi).1
  exact ⟨hlt, by rw [← paramNames_get hlt, hi]⟩

end CodeUnit

namespace Binding

variable {names : List String} {collecting : Bool} {b b' : Binding} {args : List Value}
  {kwargs : List (String × Value)} {i count : Nat}

/-! ## Positional arguments -/

theorem positional_size (count : Nat) (args : List Value) :
    (positional count args).params.size = count := by
  unfold positional
  rw [List.size_toArray, List.length_append, List.length_map, List.length_take,
    List.length_replicate]
  omega

theorem positional_get (hi : i < count) : (positional count args).params[i]? = some args[i]? := by
  unfold positional
  rw [List.getElem?_toArray]
  by_cases h : i < args.length
  · rw [List.getElem?_append_left (by rw [List.length_map, List.length_take]; omega),
      List.getElem?_map, List.getElem?_take_of_lt hi, List.getElem?_eq_getElem h]
    rfl
  · rw [List.getElem?_append_right (by rw [List.length_map, List.length_take]; omega),
      List.length_map, List.length_take, List.getElem?_replicate, if_pos (by omega),
      List.getElem?_eq_none (Nat.le_of_not_lt h)]

/-! ## Keyword arguments -/

/-- A keyword argument of the name is taken. -/
def Takes (names : List String) (collecting : Bool) (b : Binding) (name : String) : Prop :=
  (∃ i : Nat, names[i]? = some name ∧ b.params[i]? = some none) ∨ collecting ∧ name ∉ names

theorem findIdx?_eq_some_iff (distinct : names.Nodup) {name : String} :
    names.findIdx? (· == name) = some i ↔ names[i]? = some name := by
  rw [List.findIdx?_eq_some_iff_getElem, List.getElem?_eq_some_iff]
  refine exists_congr fun hi => ⟨fun ⟨h, _⟩ => eq_of_beq h, fun h => ⟨beq_iff_eq.mpr h, ?_⟩⟩
  intro j hj he
  exact List.pairwise_iff_getElem.mp distinct j i (Nat.lt_trans hj hi) hi hj
    ((eq_of_beq he).trans h.symm)

theorem findIdx?_eq_none_iff {name : String} :
    names.findIdx? (· == name) = none ↔ name ∉ names := by
  rw [List.findIdx?_eq_none_iff]
  exact ⟨fun h hm => absurd (h name hm) (by simp),
    fun h x hx => beq_eq_false_iff_ne.mpr fun he => h (he ▸ hx)⟩

/-- What a keyword argument does. -/
def take (names : List String) (b : Binding) (arg : String × Value) : Binding :=
  match names.findIdx? (· == arg.1) with
  | some i => { b with params := b.params.setIfInBounds i (some arg.2) }
  | none => { b with keywords := b.keywords ++ [arg] }

/-- A keyword argument is taken, or is an error. -/
theorem keyword_cases (distinct : names.Nodup) (size : b.params.size = names.length)
    (arg : String × Value) :
    Takes names collecting b arg.1 ∧ keyword names collecting b arg = .ok (take names b arg) ∨
      ¬Takes names collecting b arg.1 ∧ ∃ e, keyword names collecting b arg = .error e := by
  unfold keyword take
  cases hidx : names.findIdx? (· == arg.1) with
  | some i =>
    have hi := (findIdx?_eq_some_iff distinct).mp hidx
    have hlt : i < b.params.size := size ▸ (List.getElem?_eq_some_iff.mp hi).1
    have hmem : arg.1 ∈ names := List.mem_of_getElem? hi
    dsimp only
    cases hp : b.params[i] with
    | none =>
      have free : b.params[i]? = some none := by rw [Array.getElem?_eq_getElem hlt, hp]
      rw [free]
      exact .inl ⟨Or.inl ⟨i, hi, free⟩, rfl⟩
    | some v =>
      have held : b.params[i]? = some (some v) := by rw [Array.getElem?_eq_getElem hlt, hp]
      rw [held]
      refine .inr ⟨?_, _, rfl⟩
      rintro (⟨j, hj, free⟩ | ⟨-, other⟩)
      · have same := (findIdx?_eq_some_iff distinct).mpr hj
        rw [hidx] at same
        cases same
        rw [held] at free
        cases free
      · exact other hmem
  | none =>
    have other := findIdx?_eq_none_iff.mp hidx
    dsimp only
    cases collecting with
    | true => exact .inl ⟨Or.inr ⟨rfl, other⟩, rfl⟩
    | false =>
      refine .inr ⟨?_, _, rfl⟩
      rintro (⟨j, hj, -⟩ | ⟨no, -⟩)
      · exact other (List.mem_of_getElem? hj)
      · cases no

theorem take_size (arg : String × Value) : (take names b arg).params.size = b.params.size := by
  unfold take
  split
  · exact Array.size_setIfInBounds
  · rfl

theorem take_rest (arg : String × Value) : (take names b arg).rest = b.rest := by
  unfold take
  split <;> rfl

theorem take_keywords (arg : String × Value) : (take names b arg).keywords =
    b.keywords ++ [arg].filter fun p => decide (p.1 ∉ names) := by
  unfold take
  split
  · rename_i i hi
    have named : arg.1 ∈ names := Decidable.not_not.mp fun other => by
      rw [findIdx?_eq_none_iff.mpr other] at hi
      cases hi
    rw [List.filter_cons_of_neg (by simpa using named), List.filter_nil, List.append_nil]
  · rename_i hi
    rw [List.filter_cons_of_pos (by simpa using findIdx?_eq_none_iff.mp hi), List.filter_nil]

theorem take_get (distinct : names.Nodup) (size : b.params.size = names.length)
    (arg : String × Value) (i : Nat) : (take names b arg).params[i]? =
      if names[i]? = some arg.1 then some (some arg.2) else b.params[i]? := by
  unfold take
  split
  · rename_i j hj
    have hj := (findIdx?_eq_some_iff distinct).mp hj
    have hlt : j < b.params.size := size ▸ (List.getElem?_eq_some_iff.mp hj).1
    rw [Array.getElem?_setIfInBounds]
    by_cases hi : j = i
    · subst hi
      rw [if_pos rfl, if_pos hlt, if_pos hj]
    · rw [if_neg hi, if_neg fun h => hi (Option.some.inj
        (((findIdx?_eq_some_iff distinct).mpr hj).symm.trans
          ((findIdx?_eq_some_iff distinct).mpr h)))]
  · rename_i hj
    rw [if_neg fun h => findIdx?_eq_none_iff.mp hj (List.mem_of_getElem? h)]

/-- Another keyword is taken as before. -/
theorem takes_take (distinct : names.Nodup) (size : b.params.size = names.length)
    {arg : String × Value} {name : String} (other : name ≠ arg.1) :
    Takes names collecting (take names b arg) name ↔ Takes names collecting b name := by
  unfold Takes
  refine or_congr (exists_congr fun i => and_congr_right fun hi => ?_) Iff.rfl
  rw [take_get distinct size, if_neg fun h => other (Option.some.inj (hi.symm.trans h))]

/-- Keyword arguments that are all taken. -/
theorem bindKeywords_ok (distinct : names.Nodup) (size : b.params.size = names.length)
    (apart : (kwargs.map (·.1)).Nodup) (takes : ∀ p ∈ kwargs, Takes names collecting b p.1) :
    ∃ b', kwargs.foldlM (keyword names collecting) b = .ok b' ∧ b'.params.size = b.params.size ∧
      b'.rest = b.rest ∧
      b'.keywords = b.keywords ++ kwargs.filter (fun p => decide (p.1 ∉ names)) ∧
      ∀ i : Nat, b'.params[i]?.join = (b.params[i]?.join <|> names[i]?.bind (List.lookup · kwargs)) := by
  induction kwargs generalizing b with
  | nil =>
    refine ⟨b, rfl, rfl, rfl, (List.append_nil _).symm, fun i => ?_⟩
    cases names[i]? <;> simp
  | cons arg kwargs ih =>
    obtain ⟨new, apart⟩ := List.nodup_cons.mp apart
    have other (p : String × Value) (hp : p ∈ kwargs) : p.1 ≠ arg.1 :=
      fun h => new (List.mem_map.mpr ⟨p, hp, h⟩)
    have own := takes arg List.mem_cons_self
    rcases keyword_cases distinct size arg with ⟨-, ok⟩ | ⟨no, -⟩
    · obtain ⟨b', hb', size', rest', keywords', get'⟩ := ih
        (b := take names b arg) (by rw [take_size, size]) apart fun p hp =>
          (takes_take distinct size (other p hp)).mpr (takes p (List.mem_cons_of_mem _ hp))
      refine ⟨b', ?_, by rw [size', take_size], by rw [rest', take_rest], ?_, fun i => ?_⟩
      · rw [List.foldlM_cons]
        exact except_bind_ok.mpr ⟨_, ok, hb'⟩
      · rw [keywords', take_keywords, List.append_assoc, ← List.filter_append,
          List.singleton_append]
      · rw [get', take_get distinct size]
        by_cases hi : names[i]? = some arg.1
        · rw [if_pos hi, hi]
          rcases own with ⟨j, hj, free⟩ | ⟨-, none⟩
          · have same := (findIdx?_eq_some_iff distinct).mpr hj
            rw [(findIdx?_eq_some_iff distinct).mpr hi] at same
            cases same
            have found : List.lookup arg.1 (arg :: kwargs) = some arg.2 := by
              rw [List.lookup_cons, beq_self_eq_true]
            rw [free, Option.bind_some, Option.bind_some, found]
            rfl
          · exact absurd (List.mem_of_getElem? hi) none
        · rw [if_neg hi]
          cases hn : names[i]? with
          | none => rfl
          | some name =>
            have ne : (name == arg.1) = false :=
              beq_eq_false_iff_ne.mpr fun h => hi (by rw [hn, h])
            rw [Option.bind_some, Option.bind_some, List.lookup_cons, ne]
    · exact absurd own no

/-- Keyword arguments that are bound are all taken. -/
theorem takes_of_bindKeywords (distinct : names.Nodup) (size : b.params.size = names.length)
    (apart : (kwargs.map (·.1)).Nodup)
    (h : kwargs.foldlM (keyword names collecting) b = .ok b') :
    ∀ p ∈ kwargs, Takes names collecting b p.1 := by
  induction kwargs generalizing b with
  | nil => exact fun _ hp => absurd hp List.not_mem_nil
  | cons arg kwargs ih =>
    obtain ⟨new, apart⟩ := List.nodup_cons.mp apart
    rw [List.foldlM_cons] at h
    obtain ⟨b₁, hb₁, h⟩ := except_bind_ok.mp h
    rcases keyword_cases distinct size arg with ⟨own, ok⟩ | ⟨-, e, error⟩
    · obtain rfl : take names b arg = b₁ := Except.ok.inj (ok.symm.trans hb₁)
      intro p hp
      rcases List.mem_cons.mp hp with rfl | hp
      · exact own
      · exact (takes_take distinct size fun h => new (List.mem_map.mpr ⟨p, hp, h⟩)).mp
          (ih (by rw [take_size, size]) apart h p hp)
    · rw [error] at hb₁
      cases hb₁

/-! ## Defaults -/

theorem mapM_ok_of_forall {ε α β : Type} {f : α → Except ε β} {g : α → β} {as : List α}
    (h : ∀ a ∈ as, f a = .ok (g a)) : as.mapM f = .ok (as.map g) := by
  induction as with
  | nil => rfl
  | cons a as ih =>
    rw [List.mapM_cons]
    exact except_bind_ok.mpr ⟨_, h a List.mem_cons_self, except_bind_ok.mpr
      ⟨_, ih fun a ha => h a (List.mem_cons_of_mem _ ha), rfl⟩⟩

/-- What the parameter at an index holds after the defaults are filled in. -/
def settle (defaults : Array Value) (b : Binding) (p : Option Value × Nat) : Option Value :=
  p.1 <|> defaults[p.2 - (b.params.size - defaults.size)]?

/-- Every parameter is filled, or has a default. -/
theorem fillDefaults_ok {defaults : Array Value}
    (h : ∀ i < b.params.size, (b.params[i]?.join).isSome ∨ b.params.size - defaults.size ≤ i) :
    ∃ b', b.fillDefaults defaults = .ok b' ∧ b'.rest = b.rest ∧ b'.keywords = b.keywords ∧
      b'.params.size = b.params.size ∧ ∀ i < b.params.size, b'.params[i]? =
        some (b.params[i]?.join <|> defaults[i - (b.params.size - defaults.size)]?) := by
  refine ⟨{ b with params := (b.params.toList.zipIdx.map (settle defaults b)).toArray },
    ?_, rfl, rfl, by simp, fun i hi => ?_⟩
  · refine except_bind_ok.mpr ⟨_, mapM_ok_of_forall (g := settle defaults b) fun p hp => ?_, rfl⟩
    obtain ⟨v, i⟩ := p
    obtain ⟨hi, hv⟩ := List.mem_zipIdx' hp
    unfold settle
    cases v with
    | some v => rfl
    | none =>
      have later : b.params.size - defaults.size ≤ i := by
        refine (h i (by simpa using hi)).resolve_left fun filled => ?_
        have : b.params[i]? = some none := by
          rw [← Array.getElem?_toList, List.getElem?_eq_getElem hi, ← hv]
        rw [this] at filled
        cases filled
      dsimp only
      rw [if_pos later]
      cases defaults[i - (b.params.size - defaults.size)]? <;> rfl
  · rw [List.getElem?_toArray, List.getElem?_map, List.getElem?_zipIdx, Array.getElem?_toList,
      Array.getElem?_eq_getElem hi]
    simp [settle]

/-- Where defaults could be filled in, every parameter was filled or has one. -/
theorem filled_of_fillDefaults {defaults : Array Value}
    (h : b.fillDefaults defaults = .ok b') :
    ∀ i < b.params.size, (b.params[i]?.join).isSome ∨ b.params.size - defaults.size ≤ i := by
  intro i hi
  obtain ⟨params, hm, -⟩ := except_bind_ok.mp h
  have mem : (b.params[i], i) ∈ b.params.toList.zipIdx := by
    rw [List.mem_zipIdx_iff_getElem?, Array.getElem?_toList, Array.getElem?_eq_getElem hi]
  obtain ⟨v, -, hv⟩ := exists_of_mapM_ok hm mem
  rw [Array.getElem?_eq_getElem hi]
  cases hp : b.params[i] with
  | some v => exact .inl rfl
  | none =>
    rw [hp] at hv
    dsimp only at hv
    split at hv
    · rename_i later
      exact .inr later
    · cases hv

end Binding

/-! ## The whole binding -/

section

open Binding

variable {u : CodeUnit} {defaults : Array Value} {args : List Value}
  {kwargs : List (String × Value)} {b : Binding} {i : Nat}

/-- The defaults are those of the last parameters. -/
theorem CodeUnit.default?_eq (few : defaults.size ≤ u.argcount)
    (hi : u.argcount - defaults.size ≤ i) :
    u.default? defaults i = defaults[i - (u.argcount - defaults.size)]? := by
  unfold CodeUnit.default?
  rw [if_pos (by omega)]
  congr 1
  omega

theorem CodeUnit.default?_isSome (few : defaults.size ≤ u.argcount) (hi : i < u.argcount) :
    (u.default? defaults i).isSome ↔ u.argcount - defaults.size ≤ i := by
  constructor
  · intro h
    refine Decidable.not_not.mp fun early => ?_
    unfold CodeUnit.default? at h
    rw [if_neg (by omega)] at h
    cases h
  · intro h
    rw [default?_eq few h, Array.getElem?_eq_getElem (by omega)]
    rfl

/-- Keyword arguments that are taken after the positional ones. -/
theorem takes_positional (enough : u.argcount ≤ u.varnames.size) {collecting : Bool}
    {name : String} : Takes u.paramNames collecting (positional u.argcount args) name ↔
      (∃ i < u.argcount, u.varnames[i]? = some name ∧ args.length ≤ i) ∨
        collecting ∧ ∀ i < u.argcount, u.varnames[i]? ≠ some name := by
  unfold Takes
  refine or_congr (exists_congr fun i => ⟨fun ⟨hn, free⟩ => ?_, fun ⟨hi, hn, late⟩ => ?_⟩)
    (and_congr_right fun _ => ?_)
  · have hi : i < u.argcount := by
      rw [← CodeUnit.paramNames_length enough]
      exact (List.getElem?_eq_some_iff.mp hn).1
    rw [positional_get hi] at free
    exact ⟨hi, by rw [← CodeUnit.paramNames_get hi, hn],
      List.getElem?_eq_none_iff.mp (Option.some.inj free)⟩
  · exact ⟨by rw [CodeUnit.paramNames_get hi, hn],
      by rw [positional_get hi, List.getElem?_eq_none late]⟩
  · rw [CodeUnit.mem_paramNames enough]
    exact ⟨fun h i hi hn => h ⟨i, hi, hn⟩, fun h ⟨i, hi, hn⟩ => h i hi hn⟩

/-- The argument that a parameter is given, if it is given one. -/
theorem CodeUnit.argument?_of_given {v : Value}
    (h : (args[i]? <|> u.varnames[i]?.bind (List.lookup · kwargs)) = some v) :
    u.argument? defaults args kwargs i = some v := by
  unfold CodeUnit.argument?
  cases ha : args[i]? with
  | some w =>
    rw [ha] at h
    exact h
  | none =>
    rw [ha] at h
    show (u.varnames[i]?.bind (List.lookup · kwargs) <|> u.default? defaults i) = some v
    rw [show u.varnames[i]?.bind (List.lookup · kwargs) = some v from h]
    rfl

/-- A parameter that is given no argument has its default. -/
theorem CodeUnit.argument?_of_not_given
    (h : (args[i]? <|> u.varnames[i]?.bind (List.lookup · kwargs)) = none) :
    u.argument? defaults args kwargs i = u.default? defaults i := by
  unfold CodeUnit.argument?
  cases ha : args[i]? with
  | some w =>
    rw [ha] at h
    cases h
  | none =>
    rw [ha] at h
    show (u.varnames[i]?.bind (List.lookup · kwargs) <|> u.default? defaults i) = _
    rw [show u.varnames[i]?.bind (List.lookup · kwargs) = none from h]
    rfl

variable (enough : u.argcount ≤ u.varnames.size) (distinct : u.paramNames.Nodup)
  (apart : (kwargs.map (·.1)).Nodup) (few : defaults.size ≤ u.argcount)

include enough distinct apart

/-- Keyword arguments after the positional ones. -/
theorem bindKeywords_positional (h : ∀ p ∈ kwargs, Takes u.paramNames
      (u.flags.contains .varkeywords) (positional u.argcount args) p.1) :
    ∃ b, kwargs.foldlM (keyword u.paramNames (u.flags.contains .varkeywords))
        (positional u.argcount args) = .ok b ∧ b.params.size = u.argcount ∧
      b.rest = args.drop u.argcount ∧
      b.keywords = kwargs.filter (fun p => decide (p.1 ∉ u.paramNames)) ∧
      ∀ i < u.argcount, b.params[i]?.join =
        (args[i]? <|> u.varnames[i]?.bind (List.lookup · kwargs)) := by
  have size := positional_size u.argcount args
  obtain ⟨b, hb, size', rest, keywords, get⟩ := bindKeywords_ok distinct
    (size.trans (CodeUnit.paramNames_length enough).symm) apart h
  refine ⟨b, hb, size'.trans size, rest, by rw [keywords]; rfl, fun i hi => ?_⟩
  rw [get, positional_get hi, CodeUnit.paramNames_get hi]
  rfl

include few

/-- Arguments that fit are bound, and each parameter holds what it is given. -/
theorem bindParameters_ok (h : u.Admits defaults args kwargs) :
    ∃ b, bindParameters u defaults args kwargs = .ok b ∧ b.rest = args.drop u.argcount ∧
      b.keywords = kwargs.filter (fun p => decide (p.1 ∉ u.paramNames)) ∧
      b.params.size = u.argcount ∧
      ∀ i < u.argcount, b.params[i]? = some (u.argument? defaults args kwargs i) := by
  have takes : ∀ p ∈ kwargs, Takes u.paramNames (u.flags.contains .varkeywords)
      (positional u.argcount args) p.1 :=
    fun p hp => (takes_positional enough).mpr (h.keyword p hp)
  obtain ⟨b₁, hb₁, size, rest₁, keywords₁, given⟩ :=
    bindKeywords_positional enough distinct apart takes
  have filled (i : Nat) (hi : i < u.argcount) :
      (b₁.params[i]?.join).isSome ∨ u.argcount - defaults.size ≤ i := by
    rw [given i hi]
    cases hg : (args[i]? <|> u.varnames[i]?.bind (List.lookup · kwargs)) with
    | some v => exact .inl rfl
    | none =>
      have := h.filled i hi
      rw [CodeUnit.argument?_of_not_given hg] at this
      exact .inr ((CodeUnit.default?_isSome few hi).mp this)
  obtain ⟨b, hb, rest, keywords, size', get⟩ := fillDefaults_ok (size.symm ▸ filled)
  rw [size] at get
  refine ⟨b, ?_, rest.trans rest₁, keywords.trans keywords₁, size'.trans size, fun i hi => ?_⟩
  · unfold bindParameters
    have surplus : (!(positional u.argcount args).rest.isEmpty &&
        !u.flags.contains .varargs) = false := by
      rcases h.surplus with fit | place
      · rw [show (positional u.argcount args).rest = [] from List.drop_eq_nil_of_le fit]
        rfl
      · rw [place, Bool.not_true, Bool.and_false]
    dsimp only
    rw [surplus]
    exact except_bind_ok.mpr ⟨b₁, hb₁, hb⟩
  · rw [get i hi]
    cases hg : (args[i]? <|> u.varnames[i]?.bind (List.lookup · kwargs)) with
    | some v => rw [given i hi, hg, CodeUnit.argument?_of_given hg]; rfl
    | none =>
      have later := filled i hi
      rw [given i hi, hg] at later
      rw [given i hi, hg, CodeUnit.argument?_of_not_given hg,
        CodeUnit.default?_eq few (later.resolve_left Bool.noConfusion)]
      rfl

/-- Arguments that are bound fit. -/
theorem bindParameters_admits (h : bindParameters u defaults args kwargs = .ok b) :
    u.Admits defaults args kwargs := by
  unfold bindParameters at h
  dsimp only at h
  split at h
  · cases h
  rename_i surplus
  obtain ⟨b₁, hb₁, hb⟩ := except_bind_ok.mp h
  have takes := takes_of_bindKeywords distinct
    ((positional_size u.argcount args).trans (CodeUnit.paramNames_length enough).symm) apart hb₁
  obtain ⟨b₂, hb₂, size, -, -, given⟩ := bindKeywords_positional enough distinct apart takes
  obtain rfl : b₁ = b₂ := Except.ok.inj (hb₁.symm.trans hb₂)
  refine ⟨?_, fun p hp => (takes_positional enough).mp (takes p hp), fun i hi => ?_⟩
  · cases place : u.flags.contains .varargs with
    | true => exact .inr rfl
    | false =>
      rw [place, Bool.not_false, Bool.and_true, Bool.not_eq_true, Bool.not_eq_false',
        List.isEmpty_iff] at surplus
      exact .inl (List.drop_eq_nil_iff.mp surplus)
  · have filled := filled_of_fillDefaults hb i (by rwa [size])
    rw [size, given i hi] at filled
    cases hg : (args[i]? <|> u.varnames[i]?.bind (List.lookup · kwargs)) with
    | some v => rw [CodeUnit.argument?_of_given hg]; rfl
    | none =>
      rw [hg] at filled
      rw [CodeUnit.argument?_of_not_given hg]
      exact (CodeUnit.default?_isSome few hi).mpr (filled.resolve_left Bool.noConfusion)

end

end TieredMachine
