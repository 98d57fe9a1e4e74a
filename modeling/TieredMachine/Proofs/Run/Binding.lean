/-
  What the frame of a call holds.

  The slots of a unit are the parameters, the places of surplus arguments, and the other
  variables, in this order, and the construction of the unit has seen to it that there are so
  many.  A call fills the slots from its arguments and gives the cells of captured parameters
  what their slots hold; arguments that do not fit raise an error before anything is made.

  * `CodeUnit.Slots`: the slots of a unit;
  * `newFrame_apply`, `placeSurplus_ok`, `fillCells_ok`: the steps of making a frame;
  * `CodeUnit.Bound`: a frame that holds the arguments of its call;
  * **`frameFor_binds`**: argument binding.
-/
import TieredMachine.Proofs.Run.Parameters
import TieredMachine.Proofs.Generator.Resume

namespace TieredMachine

/-! ## Slots -/

theorem CodeFlags.contains_addIf {f g p : CodeFlags} (h : g.bits &&& p.bits = 0) (c : Bool) :
    (f.addIf c g).contains p = f.contains p := by
  cases c with
  | false => rfl
  | true =>
    have apart := congrArg UInt32.toBitVec h
    rw [UInt32.toBitVec_and] at apart
    have bits : (f.bits ||| g.bits) &&& p.bits = f.bits &&& p.bits := by
      apply UInt32.toBitVec_inj.mp
      rw [UInt32.toBitVec_and, UInt32.toBitVec_or, UInt32.toBitVec_and, BitVec.and_comm,
        BitVec.and_or_distrib_left, BitVec.and_comm p.bits.toBitVec g.bits.toBitVec, apart,
        BitVec.and_comm]
      exact BitVec.or_zero
    show ((f.bits ||| g.bits) &&& p.bits == p.bits) = _
    rw [bits]
    rfl

namespace CodeUnit

/-- The number of slots that arguments fill. -/
def slotCount (u : CodeUnit) : Nat := Code.totalArgs u.toCodeParts

/-- The first slot of a name, if it has one. -/
def slotOf? (u : CodeUnit) (name : String) : Option Nat :=
  (u.varnames.extract 0 u.slotCount).toList.findIdx? (· == name)

/-- The slot of the surplus keyword arguments. -/
def keywordSlot (u : CodeUnit) : Nat := u.argcount + (u.flags.contains .varargs).toNat

theorem argcount_le_slotCount (u : CodeUnit) : u.argcount ≤ u.slotCount :=
  Nat.le_trans (Nat.le_add_right _ _) (Nat.le_add_right _ _)

/-- The slots that arguments fill are among the variables, and a cell that captures a
    parameter refers to the first one of its name. -/
structure Slots (u : CodeUnit) : Prop where
  enough : u.slotCount ≤ u.varnames.size
  captures : u.cell2arg = u.cellvars.toList.map u.slotOf?

variable {u : CodeUnit}

/-- What the construction of a unit adds to its flags says nothing of its slots. -/
theorem slotCount_of_flags (parts : CodeParts) {a b c : Bool}
    (argcount : u.argcount = parts.argcount) (flags : u.flags =
      ((parts.flags.addIf a .blockstack).addIf b .nofree).addIf c .generator) :
    u.slotCount = Code.totalArgs parts := by
  have same (p : CodeFlags) (h₁ : CodeFlags.blockstack.bits &&& p.bits = 0)
      (h₂ : CodeFlags.nofree.bits &&& p.bits = 0) (h₃ : CodeFlags.generator.bits &&& p.bits = 0) :
      u.flags.contains p = parts.flags.contains p := by
    rw [flags, CodeFlags.contains_addIf h₃, CodeFlags.contains_addIf h₂, CodeFlags.contains_addIf h₁]
  unfold slotCount Code.totalArgs
  rw [argcount, same .varargs rfl rfl rfl, same .varkeywords rfl rfl rfl]

theorem slots_of_ofParts {id : Ref} {parts : CodeParts} (h : ofParts id parts = .ok u) :
    u.Slots := by
  unfold ofParts at h
  simp only [bind, Except.bind] at h
  split at h
  · cases h
  · split at h
    · cases h
    · split at h
      · cases h
      · rename_i enough
        split at h
        · cases h
        · obtain rfl := Except.ok.inj h
          refine ⟨?_, ?_⟩
          · rw [slotCount_of_flags parts rfl rfl]
            exact Nat.le_of_not_lt enough
          · unfold slotOf?
            rw [slotCount_of_flags parts rfl rfl]
            rfl

variable {name : String} {i : Nat}

theorem slotOf?_first (hu : u.Slots) (hi : i < u.slotCount)
    (hn : u.varnames[i]? = some name) (first : ∀ j < i, u.varnames[j]? ≠ some name) :
    u.slotOf? name = some i := by
  have get (j : Nat) (hj : j < u.slotCount) :
      (u.varnames.extract 0 u.slotCount).toList[j]? = u.varnames[j]? :=
    getElem?_toList_extract hj
  refine List.findIdx?_eq_some_iff_getElem.mpr
    ⟨by rwa [length_toList_extract hu.enough], ?_, fun j hj he => first j hj ?_⟩
  · have := get i hi
    rw [hn] at this
    exact beq_iff_eq.mpr (List.getElem?_eq_some_iff.mp this).2
  · rw [← get j (Nat.lt_trans hj hi)]
    exact List.getElem?_eq_some_iff.mpr ⟨_, eq_of_beq he⟩

theorem slotOf?_none (hn : ∀ i < u.slotCount, u.varnames[i]? ≠ some name) :
    u.slotOf? name = none := by
  refine List.findIdx?_eq_none_iff.mpr fun x hx => beq_eq_false_iff_ne.mpr fun he => ?_
  obtain ⟨i, hi⟩ := List.mem_iff_getElem?.mp hx
  have hlt : i < u.slotCount := by
    have := (List.getElem?_eq_some_iff.mp hi).1
    rw [Array.length_toList, Array.size_extract] at this
    omega
  exact hn i hlt (by rw [← getElem?_toList_extract hlt, hi, he])

theorem slotOf?_lt (h : u.slotOf? name = some i) : i < u.slotCount := by
  have := (List.findIdx?_eq_some_iff_getElem.mp h).1
  rw [Array.length_toList, Array.size_extract] at this
  omega

end CodeUnit

/-! ## Dictionaries -/

namespace Dict

variable {d : Dict} {k : Key} {key v : Value}

/-- The index only refers to entries that are there. -/
def InRange (d : Dict) : Prop := ∀ (k : Key) i, d.index[k]? = some i → i < d.entries.size

theorem insert_new (hk : d.index[k]? = none) : d.insert k key v =
    { index := d.index.insert k d.entries.size
      entries := d.entries.push (some (key, v))
      size := d.size + 1 } := by
  unfold insert
  rw [hk]

theorem InRange.insert_new (hd : d.InRange) (hk : d.index[k]? = none) :
    (d.insert k key v).InRange := by
  intro k' i hi
  rw [Dict.insert_new hk, Std.HashMap.getElem?_insert] at hi
  rw [Dict.insert_new hk]
  dsimp only
  rw [Array.size_push]
  split at hi
  · cases hi
    exact Nat.lt_succ_self _
  · exact Nat.lt_succ_of_lt (hd k' i hi)

theorem get?_insert_new (hd : d.InRange) (hk : d.index[k]? = none) (k' : Key) :
    (d.insert k key v).get? k' = if k = k' then some v else d.get? k' := by
  rw [Dict.insert_new hk]
  unfold get?
  dsimp only
  rw [Std.HashMap.getElem?_insert]
  by_cases h : k = k'
  · rw [if_pos h, if_pos (beq_iff_eq.mpr h)]
    show ((d.entries.push (some (key, v)))[d.entries.size]?.join.bind fun e => some e.2) = some v
    rw [Array.getElem?_push_size]
    rfl
  · rw [if_neg h, if_neg fun he => h (eq_of_beq he)]
    cases hi : d.index[k']? with
    | none => rfl
    | some i =>
      show ((d.entries.push (some (key, v)))[i]?.join.bind fun e => some e.2) = _
      rw [Array.getElem?_push_lt (hd k' i hi), ← Array.getElem?_eq_getElem]
      rfl

/-- The dictionary with entries under names. -/
def withNames (d : Dict) (ps : List (String × Value)) : Dict :=
  ps.foldl (fun d p => d.insert (.str p.1) (.str p.1) p.2) d

/-- Entries under new names come last, and are found. -/
theorem withNames_new (ps : List (String × Value)) (hd : d.InRange)
    (apart : (ps.map (·.1)).Nodup) (new : ∀ p ∈ ps, d.index[Key.str p.1]? = none) :
    (d.withNames ps).toList = d.toList ++ ps.map (fun p => (.str p.1, p.2)) ∧
      ∀ name, (d.withNames ps).get? (.str name) =
        (List.lookup name ps <|> d.get? (.str name)) := by
  induction ps generalizing d with
  | nil => exact ⟨(List.append_nil _).symm, fun _ => rfl⟩
  | cons p ps ih =>
    obtain ⟨other, apart⟩ := List.nodup_cons.mp apart
    have hk := new p List.mem_cons_self
    have later (q : String × Value) (hq : q ∈ ps) :
        (d.insert (.str p.1) (.str p.1) p.2).index[Key.str q.1]? = none := by
      rw [insert_new hk]
      dsimp only
      rw [Std.HashMap.getElem?_insert, if_neg fun he => other (List.mem_map.mpr
        ⟨q, hq, (Key.str.inj (eq_of_beq he)).symm⟩)]
      exact new q (List.mem_cons_of_mem _ hq)
    obtain ⟨entries, found⟩ := ih (hd.insert_new hk) apart later
    refine ⟨entries.trans ?_, fun name => (found name).trans ?_⟩
    · rw [insert_new hk, toList, Array.toList_push, List.filterMap_append, List.append_assoc]
      rfl
    · rw [get?_insert_new hd hk, List.lookup_cons]
      by_cases h : name = p.1
      · subst h
        have none : List.lookup p.1 ps = none :=
          List.lookup_eq_none_iff.mpr fun q hq => bne_iff_ne.mpr fun he =>
            other (List.mem_map.mpr ⟨q, hq, he.symm⟩)
        rw [none, if_pos rfl, beq_self_eq_true]
        rfl
      · rw [if_neg fun he => h (Key.str.inj he).symm, beq_eq_false_iff_ne.mpr h]

theorem lookup_filter_not_mem (names : List String) (ps : List (String × Value)) (name : String) :
    List.lookup name (ps.filter fun p => decide (p.1 ∉ names)) =
      if name ∈ names then none else List.lookup name ps := by
  induction ps with
  | nil => split <;> rfl
  | cons p ps ih =>
    rw [List.filter_cons, List.lookup_cons]
    by_cases own : name = p.1
    · subst own
      by_cases out : p.1 ∈ names
      · rw [if_neg (by simpa using out), ih, if_pos out, if_pos out]
      · rw [if_pos (by simpa using out), List.lookup_cons, if_neg out, beq_self_eq_true]
    · have other : (name == p.1) = false := beq_eq_false_iff_ne.mpr own
      rw [other, ← ih]
      split
      · rw [List.lookup_cons, other]
      · rfl

/-- Entries under different names, in a dictionary of their own. -/
theorem withNames_empty (ps : List (String × Value)) (apart : (ps.map (·.1)).Nodup) :
    (({} : Dict).withNames ps).toList = ps.map (fun p => (.str p.1, p.2)) ∧
      ∀ name, (({} : Dict).withNames ps).get? (.str name) = List.lookup name ps := by
  have inRange : InRange {} := fun k i h => by
    rw [Std.HashMap.getElem?_empty] at h
    cases h
  have nothing (k : Key) : ({} : Dict).get? k = none := by
    unfold get?
    rw [Std.HashMap.getElem?_empty]
    rfl
  obtain ⟨entries, found⟩ := withNames_new ps inRange apart fun p _ =>
    Std.HashMap.getElem?_empty
  refine ⟨entries, fun name => (found name).trans ?_⟩
  rw [nothing]
  cases List.lookup name ps <;> rfl

end Dict

/-! ## New frames -/

/-- The machine with new empty cells. -/
def Machine.addCells (m : Machine) (n : Nat) : Machine :=
  m.mapHeap fun h => { h with cells := h.cells ++ Array.replicate n none }

theorem mapM_newCell {α : Type} (as : List α) (m : Machine) :
    as.mapM (fun _ => alloc (·.newCell none)) m =
      .ok (List.range' m.heap.cells.size as.length) (m.addCells as.length) := by
  induction as generalizing m with
  | nil =>
    have same : m.addCells 0 = m := by
      unfold Machine.addCells Machine.mapHeap
      dsimp only
      rw [Array.replicate_zero, Array.append_empty]
    rw [List.length_nil, same]
    rfl
  | cons a as ih =>
    have first : alloc (·.newCell none) m = .ok m.heap.cells.size (m.addCells 1) := by
      show EStateM.Result.ok m.heap.cells.size _ = _
      unfold Machine.addCells Machine.mapHeap
      rfl
    have more : (m.addCells 1).addCells as.length = m.addCells (as.length + 1) := by
      unfold Machine.addCells Machine.mapHeap
      dsimp only
      rw [Array.append_assoc, Array.replicate_append_replicate, Nat.add_comm]
    have size : (m.addCells 1).heap.cells.size = m.heap.cells.size + 1 := Array.size_append
    rw [List.mapM_cons, bind_apply, first]
    dsimp only
    rw [bind_apply, ih, size, more, List.length_cons, List.range'_succ]
    rfl

/-- A new frame has new cells of its own, which are empty. -/
theorem newFrame_apply (u : CodeUnit) (globals : Ref) (m : Machine) : newFrame u globals m =
    .ok { code := u, globals, builtins := m.builtins, locals := .replicate u.varnames.size none
          cells := (List.range' m.heap.cells.size u.cellvars.size).toArray }
      (m.addCells u.cellvars.size) := by
  have cells : u.cellvars.mapM (fun _ => alloc (·.newCell none)) m =
      .ok (List.range' m.heap.cells.size u.cellvars.size).toArray
        (m.addCells u.cellvars.size) := by
    rw [Array.mapM_eq_mapM_toList, ← bind_pure_comp, bind_apply, mapM_newCell,
      Array.length_toList]
    rfl
  unfold newFrame
  rw [bind_apply]
  show ((u.cellvars.mapM fun _ => alloc (·.newCell none)) >>= _ : Exec Frame) m = _
  rw [bind_apply, cells]
  rfl

/-! ## Surplus arguments -/

theorem Heap.tuple_newTuple (h : Heap) (items : Array Value) :
    (h.newTuple items).2.tuple h.tuples.size = items := by
  unfold Heap.tuple Heap.newTuple
  dsimp only
  rw [Array.getElem?_push_size]
  rfl

theorem Heap.dict_newDict (h : Heap) (d : Dict) : (h.newDict d).2.dict h.dicts.size = d := by
  unfold Heap.dict Heap.newDict
  dsimp only
  rw [Array.getElem?_push_size]
  rfl

/-- Surplus arguments go to their slots, and nowhere else. -/
theorem placeSurplus_ok {u : CodeUnit} (b : Binding) {ls : Array (Option Value)} (m : Machine)
    (enough : u.slotCount ≤ ls.size) : ∃ ls' t, placeSurplus u b ls m = .ok ls' t ∧
      t.heap.cells = m.heap.cells ∧ ls'.size = ls.size ∧
      (∀ i : Nat, i < u.argcount ∨ u.slotCount ≤ i → ls'[i]? = ls[i]?) ∧
      (u.flags.contains .varargs → ∃ r, ls'[u.argcount]? = some (some (.tuple r)) ∧
        t.heap.tuple r = b.rest.toArray) ∧
      (u.flags.contains .varkeywords → ∃ r, ls'[u.keywordSlot]? = some (some (.dict r)) ∧
        t.heap.dict r = ({} : Dict).withNames b.keywords) := by
  have slots : u.slotCount = u.argcount + (u.flags.contains .varargs).toNat +
      (u.flags.contains .varkeywords).toNat := rfl
  unfold placeSurplus CodeUnit.keywordSlot
  cases hv : u.flags.contains .varargs with
  | false =>
    cases hk : u.flags.contains .varkeywords with
    | false => exact ⟨ls, m, rfl, rfl, rfl, fun _ _ => rfl, nofun, nofun⟩
    | true =>
      rw [hv, hk, Bool.toNat_false, Bool.toNat_true] at slots
      refine ⟨_, _, rfl, rfl, Array.size_setIfInBounds, fun i hi => ?_, nofun,
        fun _ => ⟨m.heap.dicts.size, ?_, m.heap.dict_newDict _⟩⟩
      · exact Array.getElem?_setIfInBounds_ne (by omega)
      · exact Array.getElem?_setIfInBounds_self_of_lt (by omega)
  | true =>
    cases hk : u.flags.contains .varkeywords with
    | false =>
      rw [hv, hk, Bool.toNat_false, Bool.toNat_true] at slots
      refine ⟨_, _, rfl, rfl, Array.size_setIfInBounds, fun i hi => ?_,
        fun _ => ⟨m.heap.tuples.size, ?_, m.heap.tuple_newTuple _⟩, nofun⟩
      · exact Array.getElem?_setIfInBounds_ne (by omega)
      · exact Array.getElem?_setIfInBounds_self_of_lt (by omega)
    | true =>
      rw [hv, hk, Bool.toNat_true] at slots
      refine ⟨_, _, rfl, rfl, ?_, fun i hi => ?_,
        fun _ => ⟨m.heap.tuples.size, ?_, m.heap.tuple_newTuple _⟩,
        fun _ => ⟨m.heap.dicts.size, ?_, (m.heap.newTuple _).2.dict_newDict _⟩⟩
      · rw [Array.size_setIfInBounds, Array.size_setIfInBounds]
      · rw [Array.getElem?_setIfInBounds_ne (by omega), Array.getElem?_setIfInBounds_ne (by omega)]
      · rw [Array.getElem?_setIfInBounds_ne (by omega),
          Array.getElem?_setIfInBounds_self_of_lt (by omega)]
      · exact Array.getElem?_setIfInBounds_self_of_lt (by rw [Array.size_setIfInBounds]; omega)

/-! ## Cells -/

/-- Gives a cell what the slot that it captures holds. -/
def fillCell (ls : Array (Option Value)) (p : Ref × Option Nat) : Exec Unit :=
  match p.2.bind (ls[·]?.join) with
  | some v => modifyHeap fun h => { h with cells := h.cells.setIfInBounds p.1 (some v) }
  | none => pure ()

theorem fillCell_ok (ls : Array (Option Value)) {p : Ref × Option Nat} {m : Machine}
    (known : p.1 < m.heap.cells.size) : ∃ t, fillCell ls p m = .ok () t ∧
      t.heap.cells.size = m.heap.cells.size ∧
      t.heap.tuples = m.heap.tuples ∧ t.heap.dicts = m.heap.dicts ∧
      (∀ c ≠ p.1, t.heap.cell c = m.heap.cell c) ∧
      t.heap.cell p.1 = (p.2.bind (ls[·]?.join) <|> m.heap.cell p.1) := by
  unfold fillCell
  cases p.2.bind (ls[·]?.join) with
  | none => exact ⟨m, rfl, rfl, rfl, rfl, fun _ _ => rfl, rfl⟩
  | some v =>
    refine ⟨_, rfl, Array.size_setIfInBounds, rfl, rfl, fun c hc => ?_, ?_⟩
    · exact congrArg Option.join (Array.getElem?_setIfInBounds_ne (Ne.symm hc))
    · exact congrArg Option.join (Array.getElem?_setIfInBounds_self_of_lt known)

/-- Cells are filled one after the other. -/
theorem fillCells_ok (ls : Array (Option Value)) (ps : List (Ref × Option Nat)) (m : Machine)
    (apart : (ps.map (·.1)).Nodup) (known : ∀ p ∈ ps, p.1 < m.heap.cells.size) :
    ∃ t, ps.forM (fillCell ls) m = .ok () t ∧ t.heap.tuples = m.heap.tuples ∧
      t.heap.dicts = m.heap.dicts ∧ (∀ c ∉ ps.map (·.1), t.heap.cell c = m.heap.cell c) ∧
      ∀ p ∈ ps, t.heap.cell p.1 = (p.2.bind (ls[·]?.join) <|> m.heap.cell p.1) := by
  induction ps generalizing m with
  | nil => exact ⟨m, rfl, rfl, rfl, fun _ _ => rfl, fun _ h => absurd h List.not_mem_nil⟩
  | cons p ps ih =>
    obtain ⟨new, apart⟩ := List.nodup_cons.mp apart
    obtain ⟨m', step, size, tuples, dicts, others, own⟩ :=
      fillCell_ok ls (known p List.mem_cons_self)
    obtain ⟨t, run, tuples', dicts', others', own'⟩ := ih m' apart fun q hq => by
      rw [size]
      exact known q (List.mem_cons_of_mem _ hq)
    refine ⟨t, ?_, tuples'.trans tuples, dicts'.trans dicts, fun c hc => ?_, fun q hq => ?_⟩
    · show (fillCell ls p >>= fun _ => ps.forM (fillCell ls)) m = _
      rw [bind_apply, step]
      exact run
    · rw [List.map_cons, List.mem_cons, not_or] at hc
      rw [others' c hc.2, others c hc.1]
    · rcases List.mem_cons.mp hq with rfl | hq
      · rw [others' _ new, own]
      · have ne : q.1 ≠ p.1 := fun he => new (List.mem_map.mpr ⟨q, hq, he⟩)
        rw [own' q hq, others _ ne]

/-! ## The frame of a call -/

/-- The parameters are written to their slots. -/
theorem foldl_setIfInBounds_get (ps ls : Array (Option Value)) :
    (ps.zipIdx.foldl (fun ls p => ls.setIfInBounds p.2 p.1) ls).size = ls.size ∧
      ∀ i : Nat, (ps.zipIdx.foldl (fun ls p => ls.setIfInBounds p.2 p.1) ls)[i]? =
        if i < ps.size ∧ i < ls.size then ps[i]? else ls[i]? := by
  have written : (ps.zipIdx.foldl (fun ls p => ls.setIfInBounds p.2 p.1) ls).size = ls.size ∧
      ∀ i : Nat, (ps.zipIdx.foldl (fun ls p => ls.setIfInBounds p.2 p.1) ls)[i]? =
        if i < ps.zipIdx.size ∧ i < ls.size then ps[i]? else ls[i]? := by
    refine Array.foldl_induction (motive := fun k (r : Array (Option Value)) => r.size = ls.size ∧
      ∀ i : Nat, r[i]? = if i < k ∧ i < ls.size then ps[i]? else ls[i]?)
      ⟨rfl, fun i => (if_neg fun h => Nat.not_lt_zero i h.1).symm⟩ fun k r ⟨size, get⟩ => ?_
    refine ⟨Array.size_setIfInBounds.trans size, fun i => ?_⟩
    have hk : k.1 < ps.size := Nat.lt_of_lt_of_eq k.2 Array.size_zipIdx
    rw [Fin.getElem_fin, Array.getElem_zipIdx, Nat.zero_add, Array.getElem?_setIfInBounds, get]
    by_cases hi : k.1 = i
    · subst hi
      rw [if_pos rfl, size]
      by_cases hl : k.1 < ls.size
      · rw [if_pos hl, if_pos ⟨Nat.lt_succ_self _, hl⟩, Array.getElem?_eq_getElem hk]
      · rw [if_neg hl, if_neg fun h => hl h.2, Array.getElem?_eq_none (Nat.le_of_not_lt hl)]
    · rw [if_neg hi]
      by_cases h : i < k.1 ∧ i < ls.size
      · rw [if_pos h, if_pos ⟨Nat.lt_succ_of_lt h.1, h.2⟩]
      · rw [if_neg h, if_neg fun h' => h ⟨by omega, h'.2⟩]
  exact ⟨written.1, fun i => by rw [written.2, Array.size_zipIdx]⟩

/-- The frame holds the arguments of its call. -/
structure CodeUnit.Bound (u : CodeUnit) (func : Function) (args : List Value)
    (kwargs : List (String × Value)) (f : Frame) (h : Heap) : Prop where
  code : f.code = u
  size : f.locals.size = u.varnames.size
  /-- each parameter holds what it is given -/
  params : ∀ i < u.argcount, ∃ v, u.argument? func.defaults args kwargs i = some v ∧
    f.locals[i]? = some (some v)
  /-- the surplus positional arguments are a tuple -/
  rest : u.flags.contains .varargs → ∃ r, f.locals[u.argcount]? = some (some (.tuple r)) ∧
    h.tuple r = (args.drop u.argcount).toArray
  /-- the keyword arguments that name no parameter are a dictionary, in order -/
  keywords : u.flags.contains .varkeywords → ∃ r, f.locals[u.keywordSlot]? = some (some (.dict r)) ∧
    (h.dict r).toList = (kwargs.filter fun p => decide (p.1 ∉ u.paramNames)).map
      (fun p => (.str p.1, p.2)) ∧
    ∀ name, (h.dict r).get? (.str name) =
      if name ∈ u.paramNames then none else List.lookup name kwargs
  /-- the other variables are unbound -/
  others : ∀ i, u.slotCount ≤ i → i < u.varnames.size → f.locals[i]? = some none
  /-- the cells are those of the unit and then those of the function -/
  cells : ∃ own : Array Ref, own.size = u.cellvars.size ∧ f.cells = own ++ func.closure
  /-- a cell of the unit holds what the first slot of its name holds -/
  captured : ∀ (k : Nat) name c, u.cellvars[k]? = some name →
    f.cells[k]? = some c → ∀ i < u.slotCount, u.varnames[i]? = some name → (∀ j < i, u.varnames[j]? ≠ some name) →
      f.locals[i]? = some (h.cell c)
  /-- and is empty if there is none -/
  uncaptured : ∀ (k : Nat) name c, u.cellvars[k]? = some name → f.cells[k]? = some c →
    (∀ i < u.slotCount, u.varnames[i]? ≠ some name) → h.cell c = none

section

variable {u : CodeUnit} {func : Function} {args : List Value} {kwargs : List (String × Value)}
  {m : Machine}

/-- Arguments that are bound make a frame. -/
theorem frameFor_bound (hu : u.Slots) (unit : m.heap.unit func.code = u)
    (apart : (kwargs.map (·.1)).Nodup) (fits : u.Admits func.defaults args kwargs) {b : Binding}
    (hb : bindParameters u func.defaults args kwargs = .ok b) (rest : b.rest = args.drop u.argcount)
    (keywords : b.keywords = kwargs.filter (fun p => decide (p.1 ∉ u.paramNames)))
    (count : b.params.size = u.argcount)
    (params : ∀ i < u.argcount, b.params[i]? = some (u.argument? func.defaults args kwargs i)) :
    ∃ f t, frameFor func args kwargs m = .ok f t ∧ u.Bound func args kwargs f t.heap := by
  let n := m.heap.cells.size
  let own := (List.range' n u.cellvars.size).toArray
  let m₁ := m.addCells u.cellvars.size
  let blank : Array (Option Value) := .replicate u.varnames.size none
  let filled := b.params.zipIdx.foldl (fun ls p => ls.setIfInBounds p.2 p.1) blank
  obtain ⟨size, get⟩ := foldl_setIfInBounds_get b.params blank
  have cells₁ : m₁.heap.cells = m.heap.cells ++ Array.replicate u.cellvars.size none := rfl
  have width : blank.size = u.varnames.size := Array.size_replicate
  obtain ⟨ls, m₂, place, cells₂, size₂, kept, tuple, dict⟩ :=
    placeSurplus_ok b m₁ (show u.slotCount ≤ filled.size by rw [size, width]; exact hu.enough)
  have total : ls.size = u.varnames.size := size₂.trans (size.trans width)
  have among : u.argcount ≤ u.slotCount := u.argcount_le_slotCount
  have enough := hu.enough
  have captures := hu.captures
  have refs : (own.toList.zip u.cell2arg).map (·.1) = List.range' n u.cellvars.size :=
    List.map_fst_zip (by simp [own, captures])
  obtain ⟨t, fill, tuples, dicts, -, held⟩ := fillCells_ok ls (own.toList.zip u.cell2arg) m₂
    (by rw [refs]; exact List.nodup_range') fun p hp => by
      have here : p.1 ∈ List.range' n u.cellvars.size := refs ▸ List.mem_map_of_mem hp
      rw [cells₂, cells₁, Array.size_append, Array.size_replicate]
      exact (List.mem_range'_1.mp here).2
  have run : frameFor func args kwargs m = .ok
      { code := u, globals := func.globals, builtins := m.builtins, locals := ls
        cells := own ++ func.closure } t := by
    refine bind_ok.mpr ⟨_, _, rfl, ?_⟩
    dsimp only
    rw [unit, hb]
    exact bind_ok.mpr ⟨_, _, newFrame_apply u func.globals m,
      bind_ok.mpr ⟨_, _, place, bind_ok.mpr ⟨_, _, fill, rfl⟩⟩⟩
  -- what a cell of the unit holds in the end
  have cell (k : Nat) (name : String) (c : Ref) (hk : u.cellvars[k]? = some name)
      (hc : (own ++ func.closure)[k]? = some c) :
      t.heap.cell c = (u.slotOf? name).bind (ls[·]?.join) := by
    obtain ⟨hlt, hname⟩ := Array.getElem?_eq_some_iff.mp hk
    have mine : own[k]? = some (n + k) := by
      rw [List.getElem?_toArray, List.getElem?_range' hlt, Nat.one_mul]
    rw [Array.getElem?_append_left (by simpa [own] using hlt), mine] at hc
    cases hc
    have mem : (n + k, u.slotOf? name) ∈ own.toList.zip u.cell2arg := by
      refine List.mem_iff_getElem?.mpr ⟨k, List.getElem?_zip_eq_some.mpr ⟨?_, ?_⟩⟩
      · rw [Array.getElem?_toList, mine]
      · rw [captures, List.getElem?_map, Array.getElem?_toList, hk]
        rfl
    have empty : m₂.heap.cell (n + k) = none := by
      unfold Heap.cell
      rw [cells₂, cells₁, Array.getElem?_append_right (Nat.le_add_right n k),
        Array.getElem?_replicate]
      split <;> rfl
    rw [held _ mem, empty]
    cases (u.slotOf? name).bind (ls[·]?.join) <;> rfl
  refine ⟨_, t, run, ⟨rfl, total, fun i hi => ?_, fun h => ?_, fun h => ?_,
    fun i hi hlt => ?_, ⟨own, by simp [own], rfl⟩, fun k name c hk hc i hi hn first => ?_,
    fun k name c hk hc none => ?_⟩⟩
  · obtain ⟨v, hv⟩ := Option.isSome_iff_exists.mp (fits.filled i hi)
    refine ⟨v, hv, ?_⟩
    rw [kept i (.inl hi), get, if_pos ⟨count ▸ hi, by omega⟩, params i hi, hv]
  · obtain ⟨r, slot, items⟩ := tuple h
    refine ⟨r, slot, ?_⟩
    rw [← rest, ← items]
    unfold Heap.tuple
    rw [tuples]
  · obtain ⟨r, slot, entries⟩ := dict h
    have same : t.heap.dict r = ({} : Dict).withNames b.keywords := by
      rw [← entries]
      unfold Heap.dict
      rw [dicts]
    obtain ⟨inOrder, found⟩ := Dict.withNames_empty b.keywords
      (by rw [keywords]; exact apart.sublist (List.filter_sublist.map _))
    exact ⟨r, slot, by rw [same, inOrder, keywords],
      fun name => by rw [same, found, keywords, Dict.lookup_filter_not_mem]⟩
  · rw [kept i (.inr hi), get, if_neg fun h => by omega]
    exact Array.getElem?_eq_some_iff.mpr ⟨by omega, Array.getElem_replicate ..⟩
  · have inside : i < ls.size := by omega
    rw [cell k name c hk hc, CodeUnit.slotOf?_first hu hi hn first, Option.bind_some,
      Array.getElem?_eq_getElem inside]
    rfl
  · rw [cell k name c hk hc, CodeUnit.slotOf?_none none]
    rfl

/-- Arguments that are not bound raise an error before anything is made. -/
theorem frameFor_error {e : BindError} (unit : m.heap.unit func.code = u)
    (he : bindParameters u func.defaults args kwargs = .error e) : frameFor func args kwargs m =
      m.raising .typeError [.str (e.message func u (args.length + kwargs.length))] := by
  unfold frameFor
  rw [bind_apply, show heap m = .ok m.heap m from rfl]
  dsimp only
  rw [unit, he]
  rfl

/-- **Arguments are bound to the parameters they fit.**  If the arguments fit, the call has a
    frame that holds them; otherwise it raises a `TypeError`.  No slot, no captured parameter
    and no default is out of range. -/
theorem frameFor_binds {id : Ref} {parts : CodeParts} (hu : CodeUnit.ofParts id parts = .ok u)
    (unit : m.heap.unit func.code = u) (distinct : u.paramNames.Nodup)
    (few : func.defaults.size ≤ u.argcount) (apart : (kwargs.map (·.1)).Nodup) :
    (u.Admits func.defaults args kwargs →
      ∃ f t, frameFor func args kwargs m = .ok f t ∧ u.Bound func args kwargs f t.heap) ∧
    (¬u.Admits func.defaults args kwargs →
      ∃ message, frameFor func args kwargs m = m.raising .typeError [.str message]) ∧
    u.slotCount ≤ u.varnames.size ∧ (∀ i, some i ∈ u.cell2arg → i < u.slotCount) ∧
    ∀ i < u.argcount, u.argcount - func.defaults.size ≤ i →
      i - (u.argcount - func.defaults.size) < func.defaults.size := by
  have slots := CodeUnit.slots_of_ofParts hu
  have enough : u.argcount ≤ u.varnames.size :=
    Nat.le_trans u.argcount_le_slotCount slots.enough
  refine ⟨fun fits => ?_, fun unfit => ?_, slots.enough, fun i hi => ?_, fun i hi hd => by omega⟩
  · obtain ⟨b, hb, rest, keywords, count, params⟩ :=
      bindParameters_ok enough distinct apart few fits
    exact frameFor_bound slots unit apart fits hb rest keywords count params
  · cases hb : bindParameters u func.defaults args kwargs with
    | ok b => exact absurd (bindParameters_admits enough distinct apart few hb) unfit
    | error e => exact ⟨_, frameFor_error unit hb⟩
  · rw [slots.captures] at hi
    obtain ⟨name, -, hname⟩ := List.mem_map.mp hi
    exact CodeUnit.slotOf?_lt hname

end

/-! ### A function with parameters of every kind -/

/-- The parts of a unit with two parameters, of which the first is captured, and with places for
    surplus arguments. -/
def CodeParts.options : CodeParts where
  name := "options"
  argcount := 2
  flags := CodeFlags.varargs.union .varkeywords
  words := #[.ofOpcode .loadConst, ⟨1⟩, .ofOpcode .returnValue]
  consts := #[.none]
  varnames := #["a", "b", "rest", "opts", "x"]
  cellvars := #["a"]

/-- The unit with these parts. -/
def CodeUnit.options : CodeUnit := (CodeUnit.ofParts 0 .options).toOption.getD default

/-- A function of the unit, whose second parameter has a default. -/
def Function.options : Function where
  name := "options"
  code := 0
  globals := 0
  defaults := #[.int 9]

/-- A machine with the unit. -/
def Machine.options : Machine where
  config := {}
  heap := { units := #[.options], namespaces := #[{}, {}], functions := #[.options] }
  units := #[{}]
  globals := 0
  builtins := 1
  bailError := false
  control := .never
  timer := .new 1 false

theorem frameFor_binds_of_options :
    CodeUnit.ofParts 0 .options = .ok .options ∧
    CodeUnit.options.Admits Function.options.defaults [.int 1] [("z", .int 5)] ∧
    (∃ f t, frameFor .options [.int 1] [("z", .int 5)] .options = .ok f t ∧
      CodeUnit.options.Bound .options [.int 1] [("z", .int 5)] f t.heap) ∧
    ¬CodeUnit.options.Admits Function.options.defaults [.int 1] [("a", .int 5)] ∧
    ∃ message, frameFor .options [.int 1] [("a", .int 5)] .options =
      Machine.options.raising .typeError [.str message] := by
  have built : CodeUnit.ofParts 0 .options = .ok .options := eq_ok_of_isSome (by decide +kernel)
  have fits : CodeUnit.options.Admits Function.options.defaults [.int 1] [("z", .int 5)] := by
    decide +kernel
  have unfit : ¬CodeUnit.options.Admits Function.options.defaults [.int 1] [("a", .int 5)] := by
    decide +kernel
  have distinct : CodeUnit.options.paramNames.Nodup := by decide +kernel
  have few : Function.options.defaults.size ≤ CodeUnit.options.argcount := by decide +kernel
  exact ⟨built, fits, (frameFor_binds built rfl distinct few (by decide)).1 fits, unfit,
    (frameFor_binds built rfl distinct few (by decide)).2.1 unfit⟩

end TieredMachine
