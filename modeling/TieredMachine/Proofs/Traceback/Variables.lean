/-
  What a traceback tells of variables.

  The traceback entry of a frame names each variable once that is bound.  A variable whose
  slot is bound is told by what the slot holds, any other one by what its cell holds.  A
  parameter that a closure captures has both.  A call puts its argument in both, but code
  that stores to the parameter from then on fills the cell, and the slot still holds what the
  call passed.

  * `named`, `addNew`: values under names, and new ones among them;
  * `Frame.slot?`, `Frame.content?`, `Frame.current?`: the values of a variable;
  * `Frame.lookup_snapshot`: the values that a snapshot has;
  * `CodeUnit.Bound.copied`: the values with which a call begins;
  * **`Frame.Reaches.shows`**: what a traceback entry tells of the variables.
-/
import TieredMachine.Proofs.Run.Binding
import TieredMachine.Proofs.Traceback.Exact
import TieredMachine.Proofs.Traceback.Tables

namespace TieredMachine

/-! ## Values under names -/

/-- The values that are there, under their names. -/
def named (names : List String) (values : List (Option Value)) : List (String × Value) :=
  (names.zip values).filterMap fun p => p.2.map (p.1, ·)

/-- Adds a value under a name that has none yet. -/
def addNew (out : List (String × Value)) (p : String × Value) : List (String × Value) :=
  if out.any (·.1 == p.1) then out else out ++ [p]

section

variable {names : List String} {values : List (Option Value)} {out ps : List (String × Value)}
  {x : String}

theorem named_cons (name : String) (value : Option Value) :
    named (name :: names) (value :: values) =
      (value.map (name, ·)).toList ++ named names values := by
  cases value <;> rfl

theorem named_sublist : ((named names values).map (·.1)).Sublist names := by
  induction names generalizing values with
  | nil => exact .refl []
  | cons name names ih =>
    cases values with
    | nil => exact List.nil_sublist _
    | cons value values =>
      rw [named_cons, List.map_append]
      cases value with
      | none => exact ih.cons name
      | some v => exact ih.cons_cons name

/-- A value is found under the first of its names. -/
theorem lookup_named (apart : names.Nodup) :
    (named names values).lookup x = (names.idxOf? x).bind (values[·]?.join) := by
  induction names generalizing values with
  | nil => rfl
  | cons name names ih =>
    obtain ⟨new, apart⟩ := List.nodup_cons.mp apart
    cases values with
    | nil =>
      show none = _
      cases List.idxOf? x (name :: names) <;> rfl
    | cons value values =>
      rw [named_cons, List.lookup_append, ih apart, List.idxOf?_cons]
      by_cases own : name = x
      · subst own
        rw [List.idxOf?_eq_none_iff.mpr new, beq_self_eq_true, if_pos rfl]
        cases value with
        | none => rfl
        | some v => simp
      · have other : (x == name) = false := beq_eq_false_iff_ne.mpr (Ne.symm own)
        have skipped : (value.map (name, ·)).toList.lookup x = none := by
          cases value with
          | none => rfl
          | some v => simp [List.lookup_cons, other]
        rw [skipped, if_neg (by simpa using own)]
        cases List.idxOf? x names <;> rfl

theorem lookup_addNew (p : String × Value) :
    (addNew out p).lookup x = (out.lookup x).or ([p].lookup x) := by
  obtain ⟨name, v⟩ := p
  unfold addNew
  split
  · rename_i known
    obtain ⟨q, hq, same⟩ := List.any_eq_true.mp known
    cases found : out.lookup x with
    | some v => rfl
    | none =>
      have absent := bne_iff_ne.mp (List.lookup_eq_none_iff.mp found q hq)
      have other : (x == name) = false :=
        beq_eq_false_iff_ne.mpr fun own => absent (own.trans (eq_of_beq same).symm)
      rw [List.lookup_cons, other]
      rfl
  · exact List.lookup_append

theorem lookup_addNew_foldl :
    (ps.foldl addNew out).lookup x = (out.lookup x).or (ps.lookup x) := by
  induction ps generalizing out with
  | nil => simp
  | cons p ps ih =>
    rw [List.foldl_cons, ih, lookup_addNew, Option.or_assoc, ← List.lookup_append]
    rfl

theorem nodup_addNew_foldl (apart : (out.map (·.1)).Nodup) :
    ((ps.foldl addNew out).map (·.1)).Nodup := by
  induction ps generalizing out with
  | nil => exact apart
  | cons p ps ih =>
    refine ih ?_
    unfold addNew
    split
    · exact apart
    · rename_i new
      rw [List.map_append]
      refine List.Nodup.append apart (List.nodup_singleton p.1) fun name known own => new ?_
      obtain ⟨q, hq, rfl⟩ := List.mem_map.mp known
      exact List.any_eq_true.mpr ⟨q, hq, beq_iff_eq.mpr (List.mem_singleton.mp own)⟩

theorem idxOf?_of_nodup (apart : names.Nodup) {i : Nat} (hi : names[i]? = some x) :
    names.idxOf? x = some i := by
  obtain ⟨inside, rfl⟩ := List.getElem?_eq_some_iff.mp hi
  refine List.idxOf?_eq_some_iff.mpr ⟨inside, rfl, fun j hj same => ?_⟩
  exact absurd (apart.getElem_inj_iff.mp same) (Nat.ne_of_lt hj)

/-- What stands at an index goes under the name there. -/
theorem zipIdx_named (size : names.length = values.length) :
    values.zipIdx.filterMap (fun p => p.1.map fun v => (names[p.2]?.getD "", v)) =
      named names values := by
  have zipped : values.zipIdx.map (fun p => (names[p.2]?.getD "", p.1)) = names.zip values := by
    refine List.ext_getElem (by simp [size]) fun i hi _ => ?_
    have inside : i < names.length := by
      rw [List.length_map, List.length_zipIdx] at hi
      omega
    simp [inside]
  rw [named, ← zipped, List.filterMap_map]
  rfl

end

/-! ## Variables -/

namespace CodeUnit

/-- The names of the cells. -/
def cellNames (u : CodeUnit) : List String := u.cellvars.toList ++ u.freevars.toList

/-- The parameters that closures capture. -/
def captured (u : CodeUnit) : List String := u.cellvars.toList.filter fun x => (u.slotOf? x).isSome

theorem cellName?_eq (u : CodeUnit) (i : Nat) : u.cellName? i = u.cellNames[i]? := by
  unfold cellName? cellNames
  split
  · rw [List.getElem?_append_left (by simpa), Array.getElem?_toList]
  · rw [List.getElem?_append_right (by simp; omega), Array.getElem?_toList, Array.length_toList]

theorem length_cellNames (u : CodeUnit) : u.cellNames.length = u.cellCount := by
  simp [cellNames, cellCount]

/-- No two variables have one name, but a parameter may have a cell as well as a slot. -/
structure Distinct (u : CodeUnit) : Prop where
  slots : u.varnames.toList.Nodup
  cells : u.cellNames.Nodup
  both : ∀ x ∈ u.varnames.toList, x ∈ u.cellNames → x ∈ u.captured

end CodeUnit

namespace Frame

variable {u : CodeUnit} {f f' : Frame} {x : String}

/-- What the slot of a variable holds. -/
def slot? (f : Frame) (x : String) : Option Value :=
  (f.code.varnames.toList.idxOf? x).bind (f.locals.toList[·]?.join)

/-- What the cell of a variable holds. -/
def content? (h : Heap) (f : Frame) (x : String) : Option Value :=
  (f.code.cellNames.idxOf? x).bind ((f.cells.toList.map h.cell)[·]?.join)

/-- The value of a variable: the one of its cell, if it has one, and else the one of its
    slot. -/
def current? (h : Heap) (f : Frame) (x : String) : Option Value :=
  if x ∈ f.code.cellNames then f.content? h x else f.slot? x

theorem Fits.of_retains (hf : f.Fits u) (h : f.Retains f') :
    f'.code = u ∧ f'.locals.size = u.varnames.size ∧ f'.cells.size = u.cellCount :=
  ⟨h.code.trans hf.code, h.locals.trans hf.locals, by rw [h.cells]; exact hf.cells⟩

/-- A snapshot has the values of slots, and the new ones among those of cells. -/
theorem snapshot_eq (h : Heap) (locals : f.locals.size = f.code.varnames.size)
    (cells : f.cells.size = f.code.cellCount) :
    f.snapshot h = (named f.code.cellNames (f.cells.toList.map h.cell)).foldl addNew
      (named f.code.varnames.toList f.locals.toList) := by
  have slots : f.code.varnames.toList.length = f.locals.toList.length := by simpa using locals.symm
  have contents : f.code.cellNames.length = (f.cells.toList.map h.cell).length := by
    rw [CodeUnit.length_cellNames, List.length_map, Array.length_toList, cells]
  unfold snapshot localName
  rw [← zipIdx_named slots, ← zipIdx_named contents, List.foldl_filterMap, List.zipIdx_map,
    List.foldl_map]
  simp only [Array.getElem?_toList]
  refine List.foldl_ext _ _ _ fun out p hp => ?_
  have inside : p.2 < f.code.cellNames.length := by
    rw [CodeUnit.length_cellNames, ← cells]
    simpa using List.snd_lt_of_mem_zipIdx hp
  simp only [CodeUnit.cellName?_eq, List.getElem?_eq_getElem inside, Prod.map, id]
  cases h.cell p.1 <;> simp [addNew]

/-- A snapshot has the value of the slot if it is bound, and else that of the cell. -/
theorem lookup_snapshot (h : Heap) (distinct : f.code.Distinct)
    (locals : f.locals.size = f.code.varnames.size) (cells : f.cells.size = f.code.cellCount) :
    ((f.snapshot h).map (·.1)).Nodup ∧
      ∀ x, (f.snapshot h).lookup x = (f.slot? x).or (f.content? h x) := by
  rw [snapshot_eq h locals cells]
  refine ⟨nodup_addNew_foldl (distinct.slots.sublist named_sublist), fun x => ?_⟩
  rw [lookup_addNew_foldl, lookup_named distinct.slots, lookup_named distinct.cells]
  rfl

theorem slot?_none (absent : x ∉ f.code.varnames.toList) : f.slot? x = none := by
  unfold slot?
  rw [List.idxOf?_eq_none_iff.mpr absent]
  rfl

theorem content?_none (h : Heap) (absent : x ∉ f.code.cellNames) : f.content? h x = none := by
  unfold content?
  rw [List.idxOf?_eq_none_iff.mpr absent]
  rfl

/-- The values of slots and cells are the current ones just when no slot of a captured
    parameter differs from its cell. -/
theorem current_iff (h : Heap) (distinct : f.code.Distinct) :
    (∀ x, (f.slot? x).or (f.content? h x) = f.current? h x) ↔
      ∀ x ∈ f.code.captured, ∀ v, f.slot? x = some v → f.content? h x = some v := by
  constructor
  · intro same x hx v hv
    have cell : x ∈ f.code.cellNames :=
      List.mem_append_left _ (List.mem_of_mem_filter hx)
    have shown := same x
    rw [hv, current?, if_pos cell] at shown
    exact shown.symm
  · intro agree x
    unfold current?
    split
    · rename_i cell
      cases hv : f.slot? x with
      | none => rfl
      | some v =>
        have slot : x ∈ f.code.varnames.toList := by
          by_contra absent
          rw [slot?_none absent] at hv
          cases hv
        exact (agree x (distinct.both x slot cell) v hv).symm
    · rename_i absent
      rw [content?_none h absent, Option.or_none]

end Frame

/-- A call begins with one value in the slot and in the cell of a captured parameter. -/
theorem CodeUnit.Bound.copied {u : CodeUnit} {func : Function} {args : List Value}
    {kwargs : List (String × Value)} {f : Frame} {h : Heap} (bound : u.Bound func args kwargs f h)
    (distinct : u.Distinct) {x : String} (hx : x ∈ u.captured) : f.content? h x = f.slot? x := by
  obtain ⟨hx, parameter⟩ := List.mem_filter.mp hx
  obtain ⟨i, hi⟩ := Option.isSome_iff_exists.mp parameter
  obtain ⟨k, hk⟩ := List.mem_iff_getElem?.mp hx
  have inside : i < u.slotCount := slotOf?_lt hi
  have slot : u.varnames.toList[i]? = some x := by
    have found := (List.findIdx?_eq_some_iff_getElem.mp hi)
    rw [Array.getElem?_toList, ← getElem?_toList_extract inside]
    exact List.getElem?_eq_some_iff.mpr ⟨found.1, eq_of_beq found.2.1⟩
  have first : ∀ j < i, u.varnames[j]? ≠ some x := fun j hj other => by
    rw [← Array.getElem?_toList] at other
    have same := (idxOf?_of_nodup distinct.slots other).symm.trans
      (idxOf?_of_nodup distinct.slots slot)
    exact absurd (Option.some.inj same) (Nat.ne_of_lt hj)
  have cell : u.cellNames[k]? = some x := by
    rw [cellNames, List.getElem?_append_left (List.getElem?_eq_some_iff.mp hk).1, hk]
  obtain ⟨own, size, cells⟩ := bound.cells
  have mine : k < own.size := by
    rw [size, ← Array.length_toList]
    exact (List.getElem?_eq_some_iff.mp hk).1
  have given : f.cells[k]? = some own[k] := by
    rw [cells, Array.getElem?_append_left mine, Array.getElem?_eq_getElem mine]
  rw [Array.getElem?_toList] at hk slot
  have copied := bound.captured k x own[k] hk given i inside slot first
  rw [← Array.getElem?_toList] at slot
  unfold Frame.content? Frame.slot?
  rw [bound.code, idxOf?_of_nodup distinct.cells cell, idxOf?_of_nodup distinct.slots slot]
  simp [given, copied]

/-! ## Tracebacks -/

/-- What a traceback entry tells of the variables of a frame. -/
structure TracebackEntry.Shows (entry : TracebackEntry) (h : Heap) (f : Frame) : Prop where
  /-- each variable at most once -/
  once : (entry.locals.map (·.1)).Nodup
  /-- the value of its slot if it is bound, and else that of its cell -/
  values : ∀ x, entry.locals.lookup x = (f.slot? x).or (f.content? h x)
  /-- the current values, unless the slot of a captured parameter holds another value than
      its cell -/
  current : (∀ x, entry.locals.lookup x = f.current? h x) ↔
    ∀ x ∈ f.code.captured, ∀ v, f.slot? x = some v → f.content? h x = some v

variable {u : CodeUnit} {f : Frame} {g : Guest} {e : Ref} {s : Activation} {p : Stage}
  {T : Array TracebackEntry}

/-- **What a traceback entry tells of variables.**  Wherever a run raises an exception, its
    traceback gets an entry that tells each bound variable of the frame once.  The values are
    those of the slots that are bound, and else those of the cells; so they are the current
    ones just when no captured parameter has a bound slot that holds another value than its
    cell. -/
theorem Frame.Reaches.shows (distinct : u.Distinct) (fits : f.Fits u) (h : f.Reaches g p s)
    (raised : p.flow? = some (.raise e true)) (known : s.machine.traceback? e = some T) :
    ∃ entry, (finalState (p.next g s)).machine.traceback? e = some (T.push entry) ∧
      entry.Shows s.machine.heap s.frame := by
  obtain ⟨code, locals, cells⟩ := fits.of_retains h.retains
  subst code
  obtain ⟨once, values⟩ := s.frame.lookup_snapshot s.machine.heap distinct locals cells
  refine ⟨_, Stage.next_raised raised known, once, values, ?_⟩
  rw [← s.frame.current_iff s.machine.heap distinct]
  exact forall_congr' fun x => by rw [← values x]; rfl

/-! ### A parameter that is stored to -/

/-- The parts of a unit whose parameter a closure may capture.  It puts 5 on the stack, and
    stores it to the parameter or drops it; then it adds a string to the parameter, which
    raises an error. -/
def CodeParts.capturing (stores : Bool) : CodeParts where
  name := "f"
  argcount := 1
  firstLine := 1
  words := #[.ofOpcode .loadConst, ⟨1⟩] ++
    (if stores then #[.ofOpcode .storeDeref, ⟨1⟩] else #[.ofOpcode .popTop]) ++
    #[.ofOpcode .loadDeref, ⟨1⟩, .ofOpcode .loadConst, ⟨3⟩, .ofOpcode .binaryAdd,
      .ofOpcode .returnValue]
  consts := #[.int 5, .str "x"]
  varnames := #["a"]
  cellvars := #["a"]

/-- The unit with these parts. -/
def CodeUnit.capturing (stores : Bool) : CodeUnit :=
  (CodeUnit.ofParts 0 (.capturing stores)).toOption.getD default

/-- A function over the unit. -/
def Function.capturing : Function where
  name := "f"
  code := 0
  globals := 0

/-- A machine with the function, which has run nothing. -/
def Machine.capturing (stores : Bool) : Machine where
  config := {}
  heap := { units := #[.capturing stores], namespaces := #[{}, {}], functions := #[.capturing] }
  units := #[{}]
  globals := 0
  builtins := 1
  bailError := false
  control := .never
  timer := .new 1 false

/-- The frame of a call of the function on 1, and the machine then. -/
def Activation.capturing (stores : Bool) : Activation :=
  match frameFor .capturing [.int 1] [] (.capturing stores) with
  | .ok f m => ⟨f, m⟩
  | .error _ m => ⟨default, m⟩

/-- Where a call that begins so is so many steps on. -/
def Activation.after (s : Activation) : Nat → Stage × Activation
  | 0 => (.first .call s.frame s.machine, ⟨s.frame, s.machine.begun .call s.frame⟩)
  | n + 1 => Stage.onward .small (s.after n)

theorem Activation.reaches (s : Activation) : ∀ n,
    (∀ k < n, Stage.goesOn .small (s.after k)) →
      s.frame.Reaches .small (s.after n).1 (s.after n).2
  | 0, _ => .first
  | n + 1, h => .next (s.reaches n fun k hk => h k (Nat.lt_succ_of_lt hk))
      (Stage.next_onward (h n (Nat.lt_succ_self n)))

theorem Activation.frameFor_capturing (stores : Bool) :
    frameFor .capturing [.int 1] [] (.capturing stores) =
      .ok (capturing stores).frame (capturing stores).machine := by
  have bound : (match frameFor .capturing [.int 1] [] (.capturing stores) with
      | .ok _ _ => true
      | .error _ _ => false) = true := by
    cases stores <;> decide +kernel
  unfold Activation.capturing
  cases called : frameFor .capturing [.int 1] [] (.capturing stores) with
  | ok f m => rfl
  | error e m =>
    rw [called] at bound
    cases bound

theorem built_capturing (stores : Bool) : Built #[.capturing stores] where
  parts r u h := by
    match r with
    | 0 =>
      cases h
      exact ⟨.capturing stores, eq_ok_of_isSome (by cases stores <;> decide +kernel)⟩
    | r + 1 => cases h

theorem Machine.valid_capturing (stores : Bool) :
    (Machine.capturing stores).Valid #[.capturing stores] where
  units := rfl
  functions := by
    have all : ∀ func ∈ (Machine.capturing stores).heap.functions.toList,
        func.closure.size = (unitAt #[.capturing stores] func.code).freevars.size := by
      cases stores <;> decide +kernel
    exact fun func h => all func (Array.mem_toList_iff.mpr h)
  generators _ h := absurd h (Array.not_mem_empty _)
  native r n h := by
    match r with
    | 0 | r + 1 => cases h

/-- The frame of the call is one of the unit. -/
theorem Frame.fits_capturing (stores : Bool) :
    (Activation.capturing stores).frame.Fits (.capturing stores) :=
  (frameFor_rests (built_capturing stores) (Machine.valid_capturing stores)
    (by cases stores <;> decide +kernel) (Activation.frameFor_capturing stores)).toFits

theorem CodeUnit.distinct_capturing (stores : Bool) : (CodeUnit.capturing stores).Distinct where
  slots := by cases stores <;> decide +kernel
  cells := by cases stores <;> decide +kernel
  both := by cases stores <;> decide +kernel

/-- Where the value is dropped, the parameter is told as it is. -/
theorem Frame.Reaches.shows_of_drop :
    let s := (Activation.capturing false).after 19
    (CodeUnit.capturing false).Distinct ∧
    (Activation.capturing false).frame.Fits (.capturing false) ∧
    (Activation.capturing false).frame.Reaches .small s.1 s.2 ∧
    s.1.flow? = some (.raise 0 true) ∧ s.2.machine.traceback? 0 = some #[] ∧
    ∃ entry, (finalState (s.1.next .small s.2)).machine.traceback? 0 = some #[entry] ∧
      entry.Shows s.2.machine.heap s.2.frame ∧
      ∀ x, entry.locals.lookup x = s.2.frame.current? s.2.machine.heap x := by
  intro s
  have reaches : (Activation.capturing false).frame.Reaches .small s.1 s.2 :=
    Activation.reaches _ 19 (by decide +kernel)
  have raised : s.1.flow? = some (.raise 0 true) := by decide +kernel
  have known : s.2.machine.traceback? 0 = some #[] := by decide +kernel
  obtain ⟨entry, added, shows⟩ := Frame.Reaches.shows (CodeUnit.distinct_capturing false)
    (Frame.fits_capturing false) reaches raised known
  have agree : ∀ x ∈ s.2.frame.code.captured, ∀ v ∈ s.2.frame.slot? x,
      s.2.frame.content? s.2.machine.heap x = some v := by decide +kernel
  exact ⟨CodeUnit.distinct_capturing false, Frame.fits_capturing false, reaches, raised, known,
    entry, added, shows, shows.current.mpr agree⟩

/-- Where it is stored to the parameter, the parameter is told as the call passed it. -/
theorem stored_capture_is_told_as_passed :
    let s := (Activation.capturing true).after 19
    (CodeUnit.capturing true).Distinct ∧
    frameFor .capturing [.int 1] [] (.capturing true) =
      .ok (Activation.capturing true).frame (Activation.capturing true).machine ∧
    (Activation.capturing true).frame.Reaches .small s.1 s.2 ∧
    s.1.flow? = some (.raise 0 true) ∧
    s.2.frame.current? s.2.machine.heap "a" = some (.int 5) ∧
    (finalState (s.1.next .small s.2)).machine.traceback? 0 =
      some #[⟨"f", 1, 8, [("a", .int 1)]⟩] := by
  intro s
  exact ⟨CodeUnit.distinct_capturing true, Activation.frameFor_capturing true,
    Activation.reaches _ 19 (by decide +kernel), by decide +kernel, by decide +kernel,
    by decide +kernel⟩

end TieredMachine
