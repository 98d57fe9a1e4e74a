/-
  What validation says of machines and frames.

  The tables of a frame are as large as those of its unit, and its handlers are starts of
  instructions.  Between two instructions it stands at a boundary of the unit.  Only an
  `END_FINALLY` may send it elsewhere, with a target of `continue` that it found on the
  stack; such a frame is *astray*.

  * `Frame.Fits`, `Frame.Astray`, `Frame.Stands`: frames of a unit;
  * `Machine.Valid`: machines over units that were accepted;
  * `Fault.isRuledOut`: the faults that no run ends with;
  * `Regime.validated`: the regime of all this, which the basic steps uphold;
  * `validated_suits`: the arguments of primitives are in range.
-/
import TieredMachine.Proofs.Code.Range
import TieredMachine.Proofs.Code.RoundTrip
import TieredMachine.Proofs.Safety.Effect
import TieredMachine.Graph.Lowering

namespace TieredMachine

/-! ## Frames -/

/-- A `CONTINUE_LOOP` of the unit has the target as its operand. -/
def CodeUnit.ContinuesTo (u : CodeUnit) (target : Nat) : Prop :=
  ∃ i ∈ u.instrs.toList, ∃ p ∈ i.prims, p.op = .continueLoop ∧ p.arg = some target

/-- The instruction that the frame began last holds the primitive. -/
def Frame.Began (f : Frame) (p : Primitive) : Prop :=
  ∃ i, f.lasti = some i.ip ∧ f.code.instrAt? i.ip = some i ∧ p ∈ i.prims

/-- An `END_FINALLY` of the instruction begun last has just found a `continue` on the
    stack, to a target that is the operand of no `CONTINUE_LOOP` of the unit. -/
structure Frame.Resumes (f : Frame) (target : Nat) : Prop where
  began : ∃ p, f.Began p ∧ p.op = .endFinally
  found : ∃ s m, endFinally s = .ok (.unwind (.continue_ target)) ⟨f, m⟩
  stray : ¬f.code.ContinuesTo target

/-- The frame stands where such a `continue` has sent it. -/
def Frame.Astray (f : Frame) : Prop :=
  ∃ (f₀ f₁ : Frame) (h h' : Heap), f₀.Resumes f.ip ∧
    f₀.unwind (.continue_ f.ip) h = (.handler f.ip, f₁, h') ∧ f = { f₁ with ip := f.ip }

/-- The frame has the tables of the unit, and its handlers are starts of instructions. -/
structure Frame.Fits (u : CodeUnit) (f : Frame) : Prop where
  code : f.code = u
  locals : f.locals.size = u.varnames.size
  cells : f.cells.size = u.cellCount
  handlers : ∀ b ∈ f.blocks, (u.instrAt? b.handler).isSome

/-- The frame stands between two instructions, at a boundary. -/
structure Frame.Rests (u : CodeUnit) (f : Frame) : Prop extends f.Fits u where
  boundary : u.Boundary f.ip

/-- The frame stands between two instructions. -/
structure Frame.Stands (u : CodeUnit) (f : Frame) : Prop extends f.Fits u where
  here : u.Boundary f.ip ∨ f.Astray

/-- The frame is inside an instruction. -/
structure Frame.Within (u : CodeUnit) (i : Instr) (f : Frame) : Prop extends f.Fits u where
  lasti : f.lasti = some i.ip
  ip : f.ip = i.next

variable {us : Array CodeUnit} {u : CodeUnit} {f f' : Frame}

theorem Frame.Rests.stands (h : f.Rests u) : f.Stands u := ⟨h.toFits, .inl h.boundary⟩

/-- A computation inside an instruction does not change what a frame has of its unit. -/
theorem Frame.Kept.fits (h : f.Kept f') (hf : f.Fits u) : f'.Fits u where
  code := h.code.trans hf.code
  locals := h.locals.trans hf.locals
  cells := by rw [h.cells]; exact hf.cells
  handlers := by rw [h.blocks]; exact hf.handlers

theorem Frame.Kept.within {i : Instr} (h : f.Kept f') (hf : f.Within u i) : f'.Within u i :=
  ⟨h.fits hf.toFits, h.lasti.trans hf.lasti, h.ip.trans hf.ip⟩

/-- The operand of a `CONTINUE_LOOP` is the start of an instruction. -/
theorem CodeUnit.Checked.continuesTo_isSome (hu : u.Checked) {target : Nat}
    (h : u.ContinuesTo target) : (u.instrAt? target).isSome := by
  obtain ⟨i, hi, p, hp, hop, harg⟩ := h
  refine hu.target_isSome (hu.instrAt?_of_mem hi) hp ?_
  unfold Primitive.target?
  rw [harg, hop]
  rfl

/-! ## Machines -/

/-- The native code was made from a graph of the unit. -/
def NativeFunction.MadeFrom (u : CodeUnit) (n : NativeFunction) : Prop :=
  ∃ h feedback opts graph, lower h u feedback opts = .ok graph ∧
    (n.code = .threaded graph ∨ ∃ k, Kernel.compile graph = .ok k ∧ n.code = .kernel k)

/-- The machine is over these units: its functions have as many cells as their units have
    free variables, its generators hold frames of them, and its native code was made from
    them. -/
structure Machine.Valid (us : Array CodeUnit) (m : Machine) : Prop where
  units : m.heap.units = us
  functions : ∀ func ∈ m.heap.functions,
    func.closure.size = (unitAt us func.code).freevars.size
  generators : ∀ gen ∈ m.heap.generators, ∀ f, gen.frame = some f → ∃ r, f.Rests (unitAt us r)
  native : ∀ r n, (m.profile r).state.native = some n → n.MadeFrom (unitAt us r)

namespace Machine.Valid

variable {m m' : Machine}

theorem unit (hm : m.Valid us) (r : Ref) : m.heap.unit r = unitAt us r := by
  rw [← hm.units]
  rfl

/-- A function that a reference leads to has as many cells as its unit has free
    variables. -/
theorem function (hm : m.Valid us) (r : Ref) :
    (m.heap.function r).closure.size = (unitAt us (m.heap.function r).code).freevars.size := by
  unfold Heap.function
  cases h : m.heap.functions[r]? with
  | some func => exact hm.functions func (Array.mem_of_getElem? h)
  | none =>
    rw [hm.units, Option.getD_none, unitAt, Array.getElem?_eq_none (Nat.le_refl _)]
    rfl

/-- A frame that a generator holds. -/
theorem generator (hm : m.Valid us) {r : Ref} {f : Frame}
    (h : (m.heap.generator r).frame = some f) : ∃ r, f.Rests (unitAt us r) := by
  unfold Heap.generator at h
  cases hg : m.heap.generators[r]? with
  | some gen =>
    rw [hg] at h
    exact hm.generators gen (Array.mem_of_getElem? hg) f h
  | none =>
    rw [hg] at h
    cases h

/-- A machine stays valid when the parts that matter change with care. -/
theorem of (hm : m.Valid us) (units : m'.heap.units = m.heap.units)
    (functions : m'.heap.functions = m.heap.functions)
    (generators : ∀ gen' ∈ m'.heap.generators, ∀ f, gen'.frame = some f →
      (∃ gen ∈ m.heap.generators, gen.frame = some f) ∨ ∃ r, f.Rests (unitAt us r))
    (native : ∀ r n, (m'.profile r).state.native = some n →
      (m.profile r).state.native = some n) : m'.Valid us where
  units := units.trans hm.units
  functions := by rw [functions]; exact hm.functions
  generators gen' hgen f hf := by
    obtain ⟨gen, hg, h⟩ | h := generators gen' hgen f hf
    · exact hm.generators gen hg f h
    · exact h
  native r n h := hm.native r n (native r n h)

/-- A machine stays valid when its heap does not change and no native code is installed. -/
theorem of_heap (hm : m.Valid us) (heap : m'.heap = m.heap)
    (native : ∀ r n, (m'.profile r).state.native = some n →
      (m.profile r).state.native = some n) : m'.Valid us :=
  hm.of (congrArg _ heap) (congrArg _ heap) (fun gen hgen _ h => .inl ⟨gen, heap ▸ hgen, h⟩) native

/-- A generator may be given a frame that rests. -/
theorem changeGenerator (hm : m.Valid us) (r : Ref) {f : Generator → Generator}
    (hf : ∀ gen fr, (f gen).frame = some fr →
      gen.frame = some fr ∨ ∃ r, fr.Rests (unitAt us r)) :
    (m.mapHeap fun h => { h with generators := h.generators.modify r f }).Valid us := by
  refine hm.of rfl rfl (fun gen hgen fr hfr => ?_) fun _ _ h => h
  obtain ⟨k, hk⟩ := Array.mem_iff_getElem?.mp
    (show gen ∈ m.heap.generators.modify r f from hgen)
  rw [Array.getElem?_modify] at hk
  split at hk
  · obtain ⟨old, ho, rfl⟩ := Option.map_eq_some_iff.mp hk
    exact (hf old fr hfr).imp_left fun h => ⟨old, Array.mem_of_getElem? ho, h⟩
  · exact .inl ⟨gen, Array.mem_of_getElem? hk, hfr⟩

/-- So may a new one. -/
theorem newGenerator (hm : m.Valid us) {gen : Generator}
    (hf : ∀ fr, gen.frame = some fr → ∃ r, fr.Rests (unitAt us r)) :
    (m.mapHeap fun h => (h.newGenerator gen).2).Valid us := by
  refine hm.of rfl rfl (fun gen' hgen fr hfr => ?_) fun _ _ h => h
  obtain h | rfl := Array.mem_push.mp
    (show gen' ∈ m.heap.generators.push gen from hgen)
  · exact .inl ⟨gen', h, hfr⟩
  · exact .inr (hf fr hfr)

/-- A new function with as many cells as its unit has free variables. -/
theorem newFunction (hm : m.Valid us) {func : Function}
    (h : func.closure.size = (m.heap.unit func.code).freevars.size) :
    (m.mapHeap fun h => (h.newFunction func).2).Valid us where
  units := hm.units
  functions func' hf := by
    obtain hf | rfl := Array.mem_push.mp (show func' ∈ m.heap.functions.push func from hf)
    · exact hm.functions func' hf
    · rw [h, hm.unit]
  generators := hm.generators
  native := hm.native

end Machine.Valid

/-! ## Faults -/

/-- Whether validation rules the fault out. -/
def Fault.isRuledOut : Fault → Bool
  | .invalidConstant _ | .invalidName _ | .invalidLocal _ | .invalidCell _
  | .missingArgument .. | .invalidOpcode .. | .code _ => true
  | _ => false

/-- What validation makes sure of while a frame of a unit runs: the faults that are ruled
    out do not come up, and control leaves the code only at certain indices. -/
def Regime.validated (us : Array CodeUnit) (stops : Nat → Prop) (u : CodeUnit) : Regime where
  holds := Machine.Valid us
  fits := Frame.Fits u
  permits e := e.isRuledOut = false ∧ ∀ ip, e = .ipOutOfBounds ip → stops ip

variable {stops : Nat → Prop}

/-- A fault that is not ruled out and does not tell of control that left the code. -/
theorem Regime.validated_permits {e : Fault} (h : e.isRuledOut = false)
    (hip : ∀ ip, e ≠ .ipOutOfBounds ip) : (validated us stops u).permits e :=
  ⟨h, fun ip he => absurd he (hip ip)⟩

/-- What is missing on a stack is no concern of validation. -/
theorem Regime.validated_stackFault {e : Fault} (h : e.isStackFault) :
    (validated us stops u).permits e := by
  cases e with
  | stackUnderflow | blockStackUnderflow | blockStackOverflow =>
    exact validated_permits rfl fun _ => Fault.noConfusion
  | _ => cases h

theorem Regime.validated_spares (k : Nat) (f : Frame) : (validated us stops u).Spares k f :=
  .inr fun _ => validated_stackFault

instance : (Regime.validated us stops u).Closed where
  raised _ := Regime.validated_permits rfl fun _ => Fault.noConfusion
  outOfFuel := Regime.validated_permits rfl fun _ => Fault.noConfusion
  capacityOverflow := Regime.validated_permits rfl fun _ => Fault.noConfusion
  misuse _ := Regime.validated_permits rfl fun _ => Fault.noConfusion
  fits_of_kept h hf := h.fits hf
  edit {m f} hf hm := Machine.Valid.of hm (hf.units _) (hf.functions _)
    (fun gen hgen fr h => .inl ⟨gen, by
      rw [← hf.generators]
      exact hgen, h⟩) fun _ _ h => h
  bind r _ _ hm := Machine.Valid.of hm rfl rfl (fun gen hgen _ h => .inl ⟨gen, hgen, h⟩)
    fun _ _ h => h
  changeGenerator r _ hf hm := Machine.Valid.changeGenerator hm r fun gen fr h => .inl (hf gen fr h)
  addFunction func h hm := Machine.Valid.newFunction hm h
  touch same heap hm := Machine.Valid.of_heap hm heap fun r n h => same.profile r ▸ h

/-- What upholds the regime for one unit upholds it for every other one. -/
theorem Safe.validated {α : Type} {x : Exec α} {v : CodeUnit}
    (h : Safe (.validated us stops u) x) : Safe (.validated us stops v) x :=
  fun m hm => h m hm

/-! ## Arguments -/

/-- What an opcode stands for is no superinstruction. -/
theorem Opcode.isSuper_of_mem_primitives {op p : Opcode} (h : p ∈ op.primitives) :
    p.isSuper = false := by
  cases hop : op.isSuper with
  | true => exact not_isSuper_of_mem_primitives hop h
  | false =>
    rw [primitives_of_not_isSuper hop] at h
    rw [List.mem_singleton.mp h, hop]

/-- The instructions of a unit that was accepted have their arguments in range. -/
theorem validated_suits (hu : Built us) {r : Ref} {ip : Nat} {i : Instr}
    (hi : (unitAt us r).instrAt? ip = some i) {p : Primitive} (hp : p ∈ i.prims) :
    (Regime.validated us stops (unitAt us r)).Suits p := by
  obtain ⟨u, hr, hat⟩ : ∃ u, us[r]? = some u ∧ unitAt us r = u := by
    unfold unitAt at hi ⊢
    cases h : us[r]? with
    | some u => exact ⟨u, rfl, rfl⟩
    | none =>
      rw [h] at hi
      cases hi
  rw [hat] at hi ⊢
  have checked := hu.checked hr
  obtain ⟨hmem, -⟩ := checked.instrAt?_eq_some.mp hi
  obtain ⟨ops, args⟩ := checked.primitives hi
  obtain ⟨parts, hparts⟩ := hu.parts r u hr
  have range {k n : Nat} (ha : p.arg = some k)
      (hn : Code.tableLength? u.toCodeParts p.op.argKind = some n) : k < n :=
    CodeUnit.index_lt_of_ofParts hparts hmem hp ha hn
  constructor
  · intro hsuper
    have mem : p.op ∈ i.op.primitives := ops ▸ List.mem_map_of_mem hp
    rw [Opcode.isSuper_of_mem_primitives mem] at hsuper
    cases hsuper
  · intro harg hnone
    have := args p hp
    rw [hnone, harg] at this
    cases this
  · intro hk arg ha f hf
    refine .inr ?_
    rw [hf.code]
    exact range ha (by rw [hk]; rfl)
  · intro hk arg ha f hf
    refine .inr ?_
    rw [hf.code]
    exact range ha (by rw [hk]; rfl)
  · intro hk arg ha f hf
    refine .inr ?_
    rw [hf.locals]
    exact range ha (by rw [hk]; rfl)
  · intro hk arg ha f hf
    refine .inr ?_
    rw [hf.cells]
    exact range ha (by rw [hk]; rfl)

end TieredMachine
