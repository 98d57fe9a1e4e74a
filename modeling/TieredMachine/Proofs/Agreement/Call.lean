/-
  Calls agree.

  With engines that agree, a call of any value agrees.  The frame that a call of
  a function makes has not begun.

  * `frameFor_agrees`, `callIn_agrees`: calls in any closed comparison;
  * `frameFor_fresh`: the frame of a call;
  * `callWith_agrees`: a call of any value.
-/
import TieredMachine.Proofs.Agreement.Generator
import TieredMachine.Run.Call

namespace TieredMachine

section

variable {C : Comparison Machine} [C.Closed] {g g' : Guest} {α : Type}

/-! ## Frames -/

/-- The rest of a new frame, given the namespace of built-in names. -/
def newFrameOver (u : CodeUnit) (globals builtins : Ref) : Exec Frame := do
  let cells ← u.cellvars.mapM fun _ => alloc (·.newCell none)
  return { code := u, globals, builtins, locals := .replicate u.varnames.size none, cells }

theorem newFrame_agrees (u : CodeUnit) (globals : Ref) :
    C.Same (newFrame u globals) (newFrame u globals) := by
  have cell : C.Same (alloc (·.newCell none)) (alloc (·.newCell none)) := by
    unfold Heap.newCell
    grind -funext
  exact Comparison.Closed.names (f := newFrameOver u globals) fun _ =>
    (Comparison.Same.arrayMapM (fun _ => cell) u.cellvars).andThen fun _ => .ret _

@[grind .]
theorem placeSurplus_agrees (u : CodeUnit) (b : Binding) (locals : Array (Option Value)) :
    C.Same (placeSurplus u b locals) (placeSurplus u b locals) := by
  unfold placeSurplus Heap.newDict
  grind -funext

@[grind .]
theorem fillCells_agrees (f : Frame) : C.Same (fillCells f) (fillCells f) := by
  refine .forM (fun p => ?_) _
  split
  · grind -funext
  · exact .ret _

/-- The frame of a call of a function whose unit is known. -/
def unitFrame (func : Function) (args : List Value) (kwargs : List (String × Value))
    (u : CodeUnit) : Exec Frame := do
  match bindParameters u func.defaults args kwargs with
  | .error e => typeError (e.message func u (args.length + kwargs.length))
  | .ok b =>
    let f ← newFrame u func.globals
    let params := b.params.zipIdx.foldl (fun ls p => ls.setIfInBounds p.2 p.1) f.locals
    let f := { f with locals := ← placeSurplus u b params }
    fillCells f
    return { f with cells := f.cells ++ func.closure }

omit [C.Closed] in
theorem frameFor_eq (func : Function) (args : List Value) (kwargs : List (String × Value)) :
    frameFor func args kwargs = heap >>= fun h => unitFrame func args kwargs (h.unit func.code) :=
  rfl

@[grind .]
theorem unitFrame_agrees (func : Function) (args : List Value) (kwargs : List (String × Value))
    (u : CodeUnit) : C.Same (unitFrame func args kwargs u) (unitFrame func args kwargs u) := by
  unfold unitFrame
  split
  · exact typeError_agrees _
  · exact (newFrame_agrees _ _).andThen fun f => (placeSurplus_agrees _ _ _).andThen fun ls =>
      (fillCells_agrees _).andThen fun _ => .ret _

@[grind .]
theorem frameFor_agrees {W : World Machine} [W.Closed] {side : Side} (func : Function)
    (args : List Value) (kwargs : List (String × Value)) :
    Agrees W side (frameFor func args kwargs) (frameFor func args kwargs) :=
  heap_agrees.andThen fun _ => unitFrame_agrees (C := W.agreement side) func args kwargs _

/-! ## Values -/

@[grind .]
theorem instantiate_agrees (hg : Serves C g g') (r : Ref) (args : List Value)
    (kwargs : List (String × Value)) :
    C.Same (instantiate g r args kwargs) (instantiate g' r args kwargs) := by
  have made : C.Same (alloc (·.newInstance { classRef := r }))
      (alloc (·.newInstance { classRef := r })) := by
    unfold Heap.newInstance
    grind -funext
  refine made.andThen fun inst => heapThen fun h h' alike => ?_
  rw [alike.classObj]
  split <;> grind -funext

/-- A call agrees when calls of guest functions and of built-in functions do. -/
theorem callIn_agrees (hg : Serves C g g') {h h' : Heap} (alike : h.Akin h') (callee : Value)
    (args : List Value) (kwargs : List (String × Value))
    (function : ∀ r, callee = .function r →
      C.Same (callGuest g (h.function r) args kwargs)
        (callGuest g' (h.function r) args kwargs))
    (builtin : ∀ r, callee = .builtin r →
      C.Same ((h.builtin r).run g args) ((h.builtin r).run g' args)) :
    C.Same (callIn g h callee args kwargs) (callIn g' h' callee args kwargs) := by
  unfold callIn
  cases callee with
  | builtin r =>
    dsimp only
    rw [← alike.builtin r]
    cases kwargs with
    | nil => exact builtin r rfl
    | cons p kwargs => exact typeError_agrees _
  | function r =>
    dsimp only
    rw [← alike.function r]
    exact function r rfl
  | _ => grind -funext

end

variable {us : Array CodeUnit} {side : Side} {g g' : Guest} {α : Type}

/-! ## What a new frame looks like -/

theorem placeSurplus_size {u : CodeUnit} {b : Binding} {locals locals' : Array (Option Value)}
    {m t : Machine} (h : placeSurplus u b locals m = .ok locals' t) :
    locals'.size = locals.size := by
  unfold placeSurplus at h
  dsimp only at h
  split at h
  · simp only [bind_ok] at h
    obtain ⟨v, m', _, h⟩ := h
    split at h
    · simp only [bind_ok] at h
      obtain ⟨w, m'', _, h⟩ := h
      cases h
      simp
    · cases h
      simp
  · split at h
    · simp only [bind_ok] at h
      obtain ⟨w, m'', _, h⟩ := h
      cases h
      simp
    · cases h
      rfl

theorem size_foldl_setIfInBounds (ps : Array (Option Value × Nat)) (ls : Array (Option Value)) :
    (ps.foldl (fun ls p => ls.setIfInBounds p.2 p.1) ls).size = ls.size :=
  Array.foldl_induction (fun _ (r : Array (Option Value)) => r.size = ls.size) rfl
    fun _ r h => by simp [h]

theorem frameFor_ok {func : Function} {args : List Value} {kwargs : List (String × Value)}
    {m t : Machine} {f : Frame} (h : frameFor func args kwargs m = .ok f t) :
    f.code = m.heap.unit func.code ∧ f.stack = [] ∧ f.blocks = [] ∧ f.ip = 0 ∧ f.lasti = none ∧
      f.locals.size = f.code.varnames.size := by
  obtain ⟨h₀, m₀, hh, h⟩ := bind_ok.mp h
  cases hh
  cases hb : bindParameters (m.heap.unit func.code) func.defaults args kwargs with
  | error e =>
    simp only [hb] at h
    obtain ⟨_, _, he, ht⟩ := bind_ok.mp h
    cases he
    cases ht
  | ok b =>
    simp only [hb] at h
    obtain ⟨f₀, m₁, hf, h⟩ := bind_ok.mp h
    obtain ⟨locals, m₂, hl, h⟩ := bind_ok.mp h
    obtain ⟨_, m₃, hc, h⟩ := bind_ok.mp h
    cases h
    obtain ⟨m', m'', hm, hf⟩ := bind_ok.mp hf
    obtain ⟨cells, m₄, hc, hf⟩ := bind_ok.mp hf
    cases hf
    refine ⟨rfl, rfl, rfl, rfl, rfl, ?_⟩
    rw [placeSurplus_size hl, size_foldl_setIfInBounds, Array.size_replicate]

/-- The frame of a call has not begun. -/
theorem frameFor_fresh (hu : Built us) {func : Function} {args : List Value}
    {kwargs : List (String × Value)} {m t : Machine} {f : Frame} (hm : m.Sound us)
    (h : frameFor func args kwargs m = .ok f t) : f.Fresh us := by
  obtain ⟨code, stack, blocks, ip, lasti, locals⟩ := frameFor_ok h
  refine ⟨?_, stack, blocks, ip, lasti, locals⟩
  rw [code, hm.fair.unit, hu.id]

/-! ## Guest functions -/

/-- A new generator agrees when its frame can be resumed. -/
theorem newGenerator_agrees (name : String) {f : Frame} (hf : f.Resting us) :
    Agrees (machineWorld us) side (alloc (·.newGenerator { name, frame := some f }))
      (alloc (·.newGenerator { name, frame := some f })) :=
  .allocate (fun h => ⟨rfl, fun _ => .refl _⟩) fun m hm =>
    hm.mapHeap _ ⟨rfl, fun _ => .refl _⟩ (fun gen hgen fr hfr => by
      rcases Array.mem_push.mp hgen with hgen | rfl
      · exact hm.resting gen hgen fr hfr
      · cases hfr
        exact hf) hm.discreet

/-- What a call of a guest function does with its frame. -/
def callFrame (g : Guest) (name : String) (f : Frame) : Exec Value := do
  if f.code.isGenerator then
    alloc (·.newGenerator { name := f.code.name, frame := some f })
  else
    match ← nested ((g.run .call).onNew f) with
    | .return_ v => return v
    | .yield_ _ => throw (.runtime (.yieldOutsideGenerator name))

theorem keeps_onNew {x : FrameExec α} {f : Frame} (h : Keeps (machineWorld us) (x.within f)) :
    Keeps (machineWorld us) (x.onNew f) :=
  h.bind fun _ => .pure _

theorem onNew_agrees {x y : FrameExec α} {f : Frame}
    (h : Agrees (machineWorld us) side (x.within f) (y.within f)) :
    Agrees (machineWorld us) side (x.onNew f) (y.onNew f) :=
  h.andThen fun _ => .ret _

theorem keeps_callFrame (h : ∀ entry f, Keeps (machineWorld us) ((g.run entry).within f))
    (name : String) (f : Frame) : Keeps (machineWorld us) (callFrame g name f) := by
  unfold callFrame
  split
  · exact fun m => ⟨rfl, fun _ => .refl _⟩
  · refine (keeps_nested (keeps_onNew (h .call f))).bind fun exit => ?_
    cases exit
    · exact .pure _
    · exact .throw _

theorem callFrame_agrees (hg : Guests us side g g') (name : String) {f : Frame}
    (hf : f.Fresh us) :
    Agrees (machineWorld us) side (callFrame g name f) (callFrame g' name f) := by
  unfold callFrame
  split
  · exact newGenerator_agrees _ (.inl hf)
  · refine (nested_agrees (onNew_agrees (hg.run .call f hf))).andThen fun exit => ?_
    cases exit
    · exact .ret _
    · exact .fail _

theorem callGuest_agrees (hu : Built us) (hg : Guests us side g g') (func : Function)
    (args : List Value) (kwargs : List (String × Value)) :
    Agrees (machineWorld us) side (callGuest g func args kwargs)
      (callGuest g' func args kwargs) :=
  (frameFor_agrees func args kwargs).andThenOf (·.Fresh us)
    (fun _ _ _ _ _ hm hf _ => frameFor_fresh hu hm.2.1 hf)
    (keeps_callFrame hg.keeps_left func.name) (keeps_callFrame hg.keeps_right func.name)
    fun _ hf => callFrame_agrees hg func.name hf

/-! ## Calls -/

theorem keeps_callIn (hu : Built us) (hg : Guests us side g g') (h : Heap) (callee : Value)
    (args : List Value) (kwargs : List (String × Value)) :
    Keeps (machineWorld us) (callIn g h callee args kwargs) ∧
      Keeps (machineWorld us) (callIn g' h callee args kwargs) := by
  by_cases hc : ∃ r, callee = .builtin r
  · obtain ⟨r, rfl⟩ := hc
    cases kwargs with
    | nil => exact BuiltinFn.keeps_run hg args (h.builtin r)
    | cons p kwargs =>
      exact ⟨fun m => ⟨rfl, fun _ => .refl _⟩, fun m => ⟨rfl, fun _ => .refl _⟩⟩
  · have agrees := callIn_agrees hg.serves (.refl h) callee args kwargs
      (fun r _ => callGuest_agrees hu hg _ args kwargs) fun r hr => absurd ⟨r, hr⟩ hc
    exact ⟨agrees.left, agrees.right⟩

/-- With engines that agree, a call of any value agrees. -/
theorem callWith_agrees (hu : Built us) (hg : Guests us side g g') (callee : Value)
    (args : List Value) (kwargs : List (String × Value)) :
    Agrees (machineWorld us) side (callWith g callee args kwargs)
      (callWith g' callee args kwargs) :=
  .heapThen (fun h => (keeps_callIn hu hg h callee args kwargs).1)
    (fun h => (keeps_callIn hu hg h callee args kwargs).2)
    fun h fair => callIn_agrees hg.serves (.refl h) callee args kwargs
      (fun _ _ => callGuest_agrees hu hg _ args kwargs)
      fun r _ => BuiltinFn.discreet_agrees hg args (fair.discreet r)

end TieredMachine
