/-
  What the analysis ends with is a solution.

  The states that the analysis records belong together: whatever an instruction carries to
  another one, computed from the state that is recorded for it, is what is recorded there.
  Only what went past an `END_FINALLY` may differ from what is recorded.  The handler of a
  setup has the height and the enclosing handler of the state that the setup was followed
  from, so they are those of the recorded state if no other state took part.

  * `Analysis.edge?`, `Analysis.onward?`, `Analysis.edges`: what an instruction carries, and
    where;
  * `stepPrimitive_ok`: following a primitive is one more arrival at the end of its edge;
  * `step_edges`: an instruction that is followed has arrived wherever its edges lead;
  * `CodeUnit.Follows`, `analyzeFor_handlers`: the states that setups are followed from;
  * `analyze_edges`, `analyze_handlerAt?`: edges and setups of the analysis as it ends;
  * **`analysis_consistent`**: the analysis of a unit.
-/
import TieredMachine.Proofs.Graph.Height

namespace TieredMachine

variable {u : CodeUnit}

namespace Analysis

/-! ## Edges -/

section

variable (a : Analysis)

/-- The handler that the instruction at an index sets up. -/
def handlerAt? (ip : Nat) : Option HandlerId := a.handlers.findIdx? (·.setupIp == ip)

/-- What a `continue` carries to the header of the innermost loop, unless a `finally` clause is
    in between. -/
def restart? (e : StackState) : Option StackState :=
  let inner := e.handlers.takeWhile fun h => a.kindOf h != some .loop
  let outer := e.handlers.dropWhile fun h => a.kindOf h != some .loop
  if outer.isEmpty || inner.any (fun h => a.kindOf h == some .finally_) then none
  else some ⟨(inner.getLast?.bind a.depthOf).getD e.depth, outer, e.weak⟩

/-- The edge on which a primitive sends control to another instruction or to a handler, with
    what it carries there. -/
def edge? (next : Nat) (p : Primitive) (e : StackState) : Option (Nat × StackState) :=
  let jump (depth : Nat) := (p.target? next).map fun t => (t, { e with depth })
  match p.op with
  | .setupLoop | .setupExcept | .setupFinally =>
    jump (e.depth + received (p.op.blockKind?.getD .finally_))
  | .jumpForward | .jumpAbsolute | .jumpIfFalseOrPop | .jumpIfTrueOrPop => jump e.depth
  | .popJumpIfFalse | .popJumpIfTrue | .forIter => jump (e.depth - 1)
  | .continueLoop => p.arg.bind fun t => (a.restart? e).map fun s => (t, s)
  | _ => none

/-- What a primitive of the instruction at an index carries to the next primitive, if control
    goes on there. -/
def onward? (ip : Nat) (p : Primitive) (e : StackState) : Option StackState :=
  match p.op with
  | .setupLoop | .setupExcept | .setupFinally =>
    (a.handlerAt? ip).map fun h => { e with handlers := h :: e.handlers }
  | .popBlock =>
    match e.handlers with
    | [] => none
    | h :: rest =>
      some { e with depth := ((a.depthOf h).map (min e.depth)).getD e.depth, handlers := rest }
  | .popJumpIfFalse | .popJumpIfTrue | .jumpIfFalseOrPop | .jumpIfTrueOrPop =>
    some { e with depth := e.depth - 1 }
  | .forIter => some { e with depth := e.depth + 1 }
  | .jumpForward | .jumpAbsolute | .returnValue | .raiseVarargs | .breakLoop | .continueLoop =>
    none
  | .yieldValue => some e
  | .endFinally => some { e with depth := e.depth - 1, weak := true }
  | _ => some { e with depth := (e.depth + (stackEffect p).2).toNat }

/-- The edges out of some primitives of an instruction, and the one to the next instruction. -/
def edgesFrom (u : CodeUnit) (i : Instr) : List Primitive → StackState → List (Nat × StackState)
  | [], e => if i.next < u.stop then [(i.next, e)] else []
  | p :: ps, e => (a.edge? i.next p e).toList ++
    match a.onward? i.ip p e with
    | some e => edgesFrom u i ps e
    | none => []

/-- The edges out of an instruction, with what they carry when control arrives as told. -/
def edges (u : CodeUnit) (i : Instr) (e : StackState) : List (Nat × StackState) :=
  a.edgesFrom u i i.prims e

end

variable {a a' b : Analysis} {e new : StackState} {i : Instr} {p : Primitive} {ip next : Nat}

/-! ### More handlers -/

/-- Every handler in force is one that the analysis found. -/
def Finds (a : Analysis) (e : StackState) : Prop := ∀ h ∈ e.handlers, h < a.handlers.size

theorem Later.handler (hl : Later a b) {h : HandlerId} (hlt : h < a.handlers.size) :
    b.handlers[h]? = a.handlers[h]? := by
  obtain ⟨more, hm⟩ := hl.handlers
  rw [← Array.getElem?_toList, ← Array.getElem?_toList, ← hm,
    List.getElem?_append_left (by rwa [Array.length_toList])]

theorem Later.size_le (hl : Later a b) : a.handlers.size ≤ b.handlers.size := by
  rw [← Array.length_toList, ← Array.length_toList]
  exact hl.handlers.length_le

theorem Finds.later (h : a.Finds e) (hl : Later a b) : b.Finds e :=
  fun k hk => Nat.lt_of_lt_of_le (h k hk) hl.size_le

theorem Finds.kindOf (h : a.Finds e) (hl : Later a b) : ∀ k ∈ e.handlers, b.kindOf k = a.kindOf k :=
  fun k hk => by unfold Analysis.kindOf; rw [hl.handler (h k hk)]

theorem Finds.depthOf (h : a.Finds e) (hl : Later a b) :
    ∀ k ∈ e.handlers, b.depthOf k = a.depthOf k :=
  fun k hk => by unfold Analysis.depthOf; rw [hl.handler (h k hk)]

theorem Later.handlerAt? (hl : Later a b) {h : HandlerId} (ha : a.handlerAt? ip = some h) :
    b.handlerAt? ip = some h := by
  obtain ⟨more, hm⟩ := hl.handlers
  have appended : b.handlers = a.handlers ++ more.toArray := by
    rw [← Array.toList_inj, ← hm, Array.toList_append]
  unfold Analysis.handlerAt? at ha ⊢
  rw [appended, Array.findIdx?_append, ha]
  rfl

theorem restart?_later (h : a.Finds e) (hl : Later a b) : b.restart? e = a.restart? e := by
  have split (hs : List HandlerId) (same : ∀ k ∈ hs, b.kindOf k = a.kindOf k) :
      hs.takeWhile (fun k => b.kindOf k != some .loop) =
          hs.takeWhile (fun k => a.kindOf k != some .loop) ∧
        hs.dropWhile (fun k => b.kindOf k != some .loop) =
          hs.dropWhile (fun k => a.kindOf k != some .loop) := by
    induction hs with
    | nil => exact ⟨rfl, rfl⟩
    | cons k hs ih =>
      obtain ⟨take, drop⟩ := ih fun k hk => same k (List.mem_cons_of_mem _ hk)
      rw [List.takeWhile_cons, List.takeWhile_cons, List.dropWhile_cons, List.dropWhile_cons,
        same k List.mem_cons_self, take, drop]
      exact ⟨rfl, rfl⟩
  obtain ⟨take, drop⟩ := split e.handlers (h.kindOf hl)
  have inner : ∀ k ∈ e.handlers.takeWhile (fun k => a.kindOf k != some .loop), k ∈ e.handlers :=
    fun k hk => (List.takeWhile_prefix _).subset hk
  unfold restart?
  dsimp only
  rw [take, drop]
  have finals : (e.handlers.takeWhile fun k => a.kindOf k != some .loop).any
        (fun k => b.kindOf k == some .finally_) =
      (e.handlers.takeWhile fun k => a.kindOf k != some .loop).any
        (fun k => a.kindOf k == some .finally_) := by
    rw [Bool.eq_iff_iff, List.any_eq_true, List.any_eq_true]
    exact exists_congr fun k => and_congr_right fun hk => by rw [h.kindOf hl k (inner k hk)]
  have level : (e.handlers.takeWhile fun k => a.kindOf k != some .loop).getLast?.bind b.depthOf =
      (e.handlers.takeWhile fun k => a.kindOf k != some .loop).getLast?.bind a.depthOf := by
    cases hlast : (e.handlers.takeWhile fun k => a.kindOf k != some .loop).getLast? with
    | none => rfl
    | some k => exact h.depthOf hl k (inner k (List.mem_of_getLast? hlast))
  rw [finals, level]

/-- Handlers that are found later change nothing about an edge. -/
theorem edge?_later (h : a.Finds e) (hl : Later a b) : b.edge? next p e = a.edge? next p e := by
  unfold edge?
  rw [restart?_later h hl]

theorem onward?_later (h : a.Finds e) (hl : Later a b)
    (set : p.op.blockKind?.isSome → (a.handlerAt? ip).isSome) :
    b.onward? ip p e = a.onward? ip p e := by
  have pushed (hk : p.op.blockKind?.isSome) : b.handlerAt? ip = a.handlerAt? ip := by
    obtain ⟨k, ha⟩ := Option.isSome_iff_exists.mp (set hk)
    rw [ha, hl.handlerAt? ha]
  unfold onward?
  split
  case h_1 hop | h_2 hop | h_3 hop => rw [pushed (by rw [hop]; rfl)]
  case h_4 =>
    split
    · rfl
    · rename_i h' rest hh
      rw [h.depthOf hl h' (by rw [hh]; exact List.mem_cons_self)]
  all_goals rfl

/-! ## Following a primitive -/

/-- The analysis with the handler that a primitive sets up, if it sets one up. -/
def noting (ip next : Nat) (p : Primitive) (e : StackState) (a : Analysis) : Analysis :=
  match p.op.blockKind?, p.target? next with
  | some kind, some target =>
    (a.handlerFor ⟨kind, ip, target, 0, some e.depth, e.handlers.head?⟩).2
  | _, _ => a

theorem noting_of_plain (h : p.op.blockKind? = none) : noting ip next p e a = a := by
  unfold noting
  rw [h]

theorem noting_of_setup {kind : BlockKind} {target : Nat} (hk : p.op.blockKind? = some kind)
    (ht : p.target? next = some target) : noting ip next p e a =
      (a.handlerFor ⟨kind, ip, target, 0, some e.depth, e.handlers.head?⟩).2 := by
  unfold noting
  rw [hk, ht]

/-- The handler that is noted for an instruction is the one that is looked up. -/
theorem handlerFor_handlerAt? (h : Handler) (a : Analysis) :
    (a.handlerFor h).2.handlerAt? h.setupIp = some (a.handlerFor h).1 := by
  unfold handlerFor
  split
  · rename_i k hk
    exact hk
  · rename_i hk
    unfold handlerAt?
    rw [Array.findIdx?_push, hk]
    simp

/-- An edge is followed: what it carries arrives at its end. -/
def Arrives (u : CodeUnit) (source : Nat) (edge : Option (Nat × StackState)) (a a' : Analysis) :
    Prop :=
  match edge with
  | some (target, s) => a.merge u source target s = .ok a'
  | none => a' = a

/-- A jump arrives at its target. -/
theorem jump_arrives {x : Option StackState} {s : StackState} {out : Option StackState}
    (h : (do
      let target ← targetOf ip (p.target? next)
      return (← a.merge u ip target s, x)) = .ok (a', out)) :
    Arrives u ip ((p.target? next).map fun t => (t, s)) a a' ∧ out = x := by
  obtain ⟨target, ht, h⟩ := except_bind_ok.mp h
  obtain ⟨a₁, hm, h⟩ := except_bind_ok.mp h
  cases h
  rw [targetOf_ok ht]
  exact ⟨hm, rfl⟩

/-- A setup arrives at its handler. -/
theorem setup_arrives {kind : BlockKind} (hk : p.op.blockKind? = some kind)
    {out : Option StackState} (h : (do
      let target ← targetOf ip (p.target? next)
      if maxBlocks ≤ e.handlers.length then .error (.blockMismatch ip)
      let (h, a) := a.handlerFor ⟨kind, ip, target, 0, some e.depth, e.handlers.head?⟩
      let a ← a.merge u ip target { e with depth := e.depth + received kind }
      return (a, some { e with handlers := h :: e.handlers })) = .ok (a', out)) :
    Arrives u ip ((p.target? next).map fun t => (t, { e with depth := e.depth + received kind }))
        (noting ip next p e a) a' ∧
      out = ((noting ip next p e a).handlerAt? ip).map
        fun h => { e with handlers := h :: e.handlers } := by
  obtain ⟨target, ht, h⟩ := except_bind_ok.mp h
  have ht := targetOf_ok ht
  dsimp only at h
  split at h
  · cases h
  · obtain ⟨a₁, hm, h⟩ := except_bind_ok.mp h
    cases h
    rw [noting_of_setup hk ht, ht,
      handlerFor_handlerAt? ⟨kind, ip, target, 0, some e.depth, e.handlers.head?⟩ a]
    exact ⟨hm, rfl⟩

/-- A `continue` arrives at the header of the loop that takes it. -/
theorem continue_arrives {arg : Option Nat} {out : Option StackState} (h : (do
      let target ← targetOf ip arg
      return (← a.continueEdge u ip target e, none)) = .ok (a', out)) :
    Arrives u ip (arg.bind fun t => (a.restart? e).map fun s => (t, s)) a a' ∧ out = none := by
  obtain ⟨target, ht, h⟩ := except_bind_ok.mp h
  obtain ⟨a₁, hm, h⟩ := except_bind_ok.mp h
  cases h
  rw [targetOf_ok ht]
  unfold continueEdge at hm
  unfold restart?
  dsimp only [Option.bind_some] at hm ⊢
  split at hm
  · rename_i hskip
    cases hm
    rw [if_pos hskip]
    exact ⟨rfl, rfl⟩
  · rename_i hskip
    rw [if_neg hskip]
    exact ⟨hm, rfl⟩

/-- Following a primitive is one more arrival, at the end of its edge. -/
theorem stepPrimitive_ok {out : Option StackState}
    (h : stepPrimitive u ip next p e a = .ok (a', out)) :
    Arrives u ip ((noting ip next p e a).edge? next p e) (noting ip next p e a) a' ∧
      out = (noting ip next p e a).onward? ip p e := by
  have stays {out x : Option StackState}
      (h : (.ok (a, x) : Except CompileError (Analysis × Option StackState)) = .ok (a', out)) :
      Arrives u ip none a a' ∧ out = x := by
    cases h
    exact ⟨rfl, rfl⟩
  unfold stepPrimitive at h
  dsimp only at h
  split at h
  case h_1 hop | h_2 hop | h_3 hop =>
    have set := setup_arrives (by rw [hop]; rfl) h
    simpa only [edge?, onward?, hop] using set
  case h_4 hop =>
    rw [noting_of_plain (by rw [hop]; rfl)]
    simp only [edge?, onward?, hop]
    cases hh : e.handlers with
    | nil =>
      rw [hh] at h
      cases h
    | cons k rest =>
      rw [hh] at h
      cases h
      refine ⟨rfl, ?_⟩
      dsimp only
      cases a.depthOf k <;> rfl
  case h_5 hop | h_6 hop =>
    rw [noting_of_plain (by rw [hop]; rfl)]
    simp only [edge?, onward?, hop]
    exact jump_arrives h
  case h_7 hop | h_8 hop | h_9 hop | h_10 hop | h_11 hop =>
    rw [noting_of_plain (by rw [hop]; rfl)]
    obtain ⟨_, -, h⟩ := except_bind_ok.mp h
    simp only [edge?, onward?, hop]
    exact jump_arrives h
  case h_12 hop | h_16 hop | h_17 hop =>
    rw [noting_of_plain (by rw [hop]; rfl)]
    obtain ⟨_, -, h⟩ := except_bind_ok.mp h
    simp only [edge?, onward?, hop]
    exact stays h
  case h_13 hop =>
    rw [noting_of_plain (by rw [hop]; rfl)]
    simp only [edge?, onward?, hop]
    split at h
    · cases h
    · obtain ⟨_, -, h⟩ := except_bind_ok.mp h
      exact stays h
  case h_14 hop =>
    rw [noting_of_plain (by rw [hop]; rfl)]
    simp only [edge?, onward?, hop]
    exact stays h
  case h_15 hop =>
    rw [noting_of_plain (by rw [hop]; rfl)]
    simp only [edge?, onward?, hop]
    exact continue_arrives h
  case h_18 =>
    have plain : p.op.blockKind? = none := by
      unfold Opcode.blockKind?
      split <;> first | rfl | contradiction
    rw [noting_of_plain plain]
    obtain ⟨_, -, h⟩ := except_bind_ok.mp h
    have nowhere : a.edge? next p e = none := by
      unfold edge?
      split <;> first | rfl | contradiction
    have goesOn : a.onward? ip p e =
        some { e with depth := (e.depth + (stackEffect p).2).toNat } := by
      unfold onward?
      split <;> first | rfl | contradiction
    rw [nowhere, goesOn]
    exact stays h

/-! ## Following an instruction -/

/-- Every entry is under handlers that the analysis found. -/
structure Grounded (u : CodeUnit) (a : Analysis) : Prop where
  size : a.entries.size = u.instrs.size
  finds : ∀ (k : Nat) e, a.entries[k]?.join = some e → a.Finds e

namespace Grounded

theorem finds_at (ha : Grounded u a) (h : a.entryAt? u ip = some e) : a.Finds e := by
  obtain ⟨k, -, hk⟩ := Option.bind_eq_some_iff.mp h
  exact ha.finds k e hk

theorem height (ha : Grounded u a) (n : Nat) : Grounded u { a with maxDepth := n } :=
  ⟨ha.size, ha.finds⟩

theorem merge (hu : u.Checked) (ha : Grounded u a) (hn : a.Finds new) {source : Nat}
    (h : a.merge u source ip new = .ok a') : Grounded u a' := by
  obtain ⟨grows, -⟩ := merge_grows hu ha.size h
  refine ⟨grows.size.trans ha.size, fun k e he => ?_⟩
  rcases (merge_entries h).2 k e he with he | rfl
  · exact (ha.finds k e he).later grows.toLater
  · exact hn.later grows.toLater

theorem handlerFor (ha : Grounded u a) (h : Handler) : Grounded u (a.handlerFor h).2 := by
  have grows := handlerFor_grows h a
  have entries : (a.handlerFor h).2.entries = a.entries := by
    unfold Analysis.handlerFor
    split <;> rfl
  refine ⟨grows.size.trans ha.size, fun k e hk => ?_⟩
  rw [entries] at hk
  exact (ha.finds k e hk).later grows.toLater

theorem noting (ha : Grounded u a) (ip next : Nat) (p : Primitive) (e : StackState) :
    Grounded u (noting ip next p e a) := by
  unfold Analysis.noting
  split
  · exact ha.handlerFor _
  · exact ha

end Grounded

theorem noting_later (ip next : Nat) (p : Primitive) (e : StackState) (a : Analysis) :
    Later a (noting ip next p e a) := by
  unfold noting
  split
  · exact (handlerFor_grows _ a).toLater
  · exact .refl a

theorem restart?_finds {s : StackState} (h : a.Finds e) (hs : a.restart? e = some s) :
    a.Finds s := by
  unfold restart? at hs
  dsimp only at hs
  split at hs
  · cases hs
  · cases hs
    exact fun k hk => h k ((List.dropWhile_suffix _).subset hk)

/-- What an edge carries is under handlers that the analysis found. -/
theorem edge?_finds {target : Nat} {s : StackState} (h : a.Finds e)
    (hs : a.edge? next p e = some (target, s)) : a.Finds s := by
  have jumps {depth : Nat}
      (hs : ((p.target? next).map fun t => (t, { e with depth })) = some (target, s)) :
      a.Finds s := by
    obtain ⟨t, -, hs⟩ := Option.map_eq_some_iff.mp hs
    cases hs
    exact h
  unfold edge? at hs
  dsimp only at hs
  split at hs
  case h_11 =>
    obtain ⟨t, -, hs⟩ := Option.bind_eq_some_iff.mp hs
    obtain ⟨s', hr, hs⟩ := Option.map_eq_some_iff.mp hs
    cases hs
    exact restart?_finds h hr
  case h_12 => cases hs
  all_goals exact jumps hs

theorem onward?_finds {s : StackState} (h : a.Finds e) (hs : a.onward? ip p e = some s) :
    a.Finds s := by
  unfold onward? at hs
  split at hs
  case h_1 | h_2 | h_3 =>
    obtain ⟨k, hk, hs⟩ := Option.map_eq_some_iff.mp hs
    cases hs
    intro k' hk'
    rcases List.mem_cons.mp hk' with rfl | hk'
    · exact (Array.findIdx?_eq_some_iff_getElem.mp hk).1
    · exact h k' hk'
  case h_4 =>
    split at hs
    · cases hs
    · rename_i k rest hh
      cases hs
      exact fun k' hk' => h k' (by rw [hh]; exact List.mem_cons_of_mem _ hk')
  all_goals
    cases hs
    try exact h

/-- A setup that is followed has its handler noted. -/
theorem noting_handlerAt? {out : Option StackState} (hk : p.op.blockKind?.isSome)
    (h : stepPrimitive u ip next p e a = .ok (a', out)) :
    ((noting ip next p e a).handlerAt? ip).isSome := by
  obtain ⟨kind, hk⟩ := Option.isSome_iff_exists.mp hk
  obtain ⟨target, ht⟩ : ∃ target, p.target? next = some target := by
    obtain ⟨op, arg⟩ := p
    cases op
    case setupLoop | setupExcept | setupFinally =>
      obtain ⟨target, ht, -⟩ := except_bind_ok.mp h
      exact ⟨target, targetOf_ok ht⟩
    all_goals cases hk
  rw [noting_of_setup hk ht,
    handlerFor_handlerAt? ⟨kind, ip, target, 0, some e.depth, e.handlers.head?⟩ a]
  rfl

/-- The way from the last primitive of an instruction to the next instruction. -/
def leave (u : CodeUnit) (i : Instr) (out : Option StackState) (a : Analysis) :
    Except CompileError Analysis :=
  match out with
  | some e => if i.next < u.stop then a.merge u i.ip i.next e else .ok a
  | none => .ok a

theorem step_eq (u : CodeUnit) (i : Instr) (e : StackState) (a : Analysis) :
    step u i e a =
      stepPrimitives u i.ip i.next i.prims e a >>= fun r => leave u i r.2 r.1 := by
  unfold step leave
  rfl

/-- Some primitives that are followed have arrived wherever their edges lead. -/
theorem stepPrimitives_edges (hu : u.Checked) (ps : List Primitive) (ha : Grounded u a)
    (he : a.Finds e)
    (h : (stepPrimitives u i.ip i.next ps e a >>= fun r => leave u i r.2 r.1) = .ok a') :
    Grounded u a' ∧ Later a a' ∧
      ∀ b, Later a' b → ∀ target s, (target, s) ∈ b.edgesFrom u i ps e → Arrived u target s b := by
  induction ps generalizing e a with
  | nil =>
    have h : leave u i (some e) a = .ok a' := h
    unfold leave at h
    dsimp only at h
    unfold edgesFrom
    split at h
    · rename_i more
      obtain ⟨grows, arrived⟩ := merge_grows hu ha.size h
      refine ⟨ha.merge hu he h, grows.toLater, fun b hl target s hs => ?_⟩
      rw [if_pos more] at hs
      cases List.mem_singleton.mp hs
      exact arrived.later hl
    · rename_i more
      cases h
      refine ⟨ha, .refl _, fun b _ target s hs => ?_⟩
      rw [if_neg more] at hs
      exact absurd hs List.not_mem_nil
  | cons p ps ih =>
    obtain ⟨⟨a₂, out⟩, hsteps, h⟩ := except_bind_ok.mp h
    unfold stepPrimitives at hsteps
    obtain ⟨⟨a₁, out₁⟩, hstep, hsteps⟩ := except_bind_ok.mp hsteps
    obtain ⟨arrives, goesOn⟩ := stepPrimitive_ok hstep
    have noted := noting_later i.ip i.next p e a
    have known := he.later noted
    have grounded := ha.noting i.ip i.next p e
    have set (hk : p.op.blockKind?.isSome) := noting_handlerAt? hk hstep
    generalize noting i.ip i.next p e a = n at arrives goesOn noted known grounded set
    -- what the edge carries has arrived
    have first : Grounded u a₁ ∧ Later n a₁ ∧ ∀ target s,
        n.edge? i.next p e = some (target, s) → Arrived u target s a₁ := by
      cases hedge : n.edge? i.next p e with
      | none =>
        rw [hedge] at arrives
        obtain rfl : a₁ = n := arrives
        exact ⟨grounded, .refl a₁, fun _ _ h => by cases h⟩
      | some edge =>
        obtain ⟨target, s⟩ := edge
        rw [hedge] at arrives
        obtain ⟨grows, arrived⟩ := merge_grows hu grounded.size arrives
        refine ⟨grounded.merge hu (edge?_finds known hedge) arrives, grows.toLater,
          fun _ _ h => ?_⟩
        cases h
        exact arrived
    obtain ⟨grounded₁, later₁, arrived₁⟩ := first
    -- the edges are those of the analysis as it ends
    have same {b : Analysis} (hl : Later a₁ b) : b.edge? i.next p e = n.edge? i.next p e ∧
        b.onward? i.ip p e = n.onward? i.ip p e :=
      ⟨edge?_later known (later₁.trans hl), onward?_later known (later₁.trans hl) set⟩
    cases out₁ with
    | none =>
      cases hsteps
      cases h
      refine ⟨grounded₁, noted.trans later₁, fun b hl target s hs => ?_⟩
      unfold edgesFrom at hs
      rw [(same hl).1, (same hl).2, ← goesOn, List.append_nil, Option.mem_toList] at hs
      exact (arrived₁ target s hs).later hl
    | some e₁ =>
      have raised := (Grows.height a₁ (max a₁.maxDepth e₁.depth)).toLater
      have known₁ : a₁.Finds e₁ := (onward?_finds known goesOn.symm).later later₁
      obtain ⟨grounded₂, later₂, arrived₂⟩ := ih (grounded₁.height _) (known₁.later raised)
        (except_bind_ok.mpr ⟨_, hsteps, h⟩)
      have rest := raised.trans later₂
      refine ⟨grounded₂, (noted.trans later₁).trans rest, fun b hl target s hs => ?_⟩
      unfold edgesFrom at hs
      rw [(same (rest.trans hl)).1, (same (rest.trans hl)).2, ← goesOn] at hs
      rcases List.mem_append.mp hs with hs | hs
      · exact (arrived₁ target s (Option.mem_toList.mp hs)).later (rest.trans hl)
      · exact arrived₂ b hl target s hs

/-- An instruction that is followed has arrived wherever its edges lead. -/
theorem step_edges (hu : u.Checked) (ha : Grounded u a) (he : a.Finds e)
    (h : step u i e a = .ok a') : Grounded u a' ∧ ∀ b, Later a' b →
      ∀ target s, (target, s) ∈ b.edges u i e → Arrived u target s b := by
  rw [step_eq] at h
  obtain ⟨grounded, -, arrived⟩ := stepPrimitives_edges hu i.prims ha he h
  exact ⟨grounded, arrived⟩

/-! ## The states that setups are followed from -/

end Analysis

/-- The handler of the instruction at an index, as it is noted when control arrives there as
    told. -/
structure Handler.NotedAt (h : Handler) (ip : Nat) (e : StackState) : Prop where
  setupIp : h.setupIp = ip
  depth : h.depth = some e.depth
  parent : h.parent = e.handlers.head?

namespace Analysis

theorem noting_handlers {h : Handler} (hm : h ∈ (noting ip next p e a).handlers) :
    h ∈ a.handlers ∨ p.op.blockKind?.isSome ∧ h.NotedAt ip e := by
  unfold noting at hm
  split at hm
  · rename_i hk _
    unfold handlerFor at hm
    split at hm
    · exact .inl hm
    · rcases Array.mem_push.mp hm with hm | rfl
      · exact .inl hm
      · exact .inr ⟨by rw [hk]; rfl, rfl, rfl, rfl⟩
  · exact .inl hm

theorem Arrives.handlers {source : Nat} {edge : Option (Nat × StackState)}
    (h : Arrives u source edge a a') : a'.handlers = a.handlers := by
  cases edge with
  | none => exact congrArg _ (show a' = a from h)
  | some _ => exact Adds.merge_handlers (show a.merge u source _ _ = .ok a' from h)

/-- Following primitives notes the handler of their setup, if there is one among them. -/
theorem stepPrimitives_handlers (hu : u.Checked) (hi : u.instrAt? i.ip = some i)
    {e₀ : StackState} (ps : List Primitive) (hps : ps <:+ i.prims)
    (hset : (∃ p ∈ ps, p.op.blockKind?.isSome) → e = e₀) {out : Option StackState}
    (h : stepPrimitives u i.ip i.next ps e a = .ok (a', out)) :
    ∀ hd ∈ a'.handlers, hd ∈ a.handlers ∨ hd.NotedAt i.ip e₀ := by
  induction ps generalizing e a with
  | nil =>
    cases h
    exact fun _ hm => .inl hm
  | cons p ps ih =>
    unfold stepPrimitives at h
    obtain ⟨⟨a₁, out₁⟩, hstep, h⟩ := except_bind_ok.mp h
    obtain ⟨arrives, -⟩ := stepPrimitive_ok hstep
    have first : ∀ hd ∈ a₁.handlers, hd ∈ a.handlers ∨ hd.NotedAt i.ip e₀ := by
      rw [arrives.handlers]
      intro hd hm
      rcases noting_handlers hm with hm | ⟨hk, noted⟩
      · exact .inl hm
      · exact .inr (hset ⟨p, List.mem_cons_self, hk⟩ ▸ noted)
    cases out₁ with
    | none =>
      cases h
      exact first
    | some e₁ =>
      -- a setup stands alone, so none comes after another primitive
      have alone : ¬∃ q ∈ ps, q.op.blockKind?.isSome := by
        rintro ⟨q, hq, hk⟩
        have one := hu.alone hi hps (List.mem_cons_of_mem _ hq)
          (by rw [Opcode.standsAlone, hk]; rfl)
        rw [(List.cons_eq_cons.mp one).2] at hq
        exact absurd hq List.not_mem_nil
      intro hd hm
      rcases ih ((List.suffix_cons p ps).trans hps) (fun h => absurd h alone) h hd hm with hm | noted
      · exact first hd hm
      · exact .inr noted

theorem leave_handlers {out : Option StackState} (h : leave u i out a = .ok a') :
    a'.handlers = a.handlers := by
  unfold leave at h
  split at h
  · split at h
    · exact Adds.merge_handlers h
    · cases h
      rfl
  · cases h
    rfl

theorem step_handlers (hu : u.Checked) (hi : u.instrAt? i.ip = some i)
    (h : step u i e a = .ok a') : ∀ hd ∈ a'.handlers, hd ∈ a.handlers ∨ hd.NotedAt i.ip e := by
  rw [step_eq] at h
  obtain ⟨⟨a₁, out⟩, hsteps, h⟩ := except_bind_ok.mp h
  rw [leave_handlers h]
  exact stepPrimitives_handlers hu hi i.prims List.suffix_rfl (fun _ => rfl) hsteps

/-- A setup that is followed has a handler. -/
theorem step_handlerAt? (hp : i.prims = [p]) (hk : p.op.blockKind?.isSome)
    (h : step u i e a = .ok a') : (a'.handlerAt? i.ip).isSome := by
  rw [step_eq, hp] at h
  obtain ⟨⟨a₂, out⟩, hsteps, h⟩ := except_bind_ok.mp h
  obtain ⟨⟨a₁, out₁⟩, hstep, hsteps⟩ := except_bind_ok.mp hsteps
  have noted := noting_handlerAt? hk hstep
  have handlers : a'.handlers = (noting i.ip i.next p e a).handlers := by
    rw [leave_handlers h, ← (stepPrimitive_ok hstep).1.handlers]
    cases out₁ <;> cases hsteps <;> rfl
  unfold handlerAt? at noted ⊢
  rwa [handlers]

/-- One more instruction is followed. -/
theorem run_succ (u : CodeUnit) (n : Nat) (a : Analysis) :
    run u (n + 1) a = run u n a >>= run u 1 := by
  induction n generalizing a with
  | zero => rfl
  | succ n ih =>
    rw [run]
    conv => rhs; rw [run]
    cases hw : a.worklist with
    | nil =>
      show Except.ok a = run u 1 a
      rw [run, hw]
    | cons k rest =>
      dsimp only
      split
      · rw [bind_assoc]
        exact bind_congr fun a => ih a
      · exact ih _

end Analysis

open Analysis

/-- The analysis of a unit when so many instructions have been followed. -/
def CodeUnit.analyzeFor (u : CodeUnit) (n : Nat) : Except CompileError Analysis := do
  let a ← merge u 0 0 ⟨0, [], false⟩ { entries := .replicate u.instrs.size none }
  a.run u n

/-- At some moment the analysis of the unit follows an instruction from a state. -/
def CodeUnit.Follows (u : CodeUnit) (i : Instr) (e : StackState) : Prop :=
  ∃ n a k rest, u.analyzeFor n = .ok a ∧ a.worklist = k :: rest ∧ u.instrs[k]? = some i ∧
    a.entries[k]?.join = some e

/-- Every handler is noted from a state that its setup is followed from. -/
theorem CodeUnit.Checked.analyzeFor_handlers (hu : u.Checked) (n : Nat) {a : Analysis}
    (h : u.analyzeFor n = .ok a) :
    ∀ hd ∈ a.handlers, ∃ i e, u.instrAt? hd.setupIp = some i ∧ u.Follows i e ∧ hd.NotedAt i.ip e := by
  induction n generalizing a with
  | zero =>
    obtain ⟨a₀, hm, h⟩ := except_bind_ok.mp h
    cases h
    rw [Adds.merge_handlers hm]
    exact fun hd h => absurd h (Array.not_mem_empty hd)
  | succ n ih =>
    obtain ⟨a₀, hm, h⟩ := except_bind_ok.mp h
    rw [run_succ] at h
    obtain ⟨a₁, hrun, h⟩ := except_bind_ok.mp h
    have before : u.analyzeFor n = .ok a₁ := except_bind_ok.mpr ⟨a₀, hm, hrun⟩
    unfold run at h
    cases hw : a₁.worklist with
    | nil =>
      rw [hw] at h
      cases h
      exact ih before
    | cons k rest =>
      rw [hw] at h
      dsimp only at h
      split at h
      · rename_i i e hi he
        obtain ⟨a₂, hstep, h⟩ := except_bind_ok.mp h
        cases h
        have at_i : u.instrAt? i.ip = some i :=
          hu.instrAt?_eq_some.mpr ⟨Array.mem_toList_iff.mpr (Array.mem_of_getElem? hi), rfl⟩
        intro hd hmem
        rcases step_handlers hu at_i hstep hd hmem with old | noted
        · exact ih before hd old
        · exact ⟨i, e, by rw [noted.setupIp]; exact at_i, ⟨n, a₁, k, rest, before, hw, hi, he⟩, noted⟩
      · cases h
        exact ih (a := a₁) before

/-! ## The analysis of a unit -/

/-- Every setup with a handler is reached, and whenever an instruction was followed, every entry
    was under handlers that had been found. -/
theorem CodeUnit.Checked.analyze_grounded (hu : u.Checked) {a : Analysis}
    (h : u.analyze = .ok a) : (∀ hd ∈ a.handlers, ∃ e, a.entryAt? u hd.setupIp = some e) ∧
      ∀ ip i e, u.instrAt? ip = some i → a.entryAt? u ip = some e →
        FollowedIn (Grounded u) u i e a := by
  let P (a : Analysis) : Prop :=
    Grounded u a ∧ ∀ hd ∈ a.handlers, ∃ e, a.entryAt? u hd.setupIp = some e
  have kept : Kept u P := by
    refine ⟨fun a ha => ha.1.size, fun a ws ha => ⟨⟨ha.1.size, ha.1.finds⟩, ha.2⟩,
      fun a a' i e hi he ⟨grounded, reached⟩ h => ⟨(step_edges hu grounded (grounded.finds_at he) h).1,
        fun hd hm => ?_⟩⟩
    have later := (step_adds hu hi grounded.size h).1.toLater
    have stays {ip : Nat} {e : StackState} (he : a.entryAt? u ip = some e) :
        ∃ e', a'.entryAt? u ip = some e' :=
      (Arrived.later ⟨e, he, fun _ => rfl⟩ later).imp fun _ h => h.1
    rcases step_handlers hu hi h hd hm with old | noted
    · obtain ⟨e', he'⟩ := reached hd old
      exact stays he'
    · rw [noted.setupIp]
      exact stays he
  have first (a : Analysis) (hm : merge u 0 0 ⟨0, [], false⟩
      { entries := .replicate u.instrs.size none } = .ok a) : P a := by
    have empty : Grounded u { entries := .replicate u.instrs.size none } := by
      refine ⟨by simp, fun k e he => ?_⟩
      rw [replicate_none] at he
      cases he
    refine ⟨empty.merge hu (fun _ h => absurd h List.not_mem_nil) hm, ?_⟩
    rw [Adds.merge_handlers hm]
    exact fun hd h => absurd h (Array.not_mem_empty hd)
  obtain ⟨⟨-, reached⟩, followed⟩ := hu.analyze_followed kept first h
  refine ⟨reached, fun ip i e hi he => ?_⟩
  obtain ⟨a₁, a₂, hstep, ⟨grounded, -⟩, rest⟩ := followed ip i e hi he
  exact ⟨a₁, a₂, hstep, grounded, rest⟩

/-- What an instruction carries along an edge has arrived at the end of the edge. -/
theorem CodeUnit.Checked.analyze_edges (hu : u.Checked) {a : Analysis} (h : u.analyze = .ok a)
    {i : Instr} {e : StackState} (hi : u.instrAt? i.ip = some i)
    (he : a.entryAt? u i.ip = some e) :
    ∀ target s, (target, s) ∈ a.edges u i e → Arrived u target s a := by
  obtain ⟨a₁, a₂, hstep, grounded, he₁, -, later⟩ := (hu.analyze_grounded h).2 i.ip i e hi he
  exact (step_edges hu grounded (grounded.finds_at he₁) hstep).2 a later

/-- A setup that is reached has a handler. -/
theorem CodeUnit.Checked.analyze_handlerAt? (hu : u.Checked) {a : Analysis}
    (h : u.analyze = .ok a) {i : Instr} {p : Primitive} (hi : u.instrAt? i.ip = some i)
    (hp : p ∈ i.prims) (hk : p.op.blockKind?.isSome) {e : StackState}
    (he : a.entryAt? u i.ip = some e) : ∃ k, a.handlerAt? i.ip = some k := by
  obtain ⟨a₁, a₂, hstep, -, -, -, later⟩ := (hu.analyze_grounded h).2 i.ip i e hi he
  obtain ⟨k, hk⟩ := Option.isSome_iff_exists.mp (step_handlerAt? (hu.setup_alone hi hp hk) hk hstep)
  exact ⟨k, later.handlerAt? hk⟩

/-- **The analysis ends with a solution.**  The first instruction is reached with an empty stack
    and no handler.  What an instruction carries along an edge, computed from what is recorded
    for it, is recorded at the end of the edge, unless it went past an `END_FINALLY`.  Every
    setup that is reached has a handler, with the height and the enclosing handler that are
    recorded for the setup, if it was followed from no other height and under no other
    handlers. -/
theorem analysis_consistent {id : Ref} {parts : CodeParts} (hu : CodeUnit.ofParts id parts = .ok u)
    {a : Analysis} (h : u.analyze = .ok a) :
    a.entryAt? u 0 = some ⟨0, [], false⟩ ∧
    (∀ i ∈ u.instrs.toList, ∀ e, a.entryAt? u i.ip = some e →
      ∀ target s, (target, s) ∈ a.edges u i e →
        ∃ e', a.entryAt? u target = some e' ∧ (e' = s ∨ s.weak)) ∧
    (∀ i ∈ u.instrs.toList, (∃ p ∈ i.prims, p.op.blockKind?.isSome) →
      (a.entryAt? u i.ip).isSome → ∃ hd ∈ a.handlers, hd.setupIp = i.ip) ∧
    ∀ hd ∈ a.handlers, ∃ i e, u.instrAt? hd.setupIp = some i ∧
      i.last.op.blockKind? = some hd.kind ∧ i.target? = some hd.targetIp ∧
      a.entryAt? u hd.setupIp = some e ∧
      ((∀ e', u.Follows i e' → e'.depth = e.depth ∧ e'.handlers = e.handlers) →
        hd.depth = some e.depth ∧ hd.parent = e.handlers.head?) := by
  have hu := (CodeUnit.checked_of_ofParts hu).2
  have settled := hu.analyze_settled h
  refine ⟨settled.start, fun i hi e he target s hs => ?_, fun i hi ⟨p, hp, hk⟩ he => ?_,
    fun hd hm => ?_⟩
  · obtain ⟨e', he', same⟩ :=
      hu.analyze_edges h (hu.instrAt?_eq_some.mpr ⟨hi, rfl⟩) he target s hs
    refine ⟨e', he', ?_⟩
    cases hw : s.weak with
    | true => exact .inr rfl
    | false => exact .inl (same hw)
  · obtain ⟨e, he⟩ := Option.isSome_iff_exists.mp he
    obtain ⟨k, hk⟩ := hu.analyze_handlerAt? h (hu.instrAt?_eq_some.mpr ⟨hi, rfl⟩) hp hk he
    obtain ⟨hlt, hip, -⟩ := Array.findIdx?_eq_some_iff_getElem.mp hk
    exact ⟨a.handlers[k], Array.getElem_mem hlt, eq_of_beq hip⟩
  · obtain ⟨i, p, hi, hp, hkind, htarget⟩ := settled.setUp hd hm
    obtain ⟨e, he⟩ := (hu.analyze_grounded h).1 hd hm
    have last : i.last = p := by rw [Instr.last, hp]; rfl
    refine ⟨i, e, hi, by rw [last, hkind], by rw [Instr.target?, last, htarget], he,
      fun alone => ?_⟩
    obtain ⟨i', e', hi', follows, noted⟩ := hu.analyzeFor_handlers (2 * u.instrs.size + 1) h hd hm
    obtain rfl := Option.some.inj (hi.symm.trans hi')
    obtain ⟨depth, handlers⟩ := alone e' follows
    exact ⟨by rw [noted.depth, depth], by rw [noted.parent, handlers]⟩

/-! ### Two units -/

/-- The parts of a unit in which control comes to one instruction from two `END_FINALLY`s that
    leave different heights. -/
def CodeParts.meeting : CodeParts where
  name := "meeting"
  argcount := 1
  words := #[.ofOpcode .loadFast, ⟨1⟩, .ofOpcode .popJumpIfTrue, ⟨23⟩, .ofOpcode .loadConst, ⟨1⟩,
    .ofOpcode .loadConst, ⟨3⟩, .ofOpcode .endFinally, .ofOpcode .jumpForward, ⟨15⟩,
    .ofOpcode .loadConst, ⟨1⟩, .ofOpcode .loadConst, ⟨5⟩, .ofOpcode .loadConst, ⟨3⟩,
    .ofOpcode .endFinally, .ofOpcode .loadConst, ⟨3⟩, .ofOpcode .returnValue]
  consts := #[.int 1, .none, .int 2]
  varnames := #["a"]

/-- The unit with these parts. -/
def CodeUnit.meeting : CodeUnit := (CodeUnit.ofParts 0 .meeting).toOption.getD default

/-- Its analysis. -/
def Analysis.meeting : Analysis := CodeUnit.meeting.analyze.toOption.getD default

/-- The parts of a unit whose loop is set up first as an `END_FINALLY` leaves the stack and then
    one value higher. -/
def CodeParts.stale : CodeParts where
  name := "stale"
  argcount := 1
  words := #[.ofOpcode .loadFast, ⟨1⟩, .ofOpcode .popJumpIfTrue, ⟨19⟩, .ofOpcode .loadConst, ⟨1⟩,
    .ofOpcode .endFinally, .ofOpcode .jumpForward, ⟨5⟩, .ofOpcode .loadConst, ⟨3⟩,
    .ofOpcode .setupLoop, ⟨3⟩, .ofOpcode .breakLoop, .ofOpcode .loadConst, ⟨1⟩,
    .ofOpcode .returnValue]
  consts := #[.none, .int 1]
  varnames := #["a"]

/-- The unit with these parts. -/
def CodeUnit.stale : CodeUnit := (CodeUnit.ofParts 0 .stale).toOption.getD default

/-- Its analysis. -/
def Analysis.stale : Analysis := CodeUnit.stale.analyze.toOption.getD default

theorem analysis_consistent_of_stale :
    CodeUnit.ofParts 0 .stale = .ok .stale ∧ CodeUnit.stale.analyze = .ok .stale ∧
    Analysis.stale.entryAt? .stale 0 = some ⟨0, [], false⟩ ∧
    ∀ i ∈ CodeUnit.stale.instrs.toList, ∀ e, Analysis.stale.entryAt? .stale i.ip = some e →
      ∀ target s, (target, s) ∈ Analysis.stale.edges .stale i e →
        ∃ e', Analysis.stale.entryAt? .stale target = some e' ∧ (e' = s ∨ s.weak) := by
  have built : CodeUnit.ofParts 0 .stale = .ok .stale := eq_ok_of_isSome (by decide +kernel)
  have analyzed : CodeUnit.stale.analyze = .ok .stale := eq_ok_of_isSome (by decide +kernel)
  obtain ⟨start, edges, -⟩ := analysis_consistent built analyzed
  exact ⟨built, analyzed, start, edges⟩

/-- Of two arrivals past an `END_FINALLY` with different heights one is recorded; and a handler
    keeps the height that its setup was first followed from. -/
theorem recorded_height_differs :
    (CodeUnit.ofParts 0 .meeting = .ok .meeting ∧ CodeUnit.meeting.analyze = .ok .meeting ∧
      Analysis.meeting.entryAt? .meeting 18 = some ⟨1, [], true⟩ ∧
      ∃ i ∈ CodeUnit.meeting.instrs.toList,
        Analysis.meeting.entryAt? .meeting i.ip = some ⟨3, [], false⟩ ∧
        (18, ⟨2, [], true⟩) ∈ Analysis.meeting.edges .meeting i ⟨3, [], false⟩) ∧
    (CodeUnit.ofParts 0 .stale = .ok .stale ∧ CodeUnit.stale.analyze = .ok .stale ∧
      ∃ hd ∈ Analysis.stale.handlers, hd.depth = some 0 ∧
        Analysis.stale.entryAt? .stale hd.setupIp = some ⟨1, [], false⟩) :=
  ⟨⟨eq_ok_of_isSome (by decide +kernel), eq_ok_of_isSome (by decide +kernel),
      by decide +kernel, by decide +kernel⟩,
    eq_ok_of_isSome (by decide +kernel), eq_ok_of_isSome (by decide +kernel), by decide +kernel⟩

end TieredMachine
